import NodeAccess.Foundation.Json
import NodeAccess.Foundation.Table
import NodeAccess.Relay.Peer

/-! # The state of a relay session and its operations

Each operation runs under the session's lock. It returns the new state and the
uses of peers' senders that it makes, in order: what a full or closed queue does
to a send never flows back into the state.
-/

namespace NodeAccess.Relay

open Foundation

def pendingFrameLimit : ℕ := 200

structure SessionState where
  v1Server : Option PeerHandle
  v1Client : Option PeerHandle
  serverControl : Option PeerHandle
  serverData : Table String PeerHandle
  clients : Table String (Table PeerId PeerHandle)
  pending : Table String (List RelayFrame)

def SessionState.default : SessionState := ⟨none, none, none, ∅, ∅, ∅⟩

/-- One use of a peer's sender: `send_or_close` or `close_handle`. -/
inductive Send where
  | sendOrClose (handle : PeerHandle) (message : OutboundMessage)
  | closeHandle (handle : PeerHandle) (code : ℕ) (reason : String)
deriving DecidableEq, Repr

def Send.target : Send → PeerId
  | .sendOrClose handle _ => handle.peerMeta.peerId
  | .closeHandle handle _ _ => handle.peerMeta.peerId

def RelayFrame.toMessage : RelayFrame → OutboundMessage
  | .text t => .text t
  | .binary b => .binary b

def forwardFrame (target : PeerHandle) (frame : RelayFrame) : Send :=
  .sendOrClose target frame.toMessage

/-! ## Control channel texts -/

def syncJson (connectionIds : List String) : Json :=
  .object [("connectionIds", .array (connectionIds.map .string)), ("type", .string "sync")]

def connectedJson (connectionId : String) : Json :=
  .object [("connectionId", .string connectionId), ("type", .string "connected")]

def disconnectedJson (connectionId : String) : Json :=
  .object [("connectionId", .string connectionId), ("type", .string "disconnected")]

def pongJson (nowMs : ℕ) : Json :=
  .object [("ts", .number (toString nowMs)), ("type", .string "pong")]

variable (serde : SerdeJson)

def textIsPing (text : String) : Bool :=
  (((serde.fromStr text).bind (Json.get "type")).bind Json.asStr).elim false (· == "ping")

def notifyControlLocked (state : SessionState) (message : Json) : List Send :=
  match state.serverControl with
  | some control => [.sendOrClose control (.text (serde.toText message))]
  | none => []

/-! ## Pending frames, counting and clearing -/

/-- The loop that pops from the front while the queue is over the limit. -/
def popOverflow : List RelayFrame → List RelayFrame
  | [] => []
  | frame :: frames =>
    if pendingFrameLimit < (frame :: frames).length then popOverflow frames else frame :: frames

def bufferPendingLocked (state : SessionState) (connectionId : String) (frame : RelayFrame) :
    SessionState :=
  let pending := ((state.pending.get connectionId).getD []) ++ [frame]
  { state with pending := state.pending.insert connectionId (popOverflow pending) }

def flushPendingLocked (state : SessionState) (connectionId : String) (handle : PeerHandle) :
    SessionState × List Send :=
  match state.pending.get connectionId with
  | none => (state, [])
  | some pending =>
    ({ state with pending := state.pending.remove connectionId },
      pending.map (forwardFrame handle))

/-- The ids of the connections with a client, sorted. -/
def collectClientConnectionIds (state : SessionState) : List String :=
  let ids := state.clients.keys.filter fun id => ((state.clients.get id).getD ∅).len != 0
  ids.dedup.insertionSort (· ≤ ·)

def slotCount (slot : Option PeerHandle) : ℕ := if slot.isSome then 1 else 0

def countLiveSockets (state : SessionState) : ℕ :=
  slotCount state.v1Server + slotCount state.v1Client + slotCount state.serverControl +
    state.serverData.len + state.clients.total Table.len

def clearIfSame (slot : Option PeerHandle) (peerId : PeerId) : Option PeerHandle :=
  slot.filter fun handle => handle.peerMeta.peerId ≠ peerId

theorem clearIfSame_eq_some {slot : Option PeerHandle} {peerId : PeerId} {handle : PeerHandle} :
    clearIfSame slot peerId = some handle ↔ slot = some handle ∧
      handle.peerMeta.peerId ≠ peerId := by
  simp [clearIfSame, Option.filter_eq_some_iff]

theorem clearIfSame_some (handle : PeerHandle) (peerId : PeerId) :
    clearIfSame (some handle) peerId =
      if handle.peerMeta.peerId = peerId then none else some handle := by
  by_cases h : handle.peerMeta.peerId = peerId <;> simp [clearIfSame, Option.filter_some, h]

@[simp] theorem clearIfSame_none (peerId : PeerId) : clearIfSame none peerId = none := rfl

def closeReplaced (existing : Option PeerHandle) : List Send :=
  existing.toList.map fun handle => .closeHandle handle 1008 "Replaced by new connection"

/-! ## Registration -/

/-- What `register` returns and does. `nudge` is the connection id of the nudge
task that it spawns. -/
structure Registration where
  result : Except String Unit
  state : SessionState
  sends : List Send
  nudge : Option String

def register (limits : RelayLimitsConfig) (state : SessionState) (handle : PeerHandle) :
    Registration :=
  if limits.maxSocketsPerSession ≤ countLiveSockets state then
    ⟨.error "Session socket limit exceeded", state, [], none⟩
  else
    match handle.peerMeta.kind with
    | .v1Server =>
      ⟨.ok (), { state with v1Server := some handle }, closeReplaced state.v1Server, none⟩
    | .v1Client =>
      ⟨.ok (), { state with v1Client := some handle }, closeReplaced state.v1Client, none⟩
    | .v2ServerControl =>
      let next := { state with serverControl := some handle }
      let sync := serde.toText (syncJson (collectClientConnectionIds next))
      ⟨.ok (), next,
        closeReplaced state.serverControl ++ [.sendOrClose handle (.text sync)], none⟩
    | .v2ServerData connectionId =>
      let next := { state with serverData := state.serverData.insert connectionId handle }
      let flushed := flushPendingLocked next connectionId handle
      ⟨.ok (), flushed.1, closeReplaced (state.serverData.get connectionId) ++ flushed.2, none⟩
    | .v2Client connectionId =>
      let clients := (state.clients.get connectionId).getD ∅
      if limits.maxClientsPerConnection ≤ clients.len then
        ⟨.error "Client connection limit exceeded",
          { state with clients := state.clients.orInsert connectionId ∅ }, [], none⟩
      else
        let next := { state with
          clients := state.clients.insert connectionId
            (clients.insert handle.peerMeta.peerId handle) }
        ⟨.ok (), next, notifyControlLocked serde next (connectedJson connectionId),
          some connectionId⟩

/-! ## Frames and pings -/

def handleFrame (state : SessionState) (peerMeta : PeerMeta) (frame : RelayFrame) (nowMs : ℕ) :
    SessionState × List Send :=
  match peerMeta.version, peerMeta.kind, frame with
  | .v1, .v1Server, frame =>
    (state, state.v1Client.toList.map fun target => forwardFrame target frame)
  | .v1, .v1Client, frame =>
    (state, state.v1Server.toList.map fun target => forwardFrame target frame)
  | .v2, .v2ServerControl, .text text =>
    if textIsPing serde text then
      match state.serverControl with
      | some control =>
        if control.peerMeta.peerId = peerMeta.peerId then
          (state, [.sendOrClose control (.text (serde.toText (pongJson nowMs)))])
        else (state, [])
      | none => (state, [])
    else (state, [])
  | .v2, .v2ServerControl, .binary _ => (state, [])
  | .v2, .v2Client connectionId, frame =>
    match state.serverData.get connectionId with
    | some server => (state, [forwardFrame server frame])
    | none => (bufferPendingLocked state connectionId frame, [])
  | .v2, .v2ServerData connectionId, frame =>
    (state, ((state.clients.get connectionId).getD ∅).values.map fun target =>
      forwardFrame target frame)
  | _, _, _ => (state, [])

/-- The slot that a peer's pings are answered through. -/
def pingTarget (state : SessionState) (peerMeta : PeerMeta) : Option PeerHandle :=
  match peerMeta.kind with
  | .v1Server => state.v1Server
  | .v1Client => state.v1Client
  | .v2ServerControl => state.serverControl
  | .v2ServerData connectionId => state.serverData.get connectionId
  | .v2Client connectionId =>
    (state.clients.get connectionId).bind fun clients => clients.get peerMeta.peerId

def handlePing (state : SessionState) (peerMeta : PeerMeta) (payload : List UInt8) : List Send :=
  (pingTarget state peerMeta).toList.map fun handle => .sendOrClose handle (.pong payload)

/-! ## Unregistration -/

/-- What the departure of the last client of a connection does. -/
def endConnection (state : SessionState) (connectionId : String) : SessionState × List Send :=
  let next := { state with
    clients := state.clients.remove connectionId
    pending := state.pending.remove connectionId
    serverData := state.serverData.remove connectionId }
  (next,
    (state.serverData.get connectionId).toList.map
        (fun server => .closeHandle server 1001 "Client disconnected") ++
      notifyControlLocked serde next (disconnectedJson connectionId))

def unregister (state : SessionState) (peerMeta : PeerMeta) : SessionState × List Send :=
  match peerMeta.kind with
  | .v1Server => ({ state with v1Server := clearIfSame state.v1Server peerMeta.peerId }, [])
  | .v1Client => ({ state with v1Client := clearIfSame state.v1Client peerMeta.peerId }, [])
  | .v2ServerControl =>
    ({ state with serverControl := clearIfSame state.serverControl peerMeta.peerId }, [])
  | .v2Client connectionId =>
    match state.clients.get connectionId with
    | none => (state, [])
    | some clients =>
      let remaining := clients.remove peerMeta.peerId
      let next := { state with clients := state.clients.insert connectionId remaining }
      if remaining.len = 0 then endConnection serde next connectionId else (next, [])
  | .v2ServerData connectionId =>
    let stored := (state.serverData.get connectionId).any fun handle =>
      handle.peerMeta.peerId = peerMeta.peerId
    let next := if stored then
      { state with serverData := state.serverData.remove connectionId } else state
    (next, ((next.clients.get connectionId).getD ∅).values.map fun client =>
      .closeHandle client 1012 "Server disconnected")

/-! ## The nudge task -/

/-- The lock acquisitions of `nudge_or_reset_control`, in order. The first and the
fourth come after a sleep. -/
inductive NudgeStage where
  | checkClient
  | checkData
  | sync
  | recheckClient
  | recheckData
  | reset
deriving DecidableEq, Repr

def hasClientSocket (state : SessionState) (connectionId : String) : Bool :=
  (state.clients.get connectionId).any fun clients => clients.len != 0

def hasServerDataSocket (state : SessionState) (connectionId : String) : Bool :=
  state.serverData.containsKey connectionId

/-- One lock acquisition of the task: the stage that follows, if the task goes on,
and what it sends. -/
def nudgeOrResetControl (state : SessionState) (connectionId : String) :
    NudgeStage → Option NudgeStage × List Send
  | .checkClient => (if hasClientSocket state connectionId then some .checkData else none, [])
  | .checkData => (if hasServerDataSocket state connectionId then none else some .sync, [])
  | .sync => (some .recheckClient,
      notifyControlLocked serde state (syncJson (collectClientConnectionIds state)))
  | .recheckClient => (if hasClientSocket state connectionId then some .recheckData else none, [])
  | .recheckData => (if hasServerDataSocket state connectionId then none else some .reset, [])
  | .reset => (none, state.serverControl.toList.map fun control =>
      .closeHandle control 1011 "Control unresponsive")

end NodeAccess.Relay
