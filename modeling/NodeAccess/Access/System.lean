import NodeAccess.Mux.Pair
import NodeAccess.Relay.Forwarding
import NodeAccess.Relay.Noninterference
import NodeAccess.Serve.Mapping

/-! # Visitors, a serving node and the relay session between them

Every visitor mapping has a websocket to the relay with a mux of its own, and so has the
serving node for each connection id. The relay forwards the messages of these sockets to
each other; the system takes one step of a mux or of the relay at a time.
-/

namespace NodeAccess.Access

open Foundation Crypto Mux Relay
open Serve (VisitorMapping)

structure RuntimeConfig where
  secret : Option String
  name : String
  connectionId : Option String
deriving DecidableEq, Repr

/-- What `spawn_visitor_listener` asks for. -/
def visitRequest (visitor : VisitorMapping) : OpenRequest := .visit visitor.service visitor.auth

/-- The connection id of `run_remote_visitor_once`. -/
def RuntimeConfig.connectionIdFor (config : RuntimeConfig) (visitor : VisitorMapping) : String :=
  config.connectionId.getD ("access-" ++ config.name ++ "-to-" ++ visitor.node)

/-- What the relay makes of the url of `connect_client_data` or `connect_server_data`. -/
def connectData (role node connectionId : String) (peerUuid connectionUuid : ℕ) : Option PeerMeta :=
  match validateParams ⟨some node, some role, some "2", some connectionId⟩ with
  | .ok params => buildPeerMeta params peerUuid connectionUuid
  | .error _ => none

/-- A websocket of a node tool. `uplink` holds the messages that the relay has not read,
`heard` counts the messages that the mux has taken from the relay. `relayed` records the
messages that the relay has read. -/
structure Socket where
  peerMeta : PeerMeta
  crypto : Option FrameCrypto
  mux : MuxConnection
  uplink : List (List UInt8)
  relayed : List (List UInt8)
  heard : ℕ

/-- A websocket with its mux. The mux of a refused socket hears nothing. -/
def Socket.new (peerMeta : PeerMeta) (firstStreamId : UInt32) (crypto : Option FrameCrypto)
    (accepted : Bool) : Socket :=
  ⟨peerMeta, crypto, { MuxConnection.start firstStreamId crypto with readerOpen := accepted },
    [], [], 0⟩

/-- What the mux makes of a message of the relay. Texts and pongs are passed over. -/
def Socket.read (serde : SerdeSlice) (aes : AesGcm) (k : Socket) : OutboundMessage → MuxConnection
  | .binary bytes => k.mux.readLoop serde aes bytes
  | .close _ _ => { k.mux with readerOpen := false }
  | .text _ | .pong _ => k.mux

/-- `inUse` lists the sockets that were opened, by their side and connection id. -/
structure System where
  world : World
  socket : PeerId → Option Socket
  inUse : List PeerKind

inductive SystemEvent where
  | visit (config : RuntimeConfig) (visitor : VisitorMapping) (peerUuid connectionUuid : ℕ)
    (pace : List Gap)
  | serve (config : RuntimeConfig) (connectionId : String) (peerUuid : ℕ) (pace : List Gap)
  | relay (event : WorldEvent)
  | forward (p : PeerId) (nowMs : ℕ) (pace : List Gap)
  | call (p : PeerId) (event : StreamEvent)
  | writeLoop (p : PeerId)
  | writerEnd (p : PeerId)
  | readLoop (p : PeerId)
  | readerEnd (p : PeerId)
deriving DecidableEq, Repr

/-- The events of the relay that are no business of the muxes: those of the node's control
socket, and the pings, departures, nudges and write tasks of all sockets. -/
def isRelayWork : WorldEvent → Bool
  | .session (.register peerMeta) _ | .session (.frame peerMeta _ _) _ =>
    peerMeta.kind = .v2ServerControl
  | _ => true

namespace System

variable (session : RelaySession) (serde : SerdeSlice) (aes : AesGcm)
    (sha256 : List UInt8 → List UInt8)

def init : System := ⟨.init session, fun _ => none, []⟩

def setSocket (s : System) (p : PeerId) (k : Socket) : System :=
  { s with socket := Function.update s.socket p (some k) }

def connect (s : System) (peerMeta : PeerMeta) (firstStreamId : UInt32)
    (crypto : Option FrameCrypto) (pace : List Gap) : Option System :=
  (s.world.step session (.session (.register peerMeta) pace)).map fun world =>
    { s with world := world, inUse := s.inUse ++ [peerMeta.kind] }.setSocket peerMeta.peerId
      (.new peerMeta firstStreamId crypto (world.phase peerMeta.peerId = Phase.registered peerMeta))

def stepMux (s : System) (p : PeerId)
    (f : MuxConnection → Option (MuxConnection × Option (List UInt8))) : Option System :=
  (s.socket p).bind fun k => (f k.mux).map fun r =>
    s.setSocket p { k with mux := r.1, uplink := k.uplink ++ r.2.toList }

def step (s : System) : SystemEvent → Option System
  | .visit config visitor peerUuid connectionUuid pace =>
    (connectData "client" visitor.node (config.connectionIdFor visitor) peerUuid
      connectionUuid).bind
      fun peerMeta => s.connect session peerMeta 1
        (config.secret.map fun secret => .fromSecret sha256 secret 0 1) pace
  | .serve config connectionId peerUuid pace =>
    (connectData "server" config.name connectionId peerUuid 0).bind fun peerMeta =>
      if peerMeta.kind.connection.isSome then
        s.connect session peerMeta 2
          (config.secret.map fun secret => .fromSecret sha256 secret 1 0) pace
      else none
  | .relay event =>
    if isRelayWork event then (s.world.step session event).map fun world =>
      { s with world := world }
    else none
  | .forward p nowMs pace =>
    (s.socket p).bind fun k =>
      match k.uplink with
      | bytes :: rest =>
        (s.world.step session (.session (.frame k.peerMeta (.binary bytes) nowMs) pace)).map
          fun world =>
          { s with world := world }.setSocket p
            { k with uplink := rest, relayed := k.relayed ++ [bytes] }
      | [] => none
  | .call p event => s.stepMux p fun m => (m.call event).map fun m' => (m', none)
  | .writeLoop p => s.stepMux p fun m => m.writeLoop serde aes
  | .writerEnd p => s.stepMux p fun m => some (m.stopWriter, none)
  | .readLoop p =>
    (s.socket p).bind fun k =>
      if k.mux.readerOpen then
        (s.world.queue p).chan.taken[k.heard]?.map fun message =>
          s.setSocket p { k with mux := k.read serde aes message, heard := k.heard + 1 }
      else none
  | .readerEnd p => s.stepMux p fun m => some ({ m with readerOpen := false }, none)

/-- The inputs that the tools can cope with: on each side no two sockets use one connection id,
and no mux opens more streams than it has ids. -/
def copes (s : System) : SystemEvent → Bool
  | .visit config visitor peerUuid connectionUuid _ =>
    (connectData "client" visitor.node (config.connectionIdFor visitor) peerUuid connectionUuid).all
      fun peerMeta => peerMeta.kind ∉ s.inUse
  | .serve config connectionId peerUuid _ =>
    (connectData "server" config.name connectionId peerUuid 0).all fun peerMeta =>
      peerMeta.kind ∉ s.inUse
  | .call p (.openBegin _) => (s.socket p).all fun k => k.mux.endpoint.opened < 2 ^ 31
  | _ => true

end System

/-! ## Sockets of one connection -/

def firstStreamId : PeerKind → UInt32
  | .v2Client _ => 1
  | _ => 2

theorem own_opposite {kind : PeerKind} (h : kind.connection.isSome) (i : UInt32) :
    Own (firstStreamId kind.opposite) i ↔ ¬ Own (firstStreamId kind) i := by
  cases kind with
  | v2Client c => exact Side.own_other .odd i
  | v2ServerData c => exact Side.own_other .even i
  | _ => cases h

theorem connection_opposite (kind : PeerKind) : kind.opposite.connection = kind.connection := by
  cases kind <;> rfl

theorem opposite_opposite (kind : PeerKind) : kind.opposite.opposite = kind := by
  cases kind <;> rfl

theorem validateParams_connect {node connectionId role : String} {r : ConnectionRole}
    (hrole : ConnectionRole.parse role = some r) {params : WsParams}
    (h : validateParams ⟨some node, some role, some "2", some connectionId⟩ = .ok params) :
    params.role = r ∧ params.version = .v2 := by
  have hversion : RelayVersion.parse (some "2") = .ok .v2 := by decide
  cases hn : nonBlank (some node) with
  | none => simp [validateParams, hn, bind, Except.bind, throw, throwThe, MonadExceptOf.throw] at h
  | some serverId =>
    simp only [validateParams, hn, hrole, hversion, Option.bind_some, bind, Except.bind, pure,
      Except.pure, Except.ok.injEq] at h
    subst h
    exact ⟨rfl, rfl⟩

theorem connectData_eq_some {node connectionId role : String} {r : ConnectionRole}
    (hrole : ConnectionRole.parse role = some r) {peerUuid connectionUuid : ℕ} {peerMeta : PeerMeta}
    (h : connectData role node connectionId peerUuid connectionUuid = some peerMeta) :
    ∃ serverId connectionId,
      buildPeerMeta ⟨serverId, r, .v2, connectionId⟩ peerUuid connectionUuid = some peerMeta := by
  unfold connectData at h
  cases hp : validateParams ⟨some node, some role, some "2", some connectionId⟩ with
  | error e => simp [hp] at h
  | ok params =>
    rw [hp] at h
    obtain ⟨rfl, hversion⟩ := validateParams_connect hrole hp
    exact ⟨params.serverId, params.connectionId, hversion ▸ h⟩

theorem connectData_client {node connectionId : String} {peerUuid connectionUuid : ℕ}
    {peerMeta : PeerMeta}
    (h : connectData "client" node connectionId peerUuid connectionUuid = some peerMeta) :
    ∃ c, peerMeta.kind = .v2Client c := by
  obtain ⟨serverId, connectionId, hmeta⟩ := connectData_eq_some rfl h
  cases connectionId <;> obtain rfl := Option.some.inj hmeta <;> exact ⟨_, rfl⟩

theorem connectData_server {node connectionId : String} {peerUuid connectionUuid : ℕ}
    {peerMeta : PeerMeta}
    (h : connectData "server" node connectionId peerUuid connectionUuid = some peerMeta) :
    peerMeta.kind = .v2ServerControl ∨ ∃ c, peerMeta.kind = .v2ServerData c := by
  obtain ⟨serverId, connectionId, hmeta⟩ := connectData_eq_some rfl h
  cases connectionId with
  | none =>
    obtain rfl := Option.some.inj hmeta
    exact .inl rfl
  | some id =>
    obtain rfl := Option.some.inj hmeta
    exact .inr ⟨id, rfl⟩

end NodeAccess.Access
