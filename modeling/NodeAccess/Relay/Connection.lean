import NodeAccess.Relay.World

/-! # A session as a family of connections

A connection id owns one entry of each of three tables: the server-data socket, the
clients and the pending frames. Seen through these entries every session operation is
a step of one connection, or of none: this module has the connection's own machine and
shows that the session runs one copy of it for each connection id.
-/

namespace NodeAccess.Relay

open Foundation

structure Connection where
  server : Option PeerHandle
  clients : Option (Table PeerId PeerHandle)
  pending : Option (List RelayFrame)

/-- What peers of a connection can do to it. -/
inductive ConnectionOp where
  | attach (handle : PeerHandle)
  | join (handle : PeerHandle)
  | refuse
  | clientFrame (frame : RelayFrame)
  | serverFrame (frame : RelayFrame)
  | pingServer (payload : List UInt8)
  | pingClient (peerId : PeerId) (payload : List UInt8)
  | leave (peerId : PeerId)
  | detach (peerId : PeerId)
deriving DecidableEq, Repr

namespace Connection

def members (k : Connection) : Table PeerId PeerHandle := k.clients.getD ∅

/-- The last client leaves with this departure. -/
def endsWith (k : Connection) (peerId : PeerId) : Bool :=
  k.clients.any fun clients => (clients.remove peerId).len = 0

def step (k : Connection) : ConnectionOp → Connection
  | .attach handle => ⟨some handle, k.clients, none⟩
  | .join handle => { k with clients := some (k.members.insert handle.peerMeta.peerId handle) }
  | .refuse => { k with clients := some k.members }
  | .clientFrame frame =>
    if k.server.isSome then k
    else { k with pending := some (popOverflow (k.pending.getD [] ++ [frame])) }
  | .leave peerId =>
    if k.endsWith peerId then ⟨none, none, none⟩
    else { k with clients := k.clients.map fun clients => clients.remove peerId }
  | .detach peerId => { k with server := clearIfSame k.server peerId }
  | .serverFrame _ | .pingServer _ | .pingClient _ _ => k

def sends (k : Connection) : ConnectionOp → List Send
  | .attach handle => closeReplaced k.server ++ (k.pending.getD []).map (forwardFrame handle)
  | .clientFrame frame => k.server.toList.map fun server => forwardFrame server frame
  | .serverFrame frame => k.members.values.map fun client => forwardFrame client frame
  | .pingServer payload => k.server.toList.map fun server => .sendOrClose server (.pong payload)
  | .pingClient peerId payload =>
    (k.members.get peerId).toList.map fun client => .sendOrClose client (.pong payload)
  | .leave peerId =>
    if k.endsWith peerId then
      k.server.toList.map fun server => .closeHandle server 1001 "Client disconnected"
    else []
  | .detach _ => k.members.values.map fun client => .closeHandle client 1012 "Server disconnected"
  | .join _ | .refuse => []

end Connection

def SessionState.connection (state : SessionState) (connectionId : String) : Connection :=
  ⟨state.serverData.get connectionId, state.clients.get connectionId,
    state.pending.get connectionId⟩

/-- The connection that an event steps, and how. -/
def SessionEvent.connectionOp (limits : RelayLimitsConfig) (state : SessionState) :
    SessionEvent → Option (String × ConnectionOp)
  | .register peerMeta =>
    if limits.maxSocketsPerSession ≤ countLiveSockets state then none
    else match peerMeta.kind with
      | .v2ServerData id => some (id, .attach ⟨peerMeta⟩)
      | .v2Client id =>
        if limits.maxClientsPerConnection ≤ (state.connection id).members.len then
          some (id, .refuse)
        else some (id, .join ⟨peerMeta⟩)
      | _ => none
  | .frame peerMeta relayFrame _ =>
    match peerMeta.version, peerMeta.kind with
    | .v2, .v2Client id => some (id, .clientFrame relayFrame)
    | .v2, .v2ServerData id => some (id, .serverFrame relayFrame)
    | _, _ => none
  | .ping peerMeta payload =>
    match peerMeta.kind with
    | .v2ServerData id => some (id, .pingServer payload)
    | .v2Client id => some (id, .pingClient peerMeta.peerId payload)
    | _ => none
  | .unregister peerMeta =>
    match peerMeta.kind with
    | .v2ServerData id => some (id, .detach peerMeta.peerId)
    | .v2Client id => some (id, .leave peerMeta.peerId)
    | _ => none
  | .nudge _ => none

/-- The event behind an operation on a connection: whose call it is, and of what kind
the peer is. -/
def ConnectionOp.Origin (id : String) (event : SessionEvent) : ConnectionOp → Prop
  | .attach handle => event = .register handle.peerMeta ∧ handle.peerMeta.kind = .v2ServerData id
  | .join handle => event = .register handle.peerMeta ∧ handle.peerMeta.kind = .v2Client id
  | .refuse => ∃ peerMeta, event = .register peerMeta ∧ peerMeta.kind = .v2Client id
  | .clientFrame frame =>
    ∃ peerMeta nowMs, event = .frame peerMeta frame nowMs ∧ peerMeta.kind = .v2Client id
  | .serverFrame frame =>
    ∃ peerMeta nowMs, event = .frame peerMeta frame nowMs ∧ peerMeta.kind = .v2ServerData id
  | .pingServer payload => ∃ peerMeta, event = .ping peerMeta payload ∧
      peerMeta.kind = .v2ServerData id
  | .pingClient p payload =>
    ∃ peerMeta, event = .ping peerMeta payload ∧ peerMeta.kind = .v2Client id ∧ peerMeta.peerId = p
  | .leave p => ∃ peerMeta, event = .unregister peerMeta ∧ peerMeta.kind = .v2Client id ∧
      peerMeta.peerId = p
  | .detach p =>
    ∃ peerMeta, event = .unregister peerMeta ∧ peerMeta.kind = .v2ServerData id ∧
      peerMeta.peerId = p

theorem SessionEvent.origin_of_connectionOp {limits : RelayLimitsConfig} {state : SessionState}
    {event : SessionEvent} {id : String} {op : ConnectionOp}
    (h : event.connectionOp limits state = some (id, op)) : op.Origin id event := by
  cases event with
  | register peerMeta =>
    simp only [SessionEvent.connectionOp] at h
    split_ifs at h
    split at h
    · rename_i hk
      cases h
      exact ⟨rfl, hk⟩
    · rename_i hk
      split_ifs at h
      · cases h
        exact ⟨peerMeta, rfl, hk⟩
      · cases h
        exact ⟨rfl, hk⟩
    · cases h
  | frame peerMeta frame nowMs =>
    simp only [SessionEvent.connectionOp] at h
    split at h
    · rename_i hk
      cases h
      exact ⟨peerMeta, nowMs, rfl, hk⟩
    · rename_i hk
      cases h
      exact ⟨peerMeta, nowMs, rfl, hk⟩
    · cases h
  | ping peerMeta payload =>
    simp only [SessionEvent.connectionOp] at h
    split at h
    · rename_i hk
      cases h
      exact ⟨peerMeta, rfl, hk⟩
    · rename_i hk
      cases h
      exact ⟨peerMeta, rfl, hk, rfl⟩
    · cases h
  | unregister peerMeta =>
    simp only [SessionEvent.connectionOp] at h
    split at h
    · rename_i hk
      cases h
      exact ⟨peerMeta, rfl, hk, rfl⟩
    · rename_i hk
      cases h
      exact ⟨peerMeta, rfl, hk, rfl⟩
    · cases h
  | nudge peerId => cases h

/-- The sockets of a session that belong to no connection. -/
def SessionState.slots (state : SessionState) : List PeerHandle :=
  state.v1Server.toList ++ state.v1Client.toList ++ state.serverControl.toList

/-- A connection id that no operation touched keeps its connection. -/
def SessionState.applied (state : SessionState) (op : Option (String × ConnectionOp))
    (id : String) :
    Connection :=
  match op with
  | some (touched, op) =>
    if id = touched then (state.connection id).step op else state.connection id
  | none => state.connection id

def SessionState.opSends (state : SessionState) : Option (String × ConnectionOp) → List Send
  | some (touched, op) => (state.connection touched).sends op
  | none => []

/-- Every one of these sends goes to a socket in one of the slots. -/
def ToSlots (slots : List PeerHandle) (sends : List Send) : Prop :=
  ∀ send ∈ sends, ∃ handle ∈ slots, send.target = handle.peerMeta.peerId

/-! ## The session runs its connections -/

theorem flushPendingLocked_eq (state : SessionState) (id : String) (handle : PeerHandle) :
    flushPendingLocked state id handle =
      ({ state with pending := state.pending.remove id },
        ((state.pending.get id).getD []).map (forwardFrame handle)) := by
  unfold flushPendingLocked
  cases h : state.pending.get id with
  | none =>
    rw [Table.remove_of_get_eq_none h]
    rfl
  | some pending => rfl

variable (serde : SerdeJson) (limits : RelayLimitsConfig) (state : SessionState)
  (peerMeta : PeerMeta) (id : String)

theorem register_connection :
    (register serde limits state ⟨peerMeta⟩).state.connection id =
      state.applied (SessionEvent.connectionOp limits state (.register peerMeta)) id := by
  unfold register SessionEvent.connectionOp
  by_cases hfull : limits.maxSocketsPerSession ≤ countLiveSockets state
  · simp [hfull, SessionState.applied]
  · simp only [hfull, if_false]
    cases hk : peerMeta.kind with
    | v1Server => rfl
    | v1Client => rfl
    | v2ServerControl => rfl
    | v2ServerData c =>
      simp only [flushPendingLocked_eq, SessionState.applied, SessionState.connection,
        Connection.step, Table.get_insert, Table.get_remove]
      by_cases hc : id = c <;> simp [hc]
    | v2Client c =>
      change _ = state.applied (if limits.maxClientsPerConnection ≤
        ((state.clients.get c).getD ∅).len then _ else _) id
      by_cases hlen : limits.maxClientsPerConnection ≤ ((state.clients.get c).getD ∅).len
      · simp only [hlen, if_true, SessionState.applied, SessionState.connection, Connection.step]
        by_cases hc : id = c
        · subst hc
          simp [Table.get_orInsert_self, Connection.members]
        · simp [hc, Table.get_orInsert_of_ne]
      · simp only [hlen, if_false, SessionState.applied, SessionState.connection, Connection.step,
          Table.get_insert]
        by_cases hc : id = c <;> simp [hc, Connection.members]

theorem handleFrame_connection (frame : RelayFrame) (nowMs : ℕ) :
    (handleFrame serde state peerMeta frame nowMs).1.connection id =
      state.applied (SessionEvent.connectionOp limits state (.frame peerMeta frame nowMs)) id := by
  unfold handleFrame SessionEvent.connectionOp
  cases hv : peerMeta.version with
  | v1 => cases hk : peerMeta.kind <;> cases frame <;> simp [hv, hk, SessionState.applied]
  | v2 =>
    cases hk : peerMeta.kind with
    | v1Server => simp [hv, hk, SessionState.applied]
    | v1Client => simp [hv, hk, SessionState.applied]
    | v2ServerControl =>
      cases frame with
      | binary bytes => simp [hv, hk, SessionState.applied]
      | text text =>
        simp only [hv, hk, SessionState.applied]
        split_ifs
        · cases state.serverControl with
          | none => rfl
          | some control =>
            by_cases hp : control.peerMeta.peerId = peerMeta.peerId <;> simp [hp]
        · rfl
    | v2ServerData c => simp [hv, hk, SessionState.applied, Connection.step]
    | v2Client c =>
      simp only [hv, hk, SessionState.applied, Connection.step]
      cases hs : state.serverData.get c with
      | some server =>
        by_cases hc : id = c
        · subst hc
          simp [SessionState.connection, hs]
        · simp [hc]
      | none =>
        by_cases hc : id = c
        · subst hc
          simp [SessionState.connection, bufferPendingLocked, hs]
        · simp [SessionState.connection, bufferPendingLocked, hc, Table.get_insert]

theorem unregister_connection :
    (unregister serde state peerMeta).1.connection id =
      state.applied (SessionEvent.connectionOp limits state (.unregister peerMeta)) id := by
  simp only [unregister, SessionEvent.connectionOp]
  cases hk : peerMeta.kind with
  | v1Server => rfl
  | v1Client => rfl
  | v2ServerControl => rfl
  | v2ServerData c =>
    simp only [SessionState.applied, Connection.step]
    cases hs : state.serverData.get c with
    | none =>
      by_cases hc : id = c
      · subst hc
        simp [SessionState.connection, hs]
      · simp [hc]
    | some server =>
      by_cases hp : server.peerMeta.peerId = peerMeta.peerId
      · by_cases hc : id = c
        · subst hc
          simp [SessionState.connection, hs, hp, clearIfSame_some]
        · simp [SessionState.connection, hc, hp, Table.get_remove]
      · by_cases hc : id = c
        · subst hc
          simp [SessionState.connection, hs, hp, clearIfSame_some]
        · simp [hc, hp]
  | v2Client c =>
    simp only [SessionState.applied, Connection.step]
    cases hs : state.clients.get c with
    | none =>
      by_cases hc : id = c
      · subst hc
        simp [SessionState.connection, hs, Connection.endsWith]
      · simp [hc]
    | some clients =>
      by_cases hl : (clients.remove peerMeta.peerId).len = 0
      · by_cases hc : id = c
        · subst hc
          simp [SessionState.connection, hs, hl, endConnection, Connection.endsWith]
        · simp [SessionState.connection, hl, hc, endConnection, Table.get_remove,
            Table.get_insert]
      · by_cases hc : id = c
        · subst hc
          simp [SessionState.connection, hs, hl, Connection.endsWith]
        · simp [SessionState.connection, hl, hc, Table.get_insert]

theorem toSlots_nil (slots : List PeerHandle) : ToSlots slots [] := by
  intro send hs
  cases hs

theorem toSlots_map {slots : List PeerHandle} {slot : Option PeerHandle} (f : PeerHandle → Send)
    (hf : ∀ handle, (f handle).target = handle.peerMeta.peerId)
    (hs : ∀ handle, slot = some handle → handle ∈ slots) : ToSlots slots (slot.toList.map f) := by
  intro send hm
  rcases List.mem_map.mp hm with ⟨handle, hh, rfl⟩
  exact ⟨handle, hs handle (by simpa using hh), hf handle⟩

theorem ToSlots.append {slots : List PeerHandle} {s t : List Send} (hs : ToSlots slots s)
    (ht : ToSlots slots t) : ToSlots slots (s ++ t) := by
  intro send hm
  rcases List.mem_append.mp hm with h | h
  · exact hs send h
  · exact ht send h

theorem mem_slots {state : SessionState} {handle : PeerHandle} : handle ∈ state.slots ↔
    state.v1Server = some handle ∨ state.v1Client = some handle ∨
      state.serverControl = some handle := by
  simp [SessionState.slots]

theorem notifyControlLocked_eq (message : Json) :
    notifyControlLocked serde state message =
      state.serverControl.toList.map fun control =>
        .sendOrClose control (.text (serde.toText message)) := by
  unfold notifyControlLocked
  cases state.serverControl <;> rfl

theorem toSlots_notifyControlLocked {slots : List PeerHandle} (message : Json)
    (hs : ∀ handle, state.serverControl = some handle → handle ∈ slots) :
    ToSlots slots (notifyControlLocked serde state message) := by
  rw [notifyControlLocked_eq]
  exact toSlots_map _ (fun _ => rfl) hs

theorem register_sends : ∃ rest,
    (register serde limits state ⟨peerMeta⟩).sends =
        state.opSends (SessionEvent.connectionOp limits state (.register peerMeta)) ++ rest ∧
      ToSlots (state.slots ++ (register serde limits state ⟨peerMeta⟩).state.slots) rest := by
  simp only [register, SessionEvent.connectionOp]
  by_cases hfull : limits.maxSocketsPerSession ≤ countLiveSockets state
  · simp only [hfull, if_true]
    exact ⟨[], rfl, toSlots_nil _⟩
  · simp only [hfull, if_false]
    cases hk : peerMeta.kind with
    | v1Server =>
      refine ⟨_, rfl, toSlots_map _ (fun _ => rfl) fun handle h => ?_⟩
      exact List.mem_append_left _ (mem_slots.mpr (.inl h))
    | v1Client =>
      refine ⟨_, rfl, toSlots_map _ (fun _ => rfl) fun handle h => ?_⟩
      exact List.mem_append_left _ (mem_slots.mpr (.inr (.inl h)))
    | v2ServerControl =>
      refine ⟨_, rfl, (toSlots_map _ (fun _ => rfl) fun handle h => ?_).append fun send hm => ?_⟩
      · exact List.mem_append_left _ (mem_slots.mpr (.inr (.inr h)))
      · obtain rfl := List.mem_singleton.mp hm
        exact ⟨_, List.mem_append_right _ (mem_slots.mpr (.inr (.inr rfl))), rfl⟩
    | v2ServerData c =>
      refine ⟨[], ?_, toSlots_nil _⟩
      simp [SessionState.opSends, Connection.sends, flushPendingLocked_eq, SessionState.connection]
    | v2Client c =>
      change ∃ rest, _ = state.opSends (if limits.maxClientsPerConnection ≤
        ((state.clients.get c).getD ∅).len then _ else _) ++ rest ∧ _
      by_cases hlen : limits.maxClientsPerConnection ≤ ((state.clients.get c).getD ∅).len
      · simp only [hlen, if_true]
        exact ⟨[], rfl, toSlots_nil _⟩
      · simp only [hlen, if_false]
        refine ⟨_, rfl, toSlots_notifyControlLocked _ _ _ fun handle h => ?_⟩
        exact List.mem_append_left _ (mem_slots.mpr (.inr (.inr h)))

theorem handleFrame_sends (frame : RelayFrame) (nowMs : ℕ) : ∃ rest,
    (handleFrame serde state peerMeta frame nowMs).2 =
        state.opSends (SessionEvent.connectionOp limits state (.frame peerMeta frame nowMs)) ++
          rest ∧
      ToSlots state.slots rest := by
  simp only [handleFrame, SessionEvent.connectionOp]
  cases hv : peerMeta.version with
  | v1 =>
    cases hk : peerMeta.kind with
    | v1Server =>
      refine ⟨_, rfl, toSlots_map _ (fun _ => rfl) fun handle h => ?_⟩
      exact mem_slots.mpr (.inr (.inl h))
    | v1Client =>
      refine ⟨_, rfl, toSlots_map _ (fun _ => rfl) fun handle h => ?_⟩
      exact mem_slots.mpr (.inl h)
    | _ => cases frame <;> exact ⟨[], rfl, toSlots_nil _⟩
  | v2 =>
    cases hk : peerMeta.kind with
    | v1Server => exact ⟨[], rfl, toSlots_nil _⟩
    | v1Client => exact ⟨[], rfl, toSlots_nil _⟩
    | v2ServerControl =>
      cases frame with
      | binary bytes => exact ⟨[], rfl, toSlots_nil _⟩
      | text text =>
        refine ⟨_, rfl, ?_⟩
        cases hs : state.serverControl with
        | none => simp [toSlots_nil]
        | some control =>
          simp only
          split_ifs
          · intro send hm
            obtain rfl := List.mem_singleton.mp hm
            exact ⟨control, mem_slots.mpr (.inr (.inr hs)), rfl⟩
          · exact toSlots_nil _
          · exact toSlots_nil _
    | v2ServerData c =>
      refine ⟨[], ?_, toSlots_nil _⟩
      simp [SessionState.opSends, Connection.sends, SessionState.connection, Connection.members]
    | v2Client c =>
      refine ⟨[], ?_, toSlots_nil _⟩
      cases hs : state.serverData.get c <;>
        simp [SessionState.opSends, Connection.sends, SessionState.connection, hs]

theorem handlePing_sends (payload : List UInt8) : ∃ rest,
    handlePing state peerMeta payload =
        state.opSends (SessionEvent.connectionOp limits state (.ping peerMeta payload)) ++ rest ∧
      ToSlots state.slots rest := by
  simp only [handlePing, pingTarget, SessionEvent.connectionOp]
  cases hk : peerMeta.kind with
  | v1Server =>
    refine ⟨_, rfl, toSlots_map _ (fun _ => rfl) fun handle h => ?_⟩
    exact mem_slots.mpr (.inl h)
  | v1Client =>
    refine ⟨_, rfl, toSlots_map _ (fun _ => rfl) fun handle h => ?_⟩
    exact mem_slots.mpr (.inr (.inl h))
  | v2ServerControl =>
    refine ⟨_, rfl, toSlots_map _ (fun _ => rfl) fun handle h => ?_⟩
    exact mem_slots.mpr (.inr (.inr h))
  | v2ServerData c => exact ⟨[], (List.append_nil _).symm, toSlots_nil _⟩
  | v2Client c =>
    refine ⟨[], ?_, toSlots_nil _⟩
    cases hs : state.clients.get c <;>
      simp [SessionState.opSends, Connection.sends, SessionState.connection, Connection.members, hs]

theorem unregister_sends : ∃ rest,
    (unregister serde state peerMeta).2 =
        state.opSends (SessionEvent.connectionOp limits state (.unregister peerMeta)) ++ rest ∧
      ToSlots state.slots rest := by
  simp only [unregister, SessionEvent.connectionOp]
  cases hk : peerMeta.kind with
  | v1Server => exact ⟨[], rfl, toSlots_nil _⟩
  | v1Client => exact ⟨[], rfl, toSlots_nil _⟩
  | v2ServerControl => exact ⟨[], rfl, toSlots_nil _⟩
  | v2ServerData c =>
    refine ⟨[], ?_, toSlots_nil _⟩
    simp only [SessionState.opSends, Connection.sends, SessionState.connection, Connection.members]
    split_ifs <;> simp
  | v2Client c =>
    cases hs : state.clients.get c with
    | none =>
      refine ⟨[], ?_, toSlots_nil _⟩
      simp [SessionState.opSends, Connection.sends, SessionState.connection, Connection.endsWith,
        hs]
    | some clients =>
      by_cases hl : (clients.remove peerMeta.peerId).len = 0
      · refine ⟨notifyControlLocked serde state (disconnectedJson c), ?_, ?_⟩
        · simp [SessionState.opSends, Connection.sends, SessionState.connection,
            Connection.endsWith, hs, hl, endConnection, notifyControlLocked]
        · exact toSlots_notifyControlLocked _ _ _ fun handle h => mem_slots.mpr (.inr (.inr h))
      · refine ⟨[], ?_, toSlots_nil _⟩
        simp [SessionState.opSends, Connection.sends, SessionState.connection,
          Connection.endsWith, hs, hl]

theorem nudgeOrResetControl_sends (stage : NudgeStage) :
    ToSlots state.slots (nudgeOrResetControl serde state id stage).2 := by
  have hs : ∀ handle, state.serverControl = some handle → handle ∈ state.slots :=
    fun handle h => mem_slots.mpr (.inr (.inr h))
  cases stage with
  | sync => exact toSlots_notifyControlLocked _ _ _ hs
  | reset => exact toSlots_map _ (fun _ => rfl) hs
  | _ => exact toSlots_nil _

theorem Core.step_connection {session : RelaySession} {core core' : Core} {event : SessionEvent}
    {sends : List Send} (h : core.step session event = some (core', sends)) (id : String) :
    core'.state.connection id =
      core.state.applied (event.connectionOp session.limits core.state) id := by
  cases event with
  | register peerMeta =>
    rw [(Core.step_register h).2.1]
    exact register_connection session.serde session.limits core.state peerMeta id
  | frame peerMeta frame nowMs =>
    rw [(Core.step_frame h).2.1]
    exact handleFrame_connection session.serde session.limits core.state peerMeta id frame nowMs
  | ping peerMeta payload =>
    rw [(Core.step_ping h).2.1]
    cases hk : peerMeta.kind <;>
      simp [SessionEvent.connectionOp, SessionState.applied, hk, Connection.step]
  | unregister peerMeta =>
    rw [(Core.step_unregister h).2.1]
    exact unregister_connection session.serde session.limits core.state peerMeta id
  | nudge peerId =>
    rcases Core.step_nudge h with ⟨task, stage, -, rfl, -⟩
    rfl

theorem Core.connection_of_step {session : RelaySession} {core core' : Core} {event : SessionEvent}
    {sends : List Send} (h : core.step session event = some (core', sends)) (id : String) :
    ((∀ op, event.connectionOp session.limits core.state ≠ some (id, op)) ∧
        core'.state.connection id = core.state.connection id) ∨
      ∃ op, event.connectionOp session.limits core.state = some (id, op) ∧
        core'.state.connection id = (core.state.connection id).step op := by
  rw [Core.step_connection h id]
  cases hop : event.connectionOp session.limits core.state with
  | none => exact .inl ⟨by simp, rfl⟩
  | some touched =>
    obtain ⟨touched, op⟩ := touched
    by_cases hid : id = touched
    · subst hid
      exact .inr ⟨op, rfl, by simp [SessionState.applied]⟩
    · exact .inl ⟨by simp [Ne.symm hid], by simp [SessionState.applied, hid]⟩

theorem ToSlots.mono {slots slots' : List PeerHandle} {sends : List Send} (h : ToSlots slots sends)
    (hs : slots ⊆ slots') : ToSlots slots' sends := by
  intro send hm
  rcases h send hm with ⟨handle, hh, ht⟩
  exact ⟨handle, hs hh, ht⟩

theorem Core.step_sends {session : RelaySession} {core core' : Core} {event : SessionEvent}
    {sends : List Send} (h : core.step session event = some (core', sends)) : ∃ rest,
    sends = core.state.opSends (event.connectionOp session.limits core.state) ++ rest ∧
      ToSlots (core.state.slots ++ core'.state.slots) rest := by
  have hl : core.state.slots ⊆ core.state.slots ++ core'.state.slots :=
    List.subset_append_left _ _
  cases event with
  | register peerMeta =>
    rcases Core.step_register h with ⟨-, hstate, rfl, -⟩
    rw [hstate]
    exact register_sends session.serde session.limits core.state peerMeta
  | frame peerMeta frame nowMs =>
    rcases Core.step_frame h with ⟨-, -, rfl⟩
    rcases handleFrame_sends session.serde session.limits core.state peerMeta frame nowMs with
      ⟨rest, he, hr⟩
    exact ⟨rest, he, hr.mono hl⟩
  | ping peerMeta payload =>
    rcases Core.step_ping h with ⟨-, -, rfl⟩
    rcases handlePing_sends session.limits core.state peerMeta payload with ⟨rest, he, hr⟩
    exact ⟨rest, he, hr.mono hl⟩
  | unregister peerMeta =>
    rcases Core.step_unregister h with ⟨-, -, rfl⟩
    rcases unregister_sends session.serde session.limits core.state peerMeta with ⟨rest, he, hr⟩
    exact ⟨rest, he, hr.mono hl⟩
  | nudge peerId =>
    rcases Core.step_nudge h with ⟨id, stage, -, -, rfl⟩
    exact ⟨_, rfl, (nudgeOrResetControl_sends _ _ _ _).mono hl⟩

end NodeAccess.Relay
