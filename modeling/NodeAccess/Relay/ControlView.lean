import NodeAccess.Relay.Eviction

/-! # The control channel's view of a session

A node folds the texts of its control channel into the set of connections that have a
client. What one event of the session sends to the stored control channel is the change of
that set, or the set itself.
-/

namespace NodeAccess.Relay

open Foundation

/-- The events that the nodes decode from the texts of the control channel. -/
inductive RelayControlEvent where
  | connected (connectionId : String)
  | disconnected (connectionId : String)
  | sync (connectionIds : List String)
  | pong
deriving DecidableEq, Repr

namespace RelayControlEvent

/-- The variant is chosen by the `type` field, and fields it does not name are ignored. -/
def ofJson (json : Json) : Option RelayControlEvent :=
  match (json.get "type").bind Json.asStr with
  | some "connected" => ((json.get "connectionId").bind Json.asStr).map .connected
  | some "disconnected" => ((json.get "connectionId").bind Json.asStr).map .disconnected
  | some "sync" => ((json.get "connectionIds").bind Json.asStrings).map .sync
  | some "pong" => some .pong
  | _ => none

def fromStr (serde : SerdeJson) (text : String) : Option RelayControlEvent :=
  (serde.fromStr text).bind ofJson

/-- How a node updates its set of connections. -/
def update (view : Finset String) : RelayControlEvent → Finset String
  | .connected connectionId => insert connectionId view
  | .disconnected connectionId => view.erase connectionId
  | .sync connectionIds => connectionIds.toFinset
  | .pong => view

end RelayControlEvent

def OutboundMessage.toText : OutboundMessage → Option String
  | .text t => some t
  | .binary _ | .pong _ | .close _ _ => none

def texts (messages : List OutboundMessage) : List String :=
  messages.filterMap OutboundMessage.toText

/-- The set that a node holds after these texts. One text that does not decode ends the
node's control loop, and there is no view. -/
def controlView (serde : SerdeJson) (view : Finset String) : List String → Option (Finset String)
  | [] => some view
  | text :: rest => (RelayControlEvent.fromStr serde text).bind fun event =>
      controlView serde (event.update view) rest

/-- The values that a session writes to its control channel. -/
inductive IsNotice : Json → Prop
  | sync (connectionIds : List String) : IsNotice (syncJson connectionIds)
  | connected (connectionId : String) : IsNotice (connectedJson connectionId)
  | disconnected (connectionId : String) : IsNotice (disconnectedJson connectionId)
  | pong (nowMs : ℕ) : IsNotice (pongJson nowMs)

/-- The parser of serde_json reads back what its printer wrote. -/
def ReadsNotices (serde : SerdeJson) : Prop :=
  ∀ json, IsNotice json → serde.fromStr (serde.toText json) = some json

/-! ## Decoding -/

section Decode

variable {serde : SerdeJson}

theorem fromStr_sync (h : ReadsNotices serde) (ids : List String) :
    RelayControlEvent.fromStr serde (serde.toText (syncJson ids)) = some (.sync ids) := by
  rw [RelayControlEvent.fromStr, h _ (.sync ids)]
  change ((ids.map Json.string).mapM Json.asStr).map RelayControlEvent.sync = _
  rw [Json.mapM_asStr]
  rfl

theorem fromStr_connected (h : ReadsNotices serde) (id : String) :
    RelayControlEvent.fromStr serde (serde.toText (connectedJson id)) = some (.connected id) := by
  rw [RelayControlEvent.fromStr, h _ (.connected id)]
  simp [RelayControlEvent.ofJson, connectedJson, Json.get, Json.asStr]

theorem fromStr_disconnected (h : ReadsNotices serde) (id : String) :
    RelayControlEvent.fromStr serde (serde.toText (disconnectedJson id)) =
      some (.disconnected id) := by
  rw [RelayControlEvent.fromStr, h _ (.disconnected id)]
  simp [RelayControlEvent.ofJson, disconnectedJson, Json.get, Json.asStr]

theorem fromStr_pong (h : ReadsNotices serde) (nowMs : ℕ) :
    RelayControlEvent.fromStr serde (serde.toText (pongJson nowMs)) = some .pong := by
  rw [RelayControlEvent.fromStr, h _ (.pong nowMs)]
  simp [RelayControlEvent.ofJson, pongJson, Json.get, Json.asStr]

theorem controlView_append (view : Finset String) (s t : List String) :
    controlView serde view (s ++ t) =
      (controlView serde view s).bind fun next => controlView serde next t := by
  induction s generalizing view with
  | nil => rfl
  | cons text s ih =>
    cases h : RelayControlEvent.fromStr serde text <;> simp [controlView, h, ih]

end Decode

theorem texts_append (s t : List OutboundMessage) : texts (s ++ t) = texts s ++ texts t := by
  simp [texts]

theorem texts_filter_not_close (messages : List OutboundMessage) :
    texts (messages.filter fun m => !m.isClose) = texts messages := by
  rw [texts, List.filterMap_filter]
  congr 1
  funext m
  cases m <;> rfl

theorem texts_messagesTo_eq_nil {p : PeerId} {sends : List Send}
    (h : ∀ send ∈ sends, send.target = p → send.message.toText = none) :
    texts (messagesTo p sends) = [] := by
  rw [texts, List.filterMap_eq_nil_iff]
  intro message hm
  rcases List.mem_map.mp hm with ⟨send, hs, rfl⟩
  rw [List.mem_filter] at hs
  exact h send hs.1 (by simpa using hs.2)

theorem texts_messagesTo_text (handle : PeerHandle) (text : String) :
    texts (messagesTo handle.peerMeta.peerId [.sendOrClose handle (.text text)]) = [text] := by
  simp [texts, messagesTo, Send.target, Send.message, OutboundMessage.toText]

theorem mem_collectClientConnectionIds {state : SessionState} {id : String} :
    id ∈ collectClientConnectionIds state ↔ hasClientSocket state id = true := by
  simp only [collectClientConnectionIds, List.mem_insertionSort, List.mem_dedup, List.mem_filter,
    Table.mem_keys, hasClientSocket]
  cases h : state.clients.get id <;> simp

/-! ## One event -/

section Step

variable {session : RelaySession} {core core' : Core} {event : SessionEvent} {sends : List Send}
  {control : PeerMeta}

/-- What the control channel is told by an event, and what the event does to the set of
connections with a client. -/
inductive Told (serde : SerdeJson) (state state' : SessionState) : List String → Prop
  | nothing : (∀ id, hasClientSocket state' id = hasClientSocket state id) →
      Told serde state state' []
  | pong (nowMs : ℕ) : (∀ id, hasClientSocket state' id = hasClientSocket state id) →
      Told serde state state' [serde.toText (pongJson nowMs)]
  | sync : (∀ id, hasClientSocket state' id = hasClientSocket state id) →
      Told serde state state' [serde.toText (syncJson (collectClientConnectionIds state'))]
  | connected (c : String) :
      (∀ id, hasClientSocket state' id = true ↔ hasClientSocket state id = true ∨ id = c) →
      Told serde state state' [serde.toText (connectedJson c)]
  | disconnected (c : String) :
      (∀ id, hasClientSocket state' id = true ↔ hasClientSocket state id = true ∧ id ≠ c) →
      Told serde state state' [serde.toText (disconnectedJson c)]

theorem Told.view {serde : SerdeJson} (hserde : ReadsNotices serde) {state state' : SessionState}
    {told : List String} (h : Told serde state state' told) {view : Finset String}
    (hview : ∀ id, id ∈ view ↔ hasClientSocket state id = true) :
    ∃ view', controlView serde view told = some view' ∧
      ∀ id, id ∈ view' ↔ hasClientSocket state' id = true := by
  cases h with
  | nothing hsame => exact ⟨view, rfl, fun id => by rw [hview, hsame]⟩
  | pong nowMs hsame =>
    refine ⟨view, ?_, fun id => by rw [hview, hsame]⟩
    simp [controlView, fromStr_pong hserde, RelayControlEvent.update]
  | sync hsame =>
    refine ⟨(collectClientConnectionIds state').toFinset, ?_, ?_⟩
    · simp [controlView, fromStr_sync hserde, RelayControlEvent.update]
    · intro id
      rw [List.mem_toFinset, mem_collectClientConnectionIds]
  | connected c hjoin =>
    refine ⟨insert c view, ?_, ?_⟩
    · simp [controlView, fromStr_connected hserde, RelayControlEvent.update]
    · intro id
      rw [Finset.mem_insert, hview, hjoin]
      exact Or.comm
  | disconnected c hleave =>
    refine ⟨view.erase c, ?_, ?_⟩
    · simp [controlView, fromStr_disconnected hserde, RelayControlEvent.update]
    · intro id
      rw [Finset.mem_erase, hview, hleave]
      exact And.comm

theorem Owned.kind_of_control {phase : PeerId → Phase} {kind : PeerKind} {slot : Option PeerHandle}
    {handle : PeerHandle} (h : Owned phase kind slot) (hs : slot = Option.some handle)
    (hcontrol : phase control.peerId = .registered control)
    (ht : handle.peerMeta.peerId = control.peerId) : control.kind = kind := by
  have ho := h handle hs
  rw [ht, hcontrol, Phase.registered.injEq] at ho
  rw [ho.1]
  exact ho.2

theorem texts_closeReplaced (p : PeerId) (slot : Option PeerHandle) :
    texts (messagesTo p (closeReplaced slot)) = [] := by
  apply texts_messagesTo_eq_nil
  intro send hm _
  rcases List.mem_map.mp hm with ⟨handle, -, rfl⟩
  rfl

theorem Connection.Sound.texts_to_control {limits : RelayLimitsConfig} {phase : PeerId → Phase}
    {id : String} {k : Connection} (h : k.Sound limits phase id)
    (hcontrol : phase control.peerId = .registered control)
    (hkind : control.kind = .v2ServerControl) {op : ConnectionOp}
    (hop : ∀ handle, op = .attach handle → handle.peerMeta.peerId ≠ control.peerId) :
    messagesTo control.peerId (k.sends op) = [] := by
  apply messagesTo_eq_nil
  intro send hm ht
  rcases Connection.sends_target hm with ⟨handle, hs, he⟩ | ⟨p, handle, hs, he⟩ | ⟨handle, hs, he⟩
  · have hk := h.server.kind_of_control hs hcontrol (he ▸ ht)
    rw [hkind] at hk
    cases hk
  · have hc := h.client p handle hs
    rw [← hc.1, ← he, ht, hcontrol, Phase.registered.injEq] at hc
    have hk := hc.2.2
    rw [← hc.2.1, hkind] at hk
    cases hk
  · exact hop handle hs (he ▸ ht)

theorem hasClientSocket_eq (state : SessionState) (id : String) :
    hasClientSocket state id = ((state.connection id).members.len != 0) := by
  cases h : state.clients.get id <;>
    simp [hasClientSocket, SessionState.connection, Connection.members, h]

theorem hasClientSocket_congr {state state' : SessionState}
    (h : ∀ id, (state'.connection id).members.len = (state.connection id).members.len)
    (id : String) :
    hasClientSocket state' id = hasClientSocket state id := by
  rw [hasClientSocket_eq, hasClientSocket_eq, h]

theorem SessionState.applied_members {state : SessionState} {op : Option (String × ConnectionOp)}
    (h : ∀ id handle, op ≠ some (id, .join handle)) (h' : ∀ id p, op ≠ some (id, .leave p))
    (id : String) : (state.applied op id).members.len = (state.connection id).members.len := by
  unfold SessionState.applied
  split
  · rename_i touched op
    split_ifs
    · cases op with
      | clientFrame frame =>
        rw [Connection.step]
        split_ifs <;> rfl
      | join handle => exact absurd rfl (h _ _)
      | leave p => exact absurd rfl (h' _ _)
      | _ => rfl
    · rfl
  · rfl

theorem notifyControlLocked_some {serde : SerdeJson} {state : SessionState}
    (h : state.serverControl = some ⟨control⟩) (json : Json) :
    notifyControlLocked serde state json =
      [.sendOrClose ⟨control⟩ (.text (serde.toText json))] := by
  rw [notifyControlLocked_eq, h]
  rfl

theorem told_register (h : core.Sound session) {other : PeerMeta}
    (hs : core.step session (.register other) = some (core', sends))
    (hstored : core.state.serverControl = some ⟨control⟩)
    (hstored' : core'.state.serverControl = some ⟨control⟩) :
    Told session.serde core.state core'.state (texts (messagesTo control.peerId sends)) := by
  have hcontrol := h.serverControl _ hstored
  rcases Core.step_register hs with ⟨⟨hfresh, -, -⟩, hstate, rfl, -⟩
  have hne : other.peerId ≠ control.peerId := by
    intro he
    rw [he] at hfresh
    rw [hfresh] at hcontrol
    cases hcontrol.1
  have hconn := Core.step_connection hs
  by_cases hfull : session.limits.maxSocketsPerSession ≤ countLiveSockets core.state
  · have hsends : (register session.serde session.limits core.state ⟨other⟩).sends = [] := by
      simp [register, hfull]
    rw [hsends]
    apply Told.nothing
    apply hasClientSocket_congr
    intro id
    simp [hconn id, SessionEvent.connectionOp, hfull, SessionState.applied]
  cases hk : other.kind with
  | v2ServerControl =>
    rw [hstate] at hstored'
    simp [register, hfull, hk] at hstored'
    exact absurd (congrArg PeerMeta.peerId hstored') hne
  | v2ServerData c =>
    have hsends : (register session.serde session.limits core.state ⟨other⟩).sends =
        (core.state.connection c).sends (.attach ⟨other⟩) := by
      simp [register, hfull, hk, Connection.sends, flushPendingLocked_eq, SessionState.connection]
    rw [hsends, (h.connection c).texts_to_control hcontrol.1 hcontrol.2]
    · apply Told.nothing
      apply hasClientSocket_congr
      intro id
      rw [hconn id]
      apply SessionState.applied_members <;> simp [SessionEvent.connectionOp, hfull, hk]
    · rintro handle he
      cases he
      exact hne
  | v2Client c =>
    by_cases hlen : session.limits.maxClientsPerConnection ≤
        (core.state.connection c).members.len
    · have hsends : (register session.serde session.limits core.state ⟨other⟩).sends = [] := by
        simp only [register, if_neg hfull, hk]
        exact congrArg Registration.sends (if_pos hlen)
      rw [hsends]
      apply Told.nothing
      apply hasClientSocket_congr
      intro id
      rw [hconn id]
      apply SessionState.applied_members <;> simp [SessionEvent.connectionOp, hfull, hk, hlen]
    · have hsends : (register session.serde session.limits core.state ⟨other⟩).sends =
          [.sendOrClose ⟨control⟩ (.text (session.serde.toText (connectedJson c)))] := by
        simp only [register, if_neg hfull, hk]
        exact (congrArg Registration.sends (if_neg hlen)).trans
          (notifyControlLocked_some (by exact hstored) _)
      rw [hsends, texts_messagesTo_text ⟨control⟩]
      apply Told.connected
      intro id
      rw [hasClientSocket_eq, hasClientSocket_eq, hconn id]
      simp only [SessionEvent.connectionOp, if_neg hfull, hk, if_neg hlen, SessionState.applied]
      by_cases hid : id = c
      · subst hid
        have hget := (h.connection id).get_eq_none_of_fresh hfresh
        have hlen' := Table.len_insert_of_get_eq_none (⟨other⟩ : PeerHandle) hget
        simp only [if_true, or_true, iff_true]
        change ((core.state.connection id).members.insert other.peerId ⟨other⟩).len != 0
        simp [hlen']
      · simp [hid]
  | _ =>
    have hsends : ∃ slot, (register session.serde session.limits core.state ⟨other⟩).sends =
        closeReplaced slot := by
      simp [register, hfull, hk]
    rcases hsends with ⟨slot, hsends⟩
    rw [hsends, texts_closeReplaced]
    apply Told.nothing
    apply hasClientSocket_congr
    intro id
    rw [hconn id]
    apply SessionState.applied_members <;> simp [SessionEvent.connectionOp, hfull, hk]

theorem told_frame (h : core.Sound session) {other : PeerMeta} {frame : RelayFrame} {nowMs : ℕ}
    (hs : core.step session (.frame other frame nowMs) = some (core', sends))
    (hstored : core.state.serverControl = some ⟨control⟩) :
    Told session.serde core.state core'.state (texts (messagesTo control.peerId sends)) := by
  have hcontrol := h.serverControl _ hstored
  have hsame : ∀ id, hasClientSocket core'.state id = hasClientSocket core.state id := by
    apply hasClientSocket_congr
    intro id
    rw [Core.step_connection hs id]
    apply SessionState.applied_members <;>
    · intros
      simp only [SessionEvent.connectionOp]
      split <;> simp
  rcases Core.step_frame hs with ⟨hp, -, rfl⟩
  have hconf := (h.conforms _ _ hp).2
  have hversion : other.version = other.kind.version := hconf.2.1.trans hconf.2.2.symm
  -- A frame of a v1 peer goes to the opposite slot, which is of another kind.
  have hslot : ∀ {kind : PeerKind} {slot : Option PeerHandle}, kind ≠ .v2ServerControl →
      Owned core.phase kind slot → texts (messagesTo control.peerId
        (slot.toList.map fun target => forwardFrame target frame)) = [] := by
    intro kind slot hne ho
    rw [messagesTo_eq_nil]
    · rfl
    · intro send hm ht
      rcases List.mem_map.mp hm with ⟨handle, hh, rfl⟩
      have hk := ho.kind_of_control (by simpa using hh) hcontrol.1 ht
      exact hne (hk.symm.trans hcontrol.2)
  cases hk : other.kind with
  | v1Server =>
    simp only [handleFrame, hversion, hk, PeerKind.version]
    rw [hslot (by simp) h.v1Client]
    exact .nothing hsame
  | v1Client =>
    simp only [handleFrame, hversion, hk, PeerKind.version]
    rw [hslot (by simp) h.v1Server]
    exact .nothing hsame
  | v2ServerControl =>
    cases frame with
    | binary bytes =>
      simp only [handleFrame, hversion, hk, PeerKind.version]
      exact .nothing hsame
    | text text =>
      simp only [handleFrame, hversion, hk, PeerKind.version, hstored]
      split_ifs
      · rw [texts_messagesTo_text ⟨control⟩]
        exact .pong nowMs hsame
      · exact .nothing hsame
      · exact .nothing hsame
  | v2ServerData c =>
    have hsends : (handleFrame session.serde core.state other frame nowMs).2 =
        (core.state.connection c).sends (.serverFrame frame) := by
      simp [handleFrame, hversion, hk, PeerKind.version, Connection.sends,
        SessionState.connection, Connection.members]
    rw [hsends, (h.connection c).texts_to_control hcontrol.1 hcontrol.2 (by simp)]
    exact .nothing hsame
  | v2Client c =>
    have hsends : (handleFrame session.serde core.state other frame nowMs).2 =
        (core.state.connection c).sends (.clientFrame frame) := by
      cases hd : core.state.serverData.get c <;>
        simp [handleFrame, hversion, hk, PeerKind.version, Connection.sends,
          SessionState.connection, hd]
    rw [hsends, (h.connection c).texts_to_control hcontrol.1 hcontrol.2 (by simp)]
    exact .nothing hsame

theorem told_ping {other : PeerMeta} {payload : List UInt8}
    (hs : core.step session (.ping other payload) = some (core', sends)) :
    Told session.serde core.state core'.state (texts (messagesTo control.peerId sends)) := by
  rcases Core.step_ping hs with ⟨-, rfl, rfl⟩
  rw [texts_messagesTo_eq_nil]
  · exact .nothing fun _ => rfl
  · intro send hm _
    rcases List.mem_map.mp hm with ⟨handle, -, rfl⟩
    rfl

theorem unregister_data_texts {other : PeerMeta} {c : String} (hk : other.kind = .v2ServerData c) :
    texts (messagesTo control.peerId (unregister session.serde core.state other).2) = [] := by
  apply texts_messagesTo_eq_nil
  intro send hm _
  simp only [unregister, hk] at hm
  rcases List.mem_map.mp hm with ⟨handle, -, rfl⟩
  rfl

theorem told_unregister (h : core.Sound session) {other : PeerMeta}
    (hs : core.step session (.unregister other) = some (core', sends))
    (hstored : core.state.serverControl = some ⟨control⟩) :
    Told session.serde core.state core'.state (texts (messagesTo control.peerId sends)) := by
  have hconn := Core.step_connection hs
  rcases Core.step_unregister hs with ⟨hp, -, rfl⟩
  cases hk : other.kind with
  | v2ServerData c =>
    rw [unregister_data_texts hk]
    apply Told.nothing
    apply hasClientSocket_congr
    intro id
    rw [hconn id]
    apply SessionState.applied_members <;> simp [SessionEvent.connectionOp, hk]
  | v2Client c =>
    have hjoined := (h.connection c).joined _ _ hp hk
    have hclients : core.state.clients.get c = some (core.state.connection c).members := by
      cases hc : core.state.clients.get c with
      | none => simp [SessionState.connection, Connection.members, hc] at hjoined
      | some clients => simp [SessionState.connection, Connection.members, hc]
    have hbefore : hasClientSocket core.state c = true := by
      rw [hasClientSocket_eq]
      have hlen := Table.len_remove_of_get hjoined
      simp only [bne_iff_ne, ne_eq]
      omega
    have hend : (core.state.connection c).endsWith other.peerId = decide
        (((core.state.connection c).members.remove other.peerId).len = 0) := by
      rw [Connection.endsWith, show (core.state.connection c).clients = _ from hclients]
      rfl
    by_cases hl : ((core.state.connection c).members.remove other.peerId).len = 0
    · have hsends : ∃ slot : Option PeerHandle, (unregister session.serde core.state other).2 =
          (slot.toList.map fun server => .closeHandle server 1001 "Client disconnected") ++
            [.sendOrClose ⟨control⟩ (.text (session.serde.toText (disconnectedJson c)))] := by
        refine ⟨core.state.serverData.get c, ?_⟩
        simp only [unregister, hk, hclients, hl, if_true, endConnection]
        rw [notifyControlLocked_some (by exact hstored)]
      rcases hsends with ⟨slot, hsends⟩
      rw [hsends, messagesTo_append, texts_append, texts_messagesTo_text ⟨control⟩,
        texts_messagesTo_eq_nil, List.nil_append]
      · apply Told.disconnected
        intro id
        rw [hasClientSocket_eq, hasClientSocket_eq, hconn id]
        simp only [SessionEvent.connectionOp, hk, SessionState.applied]
        by_cases hid : id = c
        · subst hid
          simp only [if_true, Connection.step, hend, hl, decide_true]
          simp [Connection.members]
        · simp [hid]
      · intro send hm _
        rcases List.mem_map.mp hm with ⟨handle, -, rfl⟩
        rfl
    · have hsends : (unregister session.serde core.state other).2 = [] := by
        simp only [unregister, hk, hclients, hl, if_false]
      rw [hsends]
      apply Told.nothing
      intro id
      rw [hasClientSocket_eq, hconn id]
      simp only [SessionEvent.connectionOp, hk, SessionState.applied]
      by_cases hid : id = c
      · subst hid
        rw [hbefore]
        simp only [if_true, Connection.step, hend, hl, decide_false, Bool.false_eq_true, if_false]
        change (Table.len (((core.state.clients.get id).map fun clients =>
          clients.remove other.peerId).getD ∅) != 0) = true
        rw [hclients]
        simpa using hl
      · rw [if_neg hid, hasClientSocket_eq]
  | _ =>
    have hsends : (unregister session.serde core.state other).2 = [] := by
      simp only [unregister, hk]
    rw [hsends]
    apply Told.nothing
    apply hasClientSocket_congr
    intro id
    rw [hconn id]
    apply SessionState.applied_members <;> simp [SessionEvent.connectionOp, hk]

theorem told_nudge {p : PeerId} (hs : core.step session (.nudge p) = some (core', sends))
    (hstored : core.state.serverControl = some ⟨control⟩) :
    Told session.serde core.state core'.state (texts (messagesTo control.peerId sends)) := by
  rcases Core.step_nudge hs with ⟨c, stage, -, rfl, rfl⟩
  cases stage with
  | sync =>
    rw [nudgeOrResetControl, notifyControlLocked_some hstored, texts_messagesTo_text ⟨control⟩]
    exact .sync fun _ => rfl
  | reset =>
    rw [nudgeOrResetControl, texts_messagesTo_eq_nil]
    · exact .nothing fun _ => rfl
    · intro send hm _
      rcases List.mem_map.mp hm with ⟨handle, -, rfl⟩
      rfl
  | _ => exact .nothing fun _ => rfl

theorem Core.Sound.told (h : core.Sound session)
    (hs : core.step session event = some (core', sends))
    (hstored : core.state.serverControl = some ⟨control⟩)
    (hstored' : core'.state.serverControl = some ⟨control⟩) :
    Told session.serde core.state core'.state (texts (messagesTo control.peerId sends)) := by
  cases event with
  | register other => exact told_register h hs hstored hstored'
  | frame other frame nowMs => exact told_frame h hs hstored
  | ping other payload => exact told_ping hs
  | unregister other => exact told_unregister h hs hstored
  | nudge p => exact told_nudge hs hstored

end Step

/-! ## Runs -/

variable {session : RelaySession} {world : World} {control : PeerMeta}

theorem told_at_registration (hserde : ReadsNotices session.serde) {core core' : Core}
    {sends : List Send} (hs : core.step session (.register control) = some (core', sends))
    (hkind : control.kind = .v2ServerControl)
    (hok : core'.phase control.peerId = .registered control) :
    ∃ view, controlView session.serde ∅ (texts (messagesTo control.peerId sends)) = some view ∧
      ∀ id, id ∈ view ↔ hasClientSocket core'.state id = true := by
  rcases Core.step_register hs with ⟨-, hstate, rfl, hphase, -⟩
  have hacc : (register session.serde session.limits core.state ⟨control⟩).result.isOk = true := by
    by_contra hn
    rw [hphase, Function.update_self, if_neg hn] at hok
    cases hok
  rw [register_isOk] at hacc
  have hsends : (register session.serde session.limits core.state ⟨control⟩).sends =
      closeReplaced core.state.serverControl ++ [.sendOrClose ⟨control⟩ (.text
        (session.serde.toText (syncJson (collectClientConnectionIds core'.state))))] := by
    rw [hstate]
    simp only [register, if_neg hacc.1, hkind]
  rw [hsends, messagesTo_append, texts_append, texts_closeReplaced, List.nil_append,
    texts_messagesTo_text ⟨control⟩]
  refine ⟨(collectClientConnectionIds core'.state).toFinset, ?_, ?_⟩
  · simp [controlView, fromStr_sync hserde, RelayControlEvent.update]
  · intro id
    rw [List.mem_toFinset, mem_collectClientConnectionIds]

theorem run_view_tried (hserde : ReadsNotices session.serde) {ms : List (Move World WorldEvent)}
    (hrun : Run (World.step session) (World.init session) ms world)
    (hstored : world.state.serverControl = some ⟨control⟩) :
    ∃ view, controlView session.serde ∅ (texts (world.queue control.peerId).tried) = some view ∧
      ∀ id, id ∈ view ↔ hasClientSocket world.state id = true := by
  revert hstored
  apply hrun.history_invariant (P := fun _ world =>
    world.state.serverControl = some ⟨control⟩ →
      ∃ view, controlView session.serde ∅ (texts (world.queue control.peerId).tried) = some view ∧
        ∀ id, id ∈ view ↔ hasClientSocket world.state id = true)
  · intro hstored
    cases hstored
  · intro ns before event after hr ih hs hstored
    have hsettled := World.run_settled hr
    cases event with
    | queue p work =>
      have hq := World.step_queue hs
      rw [hq.2.1] at hstored ⊢
      rw [hq.2.2]
      exact ih hstored
    | session event pace =>
      rcases World.step_session hs with ⟨sends, hstep, hqueue⟩
      rw [hqueue, deliver_tried, texts_append, controlView_append]
      by_cases hbefore : before.state.serverControl = some ⟨control⟩
      · rcases ih hbefore with ⟨view, hview, hmem⟩
        rw [hview, Option.bind_some]
        exact (hsettled.sound.told hstep hbefore hstored).view hserde hmem
      · have hnew := (Core.slot_of_step hstep .v2ServerControl hstored).resolve_left hbefore
        subst hnew
        have hfresh := (Core.step_register hstep).1.1
        have hafter := (hsettled.sound.step hstep).serverControl _ hstored
        have hempty : (before.queue control.peerId).tried = [] := hsettled.quiet _ hfresh
        rw [hempty]
        change ∃ view, (some ∅).bind _ = some view ∧ _
        rw [Option.bind_some]
        exact told_at_registration hserde hstep hafter.2 hafter.1

/-- As long as a control channel is stored and its queue has refused nothing, the node that
decodes and folds its messages holds exactly the connections that have a client. -/
theorem run_controlView (hserde : ReadsNotices session.serde) {ms : List (Move World WorldEvent)}
    (hrun : Run (World.step session) (World.init session) ms world)
    (hstored : world.state.serverControl = some ⟨control⟩)
    (hroom : (world.queue control.peerId).chan.refused = false) :
    ∃ view, controlView session.serde ∅ (texts (world.queue control.peerId).chan.queued) =
        some view ∧ ∀ id, id ∈ view ↔ hasClientSocket world.state id = true := by
  have htracks := (World.run_settled hrun).tracks control.peerId
  have hqueued : texts (world.queue control.peerId).chan.queued =
      texts (world.queue control.peerId).tried := by
    rw [← texts_filter_not_close, htracks.content hroom, texts_filter_not_close]
  rw [hqueued]
  exact run_view_tried hserde hrun hstored

theorem plain_readsNotices : ReadsNotices .plain := by
  intro json h
  apply JsonText.fromStr_print
  cases h with
  | sync ids =>
    apply JsonText.Printable.object
    intro field hf
    simp only [List.mem_cons, List.not_mem_nil, or_false] at hf
    rcases hf with rfl | rfl
    · apply JsonText.Printable.array
      intro element he
      rcases List.mem_map.mp he with ⟨id, -, rfl⟩
      exact .string id
    · exact .string _
  | connected id =>
    apply JsonText.Printable.object
    intro field hf
    simp only [List.mem_cons, List.not_mem_nil, or_false] at hf
    rcases hf with rfl | rfl <;> exact .string _
  | disconnected id =>
    apply JsonText.Printable.object
    intro field hf
    simp only [List.mem_cons, List.not_mem_nil, or_false] at hf
    rcases hf with rfl | rfl <;> exact .string _
  | pong nowMs =>
    apply JsonText.Printable.object
    intro field hf
    simp only [List.mem_cons, List.not_mem_nil, or_false] at hf
    rcases hf with rfl | rfl
    · exact .number (JsonText.isLiteral_toString nowMs)
    · exact .string _

/-- One client has come, one has come and gone. -/
theorem run_controlView_of_two_clients :
    ∃ view, controlView .plain ∅ (texts ((outcome (World.step nodeSession) (World.init nodeSession)
        [.session (.register (nodeControl 1)) [], .session (.register (nodeClient 2 "a")) [],
          .session (.register (nodeClient 3 "b")) [],
          .session (.unregister (nodeClient 2 "a")) []]).queue ⟨1⟩).chan.queued) = some view ∧
      ∀ id, id ∈ view ↔ hasClientSocket (outcome (World.step nodeSession) (World.init nodeSession)
        [.session (.register (nodeControl 1)) [], .session (.register (nodeClient 2 "a")) [],
          .session (.register (nodeClient 3 "b")) [],
          .session (.unregister (nodeClient 2 "a")) []]).state id = true :=
  @run_controlView nodeSession _ (nodeControl 1) plain_readsNotices _ (Run.of_outcome rfl) rfl rfl

end NodeAccess.Relay
