import Mathlib.Data.List.DropRight
import NodeAccess.Relay.Delivery

/-! # Routing of frames in a session

A server-data socket receives the frames that waited for it and then those of its
clients; a client receives the frames of the server-data sockets of its connection. Both
are read off the history of the run.
-/

namespace NodeAccess.Relay

open Foundation

def OutboundMessage.toFrame : OutboundMessage → Option RelayFrame
  | .text t => some (.text t)
  | .binary b => some (.binary b)
  | .pong _ | .close _ _ => none

/-- The forwarded frames among the messages of a queue, with their kind and payload. -/
def frames (messages : List OutboundMessage) : List RelayFrame :=
  messages.filterMap OutboundMessage.toFrame

/-- The frame that an event hands to the session, if a peer of this kind sent it. -/
def SessionEvent.frameFrom (kind : PeerKind) : SessionEvent → Option RelayFrame
  | .frame peerMeta relayFrame _ => if peerMeta.kind = kind then some relayFrame else none
  | _ => none

def WorldEvent.frameFrom (kind : PeerKind) : WorldEvent → Option RelayFrame
  | .session event _ => event.frameFrom kind
  | .queue _ _ => none

/-- The frames that peers of a kind sent in these moves, in arrival order. -/
def framesFrom (kind : PeerKind) (moves : List (Move World WorldEvent)) : List RelayFrame :=
  moves.filterMap fun move => move.event.frameFrom kind

/-- The connection has a server-data socket at this step, or loses its last client. -/
def resets (id : String) (move : Move World WorldEvent) : Bool :=
  hasServerDataSocket move.before.state id || hasServerDataSocket move.after.state id ||
    (hasClientSocket move.before.state id && !hasClientSocket move.after.state id)

def sinceReset (id : String) (moves : List (Move World WorldEvent)) :
    List (Move World WorldEvent) :=
  moves.rtakeWhile fun move => !resets id move

/-! ## Lists of frames -/

theorem frames_append (s t : List OutboundMessage) : frames (s ++ t) = frames s ++ frames t := by
  simp [frames]

theorem frames_filter_not_close (messages : List OutboundMessage) :
    frames (messages.filter fun m => !m.isClose) = frames messages := by
  rw [frames, List.filterMap_filter]
  congr 1
  funext m
  cases m <;> rfl

@[simp] theorem toFrame_toMessage (frame : RelayFrame) : frame.toMessage.toFrame = some frame := by
  cases frame <;> rfl

theorem framesFrom_append (kind : PeerKind) (s t : List (Move World WorldEvent)) :
    framesFrom kind (s ++ t) = framesFrom kind s ++ framesFrom kind t := by
  simp [framesFrom]

theorem framesFrom_singleton (kind : PeerKind) (move : Move World WorldEvent) :
    framesFrom kind [move] = (move.event.frameFrom kind).toList := by
  cases h : move.event.frameFrom kind <;> simp [framesFrom, h]

theorem rtake_rtake_append {α : Type*} (n : ℕ) (l : List α) (a : α) :
    (l.rtake n ++ [a]).rtake n = (l ++ [a]).rtake n := by
  cases n with
  | zero => simp
  | succ n =>
    rw [List.rtake_concat_succ, List.rtake_concat_succ, List.rtake_eq_reverse_take_reverse,
      List.rtake_eq_reverse_take_reverse, List.rtake_eq_reverse_take_reverse, List.reverse_reverse,
      List.take_take, Nat.min_eq_left (Nat.le_succ n)]

theorem frames_messagesTo_eq_nil {p : PeerId} {sends : List Send}
    (h : ∀ send ∈ sends, send.target = p → send.message.toFrame = none) :
    frames (messagesTo p sends) = [] := by
  rw [frames, List.filterMap_eq_nil_iff]
  intro message hm
  rcases List.mem_map.mp hm with ⟨send, hs, rfl⟩
  rw [List.mem_filter] at hs
  exact h send hs.1 (by simpa using hs.2)

theorem frames_forward (handle : PeerHandle) (pending : List RelayFrame) :
    frames (messagesTo handle.peerMeta.peerId (pending.map (forwardFrame handle))) = pending := by
  induction pending with
  | nil => rfl
  | cons frame pending ih =>
    have hcons : frames (messagesTo handle.peerMeta.peerId
        ((frame :: pending).map (forwardFrame handle))) =
        frame :: frames (messagesTo handle.peerMeta.peerId
          (pending.map (forwardFrame handle))) := by
      simp [frames, messagesTo, forwardFrame, Send.target, Send.message]
    rw [hcons, ih]

/-! ## The frames that one event sends to a peer of a connection -/

/-- The peer has come, and its id belongs to no other peer. -/
def Core.Came (core : Core) (peerMeta : PeerMeta) : Prop :=
  core.phase peerMeta.peerId ≠ .fresh ∧
    ∀ other, core.phase peerMeta.peerId = .registered other → other = peerMeta

section Sends

variable {limits : RelayLimitsConfig} {core : Core} {id : String} {k : Connection}
  {peerMeta : PeerMeta}

theorem Owned.eq_of_came {kind : PeerKind} {slot : Option PeerHandle} {handle : PeerHandle}
    (h : Owned core.phase kind slot) (hcame : core.Came peerMeta) (hs : slot = Option.some handle)
    (ht : handle.peerMeta.peerId = peerMeta.peerId) :
    handle = ⟨peerMeta⟩ ∧ peerMeta.kind = kind := by
  have ho := h handle hs
  rw [ht] at ho
  obtain rfl := hcame.2 _ ho.1
  exact ⟨rfl, ho.2⟩

theorem Connection.Sound.client_eq_of_came (h : k.Sound limits core.phase id)
    (hcame : core.Came peerMeta) {p : PeerId} {handle : PeerHandle}
    (hs : k.members.get p = some handle) (ht : handle.peerMeta.peerId = peerMeta.peerId) :
    handle = ⟨peerMeta⟩ ∧ peerMeta.kind = .v2Client id := by
  have ho := h.client p handle hs
  rw [← ho.1, ht] at ho
  obtain rfl := hcame.2 _ ho.2.1
  exact ⟨rfl, ho.2.2⟩

theorem Connection.sends_frame {op : ConnectionOp} {send : Send} {frame : RelayFrame}
    (h : send ∈ k.sends op) (hf : send.message.toFrame = some frame) :
    (op = .clientFrame frame ∧ ∃ server, k.server = some server ∧
        send.target = server.peerMeta.peerId) ∨
      (op = .serverFrame frame ∧ ∃ p client, k.members.get p = some client ∧
        send.target = client.peerMeta.peerId) ∨
      ∃ handle, op = .attach handle ∧ send.target = handle.peerMeta.peerId := by
  cases op with
  | attach handle =>
    rcases List.mem_append.mp h with h | h
    · simp only [closeReplaced, List.mem_map] at h
      rcases h with ⟨server, -, rfl⟩
      cases hf
    · rcases List.mem_map.mp h with ⟨other, -, rfl⟩
      exact .inr (.inr ⟨handle, rfl, rfl⟩)
  | clientFrame other =>
    simp only [Connection.sends, List.mem_map, Option.mem_toList] at h
    rcases h with ⟨server, hs, rfl⟩
    obtain rfl : other = frame := by simpa [forwardFrame, Send.message] using hf
    exact .inl ⟨rfl, server, hs, rfl⟩
  | serverFrame other =>
    simp only [Connection.sends, List.mem_map, Table.mem_values] at h
    rcases h with ⟨client, ⟨p, hp⟩, rfl⟩
    obtain rfl : other = frame := by simpa [forwardFrame, Send.message] using hf
    exact .inr (.inl ⟨rfl, p, client, hp, rfl⟩)
  | pingServer payload =>
    simp only [Connection.sends, List.mem_map] at h
    rcases h with ⟨server, -, rfl⟩
    cases hf
  | pingClient p payload =>
    simp only [Connection.sends, List.mem_map] at h
    rcases h with ⟨client, -, rfl⟩
    cases hf
  | leave p =>
    simp only [Connection.sends] at h
    split_ifs at h
    · simp only [List.mem_map] at h
      rcases h with ⟨server, -, rfl⟩
      cases hf
    · cases h
  | detach p =>
    simp only [Connection.sends, List.mem_map] at h
    rcases h with ⟨client, -, rfl⟩
    cases hf
  | join handle => cases h
  | refuse => cases h

theorem Connection.Sound.frames_to_server (h : k.Sound limits core.phase id)
    (hcame : core.Came peerMeta) (frame : RelayFrame) :
    frames (messagesTo peerMeta.peerId (k.sends (.clientFrame frame))) =
      if k.server = some ⟨peerMeta⟩ then [frame] else [] := by
  split_ifs with hs
  · have hf := frames_forward ⟨peerMeta⟩ [frame]
    simpa [Connection.sends, hs] using hf
  · apply frames_messagesTo_eq_nil
    intro send hm ht
    simp only [Connection.sends, List.mem_map, Option.mem_toList] at hm
    rcases hm with ⟨server, hserver, rfl⟩
    have he := (h.server.eq_of_came hcame hserver ht).1
    rw [he] at hserver
    exact absurd hserver hs

theorem Connection.Sound.frames_to_client (h : k.Sound limits core.phase id)
    (hcame : core.Came peerMeta) (frame : RelayFrame) :
    frames (messagesTo peerMeta.peerId (k.sends (.serverFrame frame))) =
      if k.members.get peerMeta.peerId = some ⟨peerMeta⟩ then [frame] else [] := by
  have hkey : ∀ p handle, k.members.get p = some handle → handle.peerMeta.peerId = p :=
    fun p handle hg => (h.client p handle hg).1
  have hto : messagesTo peerMeta.peerId (k.sends (.serverFrame frame)) =
      (k.members.get peerMeta.peerId).toList.map fun _ => frame.toMessage := by
    rw [← Table.filter_values hkey, messagesTo, Connection.sends, List.filter_map, List.map_map]
    rfl
  rw [hto]
  cases hg : k.members.get peerMeta.peerId with
  | none => simp [frames]
  | some handle =>
    obtain rfl := (h.client_eq_of_came hcame hg (hkey _ _ hg)).1
    simp [frames]

end Sends

section Step

variable {session : RelaySession} {core core' : Core} {event : SessionEvent} {sends : List Send}
  {peerMeta : PeerMeta}

theorem Core.Came.step (hcame : core.Came peerMeta)
    (hs : core.step session event = some (core', sends)) : core'.Came peerMeta := by
  refine ⟨Core.step_not_fresh hs hcame.1, ?_⟩
  intro other ho
  rcases Core.step_phase hs peerMeta.peerId with he | ⟨_, -, -, hf, -⟩ | ⟨_, -, -, -, hg⟩
  · exact hcame.2 other (he ▸ ho)
  · exact absurd hf hcame.1
  · rw [hg] at ho
    cases ho

theorem Core.Sound.ne_of_slot (h : core.Sound session) (hcame : core.Came peerMeta) {c : String}
    (hkind : peerMeta.kind = .v2ServerData c ∨ peerMeta.kind = .v2Client c) {handle : PeerHandle}
    (hm : handle ∈ core.state.slots) : handle.peerMeta.peerId ≠ peerMeta.peerId := by
  intro he
  have ho := h.slot_owned hm
  rw [he] at ho
  obtain rfl := hcame.2 _ ho.1
  rcases hkind with hk | hk
  · exact ho.2.1 c hk
  · exact ho.2.2 c hk

theorem Core.Sound.messagesTo_rest (h : core.Sound session) (h' : core'.Sound session)
    (hcame : core.Came peerMeta) (hcame' : core'.Came peerMeta) {c : String}
    (hkind : peerMeta.kind = .v2ServerData c ∨ peerMeta.kind = .v2Client c) {rest : List Send}
    (hrest : ToSlots (core.state.slots ++ core'.state.slots) rest) :
    messagesTo peerMeta.peerId rest = [] := by
  apply messagesTo_eq_nil
  intro send hm
  rcases hrest send hm with ⟨handle, hh, ht⟩
  rw [ht]
  rcases List.mem_append.mp hh with hh | hh
  · exact h.ne_of_slot hcame hkind hh
  · exact h'.ne_of_slot hcame' hkind hh

theorem Core.Sound.frameFrom_iff (h : core.Sound session)
    (hs : core.step session event = some (core', sends)) (c : String) (frame : RelayFrame) :
    (event.frameFrom (.v2Client c) = some frame ↔
        event.connectionOp session.limits core.state = some (c, .clientFrame frame)) ∧
      (event.frameFrom (.v2ServerData c) = some frame ↔
        event.connectionOp session.limits core.state = some (c, .serverFrame frame)) := by
  cases event with
  | register other =>
    simp only [SessionEvent.frameFrom, SessionEvent.connectionOp]
    split_ifs
    · simp
    · split
      · simp
      · split_ifs <;> simp
      · simp
  | frame other relayFrame nowMs =>
    rcases Core.step_frame hs with ⟨hp, -, -⟩
    have hconf := (h.conforms _ _ hp).2
    have hversion : other.version = other.kind.version := hconf.2.1.trans hconf.2.2.symm
    simp only [SessionEvent.frameFrom, SessionEvent.connectionOp, hversion]
    cases hk : other.kind <;> simp [PeerKind.version]
  | ping other payload =>
    simp only [SessionEvent.frameFrom, SessionEvent.connectionOp]
    split <;> simp
  | unregister other =>
    simp only [SessionEvent.frameFrom, SessionEvent.connectionOp]
    split <;> simp
  | nudge peerId => simp [SessionEvent.frameFrom, SessionEvent.connectionOp]

theorem Core.Came.ne_attach (hcame : core.Came peerMeta)
    (hs : core.step session event = some (core', sends)) {id : String} {handle : PeerHandle}
    (hop : event.connectionOp session.limits core.state = some (id, .attach handle)) :
    handle.peerMeta.peerId ≠ peerMeta.peerId := by
  intro he
  rw [(SessionEvent.origin_of_connectionOp hop).1] at hs
  have hfresh := (Core.step_register hs).1.1
  rw [he] at hfresh
  exact hcame.1 hfresh

/-- The frames that a step sends to a socket of a connection, when they can come from one kind of
operation on that connection only. -/
theorem Core.Sound.step_frames_to (h : core.Sound session)
    (hs : core.step session event = some (core', sends)) (hcame : core.Came peerMeta) {c : String}
    (hkind : peerMeta.kind = .v2ServerData c ∨ peerMeta.kind = .v2Client c) {sender : PeerKind}
    {make : RelayFrame → ConnectionOp} {stored : Prop} [Decidable stored]
    (hfrom : ∀ frame, event.frameFrom sender = some frame ↔
      event.connectionOp session.limits core.state = some (c, make frame))
    (hmade : ∀ id frame,
      frames (messagesTo peerMeta.peerId ((core.state.connection id).sends (make frame))) =
      if id = c ∧ stored then [frame] else [])
    (hother : ∀ id op, event.connectionOp session.limits core.state = some (id, op) →
      (∀ frame, op ≠ make frame) →
      frames (messagesTo peerMeta.peerId ((core.state.connection id).sends op)) = []) :
    frames (messagesTo peerMeta.peerId sends) =
      if stored then (event.frameFrom sender).toList else [] := by
  rcases Core.step_sends hs with ⟨rest, rfl, hrest⟩
  have hnone : (∀ frame, event.connectionOp session.limits core.state ≠ some (c, make frame)) →
      event.frameFrom sender = none := by
    intro hop
    rw [Option.eq_none_iff_forall_ne_some]
    exact fun frame hf => hop frame ((hfrom frame).mp hf)
  rw [messagesTo_append, frames_append,
    h.messagesTo_rest (h.step hs) hcame (hcame.step hs) hkind hrest]
  change _ ++ [] = _
  rw [List.append_nil]
  cases hop : event.connectionOp session.limits core.state with
  | none =>
    rw [hnone fun frame he => by simp [hop] at he]
    simp [SessionState.opSends, messagesTo, frames]
  | some touched =>
    obtain ⟨id, op⟩ := touched
    rw [SessionState.opSends]
    by_cases hmake : ∃ frame, op = make frame
    · obtain ⟨frame, rfl⟩ := hmake
      rw [hmade id frame]
      by_cases hid : id = c
      · rw [(hfrom frame).mpr (hid ▸ hop)]
        simp [hid]
      · have hquiet : event.frameFrom sender = none := by
          apply hnone
          intro other he
          rw [hop] at he
          exact hid (congrArg Prod.fst (Option.some.inj he))
        simp [hid, hquiet]
    · have hquiet : event.frameFrom sender = none := by
        apply hnone
        intro frame he
        rw [hop] at he
        exact hmake ⟨frame, congrArg Prod.snd (Option.some.inj he)⟩
      rw [hother id op hop fun frame he => hmake ⟨frame, he⟩, hquiet]
      simp

theorem Core.Sound.step_frames_to_data (h : core.Sound session)
    (hs : core.step session event = some (core', sends)) (hcame : core.Came peerMeta) {c : String}
    (hkind : peerMeta.kind = .v2ServerData c) :
    frames (messagesTo peerMeta.peerId sends) =
      if core.state.serverData.get c = some ⟨peerMeta⟩ then
        (event.frameFrom (.v2Client c)).toList else [] := by
  apply h.step_frames_to hs hcame (.inl hkind) fun frame => (h.frameFrom_iff hs c frame).1
  · intro id frame
    rw [(h.connection id).frames_to_server hcame]
    by_cases hid : id = c
    · simp [hid, SessionState.connection]
    · have hserver : (core.state.connection id).server ≠ some ⟨peerMeta⟩ := by
        intro hserver
        have hkind' := ((h.connection id).server.eq_of_came hcame hserver rfl).2
        rw [hkind, PeerKind.v2ServerData.injEq] at hkind'
        exact hid hkind'.symm
      simp [hid, hserver]
  · intro id op hop hframe
    apply frames_messagesTo_eq_nil
    intro send hm ht
    rw [Option.eq_none_iff_forall_ne_some]
    intro frame hf
    rcases Connection.sends_frame hm hf with ⟨rfl, -⟩ | ⟨-, p, client, hg, he⟩ | ⟨handle, rfl, he⟩
    · exact hframe frame rfl
    · have hkind' := ((h.connection id).client_eq_of_came hcame hg (he ▸ ht)).2
      rw [hkind] at hkind'
      cases hkind'
    · exact hcame.ne_attach hs hop (he ▸ ht)

theorem Core.Sound.step_frames_to_client (h : core.Sound session)
    (hs : core.step session event = some (core', sends)) (hcame : core.Came peerMeta) {c : String}
    (hkind : peerMeta.kind = .v2Client c) :
    frames (messagesTo peerMeta.peerId sends) =
      if core.phase peerMeta.peerId = .registered peerMeta then
        (event.frameFrom (.v2ServerData c)).toList else [] := by
  apply h.step_frames_to hs hcame (.inr hkind) fun frame => (h.frameFrom_iff hs c frame).2
  · intro id frame
    rw [(h.connection id).frames_to_client hcame]
    by_cases hid : id = c
    · subst hid
      have hmember : (core.state.connection id).members.get peerMeta.peerId = some ⟨peerMeta⟩ ↔
          core.phase peerMeta.peerId = .registered peerMeta :=
        ⟨fun hg => ((h.connection id).client _ _ hg).2.1,
          fun hp => (h.connection id).joined _ _ hp hkind⟩
      simp [hmember]
    · have hmember : (core.state.connection id).members.get peerMeta.peerId ≠ some ⟨peerMeta⟩ := by
        intro hg
        have hkind' := ((h.connection id).client_eq_of_came hcame hg rfl).2
        rw [hkind, PeerKind.v2Client.injEq] at hkind'
        exact hid hkind'.symm
      simp [hid, hmember]
  · intro id op hop hframe
    apply frames_messagesTo_eq_nil
    intro send hm ht
    rw [Option.eq_none_iff_forall_ne_some]
    intro frame hf
    rcases Connection.sends_frame hm hf with ⟨-, server, hg, he⟩ | ⟨rfl, -⟩ | ⟨handle, rfl, he⟩
    · have hkind' := ((h.connection id).server.eq_of_came hcame hg (he ▸ ht)).2
      rw [hkind] at hkind'
      cases hkind'
    · exact hframe frame rfl
    · exact hcame.ne_attach hs hop (he ▸ ht)

/-! ## Frames that wait -/

/-- The reset condition on the two states of a step. -/
def SessionState.resets (state state' : SessionState) (id : String) : Bool :=
  hasServerDataSocket state id || hasServerDataSocket state' id ||
    (hasClientSocket state id && !hasClientSocket state' id)

def SessionState.waiting (state : SessionState) (id : String) : List RelayFrame :=
  (state.pending.get id).getD []

theorem hasServerDataSocket_eq_false {state : SessionState} {id : String} :
    hasServerDataSocket state id = false ↔ (state.connection id).server = none := by
  simp [hasServerDataSocket, Table.containsKey, SessionState.connection]

theorem hasClientSocket_eq_false {state : SessionState} {id : String} :
    hasClientSocket state id = false ↔ (state.connection id).members.len = 0 := by
  cases h : state.clients.get id <;>
    simp [hasClientSocket, SessionState.connection, Connection.members, h]

theorem Connection.step_pending_of_server {k : Connection} (op : ConnectionOp)
    (hs : k.server ≠ none) (hp : k.pending = none) : (k.step op).pending = none := by
  cases op with
  | clientFrame frame =>
    rw [Connection.step, if_pos (Option.isSome_iff_ne_none.mpr hs), hp]
  | leave p =>
    rw [Connection.step]
    split_ifs
    · rfl
    · exact hp
  | attach handle => rfl
  | _ => exact hp

theorem Core.Sound.waiting_of_resets (h : core.Sound session)
    (hs : core.step session event = some (core', sends)) {c : String}
    (hreset : core.state.resets core'.state c = true) : core'.state.waiting c = [] := by
  have h' := h.step hs
  have hnone : (core'.state.connection c).pending = none := by
    rw [Option.eq_none_iff_forall_ne_some]
    intro frames hf
    have hp' := (h'.connection c).pending frames hf
    have hserver' := hasServerDataSocket_eq_false.mpr hp'.2.2.1
    have hclient' : hasClientSocket core'.state c = true := by
      by_contra hn
      rw [Bool.not_eq_true, hasClientSocket_eq_false] at hn
      omega
    rw [SessionState.resets, hserver', hclient'] at hreset
    have hserver : (core.state.connection c).server ≠ none := by
      rw [Ne, ← hasServerDataSocket_eq_false]
      simpa using hreset
    have hpending : (core.state.connection c).pending = none := by
      rw [Option.eq_none_iff_forall_ne_some]
      intro old ho
      exact hserver ((h.connection c).pending old ho).2.2.1
    have hstill : (core'.state.connection c).pending = none := by
      rcases Core.connection_of_step hs c with ⟨-, he⟩ | ⟨op, -, he⟩
      · rw [he, hpending]
      · rw [he, Connection.step_pending_of_server op hserver hpending]
    rw [hstill] at hf
    cases hf
  rw [SessionState.waiting]
  change (core'.state.connection c).pending.getD [] = []
  rw [hnone, Option.getD_none]

theorem Core.Sound.waiting_le (h : core.Sound session) (c : String) :
    (core.state.waiting c).length ≤ pendingFrameLimit := by
  unfold SessionState.waiting
  cases hp : core.state.pending.get c with
  | none => exact Nat.zero_le _
  | some frames => exact ((h.connection c).pending frames hp).2.1

theorem rtake_of_length_le {α : Type*} {n : ℕ} {l : List α} (h : l.length ≤ n) : l.rtake n = l := by
  rw [List.rtake, Nat.sub_eq_zero_of_le h, List.drop_zero]

theorem Core.Sound.waiting_step (h : core.Sound session)
    (hs : core.step session event = some (core', sends)) {c : String}
    (hreset : core.state.resets core'.state c = false) :
    core'.state.waiting c =
      (core.state.waiting c ++ (event.frameFrom (.v2Client c)).toList).rtake pendingFrameLimit := by
  have hfrom := fun frame => (h.frameFrom_iff hs c frame).1
  simp only [SessionState.resets, Bool.or_eq_false_iff] at hreset
  have hserver := hasServerDataSocket_eq_false.mp hreset.1.1
  have hserver' := hasServerDataSocket_eq_false.mp hreset.1.2
  have hsame : (∀ frame, event.connectionOp session.limits core.state ≠
        some (c, .clientFrame frame)) →
      (core'.state.connection c).pending = (core.state.connection c).pending →
      core'.state.waiting c =
        (core.state.waiting c ++ (event.frameFrom (.v2Client c)).toList).rtake
          pendingFrameLimit := by
    intro hop hpending
    have hnone : event.frameFrom (.v2Client c) = none := by
      rw [Option.eq_none_iff_forall_ne_some]
      intro frame hf
      exact hop frame ((hfrom frame).mp hf)
    rw [hnone, Option.toList_none, List.append_nil, rtake_of_length_le (h.waiting_le c)]
    exact congrArg (fun pending => Option.getD pending []) hpending
  rcases Core.connection_of_step hs c with ⟨hop, hconn⟩ | ⟨op, hop, hconn⟩
  · exact hsame (fun frame => hop _) (congrArg Connection.pending hconn)
  · cases op with
    | clientFrame frame =>
      have hf := (hfrom frame).mpr hop
      have hpending : (core'.state.connection c).pending =
          some (popOverflow ((core.state.connection c).pending.getD [] ++ [frame])) := by
        rw [hconn, Connection.step, hserver]
        rfl
      rw [hf, Option.toList_some, SessionState.waiting]
      change (core'.state.connection c).pending.getD [] = _
      rw [hpending, Option.getD_some, popOverflow_eq]
      rfl
    | attach handle =>
      rw [hconn] at hserver'
      cases hserver'
    | leave p =>
      by_cases hend : (core.state.connection c).endsWith p = true
      · have hclient' : hasClientSocket core'.state c = false := by
          rw [hasClientSocket_eq_false, hconn, Connection.step, if_pos hend]
          rfl
        have hclient : (core.state.connection c).members.len = 0 := by
          rw [← hasClientSocket_eq_false]
          simpa [hclient'] using hreset.2
        apply hsame
        · rw [hop]
          simp
        · rw [hconn, Connection.step, if_pos hend]
          symm
          rw [Option.eq_none_iff_forall_ne_some]
          intro old ho
          have hp := ((h.connection c).pending old ho).2.2.2
          omega
      · apply hsame
        · rw [hop]
          simp
        · rw [hconn, Connection.step, if_neg hend]
    | _ =>
      apply hsame
      · rw [hop]
        simp
      · rw [hconn]
        rfl

end Step

/-! ## Runs -/

variable {session : RelaySession} {world world' : World} {peerMeta : PeerMeta}

theorem World.step_session {event : SessionEvent} {pace : List Gap}
    (hs : world.step session (.session event pace) = some world') :
    ∃ sends, world.toCore.step session event = some (world'.toCore, sends) ∧
      world'.queue = deliver sends pace world.queue := by
  simp only [World.step, Option.map_eq_some_iff] at hs
  rcases hs with ⟨⟨core, sends⟩, hr, rfl⟩
  exact ⟨sends, hr, rfl⟩

theorem World.step_queue {p : PeerId} {work : QueueWork}
    (hs : world.step session (.queue p work) = some world') :
    world.phase p ≠ .fresh ∧ world'.toCore = world.toCore ∧
      ∀ q, (world'.queue q).tried = (world.queue q).tried := by
  simp only [World.step, Option.ite_none_left_eq_some, Option.some.injEq] at hs
  rcases hs with ⟨hp, rfl⟩
  refine ⟨hp, rfl, ?_⟩
  intro q
  dsimp only
  by_cases hq : q = p
  · subst hq
    rw [Function.update_self]
    exact PeerQueue.works_tried (world.queue q) [work]
  · simp [Function.update_of_ne hq]

theorem sinceReset_concat (id : String) (moves : List (Move World WorldEvent))
    (move : Move World WorldEvent) : sinceReset id (moves ++ [move]) =
      if resets id move then [] else sinceReset id moves ++ [move] := by
  unfold sinceReset
  split_ifs with h
  · exact List.rtakeWhile_concat_neg _ _ _ (by simp [h])
  · exact List.rtakeWhile_concat_pos _ _ _ (by simp [h])

/-- What waits for a server-data socket is the tail of what the clients sent since the reset. -/
theorem run_waiting {ms : List (Move World WorldEvent)}
    (hrun : Run (World.step session) (World.init session) ms world) (c : String) :
    world.state.waiting c =
      (framesFrom (.v2Client c) (sinceReset c ms)).rtake pendingFrameLimit := by
  apply hrun.history_invariant (P := fun ms world => world.state.waiting c =
    (framesFrom (.v2Client c) (sinceReset c ms)).rtake pendingFrameLimit)
  · simp [SessionState.waiting, World.init, Core.init, SessionState.default, sinceReset, framesFrom]
  · intro ns before event after hr ih hs
    have hsound := World.run_sound hr
    rw [sinceReset_concat]
    cases event with
    | queue p work =>
      have hcore := (World.step_queue hs).2.1
      have hreset : resets c ⟨before, .queue p work, after⟩ =
          hasServerDataSocket before.state c := by
        simp [resets, hcore]
      rw [hreset, hcore]
      split_ifs with hserver
      · have hnone : before.state.pending.get c = none := by
          rw [Option.eq_none_iff_forall_ne_some]
          intro frames hf
          have hp := ((hsound.connection c).pending frames hf).2.2.1
          rw [← hasServerDataSocket_eq_false, hserver] at hp
          cases hp
        simp [SessionState.waiting, hnone, framesFrom]
      · rw [framesFrom_append, framesFrom_singleton, ih]
        simp [WorldEvent.frameFrom]
    | session event pace =>
      rcases World.step_session hs with ⟨sends, hstep, -⟩
      change after.state.waiting c = (framesFrom _ (if before.state.resets after.state c then _
        else _)).rtake _
      split_ifs with hreset
      · rw [hsound.waiting_of_resets hstep hreset]
        simp [framesFrom]
      · rw [hsound.waiting_step hstep (by simpa using hreset), ih, framesFrom_append,
          framesFrom_singleton]
        change _ = (_ ++ (event.frameFrom (.v2Client c)).toList).rtake _
        cases event.frameFrom (.v2Client c) with
        | none => rw [Option.toList_none, List.append_nil, List.append_nil,
            rtake_of_length_le (by rw [List.rtake, List.length_drop]; omega)]
        | some frame => exact rtake_rtake_append _ _ _

/-- The settled worlds in which a peer has come. -/
def Follows (session : RelaySession) (peerMeta : PeerMeta) (world : World) : Prop :=
  world.Settled session ∧ world.toCore.Came peerMeta

/-- The registration of a peer of a connection sends it the waiting frames, if it is a
server-data socket, and no frame otherwise. -/
theorem frames_at_registration {pace : List Gap} (h : world.Settled session)
    (hs : world.step session (.session (.register peerMeta) pace) = some world')
    (hok : world'.phase peerMeta.peerId = .registered peerMeta) :
    (∀ c, peerMeta.kind = .v2ServerData c →
        frames (world'.queue peerMeta.peerId).tried = world.state.waiting c) ∧
      ∀ c, peerMeta.kind = .v2Client c → frames (world'.queue peerMeta.peerId).tried = [] := by
  have hcame : world'.toCore.Came peerMeta := by
    refine ⟨by rw [hok]; simp, ?_⟩
    intro other ho
    rw [hok, Phase.registered.injEq] at ho
    exact ho.symm
  rcases World.step_session hs with ⟨sends, hstep, hqueue⟩
  have hreg := Core.step_register hstep
  have hempty : (world.queue peerMeta.peerId).tried = [] := h.quiet _ hreg.1.1
  have hsound' := h.sound.step hstep
  rcases Core.step_sends hstep with ⟨rest, rfl, hrest⟩
  have hacc :
      (register session.serde session.limits world.state ⟨peerMeta⟩).result.isOk = true := by
    by_contra hn
    rw [hreg.2.2.2.1, Function.update_self, if_neg hn] at hok
    cases hok
  rw [register_isOk] at hacc
  have hrest' : ∀ c, peerMeta.kind = .v2ServerData c ∨ peerMeta.kind = .v2Client c →
      messagesTo peerMeta.peerId rest = [] := by
    intro c hkind
    apply messagesTo_eq_nil
    intro send hm
    rcases hrest send hm with ⟨handle, hh, ht⟩
    rw [ht]
    rcases List.mem_append.mp hh with hh | hh
    · intro he
      have ho := (h.sound.slot_owned hh).1
      rw [he, hreg.1.1] at ho
      cases ho
    · exact hsound'.ne_of_slot hcame hkind hh
  constructor
  · intro c hkind
    rw [hqueue, deliver_tried, hempty, List.nil_append, messagesTo_append, hrest' c (.inl hkind)]
    simp only [SessionEvent.connectionOp, if_neg hacc.1, hkind, SessionState.opSends,
      Connection.sends, List.append_nil, messagesTo_append, frames_append]
    rw [frames_forward, frames_messagesTo_eq_nil, List.nil_append]
    · rfl
    · intro send hm _
      simp only [closeReplaced, List.mem_map] at hm
      rcases hm with ⟨server, -, rfl⟩
      rfl
  · intro c hkind
    rw [hqueue, deliver_tried, hempty, List.nil_append, messagesTo_append, hrest' c (.inr hkind)]
    simp only [SessionEvent.connectionOp, if_neg hacc.1, hkind]
    rw [if_neg (hacc.2 c hkind)]
    rfl

theorem framesFrom_filter (kind : PeerKind) (stored : World → Prop) [DecidablePred stored]
    (ms : List (Move World WorldEvent)) :
    framesFrom kind (ms.filter fun move => stored move.before) =
      ms.flatMap fun move => if stored move.before then (move.event.frameFrom kind).toList
        else [] := by
  induction ms with
  | nil => rfl
  | cons move ms ih =>
    rw [List.flatMap_cons, ← ih]
    by_cases h : stored move.before
    · rw [List.filter_cons_of_pos (by simpa using h), if_pos h, ← framesFrom_singleton,
        ← framesFrom_append]
      rfl
    · rw [List.filter_cons_of_neg (by simpa using h), if_neg h]
      rfl

/-- Frames that reach a peer one event at a time, while it is stored, reach it along a run. -/
theorem run_frames_tried (stored : World → Prop) [DecidablePred stored] (kind : PeerKind)
    {ms : List (Move World WorldEvent)} (hrun : Run (World.step session) world ms world')
    (h : Follows session peerMeta world)
    (hone : ∀ before core event sends, Follows session peerMeta before →
      before.toCore.step session event = some (core, sends) →
      frames (messagesTo peerMeta.peerId sends) =
        if stored before then (event.frameFrom kind).toList else []) :
    frames (world'.queue peerMeta.peerId).tried = frames (world.queue peerMeta.peerId).tried ++
      framesFrom kind (ms.filter fun move => stored move.before) := by
  rw [framesFrom_filter]
  have hboth : Follows session peerMeta world' ∧
      frames (world'.queue peerMeta.peerId).tried =
        frames (world.queue peerMeta.peerId).tried ++ ms.flatMap fun move =>
          if stored move.before then (move.event.frameFrom kind).toList else [] := by
    apply hrun.history_invariant (P := fun ms world' => Follows session peerMeta world' ∧
      frames (world'.queue peerMeta.peerId).tried =
        frames (world.queue peerMeta.peerId).tried ++ ms.flatMap fun move =>
          if stored move.before then (move.event.frameFrom kind).toList else [])
    · exact ⟨h, by simp⟩
    · intro ns before event after _ ih hs
      rw [List.flatMap_append, ← List.append_assoc, ← ih.2, List.flatMap_singleton]
      cases event with
      | queue p work =>
        have hq := World.step_queue hs
        refine ⟨⟨ih.1.1.step hs, hq.2.1 ▸ ih.1.2⟩, ?_⟩
        rw [hq.2.2]
        simp [WorldEvent.frameFrom]
      | session event pace =>
        rcases World.step_session hs with ⟨sends, hstep, hqueue⟩
        refine ⟨⟨ih.1.1.step hs, ih.1.2.step hstep⟩, ?_⟩
        rw [hqueue, deliver_tried, frames_append, hone before after.toCore event sends ih.1 hstep]
        rfl
  exact hboth.2

/-- What the session has tried to send to a socket of a connection since its registration. -/
theorem run_tried {ms₁ ms₂ : List (Move World WorldEvent)} {move : Move World WorldEvent}
    {pace : List Gap}
    (hrun : Run (World.step session) (World.init session) (ms₁ ++ move :: ms₂) world)
    (hreg : move.event = .session (.register peerMeta) pace)
    (hok : move.after.phase peerMeta.peerId = .registered peerMeta) :
    (∀ c, peerMeta.kind = .v2ServerData c →
        frames (world.queue peerMeta.peerId).tried =
          (framesFrom (.v2Client c) (sinceReset c ms₁)).rtake pendingFrameLimit ++
            framesFrom (.v2Client c) (ms₂.filter fun later =>
              later.before.state.serverData.get c = some ⟨peerMeta⟩)) ∧
      ∀ c, peerMeta.kind = .v2Client c →
        frames (world.queue peerMeta.peerId).tried =
          framesFrom (.v2ServerData c) (ms₂.filter fun later =>
            later.before.phase peerMeta.peerId = .registered peerMeta) := by
  rcases hrun.of_split with ⟨h₁, hs, h₂⟩
  rw [hreg] at hs
  have hbefore := World.run_settled h₁
  have hfirst := frames_at_registration hbefore hs hok
  have hfollows : Follows session peerMeta move.after := by
    refine ⟨hbefore.step hs, by rw [hok]; simp, ?_⟩
    intro other ho
    rw [hok, Phase.registered.injEq] at ho
    exact ho.symm
  constructor
  · intro c hkind
    rw [run_frames_tried (fun world => world.state.serverData.get c = some ⟨peerMeta⟩)
      (.v2Client c) h₂ hfollows fun _ _ _ _ hb hstep =>
        hb.1.sound.step_frames_to_data hstep hb.2 hkind, hfirst.1 c hkind, run_waiting h₁]
  · intro c hkind
    rw [run_frames_tried (fun world => world.phase peerMeta.peerId = .registered peerMeta)
      (.v2ServerData c) h₂ hfollows fun _ _ _ _ hb hstep =>
        hb.1.sound.step_frames_to_client hstep hb.2 hkind, hfirst.2 c hkind, List.nil_append]

/-- Routing of a v2 session. A server-data socket is queued the last 200 frames that its
clients sent since the connection's reset, and then what they send while it is stored; a
client is queued what server-data sockets of its connection send while it is registered. -/
theorem run_routes {ms₁ ms₂ : List (Move World WorldEvent)} {move : Move World WorldEvent}
    {pace : List Gap}
    (hrun : Run (World.step session) (World.init session) (ms₁ ++ move :: ms₂) world)
    (hreg : move.event = .session (.register peerMeta) pace)
    (hok : move.after.phase peerMeta.peerId = .registered peerMeta)
    (hroom : (world.queue peerMeta.peerId).chan.refused = false) :
    (∀ c, peerMeta.kind = .v2ServerData c →
        frames (world.queue peerMeta.peerId).chan.queued =
          (framesFrom (.v2Client c) (sinceReset c ms₁)).rtake pendingFrameLimit ++
            framesFrom (.v2Client c) (ms₂.filter fun later =>
              later.before.state.serverData.get c = some ⟨peerMeta⟩)) ∧
      ∀ c, peerMeta.kind = .v2Client c →
        frames (world.queue peerMeta.peerId).chan.queued =
          framesFrom (.v2ServerData c) (ms₂.filter fun later =>
            later.before.phase peerMeta.peerId = .registered peerMeta) := by
  have htracks := (World.run_settled hrun).tracks peerMeta.peerId
  have hqueued : frames (world.queue peerMeta.peerId).chan.queued =
      frames (world.queue peerMeta.peerId).tried := by
    rw [← frames_filter_not_close, htracks.content hroom, frames_filter_not_close]
  rw [hqueued]
  exact run_tried hrun hreg hok

/-- A frame that waited and a frame that is forwarded at once reach the socket in order. -/
theorem run_routes_of_two_frames :
    frames ((outcome (World.step nodeSession)
        (outcome (World.step nodeSession) (World.init nodeSession)
          [.session (.register (nodeClient 1 "c")) [],
            .session (.frame (nodeClient 1 "c") (.text "waits") 0) [],
            .session (.register (nodeData 2 "c")) []])
        [.session (.frame (nodeClient 1 "c") (.text "passes") 0) []]).queue ⟨2⟩).chan.queued =
      [.text "waits", .text "passes"] :=
  ((run_routes (Run.of_play_split [.session (.register (nodeClient 1 "c")) [],
      .session (.frame (nodeClient 1 "c") (.text "waits") 0) []]
      (.session (.register (nodeData 2 "c")) [])
      [.session (.frame (nodeClient 1 "c") (.text "passes") 0) []] rfl) rfl rfl rfl).1 "c"
        rfl).trans
    rfl

end NodeAccess.Relay
