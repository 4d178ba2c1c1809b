import NodeAccess.Relay.Routing

/-! # Evicted peers

A peer is evicted when the slot it was stored in is given to another peer or emptied
while the peer is still registered. Its later unregistration finds nothing to remove.
-/

namespace NodeAccess.Relay

open Foundation

/-- The peer's slot holds the peer: pings are answered through that slot. -/
def Stored (state : SessionState) (peerMeta : PeerMeta) : Prop :=
  pingTarget state peerMeta = some ⟨peerMeta⟩

instance (state : SessionState) (peerMeta : PeerMeta) : Decidable (Stored state peerMeta) :=
  inferInstanceAs (Decidable (_ = _))

theorem stored_data {state : SessionState} {peerMeta : PeerMeta} {c : String}
    (hk : peerMeta.kind = .v2ServerData c) :
    Stored state peerMeta ↔ (state.connection c).server = some ⟨peerMeta⟩ := by
  simp [Stored, pingTarget, hk, SessionState.connection]

theorem stored_client {state : SessionState} {peerMeta : PeerMeta} {c : String}
    (hk : peerMeta.kind = .v2Client c) :
    Stored state peerMeta ↔ (state.connection c).members.get peerMeta.peerId = some ⟨peerMeta⟩ := by
  cases hc : state.clients.get c <;>
    simp [Stored, pingTarget, hk, SessionState.connection, Connection.members, hc]

/-- The slot of a kind of peers. Clients share no slot. -/
def SessionState.slot (state : SessionState) : PeerKind → Option PeerHandle
  | .v1Server => state.v1Server
  | .v1Client => state.v1Client
  | .v2ServerControl => state.serverControl
  | .v2ServerData c => state.serverData.get c
  | .v2Client _ => none

theorem pingTarget_eq_slot {state : SessionState} {peerMeta : PeerMeta}
    (hclient : ∀ c, peerMeta.kind ≠ .v2Client c) :
    pingTarget state peerMeta = state.slot peerMeta.kind := by
  cases hk : peerMeta.kind with
  | v2Client c => exact absurd hk (hclient c)
  | _ => simp only [pingTarget, hk, SessionState.slot]

theorem stored_iff_slot {state : SessionState} {peerMeta : PeerMeta}
    (hclient : ∀ c, peerMeta.kind ≠ .v2Client c) :
    Stored state peerMeta ↔ state.slot peerMeta.kind = some ⟨peerMeta⟩ := by
  rw [Stored, pingTarget_eq_slot hclient]

/-- How the slot of a kind can change: an admitted peer of that kind takes it, a peer of that kind
leaves, or the last client of the connection leaves. The holder that is pushed out is sent a Close.
-/
inductive SlotStep (kind : PeerKind) (core core' : Core) (sends : List Send) : SessionEvent → Prop
  | same {event : SessionEvent} (hslot : core'.state.slot kind = core.state.slot kind) :
      SlotStep kind core core' sends event
  | taken {other : PeerMeta} (hkind : other.kind = kind)
      (hreg : core'.phase other.peerId = .registered other)
      (hslot : core'.state.slot kind = some ⟨other⟩)
      (hclose : ∀ handle, core.state.slot kind = some handle →
        .closeHandle handle 1008 "Replaced by new connection" ∈ sends) :
      SlotStep kind core core' sends (.register other)
  | cleared {other : PeerMeta} (hkind : other.kind = kind)
      (hslot : core'.state.slot kind = clearIfSame (core.state.slot kind) other.peerId) :
      SlotStep kind core core' sends (.unregister other)
  | emptied {other : PeerMeta} {c : String} (hkind : kind = .v2ServerData c)
      (hother : other.kind = .v2Client c) (hend : core'.state.connection c = ⟨none, none, none⟩)
      (hclose : ∀ handle, core.state.slot kind = some handle →
        .closeHandle handle 1001 "Client disconnected" ∈ sends) :
      SlotStep kind core core' sends (.unregister other)

section Register

variable (serde : SerdeJson) (limits : RelayLimitsConfig) (state : SessionState)
    (peerMeta : PeerMeta)

theorem register_slot (kind : PeerKind) :
    let r := register serde limits state ⟨peerMeta⟩
    r.state.slot kind = state.slot kind ∨
      (r.result.isOk = true ∧ peerMeta.kind = kind) ∧ r.state.slot kind = some ⟨peerMeta⟩ := by
  have hslots := register_slots serde limits state peerMeta
  cases kind with
  | v1Server => exact hslots.1
  | v1Client => exact hslots.2.1
  | v2ServerControl => exact hslots.2.2
  | v2Client c => exact .inl rfl
  | v2ServerData c =>
    have hconn := congrArg Connection.server (register_connection serde limits state peerMeta c)
    have hok := register_isOk serde limits state peerMeta
    simp only [SessionEvent.connectionOp] at hconn
    split_ifs at hconn with hfull
    · exact .inl hconn
    · split at hconn
      · rename_i d hk
        by_cases hd : c = d
        · subst hd
          simp only [SessionState.applied, if_true] at hconn
          exact .inr ⟨⟨hok.mpr ⟨hfull, by simp [hk]⟩, hk⟩, hconn⟩
        · rw [SessionState.applied, if_neg hd] at hconn
          exact .inl hconn
      · rename_i d hk
        left
        by_cases hd : c = d
        · subst hd
          split_ifs at hconn <;> simp only [SessionState.applied, if_true] at hconn <;> exact hconn
        · split_ifs at hconn <;> rwa [SessionState.applied, if_neg hd] at hconn
      · exact .inl hconn

variable {limits state}

theorem register_closes (h : ¬ limits.maxSocketsPerSession ≤ countLiveSockets state) :
    ∃ rest, (register serde limits state ⟨peerMeta⟩).sends =
      closeReplaced (state.slot peerMeta.kind) ++ rest := by
  simp only [register, if_neg h]
  cases hk : peerMeta.kind with
  | v1Server => exact ⟨[], (List.append_nil _).symm⟩
  | v1Client => exact ⟨[], (List.append_nil _).symm⟩
  | v2ServerControl => exact ⟨_, rfl⟩
  | v2ServerData c => exact ⟨_, rfl⟩
  | v2Client c => exact ⟨_, rfl⟩

variable {serde peerMeta}

theorem closeReplaced_some (handle : PeerHandle) :
    closeReplaced (some handle) = [.closeHandle handle 1008 "Replaced by new connection"] := rfl

theorem register_stored (h : (register serde limits state ⟨peerMeta⟩).result.isOk = true) :
    Stored (register serde limits state ⟨peerMeta⟩).state peerMeta := by
  have hacc := (register_isOk serde limits state peerMeta).mp h
  have hconn := register_connection serde limits state peerMeta
  cases hk : peerMeta.kind with
  | v1Server => simp [Stored, pingTarget, hk, register, hacc.1]
  | v1Client => simp [Stored, pingTarget, hk, register, hacc.1]
  | v2ServerControl => simp [Stored, pingTarget, hk, register, hacc.1]
  | v2ServerData c =>
    rw [stored_data hk, hconn c]
    simp [SessionEvent.connectionOp, hacc.1, hk, SessionState.applied, Connection.step]
  | v2Client c =>
    rw [stored_client hk, hconn c]
    have hlen := hacc.2 c hk
    simp only [SessionEvent.connectionOp, if_neg hacc.1, hk, if_neg hlen, SessionState.applied,
      if_true]
    exact Table.get_insert_self _ _ _

end Register

section Step

variable {session : RelaySession} {core core' : Core} {event : SessionEvent} {sends : List Send}
  {peerMeta : PeerMeta}

theorem Core.Sound.stored_of_client (h : core.Sound session) {c : String}
    (hk : peerMeta.kind = .v2Client c)
    (hreg : core.phase peerMeta.peerId = .registered peerMeta) : Stored core.state peerMeta :=
  (stored_client hk).mpr ((h.connection c).joined _ _ hreg hk)

theorem Core.Sound.slot (h : core.Sound session) {kind : PeerKind} {handle : PeerHandle}
    (hslot : core.state.slot kind = some handle) :
    core.phase handle.peerMeta.peerId = .registered handle.peerMeta ∧
      handle.peerMeta.kind = kind := by
  cases kind with
  | v1Server => exact h.v1Server handle hslot
  | v1Client => exact h.v1Client handle hslot
  | v2ServerControl => exact h.serverControl handle hslot
  | v2ServerData c => exact (h.connection c).server handle hslot
  | v2Client c => cases hslot

theorem Core.Sound.registered_of_stored (h : core.Sound session)
    (hstored : Stored core.state peerMeta) :
    core.phase peerMeta.peerId = .registered peerMeta := by
  by_cases hclient : ∃ c, peerMeta.kind = .v2Client c
  · obtain ⟨c, hk⟩ := hclient
    exact ((h.connection c).client _ _ ((stored_client hk).mp hstored)).2.1
  · push Not at hclient
    exact (h.slot ((stored_iff_slot hclient).mp hstored)).1

theorem Core.server_step (hs : core.step session event = some (core', sends)) (c : String) :
    SlotStep (.v2ServerData c) core core' sends event := by
  rcases Core.step_sends hs with ⟨rest, rfl, -⟩
  rcases Core.connection_of_step hs c with ⟨-, he⟩ | ⟨op, hop, he⟩
  · exact .same (congrArg Connection.server he)
  · have hserver := congrArg Connection.server he
    rw [hop]
    have hmem : ∀ send, send ∈ (core.state.connection c).sends op →
        send ∈ core.state.opSends (some (c, op)) ++ rest := fun send hm =>
      List.mem_append_left _ hm
    cases op with
    | attach handle =>
      obtain ⟨rfl, hk⟩ := SessionEvent.origin_of_connectionOp hop
      have hok : (Relay.register session.serde session.limits core.state
          ⟨handle.peerMeta⟩).result.isOk = true := by
        rw [register_isOk]
        refine ⟨?_, by simp [hk]⟩
        intro hfull
        simp [SessionEvent.connectionOp, hfull] at hop
      refine .taken hk ?_ hserver ?_
      · rw [(Core.step_register hs).2.2.2.1, Function.update_self, if_pos hok]
      · intro old hold
        apply hmem
        rw [Connection.sends]
        apply List.mem_append_left
        change _ ∈ closeReplaced (core.state.slot (.v2ServerData c))
        rw [hold, closeReplaced_some]
        exact List.mem_cons_self
    | clientFrame frame =>
      refine .same (hserver.trans ?_)
      rw [Connection.step]
      split_ifs <;> rfl
    | leave p =>
      by_cases hend : (core.state.connection c).endsWith p = true
      · obtain ⟨other, rfl, hk, -⟩ := SessionEvent.origin_of_connectionOp hop
        refine .emptied rfl hk (by rw [he, Connection.step, if_pos hend]) ?_
        intro old hold
        apply hmem
        rw [Connection.sends, if_pos hend,
          show (core.state.connection c).server = some old from hold]
        exact List.mem_cons_self
      · refine .same (hserver.trans ?_)
        rw [Connection.step, if_neg hend]
        rfl
    | detach p =>
      obtain ⟨other, rfl, hk, rfl⟩ := SessionEvent.origin_of_connectionOp hop
      exact .cleared hk hserver
    | _ => exact .same hserver

theorem Core.slot_step (hs : core.step session event = some (core', sends)) (kind : PeerKind) :
    SlotStep kind core core' sends event := by
  by_cases hdata : ∃ c, kind = .v2ServerData c
  · obtain ⟨c, rfl⟩ := hdata
    exact Core.server_step hs c
  · cases event with
    | register other =>
      obtain ⟨-, hstate, rfl, hphase, -⟩ := Core.step_register hs
      rcases register_slot session.serde session.limits core.state other kind with
        he | ⟨⟨hok, hk⟩, hnew⟩
      · exact .same (by rw [hstate]; exact he)
      · refine .taken hk (by rw [hphase, Function.update_self, if_pos hok])
          (by rw [hstate]; exact hnew) ?_
        intro handle hold
        obtain ⟨rest, hrest⟩ := register_closes session.serde other
          ((register_isOk _ _ _ _).mp hok).1
        rw [hrest, hk, hold, closeReplaced_some]
        exact List.mem_append_left _ List.mem_cons_self
    | frame other frame nowMs =>
      obtain ⟨-, rfl, -⟩ := Core.step_frame hs
      have hslots := handleFrame_slots session.serde core.state other frame nowMs
      apply SlotStep.same
      cases kind with
      | v1Server => exact hslots.1
      | v1Client => exact hslots.2.1
      | v2ServerControl => exact hslots.2.2
      | v2ServerData c => exact absurd ⟨c, rfl⟩ hdata
      | v2Client c => rfl
    | ping other payload =>
      obtain ⟨-, rfl, -⟩ := Core.step_ping hs
      exact .same rfl
    | unregister other =>
      obtain ⟨-, rfl, -⟩ := Core.step_unregister hs
      have hslots := unregister_slots session.serde core.state other
      by_cases hk : other.kind = kind
      · cases kind with
        | v1Server => exact .cleared hk (hslots.1.trans (if_pos hk))
        | v1Client => exact .cleared hk (hslots.2.1.trans (if_pos hk))
        | v2ServerControl => exact .cleared hk (hslots.2.2.trans (if_pos hk))
        | v2ServerData c => exact absurd ⟨c, rfl⟩ hdata
        | v2Client c => exact .same rfl
      · apply SlotStep.same
        cases kind with
        | v1Server => exact hslots.1.trans (if_neg hk)
        | v1Client => exact hslots.2.1.trans (if_neg hk)
        | v2ServerControl => exact hslots.2.2.trans (if_neg hk)
        | v2ServerData c => exact absurd ⟨c, rfl⟩ hdata
        | v2Client c => rfl
    | nudge p =>
      obtain ⟨id, stage, -, rfl, -⟩ := Core.step_nudge hs
      exact .same rfl

theorem Core.slot_of_step (hs : core.step session event = some (core', sends)) (kind : PeerKind)
    {handle : PeerHandle} (hslot : core'.state.slot kind = some handle) :
    core.state.slot kind = some handle ∨ event = .register handle.peerMeta := by
  cases Core.slot_step hs kind with
  | same he => exact .inl (he ▸ hslot)
  | taken _ _ he _ =>
    rw [he, Option.some.injEq] at hslot
    exact .inr (congrArg _ (congrArg PeerHandle.peerMeta hslot))
  | cleared _ he => exact .inl (clearIfSame_eq_some.mp (he ▸ hslot)).1
  | emptied hk _ he _ =>
    subst hk
    rw [show core'.state.slot (.v2ServerData _) = none from congrArg Connection.server he] at hslot
    cases hslot

theorem Core.Sound.stored_or_registers (h : core.Sound session)
    (hs : core.step session event = some (core', sends)) (hstored : Stored core'.state peerMeta) :
    Stored core.state peerMeta ∨ event = .register peerMeta := by
  by_cases hclient : ∃ c, peerMeta.kind = .v2Client c
  · obtain ⟨c, hk⟩ := hclient
    have hreg := (h.step hs).registered_of_stored hstored
    rcases Core.step_phase hs peerMeta.peerId with he | ⟨other, rfl, -, -, hnew⟩ | ⟨_, -, -, -, hg⟩
    · exact .inl (h.stored_of_client hk (he ▸ hreg))
    · rw [hreg, Phase.registered.injEq] at hnew
      rcases hnew with rfl | hgone
      · exact .inr rfl
      · cases hgone
    · rw [hg] at hreg
      cases hreg
  · push Not at hclient
    rw [stored_iff_slot hclient] at hstored ⊢
    exact Core.slot_of_step hs _ hstored

theorem Core.Sound.stored_step (h : core.Sound session)
    (hs : core.step session event = some (core', sends)) (hcame : core.Came peerMeta)
    (hstored : Stored core'.state peerMeta) : Stored core.state peerMeta := by
  refine (h.stored_or_registers hs hstored).resolve_right ?_
  rintro rfl
  exact hcame.1 (Core.step_register hs).1.1

theorem Core.Sound.unregister_not_stored (h : core.Sound session)
    (hreg : core.phase peerMeta.peerId = .registered peerMeta)
    (hstored : ¬ Stored core.state peerMeta) :
    (Relay.unregister session.serde core.state peerMeta).1 = core.state := by
  have hclear : ∀ {kind : PeerKind} {slot : Option PeerHandle}, Owned core.phase kind slot →
      slot ≠ some ⟨peerMeta⟩ → clearIfSame slot peerMeta.peerId = slot := by
    intro kind slot ho hne
    cases slot with
    | none => rfl
    | some handle =>
      rw [clearIfSame_some, if_neg]
      intro he
      have hp := (ho handle rfl).1
      rw [he, hreg, Phase.registered.injEq] at hp
      exact hne (by rw [hp])
  cases hk : peerMeta.kind with
  | v1Server =>
    simp only [Stored, pingTarget, hk] at hstored
    simp only [Relay.unregister, hk, hclear h.v1Server hstored]
  | v1Client =>
    simp only [Stored, pingTarget, hk] at hstored
    simp only [Relay.unregister, hk, hclear h.v1Client hstored]
  | v2ServerControl =>
    simp only [Stored, pingTarget, hk] at hstored
    simp only [Relay.unregister, hk, hclear h.serverControl hstored]
  | v2ServerData c =>
    rw [stored_data hk] at hstored
    have hne : (core.state.serverData.get c).any
        (fun handle => handle.peerMeta.peerId = peerMeta.peerId) = false := by
      cases hg : core.state.serverData.get c with
      | none => rfl
      | some handle =>
        rw [Option.any_some, decide_eq_false_iff_not]
        intro he
        have hp := ((h.connection c).server handle hg).1
        rw [he, hreg, Phase.registered.injEq] at hp
        rw [hp] at hstored
        exact hstored hg
    simp only [Relay.unregister, hk, hne, Bool.false_eq_true, if_false]
  | v2Client c => exact absurd (h.stored_of_client hk hreg) hstored

theorem unregister_sends_of_not_data (h : core.Sound session)
    (hreg : core.phase peerMeta.peerId = .registered peerMeta)
    (hstored : ¬ Stored core.state peerMeta) (hk : ∀ c, peerMeta.kind ≠ .v2ServerData c) :
    (unregister session.serde core.state peerMeta).2 = [] := by
  cases hkind : peerMeta.kind with
  | v2ServerData c => exact absurd hkind (hk c)
  | v2Client c => exact absurd (h.stored_of_client hkind hreg) hstored
  | _ => simp only [unregister, hkind]

end Step

/-! ## A Close against a queue -/

theorem PeerQueue.works_closed (q : PeerQueue) (h : q.chan.closed = true) (works : List QueueWork) :
    (q.works works).chan.closed = true ∧ (q.works works).chan.queued = q.chan.queued := by
  apply PeerQueue.works_induction
    (P := fun r => r.chan.closed = true ∧ r.chan.queued = q.chan.queued) _ ⟨h, rfl⟩
  intro r work hr
  cases work with
  | recv => simpa [PeerQueue.work, PeerQueue.recv] using hr
  | ownClose code reason =>
    rcases r.chan.trySend_cases (.close code reason) with ⟨_, he⟩ | ⟨hc, -⟩ | ⟨hc, -⟩
    · simpa [PeerQueue.work, PeerQueue.tryOwnClose, he] using hr
    · exact absurd (hc.symm.trans hr.1) (by decide)
    · exact absurd (hc.symm.trans hr.1) (by decide)
  | stop => exact ⟨rfl, hr.2⟩

theorem trySend_queued_of_closed {c : Channel OutboundMessage} (m : OutboundMessage)
    (h : c.closed = true) : (c.trySend m).1.queued = c.queued := by
  rw [Channel.trySend, if_pos h]

theorem Send.apply_closed (gap : Gap) {q : PeerQueue} (h : q.chan.closed = true) (send : Send) :
    (send.apply gap q).chan.closed = true ∧ (send.apply gap q).chan.queued = q.chan.queued := by
  have hw := q.works_closed h gap.before
  cases send with
  | sendOrClose handle message =>
    simp only [Send.apply]
    have hm : ((q.works gap.before).tryMessage message).chan.closed = true ∧
        ((q.works gap.before).tryMessage message).chan.queued = q.chan.queued :=
      ⟨by simpa [PeerQueue.tryMessage] using hw.1,
        (trySend_queued_of_closed message hw.1).trans hw.2⟩
    split_ifs
    · have hb := PeerQueue.works_closed _ hm.1 gap.between
      exact ⟨by simpa [PeerQueue.tryFallback] using hb.1,
        (trySend_queued_of_closed _ hb.1).trans (hb.2.trans hm.2)⟩
    · exact hm
  | closeHandle handle code reason =>
    exact ⟨by simpa [Send.apply, PeerQueue.tryClose] using hw.1,
      (trySend_queued_of_closed _ hw.1).trans hw.2⟩

theorem deliver_closed (sends : List Send) (pace : List Gap) {queue : PeerId → PeerQueue}
    {p : PeerId} (h : (queue p).chan.closed = true) :
    (deliver sends pace queue p).chan.queued = (queue p).chan.queued := by
  induction sends generalizing pace queue with
  | nil => rfl
  | cons send sends ih =>
    rw [deliver]
    by_cases hp : p = send.target
    · subst hp
      have ha := Send.apply_closed (pace.headD ⟨[], []⟩) h send
      rw [ih pace.tail (by rw [Function.update_self]; exact ha.1), Function.update_self, ha.2]
    · rw [ih pace.tail (by rw [Function.update_of_ne hp]; exact h), Function.update_of_ne hp]

/-- The write task takes everything that waits. -/
def drain (n : ℕ) : Gap := ⟨List.replicate n .recv, []⟩

theorem PeerQueue.works_recv (n : ℕ) (q : PeerQueue) :
    (q.works (List.replicate n .recv)).chan.closed = q.chan.closed ∧
      (q.works (List.replicate n .recv)).chan.queued = q.chan.queued ∧
      (q.works (List.replicate n .recv)).chan.capacity = q.chan.capacity ∧
      (q.works (List.replicate n .recv)).chan.waiting = q.chan.waiting.drop n := by
  induction n generalizing q with
  | zero => exact ⟨rfl, rfl, rfl, rfl⟩
  | succ n ih =>
    have h := ih q.recv
    change (q.recv.works (List.replicate n .recv)).chan.closed = _ ∧
      (q.recv.works (List.replicate n .recv)).chan.queued = _ ∧
      (q.recv.works (List.replicate n .recv)).chan.capacity = _ ∧
      (q.recv.works (List.replicate n .recv)).chan.waiting = _
    rw [h.1, h.2.1, h.2.2.1, h.2.2.2]
    cases hw : q.chan.waiting <;> simp [PeerQueue.recv, Channel.recv, hw]

theorem deliver_close_open {sends : List Send} {handle : PeerHandle} {code : ℕ} {reason : String}
    (hm : .closeHandle handle code reason ∈ sends)
    (hall : ∀ send ∈ sends, ∃ other, send = .closeHandle other code reason)
    {queue : PeerId → PeerQueue} (hopen : (queue handle.peerMeta.peerId).chan.closed = false)
    (hpos : 0 < (queue handle.peerMeta.peerId).chan.capacity) {n : ℕ}
    (hn : (queue handle.peerMeta.peerId).chan.waiting.length ≤ n)
    (hunique : (sends.filter fun send => send.target = handle.peerMeta.peerId).length = 1) :
    (deliver sends (List.replicate sends.length (drain n)) queue
      handle.peerMeta.peerId).chan.queued =
      (queue handle.peerMeta.peerId).chan.queued ++ [.close code reason] := by
  induction sends generalizing queue with
  | nil => cases hm
  | cons send sends ih =>
    rw [deliver]
    simp only [List.length_cons, List.replicate_succ, List.headD_cons, List.tail_cons]
    by_cases hp : send.target = handle.peerMeta.peerId
    · rcases hall send (by simp) with ⟨other, rfl⟩
      have hp' : other.peerMeta.peerId = handle.peerMeta.peerId := hp
      rw [List.filter_cons_of_pos (by simpa using hp), List.length_cons] at hunique
      have hrest : ∀ later ∈ sends, later.target ≠ handle.peerMeta.peerId := by
        have hnil : (sends.filter fun send => send.target = handle.peerMeta.peerId) = [] :=
          List.length_eq_zero_iff.mp (by omega)
        intro later hl he
        rw [List.filter_eq_nil_iff] at hnil
        exact hnil later hl (by simpa using he)
      rw [deliver_of_ne hrest, hp, Function.update_self]
      have hw := PeerQueue.works_recv n (queue handle.peerMeta.peerId)
      have hroom : ((queue handle.peerMeta.peerId).works
          (List.replicate n .recv)).chan.hasRoom = true := by
        rw [Channel.hasRoom, hw.2.2.2, hw.2.2.1, List.drop_eq_nil_of_le hn]
        simpa using hpos
      simp only [Send.apply, drain, PeerQueue.tryClose, Channel.trySend, hw.1, hopen, hroom,
        Bool.false_eq_true, if_false, if_true]
      rw [hw.2.1]
    · have hm' : .closeHandle handle code reason ∈ sends := by
        rcases List.mem_cons.mp hm with rfl | hm'
        · exact absurd rfl hp
        · exact hm'
      have hupdate : ∀ q, Function.update queue send.target q handle.peerMeta.peerId =
          queue handle.peerMeta.peerId := fun q => Function.update_of_ne (Ne.symm hp) _ _
      rw [List.filter_cons_of_neg (by simpa using hp)] at hunique
      rw [ih hm' (fun later hl => hall later (List.mem_cons_of_mem _ hl)) (by rwa [hupdate])
        (by rwa [hupdate]) (by rwa [hupdate]) hunique, hupdate]

/-! ## The unregistration of an evicted peer -/

variable {session : RelaySession} {world world' : World} {peerMeta : PeerMeta}

/-- In this move the peer, which stays registered, loses its slot. -/
structure Evicts (move : Move World WorldEvent) (peerMeta : PeerMeta) : Prop where
  before : Stored move.before.state peerMeta
  registered : move.after.phase peerMeta.peerId = .registered peerMeta
  after : ¬ Stored move.after.state peerMeta

/-- The peer registers in one of these moves. -/
def RegistersIn (ms : List (Move World WorldEvent)) (p : PeerId) : Prop :=
  ∃ move ∈ ms, ∃ other pace, move.event = .session (.register other) pace ∧ other.peerId = p

theorem World.Settled.stored_step {event : WorldEvent} (h : world.Settled session)
    (hs : world.step session event = some world') (hcame : world.toCore.Came peerMeta)
    (hstored : Stored world'.state peerMeta) : Stored world.state peerMeta := by
  cases event with
  | queue p work =>
    rw [(World.step_queue hs).2.1] at hstored
    exact hstored
  | session event pace =>
    rcases World.step_session hs with ⟨sends, hstep, -⟩
    exact h.sound.stored_step hstep hcame hstored

theorem run_not_stored {ms : List (Move World WorldEvent)}
    (hrun : Run (World.step session) world ms world') (h : Follows session peerMeta world)
    (hstored : ¬ Stored world.state peerMeta) : ¬ Stored world'.state peerMeta := by
  have hboth : Follows session peerMeta world' ∧ ¬ Stored world'.state peerMeta := by
    apply hrun.invariant (P := fun w => Follows session peerMeta w ∧ ¬ Stored w.state peerMeta)
      ⟨h, hstored⟩
    intro before event after ih hs
    refine ⟨⟨ih.1.1.step hs, ?_⟩, fun hn => ih.2 (ih.1.1.stored_step hs ih.1.2 hn)⟩
    cases event with
    | queue p work =>
      rw [(World.step_queue hs).2.1]
      exact ih.1.2
    | session event pace =>
      rcases World.step_session hs with ⟨sends, hstep, -⟩
      exact ih.1.2.step hstep
  exact hboth.2

theorem came_of_registered {core : Core}
    (h : core.phase peerMeta.peerId = .registered peerMeta) : core.Came peerMeta := by
  refine ⟨by rw [h]; simp, ?_⟩
  intro other ho
  rw [h, Phase.registered.injEq] at ho
  exact ho.symm

theorem unregister_data_sends (session : RelaySession) {c : String}
    (hk : peerMeta.kind = .v2ServerData c) (state : SessionState) :
    (unregister session.serde state peerMeta).2 =
      (state.connection c).members.values.map fun client =>
        .closeHandle client 1012 "Server disconnected" := by
  simp only [unregister, hk, SessionState.connection, Connection.members]
  split_ifs <;> rfl

theorem World.unregister_enabled (hreg : world.phase peerMeta.peerId = .registered peerMeta)
    (pace : List Gap) :
    ∃ world', world.step session (.session (.unregister peerMeta) pace) = some world' := by
  simp [World.step, Core.step, hreg]

/-- When an evicted peer unregisters, the state stays as it is. What it queues to peers that
registered since is nothing exactly when it is no server-data socket, or no client of its
connection among them can still be sent anything. -/
theorem unregister_evicted_iff {ms₁ ms₂ : List (Move World WorldEvent)}
    {move : Move World WorldEvent}
    (hrun : Run (World.step session) (World.init session) (ms₁ ++ move :: ms₂) world)
    (hevicts : Evicts move peerMeta)
    (hreg : world.phase peerMeta.peerId = .registered peerMeta) :
    (∀ pace world',
        world.step session (.session (.unregister peerMeta) pace) = some world' →
        world'.state = world.state ∧ ∀ p, RegistersIn (move :: ms₂) p →
          (world'.queue p).chan.queued = (world.queue p).chan.queued) ↔
      ∀ c, peerMeta.kind = .v2ServerData c → ∀ p client,
        (world.state.connection c).members.get p = some client → RegistersIn (move :: ms₂) p →
          (world.queue p).chan.closed = true := by
  rcases hrun.of_split with ⟨h₁, hs, h₂⟩
  have hsettled := World.run_settled hrun
  have hstored : ¬ Stored world.state peerMeta :=
    run_not_stored h₂ ⟨(World.run_settled h₁).step hs, came_of_registered hevicts.registered⟩
      hevicts.after
  have hstate := hsettled.sound.unregister_not_stored hreg hstored
  have hstep : ∀ pace world',
      world.step session (.session (.unregister peerMeta) pace) = some world' →
      world'.state = world.state ∧
        world'.queue = deliver (unregister session.serde world.state peerMeta).2 pace
          world.queue := by
    intro pace world' hs'
    rcases World.step_session hs' with ⟨sends, hcore, hqueue⟩
    rcases Core.step_unregister hcore with ⟨-, hw, rfl⟩
    refine ⟨?_, hqueue⟩
    rw [hw]
    exact hstate
  constructor
  · intro hharmless c hk p client hget hreg'
    by_contra hclosed
    have hclient := (hsettled.sound.connection c).client p client hget
    obtain rfl := hclient.1
    have hsends := unregister_data_sends session hk world.state
    have hkey : ∀ q other, (world.state.connection c).members.get q = some other →
        other.peerMeta.peerId = q := fun q other hg =>
      ((hsettled.sound.connection c).client q other hg).1
    have hunique : ((unregister session.serde world.state peerMeta).2.filter fun send =>
        send.target = client.peerMeta.peerId).length = 1 := by
      have hf := Table.filter_values hkey client.peerMeta.peerId
      rw [hget] at hf
      rw [hsends, List.filter_map, List.length_map]
      exact congrArg List.length hf
    have hopen := deliver_close_open (n := (world.queue client.peerMeta.peerId).chan.waiting.length)
      (by rw [hsends]; exact List.mem_map.mpr ⟨client, Table.mem_values.mpr ⟨_, hget⟩, rfl⟩)
      (by
        rw [hsends]
        intro send hm
        rcases List.mem_map.mp hm with ⟨other, -, rfl⟩
        exact ⟨other, rfl⟩)
      (by simpa using hclosed)
      (by
        rw [hsettled.capacity]
        exact hsettled.positive client.peerMeta.peerId (by rw [hclient.2.1]; simp))
      le_rfl hunique
    rcases World.unregister_enabled hreg (List.replicate
      (unregister session.serde world.state peerMeta).2.length
      (drain (world.queue client.peerMeta.peerId).chan.waiting.length)) with ⟨world', hs'⟩
    have hsame := (hharmless _ world' hs').2 _ hreg'
    rw [(hstep _ world' hs').2, hopen] at hsame
    exact absurd hsame (by simp)
  · intro hclosed pace world' hs'
    rcases hstep pace world' hs' with ⟨hstate', hqueue⟩
    refine ⟨hstate', ?_⟩
    intro p hp
    rw [hqueue]
    by_cases hk : ∃ c, peerMeta.kind = .v2ServerData c
    · rcases hk with ⟨c, hk⟩
      rw [unregister_data_sends session hk]
      cases hget : (world.state.connection c).members.get p with
      | some client => exact deliver_closed _ _ (hclosed c hk p client hget hp)
      | none =>
        rw [deliver_of_ne]
        intro send hm
        simp only [List.mem_map, Table.mem_values] at hm
        rcases hm with ⟨client, ⟨q, hq⟩, rfl⟩
        rintro rfl
        have hclient := (hsettled.sound.connection c).client q client hq
        rw [← hclient.1] at hq
        exact absurd (hq.symm.trans hget) (by simp)
    · rw [unregister_sends_of_not_data hsettled.sound hreg hstored fun c hk' => hk ⟨c, hk'⟩]
      rfl

/-- A replaced control channel leaves without a trace. -/
theorem unregister_evicted_iff_of_control :
    (outcome (World.step nodeSession) (World.init nodeSession)
        [.session (.register (nodeControl 1)) [], .session (.register (nodeControl 2)) [],
          .session (.unregister (nodeControl 1)) []]).state =
      (outcome (World.step nodeSession) (World.init nodeSession)
        [.session (.register (nodeControl 1)) [],
          .session (.register (nodeControl 2)) []]).state := by
  have hrun := @Run.of_play_split _ _ (World.step nodeSession) (World.init nodeSession)
    [.session (.register (nodeControl 1)) []] (.session (.register (nodeControl 2)) []) [] rfl
  have hiff := @unregister_evicted_iff nodeSession _ (nodeControl 1) _ _ _ hrun
    ⟨rfl, rfl, by decide⟩ rfl
  refine (hiff.mpr ?_ [] _ rfl).1
  intro c hk
  cases hk

/-- The last client leaves, which evicts the server-data socket, and a new client comes
under the same connection id. -/
def reconnect : List WorldEvent :=
  [.session (.register (nodeClient 1 "c")) [], .session (.register (nodeData 2 "c")) [],
    .session (.unregister (nodeClient 1 "c")) [], .session (.register (nodeClient 3 "c")) []]

/-- When the old server-data socket is done, the new client is closed. -/
theorem evicted_data_closes_new_client :
    Evicts ⟨outcome (World.step nodeSession) (World.init nodeSession) (reconnect.take 2),
        .session (.unregister (nodeClient 1 "c")) [],
        outcome (World.step nodeSession) (World.init nodeSession) (reconnect.take 3)⟩
        (nodeData 2 "c") ∧
      ((outcome (World.step nodeSession) (World.init nodeSession) reconnect).queue
        ⟨3⟩).chan.queued = [] ∧
      ((outcome (World.step nodeSession) (World.init nodeSession)
        (reconnect ++ [.session (.unregister (nodeData 2 "c")) []])).queue ⟨3⟩).chan.queued =
        [.close 1012 "Server disconnected"] :=
  ⟨⟨rfl, rfl, by decide⟩, rfl, rfl⟩

end NodeAccess.Relay
