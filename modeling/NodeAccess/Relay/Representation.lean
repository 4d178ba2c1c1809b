import NodeAccess.Relay.Connection

/-! # The representation invariant of a session

Every stored handle belongs to a registered peer of the right kind, every registered
client is stored, and pending frames exist only where a client waits for a server-data
socket. A session whose peers have all left is empty again.
-/

namespace NodeAccess.Relay

open Foundation

/-- The slot's handle belongs to a registered peer of the slot's kind. -/
def Owned (phase : PeerId → Phase) (kind : PeerKind) (slot : Option PeerHandle) : Prop :=
  ∀ handle, slot = some handle →
    phase handle.peerMeta.peerId = .registered handle.peerMeta ∧ handle.peerMeta.kind = kind

structure Connection.Sound (limits : RelayLimitsConfig) (phase : PeerId → Phase) (id : String)
    (k : Connection) : Prop where
  server : Owned phase (.v2ServerData id) k.server
  client : ∀ p handle, k.members.get p = some handle →
    handle.peerMeta.peerId = p ∧ phase p = .registered handle.peerMeta ∧
      handle.peerMeta.kind = .v2Client id
  joined : ∀ p peerMeta, phase p = .registered peerMeta → peerMeta.kind = .v2Client id →
    k.members.get p = some ⟨peerMeta⟩
  members_le : k.members.len ≤ limits.maxClientsPerConnection
  inhabited : 0 < limits.maxClientsPerConnection → ∀ clients, k.clients = some clients →
    0 < clients.len
  pending : ∀ frames, k.pending = some frames →
    0 < frames.length ∧ frames.length ≤ pendingFrameLimit ∧ k.server = none ∧ 0 < k.members.len

structure Core.Sound (session : RelaySession) (core : Core) : Prop where
  conforms : ∀ p peerMeta, core.phase p = .registered peerMeta →
    peerMeta.peerId = p ∧ peerMeta.Conforms session.key
  v1Server : Owned core.phase .v1Server core.state.v1Server
  v1Client : Owned core.phase .v1Client core.state.v1Client
  serverControl : Owned core.phase .v2ServerControl core.state.serverControl
  connection : ∀ id, (core.state.connection id).Sound session.limits core.phase id
  sockets : countLiveSockets core.state ≤ session.limits.maxSocketsPerSession

/-! ## What an operation does to the number of sockets -/

theorem slotCount_le_one (slot : Option PeerHandle) : slotCount slot ≤ 1 := by
  unfold slotCount
  split_ifs <;> omega

theorem slotCount_clearIfSame_le (slot : Option PeerHandle) (peerId : PeerId) :
    slotCount (clearIfSame slot peerId) ≤ slotCount slot := by
  cases slot with
  | none => simp
  | some handle =>
    rw [clearIfSame_some]
    split_ifs <;> simp [slotCount]

theorem len_insert_le {κ ν : Type*} [DecidableEq κ] (t : Table κ ν) (k : κ) (v : ν) :
    (t.insert k v).len ≤ t.len + 1 := by
  cases h : t.get k with
  | none => rw [Table.len_insert_of_get_eq_none v h]
  | some w =>
    rw [Table.len_insert_of_get v h]
    omega

theorem len_remove_le {κ ν : Type*} [DecidableEq κ] (t : Table κ ν) (k : κ) :
    (t.remove k).len ≤ t.len := by
  simpa only [Table.len_eq_total] using Table.total_remove_le (fun _ => 1) t k

theorem total_insert_clients (clients : Table String (Table PeerId PeerHandle)) (id : String)
    (members : Table PeerId PeerHandle) :
    (clients.insert id members).total Table.len + ((clients.get id).getD ∅).len =
      members.len + clients.total Table.len := by
  cases h : clients.get id with
  | none => simpa using Table.total_insert_of_get_eq_none Table.len members h
  | some old => simpa using Table.total_insert_of_get Table.len members h

theorem total_orInsert_clients (clients : Table String (Table PeerId PeerHandle)) (id : String) :
    (clients.orInsert id ∅).total Table.len = clients.total Table.len := by
  unfold Table.orInsert
  split_ifs with h
  · rfl
  · have hn : clients.get id = none := by simpa [Table.containsKey] using h
    simpa using Table.total_insert_of_get_eq_none Table.len ∅ hn

theorem countLiveSockets_register_le (serde : SerdeJson) (limits : RelayLimitsConfig)
    (state : SessionState) (peerMeta : PeerMeta)
    (h : countLiveSockets state ≤ limits.maxSocketsPerSession) :
    countLiveSockets (register serde limits state ⟨peerMeta⟩).state ≤
      limits.maxSocketsPerSession := by
  unfold register
  by_cases hfull : limits.maxSocketsPerSession ≤ countLiveSockets state
  · simpa only [hfull, if_true] using h
  · have hlt : countLiveSockets state < limits.maxSocketsPerSession := not_le.mp hfull
    have hs := slotCount_le_one (some (⟨peerMeta⟩ : PeerHandle))
    simp only [hfull, if_false]
    cases hk : peerMeta.kind with
    | v1Server =>
      simp only [countLiveSockets] at hlt ⊢
      omega
    | v1Client =>
      simp only [countLiveSockets] at hlt ⊢
      omega
    | v2ServerControl =>
      simp only [countLiveSockets] at hlt ⊢
      omega
    | v2ServerData c =>
      have hl := len_insert_le state.serverData c ⟨peerMeta⟩
      simp only [flushPendingLocked_eq, countLiveSockets] at hlt ⊢
      omega
    | v2Client c =>
      simp only [apply_ite Registration.state]
      split_ifs
      · have ht := total_orInsert_clients state.clients c
        simp only [countLiveSockets] at hlt ⊢
        omega
      · have ht := total_insert_clients state.clients c
          (((state.clients.get c).getD ∅).insert peerMeta.peerId ⟨peerMeta⟩)
        have hl := len_insert_le ((state.clients.get c).getD ∅) peerMeta.peerId
          (⟨peerMeta⟩ : PeerHandle)
        simp only [countLiveSockets] at hlt ⊢
        omega

theorem countLiveSockets_handleFrame (serde : SerdeJson) (state : SessionState)
    (peerMeta : PeerMeta) (frame : RelayFrame) (nowMs : ℕ) :
    countLiveSockets (handleFrame serde state peerMeta frame nowMs).1 = countLiveSockets state := by
  unfold handleFrame
  split
  case h_3 => split_ifs <;> [(split <;> [(split_ifs <;> rfl); rfl]); rfl]
  case h_5 => split <;> rfl
  all_goals rfl

theorem countLiveSockets_unregister_le (serde : SerdeJson) (state : SessionState)
    (peerMeta : PeerMeta) :
    countLiveSockets (unregister serde state peerMeta).1 ≤ countLiveSockets state := by
  unfold unregister
  cases hk : peerMeta.kind with
  | v1Server =>
    have hs := slotCount_clearIfSame_le state.v1Server peerMeta.peerId
    simp only [countLiveSockets]
    omega
  | v1Client =>
    have hs := slotCount_clearIfSame_le state.v1Client peerMeta.peerId
    simp only [countLiveSockets]
    omega
  | v2ServerControl =>
    have hs := slotCount_clearIfSame_le state.serverControl peerMeta.peerId
    simp only [countLiveSockets]
    omega
  | v2ServerData c =>
    have hl := len_remove_le state.serverData c
    simp only [countLiveSockets]
    split_ifs
    · simp only
      omega
    · exact le_rfl
  | v2Client c =>
    cases hc : state.clients.get c with
    | none => simp only [hc, le_refl]
    | some clients =>
      have ht := total_insert_clients state.clients c (clients.remove peerMeta.peerId)
      have hl := len_remove_le clients peerMeta.peerId
      rw [hc, Option.getD_some] at ht
      simp only [hc, apply_ite Prod.fst]
      split_ifs with h0
      · have hr := len_remove_le state.serverData c
        have hm := Table.total_remove_le Table.len
          (state.clients.insert c (clients.remove peerMeta.peerId)) c
        simp only [endConnection, countLiveSockets]
        omega
      · simp only [countLiveSockets]
        omega

/-! ## What an operation does to a connection -/

theorem Owned.update {phase : PeerId → Phase} {kind : PeerKind} {slot : Option PeerHandle}
    (h : Owned phase kind slot) (p : PeerId) (x : Phase)
    (hp : ∀ handle, slot = some handle → handle.peerMeta.peerId ≠ p) :
    Owned (Function.update phase p x) kind slot := by
  intro handle hs
  rw [Function.update_of_ne (hp handle hs)]
  exact h handle hs

theorem Owned.ne_of_fresh {phase : PeerId → Phase} {kind : PeerKind} {slot : Option PeerHandle}
    (h : Owned phase kind slot) {p : PeerId} (hp : phase p = .fresh) :
    ∀ handle, slot = some handle → handle.peerMeta.peerId ≠ p := by
  intro handle hs he
  rw [← he, (h handle hs).1] at hp
  cases hp

theorem Owned.ne_of_kind {phase : PeerId → Phase} {kind : PeerKind} {slot : Option PeerHandle}
    (h : Owned phase kind slot) {p : PeerId} {peerMeta : PeerMeta}
    (hp : phase p = .registered peerMeta) (hk : peerMeta.kind ≠ kind) :
    ∀ handle, slot = some handle → handle.peerMeta.peerId ≠ p := by
  intro handle hs he
  have ho := h handle hs
  rw [he, hp, Phase.registered.injEq] at ho
  rw [ho.1] at hk
  exact hk ho.2

theorem Owned.clear {phase : PeerId → Phase} {kind : PeerKind} {slot : Option PeerHandle}
    (h : Owned phase kind slot) (p : PeerId) (x : Phase) :
    Owned (Function.update phase p x) kind (clearIfSame slot p) := by
  intro handle hs
  rw [clearIfSame_eq_some] at hs
  rw [Function.update_of_ne hs.2]
  exact h handle hs.1

theorem Owned.some {phase : PeerId → Phase} {peerMeta : PeerMeta} {p : PeerId}
    (hp : peerMeta.peerId = p) :
    Owned (Function.update phase p (.registered peerMeta)) peerMeta.kind (some ⟨peerMeta⟩) := by
  intro handle hs
  obtain rfl := Option.some.inj hs
  rw [hp, Function.update_self]
  exact ⟨rfl, rfl⟩

theorem popOverflow_eq (frames : List RelayFrame) :
    popOverflow frames = frames.rtake pendingFrameLimit := by
  rw [List.rtake]
  induction frames with
  | nil => rfl
  | cons frame frames ih =>
    rw [popOverflow]
    split_ifs with h
    · rw [ih]
      rw [List.length_cons] at h ⊢
      rw [show frames.length + 1 - pendingFrameLimit = (frames.length - pendingFrameLimit) + 1 by
        omega, List.drop_succ_cons]
    · rw [Nat.sub_eq_zero_of_le (not_lt.mp h), List.drop_zero]

theorem length_popOverflow (frames : List RelayFrame) :
    (popOverflow frames).length = min pendingFrameLimit frames.length := by
  rw [popOverflow_eq, List.rtake, List.length_drop]
  omega

namespace Connection.Sound

variable {limits : RelayLimitsConfig} {phase : PeerId → Phase} {id : String} {k : Connection}

theorem get_eq_none_of_fresh (h : k.Sound limits phase id) {p : PeerId} (hp : phase p = .fresh) :
    k.members.get p = none := by
  cases hg : k.members.get p with
  | none => rfl
  | some handle =>
    have hc := (h.client p handle hg).2.1
    rw [hp] at hc
    cases hc

theorem get_eq_none_of_kind (h : k.Sound limits phase id) {p : PeerId} {peerMeta : PeerMeta}
    (hp : phase p = .registered peerMeta) (hk : peerMeta.kind ≠ .v2Client id) :
    k.members.get p = none := by
  cases hg : k.members.get p with
  | none => rfl
  | some handle =>
    have hc := (h.client p handle hg).2
    rw [hp, Phase.registered.injEq] at hc
    rw [hc.1] at hk
    exact absurd hc.2 hk

theorem update (h : k.Sound limits phase id) {p : PeerId} (x : Phase)
    (hserver : ∀ handle, k.server = some handle → handle.peerMeta.peerId ≠ p)
    (hclient : k.members.get p = none)
    (hx : ∀ peerMeta, x = .registered peerMeta → peerMeta.kind ≠ .v2Client id) :
    k.Sound limits (Function.update phase p x) id where
  server := h.server.update p x hserver
  client := by
    intro q handle hg
    have hq : q ≠ p := by
      rintro rfl
      rw [hclient] at hg
      cases hg
    rw [Function.update_of_ne hq]
    exact h.client q handle hg
  joined := by
    intro q peerMeta hr hk
    by_cases hq : q = p
    · rw [hq, Function.update_self] at hr
      exact absurd hk (hx peerMeta hr)
    · rw [Function.update_of_ne hq] at hr
      exact h.joined q peerMeta hr hk
  members_le := h.members_le
  inhabited := h.inhabited
  pending := h.pending

theorem attach (h : k.Sound limits phase id) {handle : PeerHandle}
    (ho : Owned phase (.v2ServerData id) (some handle)) :
    (k.step (.attach handle)).Sound limits phase id where
  server := ho
  client := h.client
  joined := h.joined
  members_le := h.members_le
  inhabited := h.inhabited
  pending := by
    intro frames hf
    cases hf

theorem join (h : k.Sound limits phase id) {peerMeta : PeerMeta}
    (hfresh : phase peerMeta.peerId = .fresh) (hk : peerMeta.kind = .v2Client id)
    (hroom : ¬ limits.maxClientsPerConnection ≤ k.members.len) :
    (k.step (.join ⟨peerMeta⟩)).Sound limits
      (Function.update phase peerMeta.peerId (.registered peerMeta)) id where
  server := h.server.update _ _ (h.server.ne_of_fresh hfresh)
  client := by
    intro q handle hg
    change (k.members.insert peerMeta.peerId ⟨peerMeta⟩).get q = some handle at hg
    by_cases hq : q = peerMeta.peerId
    · subst hq
      rw [Table.get_insert_self, Option.some.injEq] at hg
      rw [Function.update_self, ← hg]
      exact ⟨rfl, rfl, hk⟩
    · rw [Table.get_insert_of_ne hq] at hg
      rw [Function.update_of_ne hq]
      exact h.client q handle hg
  joined := by
    intro q other hr ho
    change (k.members.insert peerMeta.peerId ⟨peerMeta⟩).get q = _
    by_cases hq : q = peerMeta.peerId
    · subst hq
      rw [Function.update_self, Phase.registered.injEq] at hr
      rw [Table.get_insert_self, hr]
    · rw [Function.update_of_ne hq] at hr
      rw [Table.get_insert_of_ne hq]
      exact h.joined q other hr ho
  members_le := by
    have hl := len_insert_le k.members peerMeta.peerId ⟨peerMeta⟩
    change (k.members.insert peerMeta.peerId ⟨peerMeta⟩).len ≤ _
    omega
  inhabited := by
    intro _ clients hc
    obtain rfl := Option.some.inj hc
    rw [Table.len_insert_of_get_eq_none _ (h.get_eq_none_of_fresh hfresh)]
    omega
  pending := by
    intro frames hf
    have hp := h.pending frames hf
    refine ⟨hp.1, hp.2.1, hp.2.2.1, ?_⟩
    change 0 < (k.members.insert peerMeta.peerId ⟨peerMeta⟩).len
    rw [Table.len_insert_of_get_eq_none _ (h.get_eq_none_of_fresh hfresh)]
    omega

theorem refuse (h : k.Sound limits phase id)
    (hfull : limits.maxClientsPerConnection ≤ k.members.len) :
    (k.step .refuse).Sound limits phase id where
  server := h.server
  client := h.client
  joined := h.joined
  members_le := h.members_le
  inhabited := by
    intro hpos clients hc
    obtain rfl := Option.some.inj hc
    omega
  pending := h.pending

theorem clientFrame (h : k.Sound limits phase id) {p : PeerId} {peerMeta : PeerMeta}
    (hp : phase p = .registered peerMeta) (hk : peerMeta.kind = .v2Client id)
    (frame : RelayFrame) : (k.step (.clientFrame frame)).Sound limits phase id := by
  cases hs : k.server with
  | some server => simpa only [Connection.step, hs, Option.isSome_some, if_true] using h
  | none =>
    have hlen : 0 < k.members.len := by
      rw [Nat.pos_iff_ne_zero, Ne, Table.len_eq_zero_iff]
      intro hn
      have hj := h.joined p peerMeta hp hk
      rw [hn p] at hj
      cases hj
    simp only [Connection.step, hs, Option.isSome_none, Bool.false_eq_true, if_false]
    refine ⟨?_, h.client, h.joined, h.members_le, h.inhabited, ?_⟩
    · intro handle hh
      cases hh
    · intro frames hf
      obtain rfl := Option.some.inj hf
      refine ⟨?_, ?_, rfl, hlen⟩
      · rw [length_popOverflow, List.length_append, List.length_singleton, pendingFrameLimit]
        omega
      · rw [length_popOverflow]
        exact Nat.min_le_left _ _

theorem detach (h : k.Sound limits phase id) {p : PeerId} {peerMeta : PeerMeta}
    (hp : phase p = .registered peerMeta) (hk : peerMeta.kind = .v2ServerData id) :
    (k.step (.detach p)).Sound limits (Function.update phase p .gone) id := by
  have hn : k.members.get p = none := by
    apply h.get_eq_none_of_kind hp
    rw [hk]
    exact PeerKind.noConfusion
  refine ⟨h.server.clear p .gone, ?_, ?_, h.members_le, h.inhabited, ?_⟩
  · intro q handle hg
    have hq : q ≠ p := by
      rintro rfl
      exact absurd (hg.symm.trans hn) (by simp)
    rw [Function.update_of_ne hq]
    exact h.client q handle hg
  · intro q other hr ho
    by_cases hq : q = p
    · rw [hq, Function.update_self] at hr
      cases hr
    · rw [Function.update_of_ne hq] at hr
      exact h.joined q other hr ho
  · intro frames hf
    have hpend := h.pending frames hf
    refine ⟨hpend.1, hpend.2.1, ?_, hpend.2.2.2⟩
    change clearIfSame k.server p = none
    rw [hpend.2.2.1, clearIfSame_none]

theorem leave (h : k.Sound limits phase id) {p : PeerId} {peerMeta : PeerMeta}
    (hp : phase p = .registered peerMeta) (hk : peerMeta.kind = .v2Client id) :
    (k.step (.leave p)).Sound limits (Function.update phase p .gone) id := by
  have hg := h.joined p peerMeta hp hk
  obtain ⟨clients, hc⟩ : ∃ clients, k.clients = some clients := by
    cases hc : k.clients with
    | none => simp [Connection.members, hc] at hg
    | some clients => exact ⟨clients, rfl⟩
  have hm : k.members = clients := by rw [Connection.members, hc, Option.getD_some]
  rw [hm] at hg
  have hserver : ∀ handle, k.server = some handle → handle.peerMeta.peerId ≠ p := by
    apply h.server.ne_of_kind hp
    rw [hk]
    exact PeerKind.noConfusion
  have hstays : ∀ q other, Function.update phase p .gone q = .registered other →
      other.kind = .v2Client id → (clients.remove p).get q = some ⟨other⟩ := by
    intro q other hr ho
    by_cases hq : q = p
    · rw [hq, Function.update_self] at hr
      cases hr
    · rw [Function.update_of_ne hq] at hr
      rw [Table.get_remove_of_ne hq, ← hm]
      exact h.joined q other hr ho
  by_cases hl : (clients.remove p).len = 0
  · have he : k.step (.leave p) = ⟨none, none, none⟩ := by
      simp [Connection.step, Connection.endsWith, hc, hl]
    rw [he]
    refine ⟨?_, ?_, ?_, Nat.zero_le _, ?_, ?_⟩
    · intro handle hh
      cases hh
    · intro q handle hq
      cases hq
    · intro q other hr ho
      have hs := hstays q other hr ho
      rw [Table.len_eq_zero_iff.mp hl q] at hs
      cases hs
    · intro _ stored hh
      cases hh
    · intro frames hh
      cases hh
  · have he : k.step (.leave p) = { k with clients := some (clients.remove p) } := by
      simp [Connection.step, Connection.endsWith, hc, hl]
    have hpos : 0 < (clients.remove p).len := Nat.pos_of_ne_zero hl
    rw [he]
    refine ⟨h.server.update p .gone hserver, ?_, hstays, ?_, ?_, ?_⟩
    · intro q handle hq
      change (clients.remove p).get q = some handle at hq
      have hqp : q ≠ p := by
        rintro rfl
        rw [Table.get_remove_self] at hq
        cases hq
      rw [Table.get_remove_of_ne hqp, ← hm] at hq
      rw [Function.update_of_ne hqp]
      exact h.client q handle hq
    · have hle := h.members_le
      have hr := len_remove_le clients p
      rw [hm] at hle
      exact hr.trans hle
    · intro _ stored hh
      obtain rfl := Option.some.inj hh
      exact hpos
    · intro frames hf
      have hpend := h.pending frames hf
      exact ⟨hpend.1, hpend.2.1, hpend.2.2.1, hpos⟩

end Connection.Sound

/-! ## What an operation does to the slots -/

section Slots

variable (serde : SerdeJson) (limits : RelayLimitsConfig) (state : SessionState)
  (peerMeta : PeerMeta)

theorem register_slots :
    let r := register serde limits state ⟨peerMeta⟩
    let taken := fun kind => r.result.isOk = true ∧ peerMeta.kind = kind
    (r.state.v1Server = state.v1Server ∨
        taken .v1Server ∧ r.state.v1Server = some ⟨peerMeta⟩) ∧
      (r.state.v1Client = state.v1Client ∨
        taken .v1Client ∧ r.state.v1Client = some ⟨peerMeta⟩) ∧
      (r.state.serverControl = state.serverControl ∨
        taken .v2ServerControl ∧ r.state.serverControl = some ⟨peerMeta⟩) := by
  simp only [register]
  by_cases hfull : limits.maxSocketsPerSession ≤ countLiveSockets state
  · simp [hfull]
  · simp only [hfull, if_false]
    cases hk : peerMeta.kind with
    | v1Server => simp [Except.isOk, Except.toBool]
    | v1Client => simp [Except.isOk, Except.toBool]
    | v2ServerControl => simp [Except.isOk, Except.toBool]
    | v2ServerData c => simp [flushPendingLocked_eq]
    | v2Client c =>
      dsimp only
      split_ifs <;> simp

theorem handleFrame_slots (frame : RelayFrame) (nowMs : ℕ) :
    let next := (handleFrame serde state peerMeta frame nowMs).1
    next.v1Server = state.v1Server ∧ next.v1Client = state.v1Client ∧
      next.serverControl = state.serverControl := by
  simp only [handleFrame]
  split
  case h_3 => split_ifs <;>
    [(split <;> [(split_ifs <;> exact ⟨rfl, rfl, rfl⟩); exact ⟨rfl, rfl, rfl⟩]); exact ⟨rfl, rfl,
      rfl⟩]
  case h_5 => split <;> exact ⟨rfl, rfl, rfl⟩
  all_goals exact ⟨rfl, rfl, rfl⟩

theorem unregister_slots :
    let next := (unregister serde state peerMeta).1
    let cleared := fun kind slot =>
      if peerMeta.kind = kind then clearIfSame slot peerMeta.peerId else slot
    next.v1Server = cleared .v1Server state.v1Server ∧
      next.v1Client = cleared .v1Client state.v1Client ∧
      next.serverControl = cleared .v2ServerControl state.serverControl := by
  simp only [unregister]
  cases hk : peerMeta.kind with
  | v1Server => simp
  | v1Client => simp
  | v2ServerControl => simp
  | v2ServerData c =>
    simp only [reduceCtorEq, if_false]
    split_ifs <;> exact ⟨rfl, rfl, rfl⟩
  | v2Client c =>
    cases hc : state.clients.get c with
    | none => simp [hc]
    | some clients =>
      by_cases hl : (clients.remove peerMeta.peerId).len = 0 <;> simp [hc, hl, endConnection]

theorem register_isOk :
    (register serde limits state ⟨peerMeta⟩).result.isOk = true ↔
      ¬ limits.maxSocketsPerSession ≤ countLiveSockets state ∧
        ∀ id, peerMeta.kind = .v2Client id →
          ¬ limits.maxClientsPerConnection ≤ (state.connection id).members.len := by
  simp only [register]
  by_cases hfull : limits.maxSocketsPerSession ≤ countLiveSockets state
  · simp [hfull, Except.isOk, Except.toBool]
  · simp only [hfull, if_false, not_false_iff, true_and]
    cases hk : peerMeta.kind with
    | v2Client c =>
      dsimp only
      simp only [PeerKind.v2Client.injEq, forall_eq', Connection.members, SessionState.connection]
      split_ifs with hlen <;> simp [hlen, Except.isOk, Except.toBool]
    | _ => simp [Except.isOk, Except.toBool]

end Slots

/-! ## The invariant along a run -/

variable {session : RelaySession} {core core' : Core}

theorem Core.sound_init (session : RelaySession) : Core.init.Sound session where
  conforms := by
    intro p peerMeta hp
    cases hp
  v1Server := by
    intro handle hs
    cases hs
  v1Client := by
    intro handle hs
    cases hs
  serverControl := by
    intro handle hs
    cases hs
  connection := by
    intro id
    refine ⟨?_, ?_, ?_, Nat.zero_le _, ?_, ?_⟩
    · intro handle hh
      cases hh
    · intro q handle hq
      cases hq
    · intro q other hr
      cases hr
    · intro _ stored hh
      cases hh
    · intro frames hh
      cases hh
  sockets := Nat.zero_le _

theorem Core.Sound.register {peerMeta : PeerMeta} {sends : List Send} (h : core.Sound session)
    (hs : core.step session (.register peerMeta) = some (core', sends)) :
    core'.Sound session := by
  rcases Core.step_register hs with ⟨⟨hfresh, hconf, -⟩, hstate, -, hphase, -⟩
  have hslots := register_slots session.serde session.limits core.state peerMeta
  have hok := register_isOk session.serde session.limits core.state peerMeta
  dsimp only at hslots
  rw [← hstate] at hslots
  have hslot : ∀ kind old new, Owned core.phase kind old →
      (new = old ∨ ((Relay.register session.serde session.limits core.state
        ⟨peerMeta⟩).result.isOk = true ∧ peerMeta.kind = kind) ∧ new = some ⟨peerMeta⟩) →
      Owned core'.phase kind new := by
    rintro kind old new ho (rfl | ⟨⟨hacc, rfl⟩, rfl⟩)
    · rw [hphase]
      exact ho.update _ _ (ho.ne_of_fresh hfresh)
    · rw [hphase, if_pos hacc]
      exact Owned.some rfl
  have hother : ∀ id x, (∀ other, x = .registered other → other.kind ≠ .v2Client id) →
      (core.state.connection id).Sound session.limits
        (Function.update core.phase peerMeta.peerId x) id := fun id x hx =>
    (h.connection id).update x ((h.connection id).server.ne_of_fresh hfresh)
      ((h.connection id).get_eq_none_of_fresh hfresh) hx
  refine ⟨?_, hslot _ _ _ h.v1Server hslots.1, hslot _ _ _ h.v1Client hslots.2.1,
    hslot _ _ _ h.serverControl hslots.2.2, ?_, ?_⟩
  · intro p other hp
    rw [hphase] at hp
    by_cases he : p = peerMeta.peerId
    · rw [he, Function.update_self] at hp
      split_ifs at hp
      obtain rfl := Phase.registered.inj hp
      exact ⟨he.symm, hconf⟩
    · rw [Function.update_of_ne he] at hp
      exact h.conforms p other hp
  · intro id
    rw [Core.step_connection hs id, hphase]
    by_cases hfull : session.limits.maxSocketsPerSession ≤ countLiveSockets core.state
    · rw [if_neg (by rw [hok]; exact fun hn => hn.1 hfull)]
      simp only [SessionEvent.connectionOp, hfull, if_true, SessionState.applied]
      exact hother id .gone (by simp)
    cases hk : peerMeta.kind with
    | v2ServerData c =>
      rw [if_pos (by rw [hok]; simp [hfull, hk])]
      simp only [SessionEvent.connectionOp, hfull, if_false, hk, SessionState.applied]
      have ho := hother id (.registered peerMeta) (by rintro other he; cases he; simp [hk])
      split_ifs with hid
      · subst hid
        apply ho.attach
        rw [← hk]
        exact Owned.some rfl
      · exact ho
    | v2Client c =>
      simp only [SessionEvent.connectionOp, hfull, if_false, hk]
      by_cases hlen : session.limits.maxClientsPerConnection ≤
          (core.state.connection c).members.len
      · rw [if_neg (by rw [hok]; exact fun hn => hn.2 c hk hlen)]
        simp only [hlen, if_true, SessionState.applied]
        have ho := hother id .gone (by simp)
        split_ifs with hid
        · subst hid
          exact ho.refuse hlen
        · exact ho
      · rw [if_pos (by rw [hok]; exact ⟨hfull, fun id hi => by cases hk.symm.trans hi; exact hlen⟩)]
        simp only [hlen, if_false, SessionState.applied]
        split_ifs with hid
        · subst hid
          exact (h.connection id).join hfresh hk hlen
        · apply hother
          rintro other he
          cases he
          rw [hk, Ne, PeerKind.v2Client.injEq]
          exact fun hc => hid hc.symm
    | _ =>
      simp only [SessionEvent.connectionOp, hfull, if_false, hk, SessionState.applied]
      apply hother
      intro other he
      split_ifs at he
      cases he
      simp [hk]
  · rw [hstate]
    exact countLiveSockets_register_le _ _ _ _ h.sockets

theorem Core.Sound.frame {peerMeta : PeerMeta} {frame : RelayFrame} {nowMs : ℕ} {sends : List Send}
    (h : core.Sound session)
    (hs : core.step session (.frame peerMeta frame nowMs) = some (core', sends)) :
    core'.Sound session := by
  have hconn := Core.step_connection hs
  rcases Core.step_frame hs with ⟨hp, rfl, -⟩
  have hslots := handleFrame_slots session.serde core.state peerMeta frame nowMs
  refine ⟨h.conforms, ?_, ?_, ?_, ?_, ?_⟩
  · exact hslots.1 ▸ h.v1Server
  · exact hslots.2.1 ▸ h.v1Client
  · exact hslots.2.2 ▸ h.serverControl
  · intro id
    rw [hconn id]
    simp only [SessionEvent.connectionOp]
    split
    · rename_i c hv hk
      simp only [SessionState.applied]
      split_ifs with hid
      · subst hid
        exact (h.connection id).clientFrame hp hk frame
      · exact h.connection id
    · simp only [SessionState.applied]
      split_ifs with hid
      · subst hid
        exact h.connection id
      · exact h.connection id
    · exact h.connection id
  · change countLiveSockets (handleFrame session.serde core.state peerMeta frame nowMs).1 ≤ _
    rw [countLiveSockets_handleFrame]
    exact h.sockets

theorem Core.Sound.unregister {peerMeta : PeerMeta} {sends : List Send} (h : core.Sound session)
    (hs : core.step session (.unregister peerMeta) = some (core', sends)) :
    core'.Sound session := by
  have hconn := Core.step_connection hs
  rcases Core.step_unregister hs with ⟨hp, rfl, -⟩
  have hslots := unregister_slots session.serde core.state peerMeta
  dsimp only at hslots
  -- Either the slot is of the peer's kind and is cleared of it, or it cannot hold the peer.
  have hslot : ∀ kind slot, Owned core.phase kind slot →
      Owned (Function.update core.phase peerMeta.peerId .gone) kind
        (if peerMeta.kind = kind then clearIfSame slot peerMeta.peerId else slot) := by
    intro kind slot ho
    split_ifs with hk
    · exact ho.clear _ _
    · exact ho.update _ _ (ho.ne_of_kind hp hk)
  refine ⟨?_, ?_, ?_, ?_, ?_, ?_⟩
  · intro p other hr
    dsimp only at hr
    by_cases he : p = peerMeta.peerId
    · rw [he, Function.update_self] at hr
      cases hr
    · rw [Function.update_of_ne he] at hr
      exact h.conforms p other hr
  · dsimp only
    rw [hslots.1]
    exact hslot _ _ h.v1Server
  · dsimp only
    rw [hslots.2.1]
    exact hslot _ _ h.v1Client
  · dsimp only
    rw [hslots.2.2]
    exact hslot _ _ h.serverControl
  · intro id
    rw [hconn id]
    have hother : peerMeta.kind ≠ .v2ServerData id → peerMeta.kind ≠ .v2Client id →
        (core.state.connection id).Sound session.limits
          (Function.update core.phase peerMeta.peerId .gone) id := by
      intro hd hc
      exact (h.connection id).update .gone ((h.connection id).server.ne_of_kind hp hd)
        ((h.connection id).get_eq_none_of_kind hp hc) (by simp)
    cases hk : peerMeta.kind with
    | v2ServerData c =>
      simp only [SessionEvent.connectionOp, hk, SessionState.applied]
      split_ifs with hid
      · subst hid
        exact (h.connection id).detach hp hk
      · apply hother
        · rw [hk, Ne, PeerKind.v2ServerData.injEq]
          exact fun hc => hid hc.symm
        · simp [hk]
    | v2Client c =>
      simp only [SessionEvent.connectionOp, hk, SessionState.applied]
      split_ifs with hid
      · subst hid
        exact (h.connection id).leave hp hk
      · apply hother
        · simp [hk]
        · rw [hk, Ne, PeerKind.v2Client.injEq]
          exact fun hc => hid hc.symm
    | _ =>
      simp only [SessionEvent.connectionOp, hk, SessionState.applied]
      exact hother (by simp [hk]) (by simp [hk])
  · exact (countLiveSockets_unregister_le _ _ _).trans h.sockets

theorem Core.Sound.step {event : SessionEvent} {sends : List Send} (h : core.Sound session)
    (hs : core.step session event = some (core', sends)) : core'.Sound session := by
  cases event with
  | register peerMeta => exact h.register hs
  | frame peerMeta frame nowMs => exact h.frame hs
  | ping peerMeta payload =>
    rcases Core.step_ping hs with ⟨-, rfl, -⟩
    exact h
  | unregister peerMeta => exact h.unregister hs
  | nudge peerId =>
    rcases Core.step_nudge hs with ⟨id, stage, -, rfl, -⟩
    exact ⟨h.conforms, h.v1Server, h.v1Client, h.serverControl, h.connection, h.sockets⟩

theorem World.sound_step {world world' : World} {event : WorldEvent}
    (h : world.toCore.Sound session) (hs : world.step session event = some world') :
    world'.toCore.Sound session := by
  cases event with
  | session event pace =>
    simp only [World.step, Option.map_eq_some_iff] at hs
    rcases hs with ⟨r, hr, rfl⟩
    exact h.step hr
  | queue peerId work =>
    simp only [World.step, Option.ite_none_left_eq_some, Option.some.injEq] at hs
    rcases hs with ⟨-, rfl⟩
    exact h

theorem World.run_sound {world : World} {ms : List (Move World WorldEvent)}
    (hrun : Run (World.step session) (World.init session) ms world) :
    world.toCore.Sound session :=
  hrun.invariant (Core.sound_init session) fun _ _ _ h hs => World.sound_step h hs

/-- What the six parts of a session's state represent, read off the state alone. -/
structure SessionState.Represents (limits : RelayLimitsConfig) (phase : PeerId → Phase)
    (state : SessionState) : Prop where
  v1Server : Owned phase .v1Server state.v1Server
  v1Client : Owned phase .v1Client state.v1Client
  serverControl : Owned phase .v2ServerControl state.serverControl
  serverData : ∀ id, Owned phase (.v2ServerData id) (state.serverData.get id)
  clients : ∀ id clients, state.clients.get id = some clients →
    0 < clients.len ∧ clients.len ≤ limits.maxClientsPerConnection ∧
      ∀ p handle, clients.get p = some handle →
        handle.peerMeta.peerId = p ∧ Owned phase (.v2Client id) (some handle)
  sockets : countLiveSockets state ≤ limits.maxSocketsPerSession
  pending : ∀ id frames, state.pending.get id = some frames →
    0 < frames.length ∧ frames.length ≤ pendingFrameLimit ∧ state.serverData.get id = none ∧
      ∃ clients, state.clients.get id = some clients ∧ 0 < clients.len

theorem Core.Sound.represents (h : core.Sound session)
    (hpos : 0 < session.limits.maxClientsPerConnection) :
    core.state.Represents session.limits core.phase where
  v1Server := h.v1Server
  v1Client := h.v1Client
  serverControl := h.serverControl
  serverData := fun id => (h.connection id).server
  clients := by
    intro id clients hc
    have hm : (core.state.connection id).members = clients := by
      rw [Connection.members, SessionState.connection, hc, Option.getD_some]
    have hk := h.connection id
    refine ⟨hk.inhabited hpos clients hc, hm ▸ hk.members_le, ?_⟩
    intro p handle hg
    have ho := hk.client p handle (by rw [hm, hg])
    refine ⟨ho.1, ?_⟩
    intro stored hs
    obtain rfl := Option.some.inj hs
    rw [ho.1]
    exact ho.2
  sockets := h.sockets
  pending := by
    intro id frames hf
    have hp := (h.connection id).pending frames hf
    refine ⟨hp.1, hp.2.1, hp.2.2.1, ?_⟩
    have hpos := hp.2.2.2
    cases hc : core.state.clients.get id with
    | none => simp [Connection.members, SessionState.connection, hc] at hpos
    | some clients =>
      refine ⟨clients, rfl, ?_⟩
      simpa [Connection.members, SessionState.connection, hc] using hpos

theorem SessionState.Represents.eq_default {limits : RelayLimitsConfig} {phase : PeerId → Phase}
    {state : SessionState} (h : state.Represents limits phase)
    (hnone : ∀ p peerMeta, phase p ≠ .registered peerMeta) : state = .default := by
  have hslot : ∀ kind slot, Owned phase kind slot → slot = none := by
    intro kind slot ho
    cases slot with
    | none => rfl
    | some handle => exact absurd (ho handle rfl).1 (hnone _ _)
  have hclients : ∀ id, state.clients.get id = none := by
    intro id
    cases hc : state.clients.get id with
    | none => rfl
    | some clients =>
      have hk := h.clients id clients hc
      have hzero : clients.len = 0 := by
        rw [Table.len_eq_zero_iff]
        intro p
        cases hg : clients.get p with
        | none => rfl
        | some handle => exact absurd ((hk.2.2 p handle hg).2 handle rfl).1 (hnone _ _)
      omega
  have hpending : ∀ id, state.pending.get id = none := by
    intro id
    cases hf : state.pending.get id with
    | none => rfl
    | some frames =>
      rcases (h.pending id frames hf).2.2.2 with ⟨clients, hc, -⟩
      rw [hclients id] at hc
      cases hc
  cases state with
  | mk v1Server v1Client serverControl serverData clients pending =>
    rw [SessionState.default, SessionState.mk.injEq]
    exact ⟨hslot _ _ h.v1Server, hslot _ _ h.v1Client, hslot _ _ h.serverControl,
      Table.eq_empty_of_get fun id => hslot _ _ (h.serverData id),
      Table.eq_empty_of_get hclients, Table.eq_empty_of_get hpending⟩

/-- Every reachable state is well represented, and nothing leaks: once every registered
peer has unregistered, the state is the initial one. -/
theorem run_represents {world : World} {ms : List (Move World WorldEvent)}
    (hrun : Run (World.step session) (World.init session) ms world)
    (hpos : 0 < session.limits.maxClientsPerConnection) :
    world.state.Represents session.limits world.phase ∧
      ((∀ p peerMeta, world.phase p ≠ .registered peerMeta) → world.state = .default) :=
  ⟨(World.run_sound hrun).represents hpos, ((World.run_sound hrun).represents hpos).eq_default⟩

/-- A client that leaves before a server-data socket comes. -/
def earlyDeparture : List WorldEvent :=
  [.session (.register (nodeClient 1 "c")) [],
    .session (.frame (nodeClient 1 "c") (.text "hello") 0) [],
    .session (.unregister (nodeClient 1 "c")) []]

theorem run_represents_of_earlyDeparture :
    ∃ world, play (World.step nodeSession) (World.init nodeSession) earlyDeparture = some world ∧
      world.state = .default := by
  refine ⟨_, rfl, (@run_represents nodeSession _ _
    (@Run.of_play _ _ _ (World.init nodeSession) _ earlyDeparture rfl) (by decide)).2 ?_⟩
  intro p peerMeta hp
  by_cases he :
    p = ⟨1⟩ <;> simp [Function.update_apply, World.init, Core.init, nodeClient, he] at hp

end NodeAccess.Relay
