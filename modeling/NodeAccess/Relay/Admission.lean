import NodeAccess.Relay.Representation

/-! # Admission to a session

`register` tests the number of stored sockets before it looks at the slot of the peer. Its refusals
are compared with what storing the peer would lead to.
-/

namespace NodeAccess.Relay

open Foundation

/-- The connection that a peer belongs to. -/
def PeerKind.connectionId : PeerKind → Option String
  | .v1Server | .v1Client | .v2ServerControl => none
  | .v2ServerData connectionId | .v2Client connectionId => some connectionId

def SessionState.clientsOf (state : SessionState) (connectionId : String) :
    Table PeerId PeerHandle :=
  (state.clients.get connectionId).getD ∅

/-- The state with the peer in its slot, whatever the limits are. -/
def SessionState.store (state : SessionState) (handle : PeerHandle) : SessionState :=
  match handle.peerMeta.kind with
  | .v1Server => { state with v1Server := some handle }
  | .v1Client => { state with v1Client := some handle }
  | .v2ServerControl => { state with serverControl := some handle }
  | .v2ServerData connectionId =>
    { state with serverData := state.serverData.insert connectionId handle }
  | .v2Client connectionId => { state with
      clients := state.clients.insert connectionId
        ((state.clientsOf connectionId).insert handle.peerMeta.peerId handle) }

/-- A state with more sockets, or more clients of the peer's connection, than the limits allow. -/
def SessionState.Exceeds (limits : RelayLimitsConfig) (peerMeta : PeerMeta) (state : SessionState) :
    Prop :=
  limits.maxSocketsPerSession < countLiveSockets state ∨
    ∃ id, peerMeta.kind.connectionId = some id ∧
      limits.maxClientsPerConnection < (state.clientsOf id).len

/-- The peer would take the place of a stored socket. -/
def Replaces (state : SessionState) (peerMeta : PeerMeta) : Prop :=
  ∃ stored, pingTarget state peerMeta = some stored

/-- A peer is refused exactly when storing it would exceed a limit; a replacement is not refused. -/
structure AdmitsExactly (session : RelaySession) (state : SessionState) (peerMeta : PeerMeta) :
    Prop where
  refused_iff : (∃ e, (register session.serde session.limits state ⟨peerMeta⟩).result = .error e) ↔
    (state.store ⟨peerMeta⟩).Exceeds session.limits peerMeta
  replaced : Replaces state peerMeta →
    (register session.serde session.limits state ⟨peerMeta⟩).result = .ok ()

/-! ## What storing a peer does -/

theorem slotCount_eq_zero_iff {slot : Option PeerHandle} : slotCount slot = 0 ↔ slot = none := by
  cases slot <;> simp [slotCount]

theorem len_insert_add_slotCount {κ : Type*} [DecidableEq κ] (t : Table κ PeerHandle) (k : κ)
    (handle : PeerHandle) : (t.insert k handle).len + slotCount (t.get k) = t.len + 1 := by
  cases h : t.get k with
  | none => simp [Table.len_insert_of_get_eq_none handle h, slotCount]
  | some old => simp [Table.len_insert_of_get handle h, slotCount]

theorem pingTarget_of_v2Client {peerMeta : PeerMeta} {c : String} (hk : peerMeta.kind = .v2Client c)
    (state : SessionState) :
    pingTarget state peerMeta = (state.clientsOf c).get peerMeta.peerId := by
  simp only [pingTarget, hk]
  cases hc : state.clients.get c <;> simp [SessionState.clientsOf, hc]

theorem countLiveSockets_store (state : SessionState) (peerMeta : PeerMeta) :
    countLiveSockets (state.store ⟨peerMeta⟩) + slotCount (pingTarget state peerMeta) =
      countLiveSockets state + 1 := by
  have hs : slotCount (some (⟨peerMeta⟩ : PeerHandle)) = 1 := rfl
  cases hk : peerMeta.kind with
  | v1Server =>
    simp only [SessionState.store, pingTarget, hk, countLiveSockets, hs]
    omega
  | v1Client =>
    simp only [SessionState.store, pingTarget, hk, countLiveSockets, hs]
    omega
  | v2ServerControl =>
    simp only [SessionState.store, pingTarget, hk, countLiveSockets, hs]
    omega
  | v2ServerData c =>
    have hl := len_insert_add_slotCount state.serverData c ⟨peerMeta⟩
    simp only [SessionState.store, pingTarget, hk, countLiveSockets]
    omega
  | v2Client c =>
    have hl := len_insert_add_slotCount (state.clientsOf c) peerMeta.peerId ⟨peerMeta⟩
    have ht := total_insert_clients state.clients c
      ((state.clientsOf c).insert peerMeta.peerId ⟨peerMeta⟩)
    change _ + (state.clientsOf c).len = _ at ht
    rw [pingTarget_of_v2Client hk]
    simp only [SessionState.store, hk, countLiveSockets]
    omega

theorem clientsOf_store {peerMeta : PeerMeta} {c : String}
    (hc : peerMeta.kind.connectionId = some c) (state : SessionState) :
    (peerMeta.kind = .v2ServerData c ∧ (state.store ⟨peerMeta⟩).clientsOf c = state.clientsOf c) ∨
      (peerMeta.kind = .v2Client c ∧
        ((state.store ⟨peerMeta⟩).clientsOf c).len + slotCount (pingTarget state peerMeta) =
          (state.clientsOf c).len + 1) := by
  cases hk : peerMeta.kind with
  | v2ServerData id =>
    rw [hk] at hc
    obtain rfl : id = c := Option.some.inj hc
    left
    simp only [SessionState.store, hk, SessionState.clientsOf, and_self]
  | v2Client id =>
    rw [hk] at hc
    obtain rfl : id = c := Option.some.inj hc
    right
    have hl := len_insert_add_slotCount (state.clientsOf id) peerMeta.peerId ⟨peerMeta⟩
    rw [pingTarget_of_v2Client hk]
    simp only [SessionState.store, hk]
    rw [SessionState.clientsOf, Table.get_insert_self, Option.getD_some]
    exact ⟨trivial, hl⟩
  | _ => simp [hk, PeerKind.connectionId] at hc

/-! ## What `register` tests -/

/-- The two tests that `register` makes. -/
def HasRoom (limits : RelayLimitsConfig) (state : SessionState) (peerMeta : PeerMeta) : Prop :=
  countLiveSockets state < limits.maxSocketsPerSession ∧
    ∀ id, peerMeta.kind = .v2Client id → (state.clientsOf id).len < limits.maxClientsPerConnection

theorem register_ok_iff (serde : SerdeJson) (limits : RelayLimitsConfig) (state : SessionState)
    (peerMeta : PeerMeta) :
    (register serde limits state ⟨peerMeta⟩).result = .ok () ↔ HasRoom limits state peerMeta := by
  unfold register HasRoom
  by_cases hfull : limits.maxSocketsPerSession ≤ countLiveSockets state
  · simp [hfull]
  · simp only [hfull, if_false]
    have hlt : countLiveSockets state < limits.maxSocketsPerSession := not_le.mp hfull
    cases hk : peerMeta.kind with
    | v2Client c =>
      change (if limits.maxClientsPerConnection ≤ (state.clientsOf c).len then _ else _ :
        Registration).result = _ ↔ _
      split_ifs with hclients
      · simp [hlt, hclients]
      · simpa [hlt] using hclients
    | _ => simp [hlt]

theorem register_state_of_ok {serde : SerdeJson} {limits : RelayLimitsConfig} {state : SessionState}
    {peerMeta : PeerMeta} (h : (register serde limits state ⟨peerMeta⟩).result = .ok ()) :
    (register serde limits state ⟨peerMeta⟩).state =
      { state.store ⟨peerMeta⟩ with
        pending := (register serde limits state ⟨peerMeta⟩).state.pending } := by
  have hroom := (register_ok_iff serde limits state peerMeta).mp h
  have hfull := not_le.mpr hroom.1
  unfold register
  simp only [hfull, if_false]
  cases hk : peerMeta.kind with
  | v2ServerData c => simp only [SessionState.store, hk, flushPendingLocked_eq]
  | v2Client c =>
    have hclients := not_le.mpr (hroom.2 c hk)
    simp only [SessionState.clientsOf] at hclients
    simp only [SessionState.store, hk, hclients, if_false, SessionState.clientsOf]
  | _ => simp only [SessionState.store, hk]

theorem register_error_iff (serde : SerdeJson) (limits : RelayLimitsConfig) (state : SessionState)
    (peerMeta : PeerMeta) :
    (∃ e, (register serde limits state ⟨peerMeta⟩).result = .error e) ↔
      ¬ HasRoom limits state peerMeta := by
  rw [← register_ok_iff serde]
  cases (register serde limits state ⟨peerMeta⟩).result <;> simp

/-! ## Admission in reachable states -/

variable {session : RelaySession} {core : Core}

/-- Within the limits, storing a peer exceeds one of them when there is no room for it and it
replaces nothing. -/
theorem Core.Sound.exceeds_store_iff (h : core.Sound session) (peerMeta : PeerMeta) :
    (core.state.store ⟨peerMeta⟩).Exceeds session.limits peerMeta ↔
      pingTarget core.state peerMeta = none ∧ ¬ HasRoom session.limits core.state peerMeta := by
  have hsockets := h.sockets
  have hstore := countLiveSockets_store core.state peerMeta
  have hle : ∀ id, (core.state.clientsOf id).len ≤ session.limits.maxClientsPerConnection :=
    fun id => (h.connection id).members_le
  constructor
  · rintro (hover | ⟨id, hid, hover⟩)
    · constructor
      · apply slotCount_eq_zero_iff.mp
        omega
      · rintro ⟨hroom, -⟩
        omega
    · have hlen := hle id
      rcases clientsOf_store hid core.state with ⟨-, hsame⟩ | ⟨hk, hadd⟩
      · rw [hsame] at hover
        omega
      · constructor
        · apply slotCount_eq_zero_iff.mp
          omega
        · rintro ⟨-, hroom⟩
          have hlt := hroom id hk
          omega
  · rintro ⟨hnone, hroom⟩
    have hzero := slotCount_eq_zero_iff.mpr hnone
    by_cases hfull : countLiveSockets core.state < session.limits.maxSocketsPerSession
    · right
      rw [HasRoom, not_and] at hroom
      have hclients := hroom hfull
      simp only [not_forall, not_lt] at hclients
      obtain ⟨id, hk, hlen⟩ := hclients
      have hid : peerMeta.kind.connectionId = some id := by rw [hk, PeerKind.connectionId]
      refine ⟨id, hid, ?_⟩
      rcases clientsOf_store hid core.state with ⟨hdata, -⟩ | ⟨-, hadd⟩
      · rw [hk] at hdata
        cases hdata
      · omega
    · left
      omega

theorem Core.Sound.hasRoom_of_replaces (h : core.Sound session) {peerMeta : PeerMeta}
    (hfresh : core.phase peerMeta.peerId = .fresh) (hr : Replaces core.state peerMeta) :
    HasRoom session.limits core.state peerMeta ↔
      countLiveSockets core.state < session.limits.maxSocketsPerSession := by
  constructor
  · exact And.left
  · intro hlt
    refine ⟨hlt, ?_⟩
    intro id hk
    obtain ⟨stored, hs⟩ := hr
    rw [pingTarget_of_v2Client hk] at hs
    have hnone := (h.connection id).get_eq_none_of_fresh hfresh
    exact absurd (hs.symm.trans hnone) (by simp)

/-- Admission is exact, except that a session with as many sockets as it may have refuses the
replacement of one of them. -/
theorem admitsExactly_iff {ms : List (Move World WorldEvent)} {world : World}
    (hrun : Run (World.step session) (World.init session) ms world) (peerMeta : PeerMeta)
    (hfresh : world.phase peerMeta.peerId = .fresh) :
    AdmitsExactly session world.state peerMeta ↔
      (Replaces world.state peerMeta →
        countLiveSockets world.state < session.limits.maxSocketsPerSession) := by
  have hsound := World.run_sound hrun
  have hok := register_ok_iff session.serde session.limits world.state peerMeta
  constructor
  · intro h hr
    exact (hok.mp (h.replaced hr)).1
  · intro h
    have hreplaced : Replaces world.state peerMeta → HasRoom session.limits world.state peerMeta :=
      fun hr => (hsound.hasRoom_of_replaces hfresh hr).mpr (h hr)
    constructor
    · rw [register_error_iff, hsound.exceeds_store_iff]
      constructor
      · intro hroom
        refine ⟨?_, hroom⟩
        cases ht : pingTarget world.state peerMeta with
        | none => rfl
        | some stored => exact absurd (hreplaced ⟨stored, ht⟩) hroom
      · exact And.right
    · intro hr
      exact hok.mpr (hreplaced hr)

/-! ## A session at its limit -/

/-- A node session that may have one socket. -/
def tightSession : RelaySession := ⟨⟨"node", .v2⟩, ⟨8, 1, 256⟩, .plain⟩

def controlOnly : List WorldEvent := [.session (.register (nodeControl 1)) []]

/-- Below the limit a new control socket replaces the old one. -/
theorem admitsExactly_of_controlOnly :
    AdmitsExactly nodeSession
      (outcome (World.step nodeSession) (World.init nodeSession) controlOnly).state
        (nodeControl 2) := by
  have hplay :
      (play (World.step nodeSession) (World.init nodeSession) controlOnly).isSome = true := by
    decide +kernel
  have hrun : Run (World.step nodeSession) (World.init nodeSession) _ _ := Run.of_outcome hplay
  apply (admitsExactly_iff hrun (nodeControl 2) (by decide +kernel)).mpr
  intro _
  decide +kernel

/-- At the limit it is refused, and the node stays locked out. -/
theorem not_admitsExactly_of_controlOnly :
    ¬ ∀ (session : RelaySession) (ms : List (Move World WorldEvent)) (world : World)
      (peerMeta : PeerMeta), Run (World.step session) (World.init session) ms world →
      world.phase peerMeta.peerId = .fresh → AdmitsExactly session world.state peerMeta := by
  intro h
  have hplay :
      (play (World.step tightSession) (World.init tightSession) controlOnly).isSome = true := by
    decide +kernel
  have hexact := h tightSession _ _ (nodeControl 2) (Run.of_outcome hplay) (by decide +kernel)
  have hok := hexact.replaced ⟨⟨nodeControl 1⟩, by decide +kernel⟩
  have hroom := (register_ok_iff _ _ _ _).mp hok
  have hfull : ¬ countLiveSockets
      (outcome (World.step tightSession) (World.init tightSession) controlOnly).state < 1 := by
    decide +kernel
  exact hfull hroom.1

end NodeAccess.Relay
