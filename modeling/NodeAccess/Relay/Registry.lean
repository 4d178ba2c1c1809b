import NodeAccess.Relay.Routing

/-! # The registry of sessions

An accepted websocket is classified by `validate_params` and `build_peer_meta`, finds
the session of its key or creates it, and is then a peer of that session. Sessions
are never removed and share nothing: each of them runs as it would alone.
-/

namespace NodeAccess.Relay

open Foundation

def PeerMeta.key (peerMeta : PeerMeta) : SessionKey := ⟨peerMeta.serverId, peerMeta.version⟩

/-- The peer that an event of a session belongs to. -/
def SessionEvent.By (peerMeta : PeerMeta) : SessionEvent → Prop
  | .register other | .frame other _ _ | .ping other _ | .unregister other => other = peerMeta
  | .nudge peerId => peerId = peerMeta.peerId

def WorldEvent.By (peerMeta : PeerMeta) : WorldEvent → Prop
  | .session event _ => event.By peerMeta
  | .queue peerId _ => peerId = peerMeta.peerId

instance (peerMeta : PeerMeta) : DecidablePred (SessionEvent.By peerMeta) := fun event => by
  cases event <;> exact inferInstanceAs (Decidable (_ = _))

instance (peerMeta : PeerMeta) : DecidablePred (WorldEvent.By peerMeta)
  | .session event _ => inferInstanceAs (Decidable (event.By peerMeta))
  | .queue _ _ => inferInstanceAs (Decidable (_ = _))

/-- The sessions with their peers, and the sockets that were accepted. -/
structure SessionRegistry where
  sessions : Table SessionKey World
  accepted : PeerId → Option PeerMeta

/-- `connectionUuid` is used where `build_peer_meta` generates a connection id. -/
inductive RegistryEvent where
  | accept (raw : RawWsParams) (peerUuid connectionUuid : ℕ)
  | peer (peerMeta : PeerMeta) (event : WorldEvent)
deriving DecidableEq, Repr

/-- The event as the session of a key sees it. -/
def RegistryEvent.ofSession (key : SessionKey) : RegistryEvent → Option WorldEvent
  | .accept _ _ _ => none
  | .peer peerMeta event => if peerMeta.key = key then some event else none

variable (limits : RelayLimitsConfig) (serde : SerdeJson)

namespace SessionRegistry

def init : SessionRegistry := ⟨∅, fun _ => none⟩

/-- What `get_or_create` makes a session with. -/
def newSession (key : SessionKey) : RelaySession := ⟨key, limits, serde⟩

def getOrCreate (registry : SessionRegistry) (key : SessionKey) : SessionRegistry :=
  { registry with
    sessions := registry.sessions.orInsert key (World.init (newSession limits serde key)) }

/-- A refused request leaves no trace; a new peer's uuid is fresh. -/
def step (registry : SessionRegistry) : RegistryEvent → Option SessionRegistry
  | .accept raw peerUuid connectionUuid =>
    match validateParams raw with
    | .error _ => some registry
    | .ok params =>
      (buildPeerMeta params peerUuid connectionUuid).bind fun peerMeta =>
        if registry.accepted peerMeta.peerId = none then
          some { registry.getOrCreate limits serde ⟨params.serverId, params.version⟩ with
            accepted := Function.update registry.accepted peerMeta.peerId (some peerMeta) }
        else none
  | .peer peerMeta event =>
    if registry.accepted peerMeta.peerId = some peerMeta ∧ event.By peerMeta then
      (registry.sessions.get peerMeta.key).bind fun world =>
        (world.step (newSession limits serde peerMeta.key) event).map fun next =>
          { registry with sessions := registry.sessions.insert peerMeta.key next }
    else none

/-- The queue of an accepted peer. -/
def queue (registry : SessionRegistry) (peerMeta : PeerMeta) : PeerQueue :=
  match registry.sessions.get peerMeta.key with
  | some world => world.queue peerMeta.peerId
  | none => .new limits.maxOutboundQueueMessages

variable {limits serde} {registry registry' : SessionRegistry}

theorem buildPeerMeta_key {params : WsParams} {peerUuid connectionUuid : ℕ} {peerMeta : PeerMeta}
    (h : buildPeerMeta params peerUuid connectionUuid = some peerMeta) :
    peerMeta.peerId = ⟨peerUuid⟩ ∧ peerMeta.key = ⟨params.serverId, params.version⟩ := by
  obtain ⟨other, ho, hid, hconf⟩ := buildPeerMeta_spec params peerUuid connectionUuid
  rw [h, Option.some.injEq] at ho
  subst ho
  exact ⟨hid, by rw [PeerMeta.key, hconf.1, hconf.2.1]⟩

theorem step_accept {raw : RawWsParams} {peerUuid connectionUuid : ℕ}
    (h : registry.step limits serde (.accept raw peerUuid connectionUuid) = some registry') :
    (∃ e, validateParams raw = .error e ∧ registry' = registry) ∨
      ∃ params peerMeta, validateParams raw = .ok params ∧
        buildPeerMeta params peerUuid connectionUuid = some peerMeta ∧
        registry.accepted peerMeta.peerId = none ∧
        registry' = ⟨registry.sessions.orInsert peerMeta.key
            (World.init (newSession limits serde peerMeta.key)),
          Function.update registry.accepted peerMeta.peerId (some peerMeta)⟩ := by
  simp only [step] at h
  cases hv : validateParams raw with
  | error e =>
    rw [hv] at h
    exact .inl ⟨e, rfl, (Option.some.inj h).symm⟩
  | ok params =>
    right
    simp only [hv, Option.bind_eq_some_iff, Option.ite_none_right_eq_some, Option.some.injEq] at h
    obtain ⟨peerMeta, hb, hfresh, rfl⟩ := h
    refine ⟨params, peerMeta, rfl, hb, hfresh, ?_⟩
    rw [(buildPeerMeta_key hb).2]
    rfl

theorem step_peer {peerMeta : PeerMeta} {event : WorldEvent}
    (h : registry.step limits serde (.peer peerMeta event) = some registry') :
    registry.accepted peerMeta.peerId = some peerMeta ∧ event.By peerMeta ∧
      ∃ world next, registry.sessions.get peerMeta.key = some world ∧
        world.step (newSession limits serde peerMeta.key) event = some next ∧
        registry' = ⟨registry.sessions.insert peerMeta.key next, registry.accepted⟩ := by
  simp only [step, Option.ite_none_right_eq_some, Option.bind_eq_some_iff,
    Option.map_eq_some_iff] at h
  obtain ⟨⟨ha, hb⟩, world, hw, next, hs, rfl⟩ := h
  exact ⟨ha, hb, world, next, hw, hs, rfl⟩

theorem step_accepted {event : RegistryEvent}
    (h : registry.step limits serde event = some registry') {p : PeerId} {peerMeta : PeerMeta}
    (hp : registry.accepted p = some peerMeta) :
    registry'.accepted p = some peerMeta := by
  cases event with
  | accept raw peerUuid connectionUuid =>
    obtain ⟨e, -, rfl⟩ | ⟨params, other, -, -, hfresh, rfl⟩ := step_accept h
    · exact hp
    · have hne : p ≠ other.peerId := by
        rintro rfl
        rw [hfresh] at hp
        cases hp
      simpa [Function.update_of_ne hne] using hp
  | peer other event =>
    obtain ⟨-, -, world, next, -, -, rfl⟩ := step_peer h
    exact hp

theorem run_accepted {ms : List (Move SessionRegistry RegistryEvent)}
    (hrun : Run (step limits serde) registry ms registry') {p : PeerId} {peerMeta : PeerMeta}
    (hp : registry.accepted p = some peerMeta) : registry'.accepted p = some peerMeta :=
  hrun.invariant (P := fun r => r.accepted p = some peerMeta) hp fun _ _ _ h hs =>
    step_accepted hs h

/-- What is accepted after a move is accepted at the end of the run. -/
theorem run_accepted_of_mem {ms : List (Move SessionRegistry RegistryEvent)}
    (hrun : Run (step limits serde) registry ms registry')
    {move : Move SessionRegistry RegistryEvent} (hm : move ∈ ms) {p : PeerId} {peerMeta : PeerMeta}
    (hp : move.after.accepted p = some peerMeta) : registry'.accepted p = some peerMeta := by
  obtain ⟨ns₁, ns₂, rfl⟩ := List.append_of_mem hm
  exact run_accepted hrun.of_split.2.2 hp

theorem run_live {ms : List (Move SessionRegistry RegistryEvent)}
    (hrun : Run (step limits serde) init ms registry) {p : PeerId} {peerMeta : PeerMeta}
    (hp : registry.accepted p = some peerMeta) :
    peerMeta.peerId = p ∧ ∃ world, registry.sessions.get peerMeta.key = some world := by
  revert p peerMeta
  apply hrun.invariant (P := fun r => ∀ {p : PeerId} {peerMeta : PeerMeta},
    r.accepted p = some peerMeta →
      peerMeta.peerId = p ∧ ∃ world, r.sessions.get peerMeta.key = some world)
  · intro p peerMeta hp
    cases hp
  · intro before event after ih hs p peerMeta hp
    cases event with
    | accept raw peerUuid connectionUuid =>
      obtain ⟨e, -, rfl⟩ | ⟨params, other, -, -, hfresh, rfl⟩ := step_accept hs
      · exact ih hp
      · dsimp only at hp ⊢
        by_cases hk : peerMeta.key = other.key
        · rw [hk, Table.get_orInsert_self]
          rcases update_some_cases hp with ⟨rfl, rfl⟩ | ⟨-, hp⟩
          · exact ⟨rfl, _, rfl⟩
          · exact ⟨(ih hp).1, _, rfl⟩
        · rw [Table.get_orInsert_of_ne hk]
          apply ih
          rcases update_some_cases hp with ⟨-, rfl⟩ | ⟨-, hp⟩
          · exact absurd rfl hk
          · exact hp
    | peer other event =>
      obtain ⟨-, -, world, next, -, -, rfl⟩ := step_peer hs
      refine ⟨(ih hp).1, ?_⟩
      dsimp only
      rw [Table.get_insert]
      split_ifs
      · exact ⟨next, rfl⟩
      · exact (ih hp).2

theorem run_ofSession_eq_nil {ms : List (Move SessionRegistry RegistryEvent)}
    (hrun : Run (step limits serde) init ms registry) {key : SessionKey}
    (hw : registry.sessions.get key = none) :
    (ms.filterMap fun move => move.event.ofSession key) = [] := by
  revert hw
  apply hrun.history_invariant (P := fun ms r => r.sessions.get key = none →
    (ms.filterMap fun move => move.event.ofSession key) = [])
  · intro _
    rfl
  · intro ms before event after _ ih hs hw
    rw [List.filterMap_append]
    cases event with
    | accept raw peerUuid connectionUuid =>
      obtain ⟨e, -, rfl⟩ | ⟨params, other, -, -, -, rfl⟩ := step_accept hs
      · simpa [RegistryEvent.ofSession] using ih hw
      · dsimp only at hw
        by_cases hk : key = other.key
        · rw [hk, Table.get_orInsert_self] at hw
          cases hw
        · rw [Table.get_orInsert_of_ne hk] at hw
          simpa [RegistryEvent.ofSession] using ih hw
    | peer other event =>
      obtain ⟨-, -, old, next, -, -, rfl⟩ := step_peer hs
      dsimp only at hw
      by_cases hk : key = other.key
      · rw [hk, Table.get_insert_self] at hw
        cases hw
      · rw [Table.get_insert_of_ne hk] at hw
        simpa [RegistryEvent.ofSession, Ne.symm hk] using ih hw

/-- Every session of the registry runs as a session alone, on the events of its own peers. -/
theorem run_session {ms : List (Move SessionRegistry RegistryEvent)}
    (hrun : Run (step limits serde) init ms registry) {key : SessionKey} {world : World}
    (hw : registry.sessions.get key = some world) :
    ∃ ns, Run (World.step (newSession limits serde key)) (World.init (newSession limits serde key))
        ns world ∧
      ns.map Move.event = ms.filterMap fun move => move.event.ofSession key := by
  revert world
  apply hrun.history_invariant (P := fun ms r => ∀ {world : World},
    r.sessions.get key = some world →
    ∃ ns, Run (World.step (newSession limits serde key)) (World.init (newSession limits serde key))
        ns world ∧
      ns.map Move.event = ms.filterMap fun move => move.event.ofSession key)
  · intro world hw
    simp [init] at hw
  · intro ms before event after hr ih hs world hw
    rw [List.filterMap_append]
    cases event with
    | accept raw peerUuid connectionUuid =>
      have hnone : ([⟨before, .accept raw peerUuid connectionUuid, after⟩] :
          List (Move SessionRegistry RegistryEvent)).filterMap
            (fun move => move.event.ofSession key) = [] := rfl
      rw [hnone, List.append_nil]
      obtain ⟨e, -, rfl⟩ | ⟨params, other, -, -, -, rfl⟩ := step_accept hs
      · exact ih hw
      · dsimp only at hw
        by_cases hk : key = other.key
        · subst hk
          rw [Table.get_orInsert_self, Option.some.injEq] at hw
          subst hw
          cases ho : before.sessions.get other.key with
          | none => exact ⟨[], Run.nil, (run_ofSession_eq_nil hr ho).symm⟩
          | some old => exact ih ho
        · rw [Table.get_orInsert_of_ne hk] at hw
          exact ih hw
    | peer other event =>
      obtain ⟨-, -, old, next, ho, hstep, rfl⟩ := step_peer hs
      dsimp only at hw
      by_cases hk : key = other.key
      · subst hk
        rw [Table.get_insert_self, Option.some.injEq] at hw
        subst hw
        obtain ⟨ns, hns, hevents⟩ := ih ho
        exact ⟨_, Run.snoc hns hstep, by simp [hevents, RegistryEvent.ofSession]⟩
      · rw [Table.get_insert_of_ne hk] at hw
        simpa [RegistryEvent.ofSession, Ne.symm hk] using ih hw

end SessionRegistry

end NodeAccess.Relay
