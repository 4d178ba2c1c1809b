import NodeAccess.Relay.Admission
import NodeAccess.Relay.Config

/-! # What a refused registration leaves behind

The second of the two tests of `register` comes after the entry of the client's connection has been
obtained for insertion.
-/

namespace NodeAccess.Relay

open Foundation

def Refused (session : RelaySession) (state : SessionState) (peerMeta : PeerMeta) : Prop :=
  ∃ e, (register session.serde session.limits state ⟨peerMeta⟩).result = .error e

/-- The state is what it was, key sets included; nothing is sent and no task is spawned. -/
structure LeavesNoTrace (session : RelaySession) (state : SessionState) (peerMeta : PeerMeta) :
    Prop where
  state_eq : (register session.serde session.limits state ⟨peerMeta⟩).state = state
  sends_eq : (register session.serde session.limits state ⟨peerMeta⟩).sends = []
  nudge_eq : (register session.serde session.limits state ⟨peerMeta⟩).nudge = none

/-- The refused peer is not the first client of an unknown connection in a session that admits
sockets but no clients. -/
def Untraced (limits : RelayLimitsConfig) (state : SessionState) (peerMeta : PeerMeta) : Prop :=
  0 < limits.maxClientsPerConnection ∨ limits.maxSocketsPerSession ≤ countLiveSockets state ∨
    ∀ id, peerMeta.kind = .v2Client id → state.clients.containsKey id = true

variable {session : RelaySession}

theorem register_of_refused {state : SessionState} {peerMeta : PeerMeta}
    (h : Refused session state peerMeta) :
    (session.limits.maxSocketsPerSession ≤ countLiveSockets state ∧
        register session.serde session.limits state ⟨peerMeta⟩ =
          ⟨.error "Session socket limit exceeded", state, [], none⟩) ∨
      (countLiveSockets state < session.limits.maxSocketsPerSession ∧
        ∃ id, peerMeta.kind = .v2Client id ∧
          session.limits.maxClientsPerConnection ≤ (state.clientsOf id).len ∧
          register session.serde session.limits state ⟨peerMeta⟩ =
            ⟨.error "Client connection limit exceeded",
              { state with clients := state.clients.orInsert id ∅ }, [], none⟩) := by
  by_cases hfull : session.limits.maxSocketsPerSession ≤ countLiveSockets state
  · left
    refine ⟨hfull, ?_⟩
    rw [register, if_pos hfull]
  · right
    have hlt := not_le.mp hfull
    have hroom := (register_error_iff session.serde session.limits state peerMeta).mp h
    rw [HasRoom, not_and] at hroom
    have hclients := hroom hlt
    simp only [not_forall, not_lt] at hclients
    obtain ⟨id, hk, hlen⟩ := hclients
    refine ⟨hlt, id, hk, hlen, ?_⟩
    simp only [SessionState.clientsOf] at hlen
    simp only [register, hfull, if_false, hk, hlen, if_true]

theorem leavesNoTrace_iff {state : SessionState} {peerMeta : PeerMeta}
    (h : Refused session state peerMeta) :
    LeavesNoTrace session state peerMeta ↔ Untraced session.limits state peerMeta := by
  rcases register_of_refused h with ⟨hfull, hr⟩ | ⟨hlt, id, hk, hlen, hr⟩
  · constructor
    · intro _
      exact .inr (.inl hfull)
    · intro _
      constructor <;> rw [hr]
  · have hself : ({ state with clients := state.clients.orInsert id ∅ } : SessionState) = state ↔
        state.clients.containsKey id = true := by
      rw [← Table.orInsert_eq_self_iff (v := (∅ : Table PeerId PeerHandle))]
      constructor
      · intro hs
        exact congrArg SessionState.clients hs
      · intro hs
        rw [hs]
    constructor
    · intro hnone
      have hs := hnone.state_eq
      rw [hr] at hs
      right
      right
      intro other ho
      rw [hk, PeerKind.v2Client.injEq] at ho
      exact ho ▸ hself.mp hs
    · intro hu
      have hkey : state.clients.containsKey id = true := by
        rcases hu with hpos | hfull | hkey
        · cases hc : state.clients.get id with
          | none =>
            rw [SessionState.clientsOf, hc, Option.getD_none, Table.len_empty] at hlen
            omega
          | some clients => rw [Table.containsKey, hc, Option.isSome_some]
        · omega
        · exact hkey id hk
      constructor
      · rw [hr]
        exact hself.mpr hkey
      · rw [hr]
      · rw [hr]

/-- An attempt of a peer that the session refuses without a trace. -/
def UntracedAttempt (session : RelaySession) (move : Move World WorldEvent) : Prop :=
  ∃ peerMeta pace, move.event = .session (.register peerMeta) pace ∧
    Refused session move.before.state peerMeta ∧
    Untraced session.limits move.before.state peerMeta

theorem step_of_untracedAttempt {world world' : World} {event : WorldEvent}
    (hs : world.step session event = some world')
    (h : UntracedAttempt session ⟨world, event, world'⟩) :
    world'.state = world.state ∧ world'.queue = world.queue := by
  rcases h with ⟨peerMeta, pace, rfl, hrefused, hu⟩
  have hnone := (leavesNoTrace_iff hrefused).mpr hu
  simp only [World.step, Option.map_eq_some_iff] at hs
  rcases hs with ⟨r, hr, rfl⟩
  obtain ⟨-, hstate, hsends, -, -⟩ := Core.step_register hr
  constructor
  · exact hstate.trans hnone.state_eq
  · simp only [hsends, hnone.sends_eq, deliver]

/-- A refused registration leaves no trace, except that a session that admits no clients keeps an
entry for every new connection id; and without traces no number of attempts changes the session. -/
theorem refused_leavesNoTrace_iff (session : RelaySession) (world : World) :
    (∀ peerMeta, Refused session world.state peerMeta →
      (LeavesNoTrace session world.state peerMeta ↔ Untraced session.limits world.state peerMeta)) ∧
    ∀ ms world', Run (World.step session) world ms world' →
      (∀ move ∈ ms, UntracedAttempt session move) →
      world'.state = world.state ∧ world'.queue = world.queue := by
  constructor
  · intro peerMeta h
    exact leavesNoTrace_iff h
  · intro ms world' hrun hall
    apply hrun.guarded (P := fun w => w.state = world.state ∧ w.queue = world.queue) hall
    · exact ⟨rfl, rfl⟩
    · intro _ u e v _ ih hs hattempt
      have hsame := step_of_untracedAttempt hs hattempt
      exact ⟨hsame.1.trans ih.1, hsame.2.trans ih.2⟩

/-- A node session whose connections may have as many clients as given. -/
def clientLimitSession (maxClients : ℕ) : RelaySession :=
  ⟨⟨"node", .v2⟩, ⟨maxClients, 64, 256⟩, .plain⟩

def firstClient : List WorldEvent := [.session (.register (nodeClient 1 "c")) []]

/-- The second client of a connection for one. -/
theorem leavesNoTrace_of_secondClient :
    LeavesNoTrace (clientLimitSession 1)
      (outcome (World.step (clientLimitSession 1)) (World.init (clientLimitSession 1))
        firstClient).state
      (nodeClient 2 "c") := by
  apply ((refused_leavesNoTrace_iff (clientLimitSession 1) _).1 (nodeClient 2 "c") ?_).mpr
  · left
    decide
  · refine ⟨"Client connection limit exceeded", ?_⟩
    decide +kernel

/-- With no clients allowed, which `from_env` accepts, the entry of a refused client stays. -/
theorem not_leavesNoTrace_of_zeroClients :
    ¬ ∀ (env : Env) (config : RelayConfig String) (session : RelaySession)
      (ms : List (Move World WorldEvent)) (world : World) (peerMeta : PeerMeta),
      RelayConfig.fromEnv .ok env = .ok config → session.limits = config.limits →
      Run (World.step session) (World.init session) ms world →
      Refused session world.state peerMeta → LeavesNoTrace session world.state peerMeta := by
  intro h
  have hfits : (clientLimitSession 0).limits.Fits := by
    refine ⟨?_, ?_, ?_⟩ <;> decide
  have hconfig := RelayConfig.fromEnv_limitsEnv rfl hfits
  have hrefused : Refused (clientLimitSession 0) (World.init (clientLimitSession 0)).state
      (nodeClient 1 "c") := by
    refine ⟨"Client connection limit exceeded", ?_⟩
    decide +kernel
  have hnone := h _ _ (clientLimitSession 0) [] _ (nodeClient 1 "c") hconfig rfl Run.nil hrefused
  have hkeys := congrArg (fun state => state.clients.keys) hnone.state_eq
  revert hkeys
  decide +kernel

end NodeAccess.Relay
