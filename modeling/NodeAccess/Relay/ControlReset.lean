import NodeAccess.Relay.LiveSockets
import NodeAccess.Relay.Noninterference

/-! # The reset of the control channel

A nudge task takes the session's lock once for each of its checks and once more for the
reset, and it remembers a connection id only. What it has checked is still so at the reset
when no peer that the checks are about comes or goes in between.
-/

namespace NodeAccess.Relay

open Foundation

/-- The nudge task of the client `p` takes the lock in this move, at this stage. -/
def Nudges (move : Move World WorldEvent) (p : PeerId) (c : String) (stage : NudgeStage) : Prop :=
  (∃ pace, move.event = .session (.nudge p) pace) ∧ move.before.task p = some (c, stage)

/-- The task of `p`, which is about the connection `c`, closes this control channel in this move. -/
def Resets (session : RelaySession) (move : Move World WorldEvent) (p : PeerId) (c : String)
    (control : PeerHandle) : Prop :=
  ∃ stage, Nudges move p c stage ∧ Send.closeHandle control 1011 "Control unresponsive" ∈
    (nudgeOrResetControl session.serde move.before.state c stage).2

/-- Nobody comes or goes under a task that has made its last checks: no server-data socket of
the connection registers while the task is about to reset the control channel, and the last
client of the connection does not leave after the task has seen one. -/
structure Undisturbed (limits : RelayLimitsConfig) (move : Move World WorldEvent) : Prop where
  attach : ∀ peerMeta pace c p, move.event = .session (.register peerMeta) pace →
    countLiveSockets move.before.state < limits.maxSocketsPerSession →
    peerMeta.kind = .v2ServerData c → move.before.task p ≠ some (c, .reset)
  leave : ∀ peerMeta pace c p, move.event = .session (.unregister peerMeta) pace →
    peerMeta.kind = .v2Client c → (move.before.state.connection c).endsWith peerMeta.peerId = true →
    move.before.task p ≠ some (c, .recheckData) ∧ move.before.task p ≠ some (c, .reset)

variable {session : RelaySession}

theorem resets_iff {move : Move World WorldEvent} {p : PeerId} {c : String} {control : PeerHandle} :
    Resets session move p c control ↔
      Nudges move p c .reset ∧ move.before.state.serverControl = some control := by
  constructor
  · rintro ⟨stage, hnudge, hsend⟩
    cases stage with
    | reset =>
      obtain ⟨other, ho, he⟩ := List.mem_map.mp hsend
      obtain rfl := (Send.closeHandle.inj he).1
      exact ⟨hnudge, Option.mem_toList.mp ho⟩
    | sync =>
      rw [nudgeOrResetControl, notifyControlLocked_eq, List.mem_map] at hsend
      obtain ⟨other, -, he⟩ := hsend
      cases he
    | _ => cases hsend
  · rintro ⟨hnudge, hcontrol⟩
    refine ⟨.reset, hnudge, ?_⟩
    simp [nudgeOrResetControl, hcontrol]

/-! ## Tasks and connections in one step -/

section Step

variable {core core' : Core} {event : SessionEvent} {sends : List Send}

theorem register_isOk_of_nudge {serde : SerdeJson} {limits : RelayLimitsConfig}
    {state : SessionState} {peerMeta : PeerMeta} {c : String}
    (h : (register serde limits state ⟨peerMeta⟩).nudge = some c) :
    (register serde limits state ⟨peerMeta⟩).result.isOk = true := by
  rw [register_isOk]
  have hroom : ¬ limits.maxSocketsPerSession ≤ countLiveSockets state := by
    intro hfull
    rw [register, if_pos hfull] at h
    cases h
  refine ⟨hroom, ?_⟩
  intro id hk hlen
  rw [register_nudge_of_room hroom, hk] at h
  simp only [hlen, if_true] at h
  cases h

theorem Core.step_task (hs : core.step session event = some (core', sends)) {p : PeerId}
    {c : String} {stage : NudgeStage} (ht : core'.task p = some (c, stage)) :
    core.task p = some (c, stage) ∧ event ≠ .nudge p ∨
      (∃ peerMeta, event = .register peerMeta ∧ p = peerMeta.peerId ∧ peerMeta.kind = .v2Client c ∧
        core'.phase p = .registered peerMeta ∧ stage = .checkClient) ∨
      ∃ earlier, event = .nudge p ∧ core.task p = some (c, earlier) ∧ core'.state = core.state ∧
        (nudgeOrResetControl session.serde core.state c earlier).1 = some stage := by
  cases event with
  | register peerMeta =>
    obtain ⟨-, -, -, hphase, htask⟩ := Core.step_register hs
    rw [htask] at ht
    by_cases hp : p = peerMeta.peerId
    · subst hp
      rw [Function.update_self] at ht
      obtain ⟨id, hn, he⟩ := Option.map_eq_some_iff.mp ht
      obtain ⟨rfl, rfl⟩ := Prod.mk.inj he
      refine .inr (.inl ⟨peerMeta, rfl, rfl, register_nudge_kind hn, ?_, rfl⟩)
      rw [hphase, Function.update_self, if_pos (register_isOk_of_nudge hn)]
    · rw [Function.update_of_ne hp] at ht
      exact .inl ⟨ht, by simp⟩
  | frame peerMeta frame nowMs =>
    obtain ⟨-, rfl, -⟩ := Core.step_frame hs
    exact .inl ⟨ht, by simp⟩
  | ping peerMeta payload =>
    obtain ⟨-, rfl, -⟩ := Core.step_ping hs
    exact .inl ⟨ht, by simp⟩
  | unregister peerMeta =>
    obtain ⟨-, rfl, -⟩ := Core.step_unregister hs
    exact .inl ⟨ht, by simp⟩
  | nudge q =>
    obtain ⟨id, earlier, hearlier, rfl, -⟩ := Core.step_nudge hs
    dsimp only at ht
    by_cases hp : p = q
    · subst hp
      rw [Function.update_self] at ht
      obtain ⟨next, hnext, he⟩ := Option.map_eq_some_iff.mp ht
      obtain ⟨rfl, rfl⟩ := Prod.mk.inj he
      exact .inr (.inr ⟨earlier, rfl, hearlier, rfl, hnext⟩)
    · rw [Function.update_of_ne hp] at ht
      exact .inl ⟨ht, by simpa using Ne.symm hp⟩

theorem hasClientSocket_iff {state : SessionState} {c : String} :
    hasClientSocket state c = true ↔ 0 < (state.connection c).members.len := by
  simp only [hasClientSocket, SessionState.connection, Connection.members]
  cases h : state.clients.get c with
  | none => simp
  | some clients => simp [Nat.pos_iff_ne_zero]

theorem hasServerDataSocket_iff {state : SessionState} {c : String} :
    hasServerDataSocket state c = false ↔ (state.connection c).server = none := by
  simp [hasServerDataSocket, SessionState.connection, Table.containsKey]

theorem Connection.members_step {k : Connection} {op : ConnectionOp} (h : 0 < k.members.len)
    (hop : ∀ p, op = .leave p → k.endsWith p = false) : 0 < (k.step op).members.len := by
  cases op with
  | join handle =>
    rw [Nat.pos_iff_ne_zero, Ne, Table.len_eq_zero_iff]
    intro hempty
    have hget := hempty handle.peerMeta.peerId
    simp [Connection.step, Connection.members] at hget
  | leave p =>
    have hstays := hop p rfl
    cases hc : k.clients with
    | none => simp [Connection.members, hc] at h
    | some clients =>
      rw [Connection.endsWith, hc] at hstays
      simp only [Connection.step, Connection.members, Connection.endsWith, hc]
      simp only [Option.any_some, decide_eq_false_iff_not] at hstays
      simp [hstays, Nat.pos_iff_ne_zero]
  | clientFrame frame =>
    rw [Connection.step]
    split_ifs <;> exact h
  | _ => exact h

theorem Connection.server_step {k : Connection} {op : ConnectionOp} (h : k.server = none)
    (hop : ∀ handle, op ≠ .attach handle) : (k.step op).server = none := by
  cases op with
  | attach handle => exact absurd rfl (hop handle)
  | leave p =>
    rw [Connection.step]
    split_ifs
    · rfl
    · exact h
  | clientFrame frame =>
    rw [Connection.step]
    split_ifs <;> exact h
  | detach p => simp [Connection.step, h]
  | _ => exact h

theorem SessionEvent.room_of_connectionOp {limits : RelayLimitsConfig} {state : SessionState}
    {peerMeta : PeerMeta} {touched : String × ConnectionOp}
    (h : (SessionEvent.register peerMeta).connectionOp limits state = some touched) :
    countLiveSockets state < limits.maxSocketsPerSession := by
  simp only [SessionEvent.connectionOp] at h
  split_ifs at h with hfull
  exact not_le.mp hfull

end Step

/-! ## Along a run -/

variable {world world' : World} {event : WorldEvent}

/-- What a task has seen of its connection in its last checks still holds. -/
structure Core.Checked (core : Core) : Prop where
  client : ∀ p c stage, core.task p = some (c, stage) → stage = .recheckData ∨ stage = .reset →
    hasClientSocket core.state c = true
  data : ∀ p c, core.task p = some (c, .reset) → hasServerDataSocket core.state c = false

theorem hasClientSocket_step (hs : world.step session event = some world')
    (hquiet : Undisturbed session.limits ⟨world, event, world'⟩) {p : PeerId} {c : String}
    {stage : NudgeStage} (ht : world.task p = some (c, stage))
    (hstage : stage = .recheckData ∨ stage = .reset) (h : hasClientSocket world.state c = true) :
    hasClientSocket world'.state c = true := by
  cases event with
  | queue q work =>
    rwa [(World.step_queue hs).2.1]
  | session event pace =>
    obtain ⟨sends, hstep, -⟩ := World.step_session hs
    rw [hasClientSocket_iff] at h ⊢
    rcases Core.connection_of_step hstep c with ⟨-, he⟩ | ⟨op, hop, he⟩
    · rw [he]
      exact h
    · rw [he]
      apply Connection.members_step h
      rintro q rfl
      obtain ⟨peerMeta, rfl, hk, rfl⟩ := SessionEvent.origin_of_connectionOp hop
      cases hends : (world.state.connection c).endsWith peerMeta.peerId with
      | false => rfl
      | true =>
        have hgone := hquiet.leave peerMeta pace c p rfl hk hends
        rcases hstage with rfl | rfl
        · exact absurd ht hgone.1
        · exact absurd ht hgone.2

theorem hasServerDataSocket_step (hs : world.step session event = some world')
    (hquiet : Undisturbed session.limits ⟨world, event, world'⟩) {p : PeerId} {c : String}
    (ht : world.task p = some (c, .reset)) (h : hasServerDataSocket world.state c = false) :
    hasServerDataSocket world'.state c = false := by
  cases event with
  | queue q work =>
    rwa [(World.step_queue hs).2.1]
  | session event pace =>
    obtain ⟨sends, hstep, -⟩ := World.step_session hs
    rw [hasServerDataSocket_iff] at h ⊢
    rcases Core.connection_of_step hstep c with ⟨-, he⟩ | ⟨op, hop, he⟩
    · rw [he]
      exact h
    · rw [he]
      apply Connection.server_step h
      rintro handle rfl
      obtain ⟨rfl, hk⟩ := SessionEvent.origin_of_connectionOp hop
      exact hquiet.attach handle.peerMeta pace c p rfl (SessionEvent.room_of_connectionOp hop) hk ht

theorem Core.Checked.step (h : world.Checked) (hs : world.step session event = some world')
    (hquiet : Undisturbed session.limits ⟨world, event, world'⟩) : world'.Checked := by
  have hcases : ∀ p c stage, world'.task p = some (c, stage) →
      world.task p = some (c, stage) ∨ stage = .checkClient ∨
        ∃ earlier, world.task p = some (c, earlier) ∧ world'.state = world.state ∧
          (nudgeOrResetControl session.serde world.state c earlier).1 = some stage := by
    intro p c stage ht
    cases event with
    | queue q work =>
      rw [(World.step_queue hs).2.1] at ht
      exact .inl ht
    | session event pace =>
      obtain ⟨sends, hstep, -⟩ := World.step_session hs
      rcases Core.step_task hstep ht with ⟨ht, -⟩ | ⟨peerMeta, -, -, -, -, rfl⟩ |
        ⟨earlier, -, ht, hst, hn⟩
      · exact .inl ht
      · exact .inr (.inl rfl)
      · exact .inr (.inr ⟨earlier, ht, hst, hn⟩)
  constructor
  · intro p c stage ht hstage
    rcases hcases p c stage ht with ht | rfl | ⟨earlier, ht, hst, hn⟩
    · exact hasClientSocket_step hs hquiet ht hstage (h.client p c stage ht hstage)
    · simp at hstage
    · rw [hst]
      -- A task that comes to one of these stages has just seen a client, or had before.
      cases earlier with
      | recheckClient =>
        by_contra hnone
        simp [nudgeOrResetControl, hnone] at hn
      | recheckData => exact h.client p c _ ht (.inl rfl)
      | reset => cases hn
      | checkClient =>
        simp only [nudgeOrResetControl] at hn
        split_ifs at hn
        cases hn
        simp at hstage
      | checkData =>
        simp only [nudgeOrResetControl] at hn
        split_ifs at hn
        cases hn
        simp at hstage
      | sync =>
        cases hn
        simp at hstage
  · intro p c ht
    rcases hcases p c _ ht with ht | hfirst | ⟨earlier, ht, hst, hn⟩
    · exact hasServerDataSocket_step hs hquiet ht (h.data p c ht)
    · cases hfirst
    · rw [hst]
      cases earlier with
      | recheckData =>
        by_contra hdata
        simp [nudgeOrResetControl, hdata] at hn
      | sync => cases hn
      | reset => cases hn
      | _ =>
        simp only [nudgeOrResetControl] at hn
        split_ifs at hn
        cases hn

/-- As long as nobody comes or goes under a task that has made its last checks, each reset of
the control channel finds a connection with a client and without a data socket. -/
theorem resets_justified {ms : List (Move World WorldEvent)}
    (hrun : Run (World.step session) (World.init session) ms world)
    (hquiet : ∀ move ∈ ms, Undisturbed session.limits move) :
    ∀ move ∈ ms, ∀ p c control, Resets session move p c control →
      hasClientSocket move.before.state c = true ∧
        hasServerDataSocket move.before.state c = false := by
  intro move hm p c control hreset
  obtain ⟨⟨-, ht⟩, -⟩ := resets_iff.mp hreset
  obtain ⟨ns, hns, hr, -⟩ := hrun.upto hm
  have hchecked : move.before.Checked := by
    apply hr.guarded (P := fun w => w.Checked) (fun n hn => hquiet n (hns n hn))
    · constructor
      · intro q d stage hq
        cases hq
      · intro q d hq
        cases hq
    · exact fun _ _ _ _ _ h hs hc => h.step hs hc
  exact ⟨hchecked.client p c _ ht (.inr rfl), hchecked.data p c ht⟩

/-- A client that waits for its data socket, and its task up to the reset. -/
def waitingClient : List WorldEvent :=
  [.session (.register (nodeControl 1)) [], .session (.register (nodeClient 2 "c")) [],
    .session (.nudge ⟨2⟩) [], .session (.nudge ⟨2⟩) [], .session (.nudge ⟨2⟩) [],
    .session (.nudge ⟨2⟩) [], .session (.nudge ⟨2⟩) []]

theorem resets_justified_of_waitingClient :
    let world := outcome (World.step nodeSession) (World.init nodeSession) waitingClient
    hasClientSocket world.state "c" = true ∧ hasServerDataSocket world.state "c" = false := by
  have hrun : Run (World.step nodeSession) (World.init nodeSession) _ _ := Run.of_play_split
    waitingClient (.session (.nudge ⟨2⟩) []) [] rfl
  refine resets_justified hrun ?_ _ (List.mem_append_right _ List.mem_cons_self) ⟨2⟩ "c"
    ⟨nodeControl 1⟩
    (resets_iff.mpr ⟨⟨⟨[], rfl⟩, rfl⟩, rfl⟩)
  intro move hm
  have hevent : move.event ∈ waitingClient ++ [.session (.nudge ⟨2⟩) []] := by
    rcases List.mem_append.mp hm with hm | hm
    · exact List.mem_append_left _ (event_mem_of_history hm)
    · rw [List.mem_singleton.mp hm]
      simp
  constructor
  · rintro peerMeta pace c p he - hk
    rw [he] at hevent
    simp only [waitingClient, List.cons_append, List.nil_append, List.mem_cons,
      WorldEvent.session.injEq,
      SessionEvent.register.injEq, reduceCtorEq, false_and, or_false, List.not_mem_nil] at hevent
    rcases hevent with ⟨rfl, -⟩ | ⟨rfl, -⟩ <;> cases hk
  · rintro peerMeta pace c p he
    rw [he] at hevent
    simp [waitingClient] at hevent

/-- The data socket attaches after the last check, and the control channel is closed
all the same. -/
theorem resets_unjustified_of_lateData : ∃ ms world,
    Run (World.step nodeSession) (World.init nodeSession) ms world ∧
      ¬ ∀ move ∈ ms, ∀ p c control, Resets nodeSession move p c control →
        hasClientSocket move.before.state c = true ∧
          hasServerDataSocket move.before.state c = false := by
  have hrun : Run (World.step nodeSession) (World.init nodeSession) _ _ := Run.of_play_split
    (waitingClient ++ [.session (.register (nodeData 3 "c")) []]) (.session (.nudge ⟨2⟩) []) [] rfl
  refine ⟨_, _, hrun, ?_⟩
  intro h
  have hreset := h _ (List.mem_append_right _ List.mem_cons_self) ⟨2⟩ "c" ⟨nodeControl 1⟩
    (resets_iff.mpr ⟨⟨⟨[], rfl⟩, rfl⟩, rfl⟩)
  have hdata : hasServerDataSocket (outcome (World.step nodeSession) (World.init nodeSession)
    (waitingClient ++ [.session (.register (nodeData 3 "c")) []])).state "c" = true := rfl
  rw [hdata] at hreset
  cases hreset.2

end NodeAccess.Relay
