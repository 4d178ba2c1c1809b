import NodeAccess.Relay.ControlReset

/-! # Who is reset, and for whom

A nudge task remembers neither the client that spawned it nor the control channel that it
has nudged. The two are still in place at its reset when no control channel registers after
the nudge and the task does not outlive its client.
-/

namespace NodeAccess.Relay

open Foundation

/-- The task of `p` queues its sync nudge to this control channel in this move. -/
def QueuesNudge (session : RelaySession) (move : Move World WorldEvent) (p : PeerId) (c : String)
    (control : PeerHandle) : Prop :=
  Nudges move p c .sync ∧ move.before.state.serverControl = some control ∧
    .text (session.serde.toText (syncJson (collectClientConnectionIds move.before.state))) ∈
      (move.after.queue control.peerMeta.peerId).chan.queued.drop
        (move.before.queue control.peerMeta.peerId).chan.queued.length

/-- The peer was let in by one of the moves and has been registered ever since. -/
def RegisteredSince (ns : List (Move World WorldEvent)) (peerMeta : PeerMeta) : Prop :=
  ∃ ns₁ move ns₂, ns = ns₁ ++ move :: ns₂ ∧ Admits move peerMeta ∧
    ∀ later ∈ ns₂, later.after.phase peerMeta.peerId = .registered peerMeta

/-- The queue of a peer takes the first message that this event sends to it. -/
def TakesFirst (q : PeerQueue) (pace : List Gap) : Prop :=
  let late := q.works (pace.headD ⟨[], []⟩).before
  late.chan.closed = false ∧ late.chan.hasRoom = true

/-- The nudge finds room, no control channel registers between the nudge of a task and its end,
a task whose client is not the last to leave ends with it, and no client joins a connection while
a task of a client that has gone is about it. -/
structure Steady (session : RelaySession) (move : Move World WorldEvent) : Prop where
  nudge : ∀ p pace c control, move.event = .session (.nudge p) pace →
    move.before.task p = some (c, .sync) → move.before.state.serverControl = some control →
    TakesFirst (move.before.queue control.peerMeta.peerId) pace
  replace : ∀ peerMeta pace p c stage, move.event = .session (.register peerMeta) pace →
    countLiveSockets move.before.state < session.limits.maxSocketsPerSession →
    peerMeta.kind = .v2ServerControl → move.before.task p = some (c, stage) →
    stage = .checkClient ∨ stage = .checkData ∨ stage = .sync
  join : ∀ peerMeta pace p c stage, move.event = .session (.register peerMeta) pace →
    countLiveSockets move.before.state < session.limits.maxSocketsPerSession →
    peerMeta.kind = .v2Client c → move.before.task p = some (c, stage) →
    move.before.phase p ≠ .gone
  leave : ∀ peerMeta pace c stage, move.event = .session (.unregister peerMeta) pace →
    peerMeta.kind = .v2Client c → move.before.task peerMeta.peerId = some (c, stage) →
    (move.before.state.connection c).endsWith peerMeta.peerId = true ∧
      stage ≠ .recheckData ∧ stage ≠ .reset

variable {session : RelaySession} {world world' : World}

/-- A registered peer has been registered since a move of the run. -/
theorem run_registeredSince {ms : List (Move World WorldEvent)}
    (hrun : Run (World.step session) (World.init session) ms world) :
    ∀ p peerMeta, world.phase p = .registered peerMeta →
      peerMeta.peerId = p ∧ RegisteredSince ms peerMeta := by
  apply hrun.history_invariant (P := fun ns w => ∀ p peerMeta, w.phase p = .registered peerMeta →
    peerMeta.peerId = p ∧ RegisteredSince ns peerMeta)
  · intro p peerMeta hp
    cases hp
  · intro ns before event after hr ih hs p peerMeta hp
    have hkept : before.phase p = .registered peerMeta →
        peerMeta.peerId = p ∧ RegisteredSince (ns ++ [⟨before, event, after⟩]) peerMeta := by
      intro hold
      obtain ⟨rfl, ns₁, move, ns₂, rfl, hadmit, hsince⟩ := ih p peerMeta hold
      refine ⟨rfl, ns₁, move, ns₂ ++ [⟨before, event, after⟩], by simp, hadmit, ?_⟩
      intro later hm
      rcases List.mem_append.mp hm with hm | hm
      · exact hsince later hm
      · obtain rfl := List.mem_singleton.mp hm
        exact hp
    cases event with
    | queue q work =>
      apply hkept
      rw [← hp, (World.step_queue hs).2.1]
    | session event pace =>
      obtain ⟨sends, hstep, -⟩ := World.step_session hs
      rcases Core.step_phase hstep p with he | ⟨other, rfl, rfl, -, hr' | hg⟩ | ⟨other, -, -, -, hg⟩
      · exact hkept (he ▸ hp)
      · rw [hp, Phase.registered.injEq] at hr'
        subst hr'
        exact ⟨rfl, ns, _, [], rfl, ⟨⟨pace, rfl⟩, hp⟩, by simp⟩
      · rw [hp] at hg
        cases hg
      · rw [hp] at hg
        cases hg

/-! ## One step -/

section Step

variable {core core' : Core} {event : SessionEvent} {sends : List Send}

theorem Connection.members_step_empty {k : Connection} {op : ConnectionOp} (h : k.members.len = 0)
    (hop : ∀ handle, op ≠ .join handle) : (k.step op).members.len = 0 := by
  cases op with
  | join handle => exact absurd rfl (hop handle)
  | leave p =>
    rw [Connection.step]
    split_ifs
    · rfl
    · cases hc : k.clients with
      | none => simp [Connection.members]
      | some clients =>
        rw [Connection.members, hc, Option.getD_some, Table.len_eq_zero_iff] at h
        simp only [Connection.members, Option.map_some, Option.getD_some]
        rw [Table.len_eq_zero_iff]
        intro q
        rw [Table.get_remove, h q, ite_self]
  | clientFrame frame =>
    rw [Connection.step]
    split_ifs <;> exact h
  | _ => exact h

theorem Core.Sound.control_of_step (h : core.Sound session)
    (hs : core.step session event = some (core', sends)) {control : PeerHandle}
    (hc : core'.state.serverControl = some control) :
    core.state.serverControl = some control ∨ event = .register control.peerMeta ∧
      control.peerMeta.kind = .v2ServerControl ∧
      countLiveSockets core.state < session.limits.maxSocketsPerSession := by
  by_cases hold : core.state.serverControl = some control
  · exact .inl hold
  · right
    have hevent := (Core.slot_of_step hs .v2ServerControl hc).resolve_left hold
    refine ⟨hevent, ((h.step hs).serverControl control hc).2, ?_⟩
    subst hevent
    have hslots := (register_slots session.serde session.limits core.state control.peerMeta).2.2
    rw [← (Core.step_register hs).2.1] at hslots
    rcases hslots with he | ⟨⟨hok, -⟩, -⟩
    · exact absurd (he ▸ hc) hold
    · exact not_le.mp ((register_isOk _ _ _ _).mp hok).1

theorem PeerQueue.works_queued (q : PeerQueue) (works : List QueueWork) :
    q.chan.queued <+: (q.works works).chan.queued := by
  apply PeerQueue.works_induction (P := fun r => q.chan.queued <+: r.chan.queued) _ List.prefix_rfl
  intro r work hr
  cases work with
  | recv => simpa [PeerQueue.work, PeerQueue.recv] using hr
  | ownClose code reason => exact hr.trans (Channel.queued_prefix_trySend _ _)
  | stop => exact hr

theorem TakesFirst.mem_queued {q : PeerQueue} {pace : List Gap} (h : TakesFirst q pace)
    (handle : PeerHandle) (message : OutboundMessage) :
    message ∈ ((Send.sendOrClose handle message).apply (pace.headD ⟨[], []⟩) q).chan.queued.drop
      q.chan.queued.length := by
  simp only [Send.apply]
  generalize hw : q.works (pace.headD ⟨[], []⟩).before = w
  have hroom : w.chan.closed = false ∧ w.chan.hasRoom = true := by
    rw [← hw]
    exact h
  have hbegins : q.chan.queued <+: w.chan.queued := by
    rw [← hw]
    exact q.works_queued _
  obtain ⟨rest, hrest⟩ := hbegins
  have hsent : w.chan.trySend message =
      ({ w.chan with waiting := w.chan.waiting ++ [message], queued := w.chan.queued ++ [message] },
        .sent) := by
    simp [Channel.trySend, hroom.1, hroom.2]
  have howed : (w.tryMessage message).owed = false := by
    simp [PeerQueue.tryMessage, hsent]
  rw [howed, if_neg Bool.false_ne_true]
  simp [PeerQueue.tryMessage, hsent, ← hrest]

end Step

/-! ## Along a run -/

variable {event : WorldEvent}

/-- Each task belongs to a client that is registered, or it will end at its next check; and past
its nudge, the stored control channel is the one that it has nudged. -/
structure Accounted (session : RelaySession) (ns : List (Move World WorldEvent)) (world : World) :
    Prop where
  client : ∀ p c stage, world.task p = some (c, stage) →
    (∃ peerMeta, world.phase p = .registered peerMeta ∧ peerMeta.kind = .v2Client c) ∨
      world.phase p = .gone ∧ (world.state.connection c).members.len = 0 ∧
        stage ≠ .recheckData ∧ stage ≠ .reset
  control : ∀ p c stage, world.task p = some (c, stage) →
    stage = .recheckClient ∨ stage = .recheckData ∨ stage = .reset →
    ∀ control, world.state.serverControl = some control →
      ∃ move ∈ ns, QueuesNudge session move p c control

theorem Accounted.client_kept {ns : List (Move World WorldEvent)} (h : Accounted session ns world)
    (hs : world.step session event = some world') (hsteady : Steady session ⟨world, event, world'⟩)
    {p : PeerId} {c : String} {stage : NudgeStage} (ht : world.task p = some (c, stage)) :
    (∃ peerMeta, world'.phase p = .registered peerMeta ∧ peerMeta.kind = .v2Client c) ∨
      world'.phase p = .gone ∧ (world'.state.connection c).members.len = 0 ∧
        stage ≠ .recheckData ∧ stage ≠ .reset := by
  cases event with
  | queue q work =>
    rw [(World.step_queue hs).2.1]
    exact h.client p c stage ht
  | session event pace =>
    obtain ⟨sends, hstep, -⟩ := World.step_session hs
    rcases h.client p c stage ht with ⟨peerMeta, hreg, hk⟩ | ⟨hgone, hempty, hstage⟩
    · rcases Core.step_phase hstep p with he | ⟨other, -, -, hfresh, -⟩ |
        ⟨other, rfl, rfl, hother, hgone⟩
      · exact .inl ⟨peerMeta, he ▸ hreg, hk⟩
      · rw [hreg] at hfresh
        cases hfresh
      · rw [hreg, Phase.registered.injEq] at hother
        subst hother
        obtain ⟨hends, hstage⟩ := hsteady.leave peerMeta pace c stage rfl hk ht
        refine .inr ⟨hgone, ?_, hstage⟩
        rw [Core.step_connection hstep c]
        simp [SessionEvent.connectionOp, hk, SessionState.applied, Connection.step, hends,
          Connection.members]
    · refine .inr ⟨?_, ?_, hstage⟩
      · rcases Core.step_phase hstep p with he | ⟨other, -, -, hfresh, -⟩ | ⟨other, -, -, hreg, -⟩
        · exact he.trans hgone
        · rw [hgone] at hfresh
          cases hfresh
        · rw [hgone] at hreg
          cases hreg
      · rcases Core.connection_of_step hstep c with ⟨-, he⟩ | ⟨op, hop, he⟩
        · rw [he]
          exact hempty
        · rw [he]
          apply Connection.members_step_empty hempty
          rintro handle rfl
          obtain ⟨rfl, hk⟩ := SessionEvent.origin_of_connectionOp hop
          exact hsteady.join _ pace p c stage rfl (SessionEvent.room_of_connectionOp hop) hk ht
            hgone

theorem Accounted.step {ns : List (Move World WorldEvent)} (hsound : world.Sound session)
    (h : Accounted session ns world) (hs : world.step session event = some world')
    (hsteady : Steady session ⟨world, event, world'⟩) :
    Accounted session (ns ++ [⟨world, event, world'⟩]) world' := by
  have holder : ∀ {p c control}, (∃ move ∈ ns, QueuesNudge session move p c control) →
      ∃ move ∈ ns ++ [⟨world, event, world'⟩], QueuesNudge session move p c control := by
    rintro p c control ⟨move, hm, hq⟩
    exact ⟨move, List.mem_append_left _ hm, hq⟩
  cases event with
  | queue q work =>
    have hcore := (World.step_queue hs).2.1
    constructor
    · intro p c stage ht
      rw [hcore] at ht
      exact h.client_kept hs hsteady ht
    · intro p c stage ht hstage control hc
      rw [hcore] at ht hc
      exact holder (h.control p c stage ht hstage control hc)
  | session event pace =>
    obtain ⟨sends, hstep, hqueue⟩ := World.step_session hs
    constructor
    · intro p c stage ht
      rcases Core.step_task hstep ht with ⟨ht, -⟩ | ⟨peerMeta, -, -, hk, hreg, -⟩ |
        ⟨earlier, -, ht, hst, hn⟩
      · exact h.client_kept hs hsteady ht
      · exact .inl ⟨peerMeta, hreg, hk⟩
      · rcases h.client_kept hs hsteady ht with hreg | ⟨hgone, hempty, hnot⟩
        · exact .inl hreg
        · have hnone : hasClientSocket world.state c = false := by
            rw [← Bool.not_eq_true, hasClientSocket_iff, ← hst, hempty]
            exact lt_irrefl 0
          refine .inr ⟨hgone, hempty, ?_, ?_⟩
          all_goals
            rintro rfl
            cases earlier with
            | recheckData => exact absurd rfl hnot.1
            | reset => exact absurd rfl hnot.2
            | checkData =>
              simp only [nudgeOrResetControl] at hn
              split_ifs at hn
              cases hn
            | sync => cases hn
            | _ => simp [nudgeOrResetControl, hnone] at hn
    · intro p c stage ht hstage control hc
      have hslot := hsound.control_of_step hstep hc
      rcases Core.step_task hstep ht with ⟨ht, -⟩ | ⟨peerMeta, -, -, -, -, rfl⟩ |
        ⟨earlier, rfl, ht, hst, hn⟩
      · rcases hslot with hold | ⟨rfl, hk, hroom⟩
        · exact holder (h.control p c stage ht hstage control hold)
        · have hearly := hsteady.replace _ pace p c stage rfl hroom hk ht
          rcases hearly with rfl | rfl | rfl <;> simp at hstage
      · simp at hstage
      · rw [hst] at hc
        by_cases hsync : earlier = .sync
        · subst hsync
          have hnudge := hsteady.nudge p pace c control rfl ht hc
          refine ⟨_, List.mem_append_right _ (List.mem_singleton_self _), ⟨⟨pace, rfl⟩, ht⟩, hc, ?_⟩
          obtain ⟨id, other, hother, -, rfl⟩ := Core.step_nudge hstep
          rw [ht, Option.some.injEq, Prod.mk.injEq] at hother
          obtain ⟨rfl, rfl⟩ := hother
          rw [hqueue, nudgeOrResetControl, notifyControlLocked_eq, hc]
          simp only [Option.toList_some, List.map_cons, List.map_nil, deliver, Send.target,
            Function.update_self]
          exact hnudge.mem_queued control _
        · have hlate : earlier = .recheckClient ∨ earlier = .recheckData := by
            cases earlier with
            | recheckClient => exact .inl rfl
            | recheckData => exact .inr rfl
            | sync => exact absurd rfl hsync
            | reset => cases hn
            | _ =>
              simp only [nudgeOrResetControl] at hn
              split_ifs at hn
              cases hn
              simp at hstage
          apply holder
          rcases hlate with rfl | rfl
          · exact h.control p c _ ht (.inl rfl) control hc
          · exact h.control p c _ ht (.inr (.inl rfl)) control hc

/-- In a run whose moves are all steady, a control channel is reset by a task that has queued its
nudge to this very channel, and whose client has been registered since it spawned the task. -/
theorem resets_nudged {ms : List (Move World WorldEvent)}
    (hrun : Run (World.step session) (World.init session) ms world)
    (hsteady : ∀ move ∈ ms, Steady session move) :
    ∀ ns₁ move ns₂, ms = ns₁ ++ move :: ns₂ → ∀ p c control, Resets session move p c control →
      (∃ earlier ∈ ns₁, QueuesNudge session earlier p c control) ∧
        ∃ peerMeta, peerMeta.peerId = p ∧ peerMeta.kind = .v2Client c ∧
          RegisteredSince ns₁ peerMeta := by
  rintro ns₁ move ns₂ rfl p c control hreset
  obtain ⟨⟨-, ht⟩, hc⟩ := resets_iff.mp hreset
  have hr := hrun.of_split.1
  have haccounted : Accounted session ns₁ move.before := by
    apply hr.guarded_history (C := fun _ n => Steady session n) (P := Accounted session)
    · rintro ns n ns' rfl
      exact hsteady n (by simp)
    · constructor
      · intro q d stage hq
        cases hq
      · intro q d stage hq
        cases hq
    · exact fun _ _ _ _ hr h hs hn => h.step (World.run_sound hr) hs hn
  refine ⟨haccounted.control p c _ ht (.inr (.inr rfl)) control hc, ?_⟩
  rcases haccounted.client p c _ ht with ⟨peerMeta, hreg, hk⟩ | ⟨-, -, -, hnot⟩
  · have hsince := run_registeredSince hr p peerMeta hreg
    exact ⟨peerMeta, hsince.1, hk, hsince.2⟩
  · exact absurd rfl hnot

theorem steady_of_nudge {before after : World} {p : PeerId} {pace : List Gap}
    (h : ∀ c control, before.task p = some (c, .sync) → before.state.serverControl = some control →
      TakesFirst (before.queue control.peerMeta.peerId) pace) :
    Steady session ⟨before, .session (.nudge p) pace, after⟩ := by
  constructor
  · rintro q late c control he ht hc
    cases he
    exact h c control ht hc
  · rintro peerMeta late q c stage he
    cases he
  · rintro peerMeta late q c stage he
    cases he
  · rintro peerMeta late c stage he
    cases he

theorem steady_waitingClient : ∀ move ∈ history (World.step nodeSession) (World.init nodeSession)
    (waitingClient ++ [.session (.nudge ⟨2⟩) []]), Steady nodeSession move := by
  have hregister : ∀ before after peerMeta, (∀ p, before.task p = none) →
      Steady nodeSession ⟨before, .session (.register peerMeta) [], after⟩ := by
    intro before after peerMeta hnone
    constructor
    · rintro p pace c control he
      cases he
    · rintro other pace p c stage - - - ht
      rw [hnone] at ht
      cases ht
    · rintro other pace p c stage - - - ht
      rw [hnone] at ht
      cases ht
    · rintro other pace c stage he
      cases he
  intro move hm
  rcases List.mem_cons.mp hm with rfl | hm
  · exact hregister _ _ _ fun _ => rfl
  rcases List.mem_cons.mp hm with rfl | hm
  · apply hregister
    intro p
    by_cases hp : p = ⟨1⟩
    · subst hp
      rfl
    · exact Function.update_of_ne hp _ _
  rcases List.mem_cons.mp hm with rfl | hm
  · exact steady_of_nudge fun c control ht => by cases ht
  rcases List.mem_cons.mp hm with rfl | hm
  · exact steady_of_nudge fun c control ht => by cases ht
  rcases List.mem_cons.mp hm with rfl | hm
  · apply steady_of_nudge
    rintro c control - hc
    cases hc
    exact ⟨rfl, rfl⟩
  rcases List.mem_cons.mp hm with rfl | hm
  · exact steady_of_nudge fun c control ht => by cases ht
  rcases List.mem_cons.mp hm with rfl | hm
  · exact steady_of_nudge fun c control ht => by cases ht
  obtain rfl := List.mem_singleton.mp hm
  exact steady_of_nudge fun c control ht => by cases ht

theorem resets_nudged_of_waitingClient :
    (∃ earlier ∈ history (World.step nodeSession) (World.init nodeSession) waitingClient,
      QueuesNudge nodeSession earlier ⟨2⟩ "c" ⟨nodeControl 1⟩) ∧
    ∃ peerMeta, peerMeta.peerId = ⟨2⟩ ∧ peerMeta.kind = .v2Client "c" ∧
      RegisteredSince (history (World.step nodeSession) (World.init nodeSession) waitingClient)
        peerMeta :=
  have hrun : Run (World.step nodeSession) (World.init nodeSession)
      (history (World.step nodeSession) (World.init nodeSession)
        (waitingClient ++ [.session (.nudge ⟨2⟩) []])) _ := Run.of_outcome rfl
  resets_nudged hrun steady_waitingClient _ _ [] rfl ⟨2⟩ "c" ⟨nodeControl 1⟩
    (resets_iff.mpr ⟨⟨⟨[], rfl⟩, rfl⟩, rfl⟩)

/-- The control channel that the task has nudged is replaced, and the new one is closed. -/
theorem resets_unnudged_of_replacedControl : ∃ ms world,
    Run (World.step nodeSession) (World.init nodeSession) ms world ∧
      ¬ ∀ ns₁ move ns₂, ms = ns₁ ++ move :: ns₂ →
        ∀ p c control, Resets nodeSession move p c control →
        (∃ earlier ∈ ns₁, QueuesNudge nodeSession earlier p c control) ∧
          ∃ peerMeta, peerMeta.peerId = p ∧ peerMeta.kind = .v2Client c ∧
            RegisteredSince ns₁ peerMeta := by
  have hrun : Run (World.step nodeSession) (World.init nodeSession) _ _ := Run.of_play_split
    (waitingClient.take 5 ++ [.session (.register (nodeControl 4)) [], .session (.nudge ⟨2⟩) [],
      .session (.nudge ⟨2⟩) []]) (.session (.nudge ⟨2⟩) []) [] rfl
  refine ⟨_, _, hrun, ?_⟩
  intro h
  obtain ⟨⟨earlier, hm, ⟨-, ht⟩, hc, -⟩, -⟩ := h _ _ [] rfl ⟨2⟩ "c" ⟨nodeControl 4⟩
    (resets_iff.mpr ⟨⟨⟨[], rfl⟩, rfl⟩, rfl⟩)
  have hnever : ∀ move ∈ history (World.step nodeSession) (World.init nodeSession)
      (waitingClient.take 5 ++ [.session (.register (nodeControl 4)) [], .session (.nudge ⟨2⟩) [],
        .session (.nudge ⟨2⟩) []]),
      move.before.task ⟨2⟩ = some ("c", .sync) →
        move.before.state.serverControl ≠ some ⟨nodeControl 4⟩ := by
    decide +kernel
  exact hnever earlier hm ht hc

end NodeAccess.Relay
