import NodeAccess.Serve.Ownership

/-! # Names that were answered with ok

A task that has answered a Bind with ok has the name for as long as the task is there, by this Bind
or by a later one of its own.
-/

namespace NodeAccess.Serve

open Foundation Mux Relay

namespace ServeNode

variable {node node' : ServeNode}

theorem tasks_step {event : ServeEvent} (hs : node.step event = some node')
    (hbind : ∀ u name auth writerOpen, event ≠ .bind u name auth writerOpen) :
    node.spawned ≤ node'.spawned ∧
      ∀ t task, node'.task t = some task → t = node.spawned ∧ task.acks = [] ∨
        ∃ old, node.task t = some old ∧ old.connectionId = task.connectionId ∧
          old.acks = task.acks := by
  have hmoved : ∀ u (old : DataTask) stage, node.task u = some old →
      ∀ t task, Function.update node.task u (some { old with stage := stage }) t = some task →
        ∃ old, node.task t = some old ∧ old.connectionId = task.connectionId ∧
          old.acks = task.acks := by
    intro u old stage hu t task ht
    rw [Function.update_apply] at ht
    split_ifs at ht with he
    · obtain rfl := Option.some.inj ht
      exact ⟨old, he ▸ hu, rfl, rfl⟩
    · exact ⟨task, ht, rfl, rfl⟩
  cases event with
  | control event =>
    obtain ⟨-, rfl⟩ := step_control hs
    exact ⟨le_rfl, fun t task ht => .inr ⟨task, ht, rfl, rfl⟩⟩
  | start =>
    obtain ⟨c, rest, -, ⟨-, rfl⟩ | ⟨-, rfl⟩⟩ := step_start hs
    · refine ⟨Nat.le_succ _, ?_⟩
      intro t task ht
      dsimp only at ht
      rw [Function.update_apply] at ht
      split_ifs at ht with he
      · obtain rfl := Option.some.inj ht
        exact .inl ⟨he, rfl⟩
      · exact .inr ⟨task, ht, rfl, rfl⟩
    · exact ⟨le_rfl, fun t task ht => .inr ⟨task, ht, rfl, rfl⟩⟩
  | opened u =>
    obtain ⟨old, hu, -, rfl⟩ := advance_eq hs
    exact ⟨le_rfl, fun t task ht => .inr (hmoved u old _ hu t task ht)⟩
  | ended u =>
    obtain ⟨old, hu, -, rfl⟩ := advance_eq hs
    exact ⟨le_rfl, fun t task ht => .inr (hmoved u old _ hu t task ht)⟩
  | cleanup u =>
    obtain ⟨old, hu, -, rfl⟩ := step_cleanup hs
    refine ⟨le_rfl, ?_⟩
    intro t task ht
    dsimp only at ht
    rw [Function.update_apply] at ht
    split_ifs at ht
    exact .inr ⟨task, ht, rfl, rfl⟩
  | bind u name auth writerOpen => exact absurd rfl (hbind u name auth writerOpen)

/-- A task that has answered a Bind with ok has the name. -/
def Registers (node : ServeNode) : Prop :=
  ∀ t task name error, node.task t = some task → .bindAck name true error ∈ task.acks →
    ∃ auth, node.state.providers.get name = some ⟨task.connectionId, t, auth⟩

theorem Registers.keep (h : node.Registers)
    (htask : ∀ t task, node'.task t = some task → task.acks = [] ∨
      ∃ before, node.task t = some before ∧
      before.connectionId = task.connectionId ∧ before.acks = task.acks)
    (hentry : ∀ t task name auth, node'.task t = some task →
      node.state.providers.get name = some ⟨task.connectionId, t, auth⟩ →
      node'.state.providers.get name = some ⟨task.connectionId, t, auth⟩) : node'.Registers := by
  intro t task name error ht hack
  rcases htask t task ht with hnone | ⟨before, hbefore, hid, hacks⟩
  · rw [hnone] at hack
    cases hack
  · obtain ⟨auth, hp⟩ := h t before name error hbefore (hacks ▸ hack)
    exact ⟨auth, hentry t task name auth ht (hid ▸ hp)⟩

theorem registers_step (h : node.Registers) (hc : node.Consistent) {event : ServeEvent}
    (hs : node.step event = some node') : node'.Registers := by
  have hsame : (∀ u name auth writerOpen, event ≠ .bind u name auth writerOpen) →
      node'.state.providers = node.state.providers →
      node'.Registers := by
    intro hbind hproviders
    apply h.keep
    · exact fun t task ht => ((tasks_step hs hbind).2 t task ht).imp_left And.right
    · exact fun _ _ _ _ _ hp => hproviders ▸ hp
  cases event with
  | control event =>
    obtain ⟨-, rfl⟩ := step_control hs
    exact hsame (fun _ _ _ _ he => by cases he) rfl
  | start =>
    obtain ⟨c, rest, -, ⟨-, rfl⟩ | ⟨-, rfl⟩⟩ := step_start hs
    · exact hsame (fun _ _ _ _ he => by cases he) rfl
    · exact hsame (fun _ _ _ _ he => by cases he) rfl
  | opened u =>
    obtain ⟨old, hu, -, rfl⟩ := advance_eq hs
    exact hsame (fun _ _ _ _ he => by cases he) rfl
  | ended u =>
    obtain ⟨old, hu, -, rfl⟩ := advance_eq hs
    exact hsame (fun _ _ _ _ he => by cases he) rfl
  | cleanup u =>
    apply h.keep
    · have htasks := tasks_step hs fun _ _ _ _ he => by cases he
      exact fun t task ht => (htasks.2 t task ht).imp_left And.right
    · obtain ⟨old, hu, -, rfl⟩ := step_cleanup hs
      intro t task name auth ht hp
      dsimp only at ht ⊢
      rw [Function.update_apply] at ht
      split_ifs at ht with he
      have hid : task.connectionId ≠ old.connectionId := fun hid => he (hc.unique t u _ _ ht hu hid)
      rw [ServeState.cleanup_providers, hp, Option.filter_some, if_pos (by simpa using hid)]
  | bind u bound auth' writerOpen =>
    obtain ⟨binder, hu, -, rfl⟩ := step_bind hs
    intro t task name error ht hack
    dsimp only at ht ⊢
    -- an entry stays unless its own task binds the name again
    have hentry : ∀ id auth, (∃ task, node.task t = some task ∧ task.connectionId = id) →
        node.state.providers.get name = some ⟨id, t, auth⟩ →
        ∃ auth, (node.state.handleBind u binder.connectionId bound auth').1.providers.get name =
          some ⟨id, t, auth⟩ := by
      rintro id auth ⟨old, hold, rfl⟩ hp
      rcases node.state.handleBind_cases u binder.connectionId bound auth' with ⟨-, -, -, he⟩ |
        ⟨hfree, he⟩
      · rw [he]
        exact ⟨auth, hp⟩
      · rw [he, Table.get_insert]
        split_ifs with hname
        · subst hname
          have hid : old.connectionId = binder.connectionId := hfree _ hp
          obtain rfl := hc.unique t u _ _ hold hu hid
          exact ⟨auth', by rw [hid]⟩
        · exact ⟨auth, hp⟩
    by_cases htu : t = u
    · subst htu
      rw [Function.update_self, Option.some.injEq] at ht
      subst ht
      rcases List.mem_append.mp hack with hack | hack
      · obtain ⟨auth, hp⟩ := h t binder name error hu hack
        exact hentry _ auth ⟨binder, hu, rfl⟩ hp
      · replace hack := List.mem_ite_nil_right.mp hack
        rcases node.state.handleBind_cases t binder.connectionId bound auth' with ⟨-, -, -, he⟩ |
          ⟨-, he⟩
        · rw [he] at hack
          simp at hack
        · rw [he] at hack ⊢
          obtain ⟨-, rfl, -⟩ :
            writerOpen = true ∧ name = bound ∧ error = none := by simpa using hack
          exact ⟨auth', Table.get_insert_self _ _ _⟩
    · rw [Function.update_of_ne htu] at ht
      obtain ⟨auth, hp⟩ := h t task name error ht hack
      exact hentry _ auth ⟨task, ht, rfl⟩ hp

theorem run_registers {locals : Table String TcpMapping} {ms : List (Move ServeNode ServeEvent)}
    (hrun : Run step (init locals) ms node) : node.Registers := by
  apply hrun.history_invariant (P := fun _ node => node.Registers)
  · intro t task name error ht
    cases ht
  · intro ns u event v hu h hs
    exact registers_step h (run_consistent hu) hs

end ServeNode

end NodeAccess.Serve
