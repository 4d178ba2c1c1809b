import NodeAccess.Serve.Node

/-! # Who owns a provider name

The active connections are those of the tasks, each connection has one task, and an entry of
the providers is held by the task of its connection through the mux that this task made.
-/

namespace NodeAccess.Serve

open Foundation Mux Relay

structure ServeNode.Consistent (node : ServeNode) : Prop where
  fresh : ∀ t, node.spawned ≤ t → node.task t = none
  unique : ∀ t u task other, node.task t = some task → node.task u = some other →
    task.connectionId = other.connectionId → t = u
  active : ∀ c, c ∈ node.state.activeConnections ↔
    ∃ t task, node.task t = some task ∧ task.connectionId = c
  owned : ∀ name provider, node.state.providers.get name = some provider →
    ∃ task, node.task provider.mux = some task ∧ task.connectionId = provider.connectionId ∧
      task.stage ≠ .opening

/-- The name that a Bind over this mux asks for, and whether its answer can be sent. -/
def ServeEvent.bindTo (t : TaskId) : ServeEvent → Option (String × Bool)
  | .bind u name _ writerOpen => if u = t then some (name, writerOpen) else none
  | _ => none

/-- The Binds that a task has handled. -/
def bindsTo (t : TaskId) (ms : List (Move ServeNode ServeEvent)) : List (String × Bool) :=
  ms.filterMap fun move => move.event.bindTo t

/-- The names of the Binds that a task has handled while its mux could send. -/
def sendableTo (t : TaskId) (ms : List (Move ServeNode ServeEvent)) : List String :=
  ((bindsTo t ms).filter Prod.snd).map Prod.fst

/-- The name that a BindAck answers for. -/
def ackedName : ControlMessage → Option String
  | .bindAck name _ _ => some name
  | _ => none

/-- One Bind gives its task one BindAck, which says whether the connection has the name now, or
none when the mux has no `write_loop` any more. It leaves the entries of other connections alone. -/
def BindAnswered (move : Move ServeNode ServeEvent) : Prop :=
  ∀ t name auth writerOpen, move.event = .bind t name auth writerOpen →
    ∃ task, move.before.task t = some task ∧
    (∃ ok error,
      move.after.task t = some { task with
        acks := task.acks ++ if writerOpen then [.bindAck name ok error] else [] } ∧
      (ok = true ↔ ∃ provider, move.after.state.providers.get name = some provider ∧
        provider.connectionId = task.connectionId)) ∧
    ∀ other provider, move.before.state.providers.get other = some provider →
      provider.connectionId ≠ task.connectionId →
      move.after.state.providers.get other = some provider

/-- A cleanup removes the entries of its own connection and no others. -/
def CleanupExact (move : Move ServeNode ServeEvent) : Prop :=
  ∀ t, move.event = .cleanup t → ∃ task, move.before.task t = some task ∧
    ∀ name provider, move.after.state.providers.get name = some provider ↔
      move.before.state.providers.get name = some provider ∧
        provider.connectionId ≠ task.connectionId

namespace ServeNode

variable {node node' : ServeNode} {t : TaskId} {task next : DataTask}

/-! ## The invariant -/

theorem consistent_init (localProviders : Table String TcpMapping) :
    (init localProviders).Consistent where
  fresh := by
    intro t _
    rfl
  unique := by
    intro t u task other h
    cases h
  active := by
    intro c
    simp [init, ServeState.new]
  owned := by
    intro name provider h
    simp [init, ServeState.new] at h

theorem Consistent.update (h : node.Consistent) (ht : node.task t = some task)
    (hid : next.connectionId = task.connectionId)
    (hstage : task.stage ≠ .opening → next.stage ≠ .opening) :
    Consistent { node with task := Function.update node.task t (some next) } := by
  have hback : ∀ u other, Function.update node.task t (some next) u = some other →
      ∃ old, node.task u = some old ∧ old.connectionId = other.connectionId :=
    fun u other hu => exists_of_update_some ht hid hu
  have hforth : ∀ u old, node.task u = some old →
      ∃ other, Function.update node.task t (some next) u = some other ∧
        other.connectionId = old.connectionId ∧
          (old.stage ≠ .opening → other.stage ≠ .opening) := by
    intro u old hu
    by_cases he : u = t
    · rw [he, ht, Option.some.injEq] at hu
      subst hu
      exact ⟨next, by rw [he, Function.update_self], hid, hstage⟩
    · exact ⟨old, by rw [Function.update_of_ne he, hu], rfl, id⟩
  constructor
  · intro u hu
    have hne : u ≠ t := by
      rintro rfl
      rw [h.fresh u hu] at ht
      cases ht
    exact (Function.update_of_ne hne _ _).trans (h.fresh u hu)
  · intro u v one other hu hv he
    obtain ⟨old, hold, hid₁⟩ := hback u one hu
    obtain ⟨old', hold', hid₂⟩ := hback v other hv
    exact h.unique u v old old' hold hold' (by rw [hid₁, hid₂, he])
  · intro c
    rw [h.active c]
    constructor
    · rintro ⟨u, old, hu, rfl⟩
      obtain ⟨other, ho, he, -⟩ := hforth u old hu
      exact ⟨u, other, ho, he⟩
    · rintro ⟨u, other, hu, rfl⟩
      obtain ⟨old, ho, he⟩ := hback u other hu
      exact ⟨u, old, ho, he⟩
  · intro name provider hp
    obtain ⟨old, ho, he, hs⟩ := h.owned name provider hp
    obtain ⟨other, hu, hid', hs'⟩ := hforth _ old ho
    exact ⟨other, hu, hid'.trans he, hs' hs⟩

theorem Consistent.spawn (h : node.Consistent) {c : String} (hc : c ∉ node.state.activeConnections)
    (rest : List String) :
    Consistent ⟨{ node.state with activeConnections := insert c node.state.activeConnections },
      rest, Function.update node.task node.spawned (some ⟨c, .opening, []⟩), node.spawned + 1⟩ := by
  have hnew : node.task node.spawned = none := h.fresh _ le_rfl
  have hold : ∀ u other, node.task u = some other → u ≠ node.spawned := by
    rintro u other hu rfl
    rw [hnew] at hu
    cases hu
  have hother : ∀ u other, node.task u = some other → other.connectionId ≠ c := by
    rintro u other hu rfl
    exact hc ((h.active _).mpr ⟨u, other, hu, rfl⟩)
  constructor
  · intro u hu
    have hle : node.spawned < u := hu
    exact (Function.update_of_ne hle.ne' _ _).trans (h.fresh u hle.le)
  · intro u v one other hu hv he
    dsimp only at hu hv
    rw [Function.update_apply] at hu hv
    split_ifs at hu hv with hun hvn
    · rw [hun, hvn]
    · cases hu
      exact absurd he.symm (hother v other hv)
    · cases hv
      exact absurd he (hother u one hu)
    · exact h.unique u v one other hu hv he
  · intro d
    dsimp only
    rw [Finset.mem_insert, h.active d]
    constructor
    · rintro (rfl | ⟨u, other, hu, rfl⟩)
      · exact ⟨node.spawned, _, Function.update_self .., rfl⟩
      · exact ⟨u, other, (Function.update_of_ne (hold u other hu) _ _).trans hu, rfl⟩
    · rintro ⟨u, other, hu, rfl⟩
      rw [Function.update_apply] at hu
      split_ifs at hu
      · cases hu
        exact .inl rfl
      · exact .inr ⟨u, other, hu, rfl⟩
  · intro name provider hp
    obtain ⟨other, ho, he, hs⟩ := h.owned name provider hp
    exact ⟨other, (Function.update_of_ne (hold _ _ ho) _ _).trans ho, he, hs⟩

theorem Consistent.bind (h : node.Consistent) (ht : node.task t = some task)
    (hs : task.stage ≠ .opening) (name : String) (auth : Option String) :
    Consistent { node with state := (node.state.handleBind t task.connectionId name auth).1 } := by
  rcases node.state.handleBind_cases t task.connectionId name auth with
    ⟨existing, -, -, he⟩ | ⟨-, he⟩
  · rw [he]
    exact h
  · rw [he]
    refine ⟨h.fresh, h.unique, h.active, ?_⟩
    intro other provider hp
    dsimp only at hp
    rw [Table.get_insert] at hp
    split_ifs at hp
    · cases hp
      exact ⟨task, ht, rfl, hs⟩
    · exact h.owned other provider hp

theorem Consistent.cleanup (h : node.Consistent) (ht : node.task t = some task) :
    Consistent { node with
      state := node.state.cleanup task.connectionId
      task := Function.update node.task t none } := by
  have hback : ∀ u other, Function.update node.task t none u = some other →
      u ≠ t ∧ node.task u = some other := by
    intro u other hu
    rw [Function.update_apply] at hu
    split_ifs at hu with he
    exact ⟨he, hu⟩
  constructor
  · intro u hu
    dsimp only
    rw [Function.update_apply, h.fresh u hu, ite_self]
  · intro u v one other hu hv he
    exact h.unique u v one other (hback u one hu).2 (hback v other hv).2 he
  · intro c
    simp only [ServeState.cleanup, Finset.mem_erase, h.active c]
    constructor
    · rintro ⟨hne, u, other, hu, rfl⟩
      refine ⟨u, other, ?_, rfl⟩
      rw [Function.update_of_ne, hu]
      rintro rfl
      rw [ht, Option.some.injEq] at hu
      exact hne (congrArg DataTask.connectionId hu.symm)
    · rintro ⟨u, other, hu, rfl⟩
      obtain ⟨hne, hu⟩ := hback u other hu
      exact ⟨fun he => hne (h.unique u t other task hu ht he), u, other, hu, rfl⟩
  · intro name provider hp
    dsimp only at hp ⊢
    rw [ServeState.cleanup_providers, Option.filter_eq_some_iff, decide_eq_true_eq] at hp
    obtain ⟨other, ho, he, hs⟩ := h.owned name provider hp.1
    refine ⟨other, ?_, he, hs⟩
    rw [Function.update_of_ne, ho]
    intro hmux
    rw [hmux, ht, Option.some.injEq] at ho
    exact hp.2 (by rw [← he, ho])

theorem Consistent.step (h : node.Consistent) {event : ServeEvent}
    (hs : node.step event = some node') : node'.Consistent := by
  cases event with
  | control event =>
    obtain ⟨-, rfl⟩ := step_control hs
    exact ⟨h.fresh, h.unique, h.active, h.owned⟩
  | start =>
    obtain ⟨c, rest, -, ⟨hc, rfl⟩ | ⟨-, rfl⟩⟩ := step_start hs
    · exact h.spawn hc rest
    · exact ⟨h.fresh, h.unique, h.active, h.owned⟩
  | opened u =>
    obtain ⟨task, ht, -, rfl⟩ := advance_eq hs
    exact h.update ht rfl fun _ => by simp
  | bind u name auth writerOpen =>
    obtain ⟨task, ht, hrunning, rfl⟩ := step_bind hs
    have hopened : task.stage ≠ .opening := by
      rw [hrunning]
      simp
    exact (h.bind ht hopened name auth).update ht rfl fun hne => hne
  | ended u =>
    obtain ⟨task, ht, -, rfl⟩ := advance_eq hs
    exact h.update ht rfl fun _ => by simp
  | cleanup u =>
    obtain ⟨task, ht, -, rfl⟩ := step_cleanup hs
    exact h.cleanup ht

theorem run_consistent {localProviders : Table String TcpMapping}
    {ms : List (Move ServeNode ServeEvent)} (hrun : Run step (init localProviders) ms node) :
    node.Consistent :=
  hrun.invariant (P := Consistent) (consistent_init localProviders) fun _ _ _ h hs => h.step hs

/-! ## What each step does -/

theorem bindAnswered_of_step {event : ServeEvent} (hs : node.step event = some node') :
    BindAnswered ⟨node, event, node'⟩ := by
  rintro u name auth writerOpen rfl
  obtain ⟨task, ht, -, rfl⟩ := step_bind hs
  refine ⟨task, ht, ?_⟩
  rcases node.state.handleBind_cases u task.connectionId name auth with
    ⟨existing, hx, hne, he⟩ | ⟨hfree, he⟩
  · dsimp only
    rw [he]
    constructor
    · refine ⟨false, _, Function.update_self .., ?_⟩
      constructor
      · intro hok
        cases hok
      · rintro ⟨provider, hp, hid⟩
        rw [hx, Option.some.injEq] at hp
        exact absurd (hp ▸ hid) hne
    · intro other provider hp _
      exact hp
  · dsimp only
    rw [he]
    constructor
    · refine ⟨true, _, Function.update_self .., ?_⟩
      simp
    · intro other provider hp hne
      rw [Table.get_insert_of_ne, hp]
      rintro rfl
      exact hne (hfree provider hp)

theorem cleanupExact_of_step {event : ServeEvent} (hs : node.step event = some node') :
    CleanupExact ⟨node, event, node'⟩ := by
  rintro u rfl
  obtain ⟨task, ht, -, rfl⟩ := step_cleanup hs
  refine ⟨task, ht, ?_⟩
  intro name provider
  dsimp only
  rw [ServeState.cleanup_providers, Option.filter_eq_some_iff, decide_eq_true_eq]

/-- The answers of a task are those to the Binds that it has handled while its mux could send, in
their order. -/
theorem run_acks {localProviders : Table String TcpMapping} {ms : List (Move ServeNode ServeEvent)}
    (hrun : Run step (init localProviders) ms node) :
    (∀ u, node.spawned ≤ u → sendableTo u ms = []) ∧
      ∀ u task, node.task u = some task → task.acks.map ackedName = (sendableTo u ms).map some := by
  apply hrun.history_invariant (P := fun ns n => (∀ u, n.spawned ≤ u → sendableTo u ns = []) ∧
    ∀ u task, n.task u = some task → task.acks.map ackedName = (sendableTo u ns).map some)
  · constructor
    · intro u _
      rfl
    · intro u task hu
      cases hu
  · rintro ns before event after hr ⟨hnone, hacks⟩ hs
    have hfresh := (run_consistent hr).fresh
    have hquiet : (∀ u, event.bindTo u = none) →
        ∀ u, sendableTo u (ns ++ [⟨before, event, after⟩]) = sendableTo u ns := by
      intro hq u
      simp [sendableTo, bindsTo, hq]
    have hmoved : ∀ u (task next : DataTask), before.task u = some task → next.acks = task.acks →
        (∀ v, event.bindTo v = none) → after.spawned = before.spawned →
        after.task = Function.update before.task u (some next) →
        (∀ v, after.spawned ≤ v → sendableTo v (ns ++ [⟨before, event, after⟩]) = []) ∧
          ∀ v task, after.task v = some task →
            task.acks.map ackedName = (sendableTo v (ns ++ [⟨before, event, after⟩])).map some := by
      intro u task next hu hsame hq hspawned htask
      simp only [hquiet hq, hspawned, htask]
      refine ⟨hnone, ?_⟩
      intro v other hv
      rw [Function.update_apply] at hv
      split_ifs at hv with he
      · cases hv
        rw [hsame, he]
        exact hacks u task hu
      · exact hacks v other hv
    cases event with
    | control event =>
      obtain ⟨-, rfl⟩ := step_control hs
      simp only [hquiet fun _ => rfl]
      exact ⟨hnone, hacks⟩
    | start =>
      obtain ⟨c, rest, -, ⟨-, rfl⟩ | ⟨-, rfl⟩⟩ := step_start hs
      · simp only [hquiet fun _ => rfl]
        constructor
        · intro u hu
          exact hnone u (Nat.le_of_succ_le hu)
        · intro u task hu
          rw [Function.update_apply] at hu
          split_ifs at hu with he
          · cases hu
            rw [he, hnone _ le_rfl]
            rfl
          · exact hacks u task hu
      · simp only [hquiet fun _ => rfl]
        exact ⟨hnone, hacks⟩
    | opened u =>
      obtain ⟨task, ht, -, rfl⟩ := advance_eq hs
      exact hmoved u task { task with stage := .running } ht rfl (fun _ => rfl) rfl rfl
    | bind u name auth writerOpen =>
      obtain ⟨task, ht, -, rfl⟩ := step_bind hs
      have hbound : ∀ next v, sendableTo v (ns ++ [⟨before, .bind u name auth writerOpen, next⟩]) =
          sendableTo v ns ++ if u = v then (if writerOpen then [name] else []) else [] := by
        intro next v
        by_cases he : u = v <;> cases writerOpen <;>
          simp [sendableTo, bindsTo, ServeEvent.bindTo, he]
      simp only [hbound]
      constructor
      · intro v hv
        have hne : u ≠ v := by
          rintro rfl
          rw [hfresh u hv] at ht
          cases ht
        rw [if_neg hne, List.append_nil]
        exact hnone v hv
      · intro v other hv
        by_cases he : v = u
        · subst he
          rw [Function.update_self, Option.some.injEq] at hv
          subst hv
          have hname :
              ackedName (before.state.handleBind v task.connectionId name auth).2 = some name := by
            rcases before.state.handleBind_cases v task.connectionId name auth with
              ⟨existing, -, -, hb⟩ | ⟨-, hb⟩ <;> rw [hb] <;> rfl
          cases writerOpen <;> simp [hacks v task ht, hname]
        · rw [Function.update_of_ne he] at hv
          rw [if_neg (Ne.symm he), List.append_nil]
          exact hacks v other hv
    | ended u =>
      obtain ⟨task, ht, -, rfl⟩ := advance_eq hs
      exact hmoved u task { task with stage := .ended } ht rfl (fun _ => rfl) rfl rfl
    | cleanup u =>
      obtain ⟨task, ht, -, rfl⟩ := step_cleanup hs
      simp only [hquiet fun _ => rfl]
      refine ⟨hnone, ?_⟩
      intro v other hv
      rw [Function.update_apply] at hv
      split_ifs at hv
      exact hacks v other hv

end ServeNode

/-- In every state of a node there is one task at most for a connection, and every provider is
the running mux of the task of an active connection; every Bind that is handled while the mux can
send is answered once and truthfully, the others are not answered, none touches an entry of
another connection, and a cleanup removes what it should. -/
theorem registry_owned {localProviders : Table String TcpMapping}
    {ms : List (Move ServeNode ServeEvent)} {node : ServeNode}
    (hrun : Run ServeNode.step (.init localProviders) ms node) :
    (∀ t u task other, node.task t = some task → node.task u = some other →
        task.connectionId = other.connectionId → t = u) ∧
      (∀ name provider, node.state.providers.get name = some provider →
        provider.connectionId ∈ node.state.activeConnections ∧
          ∃ task, node.task provider.mux = some task ∧
            task.connectionId = provider.connectionId ∧ task.stage ≠ .opening) ∧
      (∀ t task, node.task t = some task →
        task.acks.map ackedName = (sendableTo t ms).map some) ∧
      ∀ move ∈ ms, BindAnswered move ∧ CleanupExact move := by
  have hc := ServeNode.run_consistent hrun
  refine ⟨hc.unique, ?_, (ServeNode.run_acks hrun).2, ?_⟩
  · intro name provider hp
    obtain ⟨task, ht, hid, hs⟩ := hc.owned name provider hp
    exact ⟨(hc.active _).mpr ⟨_, task, ht, hid⟩, task, ht, hid, hs⟩
  · intro move hm
    have hs := hrun.step_of_mem hm
    exact ⟨ServeNode.bindAnswered_of_step hs, ServeNode.cleanupExact_of_step hs⟩

/-- Two connections that want one name, and a reconnect of the first after its `write_loop` has
ended. -/
def contestedName : List ServeEvent :=
  [.control (.sync ["a", "b"]), .start, .start, .opened 0, .opened 1, .bind 0 "ssh" none true,
    .bind 1 "ssh" (some "ops") true, .bind 0 "web" none false, .ended 0, .cleanup 0,
    .bind 1 "ssh" none true, .control (.connected "a"), .start, .opened 2, .bind 2 "ssh" none true]

theorem registry_owned_of_contestedName :
    let node := outcome ServeNode.step (.init ∅) contestedName
    (∀ t u task other, node.task t = some task → node.task u = some other →
        task.connectionId = other.connectionId → t = u) ∧
      (∀ name provider, node.state.providers.get name = some provider →
        provider.connectionId ∈ node.state.activeConnections ∧
          ∃ task, node.task provider.mux = some task ∧
            task.connectionId = provider.connectionId ∧ task.stage ≠ .opening) ∧
      (∀ t task, node.task t = some task → task.acks.map ackedName =
        (sendableTo t (history ServeNode.step (.init ∅) contestedName)).map some) ∧
      ∀ move ∈ history ServeNode.step (.init ∅) contestedName,
        BindAnswered move ∧ CleanupExact move := by
  have hplay : (play ServeNode.step (.init ∅) contestedName).isSome = true := by decide +kernel
  exact registry_owned (Run.of_outcome hplay)

/-- The `write_loop` of a data connection has ended when its Bind is handled. The name is taken,
and nobody is told. -/
theorem bind_unanswered_of_endedWriter :
    ¬ ∀ (ms : List (Move ServeNode ServeEvent)) (node : ServeNode),
      Run ServeNode.step (.init ∅) ms node → ∀ t task, node.task t = some task →
        task.acks.map ackedName = (bindsTo t ms).map fun bind => some bind.1 := by
  intro h
  have hplay : (play ServeNode.step (.init ∅) [.control (.connected "a"), .start, .opened 0,
      .bind 0 "ssh" none false]).isSome = true := by decide +kernel
  have hanswered := h _ _ (Run.of_outcome hplay) 0 ⟨"a", .running, []⟩ (by decide +kernel)
  revert hanswered
  decide +kernel

end NodeAccess.Serve
