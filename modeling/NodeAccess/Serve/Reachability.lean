import NodeAccess.Serve.Provider

/-! # Visits of an acknowledged name

From the Bind that was answered with ok until the end of the data connection, or the next Bind
of the name over it, the name stays with this Bind. A visit reaches it exactly when the node
has no local provider of the name, since `handle_visit` asks for that one first.
-/

namespace NodeAccess.Serve

open Foundation Mux Relay

/-- The task was given an answer with ok. -/
def Acknowledged (move : Move ServeNode ServeEvent) (t : TaskId) (name : String) : Prop :=
  ∃ task error, move.before.task t = some task ∧
    move.after.task t = some { task with acks := task.acks ++ [.bindAck name true error] }

/-- Neither the data connection of the task ends nor does it bind the name again. -/
def Undisturbed (t : TaskId) (name : String) (move : Move ServeNode ServeEvent) : Prop :=
  move.event ≠ .ended t ∧ ∀ auth writerOpen, move.event ≠ .bind t name auth writerOpen

/-- A visit of the name is connected to the mux of the Bind, or to nothing if its auth does not
match. -/
def Reaches (state : ServeState) (t : TaskId) (name : String) (auth presented : Option String) :
    Prop :=
  if authMatches auth presented then state.handleVisit name presented = .openProvider t
  else ∃ error, state.handleVisit name presented = .rejected error

namespace ServeNode

variable {node node' : ServeNode} {t : TaskId} {name : String} {auth : Option String}
  {writerOpen : Bool}

theorem step_locals {event : ServeEvent} (hs : node.step event = some node') :
    node'.state.localProviders = node.state.localProviders := by
  by_cases hbind : ∃ u other auth writerOpen, event = .bind u other auth writerOpen
  · obtain ⟨u, other, auth, writerOpen, rfl⟩ := hbind
    obtain ⟨task, -, -, rfl⟩ := step_bind hs
    dsimp only
    rcases node.state.handleBind_cases u task.connectionId other auth with ⟨-, -, -, he⟩ | ⟨-, he⟩
    · rw [he]
    · rw [he]
  · push Not at hbind
    exact (step_providers hs hbind).1

theorem run_locals {ms : List (Move ServeNode ServeEvent)} (hrun : Run step node ms node') :
    node'.state.localProviders = node.state.localProviders := by
  induction hrun with
  | nil => rfl
  | snoc _ hs ih => rw [step_locals hs, ih]

/-- The name belongs to this Bind, and its data connection runs. -/
structure Holds (t : TaskId) (name : String) (auth : Option String) (node : ServeNode) : Prop where
  running : ∃ task, node.task t = some task ∧ task.stage = .running ∧
    node.state.providers.get name = some ⟨task.connectionId, t, auth⟩

theorem Holds.of_same (h : node.Holds t name auth) (htask : node'.task t = node.task t)
    (hentry : ∀ task, node.task t = some task → task.stage = .running →
      node.state.providers.get name = some ⟨task.connectionId, t, auth⟩ →
      node'.state.providers.get name = node.state.providers.get name) : node'.Holds t name
        auth := by
  obtain ⟨task, ht, hstage, hp⟩ := h.running
  refine ⟨task, htask.trans ht, hstage, ?_⟩
  rw [hentry task ht hstage hp]
  exact hp

theorem Holds.step (h : node.Holds t name auth) (hc : node.Consistent) {event : ServeEvent}
    (hs : node.step event = some node') (hquiet : Undisturbed t name ⟨node, event, node'⟩) :
    node'.Holds t name auth := by
  obtain ⟨task, ht, hstage, hp⟩ := h.running
  cases event with
  | control event =>
    obtain ⟨-, rfl⟩ := step_control hs
    exact h.of_same rfl fun _ _ _ _ => rfl
  | start =>
    obtain ⟨c, rest, -, ⟨-, rfl⟩ | ⟨-, rfl⟩⟩ := step_start hs
    · have hne : t ≠ node.spawned := by
        rintro rfl
        rw [hc.fresh _ le_rfl] at ht
        cases ht
      exact h.of_same (Function.update_of_ne hne _ _) fun _ _ _ _ => rfl
    · exact h.of_same rfl fun _ _ _ _ => rfl
  | opened u =>
    obtain ⟨other, hu, hopening, rfl⟩ := advance_eq hs
    have hne : t ≠ u := by
      rintro rfl
      obtain rfl := Option.some.inj (ht.symm.trans hu)
      rw [hstage] at hopening
      simp at hopening
    exact h.of_same (Function.update_of_ne hne _ _) fun _ _ _ _ => rfl
  | ended u =>
    obtain ⟨other, hu, -, rfl⟩ := advance_eq hs
    have hne : t ≠ u := by
      rintro rfl
      exact hquiet.1 rfl
    exact h.of_same (Function.update_of_ne hne _ _) fun _ _ _ _ => rfl
  | cleanup u =>
    obtain ⟨other, hu, hended, rfl⟩ := step_cleanup hs
    have hne : t ≠ u := by
      rintro rfl
      obtain rfl := Option.some.inj (ht.symm.trans hu)
      rw [hstage] at hended
      cases hended
    apply h.of_same (Function.update_of_ne hne _ _)
    intro task' ht' _ hp'
    have hid : task'.connectionId ≠ other.connectionId :=
      fun he => hne (hc.unique t u _ _ ht' hu he)
    rw [ServeState.cleanup_providers, hp', Option.filter_some, if_pos (by simpa using hid)]
  | bind u other auth' writerOpen =>
    obtain ⟨binder, hu, -, rfl⟩ := step_bind hs
    have hentry : ∀ existing, node.state.providers.get name = some existing →
        (node.state.handleBind u binder.connectionId other auth').1.providers.get name =
          some existing ∨ t = u ∧ other = name := by
      intro existing hx
      rcases node.state.handleBind_cases u binder.connectionId other auth' with
        ⟨-, -, -, he⟩ | ⟨hfree, he⟩
      · rw [he]
        exact .inl hx
      · rw [he, Table.get_insert]
        by_cases hname : name = other
        · subst hname
          have hid := hfree _ hp
          exact .inr ⟨hc.unique t u _ _ ht hu hid, rfl⟩
        · rw [if_neg hname]
          exact .inl hx
    rcases hentry _ hp with hkept | ⟨rfl, rfl⟩
    · by_cases hne : t = u
      · subst hne
        obtain rfl := Option.some.inj (ht.symm.trans hu)
        exact ⟨_, Function.update_self _ _ _, hstage, hkept⟩
      · exact ⟨task, (Function.update_of_ne hne _ _).trans ht, hstage, hkept⟩
    · exact absurd rfl (hquiet.2 auth' writerOpen)

theorem Holds.run {ms ns : List (Move ServeNode ServeEvent)} {locals : Table String TcpMapping}
    (h : node.Holds t name auth) (hbefore : Run ServeNode.step (init locals) ms node)
    (hrun : Run ServeNode.step node ns node') (hquiet : ∀ move ∈ ns, Undisturbed t name move) :
    node'.Holds t name auth := by
  apply hrun.guarded hquiet h
  intro earlier u event v hr hu hs ho
  exact hu.step (run_consistent (hbefore.trans hr)) hs ho

theorem holds_of_acknowledged (hs : node.step (.bind t name auth writerOpen) = some node')
    (hack : Acknowledged ⟨node, .bind t name auth writerOpen, node'⟩ t name) :
    node'.Holds t name auth := by
  obtain ⟨task, ht, hstage, rfl⟩ := step_bind hs
  obtain ⟨task', error, ht', hacked⟩ := hack
  obtain rfl := Option.some.inj (ht.symm.trans ht')
  dsimp only at hacked
  rw [Function.update_self, Option.some.injEq, DataTask.mk.injEq,
    List.append_cancel_left_eq] at hacked
  refine ⟨_, Function.update_self _ _ _, hstage, ?_⟩
  rcases node.state.handleBind_cases t task.connectionId name auth with ⟨-, -, -, he⟩ | ⟨-, he⟩
  · rw [he] at hacked
    cases writerOpen <;> simp at hacked
  · dsimp only
    rw [he]
    exact Table.get_insert_self _ _ _

end ServeNode

variable {locals : Table String TcpMapping} {ns₁ ns₂ : List (Move ServeNode ServeEvent)}
  {move : Move ServeNode ServeEvent} {node : ServeNode} {t : TaskId} {name : String}
  {auth : Option String} {writerOpen : Bool}

/-- After an answer with ok all visits of the name go where the Bind says, exactly when the node
has no local provider of the name. -/
theorem visits_reach_iff (hrun : Run ServeNode.step (.init locals) (ns₁ ++ move :: ns₂) node)
    (hbind : move.event = .bind t name auth writerOpen) (hack : Acknowledged move t name)
    (hquiet : ∀ m ∈ ns₂, Undisturbed t name m) :
    (∀ presented, Reaches node.state t name auth presented) ↔ locals.get name = none := by
  obtain ⟨hbefore, hs, hafter⟩ := hrun.of_split
  obtain ⟨u, event, v⟩ := move
  obtain rfl : event = .bind t name auth writerOpen := hbind
  have hholds := (ServeNode.holds_of_acknowledged hs hack).run (hbefore.snoc hs) hafter hquiet
  obtain ⟨task, -, -, hp⟩ := hholds.running
  have hlocals : node.state.localProviders = locals := ServeNode.run_locals hrun
  constructor
  · intro hreaches
    have hself : authMatches auth auth = true := by simp [authMatches_eq]
    have hvisit := hreaches auth
    rw [Reaches, if_pos hself] at hvisit
    cases hget : locals.get name with
    | none => rfl
    | some provider =>
      rw [ServeState.handleVisit, hlocals, hget] at hvisit
      dsimp only at hvisit
      split_ifs at hvisit
  · intro hnone presented
    have hvisit : node.state.handleVisit name presented =
        if authMatches auth presented then .openProvider t
          else .rejected "visitor auth rejected" := by
      rw [ServeState.handleVisit, hlocals, hnone, hp]
    rw [Reaches, hvisit]
    by_cases hmatch : authMatches auth presented = true
    · simp [hmatch]
    · simp [hmatch]

/-- The node of "devbox", with another service of its own, serves a Bind of "ssh". -/
def boundSsh : List ServeEvent := [.control (.connected "laptop"), .start, .opened 0]

def devboxProviders (service : String) : Table String TcpMapping :=
  .ofList [(service, ⟨service, "127.0.0.1:22", none⟩)]

/-- Another connection asks for the name and is refused, and is cleaned up. -/
def laterBind : List ServeEvent :=
  [.control (.connected "tablet"), .start, .opened 1, .bind 1 "ssh" none true, .ended 1, .cleanup 1]

theorem visits_reach_of_otherService :
    (play ServeNode.step (.init (devboxProviders "db"))
        (boundSsh ++ .bind 0 "ssh" (some "ops") true :: laterBind)).isSome = true ∧
      ∀ presented,
        Reaches (outcome ServeNode.step (outcome ServeNode.step (.init (devboxProviders "db"))
        (boundSsh ++ [.bind 0 "ssh" (some "ops") true])) laterBind).state 0 "ssh" (some "ops")
          presented := by
  have hplay : (play ServeNode.step (.init (devboxProviders "db"))
      (boundSsh ++ .bind 0 "ssh" (some "ops") true :: laterBind)).isSome = true := by decide +kernel
  have hrun : Run ServeNode.step (.init (devboxProviders "db")) _ _ :=
    Run.of_play_split boundSsh (.bind 0 "ssh" (some "ops") true) laterBind hplay
  have hack : Acknowledged ⟨outcome ServeNode.step (.init (devboxProviders "db")) boundSsh,
      .bind 0 "ssh" (some "ops") true, outcome ServeNode.step (.init (devboxProviders "db"))
        (boundSsh ++ [.bind 0 "ssh" (some "ops") true])⟩ 0 "ssh" :=
    ⟨⟨"laptop", .running, []⟩, none, by decide +kernel, by decide +kernel⟩
  have hquiet : ∀ event ∈ laterBind, event ≠ .ended 0 ∧
      ∀ auth writerOpen, event ≠ .bind 0 "ssh" auth writerOpen := by
    intro event he
    simp only [laterBind, List.mem_cons, List.not_mem_nil, or_false] at he
    rcases he with rfl | rfl | rfl | rfl | rfl | rfl <;> simp
  exact ⟨hplay, (visits_reach_iff hrun rfl hack
    fun m hm => hquiet m.event (event_mem_of_history hm)).mpr (by decide +kernel)⟩

/-- The node has a local provider of the name that it acknowledges: its visitors get that one,
whatever auth the Bind asks for. -/
theorem visits_astray_of_localProvider : ∃ ns₁ move node,
    Run ServeNode.step (.init (devboxProviders "ssh")) (ns₁ ++ [move]) node ∧
      move.event = .bind 0 "ssh" (some "ops") true ∧ Acknowledged move 0 "ssh" ∧
      ¬ Reaches node.state 0 "ssh" (some "ops") (some "ops") ∧
      ¬ Reaches node.state 0 "ssh" (some "ops") none := by
  have hplay : (play ServeNode.step (.init (devboxProviders "ssh"))
      (boundSsh ++ .bind 0 "ssh" (some "ops") true :: [])).isSome = true := by decide +kernel
  refine ⟨_, _, _, Run.of_play_split boundSsh (.bind 0 "ssh" (some "ops") true) [] hplay, rfl, ?_,
    ?_, ?_⟩
  · exact ⟨⟨"laptop", .running, []⟩, none, by decide +kernel, by decide +kernel⟩
  · rw [Reaches, if_pos (by decide)]
    decide +kernel
  · rw [Reaches, if_neg (by decide)]
    rintro ⟨error, he⟩
    have hvisit : (outcome ServeNode.step (outcome ServeNode.step (.init (devboxProviders "ssh"))
        (boundSsh ++ [.bind 0 "ssh" (some "ops") true])) []).state.handleVisit "ssh" none =
          .dialLocal "127.0.0.1:22" := by decide +kernel
    rw [hvisit] at he
    cases he

end NodeAccess.Serve
