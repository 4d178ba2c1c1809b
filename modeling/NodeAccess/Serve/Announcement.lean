import Mathlib.Data.List.DropRight
import NodeAccess.Serve.Ownership

/-! # Announced connections

The control loop passes over an announcement of a connection that is active, also when the
task of that connection is about to end and was started for a client that has gone since.
-/

namespace NodeAccess.Serve

open Foundation Mux Relay

/-- The control loop comes to the announcement of a connection. -/
def Announces (c : String) (move : Move ServeNode ServeEvent) : Prop :=
  move.event = .start ∧ move.before.pending.head? = some c

/-- The announcement starts the task. -/
def Starts (c : String) (t : TaskId) (move : Move ServeNode ServeEvent) : Prop :=
  Announces c move ∧ c ∉ move.before.state.activeConnections ∧ t = move.before.spawned

def disconnects (c : String) (move : Move ServeNode ServeEvent) : Bool :=
  move.event = .control (.disconnected c)

/-- The moves after the last `disconnected` of a connection, or all moves. -/
def sinceDisconnected (c : String) (ms : List (Move ServeNode ServeEvent)) :
    List (Move ServeNode ServeEvent) := ms.rtakeWhile fun move => !disconnects c move

/-- The moves up to and with the last `disconnected` of a connection. -/
def untilDisconnected (c : String) (ms : List (Move ServeNode ServeEvent)) :
    List (Move ServeNode ServeEvent) := ms.rdropWhile fun move => !disconnects c move

/-- When a connection is announced, no task is left that was started for it before its last
`disconnected`. -/
def NoLeftover (ns : List (Move ServeNode ServeEvent)) (move : Move ServeNode ServeEvent) : Prop :=
  ∀ c, Announces c move → ∀ earlier ∈ untilDisconnected c ns, ∀ t, Starts c t earlier →
    move.before.task t = none

/-- A connection that was announced after its last `disconnected`, and that has no task, has had
one since. -/
def NoneLost (ms : List (Move ServeNode ServeEvent)) (node : ServeNode) : Prop :=
  ∀ c, (∃ move ∈ sinceDisconnected c ms, Announces c move) →
    (∀ t task, node.task t = some task → task.connectionId ≠ c) →
      ∃ move ∈ sinceDisconnected c ms, ∃ t, Starts c t move

instance (c : String) : DecidablePred (Announces c) := fun _ => inferInstanceAs (Decidable (_ ∧ _))

instance (c : String) (t : TaskId) : DecidablePred (Starts c t) :=
  fun _ => inferInstanceAs (Decidable (_ ∧ _ ∧ _))

theorem mem_until_or_since {c : String} {ms : List (Move ServeNode ServeEvent)}
    {move : Move ServeNode ServeEvent} (h : move ∈ ms) :
    move ∈ untilDisconnected c ms ∨ move ∈ sinceDisconnected c ms := by
  rw [← List.mem_append, untilDisconnected, sinceDisconnected, List.rdropWhile_append_rtakeWhile]
  exact h

theorem sinceDisconnected_append (c : String) (ms : List (Move ServeNode ServeEvent))
    (move : Move ServeNode ServeEvent) :
    sinceDisconnected c (ms ++ [move]) =
      if disconnects c move then [] else sinceDisconnected c ms ++ [move] := by
  rw [sinceDisconnected, List.rtakeWhile_concat]
  cases disconnects c move <;> simp [sinceDisconnected]

theorem run_started {localProviders : Table String TcpMapping}
    {ms : List (Move ServeNode ServeEvent)} {node : ServeNode}
    (hrun : Run ServeNode.step (.init localProviders) ms node) :
    ∀ t task, node.task t = some task → ∃ move ∈ ms, Starts task.connectionId t move := by
  apply hrun.history_invariant (P := fun ns n => ∀ t task, n.task t = some task →
    ∃ move ∈ ns, Starts task.connectionId t move)
  · intro t task ht
    cases ht
  · intro ns before event after _ ih hs t task ht
    have hkept : (∃ old, before.task t = some old ∧ old.connectionId = task.connectionId) →
        ∃ move ∈ ns ++ [⟨before, event, after⟩], Starts task.connectionId t move := by
      rintro ⟨old, ho, he⟩
      obtain ⟨move, hm, hstarts⟩ := ih t old ho
      exact ⟨move, List.mem_append_left _ hm, he ▸ hstarts⟩
    have hmoved : ∀ u (old next : DataTask), before.task u = some old →
        next.connectionId = old.connectionId →
          after.task = Function.update before.task u (some next) →
        ∃ move ∈ ns ++ [⟨before, event, after⟩], Starts task.connectionId t move := by
      intro u old next ho he hu
      rw [hu] at ht
      exact hkept (exists_of_update_some ho he ht)
    cases event with
    | control event =>
      obtain ⟨-, rfl⟩ := ServeNode.step_control hs
      exact hkept ⟨task, ht, rfl⟩
    | start =>
      obtain ⟨c, rest, hp, ⟨hc, rfl⟩ | ⟨-, rfl⟩⟩ := ServeNode.step_start hs
      · dsimp only at ht
        rw [Function.update_apply] at ht
        split_ifs at ht with htu
        · cases ht
          refine ⟨_, List.mem_append_right _ (List.mem_singleton_self _), ⟨rfl, ?_⟩, hc, htu⟩
          rw [hp]
          rfl
        · exact hkept ⟨task, ht, rfl⟩
      · exact hkept ⟨task, ht, rfl⟩
    | opened u =>
      obtain ⟨old, ho, -, rfl⟩ := ServeNode.advance_eq hs
      exact hmoved u old { old with stage := .running } ho rfl rfl
    | bind u name auth writerOpen =>
      obtain ⟨old, ho, -, rfl⟩ := ServeNode.step_bind hs
      exact hmoved u old { old with
        acks := old.acks ++
          if writerOpen then [(before.state.handleBind u old.connectionId name auth).2] else [] } ho
            rfl rfl
    | ended u =>
      obtain ⟨old, ho, -, rfl⟩ := ServeNode.advance_eq hs
      exact hmoved u old { old with stage := .ended } ho rfl rfl
    | cleanup u =>
      obtain ⟨old, ho, -, rfl⟩ := ServeNode.step_cleanup hs
      dsimp only at ht
      rw [Function.update_apply] at ht
      split_ifs at ht
      exact hkept ⟨task, ht, rfl⟩

/-- No announcement is lost in a run in which no connection is announced while a task is left
from before its last `disconnected`. -/
theorem announcements_kept {localProviders : Table String TcpMapping}
    {ms : List (Move ServeNode ServeEvent)} {node : ServeNode}
    (hrun : Run ServeNode.step (.init localProviders) ms node)
    (hclear : ∀ ns₁ move ns₂, ms = ns₁ ++ move :: ns₂ → NoLeftover ns₁ move) :
    NoneLost ms node := by
  have hstarted : ∀ c, (∃ move ∈ sinceDisconnected c ms, Announces c move) →
      ∃ move ∈ sinceDisconnected c ms, ∃ t, Starts c t move := by
    apply hrun.guarded_history (C := NoLeftover) (P := fun ns _ => ∀ c,
      (∃ move ∈ sinceDisconnected c ns, Announces c move) →
        ∃ move ∈ sinceDisconnected c ns, ∃ t, Starts c t move) hclear
    · rintro c ⟨move, hm, -⟩
      cases hm
    · intro ns before event after hr ih _ hnone c
      rw [sinceDisconnected_append]
      split_ifs
      · rintro ⟨move, hm, -⟩
        cases hm
      · rintro ⟨move, hm, hannounces⟩
        rcases List.mem_append.mp hm with hm | hm
        · obtain ⟨first, hf, hstarts⟩ := ih c ⟨move, hm, hannounces⟩
          exact ⟨first, List.mem_append_left _ hf, hstarts⟩
        · obtain rfl := List.mem_singleton.mp hm
          by_cases hc : c ∈ before.state.activeConnections
          · obtain ⟨t, task, ht, rfl⟩ := ((ServeNode.run_consistent hr).active c).mp hc
            obtain ⟨first, hf, hstarts⟩ := run_started hr t task ht
            rcases mem_until_or_since (c := task.connectionId) hf with hf | hf
            · have hgone := hnone _ hannounces first hf t hstarts
              rw [ht] at hgone
              cases hgone
            · exact ⟨first, List.mem_append_left _ hf, t, hstarts⟩
          · exact ⟨_, List.mem_append_right _ (List.mem_singleton_self _), _, hannounces, hc, rfl⟩
  intro c hannounced _
  exact hstarted c hannounced

/-- A client that leaves and comes back after its first data channel has been cleaned up. -/
def slowReconnect : List ServeEvent :=
  [.control (.connected "c"), .start, .opened 0, .control (.disconnected "c"), .ended 0, .cleanup 0,
    .control (.connected "c"), .start, .ended 1, .cleanup 1]

theorem announcements_kept_of_slowReconnect :
    NoneLost (history ServeNode.step (.init ∅) slowReconnect)
      (outcome ServeNode.step (.init ∅) slowReconnect) := by
  have hplay : (play ServeNode.step (.init ∅) slowReconnect).isSome = true := by decide +kernel
  apply announcements_kept (Run.of_outcome hplay)
  intro ns₁ move ns₂ hsplit c hannounces earlier _ t _
  have hidle : ∀ move ∈ history ServeNode.step (.init ∅) slowReconnect, move.event = .start →
      move.before.task 0 = none ∧ move.before.spawned ≤ 1 := by decide +kernel
  have hm : move ∈ history ServeNode.step (.init ∅) slowReconnect := by
    rw [hsplit]
    simp
  obtain ⟨hnone, hspawned⟩ := hidle move hm hannounces.1
  obtain ⟨ns, -, hr, -⟩ := (Run.of_outcome hplay).upto hm
  cases t with
  | zero => exact hnone
  | succ t => exact (ServeNode.run_consistent hr).fresh _ (hspawned.trans (Nat.le_add_left 1 t))

/-- A client that comes back while its first data channel is being cleaned up. -/
def quickReconnect : List ServeEvent :=
  [.control (.connected "c"), .start, .opened 0, .control (.disconnected "c"),
    .control (.connected "c"), .start, .ended 0, .cleanup 0]

/-- Its announcement is passed over, and no task is left that could serve it. -/
theorem announcement_lost_of_quickReconnect : ∃ ms node,
    Run ServeNode.step (.init ∅) ms node ∧ ¬ NoneLost ms node := by
  have hplay : (play ServeNode.step (.init ∅) quickReconnect).isSome = true := by decide +kernel
  refine ⟨_, _, Run.of_outcome hplay, ?_⟩
  intro hkept
  have hannounced :
      ∃ move ∈ sinceDisconnected "c" (history ServeNode.step (.init ∅) quickReconnect),
      Announces "c" move := by decide +kernel
  have hactive : ∀ move ∈ sinceDisconnected "c" (history ServeNode.step (.init ∅) quickReconnect),
      move.event = .start → "c" ∈ move.before.state.activeConnections := by decide +kernel
  have hnobody : ∀ t, (outcome ServeNode.step (.init ∅) quickReconnect).task t = none := by
    intro t
    have hspawned :
        (outcome ServeNode.step (.init ∅) quickReconnect).spawned = 1 := by decide +kernel
    have hgone :
        (outcome ServeNode.step (.init ∅) quickReconnect).task 0 = none := by decide +kernel
    cases t with
    | zero => exact hgone
    | succ t =>
      apply (ServeNode.run_consistent (Run.of_outcome hplay)).fresh
      rw [hspawned]
      exact Nat.le_add_left 1 t
  obtain ⟨move, hm, t, hstarts⟩ := hkept "c" hannounced fun t task ht => by
    rw [hnobody t] at ht
    cases ht
  exact hstarts.2.1 (hactive move hm hstarts.1.1)

end NodeAccess.Serve
