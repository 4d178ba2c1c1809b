import Mathlib.Tactic

/-! # Runs of a partial step function, with their history

A component is a state and a step function that consumes one event and refuses
the events that are not enabled. A run keeps the list of its moves, so that a
specification can speak of what happened before and after a given step.
-/

namespace NodeAccess.Foundation

variable {σ ε : Type*}

/-- One step of a run, with the states on both sides of it. -/
structure Move (σ ε : Type*) where
  before : σ
  event : ε
  after : σ

/-- The runs of `step` from `s`, the latest move last. -/
inductive Run (step : σ → ε → Option σ) (s : σ) : List (Move σ ε) → σ → Prop
  | nil : Run step s [] s
  | snoc {ms : List (Move σ ε)} {t u : σ} {e : ε} :
      Run step s ms t → step t e = some u → Run step s (ms ++ [⟨t, e, u⟩]) u

variable {step : σ → ε → Option σ} {s t : σ} {ms : List (Move σ ε)}

theorem Run.single {e : ε} (h : step s e = some t) : Run step s [⟨s, e, t⟩] t :=
  Run.snoc Run.nil h

theorem Run.trans {u : σ} {ns : List (Move σ ε)} (h₁ : Run step s ms t) (h₂ : Run step t ns u) :
    Run step s (ms ++ ns) u := by
  induction h₂ with
  | nil => simpa using h₁
  | snoc _ hs ih =>
    rw [← List.append_assoc]
    exact Run.snoc ih hs

/-- What holds at the start and is kept by every step holds at the end of every run. -/
theorem Run.invariant {P : σ → Prop} (hrun : Run step s ms t) (hinit : P s)
    (hstep : ∀ u e v, P u → step u e = some v → P v) : P t := by
  induction hrun with
  | nil => exact hinit
  | snoc _ hs ih => exact hstep _ _ _ ih hs

/-- The same rule for a property of the state together with its history. -/
theorem Run.history_invariant {P : List (Move σ ε) → σ → Prop} (hrun : Run step s ms t)
    (hinit : P [] s)
    (hstep : ∀ ns u e v, Run step s ns u → P ns u → step u e = some v → P (ns ++ [⟨u, e, v⟩]) v) :
    P ms t := by
  induction hrun with
  | nil => exact hinit
  | snoc hr hs ih => exact hstep _ _ _ _ hr ih hs

theorem Run.of_snoc {m : Move σ ε} (h : Run step s (ms ++ [m]) t) :
    Run step s ms m.before ∧ step m.before m.event = some m.after ∧ t = m.after := by
  generalize hl : ms ++ [m] = l at h
  cases h with
  | nil => simp at hl
  | snoc hr hs =>
    obtain ⟨rfl, hm⟩ := List.append_inj' hl rfl
    obtain rfl := List.singleton_inj.mp hm
    exact ⟨hr, hs, rfl⟩

theorem Run.of_append {ns₁ ns₂ : List (Move σ ε)} (h : Run step s (ns₁ ++ ns₂) t) :
    ∃ u, Run step s ns₁ u ∧ Run step u ns₂ t := by
  induction ns₂ using List.reverseRecOn generalizing t with
  | nil => exact ⟨t, by simpa using h, Run.nil⟩
  | append_singleton ns₂ m ih =>
    rw [← List.append_assoc] at h
    obtain ⟨hr, hs, rfl⟩ := h.of_snoc
    obtain ⟨u, h₁, h₂⟩ := ih hr
    exact ⟨u, h₁, Run.snoc h₂ hs⟩

/-- A move in the middle of a run splits it into the run before, the step and the run after. -/
theorem Run.of_split {ns₁ ns₂ : List (Move σ ε)} {m : Move σ ε}
    (h : Run step s (ns₁ ++ m :: ns₂) t) :
    Run step s ns₁ m.before ∧ step m.before m.event = some m.after ∧ Run step m.after ns₂ t := by
  rw [List.append_cons] at h
  obtain ⟨u, h₁, h₂⟩ := h.of_append
  obtain ⟨hr, hs, rfl⟩ := h₁.of_snoc
  exact ⟨hr, hs, h₂⟩

/-- Every move of a run is a step between two states that the run reaches. -/
theorem Run.step_of_mem {m : Move σ ε} (h : Run step s ms t) (hm : m ∈ ms) :
    step m.before m.event = some m.after := by
  obtain ⟨ns₁, ns₂, rfl⟩ := List.append_of_mem hm
  exact h.of_split.2.1

/-- The rule for runs whose moves, each with the history before it, all meet a condition. -/
theorem Run.guarded_history {C : List (Move σ ε) → Move σ ε → Prop} {P : List (Move σ ε) → σ → Prop}
    (hrun : Run step s ms t) (hguard : ∀ ns₁ m ns₂, ms = ns₁ ++ m :: ns₂ → C ns₁ m) (hinit : P [] s)
    (hstep : ∀ ns u e v, Run step s ns u → P ns u → step u e = some v → C ns ⟨u, e, v⟩ →
      P (ns ++ [⟨u, e, v⟩]) v) : P ms t := by
  induction hrun with
  | nil => exact hinit
  | @snoc ms u v e hr hs ih =>
    have hlast : C ms ⟨u, e, v⟩ := hguard ms ⟨u, e, v⟩ [] rfl
    have hall : ∀ ns₁ m ns₂, ms = ns₁ ++ m :: ns₂ → C ns₁ m := by
      rintro ns₁ m ns₂ rfl
      exact hguard ns₁ m (ns₂ ++ [⟨u, e, v⟩]) (by simp)
    exact hstep ms u e v hr (ih hall) hs hlast

/-- The same rule for a condition on moves and a property of states. -/
theorem Run.guarded {C : Move σ ε → Prop} {P : σ → Prop} (hrun : Run step s ms t)
    (hguard : ∀ m ∈ ms, C m) (hinit : P s)
    (hstep : ∀ ns u e v, Run step s ns u → P u → step u e = some v → C ⟨u, e, v⟩ → P v) : P t := by
  apply hrun.guarded_history (C := fun _ m => C m) (P := fun _ u => P u) _ hinit hstep
  rintro ns₁ m ns₂ rfl
  exact hguard m (by simp)

/-- A run up to one of its moves and with that move. -/
theorem Run.upto {m : Move σ ε} (h : Run step s ms t) (hm : m ∈ ms) :
    ∃ ns, (∀ n ∈ ns, n ∈ ms) ∧ Run step s ns m.before ∧ Run step s (ns ++ [m]) m.after := by
  obtain ⟨ns₁, ns₂, rfl⟩ := List.append_of_mem hm
  obtain ⟨hr, hs, -⟩ := h.of_split
  exact ⟨ns₁, fun n hn => List.mem_append_left _ hn, hr, Run.snoc hr hs⟩

/-- A run seen by an observer. When every step that the observer keeps can be made from the
related state, and the other steps keep the states related, the kept events run on their own. -/
theorem Run.project {σ' : Type*} {step' : σ' → ε → Option σ'} {R : σ → σ' → Prop} {keep : ε → Bool}
    {s' : σ'} (hrun : Run step s ms t) (hinit : R s s')
    (hkeep : ∀ m ∈ ms, ∀ u, R m.before u → step m.before m.event = some m.after →
      keep m.event = true → ∃ v, step' u m.event = some v ∧ R m.after v)
    (hdrop : ∀ m ∈ ms, ∀ u, R m.before u → step m.before m.event = some m.after →
      keep m.event = false → R m.after u) :
    ∃ ms' t', Run step' s' ms' t' ∧ ms'.map Move.event = (ms.map Move.event).filter keep ∧
      R t t' := by
  induction hrun with
  | nil => exact ⟨[], s', Run.nil, rfl, hinit⟩
  | @snoc ms t u e _ hs ih =>
    have hsub : ∀ m ∈ ms, m ∈ ms ++ [⟨t, e, u⟩] := fun m hm => List.mem_append_left _ hm
    have hlast : (⟨t, e, u⟩ : Move σ ε) ∈ ms ++ [⟨t, e, u⟩] := by simp
    obtain ⟨ms', t', hrun', hevents, hR⟩ :=
      ih (fun m hm => hkeep m (hsub m hm)) fun m hm => hdrop m (hsub m hm)
    cases hk : keep e with
    | true =>
      obtain ⟨u', hs', hR'⟩ := hkeep _ hlast t' hR hs hk
      exact ⟨ms' ++ [⟨t', e, u'⟩], u', Run.snoc hrun' hs', by simp [hevents, hk], hR'⟩
    | false => exact ⟨ms', t', hrun', by simp [hevents, hk], hdrop _ hlast t' hR hs hk⟩

/-- Execute a list of events, stopping at the first one that is refused. -/
def play (step : σ → ε → Option σ) : σ → List ε → Option σ
  | s, [] => some s
  | s, e :: es => (step s e).bind fun t => play step t es

/-- The moves of the same execution. -/
def history (step : σ → ε → Option σ) : σ → List ε → List (Move σ ε)
  | _, [] => []
  | s, e :: es => match step s e with
    | some t => ⟨s, e, t⟩ :: history step t es
    | none => []

theorem event_mem_of_history {es : List ε} {m : Move σ ε} (h : m ∈ history step s es) :
    m.event ∈ es := by
  induction es generalizing s with
  | nil => cases h
  | cons e es ih =>
    cases hs : step s e with
    | none => simp [history, hs] at h
    | some t =>
      simp only [history, hs, List.mem_cons] at h
      rcases h with rfl | h
      · exact List.mem_cons_self
      · exact List.mem_cons_of_mem _ (ih h)

theorem Run.of_play {es : List ε} (h : play step s es = some t) :
    Run step s (history step s es) t := by
  induction es generalizing s with
  | nil =>
    obtain rfl : s = t := by simpa [play] using h
    exact Run.nil
  | cons e es ih =>
    cases hs : step s e with
    | none => simp [play, hs] at h
    | some u =>
      simp only [play, hs, Option.bind_some] at h
      rw [history, hs]
      exact (Run.single hs).trans (ih h)

/-- The state that an execution reaches, when no event of it is refused. -/
def outcome (step : σ → ε → Option σ) (s : σ) (es : List ε) : σ := (play step s es).getD s

theorem play_append (es₁ es₂ : List ε) :
    play step s (es₁ ++ es₂) = (play step s es₁).bind fun t => play step t es₂ := by
  induction es₁ generalizing s with
  | nil => rfl
  | cons e es₁ ih =>
    cases hs : step s e with
    | none => simp [play, hs]
    | some u => simp [play, hs, ih]

theorem Run.of_outcome {es : List ε} (h : (play step s es).isSome) :
    Run step s (history step s es) (outcome step s es) := by
  rcases Option.isSome_iff_exists.mp h with ⟨t, ht⟩
  rw [outcome, ht, Option.getD_some]
  exact Run.of_play ht

theorem play_take {es : List ε} (h : (play step s es).isSome) (k : ℕ) :
    (play step s (es.take k)).isSome := by
  rw [← List.take_append_drop k es, play_append] at h
  cases hp : play step s (es.take k) with
  | none => simp [hp] at h
  | some t => rfl

theorem outcome_cons_take {e : ε} {es : List ε} (hs : step s e = some t)
    (h : (play step t es).isSome) (k : ℕ) :
    outcome step s (e :: es.take k) = outcome step t (es.take k) := by
  obtain ⟨u, hu⟩ := Option.isSome_iff_exists.mp (play_take h k)
  simp [outcome, play, hs, hu]

theorem mem_history {es : List ε} (hplay : (play step s es).isSome) {k : ℕ} (hk : k < es.length) :
    (⟨outcome step s (es.take k), es[k], outcome step s (es.take (k + 1))⟩ : Move σ ε) ∈
      history step s es := by
  induction es generalizing s k with
  | nil => exact absurd hk (Nat.not_lt_zero k)
  | cons e es ih =>
    cases hs : step s e with
    | none => simp [play, hs] at hplay
    | some t =>
      simp only [play, hs, Option.bind_some] at hplay
      rw [history, hs]
      cases k with
      | zero => simp [outcome, play, hs]
      | succ k =>
        have hmem := ih hplay (Nat.lt_of_succ_lt_succ hk)
        simp only [List.take_succ_cons, outcome_cons_take hs hplay, List.getElem_cons_succ]
        exact List.mem_cons_of_mem _ hmem

/-- A condition on the moves of an execution, each with the history before it. -/
theorem forall_split_history {C : List (Move σ ε) → Move σ ε → Prop} {es : List ε}
    (hplay : (play step s es).isSome)
    (h : ∀ k (hk : k < es.length), C (history step s (es.take k))
      ⟨outcome step s (es.take k), es[k], outcome step s (es.take (k + 1))⟩) :
    ∀ ns₁ m ns₂, history step s es = ns₁ ++ m :: ns₂ → C ns₁ m := by
  induction es generalizing s C with
  | nil =>
    intro ns₁ m ns₂ hsplit
    simp [history] at hsplit
  | cons e es ih =>
    intro ns₁ m ns₂ hsplit
    cases hs : step s e with
    | none => simp [play, hs] at hplay
    | some t =>
      simp only [play, hs, Option.bind_some] at hplay
      rw [history, hs] at hsplit
      rcases List.cons_eq_append_iff.mp hsplit with ⟨rfl, hhead⟩ | ⟨rest, rfl, htail⟩
      · obtain ⟨rfl, -⟩ := List.cons.inj hhead
        simpa [history, outcome, play, hs] using h 0 (Nat.zero_lt_succ _)
      · apply ih (C := fun ns m => C (⟨s, e, t⟩ :: ns) m) hplay _ rest m ns₂ htail
        intro k hk
        have hmove := h (k + 1) (Nat.succ_lt_succ hk)
        simpa only [List.take_succ_cons, history, hs, outcome_cons_take hs hplay,
          List.getElem_cons_succ] using hmove

/-- The run of an execution, split at one of its events. -/
theorem Run.of_play_split (es₁ : List ε) (e : ε) (es₂ : List ε)
    (h : (play step s (es₁ ++ e :: es₂)).isSome) :
    Run step s (history step s es₁ ++
        ⟨outcome step s es₁, e, outcome step s (es₁ ++ [e])⟩ ::
          history step (outcome step s (es₁ ++ [e])) es₂)
      (outcome step (outcome step s (es₁ ++ [e])) es₂) := by
  rw [play_append] at h
  cases h₁ : play step s es₁ with
  | none => simp [h₁] at h
  | some t =>
    simp only [h₁, Option.bind_some, play] at h
    cases h₂ : step t e with
    | none => simp [h₂] at h
    | some u =>
      have ho : outcome step s es₁ = t := by simp [outcome, h₁]
      have hu : outcome step s (es₁ ++ [e]) = u := by
        simp [outcome, play_append, h₁, h₂, play]
      rw [ho, hu, List.append_cons]
      rw [h₂, Option.bind_some] at h
      exact (Run.snoc (Run.of_play h₁) h₂).trans (Run.of_outcome h)

end NodeAccess.Foundation
