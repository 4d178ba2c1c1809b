import Mathlib.Tactic

/-! # Events counted in windows of one length

Each event is stamped with the start of the window that counts it. Windows may begin at any time,
but not before the previous one is over.
-/

namespace NodeAccess.Foundation

variable {τ : Type*} [LinearOrder τ] [Add τ]

structure Stamp (τ : Type*) where
  window : τ
  time : τ
deriving DecidableEq, Repr

/-- The times of a half-open interval of the given length. -/
def InInterval (length start time : τ) : Prop := start ≤ time ∧ time < start + length

instance (length start time : τ) : Decidable (InInterval length start time) :=
  inferInstanceAs (Decidable (_ ∧ _))

/-- Every event is in its window, different windows do not overlap, and no window counts more than
`limit` events. -/
structure Spread (length : τ) (limit : ℕ) (stamps : List (Stamp τ)) : Prop where
  inside : ∀ s ∈ stamps, InInterval length s.window s.time
  apart : ∀ s ∈ stamps, ∀ t ∈ stamps, s.window < t.window → s.window + length ≤ t.window
  bounded : ∀ w, (stamps.countP fun s => s.window = w) ≤ limit

/-- What meets one of two conditions is counted by one of them. -/
theorem countP_le_add {α : Type*} {p q r : α → Bool} (h : ∀ x, p x → q x ∨ r x) (l : List α) :
    l.countP p ≤ l.countP q + l.countP r := by
  induction l with
  | nil => simp
  | cons x l ih =>
    have hx := h x
    simp only [List.countP_cons]
    split_ifs <;> simp_all <;> omega

namespace Spread

variable {length : τ} {limit : ℕ} {stamps : List (Stamp τ)}

theorem countP_le_of_same (h : Spread length limit stamps) {p : Stamp τ → Prop} [DecidablePred p]
    (hsame : ∀ s ∈ stamps, ∀ t ∈ stamps, p s → p t → s.window = t.window) :
    (stamps.countP fun s => p s) ≤ limit := by
  by_cases hnone : ∃ s ∈ stamps, p s
  · obtain ⟨s, hs, hp⟩ := hnone
    apply le_trans _ (h.bounded s.window)
    apply List.countP_mono_left
    intro t ht hpt
    exact decide_eq_true (hsame t ht s hs (of_decide_eq_true hpt) hp)
  · have hzero : (stamps.countP fun s => p s) = 0 := by
      rw [List.countP_eq_zero]
      intro s hs hp
      exact hnone ⟨s, hs, of_decide_eq_true hp⟩
    omega

/-- An interval meets two windows at most: one that has begun when the interval begins, and one that
begins within it. -/
theorem countP_interval_le [AddRightMono τ] (h : Spread length limit stamps) (start : τ) :
    (stamps.countP fun s => InInterval length start s.time) ≤ 2 * limit := by
  have hsplit : (stamps.countP fun s => InInterval length start s.time) ≤
      (stamps.countP fun s => InInterval length start s.time ∧ s.window ≤ start) +
        stamps.countP fun s => InInterval length start s.time ∧ start < s.window := by
    apply countP_le_add
    intro s hs
    simp only [decide_eq_true_eq] at hs ⊢
    rcases le_or_gt s.window start with hw | hw
    · exact .inl ⟨hs, hw⟩
    · exact .inr ⟨hs, hw⟩
  have hbefore :
      (stamps.countP fun s => InInterval length start s.time ∧ s.window ≤ start) ≤ limit := by
    apply h.countP_le_of_same
    have hle : ∀ s ∈ stamps, ∀ t ∈ stamps, InInterval length start s.time → t.window ≤ start →
        ¬ s.window < t.window := by
      intro s hs t ht hin hw hlt
      have hover := (h.inside s hs).2
      have hapart := h.apart s hs t ht hlt
      exact absurd (hover.trans_le hapart) (not_lt.mpr (hw.trans hin.1))
    rintro s hs t ht ⟨his, hws⟩ ⟨hit, hwt⟩
    exact le_antisymm (not_lt.mp (hle t ht s hs hit hws)) (not_lt.mp (hle s hs t ht his hwt))
  have hafter :
      (stamps.countP fun s => InInterval length start s.time ∧ start < s.window) ≤ limit := by
    apply h.countP_le_of_same
    have hle : ∀ s ∈ stamps, ∀ t ∈ stamps, start < s.window → InInterval length start t.time →
        ¬ s.window < t.window := by
      intro s hs t ht hw hin hlt
      have hbegun := (h.inside t ht).1
      have hapart := h.apart s hs t ht hlt
      have hshift : start + length ≤ s.window + length := by gcongr
      exact absurd (hshift.trans (hapart.trans hbegun)) (not_le.mpr hin.2)
    rintro s hs t ht ⟨his, hws⟩ ⟨hit, hwt⟩
    exact le_antisymm (not_lt.mp (hle t ht s hs hwt his)) (not_lt.mp (hle s hs t ht hws hit))
  omega

end Spread

end NodeAccess.Foundation
