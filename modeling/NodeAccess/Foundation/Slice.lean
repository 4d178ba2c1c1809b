import Mathlib.Tactic

/-! # Checked access to slices

An index or a range past the end of a slice, and a copy between slices of different
lengths, have no result: there the program would panic.
-/

namespace NodeAccess.Foundation.Slice

variable {α : Type*}

def index (slice : List α) (i : ℕ) : Option α := slice[i]?

def range (slice : List α) (start stop : ℕ) : Option (List α) :=
  if start ≤ stop ∧ stop ≤ slice.length then some ((slice.take stop).drop start) else none

def rangeFrom (slice : List α) (start : ℕ) : Option (List α) := range slice start slice.length

/-- A slice as an array of that length. -/
def toArray (width : ℕ) (slice : List α) : Option (List α) :=
  if slice.length = width then some slice else none

variable {slice : List α} {start stop : ℕ}

theorem index_zero (h : 0 < slice.length) (other : α) :
    index slice 0 = some (slice.headD other) := by
  cases slice with
  | nil => simp at h
  | cons a rest => simp [index]

theorem range_eq_some (h : start ≤ stop) (hstop : stop ≤ slice.length) :
    range slice start stop = some ((slice.drop start).take (stop - start)) := by
  rw [range, if_pos ⟨h, hstop⟩, List.drop_take]

theorem rangeFrom_eq_some (h : start ≤ slice.length) :
    rangeFrom slice start = some (slice.drop start) := by
  rw [rangeFrom, range, if_pos ⟨h, le_rfl⟩, List.take_length]

/-- A range of the right length is that array. -/
theorem toArray_take_drop (start : ℕ) (hstop : stop ≤ slice.length) :
    toArray (stop - start) ((slice.drop start).take (stop - start)) =
      some ((slice.drop start).take (stop - start)) := by
  apply if_pos
  simp only [List.length_take, List.length_drop]
  omega

end NodeAccess.Foundation.Slice
