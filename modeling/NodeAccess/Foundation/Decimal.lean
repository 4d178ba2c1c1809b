import Mathlib.Tactic

/-! # Unsigned decimal numbers in texts

`str::parse` of an unsigned integer type: an optional plus sign, then digits only, and a value that
fits the type. What `to_string` writes is read back.
-/

namespace NodeAccess.Foundation

inductive ParseIntError where
  | empty
  | invalidDigit
  | posOverflow
deriving DecidableEq, Repr

def ParseIntError.text : ParseIntError → String
  | .empty => "cannot parse integer from empty string"
  | .invalidDigit => "invalid digit found in string"
  | .posOverflow => "number too large to fit in target type"

/-- The digits that follow a number of value `n`, in a type of `bits` bits. -/
def parseDigits (bits : ℕ) : ℕ → List Char → Except ParseIntError ℕ
  | n, [] => .ok n
  | n, c :: cs =>
    if c.isDigit then
      let next := 10 * n + (c.toNat - 48)
      if next < 2 ^ bits then parseDigits bits next cs else .error .posOverflow
    else .error .invalidDigit

def parseUnsigned (bits : ℕ) (text : String) : Except ParseIntError ℕ :=
  match text.toList with
  | [] => .error .empty
  | ['+'] => .error .invalidDigit
  | '+' :: cs => parseDigits bits 0 cs
  | cs => parseDigits bits 0 cs

theorem parseDigits_append (bits : ℕ) (cs ds : List Char) (n : ℕ) :
    parseDigits bits n (cs ++ ds) = (parseDigits bits n cs).bind fun m =>
      parseDigits bits m ds := by
  induction cs generalizing n with
  | nil => rfl
  | cons c cs ih =>
    simp only [List.cons_append, parseDigits]
    split_ifs
    · exact ih _
    · rfl
    · rfl

theorem digitChar_spec {d : ℕ} (hd : d < 10) :
    (Nat.digitChar d).isDigit = true ∧ (Nat.digitChar d).toNat - 48 = d := by
  revert d
  decide

theorem parseDigits_toDigits {bits n : ℕ} (h : n < 2 ^ bits) :
    parseDigits bits 0 (Nat.toDigits 10 n) = .ok n := by
  induction n using Nat.strong_induction_on with
  | _ n ih =>
    have hdigit := digitChar_spec (Nat.mod_lt n (by omega : 0 < 10))
    have hvalue : 10 * (n / 10) + n % 10 = n := Nat.div_add_mod n 10
    by_cases hn : n < 10
    · rw [Nat.toDigits_of_lt_base hn]
      rw [Nat.mod_eq_of_lt hn] at hdigit
      simp [parseDigits, hdigit, h]
    · rw [Nat.toDigits_of_base_le (by omega) (by omega), parseDigits_append,
        ih (n / 10) (by omega) (by omega)]
      change parseDigits bits (n / 10) [Nat.digitChar (n % 10)] = .ok n
      simp [parseDigits, hdigit, hvalue, h]

theorem parseUnsigned_toString {bits n : ℕ} (h : n < 2 ^ bits) :
    parseUnsigned bits (toString n) = .ok n := by
  have hdigits := parseDigits_toDigits h
  have hall : ∀ c ∈ Nat.toDigits 10 n, c.isDigit = true :=
    fun c hc => Nat.isDigit_of_mem_toDigits (by omega) le_rfl hc
  have hne : Nat.toDigits 10 n ≠ [] := Nat.toDigits_ne_nil
  unfold parseUnsigned
  rw [Nat.toString_eq_repr, Nat.toList_repr]
  split
  · contradiction
  · rename_i hs
    have hplus := hall '+' (by rw [hs]; exact List.mem_cons_self)
    cases hplus
  · rename_i cs _ hs
    have hplus := hall '+' (by rw [hs]; exact List.mem_cons_self)
    cases hplus
  · exact hdigits

theorem parseDigits_lt {bits m : ℕ} {cs : List Char} {n : ℕ} (hn : n < 2 ^ bits)
    (h : parseDigits bits n cs = .ok m) : m < 2 ^ bits := by
  induction cs generalizing n with
  | nil => exact Except.ok.inj h ▸ hn
  | cons c cs ih =>
    simp only [parseDigits] at h
    split_ifs at h with hdigit hlt
    exact ih hlt h

/-- What is accepted fits the type. -/
theorem parseUnsigned_lt {bits n : ℕ} {text : String} (h : parseUnsigned bits text = .ok n) :
    n < 2 ^ bits := by
  have hpos : 0 < 2 ^ bits := Nat.two_pow_pos bits
  unfold parseUnsigned at h
  split at h
  · cases h
  · cases h
  · exact parseDigits_lt hpos h
  · exact parseDigits_lt hpos h

end NodeAccess.Foundation
