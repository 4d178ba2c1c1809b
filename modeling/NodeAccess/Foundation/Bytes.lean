import Mathlib.Tactic

/-! # Numbers as bytes

Fixed-width big-endian numerals and the bytes of a text.
-/

namespace NodeAccess.Foundation

/-- The low `width` bytes of a number, the most significant one first. -/
def toBeBytes : ℕ → ℕ → List UInt8
  | 0, _ => []
  | width + 1, n => toBeBytes width (n / 256) ++ [UInt8.ofNat n]

def fromBeBytes (bytes : List UInt8) : ℕ := bytes.foldl (fun n b => n * 256 + b.toNat) 0

def asBytes (text : String) : List UInt8 := text.toUTF8.data.toList

/-- The text of a byte string, when it is valid UTF-8. -/
def fromUtf8 (bytes : List UInt8) : Option String := String.fromUTF8? ⟨bytes.toArray⟩

theorem fromUtf8_asBytes (text : String) : fromUtf8 (asBytes text) = some text := by
  have h : (⟨(asBytes text).toArray⟩ : ByteArray) = text.toUTF8 := by simp [asBytes]
  have hv : text.toUTF8.IsValidUTF8 := text.isValidUTF8
  rw [fromUtf8, h, String.fromUTF8?, dif_pos hv]
  rfl

@[simp] theorem length_toBeBytes (width n : ℕ) : (toBeBytes width n).length = width := by
  induction width generalizing n with
  | zero => rfl
  | succ width ih => simp [toBeBytes, ih]

theorem fromBeBytes_append_singleton (bytes : List UInt8) (b : UInt8) :
    fromBeBytes (bytes ++ [b]) = fromBeBytes bytes * 256 + b.toNat := by
  simp [fromBeBytes]

theorem fromBeBytes_toBeBytes {width n : ℕ} (h : n < 256 ^ width) :
    fromBeBytes (toBeBytes width n) = n := by
  induction width generalizing n with
  | zero =>
    have hn : n = 0 := by simpa using h
    rw [hn]
    rfl
  | succ width ih =>
    have hdiv : n / 256 < 256 ^ width := by
      apply Nat.div_lt_of_lt_mul
      rw [pow_succ] at h
      omega
    have hmod : (UInt8.ofNat n).toNat = n % 256 := UInt8.toNat_ofNat'
    rw [toBeBytes, fromBeBytes_append_singleton, ih hdiv, hmod]
    omega

/-- Numbers that fit are told apart by their bytes. -/
theorem toBeBytes_injective {width m n : ℕ} (hm : m < 256 ^ width) (hn : n < 256 ^ width)
    (h : toBeBytes width m = toBeBytes width n) : m = n := by
  rw [← fromBeBytes_toBeBytes hm, h, fromBeBytes_toBeBytes hn]

end NodeAccess.Foundation
