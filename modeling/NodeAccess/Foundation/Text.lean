import Mathlib.Data.List.DropRight
import Mathlib.Tactic

/-! # Text as the programs treat it

`str::trim` removes the characters with the Unicode property White_Space from
both ends of a string. `str::splitn` cuts a string at a separator into at most a
given number of pieces, the last of which keeps its separators. `strip_prefix`,
`ends_with` and `trim_end_matches` look at one end of a string.
-/

namespace NodeAccess.Foundation

/-- The Unicode property White_Space. -/
def isWhitespace (c : Char) : Bool :=
  (0x09 ≤ c.toNat && c.toNat ≤ 0x0D) || (0x2000 ≤ c.toNat && c.toNat ≤ 0x200A) ||
    [0x20, 0x85, 0xA0, 0x1680, 0x2028, 0x2029, 0x202F, 0x205F, 0x3000].contains c.toNat

def trim (s : String) : String :=
  String.ofList ((s.toList.dropWhile isWhitespace).rdropWhile isWhitespace)

theorem trim_trim (s : String) : trim (trim s) = trim s := by
  have hfirst : ((s.toList.dropWhile isWhitespace).rdropWhile isWhitespace).dropWhile isWhitespace =
      (s.toList.dropWhile isWhitespace).rdropWhile isWhitespace := by
    rw [List.dropWhile_eq_self_iff]
    intro hl
    have hstart := List.rdropWhile_prefix isWhitespace (s.toList.dropWhile isWhitespace)
    rw [hstart.getElem hl]
    exact List.dropWhile_get_zero_not isWhitespace s.toList (hl.trans_le hstart.length_le)
  unfold trim
  rw [String.toList_ofList, hfirst, List.rdropWhile_idempotent]

def splitChars (sep : Char) : ℕ → List Char → List (List Char)
  | 0, _ => []
  | 1, cs => [cs]
  | n + 2, cs =>
    match cs.dropWhile (· ≠ sep) with
    | [] => [cs]
    | _ :: rest => cs.takeWhile (· ≠ sep) :: splitChars sep (n + 1) rest

def splitn (n : ℕ) (sep : Char) (s : String) : List String :=
  (splitChars sep n s.toList).map String.ofList

/-- The first piece ends at the first separator, or at the end of the text. -/
theorem splitChars_eq_cons_iff {sep : Char} {n : ℕ} {cs p : List Char} {ps : List (List Char)} :
    splitChars sep (n + 2) cs = p :: ps ↔
      sep ∉ p ∧ ((cs = p ∧ ps = []) ∨
        ∃ rest, cs = p ++ sep :: rest ∧ ps = splitChars sep (n + 1) rest) := by
  rw [splitChars]
  constructor
  · intro h
    cases hd : cs.dropWhile (· ≠ sep) with
    | nil =>
      rw [hd, List.cons.injEq] at h
      obtain ⟨rfl, rfl⟩ := h
      rw [List.dropWhile_eq_nil_iff] at hd
      refine ⟨fun hm => ?_, .inl ⟨rfl, rfl⟩⟩
      simpa using hd sep hm
    | cons c rest =>
      rw [hd, List.cons.injEq] at h
      obtain ⟨rfl, rfl⟩ := h
      have hc : c = sep := by
        have hnot := List.head?_dropWhile_not (· ≠ sep) cs
        rw [hd, List.head?_cons] at hnot
        simpa using hnot
      have hcut := List.takeWhile_append_dropWhile (p := (· ≠ sep)) (l := cs)
      rw [hd, hc] at hcut
      refine ⟨fun hm => ?_, .inr ⟨rest, hcut.symm, rfl⟩⟩
      simpa using List.mem_takeWhile_imp hm
  · rintro ⟨hp, ⟨rfl, rfl⟩ | ⟨rest, rfl, rfl⟩⟩
    · have hd : cs.dropWhile (· ≠ sep) = [] := by
        rw [List.dropWhile_eq_nil_iff]
        intro c hc
        have hne : c ≠ sep := fun he => hp (he ▸ hc)
        simpa using hne
      rw [hd]
    · have hall : ∀ c ∈ p, decide (c ≠ sep) = true := by
        intro c hc
        have hne : c ≠ sep := fun he => hp (he ▸ hc)
        simpa using hne
      rw [List.dropWhile_append_of_pos hall, List.takeWhile_append_of_pos hall]
      simp

theorem splitn_one (sep : Char) (s : String) : splitn 1 sep s = [s] := by
  simp [splitn, splitChars]

theorem splitn_eq_cons_iff {sep : Char} {n : ℕ} {s p : String} {ps : List String} :
    splitn (n + 2) sep s = p :: ps ↔
      sep ∉ p.toList ∧ ((s = p ∧ ps = []) ∨
        ∃ rest, s = p ++ String.singleton sep ++ rest ∧ ps = splitn (n + 1) sep rest) := by
  have hinj : ∀ (qs : List (List Char)) (rs : List String),
      qs.map String.ofList = rs ↔ qs = rs.map String.toList := by
    intro qs rs
    constructor
    · rintro rfl
      simp [Function.comp_def]
    · rintro rfl
      simp [Function.comp_def]
  rw [splitn, hinj, List.map_cons, splitChars_eq_cons_iff]
  apply and_congr_right'
  apply or_congr
  · rw [String.toList_inj, List.map_eq_nil_iff]
  · constructor
    · rintro ⟨rest, hs, hps⟩
      refine ⟨String.ofList rest, ?_, ?_⟩
      · rw [← String.toList_inj, hs]
        simp
      · rw [splitn, String.toList_ofList, eq_comm, hinj, hps]
    · rintro ⟨rest, rfl, rfl⟩
      refine ⟨rest.toList, by simp, ?_⟩
      rw [eq_comm, ← hinj, splitn]

/-! ## One end of a text -/

def trimEndMatches (c : Char) (s : String) : String := String.ofList (s.toList.rdropWhile (· = c))

def stripPrefix (start s : String) : Option String :=
  (s.toList.dropPrefix? start.toList).map String.ofList

def endsWith (tail s : String) : Bool := tail.toList.isSuffixOf s.toList

theorem endsWith_iff {tail s : String} : endsWith tail s = true ↔ tail.toList <:+ s.toList :=
  List.isSuffixOf_iff_suffix

theorem trimEndMatches_append {c : Char} {s : String} (h : s.toList.getLast? ≠ some c) (n : ℕ) :
    trimEndMatches c (s ++ String.ofList (List.replicate n c)) = s := by
  rw [trimEndMatches, String.toList_append, String.toList_ofList]
  induction n with
  | zero =>
    have hself : s.toList.rdropWhile (· = c) = s.toList := by
      rw [List.rdropWhile_eq_self_iff]
      intro hl hlast
      rw [decide_eq_true_eq] at hlast
      exact h (by rw [List.getLast?_eq_some_getLast hl, hlast])
    simp [hself]
  | succ n ih =>
    rw [List.replicate_succ', ← List.append_assoc, List.rdropWhile_concat_pos]
    · exact ih
    · simp

theorem stripPrefix_append (start s : String) : stripPrefix start (start ++ s) = some s := by
  rw [stripPrefix, String.toList_append, List.dropPrefix?_append_of_beq _ (beq_self_eq_true _)]
  simp

theorem stripPrefix_eq_none {start s : String} (h : ¬ start.toList <+: s.toList) :
    stripPrefix start s = none := by
  rw [stripPrefix, Option.map_eq_none_iff, Option.eq_none_iff_forall_ne_some]
  intro rest hrest
  obtain ⟨start', hs, he⟩ := List.dropPrefix?_eq_some_iff.mp hrest
  apply h
  rw [hs, eq_of_beq he]
  exact List.prefix_append _ _

end NodeAccess.Foundation
