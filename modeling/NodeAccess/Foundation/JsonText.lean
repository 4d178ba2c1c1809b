import Mathlib.Data.List.TakeWhile
import NodeAccess.Foundation.Json

/-! # A printer and a parser of JSON texts

The compact printer writes what serde_json writes for the same value, and the parser
reads the grammar of JSON with four-digit escapes of single code units. Printing a value
and parsing the text gives the value back.
-/

namespace NodeAccess.Foundation

namespace JsonText

/-! ## Strings -/

/-- `escape` leaves every character alone but the quote, the backslash and the control codes. -/
def escape (c : Char) : List Char :=
  if c = '"' then ['\\', '"']
  else if c = '\\' then ['\\', '\\']
  else if c = '\n' then ['\\', 'n']
  else if c = '\r' then ['\\', 'r']
  else if c = '\t' then ['\\', 't']
  else if c = '\x08' then ['\\', 'b']
  else if c = '\x0c' then ['\\', 'f']
  else if c.toNat < 32 then
    ['\\', 'u', '0', '0', Nat.digitChar (c.toNat / 16), Nat.digitChar (c.toNat % 16)]
  else [c]

def printString (value : String) : List Char := '"' :: (value.toList.flatMap escape ++ ['"'])

def hexValue (c : Char) : Option ℕ :=
  if c.isDigit then some (c.toNat - 48)
  else if 97 ≤ c.toNat ∧ c.toNat ≤ 102 then some (c.toNat - 87)
  else if 65 ≤ c.toNat ∧ c.toNat ≤ 70 then some (c.toNat - 55)
  else none

/-- The character that a four-digit escape denotes. A half of a surrogate pair denotes none. -/
def hexChar (a b c d : Char) : Option Char := do
  let code := (← hexValue a) * 4096 + (← hexValue b) * 256 + (← hexValue c) * 16 + (← hexValue d)
  if code < 55296 ∨ 57343 < code then some (Char.ofNat code) else none

/-- The body of a string up to its closing quote, and what follows the quote. -/
def parseBody : List Char → Option (List Char × List Char)
  | [] => none
  | '"' :: rest => some ([], rest)
  | '\\' :: '"' :: rest => (parseBody rest).map fun r => ('"' :: r.1, r.2)
  | '\\' :: '\\' :: rest => (parseBody rest).map fun r => ('\\' :: r.1, r.2)
  | '\\' :: '/' :: rest => (parseBody rest).map fun r => ('/' :: r.1, r.2)
  | '\\' :: 'n' :: rest => (parseBody rest).map fun r => ('\n' :: r.1, r.2)
  | '\\' :: 'r' :: rest => (parseBody rest).map fun r => ('\r' :: r.1, r.2)
  | '\\' :: 't' :: rest => (parseBody rest).map fun r => ('\t' :: r.1, r.2)
  | '\\' :: 'b' :: rest => (parseBody rest).map fun r => ('\x08' :: r.1, r.2)
  | '\\' :: 'f' :: rest => (parseBody rest).map fun r => ('\x0c' :: r.1, r.2)
  | '\\' :: 'u' :: a :: b :: c :: d :: rest =>
    (hexChar a b c d).bind fun x => (parseBody rest).map fun r => (x :: r.1, r.2)
  | '\\' :: _ => none
  | c :: rest => if c.toNat < 32 then none else (parseBody rest).map fun r => (c :: r.1, r.2)

/-! ## Numbers -/

def isNumberChar (c : Char) : Bool :=
  c.isDigit || c == '-' || c == '+' || c == '.' || c == 'e' || c == 'E'

def exponentOk : List Char → Bool
  | [] => true
  | c :: cs =>
    let digits := match cs with
      | '+' :: ds => ds
      | '-' :: ds => ds
      | ds => ds
    (c == 'e' || c == 'E') && !digits.isEmpty && digits.all Char.isDigit

def fractionOk : List Char → Bool
  | '.' :: cs => !(cs.takeWhile Char.isDigit).isEmpty && exponentOk (cs.dropWhile Char.isDigit)
  | cs => exponentOk cs

def unsignedOk (cs : List Char) : Bool :=
  let digits := cs.takeWhile Char.isDigit
  (digits == ['0'] || digits.head?.any (· != '0')) && fractionOk (cs.dropWhile Char.isDigit)

def numberOk : List Char → Bool
  | '-' :: cs => unsignedOk cs
  | cs => unsignedOk cs

/-! ## Values -/

mutual

def print : Json → List Char
  | .null => ['n', 'u', 'l', 'l']
  | .bool true => ['t', 'r', 'u', 'e']
  | .bool false => ['f', 'a', 'l', 's', 'e']
  | .number literal => literal.toList
  | .string value => printString value
  | .array elements => '[' :: printElements elements
  | .object fields => '\x7b' :: printFields fields

/-- The elements with their separators and the closing bracket. -/
def printElements : List Json → List Char
  | [] => [']']
  | [json] => print json ++ [']']
  | json :: next :: rest => print json ++ ',' :: printElements (next :: rest)

def printFields : List (String × Json) → List Char
  | [] => ['\x7d']
  | [(key, json)] => printString key ++ ':' :: (print json ++ ['\x7d'])
  | (key, json) :: next :: rest =>
    printString key ++ ':' :: (print json ++ ',' :: printFields (next :: rest))

end

def isSpace (c : Char) : Bool := c == ' ' || c == '\n' || c == '\r' || c == '\t'

def skipSpace (cs : List Char) : List Char := cs.dropWhile isSpace

mutual

/-- The value at the head of the text. The fuel bounds the depth and the length. -/
def parseValue : ℕ → List Char → Option (Json × List Char)
  | 0, _ => none
  | fuel + 1, cs =>
    match skipSpace cs with
    | 'n' :: 'u' :: 'l' :: 'l' :: rest => some (.null, rest)
    | 't' :: 'r' :: 'u' :: 'e' :: rest => some (.bool true, rest)
    | 'f' :: 'a' :: 'l' :: 's' :: 'e' :: rest => some (.bool false, rest)
    | '"' :: rest => (parseBody rest).map fun r => (.string (String.ofList r.1), r.2)
    | '[' :: rest =>
      match skipSpace rest with
      | ']' :: rest => some (.array [], rest)
      | rest => (parseElements fuel rest).map fun r => (.array r.1, r.2)
    | '\x7b' :: rest =>
      match skipSpace rest with
      | '\x7d' :: rest => some (.object [], rest)
      | rest => (parseFields fuel rest).map fun r => (.object r.1, r.2)
    | rest =>
      let literal := rest.takeWhile isNumberChar
      if numberOk literal then
        some (.number (String.ofList literal), rest.dropWhile isNumberChar)
      else none

def parseElements : ℕ → List Char → Option (List Json × List Char)
  | 0, _ => none
  | fuel + 1, cs =>
    (parseValue fuel cs).bind fun (json, rest) =>
      match skipSpace rest with
      | ']' :: rest => some ([json], rest)
      | ',' :: rest => (parseElements fuel rest).map fun r => (json :: r.1, r.2)
      | _ => none

def parseFields : ℕ → List Char → Option (List (String × Json) × List Char)
  | 0, _ => none
  | fuel + 1, cs =>
    match skipSpace cs with
    | '"' :: rest =>
      (parseBody rest).bind fun (key, rest) =>
        match skipSpace rest with
        | ':' :: rest =>
          (parseValue fuel rest).bind fun (json, rest) =>
            match skipSpace rest with
            | '\x7d' :: rest => some ([(String.ofList key, json)], rest)
            | ',' :: rest =>
              (parseFields fuel rest).map fun r => ((String.ofList key, json) :: r.1, r.2)
            | _ => none
        | _ => none
    | _ => none

end

def fromStr (text : String) : Option Json :=
  let cs := text.toList
  (parseValue (cs.length + 1) cs).bind fun (json, rest) =>
    if (skipSpace rest).isEmpty then some json else none

/-! ## Reading back what was printed -/

theorem hexValue_digitChar : ∀ d < 16, hexValue (Nat.digitChar d) = some d := by decide

theorem parseBody_escape (c : Char) (rest : List Char) :
    parseBody (escape c ++ rest) = (parseBody rest).map fun r => (c :: r.1, r.2) := by
  unfold escape
  by_cases h₁ : c = '"'
  · subst h₁
    simp [parseBody]
  by_cases h₂ : c = '\\'
  · subst h₂
    simp [parseBody]
  by_cases h₃ : c = '\n'
  · subst h₃
    simp [parseBody]
  by_cases h₄ : c = '\r'
  · subst h₄
    simp [parseBody]
  by_cases h₅ : c = '\t'
  · subst h₅
    simp [parseBody]
  by_cases h₆ : c = '\x08'
  · subst h₆
    simp [parseBody]
  by_cases h₇ : c = '\x0c'
  · subst h₇
    simp [parseBody]
  simp only [h₁, h₂, h₃, h₄, h₅, h₆, h₇, if_false]
  by_cases h₈ : c.toNat < 32
  · have hx : hexChar '0' '0' (Nat.digitChar (c.toNat / 16)) (Nat.digitChar (c.toNat % 16)) =
        some c := by
      have hc : c.toNat / 16 * 16 + c.toNat % 16 = c.toNat := by omega
      simp [hexChar, hexValue_digitChar (c.toNat / 16) (by omega),
        hexValue_digitChar (c.toNat % 16) (by omega), show hexValue '0' = some 0 by decide, hc,
        show c.toNat < 55296 by omega]
    simp [h₈, parseBody, hx]
  · rw [if_neg h₈, List.singleton_append, parseBody]
    · rw [if_neg h₈]
    all_goals simp_all

theorem parseBody_print (value : List Char) (rest : List Char) :
    parseBody (value.flatMap escape ++ '"' :: rest) = some (value, rest) := by
  induction value with
  | nil => simp [parseBody]
  | cons c value ih =>
    rw [List.flatMap_cons, List.append_assoc, parseBody_escape, ih]
    rfl

/-- A literal that the parser takes whole. -/
def IsLiteral (literal : String) : Prop :=
  numberOk literal.toList = true ∧ ∀ c ∈ literal.toList, isNumberChar c = true

/-- Every number in the value is written as a literal. -/
inductive Printable : Json → Prop
  | null : Printable .null
  | bool (value : Bool) : Printable (.bool value)
  | number {literal : String} : IsLiteral literal → Printable (.number literal)
  | string (value : String) : Printable (.string value)
  | array {elements : List Json} : (∀ json ∈ elements, Printable json) → Printable (.array elements)
  | object {fields : List (String × Json)} :
      (∀ field ∈ fields, Printable field.2) → Printable (.object fields)

/-- What follows a value in a text does not continue a number. -/
def EndsNumber (rest : List Char) : Prop := ∀ c ∈ rest.head?, isNumberChar c = false

theorem takeWhile_literal {literal rest : List Char} (h : ∀ c ∈ literal, isNumberChar c = true)
    (hr : EndsNumber rest) : (literal ++ rest).takeWhile isNumberChar = literal ∧
      (literal ++ rest).dropWhile isNumberChar = rest := by
  have hrest : rest.takeWhile isNumberChar = [] ∧ rest.dropWhile isNumberChar = rest := by
    cases rest with
    | nil => exact ⟨rfl, rfl⟩
    | cons c rest =>
      have hc := hr c rfl
      simp [hc]
  rw [List.takeWhile_append_of_pos h, List.dropWhile_append_of_pos h, hrest.1, hrest.2]
  simp

/-- A literal starts with a character that starts no other value. -/
theorem numberOk_cons {literal : List Char} (h : numberOk literal = true) :
    ∃ c tail, literal = c :: tail ∧ (c = '-' ∨ c.isDigit = true) := by
  cases literal with
  | nil => simp [numberOk, unsignedOk] at h
  | cons c tail =>
    refine ⟨c, tail, rfl, ?_⟩
    by_cases hc : c = '-'
    · exact .inl hc
    by_cases hd : c.isDigit = true
    · exact .inr hd
    rw [numberOk] at h
    · simp [unsignedOk, hd] at h
    · simp [hc]

theorem isSpace_of_isDigit {c : Char} (h : c = '-' ∨ c.isDigit = true) : isSpace c = false := by
  rcases h with rfl | hd
  · rfl
  · simp only [Char.isDigit, Bool.and_eq_true, decide_eq_true_eq] at hd
    simp only [isSpace, Bool.or_eq_false_iff, beq_eq_false_iff_ne]
    refine ⟨⟨⟨?_, ?_⟩, ?_⟩, ?_⟩ <;> (rintro rfl; revert hd; decide)

theorem parseValue_literal {literal rest : List Char} (fuel : ℕ) (h : numberOk literal = true)
    (hall : ∀ c ∈ literal, isNumberChar c = true) (hr : EndsNumber rest) :
    parseValue (fuel + 1) (literal ++ rest) = some (.number (String.ofList literal), rest) := by
  rcases numberOk_cons h with ⟨c, tail, rfl, hc⟩
  have hspace : skipSpace (c :: tail ++ rest) = c :: tail ++ rest := by
    simp [skipSpace, isSpace_of_isDigit hc]
  have hne : ∀ d, d = 'n' ∨ d = 't' ∨ d = 'f' ∨ d = '"' ∨ d = '[' ∨ d = '\x7b' → c ≠ d := by
    rintro d hd rfl
    rcases hd with rfl | rfl | rfl | rfl | rfl | rfl <;> simp_all [Char.isDigit]
  have htake := takeWhile_literal hall hr
  rw [parseValue, hspace]
  split
  case h_7 => rw [htake.1, htake.2, if_pos h]
  all_goals
    rename_i heq
    simp only [List.cons_append, List.cons.injEq] at heq
    exact absurd heq.1 (hne _ (by simp))

/-- The parser reads the value back, with fuel for its length. -/
def Reads (json : Json) : Prop :=
  ∀ fuel rest, (print json).length ≤ fuel → EndsNumber rest →
    parseValue fuel (print json ++ rest) = some (json, rest)

theorem print_head {json : Json} (h : Printable json) :
    ∃ c tail, print json = c :: tail ∧ isSpace c = false ∧ c ≠ ']' := by
  cases h with
  | null => exact ⟨_, _, rfl, rfl, by decide⟩
  | bool value => cases value <;> exact ⟨_, _, rfl, rfl, by decide⟩
  | number hl =>
    rcases numberOk_cons hl.1 with ⟨c, tail, he, hc⟩
    refine ⟨c, tail, he, isSpace_of_isDigit hc, ?_⟩
    rintro rfl
    simp [Char.isDigit] at hc
  | string value => exact ⟨_, _, rfl, rfl, by decide⟩
  | array _ => exact ⟨_, _, rfl, rfl, by decide⟩
  | object _ => exact ⟨_, _, rfl, rfl, by decide⟩

theorem endsNumber_cons {c : Char} {rest : List Char} (h : isNumberChar c = false) :
    EndsNumber (c :: rest) := by
  intro d hd
  obtain rfl : c = d := by simpa using hd
  exact h

theorem parseElements_print {elements : List Json} (h : ∀ json ∈ elements, Reads json)
    (hne : elements ≠ []) {fuel : ℕ} {rest : List Char}
    (hf : (printElements elements).length ≤ fuel) :
    parseElements fuel (printElements elements ++ rest) = some (elements, rest) := by
  induction elements generalizing fuel with
  | nil => exact absurd rfl hne
  | cons json elements ih =>
    have hjson := h json (by simp)
    cases elements with
    | nil =>
      rw [printElements, List.length_append, List.length_singleton] at hf
      obtain ⟨fuel, rfl⟩ : ∃ n, fuel = n + 1 := ⟨fuel - 1, by omega⟩
      have hread := hjson fuel (']' :: rest) (by omega) (endsNumber_cons rfl)
      rw [printElements, List.append_assoc, List.singleton_append, parseElements, hread]
      rfl
    | cons next elements =>
      rw [printElements, List.length_append, List.length_cons] at hf
      obtain ⟨fuel, rfl⟩ : ∃ n, fuel = n + 1 := ⟨fuel - 1, by omega⟩
      have htail : parseElements fuel (printElements (next :: elements) ++ rest) =
          some (next :: elements, rest) :=
        ih (fun other hm => h other (List.mem_cons_of_mem _ hm)) (by simp) (by omega)
      rw [printElements, List.append_assoc, List.cons_append, parseElements,
        hjson fuel _ (by omega) (endsNumber_cons rfl)]
      simp only [Option.bind_some,
        show skipSpace (',' :: (printElements (next :: elements) ++ rest))
        = ',' :: (printElements (next :: elements) ++ rest) from rfl]
      rw [htail]
      rfl

theorem parseFields_print {fields : List (String × Json)}
    (h : ∀ field ∈ fields, Reads field.2) (hne : fields ≠ []) {fuel : ℕ} {rest : List Char}
    (hf : (printFields fields).length ≤ fuel) :
    parseFields fuel (printFields fields ++ rest) = some (fields, rest) := by
  induction fields generalizing fuel with
  | nil => exact absurd rfl hne
  | cons field fields ih =>
    rcases field with ⟨key, json⟩
    have hjson : Reads json := h (key, json) (by simp)
    have hkey : ∀ tail, parseBody (key.toList.flatMap escape ++ '"' :: ':' :: tail) =
        some (key.toList, ':' :: tail) := fun tail => parseBody_print _ _
    cases fields with
    | nil =>
      rw [printFields, List.length_append, List.length_cons, List.length_append,
        List.length_singleton] at hf
      obtain ⟨fuel, rfl⟩ : ∃ n, fuel = n + 1 := ⟨fuel - 1, by omega⟩
      have hread := hjson fuel ('\x7d' :: rest) (by omega) (endsNumber_cons rfl)
      rw [printFields, printString, parseFields]
      simp [skipSpace, isSpace, hkey, hread]
    | cons next fields =>
      rw [printFields, List.length_append, List.length_cons, List.length_append,
        List.length_cons] at hf
      obtain ⟨fuel, rfl⟩ : ∃ n, fuel = n + 1 := ⟨fuel - 1, by omega⟩
      have htail : parseFields fuel (printFields (next :: fields) ++ rest) =
          some (next :: fields, rest) :=
        ih (fun other hm => h other (List.mem_cons_of_mem _ hm)) (by simp) (by omega)
      have hread := hjson fuel (',' :: (printFields (next :: fields) ++ rest)) (by omega)
        (endsNumber_cons rfl)
      rw [printFields, printString, parseFields]
      simp [skipSpace, isSpace, hkey, hread, htail]

theorem fuel_succ {c : Char} {tail : List Char} {fuel : ℕ} (h : (c :: tail).length ≤ fuel) :
    ∃ n, fuel = n + 1 := by
  rw [List.length_cons] at h
  exact ⟨fuel - 1, by omega⟩

/-- Parsing inverts printing. -/
theorem reads_of_printable {json : Json} (h : Printable json) : Reads json := by
  induction h with
  | null =>
    intro fuel rest hf _
    obtain ⟨n, rfl⟩ := fuel_succ hf
    rfl
  | bool value =>
    intro fuel rest hf _
    cases value <;>
    · obtain ⟨n, rfl⟩ := fuel_succ hf
      rfl
  | number hl =>
    intro fuel rest hf hr
    rw [print] at hf ⊢
    rcases numberOk_cons hl.1 with ⟨c, tail, he, -⟩
    rw [he, List.length_cons] at hf
    obtain ⟨n, rfl⟩ : ∃ n, fuel = n + 1 := ⟨fuel - 1, by omega⟩
    rw [parseValue_literal n hl.1 hl.2 hr, String.ofList_toList]
  | string value =>
    intro fuel rest hf _
    obtain ⟨n, rfl⟩ := fuel_succ hf
    have hbody := parseBody_print value.toList rest
    simp [print, printString, parseValue, skipSpace, isSpace, hbody]
  | @array elements hp ih =>
    intro fuel rest hf _
    obtain ⟨n, rfl⟩ := fuel_succ hf
    cases elements with
    | nil => simp [print, printElements, parseValue, skipSpace, isSpace]
    | cons json elements =>
      rw [print, List.length_cons] at hf
      have hread : parseElements n (printElements (json :: elements) ++ rest) =
          some (json :: elements, rest) :=
        parseElements_print ih (by simp) (Nat.le_of_succ_le_succ hf)
      rcases print_head (hp json (by simp)) with ⟨c, tail, hc, hspace, hne⟩
      have hhead : ∃ tail', printElements (json :: elements) = c :: tail' := by
        cases elements <;> simp [printElements, hc]
      rcases hhead with ⟨tail', ht⟩
      rw [ht, List.cons_append] at hread
      have hs : skipSpace (c :: (tail' ++ rest)) = c :: (tail' ++ rest) := by
        simp [skipSpace, hspace]
      rw [print, ht, List.cons_append, List.cons_append, parseValue]
      simp only [show skipSpace ('[' :: c :: (tail' ++ rest)) =
        '[' :: c :: (tail' ++ rest) from rfl, hs]
      split
      · rename_i heq
        exact absurd (List.cons.inj heq).1 hne
      · rw [hread]
        rfl
  | @object fields hp ih =>
    intro fuel rest hf _
    obtain ⟨n, rfl⟩ := fuel_succ hf
    cases fields with
    | nil => simp [print, printFields, parseValue, skipSpace, isSpace]
    | cons field fields =>
      rw [print, List.length_cons] at hf
      have hread : parseFields n (printFields (field :: fields) ++ rest) =
          some (field :: fields, rest) :=
        parseFields_print ih (by simp) (Nat.le_of_succ_le_succ hf)
      have hhead : ∃ tail, printFields (field :: fields) = '"' :: tail := by
        cases fields <;> simp [printFields, printString]
      rcases hhead with ⟨tail, ht⟩
      rw [ht, List.cons_append] at hread
      rw [print, ht, List.cons_append, List.cons_append, parseValue]
      simp [skipSpace, isSpace, hread]

theorem fromStr_print {json : Json} (h : Printable json) :
    fromStr (String.ofList (print json)) = some json := by
  have hread := reads_of_printable h ((print json).length + 1) [] (Nat.le_succ _)
    (fun c hc => by cases hc)
  rw [List.append_nil] at hread
  rw [fromStr, String.toList_ofList, hread, Option.bind_some]
  exact if_pos rfl

/-- The digits of a positive number do not start with a zero. -/
theorem toDigits_head (n : ℕ) (h : 0 < n) :
    (Nat.toDigits 10 n).head?.any (· != '0') = true := by
  induction n using Nat.strong_induction_on with
  | _ n ih =>
    by_cases hn : n < 10
    · rw [Nat.toDigits_of_lt_base hn]
      interval_cases n <;> decide
    · have hd := ih (n / 10) (by omega) (by omega)
      rw [Nat.toDigits_of_base_le (by decide) (by omega)]
      cases ht : Nat.toDigits 10 (n / 10) with
      | nil => exact absurd ht Nat.toDigits_ne_nil
      | cons c tail => simpa [ht] using hd

theorem isLiteral_toString (n : ℕ) : IsLiteral (toString n) := by
  have hdigit : ∀ c ∈ Nat.toDigits 10 n, c.isDigit = true := fun c hc =>
    Nat.isDigit_of_mem_toDigits (by decide) (by decide) hc
  have hlist : (toString n).toList = Nat.toDigits 10 n := Nat.toList_repr
  have htake : (Nat.toDigits 10 n).takeWhile Char.isDigit = Nat.toDigits 10 n :=
    List.takeWhile_eq_self_iff.mpr hdigit
  have hdrop : (Nat.toDigits 10 n).dropWhile Char.isDigit = [] :=
    List.dropWhile_eq_nil_iff.mpr hdigit
  have hhead : Nat.toDigits 10 n = ['0'] ∨ (Nat.toDigits 10 n).head?.any (· != '0') = true := by
    rcases Nat.eq_zero_or_pos n with rfl | hn
    · exact .inl (Nat.toDigits_zero 10)
    · exact .inr (toDigits_head n hn)
  have hsign : ∀ cs, Nat.toDigits 10 n = '-' :: cs → False := by
    intro cs hcs
    exact absurd (hdigit '-' (by rw [hcs]; simp)) (by decide)
  rw [IsLiteral, hlist]
  refine ⟨?_, fun c hc => by simp [isNumberChar, hdigit c hc]⟩
  rw [numberOk]
  · simp only [unsignedOk, htake, hdrop, fractionOk, exponentOk, Bool.and_true, Bool.or_eq_true,
      beq_iff_eq]
    exact hhead
  · exact hsign

end JsonText

/-- The text layer that this module defines. -/
def SerdeJson.plain : SerdeJson :=
  ⟨fun json => String.ofList (JsonText.print json), JsonText.fromStr⟩

end NodeAccess.Foundation
