import NodeAccess.Foundation.Bytes

/-! # Form-encoded queries

An encoder escapes a value so that it can stand in a query, and a reader takes a query apart
into its fields. What two such functions must have in common is stated for any pair of them, and
shown of percent encoding with the usual reader.
-/

namespace NodeAccess.Foundation

/-- The characters that are never escaped. -/
def isUnreserved (c : Char) : Bool := c.isAlphanum || ['-', '_', '.', '~'].contains c

def IsPlain (s : String) : Prop := ∀ c ∈ s.toList, isUnreserved c = true

instance (s : String) : Decidable (IsPlain s) :=
  List.decidableBAll (fun c => isUnreserved c = true) s.toList

/-- A value encoder and a query reader, each a function of its own. -/
structure QueryCodec where
  encode : String → String
  parse : String → List (String × String)

namespace QueryCodec

def join (codec : QueryCodec) (fields : List (String × String)) : String :=
  "&".intercalate (fields.map fun field => field.1 ++ "=" ++ codec.encode field.2)

/-- Values are escaped only where they have to be, and the reader finds what was written. -/
structure Inverts (codec : QueryCodec) : Prop where
  plain : ∀ s, IsPlain s → codec.encode s = s
  escaped : ∀ s, ∀ c ∈ (codec.encode s).toList, isUnreserved c = true ∨ c = '%'
  parse_join : ∀ fields : List (String × String), (∀ field ∈ fields, IsPlain field.1) →
    codec.parse (codec.join fields) = fields

theorem Inverts.join_escaped {codec : QueryCodec} (h : codec.Inverts)
    {fields : List (String × String)} (hnames : ∀ field ∈ fields, IsPlain field.1) :
    ∀ c ∈ (codec.join fields).toList, isUnreserved c = true ∨ c ∈ ['%', '=', '&'] := by
  induction fields with
  | nil => simp [join]
  | cons field rest ih =>
    rw [List.forall_mem_cons] at hnames
    have hfield : ∀ c ∈ (field.1 ++ "=" ++ codec.encode field.2).toList,
        isUnreserved c = true ∨ c ∈ ['%', '=', '&'] := by
      intro c hc
      rw [String.toList_append, String.toList_append, List.mem_append, List.mem_append] at hc
      rcases hc with (hc | hc) | hc
      · exact .inl (hnames.1 c hc)
      · obtain rfl := List.mem_singleton.mp hc
        exact .inr (by decide)
      · exact (h.escaped field.2 c hc).imp_right fun he => by simp [he]
    cases rest with
    | nil => simpa [join] using hfield
    | cons next rest =>
      intro c hc
      rw [join, List.map_cons, List.map_cons, String.intercalate_cons_cons, String.toList_append,
        String.toList_append, List.mem_append, List.mem_append] at hc
      rcases hc with (hc | hc) | hc
      · exact hfield c hc
      · obtain rfl := List.mem_singleton.mp hc
        exact .inr (by decide)
      · exact ih hnames.2 c hc

end QueryCodec

/-! ## Percent encoding -/

def hexDigit (n : ℕ) : Char := (Nat.digitChar n).toUpper

def hexValue (c : Char) : Option ℕ :=
  if c.isDigit then some (c.toNat - 48)
  else if 'A' ≤ c ∧ c ≤ 'F' then some (c.toNat - 55)
  else if 'a' ≤ c ∧ c ≤ 'f' then some (c.toNat - 87)
  else none

def escape (b : UInt8) : List Char := ['%', hexDigit (b.toNat / 16), hexDigit (b.toNat % 16)]

def encodeChar (c : Char) : List Char :=
  if isUnreserved c then [c] else (String.utf8EncodeChar c).flatMap escape

def percentEncode (s : String) : String := String.ofList (s.toList.flatMap encodeChar)

/-- A plus sign is a space, and a percent sign without two hex digits stands for itself. -/
def decodeBytes : List Char → List UInt8
  | [] => []
  | '+' :: cs => 32 :: decodeBytes cs
  | '%' :: a :: b :: cs =>
    match hexValue a, hexValue b with
    | some high, some low => UInt8.ofNat (16 * high + low) :: decodeBytes cs
    | _, _ => 37 :: decodeBytes (a :: b :: cs)
  | c :: cs => String.utf8EncodeChar c ++ decodeBytes cs

/-- Bytes that are no text at all are read as one replacement character. -/
def formDecode (cs : List Char) : String := (fromUtf8 (decodeBytes cs)).getD "\uFFFD"

/-- A field without an equals sign has an empty value. -/
def formField (cs : List Char) : String × String :=
  (formDecode (cs.takeWhile (· ≠ '=')), formDecode ((cs.dropWhile (· ≠ '=')).drop 1))

def formParse (query : String) : List (String × String) :=
  ((query.toList.splitOn '&').filter (· ≠ [])).map formField

def formUrlencoded : QueryCodec := ⟨percentEncode, formParse⟩

theorem hexDigit_spec {n : ℕ} (h : n < 16) :
    hexValue (hexDigit n) = some n ∧ isUnreserved (hexDigit n) = true := by
  revert n
  decide

theorem ne_of_unreserved {c d : Char} (hc : isUnreserved c = true) (hd : isUnreserved d = false) :
    c ≠ d := by
  rintro rfl
  rw [hc] at hd
  cases hd

theorem decodeBytes_cons {c : Char} (hplus : c ≠ '+') (hpercent : c ≠ '%') (cs : List Char) :
    decodeBytes (c :: cs) = String.utf8EncodeChar c ++ decodeBytes cs := by
  rw [decodeBytes.eq_def]
  split
  · contradiction
  · rename_i h
    exact absurd (List.cons.inj h).1 hplus
  · rename_i h
    exact absurd (List.cons.inj h).1 hpercent
  · rename_i h
    obtain ⟨rfl, rfl⟩ := List.cons.inj h
    rfl

theorem decodeBytes_escape (b : UInt8) (cs : List Char) :
    decodeBytes (escape b ++ cs) = b :: decodeBytes cs := by
  have hlt : b.toNat < 256 := b.toNat_lt
  have hhigh := (hexDigit_spec (n := b.toNat / 16) (by omega)).1
  have hlow := (hexDigit_spec (n := b.toNat % 16) (by omega)).1
  have hvalue : 16 * (b.toNat / 16) + b.toNat % 16 = b.toNat := Nat.div_add_mod b.toNat 16
  simp only [escape, List.cons_append, List.nil_append, decodeBytes, hhigh, hlow, hvalue,
    UInt8.ofNat_toNat]

theorem decodeBytes_flatMap_escape (bytes : List UInt8) (cs : List Char) :
    decodeBytes (bytes.flatMap escape ++ cs) = bytes ++ decodeBytes cs := by
  induction bytes with
  | nil => rfl
  | cons b bytes ih => rw [List.flatMap_cons, List.append_assoc, decodeBytes_escape, ih,
      List.cons_append]

theorem decodeBytes_encodeChar (c : Char) (cs : List Char) :
    decodeBytes (encodeChar c ++ cs) = String.utf8EncodeChar c ++ decodeBytes cs := by
  unfold encodeChar
  split_ifs with hc
  · exact decodeBytes_cons (ne_of_unreserved hc (by decide)) (ne_of_unreserved hc (by decide)) cs
  · exact decodeBytes_flatMap_escape _ _

theorem decodeBytes_flatMap_encodeChar (cs : List Char) :
    decodeBytes (cs.flatMap encodeChar) = cs.flatMap String.utf8EncodeChar := by
  induction cs with
  | nil => rfl
  | cons c cs ih => rw [List.flatMap_cons, List.flatMap_cons, decodeBytes_encodeChar, ih]

theorem asBytes_eq_flatMap (s : String) : asBytes s = s.toList.flatMap String.utf8EncodeChar := by
  rw [asBytes, String.toUTF8_eq_toByteArray, ← String.utf8Encode_toList, List.utf8Encode]
  simp

/-- What is encoded is read back. -/
theorem formDecode_percentEncode (s : String) : formDecode (percentEncode s).toList = s := by
  rw [formDecode, percentEncode, String.toList_ofList, decodeBytes_flatMap_encodeChar,
    ← asBytes_eq_flatMap, fromUtf8_asBytes, Option.getD_some]

theorem percentEncode_plain {s : String} (h : IsPlain s) : percentEncode s = s := by
  have hall : ∀ cs : List Char, (∀ c ∈ cs, isUnreserved c = true) → cs.flatMap encodeChar = cs := by
    intro cs hcs
    induction cs with
    | nil => rfl
    | cons c cs ih =>
      rw [List.forall_mem_cons] at hcs
      rw [List.flatMap_cons, ih hcs.2, encodeChar, if_pos hcs.1, List.singleton_append]
  rw [percentEncode, hall _ h, String.ofList_toList]

theorem percentEncode_escaped (s : String) :
    ∀ c ∈ (percentEncode s).toList, isUnreserved c = true ∨ c = '%' := by
  intro c hc
  rw [percentEncode, String.toList_ofList] at hc
  obtain ⟨d, -, hd⟩ := List.mem_flatMap.mp hc
  unfold encodeChar at hd
  split_ifs at hd with hplain
  · rw [List.mem_singleton] at hd
    exact .inl (hd ▸ hplain)
  · obtain ⟨b, -, hb⟩ := List.mem_flatMap.mp hd
    have hlt : b.toNat < 256 := b.toNat_lt
    simp only [escape, List.mem_cons, List.not_mem_nil, or_false] at hb
    rcases hb with rfl | rfl | rfl
    · exact .inr rfl
    · exact .inl (hexDigit_spec (by omega)).2
    · exact .inl (hexDigit_spec (by omega)).2

/-! ## Fields -/

theorem formField_append {name : String} (hname : IsPlain name) (value : String) :
    formField (name.toList ++ '=' :: (percentEncode value).toList) = (name, value) := by
  have hcut : ∀ c ∈ name.toList, decide (c ≠ '=') = true :=
    fun c hc => decide_eq_true (ne_of_unreserved (hname c hc) (by decide))
  have hdecode := formDecode_percentEncode name
  rw [percentEncode_plain hname] at hdecode
  rw [formField, List.takeWhile_append_of_pos hcut, List.dropWhile_append_of_pos hcut]
  simp [hdecode, formDecode_percentEncode]

theorem formParse_join (fields : List (String × String))
    (hnames : ∀ field ∈ fields, IsPlain field.1) :
    formParse (formUrlencoded.join fields) = fields := by
  have hpieces : (formUrlencoded.join fields).toList =
      ['&'].intercalate (fields.map fun field =>
        field.1.toList ++ '=' :: (percentEncode field.2).toList) := by
    simp [QueryCodec.join, formUrlencoded, Function.comp_def]
  generalize hpiece : (fun field : String × String =>
    field.1.toList ++ '=' :: (percentEncode field.2).toList) = piece at hpieces
  have hwhole : ∀ cs ∈ fields.map piece, '&' ∉ cs ∧ cs ≠ [] := by
    intro cs hcs
    obtain ⟨field, hfield, rfl⟩ := List.mem_map.mp hcs
    rw [← hpiece]
    refine ⟨?_, by simp⟩
    rw [List.mem_append, List.mem_cons]
    rintro (hm | hm | hm)
    · exact ne_of_unreserved (hnames field hfield _ hm) (by decide) rfl
    · cases hm
    · rcases percentEncode_escaped field.2 _ hm with hplain | hpercent
      · exact ne_of_unreserved hplain (by decide) rfl
      · cases hpercent
  have hread : ∀ field ∈ fields, formField (piece field) = field := by
    intro field hfield
    rw [← hpiece]
    exact formField_append (hnames field hfield) field.2
  cases fields with
  | nil => rfl
  | cons first rest =>
    have hkeep : ((first :: rest).map piece).filter (· ≠ []) = (first :: rest).map piece := by
      rw [List.filter_eq_self]
      intro cs hcs
      exact decide_eq_true (hwhole cs hcs).2
    rw [formParse, hpieces, List.splitOn_intercalate '&' (fun cs hcs => (hwhole cs hcs).1)
      (by simp), hkeep, List.map_map]
    exact (List.map_congr_left hread).trans (List.map_id _)

theorem formUrlencoded_inverts : formUrlencoded.Inverts where
  plain _ h := percentEncode_plain h
  escaped := percentEncode_escaped
  parse_join := formParse_join

end NodeAccess.Foundation
