import NodeAccess.Foundation.Text

/-! # The parts of a url

The generic syntax of a url: a scheme, an authority, a path and a query. A fragment is
never sent and is cut off.
-/

namespace NodeAccess.Foundation

structure Url where
  scheme : String
  authority : String
  path : String
  query : Option String
deriving DecidableEq, Repr

namespace Url

def upTo (stops cs : List Char) : List Char := cs.takeWhile (· ∉ stops)

def onward (stops cs : List Char) : List Char := cs.dropWhile (· ∉ stops)

/-- The authority ends at the first slash, the path at the question mark. -/
def ofHierarchy (scheme : List Char) (rest : List Char) : Url :=
  let hierarchy := upTo ['?'] rest
  let query := match onward ['?'] rest with
    | [] => none
    | _ :: query => some (String.ofList query)
  ⟨String.ofList scheme, String.ofList (upTo ['/'] hierarchy),
    String.ofList (onward ['/'] hierarchy), query⟩

def parse (text : String) : Option Url :=
  let cs := upTo ['#'] text.toList
  ((onward [':'] cs).dropPrefix? "://".toList).map (ofHierarchy (upTo [':'] cs))

/-- None of the stops is among the characters. -/
def Avoids (stops cs : List Char) : Prop := ∀ c ∈ cs, c ∉ stops

instance (stops cs : List Char) : Decidable (Avoids stops cs) :=
  List.decidableBAll (fun c => c ∉ stops) cs

variable {stops stops' cs rest : List Char}

theorem Avoids.of_subset (h : Avoids stops cs) (hsub : stops' ⊆ stops) : Avoids stops' cs :=
  fun c hc hm => h c hc (hsub hm)

theorem avoids_append : Avoids stops (cs ++ rest) ↔ Avoids stops cs ∧ Avoids stops rest :=
  List.forall_mem_append

theorem avoids_cons {c : Char} : Avoids stops (c :: cs) ↔ c ∉ stops ∧ Avoids stops cs :=
  List.forall_mem_cons

theorem upTo_append (h : Avoids stops cs) (hrest : ∀ c ∈ rest.head?, c ∈ stops) :
    upTo stops (cs ++ rest) = cs := by
  have hcs : ∀ c ∈ cs, decide (c ∉ stops) = true := fun c hc => decide_eq_true (h c hc)
  rw [upTo, List.takeWhile_append_of_pos hcs]
  cases rest with
  | nil => simp
  | cons c rest =>
    have hc : c ∈ stops := hrest c rfl
    simp [hc]

theorem onward_append (h : Avoids stops cs) (hrest : ∀ c ∈ rest.head?, c ∈ stops) :
    onward stops (cs ++ rest) = rest := by
  have hcs : ∀ c ∈ cs, decide (c ∉ stops) = true := fun c hc => decide_eq_true (h c hc)
  rw [onward, List.dropWhile_append_of_pos hcs]
  cases rest with
  | nil => simp
  | cons c rest =>
    have hc : c ∈ stops := hrest c rfl
    simp [hc]

theorem upTo_self (h : Avoids stops cs) : upTo stops cs = cs := by
  have hall : upTo stops (cs ++ []) = cs := upTo_append h (by simp)
  rwa [List.append_nil] at hall

/-- What follows the last stop is determined by the whole. -/
theorem eq_of_last_stop {stop : Char} {before before' : List Char} (hcs : Avoids [stop] cs)
    (hrest : Avoids [stop] rest) (h : before ++ stop :: cs = before' ++ stop :: rest) :
    cs = rest := by
  have hback : ∀ before cs : List Char, Avoids [stop] cs →
      upTo [stop] (before ++ stop :: cs).reverse = cs.reverse := by
    intro before cs hcs
    rw [List.reverse_append, List.reverse_cons, List.append_assoc]
    apply upTo_append
    · intro c hc
      exact hcs c (List.mem_reverse.mp hc)
    · simp
  rw [← List.reverse_inj, ← hback before cs hcs, h, hback before' rest hrest]

section Parts

variable {scheme authority path query : String}

theorem ofHierarchy_append (hauthority : Avoids ['/', '?', '#'] authority.toList)
    (hpath : Avoids ['?', '#'] path.toList) (hstart : ∀ c ∈ path.toList.head?, c = '/') :
    ofHierarchy scheme.toList (authority.toList ++ path.toList ++ '?' :: query.toList) =
      ⟨scheme, authority, path, some query⟩ := by
  have hhierarchy : Avoids ['?'] (authority.toList ++ path.toList) :=
    avoids_append.mpr ⟨hauthority.of_subset (by simp), hpath.of_subset (by simp)⟩
  have hslash : Avoids ['/'] authority.toList := hauthority.of_subset (by simp)
  have hmark : ∀ c ∈ ('?' :: query.toList).head?, c ∈ ['?'] := by simp
  have hfirst : ∀ c ∈ path.toList.head?, c ∈ ['/'] := by simpa using hstart
  simp only [ofHierarchy, upTo_append hhierarchy hmark, onward_append hhierarchy hmark,
    upTo_append hslash hfirst, onward_append hslash hfirst, String.ofList_toList]

/-- The parts that a url is put together from are the parts that it is read as. -/
theorem parse_append (hscheme : Avoids [':', '#'] scheme.toList)
    (hauthority : Avoids ['/', '?', '#'] authority.toList) (hpath : Avoids ['?', '#'] path.toList)
    (hstart : ∀ c ∈ path.toList.head?, c = '/') (hquery : Avoids ['#'] query.toList) :
    parse (scheme ++ "://" ++ authority ++ path ++ "?" ++ query) =
      some ⟨scheme, authority, path, some query⟩ := by
  have htext : (scheme ++ "://" ++ authority ++ path ++ "?" ++ query).toList =
      scheme.toList ++
        ("://".toList ++ (authority.toList ++ path.toList ++ '?' :: query.toList)) := by
    simp
  have hfragment : Avoids ['#']
      (scheme.toList ++
        ("://".toList ++ (authority.toList ++ path.toList ++ '?' :: query.toList))) := by
    simp only [avoids_append, avoids_cons]
    exact ⟨hscheme.of_subset (by simp), by decide,
      ⟨hauthority.of_subset (by simp), hpath.of_subset (by simp)⟩, by decide, hquery⟩
  have hcolon : Avoids [':'] scheme.toList := hscheme.of_subset (by simp)
  have hstop :
      ∀ c ∈ ("://".toList ++ (authority.toList ++ path.toList ++ '?' :: query.toList)).head?,
      c ∈ [':'] := by simp
  rw [parse, htext, upTo_self hfragment, upTo_append hcolon hstop, onward_append hcolon hstop,
    List.dropPrefix?_append_of_beq _ (beq_self_eq_true _), Option.map_some,
    ofHierarchy_append hauthority hpath hstart]

end Parts

example : parse "wss://relay.example:443/ws?v=2#top" =
    some ⟨"wss", "relay.example:443", "/ws", some "v=2"⟩ := by decide

end Url

end NodeAccess.Foundation
