import NodeAccess.Foundation.Text
import NodeAccess.Serve.Mapping

/-! # Mappings in text

The command line gives a provider as NAME:HOST:PORT[:AUTH] and a visitor as
NODE:SERVICE:HOST:PORT[:AUTH]. The last field keeps its colons.
-/

namespace NodeAccess.Serve

open Foundation

/-- The field after the address, if it is there and not blank. -/
def authField (field : Option String) : Option String :=
  (field.map trim).filter fun auth => !auth.isEmpty

def parseTcpMappingInner (value : String) : Except String TcpMapping :=
  match (splitn 4 ':' value).map trim with
  | name :: host :: port :: rest =>
    if name.isEmpty then .error "mapping name cannot be empty"
    else if host.isEmpty || port.isEmpty then .error "mapping address cannot be empty"
    else .ok ⟨name, host ++ ":" ++ port, authField rest.head?⟩
  | _ => .error "expected NAME:HOST:PORT[:AUTH]"

def parseVisitorMappingInner (value : String) : Except String VisitorMapping :=
  match (splitn 5 ':' value).map trim with
  | node :: service :: host :: port :: rest =>
    if node.isEmpty || service.isEmpty then .error "visitor node and service cannot be empty"
    else if host.isEmpty || port.isEmpty then .error "visitor bind address cannot be empty"
    else .ok ⟨node, service, host ++ ":" ++ port, authField rest.head?⟩
  | _ => .error "expected NODE:SERVICE:HOST:PORT[:AUTH]"

def parseTcpMapping (value : String) : Except String TcpMapping := parseTcpMappingInner value

def parseVisitorMapping (value : String) : Except String VisitorMapping :=
  parseVisitorMappingInner value

/-- A text that can stand before a colon and is not blank. -/
def IsField (text : String) : Prop := ':' ∉ text.toList ∧ trim text ≠ ""

/-- The text NAME:HOST:PORT or NAME:HOST:PORT:AUTH, and the mapping that it means. -/
def TcpForm (value : String) (mapping : TcpMapping) : Prop :=
  ∃ name host port, IsField name ∧ IsField host ∧ IsField port ∧
    mapping.name = trim name ∧ mapping.addr = trim host ++ ":" ++ trim port ∧
      ((value = name ++ ":" ++ (host ++ ":" ++ port) ∧ mapping.auth = none) ∨
        ∃ auth, value = name ++ ":" ++ (host ++ ":" ++ (port ++ ":" ++ auth)) ∧
          mapping.auth = if trim auth = "" then none else some (trim auth))

theorem authField_some (auth : String) :
    authField (some (trim auth)) = if trim auth = "" then none else some (trim auth) := by
  rw [authField, Option.map_some, trim_trim, Option.filter_some]
  by_cases h : trim auth = "" <;> simp [h]

/-! ## The pieces of a text -/

theorem splitn_colon_iff {n : ℕ} {value p : String} {ps : List String} :
    splitn (n + 2) ':' value = p :: ps ↔
      ':' ∉ p.toList ∧ ((value = p ∧ ps = []) ∨
        ∃ rest, value = p ++ ":" ++ rest ∧ ps = splitn (n + 1) ':' rest) := splitn_eq_cons_iff

theorem splitn_colon {p : String} (hp : ':' ∉ p.toList) (n : ℕ) (rest : String) :
    splitn (n + 2) ':' (p ++ ":" ++ rest) = p :: splitn (n + 1) ':' rest :=
  splitn_colon_iff.mpr ⟨hp, .inr ⟨rest, rfl, rfl⟩⟩

theorem splitn_of_colon_notMem {p : String} (hp : ':' ∉ p.toList) (n : ℕ) :
    splitn (n + 2) ':' p = [p] := splitn_colon_iff.mpr ⟨hp, .inl ⟨rfl, rfl⟩⟩

theorem splitn_four_iff {value : String} {name host port : String} {pieces : List String} :
    splitn 4 ':' value = name :: host :: port :: pieces ↔
      ':' ∉ name.toList ∧ ':' ∉ host.toList ∧ ':' ∉ port.toList ∧
        ((value = name ++ ":" ++ (host ++ ":" ++ port) ∧ pieces = []) ∨
          ∃ auth, value = name ++ ":" ++ (host ++ ":" ++ (port ++ ":" ++ auth)) ∧
            pieces = [auth]) := by
  constructor
  · intro h
    obtain ⟨hname, ⟨-, hnil⟩ | ⟨fromHost, hvalue, h1⟩⟩ := splitn_colon_iff.mp h
    · cases hnil
    obtain ⟨hhost, ⟨-, hnil⟩ | ⟨fromPort, hfromHost, h2⟩⟩ := splitn_colon_iff.mp h1.symm
    · cases hnil
    obtain ⟨hport, ⟨hfromPort, hnil⟩ | ⟨auth, hfromPort, h3⟩⟩ := splitn_colon_iff.mp h2.symm
    · refine ⟨hname, hhost, hport, .inl ⟨?_, hnil⟩⟩
      rw [hvalue, hfromHost, hfromPort]
    · rw [splitn_one] at h3
      refine ⟨hname, hhost, hport, .inr ⟨auth, ?_, h3⟩⟩
      rw [hvalue, hfromHost, hfromPort]
  · rintro ⟨hname, hhost, hport, ⟨rfl, rfl⟩ | ⟨auth, rfl, rfl⟩⟩
    · rw [splitn_colon hname, splitn_colon hhost, splitn_of_colon_notMem hport]
    · rw [splitn_colon hname, splitn_colon hhost, splitn_colon hport, splitn_one]

theorem parseTcpMapping_eq_ok {value : String} {mapping : TcpMapping} :
    parseTcpMapping value = .ok mapping ↔
      ∃ name host port rest, splitn 4 ':' value = name :: host :: port :: rest ∧
        trim name ≠ "" ∧ trim host ≠ "" ∧ trim port ≠ "" ∧
        mapping = ⟨trim name, trim host ++ ":" ++ trim port, authField (rest.head?.map trim)⟩ := by
  unfold parseTcpMapping parseTcpMappingInner
  rcases hs : splitn 4 ':' value with _ | ⟨name, _ | ⟨host, _ | ⟨port, rest⟩⟩⟩
  · simp
  · simp
  · simp
  · simp only [List.map_cons, String.isEmpty_iff, Bool.or_eq_true, List.head?_map]
    constructor
    · intro h
      split_ifs at h with hname haddr
      rw [not_or] at haddr
      exact ⟨name, host, port, rest, rfl, hname, haddr.1, haddr.2, (Except.ok.inj h).symm⟩
    · rintro ⟨name, host, port, rest, hpieces, hname, hhost, hport, rfl⟩
      simp only [List.cons.injEq] at hpieces
      obtain ⟨rfl, rfl, rfl, rfl⟩ := hpieces
      simp [hname, hhost, hport]

theorem parseTcpMapping_iff (value : String) (mapping : TcpMapping) :
    parseTcpMapping value = .ok mapping ↔ TcpForm value mapping := by
  rw [parseTcpMapping_eq_ok]
  constructor
  · rintro ⟨name, host, port, rest, hpieces, hname, hhost, hport, rfl⟩
    obtain ⟨hn, hh, hp, hrest⟩ := splitn_four_iff.mp hpieces
    refine ⟨name, host, port, ⟨hn, hname⟩, ⟨hh, hhost⟩, ⟨hp, hport⟩, rfl, rfl, ?_⟩
    rcases hrest with ⟨hvalue, rfl⟩ | ⟨auth, hvalue, rfl⟩
    · exact .inl ⟨hvalue, rfl⟩
    · refine .inr ⟨auth, hvalue, ?_⟩
      rw [List.head?_cons, Option.map_some, authField_some]
  · rintro ⟨name, host, port, hname, hhost, hport, hn, ha, hform⟩
    rcases mapping with ⟨mname, addr, mauth⟩
    dsimp only at hn ha hform
    subst hn ha
    rcases hform with ⟨hvalue, rfl⟩ | ⟨auth, hvalue, rfl⟩
    · refine ⟨name, host, port, [], ?_, hname.2, hhost.2, hport.2, rfl⟩
      exact splitn_four_iff.mpr ⟨hname.1, hhost.1, hport.1, .inl ⟨hvalue, rfl⟩⟩
    · refine ⟨name, host, port, [auth], ?_, hname.2, hhost.2, hport.2, ?_⟩
      · exact splitn_four_iff.mpr ⟨hname.1, hhost.1, hport.1, .inr ⟨auth, hvalue, rfl⟩⟩
      · rw [List.head?_cons, Option.map_some, authField_some]

theorem parseVisitorMapping_iff {node : String} (hnode : IsField node) (value : String)
    (visitor : VisitorMapping) :
    parseVisitorMapping (node ++ ":" ++ value) = .ok visitor ↔
      ∃ mapping, parseTcpMapping value = .ok mapping ∧
        visitor = ⟨trim node, mapping.name, mapping.addr, mapping.auth⟩ := by
  unfold parseVisitorMapping parseVisitorMappingInner parseTcpMapping parseTcpMappingInner
  have hsplit : splitn 5 ':' (node ++ ":" ++ value) = node :: splitn 4 ':' value :=
    splitn_colon hnode.1 3 value
  rw [hsplit, List.map_cons]
  generalize (splitn 4 ':' value).map trim = pieces
  rcases pieces with _ | ⟨name, _ | ⟨host, _ | ⟨port, rest⟩⟩⟩
  · simp
  · simp
  · simp
  · simp only [String.isEmpty_iff, Bool.or_eq_true, hnode.2, false_or]
    split_ifs with hname haddr
    · simp
    · simp
    · simp [eq_comm]

theorem parseTcpMapping_of_fields {name host port : String} (hname : IsField name)
    (hhost : IsField host) (hport : IsField port) (auth : String) :
    parseTcpMapping (name ++ ":" ++ (host ++ ":" ++ (port ++ ":" ++ auth))) =
      .ok ⟨trim name, trim host ++ ":" ++ trim port,
        if trim auth = "" then none else some (trim auth)⟩ := by
  rw [parseTcpMapping_iff]
  exact ⟨name, host, port, hname, hhost, hport, rfl, rfl, .inr ⟨auth, rfl, rfl⟩⟩

theorem authMatches_self (auth : Option String) : authMatches auth auth = true := by
  rw [authMatches_eq, decide_eq_true rfl, Bool.or_true]

/-- The grammar of a provider's text; a visitor's text is a node before a provider's; and a provider
and a visitor with the same auth text agree. -/
theorem mapping_grammar :
    (∀ value mapping, parseTcpMapping value = .ok mapping ↔ TcpForm value mapping) ∧
    (∀ node, IsField node → ∀ value visitor,
      parseVisitorMapping (node ++ ":" ++ value) = .ok visitor ↔
        ∃ mapping, parseTcpMapping value = .ok mapping ∧
          visitor = ⟨trim node, mapping.name, mapping.addr, mapping.auth⟩) ∧
    ∀ name host port node service bindHost bindPort, IsField name → IsField host → IsField port →
      IsField node → IsField service → IsField bindHost → IsField bindPort → ∀ auth,
        ∃ provider visitor,
          parseTcpMapping (name ++ ":" ++ (host ++ ":" ++ (port ++ ":" ++ auth))) = .ok provider ∧
          parseVisitorMapping (node ++ ":" ++ (service ++ ":" ++ (bindHost ++ ":" ++
            (bindPort ++ ":" ++ auth)))) = .ok visitor ∧
          authMatches provider.auth visitor.auth = true := by
  refine ⟨parseTcpMapping_iff, fun node hnode => parseVisitorMapping_iff hnode, ?_⟩
  intro name host port node service bindHost bindPort hname hhost hport hnode hservice hbindHost
    hbindPort auth
  have hprovider := parseTcpMapping_of_fields hname hhost hport auth
  have hvisitor := parseTcpMapping_of_fields hservice hbindHost hbindPort auth
  refine ⟨_, _, hprovider, (parseVisitorMapping_iff hnode _ _).mpr ⟨_, hvisitor, rfl⟩, ?_⟩
  exact authMatches_self _

example : parseVisitorMapping "devbox:ssh:127.0.0.1:2222: lap:top " =
    .ok ⟨"devbox", "ssh", "127.0.0.1:2222", some "lap:top"⟩ := by decide +kernel

end NodeAccess.Serve
