import NodeAccess.Foundation.Table

/-! # Mappings

A provider's mapping gives a name to a local address and may ask visitors of that name for an
auth value. A visitor's mapping gives a local address to a name of another node.
-/

namespace NodeAccess.Serve

structure TcpMapping where
  name : String
  addr : String
  auth : Option String
deriving DecidableEq, Repr

structure VisitorMapping where
  node : String
  service : String
  bindAddr : String
  auth : Option String
deriving DecidableEq, Repr

def authMatches (allowed presented : Option String) : Bool :=
  match allowed with
  | none | some "" => true
  | some allowed => presented = some allowed

/-- A mapping that lets every visitor in. -/
def isPublic (allowed : Option String) : Bool := allowed = none || allowed = some ""

theorem authMatches_eq (allowed presented : Option String) :
    authMatches allowed presented = (isPublic allowed || decide (allowed = presented)) := by
  unfold authMatches
  split
  · rfl
  · rfl
  · rename_i value hne
    have hpublic : isPublic (some value) = false := by
      simpa [isPublic] using hne
    rw [hpublic, Bool.false_or]
    exact decide_eq_decide.mpr eq_comm

/-- One value admits all that another one admits, when it admits everybody or is the same value. -/
theorem authMatches_mono_iff {a b : Option String} :
    (∀ presented, authMatches a presented = true → authMatches b presented = true) ↔
      isPublic b = true ∨ b = a := by
  constructor
  · intro h
    have hself := h a (by simp [authMatches_eq])
    simpa [authMatches_eq] using hself
  · rintro (hb | rfl) presented ha
    · rw [authMatches_eq, hb, Bool.true_or]
    · exact ha

end NodeAccess.Serve
