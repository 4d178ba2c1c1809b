import Mathlib.Tactic

/-! # JSON values and the text layer of serde_json

The text layer is a third-party crate: `SerdeJson` stands for its printer and its
parser. What the programs build and inspect are values of `Json`.
-/

namespace NodeAccess.Foundation

/-- A JSON value. The fields of an object stand in the order of their keys, and a
number is kept as its literal. -/
inductive Json where
  | null
  | bool (value : Bool)
  | number (literal : String)
  | string (value : String)
  | array (elements : List Json)
  | object (fields : List (String × Json))

def Json.get (key : String) : Json → Option Json
  | .object fields => (fields.find? fun field => field.1 = key).map (·.2)
  | _ => none

def Json.asStr : Json → Option String
  | .string value => some value
  | _ => none

/-- The elements of an array of strings. -/
def Json.asStrings : Json → Option (List String)
  | .array elements => elements.mapM Json.asStr
  | _ => none

structure SerdeJson where
  toText : Json → String
  fromStr : String → Option Json

@[simp] theorem Json.mapM_asStr (values : List String) :
    (values.map Json.string).mapM Json.asStr = some values := by
  induction values with
  | nil => rfl
  | cons v vs ih => simp [List.mapM_cons, ih, Json.asStr]

end NodeAccess.Foundation
