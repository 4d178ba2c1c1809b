import NodeAccess.Foundation.Bytes
import NodeAccess.Foundation.JsonText
import NodeAccess.Mux.Frame

/-! # The JSON of requests and control messages

Both types are tagged by the field `type`, with the name of the variant in snake case.
The fields follow in the order of their declaration; an absent optional field is read as
one that is null, and other fields are ignored.
-/

namespace NodeAccess.Mux

open Foundation

def optional : Option String → Json
  | none => .null
  | some value => .string value

/-- A field that must be a string. -/
def stringField (key : String) (json : Json) : Option String := (json.get key).bind Json.asStr

/-- A field that may be absent or null. -/
def optionField (key : String) (json : Json) : Option (Option String) :=
  match json.get key with
  | none | some .null => some none
  | some (.string value) => some (some value)
  | some _ => none

def boolField (key : String) (json : Json) : Option Bool :=
  match json.get key with
  | some (.bool value) => some value
  | _ => none

namespace OpenRequest

def toJson : OpenRequest → Json
  | .socks => .object [("type", .string "socks")]
  | .visit name auth =>
    .object [("type", .string "visit"), ("name", .string name), ("auth", optional auth)]
  | .providerConnect name => .object [("type", .string "provider_connect"), ("name", .string name)]

def ofJson (json : Json) : Option OpenRequest :=
  match stringField "type" json with
  | some "socks" => some .socks
  | some "visit" => do return .visit (← stringField "name" json) (← optionField "auth" json)
  | some "provider_connect" => do return .providerConnect (← stringField "name" json)
  | _ => none

theorem ofJson_toJson (request : OpenRequest) : ofJson request.toJson = some request := by
  cases request with
  | socks => rfl
  | visit name auth => cases auth <;> rfl
  | providerConnect name => rfl

theorem printable_toJson (request : OpenRequest) : JsonText.Printable request.toJson := by
  cases request with
  | socks =>
    apply JsonText.Printable.object
    simp [JsonText.Printable.string]
  | visit name auth =>
    apply JsonText.Printable.object
    cases auth <;> simp [optional, JsonText.Printable.string, JsonText.Printable.null]
  | providerConnect name =>
    apply JsonText.Printable.object
    simp [JsonText.Printable.string]

end OpenRequest

namespace ControlMessage

def toJson : ControlMessage → Json
  | .bind name auth =>
    .object [("type", .string "bind"), ("name", .string name), ("auth", optional auth)]
  | .bindAck name ok error =>
    .object [("type", .string "bind_ack"), ("name", .string name), ("ok", .bool ok),
      ("error", optional error)]
  | .info message => .object [("type", .string "info"), ("message", .string message)]

def ofJson (json : Json) : Option ControlMessage :=
  match stringField "type" json with
  | some "bind" => do return .bind (← stringField "name" json) (← optionField "auth" json)
  | some "bind_ack" => do
    return .bindAck (← stringField "name" json) (← boolField "ok" json) (← optionField "error" json)
  | some "info" => do return .info (← stringField "message" json)
  | _ => none

theorem ofJson_toJson (message : ControlMessage) : ofJson message.toJson = some message := by
  cases message with
  | bind name auth => cases auth <;> rfl
  | bindAck name ok error => cases error <;> rfl
  | info message => rfl

theorem printable_toJson (message : ControlMessage) : JsonText.Printable message.toJson := by
  cases message with
  | bind name auth =>
    apply JsonText.Printable.object
    cases auth <;> simp [optional, JsonText.Printable.string, JsonText.Printable.null]
  | bindAck name ok error =>
    apply JsonText.Printable.object
    cases error <;>
      simp [optional, JsonText.Printable.string, JsonText.Printable.null, JsonText.Printable.bool]
  | info message =>
    apply JsonText.Printable.object
    simp [JsonText.Printable.string]

end ControlMessage

def toVec (json : Json) : List UInt8 := asBytes (SerdeJson.plain.toText json)

def fromSlice {α : Type} (ofJson : Json → Option α) (bytes : List UInt8) : Except String α :=
  match ((fromUtf8 bytes).bind SerdeJson.plain.fromStr).bind ofJson with
  | some value => .ok value
  | none => .error "invalid JSON"

theorem fromSlice_toVec {α : Type} {ofJson : Json → Option α} {json : Json} {value : α}
    (hprint : JsonText.Printable json) (hof : ofJson json = some value) :
    fromSlice ofJson (toVec json) = .ok value := by
  have hread : SerdeJson.plain.fromStr (SerdeJson.plain.toText json) = some json :=
    JsonText.fromStr_print hprint
  rw [fromSlice, toVec, fromUtf8_asBytes, Option.bind_some, hread, Option.bind_some, hof]

/-- The JSON layer that this module and the text layer define. -/
def SerdeSlice.plain : SerdeSlice :=
  ⟨fun request => .ok (toVec request.toJson), fromSlice OpenRequest.ofJson,
    fun message => .ok (toVec message.toJson), fromSlice ControlMessage.ofJson⟩

theorem SerdeSlice.plain_inverts : SerdeSlice.plain.Inverts where
  request request :=
    ⟨_, rfl, fromSlice_toVec request.printable_toJson request.ofJson_toJson⟩
  control message :=
    ⟨_, rfl, fromSlice_toVec message.printable_toJson message.ofJson_toJson⟩

end NodeAccess.Mux
