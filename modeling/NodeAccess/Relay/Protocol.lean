import NodeAccess.Foundation.Text

/-! # Roles, versions and the query parameters of the relay's websocket endpoint -/

namespace NodeAccess.Relay

open Foundation

inductive ConnectionRole where
  | server
  | client
deriving DecidableEq, Repr

def ConnectionRole.parse : String → Option ConnectionRole
  | "server" => some .server
  | "client" => some .client
  | _ => none

def ConnectionRole.asStr : ConnectionRole → String
  | .server => "server"
  | .client => "client"

@[simp] theorem ConnectionRole.parse_asStr (role : ConnectionRole) :
    parse role.asStr = some role := by
  cases role <;> rfl

inductive RelayVersion where
  | v1
  | v2
deriving DecidableEq, Repr

def RelayVersion.parse (raw : Option String) : Except String RelayVersion :=
  match raw.map trim with
  | none => .ok .v1
  | some "" => .ok .v1
  | some "1" => .ok .v1
  | some "2" => .ok .v2
  | some _ => .error "Invalid v parameter (expected 1 or 2)"

structure RawWsParams where
  serverId : Option String
  role : Option String
  v : Option String
  connectionId : Option String
deriving DecidableEq, Repr

structure WsParams where
  serverId : String
  role : ConnectionRole
  version : RelayVersion
  connectionId : Option String
deriving DecidableEq, Repr

/-- The body of a refused request, with its status and the query it refuses. -/
structure ParamError where
  status : ℕ
  message : String
  rawQuery : RawWsParams
deriving DecidableEq, Repr

def badRequest : ℕ := 400

/-- A present and non-blank parameter, trimmed. -/
def nonBlank (value : Option String) : Option String :=
  (value.map trim).filter fun value => !value.isEmpty

/-- Checks the server id, the role and the version in this order. -/
def validateParams (raw : RawWsParams) : Except ParamError WsParams := do
  let serverId ← match nonBlank raw.serverId with
    | some serverId => pure serverId
    | none => throw ⟨badRequest, "Missing serverId parameter", raw⟩
  let role ← match raw.role.bind ConnectionRole.parse with
    | some role => pure role
    | none => throw ⟨badRequest, "Missing or invalid role parameter", raw⟩
  let version ← match RelayVersion.parse raw.v with
    | .ok version => pure version
    | .error message => throw ⟨badRequest, message, raw⟩
  return ⟨serverId, role, version, nonBlank raw.connectionId⟩

theorem nonBlank_of_trim_ne {value : Option String} (h : ∀ text ∈ value, trim text ≠ "") :
    nonBlank value = value.map trim := by
  cases value with
  | none => rfl
  | some text =>
    have htext : (trim text).isEmpty = false := by simpa using h text rfl
    simp [nonBlank, htext]

theorem validateParams_v2 {serverId : String} (h : trim serverId ≠ "") (role : ConnectionRole)
    (connectionId : Option String) :
    validateParams ⟨some serverId, some role.asStr, some "2", connectionId⟩ =
      .ok ⟨trim serverId, role, .v2, nonBlank connectionId⟩ := by
  have hserver : nonBlank (some serverId) = some (trim serverId) :=
    nonBlank_of_trim_ne (by simpa using h)
  have hversion : RelayVersion.parse (some "2") = .ok .v2 := by decide
  simp only [validateParams, hserver, hversion, Option.bind_some, ConnectionRole.parse_asStr]
  rfl

end NodeAccess.Relay
