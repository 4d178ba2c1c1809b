import NodeAccess.Relay.Peer

/-! # Requests to the relay

The router knows two paths. A request for a websocket has its query checked first and its
upgrade afterwards; the socket of an upgraded request becomes the peer that its query describes.
-/

namespace NodeAccess.Relay

/-- `rejected` and `notFound` are the answers that the web framework gives by itself. -/
inductive Response where
  | health (status : String)
  | refused (status : ℕ) (message : String)
  | upgrade (params : WsParams)
  | rejected
  | notFound
deriving DecidableEq, Repr

/-- An absent field is none; a field that occurs twice cannot be deserialized. -/
def optionField (fields : List (String × String)) (name : String) : Option (Option String) :=
  match fields.filter (·.1 = name) with
  | [] => some none
  | [field] => some (some field.2)
  | _ => none

def RawWsParams.deserialize (fields : List (String × String)) : Option RawWsParams := do
  let serverId ← optionField fields "serverId"
  let role ← optionField fields "role"
  let v ← optionField fields "v"
  let connectionId ← optionField fields "connectionId"
  return ⟨serverId, role, v, connectionId⟩

def upgradeRequired : ℕ := 426

/-- `ws` says whether the request asks for an upgrade. -/
def wsHandler (ws : Bool) (raw : RawWsParams) : Response :=
  match validateParams raw with
  | .error error => .refused error.status error.message
  | .ok params => if ws then .upgrade params
      else .refused upgradeRequired "Expected WebSocket upgrade"

/-- `parse` takes a query apart into its fields. -/
def app (parse : String → List (String × String)) (path : String) (query : Option String)
    (ws : Bool) :
    Response :=
  if path = "/health" then .health "ok"
  else if path = "/ws" then
    match RawWsParams.deserialize (parse (query.getD "")) with
    | none => .rejected
    | some raw => wsHandler ws raw
  else .notFound

variable {parse : String → List (String × String)} {path : String} {query : Option String}
    {ws : Bool}
  {params : WsParams}

theorem wsHandler_eq_upgrade {raw : RawWsParams} :
    wsHandler ws raw = .upgrade params ↔ ws = true ∧ validateParams raw = .ok params := by
  unfold wsHandler
  cases validateParams raw with
  | error error => simp
  | ok other => cases ws <;> simp

theorem app_eq_upgrade :
    app parse path query ws = .upgrade params ↔ path = "/ws" ∧ ws = true ∧
      ∃ raw, RawWsParams.deserialize (parse (query.getD "")) = some raw ∧
        validateParams raw = .ok params := by
  unfold app
  by_cases hhealth : path = "/health"
  · simp [hhealth]
  · by_cases hws : path = "/ws"
    · subst hws
      cases RawWsParams.deserialize (parse (query.getD "")) with
      | none => simp [hhealth]
      | some raw => simpa [hhealth] using wsHandler_eq_upgrade
    · simp [hhealth, hws]

theorem deserialize_fields (serverId role v : String) (connectionId : Option String) :
    RawWsParams.deserialize ([("serverId", serverId), ("role", role), ("v", v)] ++
        (connectionId.map fun id => ("connectionId", id)).toList) =
      some ⟨some serverId, some role, some v, connectionId⟩ := by
  cases connectionId <;> rfl

end NodeAccess.Relay
