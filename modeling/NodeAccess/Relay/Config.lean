import NodeAccess.Foundation.Decimal
import NodeAccess.Relay.RunPeer

/-! # The relay's configuration

`RelayConfig::from_env` reads each value from a variable of the environment, or takes its default
text. The numbers that it accepts are exactly those of their types.
-/

namespace NodeAccess.Relay

open Foundation

structure RelayTimingConfig where
  initialNudgeDelay : ℕ
  secondNudgeDelay : ℕ
deriving DecidableEq, Repr

/-- `limits`, `ingress` and `idleTimeout` are the source's `limits`. Times are in milliseconds. -/
structure RelayConfig (SocketAddr : Type) where
  bindAddr : SocketAddr
  logFilter : String
  diagnostics : Bool
  timings : RelayTimingConfig
  limits : RelayLimitsConfig
  ingress : IngressLimits
  idleTimeout : ℕ

/-- What `env::var` gives for each name. -/
abbrev Env := String → Option String

/-- A number of 64 bits, with what the error says about the variable. -/
def parseNumber (expected : String) (env : Env) (key : String) (default : ℕ) : Except String ℕ :=
  (parseUnsigned 64 ((env key).getD (toString default))).mapError fun error =>
    key ++ expected ++ error.text

def parseUsize : Env → String → ℕ → Except String ℕ := parseNumber " must be a positive integer: "

def durationMs : Env → String → ℕ → Except String ℕ := parseNumber " must be milliseconds as u64: "

def parseBool (env : Env) (key : String) (default : Bool) : Except String Bool :=
  let raw := (trim ((env key).getD (toString default))).map Char.toLower
  if raw ∈ ["1", "true", "yes", "on"] then .ok true
  else if raw ∈ ["0", "false", "no", "off"] then .ok false
  else .error (key ++ " must be a boolean (true/false, 1/0, yes/no, on/off)")

/-- `socketAddr` is `str::parse` of a socket address, with the text of its error. -/
def parseSocketAddr {SocketAddr : Type} (socketAddr : String → Except String SocketAddr) (env : Env)
    (key default : String) : Except String SocketAddr :=
  (socketAddr ((env key).getD default)).mapError fun error =>
    key ++ " must be a valid socket address: " ++ error

def defaultBind : String := "127.0.0.1:8787"

def RelayConfig.fromEnv {SocketAddr : Type} (socketAddr : String → Except String SocketAddr)
    (env : Env) : Except String (RelayConfig SocketAddr) := do
  let bindAddr ← parseSocketAddr socketAddr env "RELAY_BIND" defaultBind
  let logFilter := (env "RELAY_LOG").getD "info"
  let diagnostics ← parseBool env "RELAY_DIAGNOSTICS" false
  let initialNudgeDelay ← durationMs env "RELAY_INITIAL_NUDGE_MS" 10000
  let secondNudgeDelay ← durationMs env "RELAY_SECOND_NUDGE_MS" 5000
  let maxFrameBytes ← parseUsize env "RELAY_MAX_FRAME_BYTES" (64 * 1024)
  let maxClientsPerConnection ← parseUsize env "RELAY_MAX_CLIENTS_PER_CONNECTION" 8
  let maxSocketsPerSession ← parseUsize env "RELAY_MAX_SOCKETS_PER_SESSION" 64
  let maxOutboundQueueMessages ← parseUsize env "RELAY_MAX_OUTBOUND_QUEUE_MESSAGES" 256
  let idleTimeout ← durationMs env "RELAY_IDLE_TIMEOUT_MS" 120000
  let maxMessagesPerWindow ← parseUsize env "RELAY_MAX_MESSAGES_PER_WINDOW" 240
  let rateLimitWindow ← durationMs env "RELAY_RATE_LIMIT_WINDOW_MS" 10000
  return ⟨bindAddr, logFilter, diagnostics, ⟨initialNudgeDelay, secondNudgeDelay⟩,
    ⟨maxClientsPerConnection, maxSocketsPerSession, maxOutboundQueueMessages⟩,
    ⟨maxFrameBytes, maxMessagesPerWindow, rateLimitWindow⟩, idleTimeout⟩

/-! ## What is accepted -/

theorem bind_eq_ok {α β : Type} {x : Except String α} {f : α → Except String β} {b : β} :
    x >>= f = .ok b ↔ ∃ a, x = .ok a ∧ f a = .ok b := by
  cases x with
  | error e =>
    change Except.error e = _ ↔ _
    simp
  | ok a =>
    change f a = _ ↔ _
    simp

theorem parseNumber_eq_ok {expected key : String} {env : Env} {default n : ℕ} :
    parseNumber expected env key default = .ok n ↔
      parseUnsigned 64 ((env key).getD (toString default)) = .ok n := by
  unfold parseNumber
  cases parseUnsigned 64 ((env key).getD (toString default)) <;> simp [Except.mapError]

theorem parseNumber_of_toString {expected key : String} {env : Env} {default n : ℕ}
    (h : (env key).getD (toString default) = toString n) (hn : n < 2 ^ 64) :
    parseNumber expected env key default = .ok n := by
  rw [parseNumber_eq_ok, h]
  exact parseUnsigned_toString hn

theorem parseNumber_lt {expected key : String} {env : Env} {default n : ℕ}
    (h : parseNumber expected env key default = .ok n) : n < 2 ^ 64 :=
  parseUnsigned_lt (parseNumber_eq_ok.mp h)

/-- An environment that sets the limits of a session and nothing else. -/
def limitsEnv (limits : RelayLimitsConfig) : Env
  | "RELAY_MAX_CLIENTS_PER_CONNECTION" => some (toString limits.maxClientsPerConnection)
  | "RELAY_MAX_SOCKETS_PER_SESSION" => some (toString limits.maxSocketsPerSession)
  | "RELAY_MAX_OUTBOUND_QUEUE_MESSAGES" => some (toString limits.maxOutboundQueueMessages)
  | _ => none

/-- The values of a session's limits that fit their types. -/
def RelayLimitsConfig.Fits (limits : RelayLimitsConfig) : Prop :=
  limits.maxClientsPerConnection < 2 ^ 64 ∧ limits.maxSocketsPerSession < 2 ^ 64 ∧
    limits.maxOutboundQueueMessages < 2 ^ 64

section

variable {SocketAddr : Type} {socketAddr : String → Except String SocketAddr}

theorem RelayConfig.fromEnv_limitsEnv {bindAddr : SocketAddr}
    (hbind : socketAddr defaultBind = .ok bindAddr) {limits : RelayLimitsConfig} (h : limits.Fits) :
    RelayConfig.fromEnv socketAddr (limitsEnv limits) = .ok ⟨bindAddr, "info", false, ⟨10000, 5000⟩,
      limits, .default, 120000⟩ := by
  have hnumber :
      ∀ expected key default n, (limitsEnv limits key).getD (toString default) = toString n →
      n < 2 ^ 64 → parseNumber expected (limitsEnv limits) key default = .ok n :=
    fun _ _ _ _ => parseNumber_of_toString
  have hunset :
      limitsEnv limits "RELAY_BIND" = none ∧ limitsEnv limits "RELAY_DIAGNOSTICS" = none :=
    ⟨rfl, rfl⟩
  have hb :
      parseSocketAddr socketAddr (limitsEnv limits) "RELAY_BIND" defaultBind = .ok bindAddr := by
    rw [parseSocketAddr, hunset.1, Option.getD_none, hbind, Except.mapError]
  have hdiagnostics : parseBool (limitsEnv limits) "RELAY_DIAGNOSTICS" false = .ok false := by
    rw [parseBool, hunset.2, Option.getD_none]
    decide +kernel
  rw [fromEnv, hb, hdiagnostics]
  simp only [parseUsize, durationMs]
  rw [hnumber _ "RELAY_INITIAL_NUDGE_MS" 10000 10000 rfl (by omega),
    hnumber _ "RELAY_SECOND_NUDGE_MS" 5000 5000 rfl (by omega),
    hnumber _ "RELAY_MAX_FRAME_BYTES" (64 * 1024) (64 * 1024) rfl (by omega),
    hnumber _ "RELAY_MAX_CLIENTS_PER_CONNECTION" 8 _ rfl h.1,
    hnumber _ "RELAY_MAX_SOCKETS_PER_SESSION" 64 _ rfl h.2.1,
    hnumber _ "RELAY_MAX_OUTBOUND_QUEUE_MESSAGES" 256 _ rfl h.2.2,
    hnumber _ "RELAY_IDLE_TIMEOUT_MS" 120000 120000 rfl (by omega),
    hnumber _ "RELAY_MAX_MESSAGES_PER_WINDOW" 240 240 rfl (by omega),
    hnumber _ "RELAY_RATE_LIMIT_WINDOW_MS" 10000 10000 rfl (by omega)]
  rfl

theorem RelayConfig.fits_of_fromEnv {env : Env} {config : RelayConfig SocketAddr}
    (h : RelayConfig.fromEnv socketAddr env = .ok config) : config.limits.Fits := by
  simp only [fromEnv, bind_eq_ok] at h
  obtain ⟨_, -, _, -, _, -, _, -, _, -, clients, hclients, sockets, hsockets, queue, hqueue, _, -,
    _, -, _, -, hconfig⟩ := h
  rw [← Except.ok.inj hconfig]
  exact ⟨parseNumber_lt hclients, parseNumber_lt hsockets, parseNumber_lt hqueue⟩

theorem RelayConfig.accepted_limits_iff {bindAddr : SocketAddr}
    (hbind : socketAddr defaultBind = .ok bindAddr) (limits : RelayLimitsConfig) :
    (∃ env config, RelayConfig.fromEnv socketAddr env = .ok config ∧ config.limits = limits) ↔
      limits.Fits := by
  constructor
  · rintro ⟨env, config, hconfig, rfl⟩
    exact fits_of_fromEnv hconfig
  · intro h
    exact ⟨limitsEnv limits, _, fromEnv_limitsEnv hbind h, rfl⟩

end

end NodeAccess.Relay
