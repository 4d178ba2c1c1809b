import NodeAccess.Relay.Protocol

/-! # Peers of a relay session

A peer is one accepted websocket. `buildPeerMeta` classifies it from the query
parameters; the session keeps a `PeerHandle` of each peer that it can send to.
-/

namespace NodeAccess.Relay

/-- A version 4 uuid, drawn fresh for every accepted socket. -/
structure PeerId where
  uuid : ℕ
deriving DecidableEq, Repr

inductive PeerKind where
  | v1Server
  | v1Client
  | v2ServerControl
  | v2ServerData (connectionId : String)
  | v2Client (connectionId : String)
deriving DecidableEq, Repr

structure PeerMeta where
  peerId : PeerId
  serverId : String
  role : ConnectionRole
  version : RelayVersion
  connectionId : Option String
  kind : PeerKind
deriving DecidableEq, Repr

structure SessionKey where
  serverId : String
  version : RelayVersion
deriving DecidableEq, Repr

/-- The sending half of a peer's outbound queue is named by the peer's id:
`run_peer` makes one queue for each socket. -/
structure PeerHandle where
  peerMeta : PeerMeta
deriving DecidableEq, Repr

inductive RelayFrame where
  | text (text : String)
  | binary (bytes : List UInt8)
deriving DecidableEq, Repr

inductive OutboundMessage where
  | text (text : String)
  | binary (bytes : List UInt8)
  | pong (payload : List UInt8)
  | close (code : ℕ) (reason : String)
deriving DecidableEq, Repr

structure RelayLimitsConfig where
  maxClientsPerConnection : ℕ
  maxSocketsPerSession : ℕ
  maxOutboundQueueMessages : ℕ
deriving DecidableEq, Repr

/-- The limits that the defaults of `RelayLimitsConfig` give a session. -/
def RelayLimitsConfig.default : RelayLimitsConfig := ⟨8, 64, 256⟩

/-- The digits of a uuid in its simple form: 32 hexadecimal digits. -/
def simpleUuid (uuid : ℕ) : String :=
  String.ofList ((List.range 32).map fun i => Nat.digitChar (uuid / 16 ^ (31 - i) % 16))

def generateConnectionId (uuid : ℕ) : String := "conn_" ++ simpleUuid uuid

/-- `none` is the arm that the source marks as unreachable. The two uuids are the
one of the new peer and the one that a generated connection id would use. -/
def buildPeerMeta (params : WsParams) (peerUuid connectionUuid : ℕ) : Option PeerMeta := do
  let connectionId := match params.version, params.role, params.connectionId with
    | .v2, .client, none => some (generateConnectionId connectionUuid)
    | _, _, connectionId => connectionId
  let kind ← match params.version, params.role, connectionId with
    | .v1, .server, _ => some .v1Server
    | .v1, .client, _ => some .v1Client
    | .v2, .server, none => some .v2ServerControl
    | .v2, .server, some connectionId => some (.v2ServerData connectionId)
    | .v2, .client, some connectionId => some (.v2Client connectionId)
    | .v2, .client, none => none
  return ⟨⟨peerUuid⟩, params.serverId, params.role, params.version, connectionId, kind⟩

def PeerKind.version : PeerKind → RelayVersion
  | .v1Server | .v1Client => .v1
  | .v2ServerControl | .v2ServerData _ | .v2Client _ => .v2

/-- A peer belongs to a session when the two agree on server id and version, and
its kind is one of that version. -/
def PeerMeta.Conforms (peerMeta : PeerMeta) (key : SessionKey) : Prop :=
  peerMeta.serverId = key.serverId ∧ peerMeta.version = key.version ∧
    peerMeta.kind.version = key.version

instance (peerMeta : PeerMeta) (key : SessionKey) : Decidable (peerMeta.Conforms key) :=
  inferInstanceAs (Decidable (_ ∧ _ ∧ _))

theorem buildPeerMeta_spec (params : WsParams) (peerUuid connectionUuid : ℕ) :
    ∃ peerMeta, buildPeerMeta params peerUuid connectionUuid = some peerMeta ∧
      peerMeta.peerId = ⟨peerUuid⟩ ∧ peerMeta.Conforms ⟨params.serverId, params.version⟩ := by
  obtain ⟨serverId, role, version, connectionId⟩ := params
  cases version <;> cases role <;> cases connectionId <;>
    exact ⟨_, rfl, rfl, rfl, rfl, rfl⟩

end NodeAccess.Relay
