import NodeAccess.Access.System
import NodeAccess.Foundation.FormUrlencoded
import NodeAccess.Foundation.Url
import NodeAccess.Relay.Handler

/-! # Websocket urls of the relay

A tool turns whatever spelling of the relay's address it is given into one websocket url, and
the relay reads the role and the ids back from its query. A relay whose authority is the two
letters `ws` is the exception: the url's test for a path takes the authority for one.
-/

namespace NodeAccess.Access

open Foundation Relay

/-- Http becomes the websocket scheme. -/
def rewriteScheme (base : String) : String :=
  match stripPrefix "http://" base with
  | some rest => "ws://" ++ rest
  | none =>
    match stripPrefix "https://" base with
    | some rest => "wss://" ++ rest
    | none => base

/-- The part of `build_ws_url` before the query. -/
def wsBase (relayBase : String) : String :=
  let base := rewriteScheme (trimEndMatches '/' relayBase)
  if endsWith "/ws" base then base else base ++ "/ws"

/-- `encode` is `urlencoding::encode`. -/
def buildWsUrl (encode : String → String) (relayBase serverId role : String)
    (connectionId : Option String) : String :=
  let url := wsBase relayBase ++ "?serverId=" ++ encode serverId ++ "&role=" ++ role ++ "&v=2"
  match connectionId with
  | some connectionId => url ++ "&connectionId=" ++ encode connectionId
  | none => url

section Connect

variable {WsStream : Type} (encode : String → String) (connectAsync : String → Option WsStream)

/-- An error keeps the context that it is given. -/
def connect (relayBase serverId role : String) (connectionId : Option String) :
    Except String WsStream :=
  let url := buildWsUrl encode relayBase serverId role connectionId
  match connectAsync url with
  | some ws => .ok ws
  | none => .error ("failed to connect relay websocket: " ++ url)

def connectControl (relayBase serverId : String) : Except String WsStream :=
  connect encode connectAsync relayBase serverId "server" none

def connectServerData (relayBase serverId connectionId : String) : Except String WsStream :=
  connect encode connectAsync relayBase serverId "server" (some connectionId)

def connectClientData (relayBase serverId : String) (connectionId : Option String) :
    Except String WsStream :=
  connect encode connectAsync relayBase serverId "client" connectionId

end Connect

/-- What a websocket request for a url comes to at the relay: the peer of the upgraded socket. -/
def dial (parse : String → List (String × String)) (peerUuid connectionUuid : ℕ) (url : String) :
    Option PeerMeta :=
  (Url.parse url).bind fun url =>
    match app parse url.path url.query true with
    | .upgrade params => buildPeerMeta params peerUuid connectionUuid
    | _ => none

theorem dial_eq_some_iff {parse : String → List (String × String)} {peerUuid connectionUuid : ℕ}
    {text : String} {peerMeta : PeerMeta} :
    dial parse peerUuid connectionUuid text = some peerMeta ↔
      ∃ url raw params, Url.parse text = some url ∧ url.path = "/ws" ∧
        RawWsParams.deserialize (parse (url.query.getD "")) = some raw ∧
        validateParams raw = .ok params ∧
        buildPeerMeta params peerUuid connectionUuid = some peerMeta := by
  rw [dial, Option.bind_eq_some_iff]
  constructor
  · rintro ⟨url, hurl, hanswer⟩
    cases happ : app parse url.path url.query true with
    | upgrade params =>
      rw [happ] at hanswer
      obtain ⟨hpath, -, raw, hraw, hvalid⟩ := app_eq_upgrade.mp happ
      exact ⟨url, raw, params, hurl, hpath, hraw, hvalid, hanswer⟩
    | _ => simp [happ] at hanswer
  · rintro ⟨url, raw, params, hurl, hpath, hraw, hvalid, hmeta⟩
    have happ : app parse url.path url.query true = .upgrade params :=
      app_eq_upgrade.mpr ⟨hpath, rfl, raw, hraw, hvalid⟩
    refine ⟨url, hurl, ?_⟩
    rw [happ]
    exact hmeta

theorem accept_of_dial {parse : String → List (String × String)} {peerUuid connectionUuid : ℕ}
    {text : String} {peerMeta : PeerMeta}
    (h : dial parse peerUuid connectionUuid text = some peerMeta) (limits : RelayLimitsConfig)
    (serde : SerdeJson) {registry : SessionRegistry}
    (hfresh : registry.accepted peerMeta.peerId = none) :
    ∃ raw registry', registry.step limits serde (.accept raw peerUuid connectionUuid) =
      some registry' ∧
      registry'.accepted peerMeta.peerId = some peerMeta := by
  obtain ⟨url, raw, params, -, -, -, hvalid, hmeta⟩ := dial_eq_some_iff.mp h
  refine ⟨raw, { registry.getOrCreate limits serde ⟨params.serverId, params.version⟩ with
    accepted := Function.update registry.accepted peerMeta.peerId (some peerMeta) }, ?_, ?_⟩
  · simp only [SessionRegistry.step, hvalid, hmeta, Option.bind_some, hfresh, if_true]
  · exact Function.update_self _ _ _

/-! ## Spellings of an address -/

inductive Scheme where
  | http
  | https
  | ws
  | wss
deriving DecidableEq, Repr

def Scheme.text : Scheme → String
  | .http => "http"
  | .https => "https"
  | .ws => "ws"
  | .wss => "wss"

/-- The scheme of the websocket. -/
def Scheme.wire : Scheme → String
  | .http | .ws => "ws"
  | .https | .wss => "wss"

/-- A spelling of a relay's address. `spelled` says that the path is given, `slashes` counts
the slashes at the end. -/
structure RelayBase where
  scheme : Scheme
  authority : String
  spelled : Bool
  slashes : ℕ
  nonempty : authority ≠ ""
  clean : Url.Avoids ['/', '?', '#'] authority.toList

namespace RelayBase

def given (base : RelayBase) : String := if base.spelled then "/ws" else ""

def text (base : RelayBase) : String :=
  base.scheme.text ++ "://" ++ base.authority ++ base.given ++
    String.ofList (List.replicate base.slashes '/')

/-- The path that the url gets. -/
def path (base : RelayBase) : String :=
  if base.authority = "ws" ∧ base.spelled = false then "" else "/ws"

variable (base : RelayBase)

theorem given_of_spelled (h : base.spelled = true) : base.given = "/ws" := if_pos h

theorem given_of_not_spelled (h : base.spelled = false) : base.given = "" := by simp [given, h]

theorem trimEndMatches_text :
    trimEndMatches '/' base.text = base.scheme.text ++ "://" ++ base.authority ++ base.given := by
  apply trimEndMatches_append
  intro hlast
  cases hs : base.spelled with
  | true =>
    rw [base.given_of_spelled hs, String.toList_append,
      List.getLast?_append_of_ne_nil _ (by decide)] at hlast
    cases hlast
  | false =>
    have hnil : base.authority.toList ≠ [] := by simpa using base.nonempty
    rw [base.given_of_not_spelled hs, String.append_empty, String.toList_append,
      List.getLast?_append_of_ne_nil _ hnil] at hlast
    exact base.clean '/' (List.mem_of_getLast? hlast) (by decide)

theorem endsWith_ws (scheme : String) :
    endsWith "/ws" (scheme ++ "://" ++ base.authority ++ base.given) = true ↔
      base.authority = "ws" ∨ base.spelled = true := by
  rw [endsWith_iff]
  cases hs : base.spelled with
  | true =>
    rw [base.given_of_spelled hs, String.toList_append]
    exact iff_of_true (List.suffix_append _ _) (.inr rfl)
  | false =>
    have hcut : (scheme ++ "://" ++ base.authority ++ base.given).toList =
        (scheme ++ ":/").toList ++ '/' :: base.authority.toList := by
      simp [base.given_of_not_spelled hs]
    rw [hcut, or_iff_left Bool.false_ne_true]
    constructor
    · rintro ⟨before, hbefore⟩
      have hends :
          before ++ '/' :: ['w', 's'] = (scheme ++ ":/").toList ++ '/' :: base.authority.toList :=
        hbefore
      have hauthority := Url.eq_of_last_stop (by decide) (base.clean.of_subset (by simp)) hends
      rw [← String.toList_inj, ← hauthority]
      rfl
    · intro h
      rw [h]
      exact ⟨(scheme ++ ":/").toList, rfl⟩

theorem rewriteScheme_text (scheme : Scheme) (rest : String) :
    rewriteScheme (scheme.text ++ "://" ++ rest) = scheme.wire ++ "://" ++ rest := by
  unfold rewriteScheme
  cases scheme with
  | http =>
    have hstrip : stripPrefix "http://" (Scheme.http.text ++ "://" ++ rest) = some rest :=
      stripPrefix_append "http://" rest
    rw [hstrip]
    rfl
  | https =>
    have hnone : stripPrefix "http://" (Scheme.https.text ++ "://" ++ rest) = none :=
      stripPrefix_eq_none (by simp [Scheme.text])
    have hstrip : stripPrefix "https://" (Scheme.https.text ++ "://" ++ rest) = some rest :=
      stripPrefix_append "https://" rest
    rw [hnone, hstrip]
    rfl
  | ws =>
    rw [stripPrefix_eq_none (by simp [Scheme.text]), stripPrefix_eq_none (by simp [Scheme.text])]
    rfl
  | wss =>
    rw [stripPrefix_eq_none (by simp [Scheme.text]), stripPrefix_eq_none (by simp [Scheme.text])]
    rfl

theorem wsBase_text :
    wsBase base.text = base.scheme.wire ++ "://" ++ base.authority ++ base.path := by
  have hscheme : rewriteScheme (base.scheme.text ++ "://" ++ base.authority ++ base.given) =
      base.scheme.wire ++ "://" ++ base.authority ++ base.given := by
    rw [String.append_assoc, rewriteScheme_text, ← String.append_assoc]
  simp only [wsBase, trimEndMatches_text, hscheme, endsWith_ws]
  cases hs : base.spelled with
  | true => simp [path, base.given_of_spelled hs, hs]
  | false => by_cases hws :
      base.authority = "ws" <;> simp [path, base.given_of_not_spelled hs, hs, hws]

end RelayBase

/-! ## The query -/

def queryFields (serverId role : String) (connectionId : Option String) : List (String × String) :=
  [("serverId", serverId), ("role", role), ("v", "2")] ++
    (connectionId.map fun id => ("connectionId", id)).toList

section Query

variable {codec : QueryCodec} {serverId role : String} {connectionId : Option String}

theorem plain_queryFields : ∀ field ∈ queryFields serverId role connectionId, IsPlain field.1 := by
  have hplain :
      IsPlain "serverId" ∧ IsPlain "role" ∧ IsPlain "v" ∧ IsPlain "connectionId" := by decide
  cases connectionId <;> simp [queryFields, hplain]

theorem buildWsUrl_eq (hcodec : codec.Inverts) (hrole : IsPlain role) (relayBase : String) :
    buildWsUrl codec.encode relayBase serverId role connectionId =
      wsBase relayBase ++ "?" ++ codec.join (queryFields serverId role connectionId) := by
  have hr := hcodec.plain role hrole
  have hv := hcodec.plain "2" (by decide)
  rw [← String.toList_inj]
  cases connectionId <;> simp [buildWsUrl, QueryCodec.join, queryFields, hr, hv]

theorem parse_buildWsUrl (hcodec : codec.Inverts) (base : RelayBase) (serverId : String)
    (role : ConnectionRole) (connectionId : Option String) :
    Url.parse (buildWsUrl codec.encode base.text serverId role.asStr connectionId) =
      some ⟨base.scheme.wire, base.authority, base.path,
        some (codec.join (queryFields serverId role.asStr connectionId))⟩ := by
  have hrole : IsPlain role.asStr := by cases role <;> decide
  rw [buildWsUrl_eq hcodec hrole, RelayBase.wsBase_text]
  apply Url.parse_append
  · cases base.scheme <;> decide
  · exact base.clean
  · unfold RelayBase.path
    split_ifs <;> decide
  · unfold RelayBase.path
    split_ifs <;> simp
  · intro c hc hm
    obtain rfl := List.mem_singleton.mp hm
    rcases hcodec.join_escaped plain_queryFields _ hc with h | h
    · exact absurd h (by decide)
    · exact absurd h (by decide)

theorem deserialize_join (hcodec : codec.Inverts) :
    RawWsParams.deserialize (codec.parse (codec.join (queryFields serverId role connectionId))) =
      some ⟨some serverId, some role, some "2", connectionId⟩ := by
  rw [hcodec.parse_join _ plain_queryFields]
  exact deserialize_fields serverId role "2" connectionId

theorem dial_buildWsUrl (hcodec : codec.Inverts) {base : RelayBase} (hpath : base.path = "/ws")
    (serverId : String) (role : ConnectionRole) (connectionId : Option String)
    (peerUuid connectionUuid : ℕ) :
    dial codec.parse peerUuid connectionUuid
        (buildWsUrl codec.encode base.text serverId role.asStr connectionId) =
      match validateParams ⟨some serverId, some role.asStr, some "2", connectionId⟩ with
      | .ok params => buildPeerMeta params peerUuid connectionUuid
      | .error _ => none := by
  rw [dial, parse_buildWsUrl hcodec, Option.bind_some, hpath]
  simp only [app, Option.getD_some, deserialize_join hcodec, wsHandler]
  cases validateParams ⟨some serverId, some role.asStr, some "2", connectionId⟩ with
  | error error => rfl
  | ok params => rfl

theorem dial_eq_connectData (hcodec : codec.Inverts) {base : RelayBase} (hpath : base.path = "/ws")
    (serverId : String) (role : ConnectionRole) (id : String) (peerUuid connectionUuid : ℕ) :
    dial codec.parse peerUuid connectionUuid
        (buildWsUrl codec.encode base.text serverId role.asStr (some id)) =
      connectData role.asStr serverId id peerUuid connectionUuid := by
  have hdial := dial_buildWsUrl hcodec hpath serverId role (some id) peerUuid connectionUuid
  unfold connectData
  cases hvalid : validateParams ⟨some serverId, some role.asStr, some "2", some id⟩ with
  | error error =>
    rw [hvalid] at hdial
    exact hdial
  | ok params =>
    rw [hvalid] at hdial
    exact hdial

/-! ## Agreement -/

/-- The url does not depend on the spelling, and the relay reads from it what was meant. -/
structure Agrees (codec : QueryCodec) (base : RelayBase) (serverId : String)
    (connectionId : Option String) : Prop where
  same : ∀ other : RelayBase, other.scheme.wire = base.scheme.wire →
    other.authority = base.authority → ∀ role,
      buildWsUrl codec.encode other.text serverId role connectionId =
        buildWsUrl codec.encode base.text serverId role connectionId
  parsed : ∀ role : ConnectionRole, ∃ query raw,
    Url.parse (buildWsUrl codec.encode base.text serverId role.asStr connectionId) =
        some ⟨base.scheme.wire, base.authority, "/ws", some query⟩ ∧
      RawWsParams.deserialize (codec.parse query) = some raw ∧
      validateParams raw = .ok ⟨trim serverId, role, .v2, connectionId.map trim⟩
  control : ∀ peerUuid connectionUuid,
    connectControl codec.encode (dial codec.parse peerUuid connectionUuid) base.text serverId =
      .ok ⟨⟨peerUuid⟩, trim serverId, .server, .v2, none, .v2ServerControl⟩
  serverData : ∀ id ∈ connectionId, ∀ peerUuid connectionUuid,
    connectServerData codec.encode (dial codec.parse peerUuid connectionUuid) base.text
        serverId id =
      .ok ⟨⟨peerUuid⟩, trim serverId, .server, .v2, some (trim id), .v2ServerData (trim id)⟩
  clientData : ∀ peerUuid connectionUuid,
    connectClientData codec.encode (dial codec.parse peerUuid connectionUuid) base.text
        serverId connectionId =
      let id := (connectionId.map trim).getD (generateConnectionId connectionUuid)
      .ok ⟨⟨peerUuid⟩, trim serverId, .client, .v2, some id, .v2Client id⟩

theorem RelayBase.path_of_authority_ne {base : RelayBase} (h : base.authority ≠ "ws") :
    base.path = "/ws" := if_neg fun hws => h hws.1

theorem buildWsUrl_text {base other : RelayBase} (hwire : other.scheme.wire = base.scheme.wire)
    (hauthority : other.authority = base.authority) (hpath : other.path = base.path) :
    buildWsUrl codec.encode other.text serverId role connectionId =
      buildWsUrl codec.encode base.text serverId role connectionId := by
  have hbase : wsBase other.text = wsBase base.text := by
    rw [RelayBase.wsBase_text, RelayBase.wsBase_text, hwire, hauthority, hpath]
  simp only [buildWsUrl, hbase]

theorem connect_eq_ok (hcodec : codec.Inverts) {base : RelayBase} (hpath : base.path = "/ws")
    (hserver : trim serverId ≠ "") (hid : ∀ id ∈ connectionId, trim id ≠ "") (role : ConnectionRole)
    {peerUuid connectionUuid : ℕ} {peerMeta : PeerMeta}
    (hmeta : buildPeerMeta ⟨trim serverId, role, .v2, connectionId.map trim⟩ peerUuid
      connectionUuid =
      some peerMeta) :
    connect codec.encode (dial codec.parse peerUuid connectionUuid) base.text serverId role.asStr
      connectionId = .ok peerMeta := by
  have hvalid := validateParams_v2 hserver role connectionId
  rw [nonBlank_of_trim_ne hid] at hvalid
  have hdial :=
    dial_eq_some_iff.mpr ⟨_, _, _, parse_buildWsUrl hcodec base serverId role connectionId,
    hpath, deserialize_join hcodec, hvalid, hmeta⟩
  rw [connect, hdial]

theorem connect_eq_error (hcodec : codec.Inverts) {base : RelayBase} (hpath : base.path = "")
    (serverId : String) (role : ConnectionRole) (connectionId : Option String)
    (peerUuid connectionUuid : ℕ) :
    connect codec.encode (dial codec.parse peerUuid connectionUuid) base.text
        serverId role.asStr connectionId =
      .error ("failed to connect relay websocket: " ++
        buildWsUrl codec.encode base.text serverId role.asStr connectionId) := by
  have hdial : dial codec.parse peerUuid connectionUuid
      (buildWsUrl codec.encode base.text serverId role.asStr connectionId) = none := by
    rw [Option.eq_none_iff_forall_ne_some]
    intro peerMeta hmeta
    obtain ⟨url, raw, params, hurl, hws, -, -, -⟩ := dial_eq_some_iff.mp hmeta
    rw [parse_buildWsUrl hcodec, Option.some.injEq] at hurl
    have hempty : "" = "/ws" := by rw [← hws, ← hurl, hpath]
    exact absurd hempty (by decide)
  rw [connect, hdial]

theorem agrees_of_authority_ne (hcodec : codec.Inverts) {base : RelayBase}
    (hserver : trim serverId ≠ "") (hid : ∀ id ∈ connectionId, trim id ≠ "")
    (h : base.authority ≠ "ws") : Agrees codec base serverId connectionId := by
  have hpath := RelayBase.path_of_authority_ne h
  constructor
  case same =>
    intro other hwire hauthority role
    apply buildWsUrl_text hwire hauthority
    rw [hpath, RelayBase.path_of_authority_ne (hauthority ▸ h)]
  case parsed =>
    intro role
    have hparse := parse_buildWsUrl hcodec base serverId role connectionId
    rw [hpath] at hparse
    refine ⟨_, _, hparse, deserialize_join hcodec, ?_⟩
    rw [validateParams_v2 hserver, nonBlank_of_trim_ne hid]
  case control =>
    intro peerUuid connectionUuid
    exact connect_eq_ok hcodec hpath hserver (by simp) .server rfl
  case serverData =>
    intro id hm peerUuid connectionUuid
    exact connect_eq_ok hcodec hpath hserver (by simpa using hid id hm) .server rfl
  case clientData =>
    intro peerUuid connectionUuid
    apply connect_eq_ok hcodec hpath hserver hid .client
    cases connectionId <;> rfl

theorem not_agrees_of_authority_eq (hcodec : codec.Inverts) {base : RelayBase}
    (h : base.authority = "ws") : ¬ Agrees codec base serverId connectionId := by
  intro hagrees
  let bare : RelayBase := { base with spelled := false, slashes := 0 }
  have hbare : bare.path = "" := if_pos ⟨h, rfl⟩
  have hurl := parse_buildWsUrl hcodec bare serverId .client connectionId
  obtain ⟨query, raw, hparse, -, -⟩ := hagrees.parsed .client
  rw [hagrees.same bare rfl rfl, hparse, Option.some.injEq, Url.mk.injEq, hbare] at hurl
  exact absurd hurl.2.2.1 (by decide)

end Query

/-- A tool and the relay agree on a url for every spelling of every address, but for the
addresses whose authority is `ws`. -/
theorem agrees_iff {codec : QueryCodec} (hcodec : codec.Inverts) (base : RelayBase)
    {serverId : String} (hserver : trim serverId ≠ "") {connectionId : Option String}
    (hid : ∀ id ∈ connectionId, trim id ≠ "") :
    Agrees codec base serverId connectionId ↔ base.authority ≠ "ws" := by
  constructor
  · intro hagrees h
    exact not_agrees_of_authority_eq hcodec h hagrees
  · exact agrees_of_authority_ne hcodec hserver hid

/-- For instance, an id with a space and an ampersand, and an address with a port and a slash. -/
theorem agrees_of_localhost :
    Agrees formUrlencoded ⟨.http, "localhost:8787", false, 1, by decide, by decide⟩ "home"
      (some " a&b") := by
  have hid : ∀ id ∈ some " a&b", trim id ≠ "" := by
    intro id hm
    obtain rfl := Option.mem_some.mp hm
    decide
  exact (agrees_iff formUrlencoded_inverts ⟨.http, "localhost:8787", false, 1, by decide, by decide⟩
    (by decide) hid).mpr (by decide)

/-- A relay on a host named `ws` is dialled without the path, and answers with not found. -/
theorem not_agrees_of_hostWs :
    formUrlencoded.Inverts ∧ trim "home" ≠ "" ∧
      RelayBase.text ⟨.http, "ws", false, 0, by decide, by decide⟩ = "http://ws" ∧
      buildWsUrl percentEncode "http://ws" "home" "server" none =
        "ws://ws?serverId=home&role=server&v=2" ∧
      app formParse "" (some "serverId=home&role=server&v=2") true = .notFound ∧
      ¬ Agrees formUrlencoded ⟨.http, "ws", false, 0, by decide, by decide⟩ "home" none :=
  ⟨formUrlencoded_inverts, by decide, by decide, by decide +kernel, by decide,
    not_agrees_of_authority_eq formUrlencoded_inverts rfl⟩

end NodeAccess.Access
