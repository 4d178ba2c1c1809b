import NodeAccess.Relay.Registry

/-! # Noninterference between tenants

A tenant is one connection id of one session. What its sockets are sent depends on its
own events and on those of the session's control and v1 sockets: the events of other
connections and of other sessions can be deleted from a run.
-/

namespace NodeAccess.Relay

open Foundation

/-- The connection that a socket's kind names. -/
def PeerKind.connection : PeerKind → Option String
  | .v2ServerData id | .v2Client id => some id
  | _ => none

/-- The sockets that a connection may depend on: its own, and those of no connection. -/
def PeerMeta.Near (c : String) (peerMeta : PeerMeta) : Prop :=
  ∀ id, peerMeta.kind.connection = some id → id = c

instance (c : String) : DecidablePred (PeerMeta.Near c) := fun peerMeta =>
  inferInstanceAs (Decidable (∀ id ∈ peerMeta.kind.connection, id = c))

/-- What a connection can see of a session, equal in both states; the second state has no
other connection. -/
structure SessionState.Agrees (c : String) (state state' : SessionState) : Prop where
  connection : state'.connection c = state.connection c
  others : ∀ id, id ≠ c → state'.connection id = ⟨none, none, none⟩
  v1Server : state'.v1Server = state.v1Server
  v1Client : state'.v1Client = state.v1Client
  serverControl : state'.serverControl = state.serverControl

/-! ## Counting what is left -/

theorem total_le_of_get {κ ν : Type*} [DecidableEq κ] (f : ν → ℕ) {t t' : Table κ ν} {k : κ}
    (hk : t'.get k = t.get k) (hother : ∀ j, j ≠ k → t'.get j = none) : t'.total f ≤ t.total f := by
  cases hg : t.get k with
  | none =>
    have hempty : t' = ∅ := by
      apply Table.eq_empty_of_get
      intro j
      by_cases hj : j = k
      · rw [hj, hk, hg]
      · exact hother j hj
    rw [hempty]
    exact Nat.zero_le _
  | some v =>
    rw [hg] at hk
    have hrest : t'.remove k = ∅ := by
      apply Table.eq_empty_of_get
      intro j
      rw [Table.get_remove]
      split_ifs with hj
      · rfl
      · exact hother j hj
    have ht := Table.total_of_get f hk
    have ht' := Table.total_of_get f hg
    rw [hrest, Table.total_empty] at ht
    omega

namespace SessionState.Agrees

variable {c : String} {state state' : SessionState}

theorem countLiveSockets_le (h : state.Agrees c state') :
    countLiveSockets state' ≤ countLiveSockets state := by
  have hdata : state'.serverData.len ≤ state.serverData.len := by
    rw [Table.len_eq_total, Table.len_eq_total]
    exact total_le_of_get _ (congrArg Connection.server h.connection) fun id hid =>
      congrArg Connection.server (h.others id hid)
  have hclients : state'.clients.total Table.len ≤ state.clients.total Table.len :=
    total_le_of_get _ (congrArg Connection.clients h.connection) fun id hid =>
      congrArg Connection.clients (h.others id hid)
  unfold countLiveSockets
  rw [h.v1Server, h.v1Client, h.serverControl]
  omega

end SessionState.Agrees

/-! ## One event in two sessions that agree -/

section Step

variable {limits : RelayLimitsConfig} {serde : SerdeJson} {c : String} {state state' : SessionState}
  {peerMeta : PeerMeta} {event : SessionEvent}

theorem SessionEvent.connectionOp_of_by (hby : event.By peerMeta) {id : String} {op : ConnectionOp}
    (hop : event.connectionOp limits state = some (id, op)) :
    peerMeta.kind.connection = some id := by
  have horigin := SessionEvent.origin_of_connectionOp hop
  cases op with
  | attach handle | join handle =>
    obtain ⟨rfl, hk⟩ := horigin
    obtain rfl : handle.peerMeta = peerMeta := hby
    rw [hk]
    rfl
  | clientFrame frame | serverFrame frame =>
    obtain ⟨other, nowMs, rfl, hk⟩ := horigin
    obtain rfl : other = peerMeta := hby
    rw [hk]
    rfl
  | refuse | pingServer payload =>
    obtain ⟨other, rfl, hk⟩ := horigin
    obtain rfl : other = peerMeta := hby
    rw [hk]
    rfl
  | pingClient p payload | leave p | detach p =>
    obtain ⟨other, rfl, hk, -⟩ := horigin
    obtain rfl : other = peerMeta := hby
    rw [hk]
    rfl

theorem SessionEvent.near_of_connectionOp (limits : RelayLimitsConfig) (state : SessionState)
    (hby : event.By peerMeta) (hnear : peerMeta.Near c) (id : String) (op : ConnectionOp)
    (hop : event.connectionOp limits state = some (id, op)) : id = c :=
  hnear id (connectionOp_of_by hby hop)

theorem SessionState.Agrees.connectionOp_eq (h : state.Agrees c state') (hby : event.By peerMeta)
    (hnear : peerMeta.Near c)
    (hroom : ∀ other, event = .register other →
      ¬ limits.maxSocketsPerSession ≤ countLiveSockets state) :
    event.connectionOp limits state' = event.connectionOp limits state := by
  cases event with
  | register other =>
    obtain rfl : other = peerMeta := hby
    have hfull := hroom other rfl
    have hfull' : ¬ limits.maxSocketsPerSession ≤ countLiveSockets state' := fun hn =>
      hfull (hn.trans h.countLiveSockets_le)
    simp only [SessionEvent.connectionOp, if_neg hfull, if_neg hfull']
    cases hk : other.kind with
    | v2Client d =>
      obtain rfl : d = c := hnear d (by rw [hk]; rfl)
      dsimp only
      rw [h.connection]
    | _ => rfl
  | _ => rfl

theorem SessionState.Agrees.applied (h : state.Agrees c state')
    {op : Option (String × ConnectionOp)} (hop : ∀ id step, op = some (id, step) → id = c) :
    state'.applied op c = state.applied op c ∧
      ∀ id, id ≠ c → state'.applied op id = ⟨none, none, none⟩ := by
  cases op with
  | none => exact ⟨h.connection, h.others⟩
  | some touched =>
    obtain ⟨d, op⟩ := touched
    obtain rfl := hop d op rfl
    simp only [SessionState.applied, if_true, h.connection, true_and]
    intro id hid
    rw [if_neg hid]
    exact h.others id hid

theorem SessionState.Agrees.opSends (h : state.Agrees c state')
    {op : Option (String × ConnectionOp)} (hop : ∀ id step, op = some (id, step) → id = c) :
    state'.opSends op = state.opSends op := by
  cases op with
  | none => rfl
  | some touched =>
    obtain ⟨d, op⟩ := touched
    obtain rfl := hop d op rfl
    rw [SessionState.opSends, SessionState.opSends, h.connection]

theorem register_slots_of_room (serde : SerdeJson) (peerMeta : PeerMeta)
    (hroom : ¬ limits.maxSocketsPerSession ≤ countLiveSockets state) :
    let next := (register serde limits state ⟨peerMeta⟩).state
    next.v1Server = (if peerMeta.kind = .v1Server then some ⟨peerMeta⟩ else state.v1Server) ∧
      next.v1Client = (if peerMeta.kind = .v1Client then some ⟨peerMeta⟩ else state.v1Client) ∧
      next.serverControl =
        (if peerMeta.kind = .v2ServerControl then some ⟨peerMeta⟩ else state.serverControl) := by
  simp only [register, if_neg hroom]
  cases hk : peerMeta.kind with
  | v2ServerData d => simp [flushPendingLocked_eq]
  | v2Client d =>
    by_cases hlen : limits.maxClientsPerConnection ≤ ((state.clients.get d).getD ∅).len <;>
      simp [hlen]
  | _ => simp

theorem register_nudge_of_room (hroom : ¬ limits.maxSocketsPerSession ≤ countLiveSockets state) :
    (register serde limits state ⟨peerMeta⟩).nudge =
      match peerMeta.kind with
      | .v2Client d => if limits.maxClientsPerConnection ≤ (state.connection d).members.len then
          none
          else some d
      | _ => none := by
  simp only [register, if_neg hroom]
  cases hk : peerMeta.kind with
  | v2Client d =>
    by_cases hlen : limits.maxClientsPerConnection ≤ ((state.clients.get d).getD ∅).len <;>
      simp [Connection.members, SessionState.connection, hlen]
  | _ => rfl

end Step

section Core

variable {session : RelaySession} {c : String} {core core' next next' : Core} {peerMeta : PeerMeta}
  {event : SessionEvent} {sends sends' : List Send}

theorem Core.agrees_of_steps (h : core.state.Agrees c core'.state) (hby : event.By peerMeta)
    (hnear : peerMeta.Near c)
    (hroom : ∀ other, event = .register other →
      ¬ session.limits.maxSocketsPerSession ≤ countLiveSockets core.state)
    (hs : core.step session event = some (next, sends))
    (hs' : core'.step session event = some (next', sends')) :
    next.state.Agrees c next'.state := by
  have hop := h.connectionOp_eq hby hnear hroom
  have happ := h.applied (SessionEvent.near_of_connectionOp session.limits core.state hby hnear)
  have hslots : next'.state.v1Server = next.state.v1Server ∧
      next'.state.v1Client = next.state.v1Client ∧
        next'.state.serverControl = next.state.serverControl := by
    cases event with
    | register other =>
      have hfull := hroom other rfl
      have hfull' : ¬ session.limits.maxSocketsPerSession ≤ countLiveSockets core'.state :=
        fun hn =>
        hfull (hn.trans h.countLiveSockets_le)
      have hr := register_slots_of_room session.serde other hfull
      have hr' := register_slots_of_room session.serde other hfull'
      dsimp only at hr hr'
      rw [(Core.step_register hs).2.1, (Core.step_register hs').2.1, hr.1, hr.2.1, hr.2.2, hr'.1,
        hr'.2.1, hr'.2.2, h.v1Server, h.v1Client, h.serverControl]
      exact ⟨rfl, rfl, rfl⟩
    | frame other frame nowMs =>
      have hr := handleFrame_slots session.serde core.state other frame nowMs
      have hr' := handleFrame_slots session.serde core'.state other frame nowMs
      dsimp only at hr hr'
      rw [(Core.step_frame hs).2.1, (Core.step_frame hs').2.1, hr.1, hr.2.1, hr.2.2, hr'.1,
        hr'.2.1, hr'.2.2]
      exact ⟨h.v1Server, h.v1Client, h.serverControl⟩
    | ping other payload =>
      rw [(Core.step_ping hs).2.1, (Core.step_ping hs').2.1]
      exact ⟨h.v1Server, h.v1Client, h.serverControl⟩
    | unregister other =>
      have hr := unregister_slots session.serde core.state other
      have hr' := unregister_slots session.serde core'.state other
      dsimp only at hr hr'
      rw [(Core.step_unregister hs).2.1, (Core.step_unregister hs').2.1, hr.1, hr.2.1, hr.2.2,
        hr'.1, hr'.2.1, hr'.2.2, h.v1Server, h.v1Client, h.serverControl]
      exact ⟨rfl, rfl, rfl⟩
    | nudge p =>
      obtain ⟨id, stage, -, rfl, -⟩ := Core.step_nudge hs
      obtain ⟨id', stage', -, rfl, -⟩ := Core.step_nudge hs'
      exact ⟨h.v1Server, h.v1Client, h.serverControl⟩
  constructor
  · rw [Core.step_connection hs, Core.step_connection hs', hop]
    exact happ.1
  · intro id hid
    rw [Core.step_connection hs', hop]
    exact happ.2 id hid
  · exact hslots.1
  · exact hslots.2.1
  · exact hslots.2.2

/-- An event of a near socket can be made in the other session, with the same effect on the
sockets that the two sessions agree on. -/
theorem Core.step_near (h : core.state.Agrees c core'.state)
    (hphase : core'.phase peerMeta.peerId = core.phase peerMeta.peerId)
    (htask : core'.task peerMeta.peerId = core.task peerMeta.peerId)
    (hown : ∀ id stage, core.task peerMeta.peerId = some (id, stage) → id = c)
    (hby : event.By peerMeta) (hnear : peerMeta.Near c)
    (hroom : ∀ other, event = .register other →
      ¬ session.limits.maxSocketsPerSession ≤ countLiveSockets core.state)
    (hs : core.step session event = some (next, sends)) :
    ∃ next' sends', core'.step session event = some (next', sends') ∧
      ∀ p, (core'.phase p = core.phase p → next'.phase p = next.phase p) ∧
        (core'.task p = core.task p → next'.task p = next.task p) := by
  have hupdate : ∀ {α : Type} (f g : PeerId → α) (q p : PeerId) (a : α), f p = g p →
      Function.update f q a p = Function.update g q a p := by
    intro α f g q p a hp
    by_cases hq : p = q
    · rw [hq, Function.update_self, Function.update_self]
    · rw [Function.update_of_ne hq, Function.update_of_ne hq, hp]
  cases event with
  | register other =>
    obtain rfl : other = peerMeta := hby
    obtain ⟨hg, -, -, hp, ht⟩ := Core.step_register hs
    have hfull := hroom other rfl
    have hfull' : ¬ session.limits.maxSocketsPerSession ≤ countLiveSockets core'.state := fun hn =>
      hfull (hn.trans h.countLiveSockets_le)
    have hmembers : ∀ id, other.kind = .v2Client id →
        (core'.state.connection id).members = (core.state.connection id).members := by
      intro id hk
      obtain rfl : id = c := hnear id (by rw [hk]; rfl)
      rw [h.connection]
    have hok : (register session.serde session.limits core'.state ⟨other⟩).result.isOk =
        (register session.serde session.limits core.state ⟨other⟩).result.isOk := by
      rw [Bool.eq_iff_iff, register_isOk, register_isOk]
      simp only [hfull, hfull', not_false_iff, true_and]
      apply forall₂_congr
      intro id hk
      rw [hmembers id hk]
    have hnudge : (register session.serde session.limits core'.state ⟨other⟩).nudge =
        (register session.serde session.limits core.state ⟨other⟩).nudge := by
      rw [register_nudge_of_room hfull, register_nudge_of_room hfull']
      cases hk : other.kind with
      | v2Client id =>
        dsimp only
        rw [hmembers id hk]
      | _ => rfl
    refine ⟨_, _, if_pos ⟨hphase.trans hg.1, hg.2⟩, ?_⟩
    intro p
    rw [hp, ht]
    dsimp only
    rw [hok, hnudge]
    exact ⟨hupdate _ _ _ _ _, hupdate _ _ _ _ _⟩
  | frame other frame nowMs =>
    obtain rfl : other = peerMeta := hby
    obtain ⟨hg, rfl, -⟩ := Core.step_frame hs
    exact ⟨_, _, if_pos (hphase.trans hg), fun p => ⟨id, id⟩⟩
  | ping other payload =>
    obtain rfl : other = peerMeta := hby
    obtain ⟨hg, rfl, -⟩ := Core.step_ping hs
    exact ⟨_, _, if_pos (hphase.trans hg), fun p => ⟨id, id⟩⟩
  | unregister other =>
    obtain rfl : other = peerMeta := hby
    obtain ⟨hg, rfl, -⟩ := Core.step_unregister hs
    exact ⟨_, _, if_pos (hphase.trans hg), fun p => ⟨hupdate _ _ _ _ _, id⟩⟩
  | nudge q =>
    obtain rfl : q = peerMeta.peerId := hby
    obtain ⟨id, stage, hq, rfl, -⟩ := Core.step_nudge hs
    obtain rfl := hown id stage hq
    have hstage : (nudgeOrResetControl session.serde core'.state id stage).1 =
        (nudgeOrResetControl session.serde core.state id stage).1 := by
      have hclient : hasClientSocket core'.state id = hasClientSocket core.state id :=
        congrArg (fun clients => Option.any (fun t => Table.len t != 0) clients)
          (congrArg Connection.clients h.connection)
      have hserver : hasServerDataSocket core'.state id = hasServerDataSocket core.state id :=
        congrArg Option.isSome (congrArg Connection.server h.connection)
      cases stage with
      | checkClient => rw [nudgeOrResetControl, nudgeOrResetControl, hclient]
      | checkData => rw [nudgeOrResetControl, nudgeOrResetControl, hserver]
      | recheckClient => rw [nudgeOrResetControl, nudgeOrResetControl, hclient]
      | recheckData => rw [nudgeOrResetControl, nudgeOrResetControl, hserver]
      | _ => rfl
    refine ⟨_, _, by rw [Core.step, htask, hq], ?_⟩
    intro p
    dsimp only
    rw [hstage]
    exact ⟨fun hp => hp, hupdate _ _ _ _ _⟩

theorem Core.step_far (h : core.state.Agrees c core'.state) (hby : event.By peerMeta)
    (hfar : ¬ peerMeta.Near c) (hs : core.step session event = some (next, sends)) :
    next.state.Agrees c core'.state ∧ ∀ p, p ≠ peerMeta.peerId →
      next.phase p = core.phase p ∧ next.task p = core.task p := by
  have hkind : ∀ kind : PeerKind, kind.connection = none → peerMeta.kind ≠ kind := by
    intro kind hk he
    apply hfar
    intro id hid
    rw [he, hk] at hid
    cases hid
  have hconn : next.state.connection c = core.state.connection c := by
    rw [Core.step_connection hs]
    unfold SessionState.applied
    cases hop : event.connectionOp session.limits core.state with
    | none => rfl
    | some touched =>
      have ht := SessionEvent.connectionOp_of_by hby (show _ = some (touched.1, touched.2) from hop)
      dsimp only
      rw [if_neg]
      rintro rfl
      apply hfar
      intro id hid
      rw [ht] at hid
      exact (Option.some.inj hid).symm
  have hrest :
      (next.state.v1Server = core.state.v1Server ∧ next.state.v1Client = core.state.v1Client ∧
      next.state.serverControl = core.state.serverControl) ∧ ∀ p, p ≠ peerMeta.peerId →
      next.phase p = core.phase p ∧ next.task p = core.task p := by
    cases event with
    | register other =>
      obtain rfl : other = peerMeta := hby
      obtain ⟨-, hstate, -, hp, ht⟩ := Core.step_register hs
      have hr := register_slots session.serde session.limits core.state other
      dsimp only at hr
      rw [hstate, hp, ht]
      constructor
      · exact ⟨hr.1.resolve_right fun hn => hkind _ rfl hn.1.2,
          hr.2.1.resolve_right fun hn => hkind _ rfl hn.1.2,
          hr.2.2.resolve_right fun hn => hkind _ rfl hn.1.2⟩
      · intro p hne
        exact ⟨Function.update_of_ne hne _ _, Function.update_of_ne hne _ _⟩
    | frame other frame nowMs =>
      obtain ⟨-, rfl, -⟩ := Core.step_frame hs
      exact ⟨handleFrame_slots session.serde core.state other frame nowMs, fun _ _ => ⟨rfl, rfl⟩⟩
    | ping other payload =>
      obtain ⟨-, rfl, -⟩ := Core.step_ping hs
      exact ⟨⟨rfl, rfl, rfl⟩, fun _ _ => ⟨rfl, rfl⟩⟩
    | unregister other =>
      obtain rfl : other = peerMeta := hby
      obtain ⟨-, rfl, -⟩ := Core.step_unregister hs
      have hr := unregister_slots session.serde core.state other
      dsimp only at hr
      rw [if_neg (hkind .v1Server rfl), if_neg (hkind .v1Client rfl),
        if_neg (hkind .v2ServerControl rfl)] at hr
      exact ⟨hr, fun p hne => ⟨Function.update_of_ne hne _ _, rfl⟩⟩
    | nudge q =>
      obtain rfl : q = peerMeta.peerId := hby
      obtain ⟨id, stage, -, rfl, -⟩ := Core.step_nudge hs
      exact ⟨⟨rfl, rfl, rfl⟩, fun p hne => ⟨rfl, Function.update_of_ne hne _ _⟩⟩
  refine ⟨⟨h.connection.trans hconn.symm, h.others, ?_, ?_, ?_⟩, hrest.2⟩
  · exact h.v1Server.trans hrest.1.1.symm
  · exact h.v1Client.trans hrest.1.2.1.symm
  · exact h.serverControl.trans hrest.1.2.2.symm

end Core

/-! ## Who is sent something -/

theorem deliver_append_of_ne {sends rest : List Send} {p : PeerId}
    (h : ∀ send ∈ rest, send.target ≠ p) (pace : List Gap) (queue : PeerId → PeerQueue) :
    deliver (sends ++ rest) pace queue p = deliver sends pace queue p := by
  induction sends generalizing pace queue with
  | nil => exact deliver_of_ne h pace queue
  | cons send sends ih => exact ih _ _

theorem deliver_congr (sends : List Send) (pace : List Gap) {queue queue' : PeerId → PeerQueue}
    {p : PeerId} (h : queue' p = queue p) :
    deliver sends pace queue' p = deliver sends pace queue p := by
  induction sends generalizing pace queue queue' with
  | nil => exact h
  | cons send sends ih =>
    apply ih
    by_cases hp : p = send.target
    · rw [← hp, Function.update_self, Function.update_self, h]
    · rw [Function.update_of_ne hp, Function.update_of_ne hp, h]

/-- The peers of a session are the sockets that were accepted for it, and the nudge tasks
are those of its clients. -/
structure Core.Known (who : PeerId → Option PeerMeta) (core : Core) : Prop where
  phase : ∀ p peerMeta, core.phase p = .registered peerMeta → who p = some peerMeta
  task : ∀ p id stage, core.task p = some (id, stage) →
    ∃ peerMeta, who p = some peerMeta ∧ peerMeta.kind = .v2Client id

section Known

variable {session : RelaySession} {who : PeerId → Option PeerMeta} {core next : Core}
  {peerMeta : PeerMeta} {event : SessionEvent} {sends : List Send}

theorem register_nudge_kind {serde : SerdeJson} {limits : RelayLimitsConfig} {state : SessionState}
    {id : String} (h : (register serde limits state ⟨peerMeta⟩).nudge = some id) :
    peerMeta.kind = .v2Client id := by
  by_cases hfull : limits.maxSocketsPerSession ≤ countLiveSockets state
  · rw [register, if_pos hfull] at h
    cases h
  · rw [register_nudge_of_room hfull] at h
    cases hk : peerMeta.kind with
    | v2Client d =>
      simp only [hk] at h
      split_ifs at h
      rw [Option.some.inj h]
    | _ => simp [hk] at h

theorem Core.Known.step (h : core.Known who) (hwho : who peerMeta.peerId = some peerMeta)
    (hby : event.By peerMeta) (hs : core.step session event = some (next, sends)) :
    next.Known who := by
  constructor
  · intro p other hp
    rcases Core.step_phase hs p with he | ⟨m, rfl, rfl, -, hr | hg⟩ | ⟨_, -, -, -, hg⟩
    · exact h.phase p other (he ▸ hp)
    · obtain rfl : m = peerMeta := hby
      rw [hp, Phase.registered.injEq] at hr
      rw [hr, hwho]
    · rw [hg] at hp
      cases hp
    · rw [hg] at hp
      cases hp
  · intro p id stage ht
    cases event with
    | register other =>
      obtain rfl : other = peerMeta := hby
      obtain ⟨-, -, -, -, htask⟩ := Core.step_register hs
      rw [htask] at ht
      by_cases hp : p = other.peerId
      · rw [hp, Function.update_self, Option.map_eq_some_iff] at ht
        obtain ⟨d, hd, he⟩ := ht
        cases he
        exact ⟨other, by rw [hp, hwho], register_nudge_kind hd⟩
      · rw [Function.update_of_ne hp] at ht
        exact h.task p id stage ht
    | frame other frame nowMs =>
      obtain ⟨-, rfl, -⟩ := Core.step_frame hs
      exact h.task p id stage ht
    | ping other payload =>
      obtain ⟨-, rfl, -⟩ := Core.step_ping hs
      exact h.task p id stage ht
    | unregister other =>
      obtain ⟨-, rfl, -⟩ := Core.step_unregister hs
      exact h.task p id stage ht
    | nudge q =>
      obtain ⟨d, old, hq, rfl, -⟩ := Core.step_nudge hs
      dsimp only at ht
      by_cases hp : p = q
      · rw [hp, Function.update_self, Option.map_eq_some_iff] at ht
        obtain ⟨later, -, he⟩ := ht
        cases he
        rw [hp]
        exact h.task q _ old hq
      · rw [Function.update_of_ne hp] at ht
        exact h.task p id stage ht

theorem Core.Known.slot (h : core.Known who) (hsound : core.Sound session) {handle : PeerHandle}
    (hm : handle ∈ core.state.slots) :
    who handle.peerMeta.peerId = some handle.peerMeta ∧ handle.peerMeta.kind.connection = none := by
  have ho := hsound.slot_owned hm
  refine ⟨h.phase _ _ ho.1, ?_⟩
  cases hk : handle.peerMeta.kind with
  | v2ServerData d => exact absurd hk (ho.2.1 d)
  | v2Client d => exact absurd hk (ho.2.2 d)
  | _ => rfl

theorem Core.Known.opSends_target (h : core.Known who) (hsound : core.Sound session)
    (hwho : who peerMeta.peerId = some peerMeta) (hby : event.By peerMeta) {id : String}
    {op : ConnectionOp} (hop : event.connectionOp session.limits core.state = some (id, op))
    {send : Send} (hm : send ∈ (core.state.connection id).sends op) :
    ∃ other, who send.target = some other ∧ other.kind.connection = some id := by
  have hk := hsound.connection id
  rcases Connection.sends_target hm with ⟨handle, hh, ht⟩ | ⟨p, handle, hh, ht⟩ | ⟨handle, rfl, ht⟩
  · have ho := hk.server handle hh
    exact ⟨handle.peerMeta, by rw [ht, h.phase _ _ ho.1], by rw [ho.2]; rfl⟩
  · have ho := hk.client p handle hh
    exact ⟨handle.peerMeta, by rw [ht, ho.1, h.phase _ _ ho.2.1], by rw [ho.2.2]; rfl⟩
  · have ho := SessionEvent.origin_of_connectionOp hop
    rw [ho.1] at hby
    have he : handle.peerMeta = peerMeta := hby
    exact ⟨handle.peerMeta, by rw [ht, he, hwho], by rw [ho.2]; rfl⟩

theorem Core.Known.step_sends (h : core.Known who) (hsound : core.Sound session)
    (hwho : who peerMeta.peerId = some peerMeta) (hby : event.By peerMeta)
    (hs : core.step session event = some (next, sends)) {p : PeerId} {other : PeerMeta} {c : String}
    (hp : who p = some other) (hc : other.kind.connection = some c) : ∃ rest,
    sends = core.state.opSends (event.connectionOp session.limits core.state) ++ rest ∧
      ∀ send ∈ rest, send.target ≠ p := by
  obtain ⟨rest, he, hrest⟩ := Core.step_sends hs
  refine ⟨rest, he, ?_⟩
  intro send hm ht
  obtain ⟨handle, hh, he⟩ := hrest send hm
  have hslot : ∃ m, who handle.peerMeta.peerId = some m ∧ m.kind.connection = none := by
    rcases List.mem_append.mp hh with hh | hh
    · exact ⟨_, h.slot hsound hh⟩
    · exact ⟨_, (h.step hwho hby hs).slot (hsound.step hs) hh⟩
  obtain ⟨m, hm', hnone⟩ := hslot
  rw [← he, ht, hp, Option.some.injEq] at hm'
  rw [← hm', hc] at hnone
  cases hnone

theorem Core.Known.opSends_ne (h : core.Known who) (hsound : core.Sound session)
    (hwho : who peerMeta.peerId = some peerMeta) (hby : event.By peerMeta) {p : PeerId}
    {other : PeerMeta} {c : String} (hp : who p = some other) (hc : other.kind.connection = some c)
    (hop : ∀ op, event.connectionOp session.limits core.state ≠ some (c, op)) :
    ∀ send ∈ core.state.opSends (event.connectionOp session.limits core.state),
      send.target ≠ p := by
  intro send hm ht
  cases hopt : event.connectionOp session.limits core.state with
  | none =>
    rw [hopt] at hm
    cases hm
  | some touched =>
    rw [hopt] at hm
    obtain ⟨m, hw, hk⟩ := h.opSends_target hsound hwho hby
      (show _ = some (touched.1, touched.2) from hopt) hm
    rw [ht, hp, Option.some.injEq] at hw
    rw [← hw, hc, Option.some.injEq] at hk
    apply hop touched.2
    rw [hopt, hk]

end Known

/-! ## Two sessions of one key -/

/-- The sockets near a connection stand alike in both worlds, and its own have equal queues. -/
structure World.Agrees (who : PeerId → Option PeerMeta) (c : String) (world world' : World) :
    Prop where
  state : world.state.Agrees c world'.state
  phase : ∀ p peerMeta, who p = some peerMeta → peerMeta.Near c → world'.phase p = world.phase p
  task : ∀ p peerMeta, who p = some peerMeta → peerMeta.Near c → world'.task p = world.task p
  queue : ∀ p peerMeta, who p = some peerMeta → peerMeta.kind.connection = some c →
    world'.queue p = world.queue p

/-- A reachable world, as far as noninterference is concerned. -/
structure World.Proper (session : RelaySession) (who : PeerId → Option PeerMeta) (world : World) :
    Prop where
  sound : world.toCore.Sound session
  known : world.toCore.Known who

section World

variable {session : RelaySession} {who : PeerId → Option PeerMeta} {c : String}
  {world world' next : World} {peerMeta : PeerMeta} {event : WorldEvent}

theorem PeerMeta.near_of_connection (h : peerMeta.kind.connection = some c) : peerMeta.Near c := by
  intro id hid
  rw [h, Option.some.injEq] at hid
  exact hid.symm

theorem World.Proper.step (h : world.Proper session who)
    (hwho : who peerMeta.peerId = some peerMeta) (hby : event.By peerMeta)
    (hs : world.step session event = some next) : next.Proper session who := by
  refine ⟨World.sound_step h.sound hs, ?_⟩
  cases event with
  | session event pace =>
    obtain ⟨sends, hstep, -⟩ := World.step_session hs
    exact h.known.step hwho hby hstep
  | queue p work =>
    rw [(World.step_queue hs).2.1]
    exact h.known

theorem World.Agrees.step_near (h : world.Agrees who c world') (hp : world.Proper session who)
    (hp' : world'.Proper session who) (hwho : who peerMeta.peerId = some peerMeta)
    (hby : event.By peerMeta) (hnear : peerMeta.Near c)
    (hroom : ∀ other pace, event = .session (.register other) pace →
      ¬ session.limits.maxSocketsPerSession ≤ countLiveSockets world.state)
    (hs : world.step session event = some next) :
    ∃ next', world'.step session event = some next' ∧ next.Agrees who c next' := by
  cases event with
  | session event pace =>
    obtain ⟨sends, hstep, hqueue⟩ := World.step_session hs
    have hroom' : ∀ other, event = .register other →
        ¬ session.limits.maxSocketsPerSession ≤ countLiveSockets world.state := fun other he =>
      hroom other pace (by rw [he])
    have hown : ∀ id stage, world.task peerMeta.peerId = some (id, stage) → id = c := by
      intro id stage ht
      obtain ⟨other, ho, hk⟩ := hp.known.task _ _ _ ht
      rw [hwho, Option.some.injEq] at ho
      exact hnear id (by rw [ho, hk]; rfl)
    obtain ⟨core', sends', hstep', hsame⟩ := Core.step_near h.state (h.phase _ _ hwho hnear)
      (h.task _ _ hwho hnear) hown hby hnear hroom' hstep
    refine ⟨⟨core', deliver sends' pace world'.queue⟩, by rw [World.step, hstep']; rfl, ?_⟩
    constructor
    · exact Core.agrees_of_steps h.state hby hnear hroom' hstep hstep'
    · intro p other ho hn
      exact (hsame p).1 (h.phase p other ho hn)
    · intro p other ho hn
      exact (hsame p).2 (h.task p other ho hn)
    · intro p other ho hc
      obtain ⟨rest, he, hrest⟩ := hp.known.step_sends hp.sound hwho hby hstep ho hc
      obtain ⟨rest', he', hrest'⟩ := hp'.known.step_sends hp'.sound hwho hby hstep' ho hc
      have hops : world'.state.opSends (event.connectionOp session.limits world'.state) =
          world.state.opSends (event.connectionOp session.limits world.state) := by
        rw [h.state.connectionOp_eq hby hnear hroom', h.state.opSends
          (SessionEvent.near_of_connectionOp session.limits world.state hby hnear)]
      calc deliver sends' pace world'.queue p
          = deliver (world'.state.opSends (event.connectionOp session.limits world'.state)) pace
              world'.queue p := by rw [he', deliver_append_of_ne hrest']
        _ = deliver (world.state.opSends (event.connectionOp session.limits world.state)) pace
              world.queue p := by rw [hops, deliver_congr _ _ (h.queue p other ho hc)]
        _ = next.queue p := by rw [hqueue, he, deliver_append_of_ne hrest]
  | queue q work =>
    obtain rfl : q = peerMeta.peerId := hby
    simp only [World.step, Option.ite_none_left_eq_some, Option.some.injEq] at hs
    obtain ⟨hphase, rfl⟩ := hs
    have hphase' : world'.phase peerMeta.peerId ≠ .fresh := by
      rwa [h.phase _ _ hwho hnear]
    refine ⟨_, if_neg hphase', h.state, h.phase, h.task, ?_⟩
    intro p other ho hc
    dsimp only
    by_cases he : p = peerMeta.peerId
    · subst he
      rw [Function.update_self, Function.update_self, h.queue _ other ho hc]
    · rw [Function.update_of_ne he, Function.update_of_ne he, h.queue p other ho hc]

theorem World.Agrees.step_far (h : world.Agrees who c world') (hp : world.Proper session who)
    (hwho : who peerMeta.peerId = some peerMeta) (hby : event.By peerMeta)
    (hfar : ¬ peerMeta.Near c) (hs : world.step session event = some next) :
    next.Agrees who c world' := by
  have hne : ∀ p other, who p = some other → other.Near c → p ≠ peerMeta.peerId := by
    rintro p other ho hn rfl
    rw [hwho, Option.some.injEq] at ho
    rw [ho] at hfar
    exact hfar hn
  cases event with
  | session event pace =>
    obtain ⟨sends, hstep, hqueue⟩ := World.step_session hs
    obtain ⟨hstate, hsame⟩ := Core.step_far h.state hby hfar hstep
    constructor
    · exact hstate
    · intro p other ho hn
      rw [(hsame p (hne p other ho hn)).1]
      exact h.phase p other ho hn
    · intro p other ho hn
      rw [(hsame p (hne p other ho hn)).2]
      exact h.task p other ho hn
    · intro p other ho hc
      obtain ⟨rest, he, hrest⟩ := hp.known.step_sends hp.sound hwho hby hstep ho hc
      have hnone := hp.known.opSends_ne hp.sound hwho hby ho hc fun op hop =>
        hfar (PeerMeta.near_of_connection (SessionEvent.connectionOp_of_by hby hop))
      rw [hqueue, he, deliver_append_of_ne hrest, deliver_of_ne hnone]
      exact h.queue p other ho hc
  | queue q work =>
    obtain rfl : q = peerMeta.peerId := hby
    simp only [World.step, Option.ite_none_left_eq_some, Option.some.injEq] at hs
    obtain ⟨-, rfl⟩ := hs
    refine ⟨h.state, h.phase, h.task, ?_⟩
    intro p other ho hc
    dsimp only
    rw [Function.update_of_ne (hne p other ho (PeerMeta.near_of_connection hc))]
    exact h.queue p other ho hc

end World

end NodeAccess.Relay
