import NodeAccess.Relay.Forwarding
import NodeAccess.Relay.Noninterference

/-! # Tenants of the relay

Noninterference over whole runs of the registry: a connection's sockets are queued the
same messages in the run that keeps only the events near the connection, and every frame
among them was handed in by a socket of the same connection.
-/

namespace NodeAccess.Relay

open Foundation

/-- The peer that an event belongs to. A refused request belongs to none. -/
def RegistryEvent.owner : RegistryEvent → Option PeerMeta
  | .accept raw peerUuid connectionUuid =>
    match validateParams raw with
    | .ok params => buildPeerMeta params peerUuid connectionUuid
    | .error _ => none
  | .peer peerMeta _ => some peerMeta

/-- Kept for a connection: all but the events of other sessions' peers and of other
connections' sockets. -/
def RegistryEvent.isNear (key : SessionKey) (c : String) (event : RegistryEvent) : Bool :=
  event.owner.all fun peerMeta => peerMeta.key = key ∧ peerMeta.Near c

/-- A registration that finds the session's sockets all in use. -/
def SessionRegistry.refuses (limits : RelayLimitsConfig) (registry : SessionRegistry) :
    RegistryEvent → Bool
  | .peer peerMeta (.session (.register _) _) =>
    (registry.sessions.get peerMeta.key).any fun world =>
      limits.maxSocketsPerSession ≤ countLiveSockets world.state
  | _ => false

namespace SessionRegistry

variable {limits : RelayLimitsConfig} {serde : SerdeJson} {who : PeerId → Option PeerMeta}
  {key : SessionKey} {c : String} {registry registry' next : SessionRegistry}

/-- The session of a key, as its first peer would find it. -/
def world (limits : RelayLimitsConfig) (serde : SerdeJson) (registry : SessionRegistry)
    (key : SessionKey) : World :=
  (registry.sessions.get key).getD (World.init (newSession limits serde key))

theorem world_orInsert (accepted : PeerId → Option PeerMeta) (other : SessionKey) :
    world limits serde ⟨registry.sessions.orInsert other
      (World.init (newSession limits serde other)), accepted⟩ key =
        registry.world limits serde key := by
  unfold world
  by_cases hk : key = other
  · subst hk
    simp [Table.get_orInsert_self]
  · simp [Table.get_orInsert_of_ne hk]

theorem world_insert (accepted : PeerId → Option PeerMeta) (other : SessionKey) (w : World) :
    world limits serde ⟨registry.sessions.insert other w, accepted⟩ key =
      if key = other then w else registry.world limits serde key := by
  unfold world
  rw [Table.get_insert]
  split_ifs <;> rfl

theorem world_of_get {w : World} (h : registry.sessions.get key = some w) :
    registry.world limits serde key = w := by
  rw [world, h, Option.getD_some]

theorem queue_eq (serde : SerdeJson) (peerMeta : PeerMeta) : registry.queue limits peerMeta =
    (registry.world limits serde peerMeta.key).queue peerMeta.peerId := by
  unfold queue world
  cases registry.sessions.get peerMeta.key <;> rfl

theorem proper_init (session : RelaySession) : (World.init session).Proper session who where
  sound := Core.sound_init session
  known := by
    constructor
    · intro p peerMeta hp
      cases hp
    · intro p id stage ht
      cases ht

theorem run_proper (key : SessionKey) {ms : List (Move SessionRegistry RegistryEvent)}
    (hrun : Run (step limits serde) init ms registry)
    (hwho : ∀ p peerMeta, registry.accepted p = some peerMeta → who p = some peerMeta) :
    (registry.world limits serde key).Proper (newSession limits serde key) who := by
  revert hwho
  apply hrun.invariant (P := fun r => (∀ p peerMeta, r.accepted p = some peerMeta →
    who p = some peerMeta) → (r.world limits serde key).Proper (newSession limits serde key) who)
  · intro _
    exact proper_init _
  · intro before event after ih hs hwho
    have hbefore := ih fun p peerMeta hp => hwho p peerMeta (step_accepted hs hp)
    cases event with
    | accept raw peerUuid connectionUuid =>
      obtain ⟨e, -, rfl⟩ | ⟨params, other, -, -, -, rfl⟩ := step_accept hs
      · exact hbefore
      · rw [world_orInsert]
        exact hbefore
    | peer other event =>
      obtain ⟨ha, hby, w, next, hw, hstep, rfl⟩ := step_peer hs
      rw [world_insert]
      split_ifs with hk
      · subst hk
        rw [world, hw] at hbefore
        exact hbefore.step (hwho _ _ ha) hby hstep
      · exact hbefore

/-! ## The run without the other tenants -/

/-- Two registries that a connection cannot tell apart. -/
structure Mirrors (limits : RelayLimitsConfig) (serde : SerdeJson)
    (who : PeerId → Option PeerMeta) (key : SessionKey) (c : String)
    (registry registry' : SessionRegistry) : Prop where
  reached : ∃ ms, Run (step limits serde) init ms registry
  reached' : ∃ ms, Run (step limits serde) init ms registry'
  known : ∀ p peerMeta, registry.accepted p = some peerMeta → who p = some peerMeta
  fewer : ∀ p peerMeta, registry'.accepted p = some peerMeta → registry.accepted p = some peerMeta
  near : ∀ p peerMeta, registry.accepted p = some peerMeta → peerMeta.key = key →
    peerMeta.Near c → registry'.accepted p = some peerMeta
  agrees : (registry.world limits serde key).Agrees who c (registry'.world limits serde key)

theorem mirrors_init : Mirrors limits serde who key c init init where
  reached := ⟨[], Run.nil⟩
  reached' := ⟨[], Run.nil⟩
  known := by
    intro p peerMeta hp
    cases hp
  fewer := fun _ _ hp => hp
  near := fun _ _ hp _ _ => hp
  agrees := by
    constructor
    · exact ⟨rfl, fun _ _ => rfl, rfl, rfl, rfl⟩
    · exact fun _ _ _ _ => rfl
    · exact fun _ _ _ _ => rfl
    · exact fun _ _ _ _ => rfl

theorem Mirrors.step_near {event : RegistryEvent}
    (h : Mirrors limits serde who key c registry registry') (hnear : event.isNear key c = true)
    (hroom : registry.refuses limits event = false)
    (hknown : ∀ p peerMeta, next.accepted p = some peerMeta → who p = some peerMeta)
    (hs : registry.step limits serde event = some next) :
    ∃ next', registry'.step limits serde event = some next' ∧
      Mirrors limits serde who key c next next' := by
  obtain ⟨ms, hrun⟩ := h.reached
  obtain ⟨ms', hrun'⟩ := h.reached'
  cases event with
  | accept raw peerUuid connectionUuid =>
    obtain ⟨e, hv, rfl⟩ | ⟨params, other, hv, hb, hfresh, rfl⟩ := step_accept hs
    · exact ⟨registry', by rw [step, hv], h⟩
    · have hfresh' : registry'.accepted other.peerId = none := by
        rw [Option.eq_none_iff_forall_ne_some]
        intro m hm
        rw [h.fewer _ _ hm] at hfresh
        cases hfresh
      have hs' : registry'.step limits serde (.accept raw peerUuid connectionUuid) =
          some ⟨registry'.sessions.orInsert other.key
            (World.init (newSession limits serde other.key)),
            Function.update registry'.accepted other.peerId (some other)⟩ := by
        rw [step, hv]
        dsimp only
        rw [hb, Option.bind_some, if_pos hfresh', (buildPeerMeta_key hb).2]
        rfl
      refine ⟨_, hs', ⟨_, Run.snoc hrun hs⟩, ⟨_, Run.snoc hrun' hs'⟩, hknown, ?_, ?_, ?_⟩
      · intro p peerMeta hp
        dsimp only at hp ⊢
        by_cases he : p = other.peerId
        · rw [he, Function.update_self] at hp ⊢
          exact hp
        · rw [Function.update_of_ne he] at hp ⊢
          exact h.fewer p peerMeta hp
      · intro p peerMeta hp hk hn
        dsimp only at hp ⊢
        by_cases he : p = other.peerId
        · rw [he, Function.update_self] at hp ⊢
          exact hp
        · rw [Function.update_of_ne he] at hp ⊢
          exact h.near p peerMeta hp hk hn
      · rw [world_orInsert, world_orInsert]
        exact h.agrees
  | peer other event =>
    have hclose : other.key = key ∧ other.Near c := by
      simpa [RegistryEvent.isNear, RegistryEvent.owner] using hnear
    obtain ⟨rfl, hn⟩ := hclose
    obtain ⟨ha, hby, w, after, hw, hstep, rfl⟩ := step_peer hs
    have ha' := h.near _ _ ha rfl hn
    obtain ⟨-, w', hw'⟩ := run_live hrun' ha'
    have hproper := run_proper other.key hrun h.known
    have hproper' := run_proper other.key hrun' fun p m hm => h.known p m (h.fewer p m hm)
    have hagree := h.agrees
    rw [world_of_get hw] at hagree hproper
    rw [world_of_get hw'] at hagree hproper'
    obtain ⟨after', hstep', hafter⟩ := hagree.step_near hproper hproper' (h.known _ _ ha) hby hn
      (by
        rintro m pace rfl hfull
        have hlt : countLiveSockets w.state < limits.maxSocketsPerSession := by
          simpa [refuses, hw] using hroom
        exact absurd (hlt.trans_le hfull) (lt_irrefl _)) hstep
    have hs' : registry'.step limits serde (.peer other event) =
        some ⟨registry'.sessions.insert other.key after', registry'.accepted⟩ := by
      rw [step, if_pos ⟨ha', hby⟩, hw', Option.bind_some, hstep']
      rfl
    refine ⟨_, hs', ⟨_, Run.snoc hrun hs⟩, ⟨_, Run.snoc hrun' hs'⟩, h.known, h.fewer, h.near, ?_⟩
    rw [world_insert, world_insert, if_pos rfl, if_pos rfl]
    exact hafter

theorem Mirrors.step_far {event : RegistryEvent}
    (h : Mirrors limits serde who key c registry registry') (hfar : event.isNear key c = false)
    (hknown : ∀ p peerMeta, next.accepted p = some peerMeta → who p = some peerMeta)
    (hs : registry.step limits serde event = some next) :
    Mirrors limits serde who key c next registry' := by
  obtain ⟨ms, hrun⟩ := h.reached
  refine ⟨⟨_, Run.snoc hrun hs⟩, h.reached', hknown,
    fun p peerMeta hp => step_accepted hs (h.fewer p peerMeta hp), ?_, ?_⟩
  · intro p peerMeta hp hk hn
    cases event with
    | accept raw peerUuid connectionUuid =>
      obtain ⟨e, -, rfl⟩ | ⟨params, other, hv, hb, -, rfl⟩ := step_accept hs
      · exact h.near p peerMeta hp hk hn
      · dsimp only at hp
        rcases update_some_cases hp with ⟨-, rfl⟩ | ⟨-, hp⟩
        · simp [RegistryEvent.isNear, RegistryEvent.owner, hv, hb, hk, hn] at hfar
        · exact h.near p peerMeta hp hk hn
    | peer other event =>
      obtain ⟨-, -, w, after, -, -, rfl⟩ := step_peer hs
      exact h.near p peerMeta hp hk hn
  · cases event with
    | accept raw peerUuid connectionUuid =>
      obtain ⟨e, -, rfl⟩ | ⟨params, other, -, -, -, rfl⟩ := step_accept hs
      · exact h.agrees
      · rw [world_orInsert]
        exact h.agrees
    | peer other event =>
      obtain ⟨ha, hby, w, after, hw, hstep, rfl⟩ := step_peer hs
      rw [world_insert]
      split_ifs with hk
      · subst hk
        have hn : ¬ other.Near c := by
          simpa [RegistryEvent.isNear, RegistryEvent.owner] using hfar
        have hproper := run_proper other.key hrun h.known
        have hagree := h.agrees
        rw [world_of_get hw] at hagree hproper
        exact hagree.step_far hproper (h.known _ _ ha) hby hn hstep
      · exact h.agrees

end SessionRegistry

/-! ## Where the frames of a connection come from -/

/-- The frames that a connection holds for one of its sockets, or has sent to it. -/
def World.Holds (world : World) (c : String) (p : PeerId) (frame : RelayFrame) : Prop :=
  frame ∈ frames (world.queue p).tried ∨ frame ∈ world.state.waiting c

/-- A socket of the connection hands in a frame. -/
def WorldEvent.Hands (peerMeta : PeerMeta) (frame : RelayFrame) (event : WorldEvent) : Prop :=
  ∃ nowMs pace, event = .session (.frame peerMeta frame nowMs) pace

section Origin

variable {session : RelaySession} {who : PeerId → Option PeerMeta} {c : String}
  {world next : World} {peerMeta other : PeerMeta} {p : PeerId} {frame : RelayFrame}

theorem SessionEvent.frame_of_connectionOp {limits : RelayLimitsConfig} {state : SessionState}
    {event : SessionEvent} (hby : event.By peerMeta)
    (h : event.connectionOp limits state = some (c, .clientFrame frame) ∨
      event.connectionOp limits state = some (c, .serverFrame frame)) :
    ∃ nowMs, event = .frame peerMeta frame nowMs := by
  have horigin : ∃ m nowMs, event = .frame m frame nowMs := by
    rcases h with h | h
    · obtain ⟨m, nowMs, he, -⟩ := SessionEvent.origin_of_connectionOp h
      exact ⟨m, nowMs, he⟩
    · obtain ⟨m, nowMs, he, -⟩ := SessionEvent.origin_of_connectionOp h
      exact ⟨m, nowMs, he⟩
  obtain ⟨m, nowMs, rfl⟩ := horigin
  obtain rfl : m = peerMeta := hby
  exact ⟨nowMs, rfl⟩

theorem mem_frames {messages : List OutboundMessage} :
    frame ∈ frames messages ↔ ∃ message ∈ messages, message.toFrame = some frame := by
  simp [frames]

theorem Connection.step_pending {k : Connection} {op : ConnectionOp}
    (h : frame ∈ (k.step op).pending.getD []) :
    frame ∈ k.pending.getD [] ∨ op = .clientFrame frame := by
  cases op with
  | clientFrame newer =>
    simp only [Connection.step] at h
    split_ifs at h
    · exact .inl h
    · rw [Option.getD_some, popOverflow_eq] at h
      rcases List.mem_append.mp (List.mem_of_mem_drop h) with h | h
      · exact .inl h
      · rw [List.mem_singleton.mp h]
        exact .inr rfl
  | leave q =>
    simp only [Connection.step] at h
    split_ifs at h
    · cases h
    · exact .inl h
  | attach handle => cases h
  | _ => exact .inl h

theorem Connection.sends_frame_origin {k : Connection} {op : ConnectionOp} {send : Send}
    (hm : send ∈ k.sends op) (hf : send.message.toFrame = some frame) :
    frame ∈ k.pending.getD [] ∨ op = .clientFrame frame ∨ op = .serverFrame frame := by
  rcases Connection.sends_frame hm hf with ⟨he, -⟩ | ⟨he, -⟩ | ⟨handle, rfl, -⟩
  · exact .inr (.inl he)
  · exact .inr (.inr he)
  · rcases List.mem_append.mp hm with hm | hm
    · simp only [closeReplaced, List.mem_map] at hm
      obtain ⟨server, -, rfl⟩ := hm
      cases hf
    · obtain ⟨pending, hp, rfl⟩ := List.mem_map.mp hm
      obtain rfl : pending = frame := by simpa [forwardFrame, Send.message] using hf
      exact .inl hp

theorem World.Proper.holds_step {event : WorldEvent} (h : world.Proper session who)
    (hwho : who peerMeta.peerId = some peerMeta) (hby : event.By peerMeta)
    (hs : world.step session event = some next) (hp : who p = some other)
    (hc : other.kind.connection = some c) (hnext : next.Holds c p frame) :
    world.Holds c p frame ∨ (event.Hands peerMeta frame ∧ peerMeta.kind.connection = some c) := by
  cases event with
  | queue q work =>
    have hq := World.step_queue hs
    left
    unfold World.Holds at hnext ⊢
    rwa [hq.2.2, hq.2.1] at hnext
  | session event pace =>
    obtain ⟨sends, hstep, hqueue⟩ := World.step_session hs
    have hands : ∀ op, event.connectionOp session.limits world.state = some (c, op) →
        op = .clientFrame frame ∨ op = .serverFrame frame →
        (WorldEvent.session event pace).Hands peerMeta frame ∧
          peerMeta.kind.connection = some c := by
      intro op hop hframe
      have hown := SessionEvent.connectionOp_of_by hby hop
      obtain ⟨nowMs, rfl⟩ := SessionEvent.frame_of_connectionOp hby
        (hframe.imp (fun he => he ▸ hop) fun he => he ▸ hop)
      exact ⟨⟨nowMs, pace, rfl⟩, hown⟩
    rcases hnext with hnext | hnext
    · obtain ⟨rest, rfl, hrest⟩ := h.known.step_sends h.sound hwho hby hstep hp hc
      rw [hqueue, deliver_tried, messagesTo_append, messagesTo_eq_nil hrest, List.append_nil,
        frames_append] at hnext
      rcases List.mem_append.mp hnext with hold | hnew
      · exact .inl (.inl hold)
      · obtain ⟨message, hm, hf⟩ := mem_frames.mp hnew
        obtain ⟨send, hsend, rfl⟩ := List.mem_map.mp hm
        obtain ⟨hsend, ht⟩ := List.mem_filter.mp hsend
        have ht' : send.target = p := by simpa using ht
        cases hop : event.connectionOp session.limits world.state with
        | none =>
          rw [hop] at hsend
          cases hsend
        | some touched =>
          obtain ⟨id, op⟩ := touched
          rw [hop] at hsend
          obtain ⟨m, hw, hk⟩ := h.known.opSends_target h.sound hwho hby hop hsend
          rw [ht', hp, Option.some.injEq] at hw
          rw [← hw, hc, Option.some.injEq] at hk
          subst hk
          rcases Connection.sends_frame_origin hsend hf with hw | hframe
          · exact .inl (.inr hw)
          · exact .inr (hands op hop hframe)
    · have hwaiting : frame ∈ (next.state.connection c).pending.getD [] := hnext
      rcases Core.connection_of_step hstep c with ⟨-, he⟩ | ⟨op, hop, he⟩
      · rw [he] at hwaiting
        exact .inl (.inr hwaiting)
      · rw [he] at hwaiting
        rcases Connection.step_pending hwaiting with hw | hframe
        · exact .inl (.inr hw)
        · exact .inr (hands op hop (.inl hframe))

end Origin

namespace SessionRegistry

variable {limits : RelayLimitsConfig} {serde : SerdeJson} {key : SessionKey} {c : String}
  {registry : SessionRegistry}

/-- A socket of the connection hands in the frame in this move. -/
def HandedIn (key : SessionKey) (c : String) (frame : RelayFrame)
    (move : Move SessionRegistry RegistryEvent) : Prop :=
  ∃ peerMeta nowMs pace, peerMeta.key = key ∧ peerMeta.kind.connection = some c ∧
    move.event = .peer peerMeta (.session (.frame peerMeta frame nowMs) pace)

theorem run_frames_own {ms : List (Move SessionRegistry RegistryEvent)}
    (hrun : Run (step limits serde) init ms registry) {peerMeta : PeerMeta}
    (hp : registry.accepted peerMeta.peerId = some peerMeta) (hk : peerMeta.key = key)
    (hc : peerMeta.kind.connection = some c) :
    ∀ frame ∈ frames (registry.queue limits peerMeta).chan.queued,
      ∃ move ∈ ms, HandedIn key c frame move := by
  have hheld : ∀ frame, (registry.world limits serde key).Holds c peerMeta.peerId frame →
      ∃ move ∈ ms, HandedIn key c frame move := by
    have hall : (∀ p m, registry.accepted p = some m → registry.accepted p = some m) →
        ∀ frame, (registry.world limits serde key).Holds c peerMeta.peerId frame →
          ∃ move ∈ ms, HandedIn key c frame move := by
      apply hrun.history_invariant (P := fun ms r =>
        (∀ p m, r.accepted p = some m → registry.accepted p = some m) →
          ∀ frame, (r.world limits serde key).Holds c peerMeta.peerId frame →
            ∃ move ∈ ms, HandedIn key c frame move)
      · intro _ frame hh
        rcases hh with hh | hh <;> cases hh
      · intro ns before event after hr ih hs hwho frame hh
        have hwho' := fun p m hm => hwho p m (step_accepted hs hm)
        have hearlier : (before.world limits serde key).Holds c peerMeta.peerId frame →
            ∃ move ∈ ns ++ [⟨before, event, after⟩], HandedIn key c frame move := by
          intro hb
          obtain ⟨move, hm, hin⟩ := ih hwho' frame hb
          exact ⟨move, List.mem_append_left _ hm, hin⟩
        cases event with
        | accept raw peerUuid connectionUuid =>
          obtain ⟨e, -, rfl⟩ | ⟨params, other, -, -, -, rfl⟩ := step_accept hs
          · exact hearlier hh
          · rw [world_orInsert] at hh
            exact hearlier hh
        | peer other event =>
          obtain ⟨ha, hby, w, next, hw, hstep, rfl⟩ := step_peer hs
          rw [world_insert] at hh
          split_ifs at hh with hother
          · subst hother
            have hproper := run_proper other.key hr hwho'
            rw [world_of_get hw] at hearlier hproper
            rcases hproper.holds_step (hwho' _ _ ha) hby hstep hp hc hh with hb | ⟨hands, hown⟩
            · exact hearlier hb
            · obtain ⟨nowMs, pace, rfl⟩ := hands
              exact ⟨_, List.mem_append_right _ List.mem_cons_self, other, nowMs, pace,
                rfl, hown, rfl⟩
          · exact hearlier hh
    exact hall fun _ _ hm => hm
  intro frame hf
  rw [queue_eq serde, hk] at hf
  obtain ⟨-, w, hw⟩ := run_live hrun hp
  obtain ⟨ns, hns, -⟩ := run_session hrun hw
  rw [hk] at hw
  rw [world_of_get hw] at hf hheld
  exact hheld frame (.inl ((World.run_forwards hns peerMeta.peerId).subset hf))

/-- Tenant noninterference. The sockets of a connection are queued the same messages in the
run without the events of other sessions' peers and of other connections' sockets, unless a
full session refuses a registration; and no frame crosses from another connection. -/
theorem tenant_noninterference {ms : List (Move SessionRegistry RegistryEvent)}
    (hrun : Run (step limits serde) init ms registry)
    (hroom : ∀ move ∈ ms, move.before.refuses limits move.event = false) (key : SessionKey)
    (c : String) :
    (∃ ms' registry', Run (step limits serde) init ms' registry' ∧
        ms'.map Move.event = (ms.map Move.event).filter (RegistryEvent.isNear key c) ∧
        ∀ peerMeta, registry.accepted peerMeta.peerId = some peerMeta → peerMeta.key = key →
          peerMeta.kind.connection = some c →
          registry'.accepted peerMeta.peerId = some peerMeta ∧
            (registry'.queue limits peerMeta).chan.queued =
              (registry.queue limits peerMeta).chan.queued) ∧
      ∀ peerMeta, registry.accepted peerMeta.peerId = some peerMeta → peerMeta.key = key →
        peerMeta.kind.connection = some c →
        ∀ frame ∈ frames (registry.queue limits peerMeta).chan.queued,
          ∃ move ∈ ms, HandedIn key c frame move := by
  constructor
  · have hknown : ∀ move ∈ ms, ∀ p peerMeta, move.after.accepted p = some peerMeta →
        registry.accepted p = some peerMeta := fun move hm p peerMeta hp =>
      run_accepted_of_mem hrun hm hp
    obtain ⟨ms', registry', hrun', hevents, hmirrors⟩ : ∃ ms' registry',
        Run (step limits serde) init ms' registry' ∧
          ms'.map Move.event = (ms.map Move.event).filter (RegistryEvent.isNear key c) ∧
          Mirrors limits serde registry.accepted key c registry registry' :=
      hrun.project mirrors_init
        (fun move hm u hR hs hk => hR.step_near hk (hroom move hm) (hknown move hm) hs)
        (fun move hm u hR hs hk => hR.step_far hk (hknown move hm) hs)
    refine ⟨ms', registry', hrun', hevents, ?_⟩
    intro peerMeta hp hk hc
    have hnear := PeerMeta.near_of_connection hc
    refine ⟨hmirrors.near _ _ hp hk hnear, ?_⟩
    rw [queue_eq serde, queue_eq serde, hk, hmirrors.agrees.queue _ _ hp hc]
  · intro peerMeta hp hk hc
    exact run_frames_own hrun hp hk hc

/-- A client of connection `a`, then one of connection `b` in the same session, and
frames of both. -/
def twoTenants : List RegistryEvent :=
  [.accept ⟨some "node", some "client", some "2", some "a"⟩ 1 0,
    .peer (nodeClient 1 "a") (.session (.register (nodeClient 1 "a")) []),
    .accept ⟨some "node", some "client", some "2", some "b"⟩ 2 0,
    .peer (nodeClient 2 "b") (.session (.register (nodeClient 2 "b")) []),
    .peer (nodeClient 2 "b") (.session (.frame (nodeClient 2 "b") (.text "of b") 0) []),
    .peer (nodeClient 1 "a") (.session (.frame (nodeClient 1 "a") (.text "of a") 0) []),
    .accept ⟨some "node", some "server", some "2", some " a "⟩ 3 0,
    .peer (nodeData 3 "a") (.session (.register (nodeData 3 "a")) [])]

theorem tenant_noninterference_of_twoTenants : ∃ ms' registry',
    Run (step .default .plain) init ms' registry' ∧
      ms'.map Move.event = twoTenants.filter (RegistryEvent.isNear ⟨"node", .v2⟩ "a") ∧
      (registry'.queue .default (nodeData 3 "a")).chan.queued = [.text "of a"] := by
  have hrun := @Run.of_outcome _ _ (step .default .plain) init twoTenants rfl
  obtain ⟨⟨ms', registry', hrun', hevents, hqueues⟩, -⟩ :=
    tenant_noninterference hrun (by decide) ⟨"node", .v2⟩ "a"
  exact ⟨ms', registry', hrun', hevents.trans rfl,
    (hqueues (nodeData 3 "a") rfl rfl rfl).2.trans rfl⟩

end SessionRegistry

end NodeAccess.Relay
