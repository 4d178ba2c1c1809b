import NodeAccess.Mux.Pair
import NodeAccess.Relay.Routing
import NodeAccess.Relay.SlowConsumer

/-! # A connection of two peers

A connection has one client and one server-data socket, and no other peer comes in the place of
either. The session then hands each of the two what the other sends, from the first frame on.
-/

namespace NodeAccess.Transit

open Foundation Relay Mux

/-- A client and the server-data socket of its connection. -/
structure Line where
  id : String
  client : PeerMeta
  data : PeerMeta
  client_kind : client.kind = .v2Client id
  data_kind : data.kind = .v2ServerData id

namespace Line

variable {line : Line} {session : RelaySession} {world world' : World} {core core' : Core}
  {sent sent' : Side → List RelayFrame} {side : Side}

/-- The peer at each end of the connection. The client has the mux with the odd ids. -/
def peer (line : Line) : Side → PeerMeta
  | .odd => line.client
  | .even => line.data

/-- A peer with the id or the place of one of the two is that one. -/
def Own (line : Line) (other : PeerMeta) : Prop :=
  ∀ side, other.peerId = (line.peer side).peerId ∨ other.kind = (line.peer side).kind →
    other = line.peer side

/-- The session sends the frames of the other peer to this one. -/
def Stored (line : Line) (core : Core) : Side → Prop
  | .odd => core.phase line.client.peerId = .registered line.client
  | .even => core.state.serverData.get line.id = some ⟨line.data⟩

instance (line : Line) (core : Core) : (side : Side) → Decidable (line.Stored core side)
  | .odd => inferInstanceAs (Decidable (_ = _))
  | .even => inferInstanceAs (Decidable (_ = _))

/-- `sent` has the frames that the session has had from each peer. -/
structure Hands (line : Line) (sent : Side → List RelayFrame) (world : World) : Prop where
  own : ∀ p other, world.phase p = .registered other → line.Own other
  early : world.phase line.client.peerId = .fresh → world.phase line.data.peerId = .fresh
  silent : ∀ side, world.phase (line.peer side).peerId = .fresh → sent side = []
  waits : world.phase line.data.peerId = .fresh →
    world.phase line.client.peerId = .registered line.client →
    world.state.waiting line.id = (sent .odd).rtake pendingFrameLimit
  whole : ∀ side, line.Stored world.toCore side →
    frames (world.queue (line.peer side).peerId).tried = sent side.other
  begins : ∀ side, frames (world.queue (line.peer side).peerId).tried <+: sent side.other

/-- No other peer comes, and the server-data socket comes when the client is there and not too many
of its frames wait. -/
structure Keeps (line : Line) (sent : Side → List RelayFrame) (world : World) (event : WorldEvent) :
    Prop where
  own : ∀ other pace, event = .session (.register other) pace → line.Own other
  ready : ∀ pace, event = .session (.register line.data) pace →
    world.phase line.client.peerId = .registered line.client ∧
      (sent .odd).length ≤ pendingFrameLimit

/-- A check of an event that finds it in keeping with the connection. -/
def tidy (line : Line) (sent : Side → List RelayFrame) (world : World) : WorldEvent → Bool
  | .session (.register other) _ =>
    [Side.odd, Side.even].all (fun side =>
      (other.peerId ≠ (line.peer side).peerId && other.kind ≠ (line.peer side).kind) ||
        other = line.peer side) &&
    (other ≠ line.data ||
      (world.phase line.client.peerId = .registered line.client &&
        (sent .odd).length ≤ pendingFrameLimit))
  | _ => true

theorem keeps_of_tidy {event : WorldEvent} (h : line.tidy sent world event = true) :
    line.Keeps sent world event := by
  constructor
  · rintro other pace rfl side hsame
    simp only [tidy, Bool.and_eq_true, List.all_cons, List.all_nil, Bool.or_eq_true,
      decide_eq_true_eq] at h
    cases side with
    | odd => exact h.1.1.resolve_left fun hne => hsame.elim hne.1 hne.2
    | even => exact h.1.2.1.resolve_left fun hne => hsame.elim hne.1 hne.2
  · rintro pace rfl
    simp only [tidy, Bool.and_eq_true, Bool.or_eq_true, decide_eq_true_eq] at h
    exact h.2.resolve_left fun hne => hne rfl

/-- What the session has had after one more event. -/
def record (line : Line) (sent : Side → List RelayFrame) (event : WorldEvent) (side : Side) :
    List RelayFrame :=
  sent side ++ (event.frameFrom (line.peer side).kind).toList

/-! ## The peers -/

theorem kind_ne (line : Line) (side : Side) :
    (line.peer side).kind ≠ (line.peer side.other).kind := by
  cases side with
  | odd =>
    rw [peer, Side.other, peer, line.client_kind, line.data_kind]
    exact fun h => by cases h
  | even =>
    rw [peer, Side.other, peer, line.client_kind, line.data_kind]
    exact fun h => by cases h

theorem Own.came (side : Side) (h : ∀ p other, core.phase p = .registered other → line.Own other)
    (hsound : core.Sound session) (hp : core.phase (line.peer side).peerId ≠ .fresh) :
    core.Came (line.peer side) := by
  refine ⟨hp, ?_⟩
  intro other ho
  exact h _ other ho side (.inl (hsound.conforms _ _ ho).1)

theorem registered_of_frame (h : ∀ p other, core.phase p = .registered other → line.Own other)
    {event : SessionEvent} {sends : List Send} (hs : core.step session event = some (core', sends))
    {frame : RelayFrame} (hf : event.frameFrom (line.peer side).kind = some frame) :
    core.phase (line.peer side).peerId = .registered (line.peer side) := by
  cases event with
  | frame peerMeta relayFrame nowMs =>
    rw [SessionEvent.frameFrom, Option.ite_none_right_eq_some] at hf
    have hregistered := (Core.step_frame hs).1
    obtain rfl := h _ peerMeta hregistered side (.inr hf.1)
    exact hregistered
  | _ => cases hf

theorem register_of_fresh (side : Side) {event : SessionEvent} {sends : List Send}
    (hkeeps : ∀ other, event = .register other → line.Own other)
    (hs : core.step session event = some (core', sends))
    (hbefore : core.phase (line.peer side).peerId = .fresh)
    (hafter : core'.phase (line.peer side).peerId ≠ .fresh) :
    event = .register (line.peer side) := by
  rcases Core.step_phase hs (line.peer side).peerId with he | ⟨other, rfl, hp, -, -⟩ |
    ⟨_, -, -, hr, -⟩
  · exact absurd (he ▸ hbefore) hafter
  · rw [hkeeps other rfl side (.inl hp.symm)]
  · rw [hbefore] at hr
    cases hr

theorem Stored.of_step (side : Side) {event : SessionEvent} {sends : List Send}
    (hs : core.step session event = some (core', sends)) (hcame : core.Came (line.peer side))
    (h : line.Stored core' side) : line.Stored core side := by
  cases side with
  | odd =>
    rcases Core.step_phase hs line.client.peerId with he | ⟨_, -, -, hf, -⟩ | ⟨_, -, -, -, hg⟩
    · exact he.symm.trans h
    · exact absurd hf hcame.1
    · rw [Stored, hg] at h
      cases h
  | even =>
    change (core'.state.connection line.id).server = some ⟨line.data⟩ at h
    change (core.state.connection line.id).server = some ⟨line.data⟩
    rcases Core.connection_of_step hs line.id with ⟨-, he⟩ | ⟨op, hop, he⟩
    · rwa [he] at h
    · rw [he] at h
      cases op with
      | attach handle =>
        rw [Connection.step, Option.some.injEq] at h
        exact absurd (h ▸ rfl) (hcame.ne_attach hs hop)
      | clientFrame frame =>
        rw [Connection.step] at h
        split_ifs at h <;> exact h
      | leave p =>
        rw [Connection.step] at h
        split_ifs at h
        exact h
      | detach p => exact (clearIfSame_eq_some.mp h).1
      | _ => exact h

theorem Stored.registered (hsound : core.Sound session) (h : line.Stored core side) :
    core.phase (line.peer side).peerId = .registered (line.peer side) := by
  cases side with
  | odd => exact h
  | even => exact ((hsound.connection line.id).server _ h).1

/-- Between its two peers the session hands each frame on, as long as it has stored
the other end. -/
theorem frames_step (hsound : core.Sound session) {event : SessionEvent} {sends : List Send}
    (hs : core.step session event = some (core', sends)) (hcame : core.Came (line.peer side)) :
    frames (messagesTo (line.peer side).peerId sends) =
      if line.Stored core side then (event.frameFrom (line.peer side.other).kind).toList
        else [] := by
  cases side with
  | odd =>
    have hother : (line.peer Side.odd.other).kind = .v2ServerData line.id := line.data_kind
    rw [hother]
    exact hsound.step_frames_to_client hs hcame line.client_kind
  | even =>
    have hother : (line.peer Side.even.other).kind = .v2Client line.id := line.client_kind
    rw [hother]
    exact hsound.step_frames_to_data hs hcame line.data_kind

theorem refused_sends {serde : SerdeJson} {limits : RelayLimitsConfig} {state : SessionState}
    {handle : PeerHandle} (h : (register serde limits state handle).result.isOk = false) :
    (register serde limits state handle).sends = [] := by
  unfold register at h ⊢
  split_ifs at h ⊢ with hroom
  · rfl
  · cases hkind : handle.peerMeta.kind with
    | v2Client id =>
      rw [hkind] at h
      dsimp only at h ⊢
      split_ifs at h ⊢
      · rfl
      · cases h
    | _ =>
      rw [hkind] at h
      cases h

/-! ## One event of the session -/

theorem record_register (line : Line) (sent : Side → List RelayFrame) (peerMeta : PeerMeta)
    (pace : List Gap) :
    line.record sent (.session (.register peerMeta) pace) = sent := by
  funext side
  exact List.append_nil _

theorem Hands.silent_step (h : line.Hands sent world) {event : SessionEvent} {pace : List Gap}
    (hs : world.step session (.session event pace) = some world')
    (hfresh : world'.phase (line.peer side).peerId = .fresh) :
    line.record sent (.session event pace) side = [] := by
  obtain ⟨sends, hstep, -⟩ := World.step_session hs
  have hbefore : world.phase (line.peer side).peerId = .fresh := by
    by_contra hn
    exact Core.step_not_fresh hstep hn hfresh
  rw [record, h.silent side hbefore, List.nil_append]
  change (event.frameFrom (line.peer side).kind).toList = []
  rw [Option.toList_eq_nil_iff, Option.eq_none_iff_forall_ne_some]
  intro frame hf
  have hregistered := registered_of_frame h.own hstep hf
  rw [hbefore] at hregistered
  cases hregistered

theorem Hands.arrive (h : line.Hands sent world) (hsettled : world.Settled session)
    {pace : List Gap} (hkeeps : line.Keeps sent world (.session (.register (line.peer side)) pace))
    (hs : world.step session (.session (.register (line.peer side)) pace) = some world')
    (hok : world'.phase (line.peer side).peerId = .registered (line.peer side)) :
    frames (world'.queue (line.peer side).peerId).tried = sent side.other := by
  obtain ⟨sends, hstep, -⟩ := World.step_session hs
  have hfresh := (Core.step_register hstep).1.1
  have hfirst := frames_at_registration hsettled hs hok
  cases side with
  | odd => rw [hfirst.2 line.id line.client_kind, Side.other, h.silent .even (h.early hfresh)]
  | even =>
    obtain ⟨hclient, hroom⟩ := hkeeps.ready pace rfl
    rw [hfirst.1 line.id line.data_kind, h.waits hfresh hclient, rtake_of_length_le hroom,
      Side.other]

theorem Hands.tried_step (h : line.Hands sent world) (hsettled : world.Settled session)
    {event : SessionEvent} {pace : List Gap} (hkeeps : line.Keeps sent world (.session event pace))
    (hs : world.step session (.session event pace) = some world') (side : Side) :
    (line.Stored world'.toCore side → frames (world'.queue (line.peer side).peerId).tried =
        line.record sent (.session event pace) side.other) ∧
      frames (world'.queue (line.peer side).peerId).tried <+:
        line.record sent (.session event pace) side.other := by
  have hsettled' := hsettled.step hs
  obtain ⟨sends, hstep, hqueue⟩ := World.step_session hs
  have hunstored : world'.phase (line.peer side).peerId ≠ .registered (line.peer side) →
      ¬ line.Stored world'.toCore side := fun hn hstored => hn (hstored.registered hsettled'.sound)
  by_cases hfresh : world.phase (line.peer side).peerId = .fresh
  · by_cases hfresh' : world'.phase (line.peer side).peerId = .fresh
    · rw [hsettled'.quiet _ hfresh']
      refine ⟨fun hstored => absurd hstored (hunstored ?_), List.nil_prefix⟩
      rw [hfresh']
      exact fun he => by cases he
    · obtain rfl :=
        register_of_fresh side (fun other he => hkeeps.own other pace (he ▸ rfl)) hstep hfresh
          hfresh'
      rw [record_register]
      have hreg := Core.step_register hstep
      cases hok :
        (register session.serde session.limits world.state ⟨line.peer side⟩).result.isOk with
      | true =>
        have hwhole :=
          h.arrive hsettled hkeeps hs (by rw [hreg.2.2.2.1, Function.update_self, if_pos hok])
        exact ⟨fun _ => hwhole, hwhole ▸ List.prefix_rfl⟩
      | false =>
        have hgone : world'.phase (line.peer side).peerId = .gone := by
          rw [hreg.2.2.2.1, Function.update_self, hok]
          rfl
        have hnone : (world'.queue (line.peer side).peerId).tried = [] := by
          rw [hqueue, deliver_tried, hsettled.quiet _ hfresh, hreg.2.2.1, refused_sends hok]
          rfl
        rw [hnone]
        refine ⟨fun hstored => absurd hstored (hunstored ?_), List.nil_prefix⟩
        rw [hgone]
        exact fun he => by cases he
  · have hcame := Own.came side h.own hsettled.sound hfresh
    rw [hqueue, deliver_tried, frames_append, frames_step hsettled.sound hstep hcame]
    by_cases hstored : line.Stored world.toCore side
    · have hwhole : frames (world.queue (line.peer side).peerId).tried ++
          (if line.Stored world.toCore side then
            (event.frameFrom (line.peer side.other).kind).toList else []) =
          line.record sent (.session event pace) side.other := by
        rw [if_pos hstored, h.whole side hstored]
        rfl
      exact ⟨fun _ => hwhole, hwhole ▸ List.prefix_rfl⟩
    · rw [if_neg hstored, List.append_nil]
      refine ⟨fun hstored' => absurd (Stored.of_step side hstep hcame hstored') hstored, ?_⟩
      exact (h.begins side).trans (List.prefix_append _ _)

/-! ## Frames that wait -/

theorem no_data (h : ∀ p other, core.phase p = .registered other → line.Own other)
    (hsound : core.Sound session) (hfresh : core.phase line.data.peerId = .fresh) :
    hasServerDataSocket core.state line.id = false := by
  rw [hasServerDataSocket_eq_false, Option.eq_none_iff_forall_ne_some]
  intro handle hserver
  obtain ⟨hregistered, hkind⟩ := (hsound.connection line.id).server handle hserver
  have hdata :
      handle.peerMeta = line.data :=
    h _ _ hregistered .even (.inr (hkind.trans line.data_kind.symm))
  rw [hdata, hfresh] at hregistered
  cases hregistered

theorem no_waiting (h : ∀ p other, core.phase p = .registered other → line.Own other)
    (hsound : core.Sound session) (hfresh : core.phase line.client.peerId = .fresh) :
    core.state.waiting line.id = [] := by
  have hempty : (core.state.connection line.id).members = ∅ := by
    apply Table.eq_empty_of_get
    intro p
    rw [Option.eq_none_iff_forall_ne_some]
    intro handle hg
    obtain ⟨hp, hregistered, hkind⟩ := (hsound.connection line.id).client p handle hg
    have hclient : handle.peerMeta = line.client :=
      h _ _ hregistered .odd (.inr (hkind.trans line.client_kind.symm))
    rw [← hp, hclient, hfresh] at hregistered
    cases hregistered
  have hnone : (core.state.connection line.id).pending = none := by
    rw [Option.eq_none_iff_forall_ne_some]
    intro waiting hw
    have hpos := ((hsound.connection line.id).pending waiting hw).2.2.2
    rw [hempty, Table.len_empty] at hpos
    exact Nat.lt_irrefl 0 hpos
  change ((core.state.connection line.id).pending).getD [] = []
  rw [hnone, Option.getD_none]

theorem has_client (hsound : core.Sound session)
    (h : core.phase line.client.peerId = .registered line.client) :
    hasClientSocket core.state line.id = true := by
  by_contra hn
  rw [Bool.not_eq_true, hasClientSocket_eq_false] at hn
  have hg := (hsound.connection line.id).joined _ _ h line.client_kind
  rw [Table.len_eq_zero_iff] at hn
  rw [hn] at hg
  cases hg

theorem rtake_rtake_option {α : Type*} (n : ℕ) (l : List α) (a : Option α) :
    (l.rtake n ++ a.toList).rtake n = (l ++ a.toList).rtake n := by
  cases a with
  | none =>
    rw [Option.toList_none, List.append_nil, List.append_nil]
    apply rtake_of_length_le
    rw [List.rtake, List.length_drop]
    omega
  | some a => exact rtake_rtake_append n l a

theorem Hands.waits_step (h : line.Hands sent world) (hsettled : world.Settled session)
    {event : SessionEvent} {pace : List Gap} (hkeeps : line.Keeps sent world (.session event pace))
    (hs : world.step session (.session event pace) = some world')
    (hown : ∀ p other, world'.phase p = .registered other → line.Own other)
    (hdata : world'.phase line.data.peerId = .fresh)
    (hclient : world'.phase line.client.peerId = .registered line.client) :
    world'.state.waiting line.id =
      (line.record sent (.session event pace) .odd).rtake pendingFrameLimit := by
  have hsound' := (hsettled.step hs).sound
  obtain ⟨sends, hstep, -⟩ := World.step_session hs
  have hdata' : world.phase line.data.peerId = .fresh := by
    by_contra hn
    exact Core.step_not_fresh hstep hn hdata
  have hreset : world.state.resets world'.state line.id = false := by
    rw [SessionState.resets, no_data h.own hsettled.sound hdata', no_data hown hsound' hdata,
      has_client hsound' hclient]
    simp
  rw [hsettled.sound.waiting_step hstep hreset, ← line.client_kind]
  by_cases hfresh : world.phase line.client.peerId = .fresh
  · have hafter : world'.phase line.client.peerId ≠ .fresh := by
      rw [hclient]
      exact fun he => by cases he
    have hevent : event = .register line.client :=
      register_of_fresh .odd (fun other he => hkeeps.own other pace (he ▸ rfl)) hstep hfresh hafter
    subst hevent
    rw [record_register, h.silent .odd hfresh, no_waiting h.own hsettled.sound hfresh]
    rfl
  · have hcame := Own.came .odd h.own hsettled.sound hfresh
    have hbefore : world.phase line.client.peerId = .registered line.client :=
      Stored.of_step .odd hstep hcame hclient
    rw [h.waits hdata' hbefore, rtake_rtake_option]
    rfl

theorem Hands.step (h : line.Hands sent world) (hsettled : world.Settled session)
    {event : WorldEvent} (hkeeps : line.Keeps sent world event)
    (hs : world.step session event = some world') :
    line.Hands (line.record sent event) world' := by
  cases event with
  | queue p work =>
    obtain ⟨-, hcore, htried⟩ := World.step_queue hs
    have hrecord : line.record sent (.queue p work) = sent := funext fun _ => List.append_nil _
    rw [hrecord]
    constructor
    case own => rw [hcore]; exact h.own
    case early => rw [hcore]; exact h.early
    case silent => rw [hcore]; exact h.silent
    case waits => rw [hcore]; exact h.waits
    case whole =>
      intro side
      rw [hcore, htried]
      exact h.whole side
    case begins =>
      intro side
      rw [htried]
      exact h.begins side
  | session event pace =>
    obtain ⟨sends, hstep, -⟩ := World.step_session hs
    have hown : ∀ p other, world'.phase p = .registered other → line.Own other := by
      intro p other ho
      rcases Core.step_phase hstep p with he | ⟨peerMeta, rfl, -, -, hr⟩ | ⟨_, -, -, -, hg⟩
      · exact h.own p other (he ▸ ho)
      · rcases hr with hr | hr
        · rw [hr, Phase.registered.injEq] at ho
          exact ho ▸ hkeeps.own peerMeta pace rfl
        · rw [hr] at ho
          cases ho
      · rw [hg] at ho
        cases ho
    constructor
    case own => exact hown
    case early =>
      intro hclient
      by_contra hdata
      have hbefore : world.phase line.client.peerId = .fresh := by
        by_contra hn
        exact Core.step_not_fresh hstep hn hclient
      have hevent : event = .register line.data := register_of_fresh .even
        (fun other he => hkeeps.own other pace (he ▸ rfl)) hstep (h.early hbefore) hdata
      subst hevent
      have hready := (hkeeps.ready pace rfl).1
      rw [hbefore] at hready
      cases hready
    case silent => exact fun side hfresh => h.silent_step hs hfresh
    case waits => exact h.waits_step hsettled hkeeps hs hown
    case whole => exact fun side => (h.tried_step hsettled hkeeps hs side).1
    case begins => exact fun side => (h.tried_step hsettled hkeeps hs side).2

theorem hands_init (line : Line) (session : RelaySession) :
    line.Hands (fun _ => []) (World.init session) where
  own p other ho := by cases ho
  early _ := rfl
  silent _ _ := rfl
  waits _ ho := by cases ho
  whole side _ := rfl
  begins side := List.prefix_rfl

/-- A client that sends one frame more than the session keeps, before the server-data
socket comes. -/
def overrun : List WorldEvent :=
  [.session (.register (nodeClient 1 "c")) []] ++
    (List.range 201).map (fun i =>
      .session (.frame (nodeClient 1 "c") (.binary [i.toUInt8]) 0) []) ++
    [.session (.register (nodeData 2 "c")) []]

example :
    (frames ((outcome (World.step nodeSession) (World.init nodeSession) overrun).queue
      ⟨2⟩).tried).head? =
    some (.binary [1]) := by
  decide +kernel

/-! ## The wire -/

theorem frames_mono {s t : List OutboundMessage} (h : s <+: t) : frames s <+: frames t :=
  h.filterMap _

theorem frames_queued (hsettled : world.Settled session) {p : PeerId}
    (hroom : (world.queue p).chan.refused = false) :
    frames (world.queue p).chan.queued = frames (world.queue p).tried := by
  rw [← frames_filter_not_close, (hsettled.tracks p).content hroom, frames_filter_not_close]

theorem Hands.onWire (h : line.Hands sent world) (hsettled : world.Settled session) (side : Side)
    (hroom : (world.queue (line.peer side).peerId).chan.refused = false) :
    frames (world.queue (line.peer side).peerId).onWire <+: sent side.other := by
  have hbegins :=
    frames_mono (onWire_prefix_admitted (hsettled.tracks (line.peer side).peerId).coherent)
  refine (hbegins.trans (frames_mono (List.takeWhile_prefix _))).trans ?_
  rw [frames_queued hsettled hroom]
  exact h.begins side

/-- The session sends the frames of the other peer to this one, whose write task has written them
all. -/
structure Drained (line : Line) (world : World) (side : Side) : Prop where
  stored : line.Stored world.toCore side
  queue : (world.queue (line.peer side).peerId).Drained

theorem Hands.settled (h : line.Hands sent world) (hsettled : world.Settled session) (side : Side)
    (hd : line.Drained world side) :
    frames (world.queue (line.peer side).peerId).onWire = sent side.other := by
  rw [hd.queue.onWire_eq (hsettled.tracks _).coherent, frames_queued hsettled hd.queue.room,
    h.whole side hd.stored]

/-- A check of a peer that finds nothing left for it. -/
def drained (line : Line) (world : World) (side : Side) : Bool :=
  line.Stored world.toCore side && (world.queue (line.peer side).peerId).drained

theorem drained_iff : line.drained world side = true ↔ line.Drained world side := by
  rw [drained, Bool.and_eq_true, decide_eq_true_eq, PeerQueue.drained_iff]
  constructor
  · rintro ⟨hstored, hqueue⟩
    exact ⟨hstored, hqueue⟩
  · intro h
    exact ⟨h.stored, h.queue⟩

end Line

end NodeAccess.Transit
