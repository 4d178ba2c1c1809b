import NodeAccess.Mux.Pair
import NodeAccess.Mux.StreamTable

/-! # Stream ids of the two ends

Each end draws ids of one parity from a 32-bit counter that it steps by two. An id in a table
was therefore opened by this end or has come from the other one, and an `open_stream` meets
a live stream of its own id only after the counter has come round.
-/

namespace NodeAccess.Mux

open Foundation Crypto

theorem Own.add_two {first i : UInt32} (h : Own first i) : Own first (i + 2) := by
  have hnat : (i + 2).toNat = (i.toNat + 2) % 2 ^ 32 := UInt32.toNat_add i 2
  rw [Own] at h ⊢
  omega

namespace Endpoint

/-- The id is that of a live stream in the table. -/
def liveId (e : Endpoint) (i : UInt32) : Bool := ((e.streams.get i).bind e.live).isSome

/-- The stream table holds ids of its own that were opened here, and ids that have arrived. -/
structure Parted (first : UInt32) (e : Endpoint) : Prop where
  next : Own first e.nextStreamId
  opening : ∀ p ∈ e.opening, Own first p.1
  sent : ∀ i, OpenIn i e.sent → Own first i
  entry : ∀ i r, e.streams.get i = some r →
    OpenIn i e.arrived ∨ Own first i ∧ (e.writerOpen = true → OpenIn i e.sent)

variable {first : UInt32} {e e' : Endpoint}

theorem parted_start (first : UInt32) : (start first).Parted first where
  next := rfl
  opening := by
    intro p hp
    cases hp
  sent := by
    rintro i ⟨request, hm⟩
    cases hm
  entry := by
    intro i r hr
    simp [start] at hr

theorem Parted.of_same (h : e.Parted first) (hnext : e'.nextStreamId = e.nextStreamId)
    (hopening : e'.opening = e.opening)
    (hsent : ∃ more, e'.sent = e.sent ++ more ∧ ∀ f ∈ more, f.isOpen = false)
    (harrived : ∀ i, OpenIn i e.arrived → OpenIn i e'.arrived)
    (hwriter : e'.writerOpen = true → e.writerOpen = true)
    (hstreams : ∀ i r, e'.streams.get i = some r → e.streams.get i = some r) : e'.Parted first := by
  obtain ⟨more, hmore, hnone⟩ := hsent
  constructor
  · rw [hnext]
    exact h.next
  · rw [hopening]
    exact h.opening
  · intro i hi
    rw [hmore] at hi
    apply h.sent
    apply hi.of_append
    intro f hf hopen
    rw [hnone f hf] at hopen
    cases hopen
  · intro i r hr
    rcases h.entry i r (hstreams i r hr) with hi | ⟨hown, hi⟩
    · exact .inl (harrived i hi)
    · right
      refine ⟨hown, fun hw => ?_⟩
      rw [hmore]
      exact (hi (hwriter hw)).append more

theorem Parted.send (h : e.Parted first) {frame : MuxFrame} (hframe : frame.isOpen = false)
    (hnext : e'.nextStreamId = e.nextStreamId) (hopening : e'.opening = e.opening)
    (hsent : e'.sent = (e.send frame).sent) (harrived : e'.arrived = e.arrived)
    (hwriter : e'.writerOpen = e.writerOpen) (hstreams : e'.streams = e.streams) :
    e'.Parted first := by
  apply h.of_same hnext hopening
  · refine ⟨_, hsent, ?_⟩
    intro f hf
    split_ifs at hf
    · rw [List.mem_singleton.mp hf]
      exact hframe
    · cases hf
  · rw [harrived]
    exact fun i hi => hi
  · rw [hwriter]
    exact id
  · rw [hstreams]
    exact fun i r hr => hr

/-- A new entry has an id that was drawn here, and its Open is sent unless
`write_loop` has ended. -/
theorem Parted.openFinish (h : e.Parted first) {i : UInt32} {request : OpenRequest}
    (hmem : (i, request) ∈ e.opening) : (e.openFinish i request).Parted first := by
  have hown := h.opening _ hmem
  have hnext : (e.openFinish i request).nextStreamId = e.nextStreamId := by
    unfold Endpoint.openFinish
    split_ifs <;> rfl
  have hopening : (e.openFinish i request).opening = e.opening.erase (i, request) := by
    unfold Endpoint.openFinish
    split_ifs <;> rfl
  have hsent : (e.openFinish i request).sent =
      e.sent ++ if e.writerOpen then [.openStream i request] else [] := by
    unfold Endpoint.openFinish
    split_ifs with hw <;> simp [Endpoint.send, setStream, hw]
  have hrest : (e.openFinish i request).arrived = e.arrived ∧
      (e.openFinish i request).writerOpen = e.writerOpen ∧
      (e.openFinish i request).streams = e.streams.insert i e.created := by
    unfold Endpoint.openFinish
    split_ifs with hw <;> exact ⟨rfl, rfl, rfl⟩
  obtain ⟨harrived, hwriter, hstreams⟩ := hrest
  constructor
  · rw [hnext]
    exact h.next
  · rw [hopening]
    exact fun p hp => h.opening p (List.mem_of_mem_erase hp)
  · rintro j ⟨request', hj⟩
    rw [hsent, List.mem_append] at hj
    rcases hj with hj | hj
    · exact h.sent j ⟨request', hj⟩
    · split_ifs at hj
      · obtain ⟨rfl, rfl⟩ := MuxFrame.openStream.inj (List.mem_singleton.mp hj)
        exact hown
      · cases hj
  · intro j r hr
    rw [hstreams, Table.get_insert] at hr
    rw [harrived, hwriter, hsent]
    split_ifs at hr with hj
    · subst hj
      right
      refine ⟨hown, fun hw => ?_⟩
      rw [if_pos hw]
      exact ⟨request, by simp⟩
    · rcases h.entry j r hr with hi | ⟨hj', hi⟩
      · exact .inl hi
      · exact .inr ⟨hj', fun hw => (hi hw).append _⟩

theorem Parted.receive (h : e.Parted first) (frame : MuxFrame) :
    (e.receive frame).Parted first := by
  have harrived : ∀ i, OpenIn i e.arrived → OpenIn i (e.arrived ++ [frame]) :=
    fun i hi => hi.append _
  have hnothing : ∃ more, e.sent = e.sent ++ more ∧ ∀ f ∈ more, f.isOpen = false :=
    ⟨[], by simp, by simp⟩
  cases frame with
  | openStream j request =>
    constructor
    · exact h.next
    · exact h.opening
    · exact h.sent
    · intro i r hr
      change (e.streams.insert j e.created).get i = some r at hr
      rw [Table.get_insert] at hr
      split_ifs at hr with hi
      · subst hi
        exact .inl ⟨request, by simp [Endpoint.receive, setStream]⟩
      · exact (h.entry i r hr).imp_left (harrived i)
  | data j payload =>
    unfold Endpoint.receive
    dsimp only
    split
    · exact h.of_same rfl rfl hnothing harrived id fun i r hr => hr
    · exact h.of_same rfl rfl hnothing harrived id fun i r hr => hr
  | close j =>
    refine h.of_same rfl rfl hnothing harrived id ?_
    intro i r hr
    change (e.streams.remove j).get i = some r at hr
    rw [Table.get_remove] at hr
    split_ifs at hr
    exact hr
  | control message => exact h.of_same rfl rfl hnothing harrived id fun i r hr => hr

theorem Parted.of_touches (h : e.Parted first) {r : StreamRef} (ht : ∃ s, e.Touches e' r s) :
    e'.Parted first := by
  obtain ⟨s, ht⟩ := ht
  rcases ht.sent with hsent | ⟨data, hsent⟩ | hsent
  · apply h.of_same ht.ids.1 ht.ids.2.1
    · exact ⟨[], by simp [hsent], by simp⟩
    · rw [ht.loops.2]
      exact fun i hi => hi
    · rw [ht.loops.1]
      exact id
    · rw [ht.table.1]
      exact fun i r hr => hr
  · exact h.send rfl ht.ids.1 ht.ids.2.1 hsent ht.loops.2 ht.loops.1 ht.table.1
  · exact h.send rfl ht.ids.1 ht.ids.2.1 hsent ht.loops.2 ht.loops.1 ht.table.1

theorem Parted.step (h : e.Parted first) {event : StreamEvent} (hs : e.step event = some e') :
    e'.Parted first := by
  cases event with
  | openBegin request =>
    obtain rfl := Option.some.inj hs
    refine ⟨h.next.add_two, ?_, h.sent, h.entry⟩
    intro p hp
    rcases List.mem_append.mp hp with hp | hp
    · exact h.opening p hp
    · rw [List.mem_singleton.mp hp]
      exact h.next
  | openFinish i request =>
    rw [Endpoint.step, Option.ite_none_right_eq_some] at hs
    obtain rfl := Option.some.inj hs.2
    exact h.openFinish hs.1
  | sendControl message =>
    obtain rfl := Option.some.inj hs
    exact h.send rfl rfl rfl rfl rfl rfl rfl
  | pollWrite r data => exact h.of_touches (touches_of_step hs rfl)
  | pollShutdown r => exact h.of_touches (touches_of_step hs rfl)
  | drop r => exact h.of_touches (touches_of_step hs rfl)
  | pollRead r cx buf => exact h.of_touches (touches_of_step hs rfl)
  | reap j =>
    rw [Endpoint.step, Option.ite_none_right_eq_some] at hs
    obtain rfl := Option.some.inj hs.2
    refine h.of_same rfl rfl ⟨[], by simp, by simp⟩ (fun i hi => hi) id ?_
    intro i r hr
    rw [Table.get_remove] at hr
    split_ifs at hr
    exact hr
  | receive frame =>
    obtain rfl := Option.some.inj hs
    exact h.receive frame
  | writerStop =>
    obtain rfl := Option.some.inj hs
    refine ⟨h.next, h.opening, h.sent, ?_⟩
    intro i r hr
    apply (h.entry i r hr).imp_right
    intro hi
    refine ⟨hi.1, ?_⟩
    intro hw
    cases hw

end Endpoint

namespace Pair

open Endpoint (OpenIn)

variable {serde : SerdeSlice} {aes : AesGcm} {crypto : Side → Option FrameCrypto} {p p' : Pair}

/-- What an end has heard, or can still read off the wire, the other end has sent. -/
structure Provenance (serde : SerdeSlice) (aes : AesGcm) (crypto : Side → Option FrameCrypto)
    (p : Pair) : Prop where
  parted : ∀ side, (p.mux side).endpoint.Parted side.firstStreamId
  outbound : ∀ side, ∀ f ∈ (p.mux side).outbound, f ∈ (p.mux side).endpoint.sent
  cipher : ∀ side, base (p.mux side).crypto = base (crypto side)
  arrived : ∀ side, ∀ f ∈ (p.mux side).endpoint.arrived, f ∈ (p.mux side.other).endpoint.sent
  wire : ∀ side, ∀ message ∈ p.wire side, ∃ frame ∈ (p.mux side).endpoint.sent,
    ∀ other, Reads serde aes (crypto side) other message frame

theorem provenance_start (crypto : Side → Option FrameCrypto) :
    (start crypto).Provenance serde aes crypto where
  parted side := Endpoint.parted_start side.firstStreamId
  outbound := by
    intro side f hf
    cases hf
  cipher _ := rfl
  arrived := by
    intro side f hf
    cases hf
  wire := by
    intro side message hm
    cases hm

theorem Provenance.update (h : p.Provenance serde aes crypto) (side : Side) (m : MuxConnection)
    (wire : Side → List (List UInt8)) (hparted : m.endpoint.Parted side.firstStreamId)
    (hsent : ∀ f ∈ (p.mux side).endpoint.sent, f ∈ m.endpoint.sent)
    (houtbound : ∀ f ∈ m.outbound, f ∈ m.endpoint.sent)
    (hcipher : base m.crypto = base (crypto side))
    (harrived : ∀ f ∈ m.endpoint.arrived, f ∈ (p.mux side.other).endpoint.sent)
    (hwire : ∀ message ∈ wire side, ∃ frame ∈ m.endpoint.sent,
      ∀ other, Reads serde aes (crypto side) other message frame)
    (hrest : ∀ message ∈ wire side.other, message ∈ p.wire side.other) :
    Provenance serde aes crypto ⟨Function.update p.mux side m, wire⟩ := by
  have hself : Function.update p.mux side m side = m := Function.update_self _ _ _
  have hother : Function.update p.mux side m side.other = p.mux side.other :=
    Function.update_of_ne side.other_ne _ _
  constructor
  · intro side'
    rcases side.eq_or_eq_other side' with rfl | rfl
    · simpa only [hself] using hparted
    · simpa only [hother] using h.parted side.other
  · intro side'
    rcases side.eq_or_eq_other side' with rfl | rfl
    · simpa only [hself] using houtbound
    · simpa only [hother] using h.outbound side.other
  · intro side'
    rcases side.eq_or_eq_other side' with rfl | rfl
    · simpa only [hself] using hcipher
    · simpa only [hother] using h.cipher side.other
  · intro side'
    rcases side.eq_or_eq_other side' with rfl | rfl
    · simpa only [hself, hother] using harrived
    · have hold := h.arrived side.other
      simp only [Side.other_other] at hold
      simp only [Side.other_other, hself, hother]
      exact fun f hf => hsent f (hold f hf)
  · intro side'
    rcases side.eq_or_eq_other side' with rfl | rfl
    · simpa only [hself] using hwire
    · simp only [hother]
      exact fun message hm => h.wire side.other message (hrest message hm)

theorem Provenance.quiet (h : p.Provenance serde aes crypto) (side : Side) (m : MuxConnection)
    (hparted : m.endpoint.Parted side.firstStreamId)
    (hsent : ∃ queued, m.endpoint.sent = (p.mux side).endpoint.sent ++ queued)
    (houtbound : ∀ f ∈ m.outbound, f ∈ m.endpoint.sent)
    (hcipher : m.crypto = (p.mux side).crypto)
    (harrived : m.endpoint.arrived = (p.mux side).endpoint.arrived) :
    (p.setMux side m).Provenance serde aes crypto := by
  obtain ⟨queued, hqueued⟩ := hsent
  have hkept : ∀ f ∈ (p.mux side).endpoint.sent, f ∈ m.endpoint.sent := by
    intro f hf
    rw [hqueued]
    exact List.mem_append_left _ hf
  apply h.update side m p.wire hparted hkept houtbound
  · rw [hcipher]
    exact h.cipher side
  · rw [harrived]
    exact h.arrived side
  · intro message hm
    obtain ⟨frame, hframe, hreads⟩ := h.wire side message hm
    exact ⟨frame, hkept frame hframe, hreads⟩
  · exact fun message hm => hm

theorem writeLoop_spec {m m' : MuxConnection} {message : Option (List UInt8)}
    (hw : m.writeLoop serde aes = some (m', message)) :
    ∃ frame rest, m.outbound = frame :: rest ∧ m'.crypto = (writeFrame serde aes m.crypto frame).1 ∧
      (m'.outbound = rest ∧ m'.endpoint = m.endpoint ∨
        m'.outbound = [] ∧ m.endpoint.step .writerStop = some m'.endpoint) ∧
      ∀ bytes ∈ message, (writeFrame serde aes m.crypto frame).2 = .send bytes := by
  unfold MuxConnection.writeLoop at hw
  cases hqueue : m.outbound with
  | nil => simp [hqueue] at hw
  | cons frame rest =>
    refine ⟨frame, rest, rfl, ?_⟩
    simp only [hqueue] at hw
    cases hturn : (writeFrame serde aes m.crypto frame).2 with
    | skip =>
      simp only [hturn, Option.some.injEq, Prod.mk.injEq] at hw
      obtain ⟨rfl, rfl⟩ := hw
      exact ⟨rfl, .inl ⟨rfl, rfl⟩, by simp⟩
    | stop =>
      simp only [hturn, Option.some.injEq, Prod.mk.injEq] at hw
      obtain ⟨rfl, rfl⟩ := hw
      exact ⟨rfl, .inr ⟨rfl, rfl⟩, by simp⟩
    | send bytes =>
      simp only [hturn, Option.some.injEq, Prod.mk.injEq] at hw
      obtain ⟨rfl, rfl⟩ := hw
      exact ⟨rfl, .inl ⟨rfl, rfl⟩, by simp⟩

theorem Provenance.writeLoop (h : p.Provenance serde aes crypto) (hserde : serde.Inverts)
    (haes : aes.Ideal) (side : Side) {m : MuxConnection} {message : Option (List UInt8)}
    (hw : (p.mux side).writeLoop serde aes = some (m, message)) :
    ((p.setMux side m).setWire side (p.wire side ++ message.toList)).Provenance serde aes
      crypto := by
  obtain ⟨frame, rest, hqueue, hcrypto, hend, hmessage⟩ := writeLoop_spec hw
  have hframe : frame ∈ (p.mux side).endpoint.sent := h.outbound side frame (by simp [hqueue])
  have houtbound : ∀ f ∈ m.outbound, f ∈ (p.mux side).endpoint.sent := by
    intro f hf
    rcases hend with ⟨hrest, -⟩ | ⟨hnone, -⟩
    · apply h.outbound side
      rw [hqueue, ← hrest]
      exact List.mem_cons_of_mem _ hf
    · rw [hnone] at hf
      cases hf
  have hendpoint : m.endpoint.Parted side.firstStreamId ∧
      m.endpoint.sent = (p.mux side).endpoint.sent ∧
      m.endpoint.arrived = (p.mux side).endpoint.arrived := by
    rcases hend with ⟨-, he⟩ | ⟨-, hs⟩
    · rw [he]
      exact ⟨h.parted side, rfl, rfl⟩
    · refine ⟨(h.parted side).step hs, ?_⟩
      rw [← Option.some.inj hs]
      exact ⟨rfl, rfl⟩
  obtain ⟨hparted, hsent, harrived⟩ := hendpoint
  apply h.update side m (Function.update p.wire side _) hparted
  · rw [hsent]
    exact fun f hf => hf
  · rwa [hsent]
  · rw [hcrypto, base_writeFrame, h.cipher side]
  · rw [harrived]
    exact h.arrived side
  · rw [Function.update_self, hsent]
    intro bytes hm
    rcases List.mem_append.mp hm with hm | hm
    · exact h.wire side bytes hm
    · refine ⟨frame, hframe, fun other => ?_⟩
      have hturn := hmessage bytes (Option.mem_toList.mp hm)
      exact (reads_writeFrame hserde haes hturn other).of_base (h.cipher side)
  · rw [Function.update_of_ne side.other_ne]
    exact fun message hm => hm

theorem Provenance.readLoop (h : p.Provenance serde aes crypto) (side : Side) {message : List UInt8}
    {rest : List (List UInt8)} (hwire : p.wire side.other = message :: rest) :
    ((p.setMux side ((p.mux side).readLoop serde aes message)).setWire side.other rest).Provenance
      serde aes crypto := by
  obtain ⟨hcrypto, houtbound, -, hread⟩ :=
    MuxConnection.readLoop_spec serde aes (p.mux side) message
  generalize (p.mux side).readLoop serde aes message = m at *
  have hendpoint : m.endpoint.Parted side.firstStreamId ∧
      m.endpoint.sent = (p.mux side).endpoint.sent ∧
      ∀ f ∈ m.endpoint.arrived, f ∈ (p.mux side.other).endpoint.sent := by
    rcases hread with ⟨frame, hframe, he, -⟩ | ⟨-, he, -⟩
    · obtain ⟨hsent, harrived, -, -⟩ := (p.mux side).endpoint.receive_histories frame
      obtain ⟨sent, hmem, hreads⟩ := h.wire side.other message (by simp [hwire])
      obtain rfl := (hreads _).faithful frame hframe
      rw [he, harrived]
      refine ⟨(h.parted side).receive frame, hsent, ?_⟩
      intro f hf
      rcases List.mem_append.mp hf with hf | hf
      · exact h.arrived side f hf
      · rw [List.mem_singleton.mp hf]
        exact hmem
    · rw [he]
      exact ⟨h.parted side, rfl, h.arrived side⟩
  obtain ⟨hparted, hsent, harrived⟩ := hendpoint
  apply h.update side m (Function.update p.wire side.other rest) hparted
  · rw [hsent]
    exact fun f hf => hf
  · rw [hsent, houtbound]
    exact h.outbound side
  · rw [hcrypto]
    exact h.cipher side
  · exact harrived
  · rw [Function.update_of_ne side.other_ne.symm, hsent]
    exact h.wire side
  · rw [Function.update_self, hwire]
    exact fun message hm => List.mem_cons_of_mem _ hm

theorem Provenance.step (h : p.Provenance serde aes crypto) (hserde : serde.Inverts)
    (haes : aes.Ideal) {event : PairEvent} (hstep : p.step serde aes event = some p') :
    p'.Provenance serde aes crypto := by
  cases event with
  | call side event =>
    obtain ⟨m, hcall, rfl⟩ := Option.map_eq_some_iff.mp hstep
    obtain ⟨hc, endpoint, hs, rfl⟩ := MuxConnection.call_eq_some hcall
    have hgrows := Endpoint.grows_step hs hc
    obtain ⟨queued, hsent, -⟩ := hgrows.sent
    refine h.quiet side _ ((h.parted side).step hs) ⟨queued, hsent⟩ ?_ rfl hgrows.arrived
    intro f hf
    dsimp only at hf ⊢
    rw [hsent, List.drop_left] at hf
    rw [hsent]
    exact List.mem_append.mpr ((List.mem_append.mp hf).imp_left (h.outbound side f))
  | writeLoop side =>
    obtain ⟨⟨m, message⟩, hw, rfl⟩ := Option.map_eq_some_iff.mp hstep
    exact h.writeLoop hserde haes side hw
  | writerEnd side =>
    obtain rfl := Option.some.inj hstep
    have hs : (p.mux side).endpoint.step .writerStop = some (p.mux side).stopWriter.endpoint := rfl
    exact h.quiet side _ ((h.parted side).step hs) ⟨[], (List.append_nil _).symm⟩
      (by simp [MuxConnection.stopWriter]) rfl rfl
  | readLoop side =>
    simp only [Pair.step] at hstep
    cases hwire : p.wire side.other with
    | nil => simp [hwire] at hstep
    | cons message rest =>
      rw [hwire] at hstep
      obtain ⟨-, hs⟩ := Option.ite_none_right_eq_some.mp hstep
      obtain rfl := Option.some.inj hs
      exact h.readLoop side hwire
  | readerEnd side =>
    obtain rfl := Option.some.inj hstep
    exact h.quiet side _ (h.parted side) ⟨[], (List.append_nil _).symm⟩ (h.outbound side) rfl rfl

/-! ## What an `open_stream` returns -/

/-- An `open_stream` that succeeds returns an id that no live stream has in either table. -/
def FreshId (m : Move Pair PairEvent) : Prop :=
  ∀ side i request, m.event = .call side (.openFinish i request) →
    (m.before.mux side).endpoint.writerOpen = true →
      ∀ side', (m.before.mux side').endpoint.liveId i = false

/-- An `open_stream` that returns an id for the second time, since the counter has come round,
finds no live stream of that id in either table. -/
def RoundCleared (m : Move Pair PairEvent) : Prop :=
  ∀ side i request, m.event = .call side (.openFinish i request) →
    (m.before.mux side).endpoint.writerOpen = true → OpenIn i (m.before.mux side).endpoint.sent →
      ∀ side', (m.before.mux side').endpoint.liveId i = false

variable {ms : List (Move Pair PairEvent)}

theorem provenance_run (hserde : serde.Inverts) (haes : aes.Ideal)
    (hrun : Run (Pair.step serde aes) (start crypto) ms p) : p.Provenance serde aes crypto :=
  hrun.invariant (provenance_start crypto) fun _ _ _ h hs => h.step hserde haes hs

theorem Provenance.absent (h : p.Provenance serde aes crypto) {side : Side} {i : UInt32}
    (hown : Own side.firstStreamId i) (hwriter : (p.mux side).endpoint.writerOpen = true)
    (hnew : ¬ OpenIn i (p.mux side).endpoint.sent) (side' : Side) :
    (p.mux side').endpoint.streams.get i = none := by
  have hheard : ∀ side, OpenIn i (p.mux side).endpoint.arrived →
      OpenIn i (p.mux side.other).endpoint.sent := by
    rintro side ⟨request, hm⟩
    exact ⟨request, h.arrived side _ hm⟩
  have hforeign : ¬ Own side.other.firstStreamId i := fun ho => (side.own_other i).mp ho hown
  by_contra hget
  obtain ⟨r, hr⟩ := Option.ne_none_iff_exists'.mp hget
  rcases side.eq_or_eq_other side' with rfl | rfl
  · rcases (h.parted _).entry i r hr with hopen | ⟨-, hsent⟩
    · exact hforeign ((h.parted _).sent i (hheard _ hopen))
    · exact hnew (hsent hwriter)
  · rcases (h.parted _).entry i r hr with hopen | ⟨ho, -⟩
    · have hback := hheard _ hopen
      rw [Side.other_other] at hback
      exact hnew hback
    · exact hforeign ho

theorem opened_run (hrun : Run (Pair.step serde aes) p ms p') (side : Side) :
    (p.mux side).endpoint.opened ≤ (p'.mux side).endpoint.opened := by
  induction hrun with
  | nil => exact le_rfl
  | snoc _ hs ih => exact ih.trans (opened_step hs side)

theorem opening_of_step {side : Side} {i : UInt32} {request : OpenRequest}
    (hs : p.step serde aes (.call side (.openFinish i request)) = some p') :
    (i, request) ∈ (p.mux side).endpoint.opening := by
  obtain ⟨m, hcall, rfl⟩ := Option.map_eq_some_iff.mp hs
  obtain ⟨-, endpoint, hstep, rfl⟩ := MuxConnection.call_eq_some hcall
  rw [Endpoint.step, Option.ite_none_right_eq_some] at hstep
  exact hstep.1

/-- The ids that `open_stream` returns are fresh in exactly the runs in which every id that comes
round is free by then, and so in all runs of at most 2^31 calls on each end. -/
theorem fresh_ids_iff (hserde : serde.Inverts) (haes : aes.Ideal)
    (hrun : Run (Pair.step serde aes) (start crypto) ms p) :
    ((∀ m ∈ ms, FreshId m) ↔ ∀ m ∈ ms, RoundCleared m) ∧
      ((∀ side, (p.mux side).endpoint.opened ≤ 2 ^ 31) → ∀ m ∈ ms, FreshId m) := by
  have hfresh : ∀ m ∈ ms, RoundCleared m → FreshId m := by
    intro m hm hcleared side i request he hwriter side'
    obtain ⟨ns, -, hbefore, -⟩ := hrun.upto hm
    have hs := hrun.step_of_mem hm
    have h := provenance_run hserde haes hbefore
    by_cases hopen : OpenIn i (m.before.mux side).endpoint.sent
    · exact hcleared side i request he hwriter hopen side'
    · rw [he] at hs
      have hown := (h.parted side).opening _ (opening_of_step hs)
      rw [Endpoint.liveId, h.absent hown hwriter hopen side']
      rfl
  refine ⟨⟨?_, fun h m hm => hfresh m hm (h m hm)⟩, ?_⟩
  · intro h m hm side i request he hwriter _
    exact h m hm side i request he hwriter
  · intro hbound m hm
    apply hfresh m hm
    intro side i request he hwriter hopen
    obtain ⟨ns₁, ns₂, rfl⟩ := List.append_of_mem hm
    obtain ⟨hbefore, hs, hafter⟩ := hrun.of_split
    have hbound' : ∀ side, (m.before.mux side).endpoint.opened ≤ 2 ^ 31 := fun side =>
      (opened_step hs side).trans ((opened_run hafter side).trans (hbound side))
    have hsound := run_sound hserde haes hbefore hbound'
    rw [he] at hs
    exact absurd hopen ((hsound.mux side).endpoint.opening _ (opening_of_step hs)).2

/-- Both ends open streams while one stays open. -/
def crossing : List PairEvent :=
  [.call .odd (.openBegin .socks), .call .odd (.openFinish 1 .socks),
    .call .even (.openBegin .socks),
    .writeLoop .odd, .call .even (.openFinish 2 .socks), .readLoop .even, .writeLoop .even,
    .readLoop .odd, .call .odd (.openBegin .socks), .call .odd (.openFinish 3 .socks)]

theorem fresh_ids_of_crossing :
    (play (Pair.step .plain namedCipher) (start fun _ => none) crossing).isSome = true ∧
      ∀ m ∈ history (Pair.step .plain namedCipher) (start fun _ => none) crossing, FreshId m := by
  have hplay :
      (play (Pair.step .plain namedCipher) (start fun _ => none) crossing).isSome = true := by
    decide +kernel
  refine ⟨hplay, ?_⟩
  apply (fresh_ids_iff SerdeSlice.plain_inverts namedCipher_ideal (Run.of_outcome hplay)).2
  intro side
  cases side <;> decide +kernel

/-! ## The counter comes round -/

/-- The first stream is live, all others are gone, and so many ids have been drawn. -/
structure Holding (e : Endpoint) (drawn : ℕ) : Prop where
  next : e.nextStreamId = idAt 1 drawn
  opening : e.opening = []
  reaping : e.reaping = []
  writerOpen : e.writerOpen = true
  created : 0 < e.created
  entry : e.streams.get 1 = some 0
  stream : e.stream 0 = some (.new 1)

theorem Holding.next_stream {e : Endpoint} {drawn : ℕ} (h : Holding e drawn) (hpos : 0 < drawn)
    (hround : drawn < 2 ^ 31) : ∃ ns e', Run Endpoint.step e ns e' ∧
      (∀ m ∈ ns, m.event.isCall = true) ∧ Holding e' (drawn + 1) := by
  have hid : idAt 1 drawn ≠ 1 := by
    intro he
    have hzero : idAt 1 drawn = idAt 1 0 := he
    have hdrawn := idAt_inj hround (by omega) hzero
    omega
  have href : (0 : StreamRef) ≠ e.created := (Nat.ne_of_lt h.created)
  have hplay : ∃ e', play Endpoint.step e [.openBegin .socks, .openFinish (idAt 1 drawn) .socks,
      .drop e.created, .reap (idAt 1 drawn)] = some e' ∧ Holding e' (drawn + 1) := by
    obtain ⟨hnext, hopening, hreaping, hwriter, hcreated, hentry, hstream⟩ := h
    simp only [play, Endpoint.step, hopening, hnext, List.nil_append, Option.bind_some,
      List.mem_singleton, if_true, Endpoint.openFinish, hwriter, Endpoint.send, Endpoint.setStream,
      Endpoint.live, Function.update_self, Option.filter_some, Bool.not_false, Option.map_some,
      Endpoint.dropStream, VirtualStream.new, hreaping, Bool.false_eq_true, if_false]
    refine ⟨_, rfl, ?_⟩
    constructor
    case next => exact (idAt_succ 1 drawn).symm
    case opening => simp
    case reaping => simp
    case writerOpen => rfl
    case created => exact Nat.succ_pos _
    case entry =>
      change ((e.streams.insert (idAt 1 drawn) e.created).remove (idAt 1 drawn)).get 1 = some 0
      rw [Table.get_remove, if_neg hid.symm, Table.get_insert, if_neg hid.symm]
      exact hentry
    case stream => simp [Function.update_of_ne href, hstream]
  obtain ⟨e', hplay, hholding⟩ := hplay
  refine ⟨_, e', Run.of_play hplay, ?_, hholding⟩
  intro m hm
  have hevent := event_mem_of_history hm
  simp only [List.mem_cons, List.not_mem_nil, or_false] at hevent
  rcases hevent with he | he | he | he <;> rw [he] <;> rfl

theorem exists_round {e : Endpoint} (h : Holding e 1) (n : ℕ) (hn : n < 2 ^ 31) :
    ∃ ns e', Run Endpoint.step e ns e' ∧ (∀ m ∈ ns, m.event.isCall = true) ∧
      Holding e' (n + 1) := by
  induction n with
  | zero => exact ⟨[], e, Run.nil, by simp, h⟩
  | succ n ih =>
    obtain ⟨ns, e', hrun, hcalls, hholding⟩ := ih (by omega)
    obtain ⟨ns', e'', hrun', hcalls', hholding'⟩ := hholding.next_stream (Nat.succ_pos n) hn
    refine ⟨ns ++ ns', e'', hrun.trans hrun', ?_, hholding'⟩
    intro m hm
    exact (List.mem_append.mp hm).elim (hcalls m) (hcalls' m)

theorem Holding.draw {e : Endpoint} {drawn : ℕ} (h : Holding e drawn) (hback : idAt 1 drawn = 1) :
    ∃ e', e.step (.openBegin .socks) = some e' ∧ (1, .socks) ∈ e'.opening ∧ e'.writerOpen = true ∧
      e'.liveId 1 = true := by
  refine ⟨_, rfl, ?_, h.writerOpen, ?_⟩
  · simp [h.opening, h.next, hback]
  · have hlive : e.live 0 = some (.new 1) := Endpoint.live_eq_some.mpr ⟨h.stream, rfl⟩
    change ((e.streams.get 1).bind e.live).isSome = true
    rw [h.entry, Option.bind_some, hlive]
    rfl

theorem step_of_call (serde : SerdeSlice) (aes : AesGcm) {p : Pair} {side : Side}
    {event : StreamEvent} {e : Endpoint} (hcall : event.isCall = true)
    (hs : (p.mux side).endpoint.step event = some e) :
    ∃ p', p.step serde aes (.call side event) = some p' ∧ (p'.mux side).endpoint = e := by
  rw [Pair.step, MuxConnection.call, if_pos hcall, hs]
  refine ⟨_, rfl, ?_⟩
  rw [setMux_mux_self]

theorem run_of_calls (serde : SerdeSlice) (aes : AesGcm) (p : Pair) (side : Side)
    {ns : List (Move Endpoint StreamEvent)} {e : Endpoint}
    (hrun : Run Endpoint.step (p.mux side).endpoint ns e)
    (hcalls : ∀ m ∈ ns, m.event.isCall = true) :
    ∃ ms p', Run (Pair.step serde aes) p ms p' ∧ (p'.mux side).endpoint = e := by
  induction hrun with
  | nil => exact ⟨[], p, Run.nil, rfl⟩
  | @snoc ns e e' event _ hs ih =>
    obtain ⟨ms, p', hrun', rfl⟩ := ih fun m hm => hcalls m (List.mem_append_left _ hm)
    have hcall : event.isCall = true := hcalls ⟨(p'.mux side).endpoint, event, e'⟩ (by simp)
    obtain ⟨p'', hstep, hendpoint⟩ := step_of_call serde aes hcall hs
    exact ⟨_, p'', hrun'.snoc hstep, hendpoint⟩

/-- After 2^31 calls an `open_stream` returns the id of the stream that is still open. -/
theorem stale_id_of_round : ∃ ms p, Run (Pair.step .plain clearCipher) (start fun _ => none) ms p ∧
    ¬ ∀ m ∈ ms, FreshId m := by
  have hfirst : ∃ ns e, Run Endpoint.step (Endpoint.start 1) ns e ∧
      (∀ m ∈ ns, m.event.isCall = true) ∧ Holding e 1 := by
    have hplay :
        (play Endpoint.step (Endpoint.start 1) [.openBegin .socks, .openFinish 1 .socks]).isSome =
        true := by decide +kernel
    refine ⟨_, _, Run.of_outcome hplay, ?_, ?_⟩
    · intro m hm
      have hevent := event_mem_of_history hm
      simp only [List.mem_cons, List.not_mem_nil, or_false] at hevent
      rcases hevent with he | he <;> rw [he] <;> rfl
    · constructor <;> decide +kernel
  obtain ⟨ns, e, hrun, hcalls, hholding⟩ := hfirst
  obtain ⟨ns', e', hrun', hcalls', hround⟩ := exists_round hholding (2 ^ 31 - 1) (by omega)
  have hback : idAt 1 (2 ^ 31 - 1 + 1) = 1 := by decide +kernel
  obtain ⟨e'', hdraw, hopening, hwriter, hlive⟩ := hround.draw hback
  have hall : ∀ m ∈ (ns ++ ns') ++ [⟨e', .openBegin .socks, e''⟩], m.event.isCall = true := by
    intro m hm
    simp only [List.mem_append, List.mem_singleton] at hm
    rcases hm with (hm | hm) | rfl
    · exact hcalls m hm
    · exact hcalls' m hm
    · rfl
  obtain ⟨ms, p, hpair, hendpoint⟩ := run_of_calls .plain clearCipher (start fun _ => none) .odd
    ((hrun.trans hrun').snoc hdraw) hall
  rw [← hendpoint] at hopening hwriter hlive
  have hstep : (p.mux .odd).endpoint.step (.openFinish 1 .socks) =
      some ((p.mux .odd).endpoint.openFinish 1 .socks) := if_pos hopening
  obtain ⟨p', hfinish, -⟩ := step_of_call .plain clearCipher rfl hstep
  refine ⟨_, p', hpair.snoc hfinish, ?_⟩
  intro hfresh
  have hlast :=
    hfresh ⟨p, .call .odd (.openFinish 1 .socks), p'⟩ (by simp) .odd 1 .socks rfl hwriter .odd
  rw [hlive] at hlast
  cases hlast

end Pair

end NodeAccess.Mux
