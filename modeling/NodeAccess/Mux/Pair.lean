import NodeAccess.Mux.Loops
import NodeAccess.Mux.Messages

/-! # Two ends of one connection

Two mux connections, one with the odd stream ids and one with the even ones, exchange
their messages over a transport that keeps the order and loses nothing. What a stream
hands to its reader is then what the other end wrote to the stream of the same id.
-/

namespace NodeAccess.Mux

open Foundation Crypto

/-- The end that starts with stream id 1 and the end that starts with stream id 2. -/
inductive Side where
  | odd
  | even
deriving DecidableEq, Repr

namespace Side

def other : Side → Side
  | odd => even
  | even => odd

def firstStreamId : Side → UInt32
  | odd => 1
  | even => 2

@[simp] theorem other_other (side : Side) : side.other.other = side := by
  cases side <;> rfl

theorem other_ne (side : Side) : side.other ≠ side := by
  cases side <;> decide

theorem eq_or_eq_other (side side' : Side) : side' = side ∨ side' = side.other := by
  cases side <;> cases side' <;> decide

theorem own_other (side : Side) (i : UInt32) :
    Own side.other.firstStreamId i ↔ ¬ Own side.firstStreamId i := by
  cases side <;> simp [Own, firstStreamId, other]

end Side

/-- `wire` holds the messages that an end has sent and the other end has not read. -/
structure Pair where
  mux : Side → MuxConnection
  wire : Side → List (List UInt8)

inductive PairEvent where
  | call (side : Side) (event : StreamEvent)
  | writeLoop (side : Side)
  | writerEnd (side : Side)
  | readLoop (side : Side)
  | readerEnd (side : Side)
deriving DecidableEq, Repr

namespace Pair

def start (crypto : Side → Option FrameCrypto) : Pair :=
  ⟨fun side => .start side.firstStreamId (crypto side), fun _ => []⟩

def setMux (p : Pair) (side : Side) (m : MuxConnection) : Pair :=
  { p with mux := Function.update p.mux side m }

def setWire (p : Pair) (side : Side) (messages : List (List UInt8)) : Pair :=
  { p with wire := Function.update p.wire side messages }

variable (serde : SerdeSlice) (aes : AesGcm)

def step (p : Pair) : PairEvent → Option Pair
  | .call side event => ((p.mux side).call event).map (p.setMux side)
  | .writeLoop side => ((p.mux side).writeLoop serde aes).map fun r =>
      (p.setMux side r.1).setWire side (p.wire side ++ r.2.toList)
  | .writerEnd side => some (p.setMux side (p.mux side).stopWriter)
  | .readLoop side =>
    match p.wire side.other with
    | message :: rest =>
      if (p.mux side).readerOpen then
        some ((p.setMux side ((p.mux side).readLoop serde aes message)).setWire side.other rest)
      else none
    | [] => none
  | .readerEnd side => some (p.setMux side { p.mux side with readerOpen := false })

end Pair

/-! ## Frames between two sound ends -/

namespace Endpoint

variable {e e' : Endpoint} {first first' : UInt32}

theorem Sound.open_first (h : e.Sound first) {earlier : List MuxFrame} {i : UInt32}
    {request : OpenRequest} (hsub : (earlier ++ [MuxFrame.openStream i request]).Sublist e.sent) :
    ∀ g ∈ earlier, g.streamId ≠ some i := by
  obtain ⟨l₁, l₂, hsent, h₁, h₂⟩ := List.append_sublist_iff.mp hsub
  obtain ⟨a, b, rfl⟩ := List.append_of_mem (List.singleton_sublist.mp h₂)
  have hbegins : (l₁ ++ a) ++ [.openStream i request] <+: e.sent := ⟨b, by rw [hsent]; simp⟩
  intro g hg
  exact (h.order _ _ hbegins i rfl).1 rfl g (List.mem_append_left _ (h₁.subset hg))

theorem Sound.accepts (h : e.Sound first) (hother : ∀ i, Own first i ↔ ¬ Own first' i)
    {frame : MuxFrame} (hheard : (e'.arrived ++ [frame]).Sublist e.sent)
    (hback : e.arrived.Sublist e'.sent) : Accepts first' e' frame := by
  have hsent : frame ∈ e.sent := hheard.subset (by simp)
  constructor
  · rintro i request rfl
    obtain ⟨k, -, rfl⟩ := h.sentOpen i ⟨request, hsent⟩
    exact ⟨(hother _).mp (own_idAt first k), h.open_first hheard⟩
  · intro i hi hown
    obtain ⟨r, s, hs, rfl⟩ := h.sentBy frame hsent i hi
    have hforeign : ¬ Own first s.streamId := fun ho => (hother _).mp ho hown
    obtain ⟨request, hm⟩ := h.foreign r s hs hforeign
    exact ⟨request, hback.subset hm⟩

end Endpoint

/-! ## The invariant of the pair -/

/-- What the receiver has heard is the beginning of what the sender wrote, and as long as it
reads, the rest is on the wire. -/
structure Link (serde : SerdeSlice) (aes : AesGcm) (crypto other : Option FrameCrypto)
    (sender receiver : MuxConnection) (wire : List (List UInt8)) : Prop where
  heard : receiver.endpoint.arrived <+: sender.wrote
  flight : receiver.readerOpen = true →
    ∃ frames, sender.wrote = receiver.endpoint.arrived ++ frames ∧
    List.Forall₂ (Reads serde aes crypto other) wire frames

namespace Link

variable {serde : SerdeSlice} {aes : AesGcm} {crypto other : Option FrameCrypto}
  {sender sender' receiver receiver' : MuxConnection} {wire : List (List UInt8)}

theorem readable (hmatch : Matched crypto other) {frames : List MuxFrame}
    (hwire : List.Forall₂ (Reads serde aes crypto other) wire frames) :
    ∀ message ∈ wire, ∃ frame, readFrame serde aes other message = .ok frame := by
  induction hwire with
  | nil => simp
  | cons hreads _ ih =>
    intro message hm
    rcases List.mem_cons.mp hm with rfl | hm
    · exact ⟨_, hreads.reads hmatch⟩
    · exact ih message hm

theorem of_sender (h : Link serde aes crypto other sender receiver wire)
    (hwrote : sender'.wrote = sender.wrote) :
    Link serde aes crypto other sender' receiver wire := by
  constructor
  · rw [hwrote]
    exact h.heard
  · rw [hwrote]
    exact h.flight

theorem of_receiver (h : Link serde aes crypto other sender receiver wire)
    (harrived : receiver'.endpoint.arrived = receiver.endpoint.arrived)
    (hreader : receiver'.readerOpen = true → receiver.readerOpen = true) :
    Link serde aes crypto other sender receiver' wire := by
  constructor
  · rw [harrived]
    exact h.heard
  · rw [harrived]
    exact fun hr => h.flight (hreader hr)

theorem write (h : Link serde aes crypto other sender receiver wire) {frame : MuxFrame}
    {message : List UInt8} (hwrote : sender'.wrote = sender.wrote ++ [frame])
    (hreads : Reads serde aes crypto other message frame) :
    Link serde aes crypto other sender' receiver (wire ++ [message]) := by
  constructor
  · rw [hwrote]
    exact h.heard.trans (List.prefix_append _ _)
  · intro hr
    obtain ⟨frames, hf, hwire⟩ := h.flight hr
    refine ⟨frames ++ [frame], by rw [hwrote, hf, List.append_assoc], ?_⟩
    exact List.rel_append hwire (.cons hreads .nil)

theorem next {message : List UInt8}
    (h : Link serde aes crypto other sender receiver (message :: wire))
    (hr : receiver.readerOpen = true) (hbase : base receiver.crypto = base other) {frame : MuxFrame}
    (hread : readFrame serde aes receiver.crypto message = .ok frame) :
    receiver.endpoint.arrived ++ [frame] <+: sender.wrote ∧
      ∃ frames, sender.wrote = receiver.endpoint.arrived ++ [frame] ++ frames ∧
        List.Forall₂ (Reads serde aes crypto other) wire frames := by
  obtain ⟨frames, hf, hwire⟩ := h.flight hr
  cases hwire with
  | @cons _ frame' _ frames hhead htail =>
    rw [← readFrame_base, hbase, readFrame_base] at hread
    obtain rfl := hhead.faithful frame hread
    have hsplit : sender.wrote = receiver.endpoint.arrived ++ [frame] ++ frames := by
      rw [hf, List.append_cons]
    exact ⟨⟨frames, hsplit.symm⟩, frames, hsplit, htail⟩

theorem read {message : List UInt8}
    (h : Link serde aes crypto other sender receiver (message :: wire))
    (hr : receiver.readerOpen = true) (hbase : base receiver.crypto = base other) :
    Link serde aes crypto other sender (receiver.readLoop serde aes message) wire := by
  obtain ⟨-, -, -, hturn⟩ := MuxConnection.readLoop_spec serde aes receiver message
  rcases hturn with ⟨frame, hread, he, -⟩ | ⟨-, he, hclosed⟩
  · obtain ⟨hbegins, hflight⟩ := h.next hr hbase hread
    have harrived := (receiver.endpoint.receive_histories frame).2.1
    constructor
    · rw [he, harrived]
      exact hbegins
    · intro _
      rw [he, harrived]
      exact hflight
  · constructor
    · rw [he]
      exact h.heard
    · intro hopen
      rw [hclosed] at hopen
      cases hopen

end Link

namespace Pair

variable {serde : SerdeSlice} {aes : AesGcm} {crypto : Side → Option FrameCrypto} {p p' : Pair}

structure Sound (serde : SerdeSlice) (aes : AesGcm) (crypto : Side → Option FrameCrypto)
    (p : Pair) :
    Prop where
  mux : ∀ side, (p.mux side).Sound side.firstStreamId (crypto side)
  link : ∀ side, Link serde aes (crypto side.other) (crypto side) (p.mux side.other) (p.mux side)
    (p.wire side.other)

theorem sound_start (crypto : Side → Option FrameCrypto) :
    (start crypto).Sound serde aes crypto where
  mux side := MuxConnection.sound_start side.firstStreamId (crypto side)
  link _ := ⟨List.prefix_rfl, fun _ => ⟨[], rfl, .nil⟩⟩

theorem Sound.update (h : p.Sound serde aes crypto) {side : Side}
    (hmux : (p'.mux side).Sound side.firstStreamId (crypto side))
    (hother : p'.mux side.other = p.mux side.other)
    (hsends : Link serde aes (crypto side) (crypto side.other) (p'.mux side) (p.mux side.other)
      (p'.wire side))
    (hhears : Link serde aes (crypto side.other) (crypto side) (p.mux side.other) (p'.mux side)
      (p'.wire side.other)) : p'.Sound serde aes crypto := by
  constructor
  · intro side'
    rcases side.eq_or_eq_other side' with rfl | rfl
    · exact hmux
    · rw [hother]
      exact h.mux side.other
  · intro side'
    rcases side.eq_or_eq_other side' with rfl | rfl
    · rw [hother]
      exact hhears
    · rw [hother, Side.other_other]
      exact hsends

@[simp] theorem setMux_mux_self (side : Side) (m : MuxConnection) :
    (p.setMux side m).mux side = m :=
  Function.update_self _ _ _

@[simp] theorem setMux_mux_other (side : Side) (m : MuxConnection) :
    (p.setMux side m).mux side.other = p.mux side.other :=
  Function.update_of_ne side.other_ne _ _

theorem Sound.heard (h : p.Sound serde aes crypto) (side : Side) :
    (p.mux side).endpoint.arrived <+: (p.mux side.other).endpoint.sent :=
  (h.link side).heard.trans (h.mux side.other).wrote

theorem Sound.sends (h : p.Sound serde aes crypto) (side : Side) :
    Link serde aes (crypto side) (crypto side.other) (p.mux side) (p.mux side.other)
      (p.wire side) := by
  have hlink := h.link side.other
  rwa [Side.other_other] at hlink

theorem Sound.quiet (h : p.Sound serde aes crypto) {side : Side} {m : MuxConnection}
    (hmux : m.Sound side.firstStreamId (crypto side)) (hwrote : m.wrote = (p.mux side).wrote)
    (harrived : m.endpoint.arrived = (p.mux side).endpoint.arrived)
    (hreader : m.readerOpen = true → (p.mux side).readerOpen = true) :
    (p.setMux side m).Sound serde aes crypto := by
  apply h.update
  · rw [setMux_mux_self]
    exact hmux
  · exact setMux_mux_other side m
  · rw [setMux_mux_self]
    exact (h.sends side).of_sender hwrote
  · rw [setMux_mux_self]
    exact (h.link side).of_receiver harrived hreader

theorem Sound.accepts_next (h : p.Sound serde aes crypto) {side : Side} {message : List UInt8}
    {rest : List (List UInt8)} (hwire : p.wire side.other = message :: rest)
    (hr : (p.mux side).readerOpen = true) (frame : MuxFrame)
    (hread : readFrame serde aes (p.mux side).crypto message = .ok frame) :
    Endpoint.Accepts side.firstStreamId (p.mux side).endpoint frame := by
  have hlink := h.link side
  rw [hwire] at hlink
  have hnext := (hlink.next hr (h.mux side).cipher hread).1
  have hback := h.heard side.other
  rw [Side.other_other] at hback
  exact (h.mux side.other).endpoint.accepts (side.own_other)
    (hnext.trans (h.mux side.other).wrote).sublist
    hback.sublist

theorem Sound.step (h : p.Sound serde aes crypto) (hserde : serde.Inverts) (haes : aes.Ideal)
    {event : PairEvent} (hstep : p.step serde aes event = some p')
    (hbound : ∀ side, (p'.mux side).endpoint.opened ≤ 2 ^ 31) : p'.Sound serde aes crypto := by
  cases event with
  | call side event =>
    obtain ⟨m, hcall, rfl⟩ := Option.map_eq_some_iff.mp hstep
    obtain ⟨hc, endpoint, hs, rfl⟩ := MuxConnection.call_eq_some hcall
    have hbound' :
        ∀ request, event = .openBegin request → (p.mux side).endpoint.opened < 2 ^ 31 := by
      rintro request rfl
      obtain rfl := Option.some.inj hs
      have hafter := hbound side
      rwa [setMux_mux_self] at hafter
    exact h.quiet ((h.mux side).call hcall hbound') rfl (Endpoint.grows_step hs hc).arrived
      fun hr => hr
  | writeLoop side =>
    obtain ⟨⟨m, message⟩, hw, rfl⟩ := Option.map_eq_some_iff.mp hstep
    obtain ⟨hmux, hreader, hmessage⟩ := (h.mux side).writeLoop hserde haes hw
    obtain ⟨⟨writerOpen, he⟩, -⟩ := MuxConnection.writeLoop_endpoint hw
    apply h.update
    · change ((p.setMux side m).mux side).Sound side.firstStreamId (crypto side)
      rw [setMux_mux_self]
      exact hmux
    · exact setMux_mux_other side m
    · change Link serde aes _ _ ((p.setMux side m).mux side) _ (Function.update p.wire side _ side)
      rw [setMux_mux_self, Function.update_self]
      cases message with
      | none => simpa using (h.sends side).of_sender hmessage
      | some bytes =>
        obtain ⟨frame, hwrote, hreads⟩ := hmessage
        exact (h.sends side).write hwrote (hreads _)
    · change Link serde aes _ _ _ ((p.setMux side m).mux side)
        (Function.update p.wire side _ side.other)
      rw [setMux_mux_self, Function.update_of_ne side.other_ne]
      exact (h.link side).of_receiver (by rw [he]) fun hr => hreader ▸ hr
  | writerEnd side =>
    obtain rfl := Option.some.inj hstep
    exact h.quiet (h.mux side).stopWriter rfl rfl fun hr => hr
  | readLoop side =>
    simp only [Pair.step] at hstep
    cases hwire : p.wire side.other with
    | nil => simp [hwire] at hstep
    | cons message rest =>
      rw [hwire] at hstep
      obtain ⟨hr, hs⟩ := Option.ite_none_right_eq_some.mp hstep
      obtain rfl := Option.some.inj hs
      apply h.update
      · change ((p.setMux side _).mux side).Sound side.firstStreamId (crypto side)
        rw [setMux_mux_self]
        exact (h.mux side).readLoop fun frame => h.accepts_next hwire hr frame
      · exact setMux_mux_other side _
      · change Link serde aes _ _ ((p.setMux side _).mux side) _
          (Function.update p.wire side.other rest side)
        rw [setMux_mux_self, Function.update_of_ne side.other_ne.symm]
        exact (h.sends side).of_sender (MuxConnection.readLoop_spec serde aes _ message).2.2.1
      · change Link serde aes _ _ _ ((p.setMux side _).mux side)
          (Function.update p.wire side.other rest side.other)
        rw [setMux_mux_self, Function.update_self]
        have hlink := h.link side
        rw [hwire] at hlink
        exact hlink.read hr (h.mux side).cipher
  | readerEnd side =>
    obtain rfl := Option.some.inj hstep
    have hmux := h.mux side
    exact h.quiet ⟨hmux.endpoint, hmux.wrote, hmux.pending, hmux.stopped, hmux.cipher⟩ rfl rfl
      fun hr => absurd hr Bool.false_ne_true

theorem opened_setMux {side : Side} {m : MuxConnection}
    (h : (p.mux side).endpoint.opened ≤ m.endpoint.opened) (side' : Side) :
    (p.mux side').endpoint.opened ≤ ((p.setMux side m).mux side').endpoint.opened := by
  rcases side.eq_or_eq_other side' with rfl | rfl
  · rwa [setMux_mux_self]
  · rw [setMux_mux_other]

theorem opened_step {event : PairEvent} (hstep : p.step serde aes event = some p') (side : Side) :
    (p.mux side).endpoint.opened ≤ (p'.mux side).endpoint.opened := by
  cases event with
  | call side' event =>
    obtain ⟨m, hcall, rfl⟩ := Option.map_eq_some_iff.mp hstep
    obtain ⟨hc, endpoint, hs, rfl⟩ := MuxConnection.call_eq_some hcall
    exact opened_setMux (Endpoint.grows_step hs hc).opened side
  | writeLoop side' =>
    obtain ⟨⟨m, message⟩, hw, rfl⟩ := Option.map_eq_some_iff.mp hstep
    obtain ⟨⟨writerOpen, he⟩, -⟩ := MuxConnection.writeLoop_endpoint hw
    exact opened_setMux (by rw [he]) side
  | writerEnd side' =>
    obtain rfl := Option.some.inj hstep
    apply opened_setMux
    exact le_rfl
  | readLoop side' =>
    simp only [Pair.step] at hstep
    cases hwire : p.wire side'.other with
    | nil => simp [hwire] at hstep
    | cons message rest =>
      rw [hwire] at hstep
      obtain ⟨-, hs⟩ := Option.ite_none_right_eq_some.mp hstep
      obtain rfl := Option.some.inj hs
      apply opened_setMux
      obtain ⟨-, -, -, ⟨frame, -, he, -⟩ | ⟨-, he, -⟩⟩ :=
        MuxConnection.readLoop_spec serde aes (p.mux side') message
      · rw [he, ((p.mux side').endpoint.receive_histories frame).2.2.2]
      · rw [he]
  | readerEnd side' =>
    obtain rfl := Option.some.inj hstep
    apply opened_setMux
    exact le_rfl

/-- The invariant holds in every run in which the stream ids have not come round. -/
theorem run_sound (hserde : serde.Inverts) (haes : aes.Ideal)
    {ms : List (Move Pair PairEvent)}
    (hrun : Run (Pair.step serde aes) (start crypto) ms p)
    (hbound : ∀ side, (p.mux side).endpoint.opened ≤ 2 ^ 31) : p.Sound serde aes crypto := by
  have hinv := hrun.invariant
    (P := fun p => (∀ side, (p.mux side).endpoint.opened ≤ 2 ^ 31) → p.Sound serde aes crypto)
    (fun _ => sound_start crypto)
  apply hinv _ hbound
  intro p event p' hp hstep hb
  have hb' : ∀ side, (p.mux side).endpoint.opened ≤ 2 ^ 31 := fun side =>
    (opened_step hstep side).trans (hb side)
  exact (hp hb').step hserde haes hstep hb

/-! ## The streams of the pair -/

/-- Everything that the other end has queued has been heard. -/
structure Drained (p : Pair) (side : Side) : Prop where
  writer : (p.mux side.other).endpoint.writerOpen = true
  outbound : (p.mux side.other).outbound = []
  wire : p.wire side.other = []
  reader : (p.mux side).readerOpen = true

/-- The stream of the other end with the same id. -/
def PeerStream (p : Pair) (side : Side) (s s' : VirtualStream) : Prop :=
  ∃ r', (p.mux side.other).endpoint.stream r' = some s' ∧ s'.streamId = s.streamId

/-- What a stream may rely on: no other stream of its end shares its id, the one of the other
end that does is its peer, and the bytes of the two agree. -/
structure StreamCorrect (p : Pair) (side : Side) (r : StreamRef) (s : VirtualStream) : Prop where
  unique : ∀ r' s', (p.mux side).endpoint.stream r' = some s' → s'.streamId = s.streamId → r' = r
  peerUnique : ∀ s₁ s₂, p.PeerStream side s s₁ → p.PeerStream side s s₂ → s₁ = s₂
  accepted : ¬ Own side.firstStreamId s.streamId →
    Endpoint.OpenIn s.streamId (p.mux side).endpoint.arrived ∧ ∃ s', p.PeerStream side s s'
  handed : ∀ s', p.PeerStream side s s' → s.handed <+: s'.written
  nothing : (∀ s', ¬ p.PeerStream side s s') → s.handed = []
  waiting : s.dropped = false → ∀ s', p.PeerStream side s s' → s.handed ++ s.waiting <+: s'.written
  drained : s.dropped = false → p.Drained side → ∀ s', p.PeerStream side s s' →
    s.handed ++ s.waiting = s'.written
  complete : s.dropped = false → (p.mux side).endpoint.streams.get s.streamId ≠ some r →
    s.waiting = [] → ∃ s', p.PeerStream side s s' ∧ s'.sentClose = true ∧ s.handed = s'.written
  closeOnce : (p.mux side).endpoint.sent.count (.close s.streamId) ≤ 1
  feeds : s.dropped = false → .close s.streamId ∉ (p.mux side).endpoint.arrived → ∀ payload,
    ((p.mux side).endpoint.receive (.data s.streamId payload)).stream r =
      some { s with inbound := s.inbound ++ [payload] }
  writes : s.dropped = false → (p.mux side).endpoint.writerOpen = true → ∀ data, ∃ endpoint,
    (p.mux side).endpoint.step (.pollWrite r data) = some endpoint ∧
      endpoint.sent = (p.mux side).endpoint.sent ++ [.data s.streamId data]

variable {side : Side} {r : StreamRef} {s s' : VirtualStream}

theorem Sound.carried_peer (h : p.Sound serde aes crypto) (hp : p.PeerStream side s s') :
    carried s.streamId (p.mux side).endpoint.arrived <+: s'.written := by
  obtain ⟨r', hs', hid⟩ := hp
  rw [((h.mux side.other).endpoint.serves r' s' hs').written, hid]
  exact carried_mono (h.heard side)

theorem Sound.carried_drained (h : p.Sound serde aes crypto) (hd : p.Drained side)
    (hp : p.PeerStream side s s') :
    carried s.streamId (p.mux side).endpoint.arrived = s'.written := by
  obtain ⟨r', hs', hid⟩ := hp
  obtain ⟨frames, hframes, hwire⟩ := (h.link side).flight hd.reader
  rw [hd.wire] at hwire
  cases hwire
  have hpending := (h.mux side.other).pending hd.writer
  rw [hd.outbound, List.append_nil, hframes, List.append_nil] at hpending
  rw [((h.mux side.other).endpoint.serves r' s' hs').written, hid, hpending]

theorem Sound.exists_peer (h : p.Sound serde aes crypto) {frame : MuxFrame}
    (hf : frame ∈ (p.mux side).endpoint.arrived) (hid : frame.streamId = some s.streamId) :
    ∃ s', p.PeerStream side s s' := by
  have hsent := (h.heard side).subset hf
  obtain ⟨r', s', hs', he⟩ := (h.mux side.other).endpoint.sentBy frame hsent _ hid
  exact ⟨s', r', hs', he⟩

theorem Sound.streamCorrect (h : p.Sound serde aes crypto)
    (hs : (p.mux side).endpoint.stream r = some s) : p.StreamCorrect side r s := by
  have hend := (h.mux side).endpoint
  have hserves := hend.serves r s hs
  constructor
  case unique =>
    intro r' s' hs' hid
    exact hend.unique r' r s' s hs' hs hid
  case peerUnique =>
    rintro s₁ s₂ ⟨r₁, h₁, e₁⟩ ⟨r₂, h₂, e₂⟩
    obtain rfl := (h.mux side.other).endpoint.unique r₁ r₂ s₁ s₂ h₁ h₂ (e₁.trans e₂.symm)
    exact Option.some.inj (h₁.symm.trans h₂)
  case accepted =>
    intro hforeign
    obtain ⟨request, hm⟩ := hend.foreign r s hs hforeign
    exact ⟨⟨request, hm⟩, h.exists_peer hm rfl⟩
  case handed =>
    intro s' hp
    exact hserves.handed.trans (h.carried_peer hp)
  case nothing =>
    intro hnone
    have hquiet : carried s.streamId (p.mux side).endpoint.arrived = [] := by
      apply carried_eq_nil
      intro f hf hid
      obtain ⟨s', hp⟩ := h.exists_peer hf hid
      exact absurd hp (hnone s')
    exact List.prefix_nil.mp (hquiet ▸ hserves.handed)
  case waiting =>
    intro hd s' hp
    rw [hserves.content hd]
    exact h.carried_peer hp
  case drained =>
    intro hd hdrained s' hp
    rw [hserves.content hd]
    exact h.carried_drained hdrained hp
  case complete =>
    intro hd hclosed hempty
    have hclose : .close s.streamId ∈ (p.mux side).endpoint.arrived := by
      by_contra hn
      apply hclosed
      rw [hserves.entry hd, if_neg hn]
    obtain ⟨s', r', hs', hid⟩ := h.exists_peer hclose rfl
    have hpeer := (h.mux side.other).endpoint.serves r' s' hs'
    have hsent := (h.heard side).subset hclose
    have hcontent := hserves.content hd
    rw [hempty, List.append_nil] at hcontent
    refine ⟨s', ⟨r', hs', hid⟩, ?_, ?_⟩
    · by_contra hn
      apply hpeer.unclosed (Bool.eq_false_of_not_eq_true hn)
      rwa [hid]
    · rw [hcontent, hpeer.written, hid]
      exact carried_eq_of_close (h.heard side) hclose
  case closeOnce => exact hserves.closeOnce
  case feeds =>
    intro hd hopen payload
    have hget : (p.mux side).endpoint.streams.get s.streamId = some r := by
      rw [hserves.entry hd, if_neg hopen]
    have hlive := Endpoint.live_eq_some.mpr ⟨hs, hd⟩
    simp [Endpoint.receive, hget, hlive, Endpoint.setStream]
  case writes =>
    intro hd hw data
    have hlive := Endpoint.live_eq_some.mpr ⟨hs, hd⟩
    refine ⟨_, by rw [Endpoint.step, hlive, Option.map_some], ?_⟩
    simp [Endpoint.pollWrite, hw, Endpoint.send, Endpoint.setStream]

/-- In every run of two ends, each stream hands out what its peer wrote, in order and nothing
else, and with matching secrets no message on the wire ends a `read_loop`. -/
theorem streams_correct (hserde : serde.Inverts) (haes : aes.Ideal)
    {ms : List (Move Pair PairEvent)}
    (hrun : Run (Pair.step serde aes) (start crypto) ms p)
    (hbound : ∀ side, (p.mux side).endpoint.opened ≤ 2 ^ 31) :
    (∀ side r s, (p.mux side).endpoint.stream r = some s → p.StreamCorrect side r s) ∧
      ∀ side, Matched (crypto side.other) (crypto side) → (p.mux side).readerOpen = true →
        ∀ message ∈ p.wire side.other, ∃ frame,
          readFrame serde aes (p.mux side).crypto message = .ok frame := by
  have h := run_sound hserde haes hrun hbound
  constructor
  · intro side r s hs
    exact h.streamCorrect hs
  · intro side hmatch hr message hm
    obtain ⟨frames, -, hwire⟩ := (h.link side).flight hr
    rw [← readFrame_base, (h.mux side).cipher, readFrame_base]
    exact Link.readable hmatch hwire message hm

/-- A visitor sends its request and shuts down; the answer still arrives, a part at a time. -/
def halfClosed : List PairEvent :=
  [.call .odd (.openBegin .socks), .call .odd (.openFinish 1 .socks),
    .call .odd (.pollWrite 0 [7, 8]),
    .call .odd (.pollShutdown 0), .writeLoop .odd, .readLoop .even, .writeLoop .odd,
      .writeLoop .odd,
    .readLoop .even, .call .even (.pollRead 0 ⟨true⟩ ⟨1, []⟩), .readLoop .even,
      .call .even (.pollWrite 0 [9]),
    .writeLoop .even, .readLoop .odd, .call .odd (.pollRead 0 ⟨true⟩ ⟨4, []⟩),
      .call .even (.drop 0)]

theorem streams_correct_of_halfClosed :
    let p := outcome (Pair.step .plain namedCipher) (start fun _ => none) halfClosed
    (∀ side r s, (p.mux side).endpoint.stream r = some s → p.StreamCorrect side r s) ∧
      ∀ side, Matched none none → (p.mux side).readerOpen = true → ∀ message ∈ p.wire side.other,
        ∃ frame, readFrame .plain namedCipher (p.mux side).crypto message = .ok frame := by
  have hplay :
      (play (Pair.step .plain namedCipher) (start fun _ => none) halfClosed).isSome = true := by
    decide +kernel
  have hbound : ∀ side, ((outcome (Pair.step .plain namedCipher) (start fun _ => none)
      halfClosed).mux side).endpoint.opened ≤ 2 ^ 31 := by
    intro side
    cases side <;> decide +kernel
  exact streams_correct SerdeSlice.plain_inverts namedCipher_ideal (Run.of_outcome hplay) hbound

end Pair

end NodeAccess.Mux
