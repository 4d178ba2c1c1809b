import NodeAccess.Mux.Arrival

/-! # The loops of a mux connection

`write_loop` takes the queued frames one by one and hands each, encoded and sealed, to the
websocket. `read_loop` turns each message back into a frame. The frames that were sent are
the first ones that the streams queued, and the others still wait.
-/

namespace NodeAccess.Mux

open Foundation Crypto

/-- `outbound` is the queue of `write_loop`, `incoming` and `control` what `read_loop` passes
to the program. `wrote` records the frames that `write_loop` has sent. -/
structure MuxConnection where
  endpoint : Endpoint
  crypto : Option FrameCrypto
  outbound : List MuxFrame
  readerOpen : Bool
  incoming : List (OpenRequest × StreamRef)
  control : List ControlMessage
  wrote : List MuxFrame

/-- The steps of the program and its streams; the others are steps of the loops. -/
def StreamEvent.isCall : StreamEvent → Bool
  | .receive _ | .writerStop => false
  | _ => true

namespace MuxConnection

def start (firstStreamId : UInt32) (crypto : Option FrameCrypto) : MuxConnection :=
  ⟨.start firstStreamId, crypto, [], true, [], [], []⟩

/-- What a step sends is queued for `write_loop`. -/
def call (m : MuxConnection) (event : StreamEvent) : Option MuxConnection :=
  if event.isCall then
    (m.endpoint.step event).map fun endpoint =>
      { m with
        endpoint := endpoint
        outbound := m.outbound ++ endpoint.sent.drop m.endpoint.sent.length }
  else none

/-- The end of `write_loop`, which drops the receiver of its queue. -/
def stopWriter (m : MuxConnection) : MuxConnection :=
  { m with endpoint := { m.endpoint with writerOpen := false }, outbound := [] }

variable (serde : SerdeSlice) (aes : AesGcm)

/-- One turn of `write_loop`, with the message that it sends. -/
def writeLoop (m : MuxConnection) : Option (MuxConnection × Option (List UInt8)) :=
  match m.outbound with
  | [] => none
  | frame :: rest =>
    let r := writeFrame serde aes m.crypto frame
    let m := { m with crypto := r.1, outbound := rest }
    match r.2 with
    | .skip => some (m, none)
    | .stop => some (m.stopWriter, none)
    | .send message => some ({ m with wrote := m.wrote ++ [frame] }, some message)

/-- One turn of `read_loop` on a binary message. -/
def readLoop (m : MuxConnection) (message : List UInt8) : MuxConnection :=
  match readFrame serde aes m.crypto message with
  | .error _ => { m with readerOpen := false }
  | .ok frame =>
    let heard := { m with endpoint := m.endpoint.receive frame }
    match frame with
    | .openStream _ request =>
      { heard with incoming := m.incoming ++ [(request, m.endpoint.created)] }
    | .control message => { heard with control := m.control ++ [message] }
    | _ => heard

end MuxConnection

/-! ## What a step can do to the histories -/

namespace Endpoint

variable {e e' : Endpoint} {event : StreamEvent}

/-- A call may queue frames, as long as `write_loop` runs, and takes none in. -/
structure Grows (e e' : Endpoint) : Prop where
  sent : ∃ queued, e'.sent = e.sent ++ queued ∧ (e.writerOpen = false → queued = [])
  arrived : e'.arrived = e.arrived
  writerOpen : e'.writerOpen = e.writerOpen
  opened : e.opened ≤ e'.opened

theorem Grows.of_same (hsent : e'.sent = e.sent) (harrived : e'.arrived = e.arrived)
    (hwriter : e'.writerOpen = e.writerOpen) (hopened : e.opened ≤ e'.opened) : e.Grows e' :=
  ⟨⟨[], by simp [hsent], fun _ => rfl⟩, harrived, hwriter, hopened⟩

theorem Grows.of_send {frame : MuxFrame} (hsent : e'.sent = (e.send frame).sent)
    (harrived : e'.arrived = e.arrived) (hwriter : e'.writerOpen = e.writerOpen)
    (hopened : e'.opened = e.opened) : e.Grows e' :=
  ⟨⟨_, hsent, fun hw => by simp [hw]⟩, harrived, hwriter, hopened.ge⟩

theorem Grows.of_touches {r : StreamRef} (h : ∃ s, e.Touches e' r s) : e.Grows e' := by
  obtain ⟨s, h⟩ := h
  rcases h.sent with hsent | ⟨data, hsent⟩ | hsent
  · exact .of_same hsent h.loops.2 h.loops.1 h.ids.2.2.ge
  · exact .of_send hsent h.loops.2 h.loops.1 h.ids.2.2
  · exact .of_send hsent h.loops.2 h.loops.1 h.ids.2.2

theorem grows_step (h : e.step event = some e') (hc : event.isCall = true) : e.Grows e' := by
  cases event with
  | openBegin request =>
    obtain rfl := Option.some.inj h
    exact .of_same rfl rfl rfl (Nat.le_succ _)
  | openFinish i request =>
    rw [step, Option.ite_none_right_eq_some] at h
    obtain rfl := Option.some.inj h.2
    unfold openFinish
    split_ifs
    · exact .of_send rfl rfl rfl rfl
    · exact .of_same rfl rfl rfl le_rfl
  | sendControl message =>
    obtain rfl := Option.some.inj h
    exact .of_send rfl rfl rfl rfl
  | pollWrite r data => exact .of_touches (touches_of_step h rfl)
  | pollShutdown r => exact .of_touches (touches_of_step h rfl)
  | drop r => exact .of_touches (touches_of_step h rfl)
  | pollRead r cx buf => exact .of_touches (touches_of_step h rfl)
  | reap i =>
    rw [step, Option.ite_none_right_eq_some] at h
    obtain rfl := Option.some.inj h.2
    exact .of_same rfl rfl rfl le_rfl
  | receive frame => cases hc
  | writerStop => cases hc

theorem receive_histories (e : Endpoint) (frame : MuxFrame) :
    (e.receive frame).sent = e.sent ∧ (e.receive frame).arrived = e.arrived ++ [frame] ∧
      (e.receive frame).writerOpen = e.writerOpen ∧ (e.receive frame).opened = e.opened := by
  cases frame with
  | data i payload =>
    unfold receive
    dsimp only
    split <;> exact ⟨rfl, rfl, rfl, rfl⟩
  | _ => exact ⟨rfl, rfl, rfl, rfl⟩

end Endpoint

/-! ## The invariant of a connection -/

namespace MuxConnection

/-- The streams are sound, and what they have queued was written or still waits. -/
structure Sound (first : UInt32) (crypto : Option FrameCrypto) (m : MuxConnection) : Prop where
  endpoint : m.endpoint.Sound first
  wrote : m.wrote <+: m.endpoint.sent
  pending : m.endpoint.writerOpen = true → m.wrote ++ m.outbound = m.endpoint.sent
  stopped : m.endpoint.writerOpen = false → m.outbound = []
  cipher : base m.crypto = base crypto

variable {first : UInt32} {crypto : Option FrameCrypto} {m m' : MuxConnection}
  {serde : SerdeSlice} {aes : AesGcm}

theorem sound_start (first : UInt32) (crypto : Option FrameCrypto) :
    (start first crypto).Sound first crypto :=
  ⟨Endpoint.sound_start first, List.prefix_rfl, fun _ => rfl, fun _ => rfl, rfl⟩

theorem call_eq_some {event : StreamEvent} (h : m.call event = some m') :
    event.isCall = true ∧ ∃ endpoint, m.endpoint.step event = some endpoint ∧
      m' = { m with
        endpoint := endpoint
        outbound := m.outbound ++ endpoint.sent.drop m.endpoint.sent.length } := by
  rw [call, Option.ite_none_right_eq_some] at h
  obtain ⟨endpoint, hs, rfl⟩ := Option.map_eq_some_iff.mp h.2
  exact ⟨h.1, endpoint, hs, rfl⟩

theorem Sound.call (h : m.Sound first crypto) {event : StreamEvent} (hcall : m.call event = some m')
    (hbound : ∀ request, event = .openBegin request → m.endpoint.opened < 2 ^ 31) :
    m'.Sound first crypto := by
  obtain ⟨hc, endpoint, hstep, rfl⟩ := call_eq_some hcall
  have hgrows := Endpoint.grows_step hstep hc
  obtain ⟨queued, hsent, hclosed⟩ := hgrows.sent
  have hreceive : ∀ frame, event = .receive frame → Endpoint.Accepts first m.endpoint frame := by
    rintro frame rfl
    cases hc
  have hdrop : endpoint.sent.drop m.endpoint.sent.length = queued := by rw [hsent, List.drop_left]
  constructor
  · exact h.endpoint.step hstep hbound hreceive
  · exact h.wrote.trans ⟨queued, hsent.symm⟩
  · intro hw
    have hw' : m.endpoint.writerOpen = true := hgrows.writerOpen ▸ hw
    dsimp only
    rw [hdrop, hsent, ← List.append_assoc, h.pending hw']
  · intro hw
    have hw' : m.endpoint.writerOpen = false := hgrows.writerOpen ▸ hw
    dsimp only
    rw [hdrop, h.stopped hw', hclosed hw', List.append_nil]
  · exact h.cipher

theorem Sound.stopWriter (h : m.Sound first crypto) : m.stopWriter.Sound first crypto :=
  ⟨h.endpoint.writerStop, h.wrote, (fun hw => absurd hw Bool.false_ne_true), fun _ => rfl, h.cipher⟩

/-- A turn of `write_loop` leaves the streams and the reader alone, though it may be
the last one. -/
theorem writeLoop_endpoint {message : Option (List UInt8)}
    (hw : m.writeLoop serde aes = some (m', message)) :
    (∃ writerOpen, m'.endpoint = { m.endpoint with writerOpen := writerOpen }) ∧
      m'.readerOpen = m.readerOpen := by
  unfold MuxConnection.writeLoop at hw
  cases hqueue : m.outbound with
  | nil => simp [hqueue] at hw
  | cons frame rest =>
    simp only [hqueue] at hw
    cases hturn : (writeFrame serde aes m.crypto frame).2 <;>
      simp only [hturn, Option.some.injEq, Prod.mk.injEq] at hw <;>
      obtain ⟨rfl, -⟩ := hw
    · exact ⟨⟨m.endpoint.writerOpen, rfl⟩, rfl⟩
    · exact ⟨⟨false, rfl⟩, rfl⟩
    · exact ⟨⟨m.endpoint.writerOpen, rfl⟩, rfl⟩

theorem Sound.writeLoop (h : m.Sound first crypto) (hserde : serde.Inverts) (haes : aes.Ideal)
    {message : Option (List UInt8)}
    (hw : m.writeLoop serde aes = some (m', message)) :
    m'.Sound first crypto ∧ m'.readerOpen = m.readerOpen ∧
      match message with
      | none => m'.wrote = m.wrote
      | some bytes => ∃ frame, m'.wrote = m.wrote ++ [frame] ∧
          ∀ other, Reads serde aes crypto other bytes frame := by
  unfold MuxConnection.writeLoop at hw
  cases hqueue : m.outbound with
  | nil => simp [hqueue] at hw
  | cons frame rest =>
    have hopen : m.endpoint.writerOpen = true := by
      by_contra hn
      have hempty := h.stopped (Bool.eq_false_of_not_eq_true hn)
      rw [hqueue] at hempty
      cases hempty
    have hpending := h.pending hopen
    rw [hqueue, List.append_cons] at hpending
    have hcipher : base (writeFrame serde aes m.crypto frame).1 = base crypto := by
      rw [base_writeFrame, h.cipher]
    simp only [hqueue] at hw
    cases hturn : (writeFrame serde aes m.crypto frame).2 with
    | skip => exact absurd hturn (writeFrame_ne_skip hserde m.crypto frame)
    | stop =>
      simp only [hturn, Option.some.injEq, Prod.mk.injEq] at hw
      obtain ⟨rfl, rfl⟩ := hw
      exact ⟨⟨h.endpoint.writerStop, h.wrote, (fun hw => absurd hw Bool.false_ne_true),
        fun _ => rfl, hcipher⟩, rfl, rfl⟩
    | send bytes =>
      simp only [hturn, Option.some.injEq, Prod.mk.injEq] at hw
      obtain ⟨rfl, rfl⟩ := hw
      refine ⟨⟨h.endpoint, ⟨rest, hpending⟩, fun _ => hpending, ?_, hcipher⟩, rfl, frame, rfl, ?_⟩
      · intro hn
        rw [hopen] at hn
        cases hn
      · intro other
        exact (reads_writeFrame hserde haes hturn other).of_base h.cipher

/-- What a turn of `read_loop` does: the message is a frame that the streams take in, or the
loop ends. -/
theorem readLoop_spec (serde : SerdeSlice) (aes : AesGcm) (m : MuxConnection)
    (message : List UInt8) :
    let m' := m.readLoop serde aes message
    m'.crypto = m.crypto ∧ m'.outbound = m.outbound ∧ m'.wrote = m.wrote ∧
      ((∃ frame, readFrame serde aes m.crypto message = .ok frame ∧
          m'.endpoint = m.endpoint.receive frame ∧ m'.readerOpen = m.readerOpen) ∨
        (∃ e, readFrame serde aes m.crypto message = .error e) ∧
          m'.endpoint = m.endpoint ∧ m'.readerOpen = false) := by
  unfold readLoop
  cases hread : readFrame serde aes m.crypto message with
  | error e => exact ⟨rfl, rfl, rfl, .inr ⟨⟨e, rfl⟩, rfl, rfl⟩⟩
  | ok frame =>
    cases frame with
    | _ => exact ⟨rfl, rfl, rfl, .inl ⟨_, rfl, rfl, rfl⟩⟩

theorem Sound.readLoop (h : m.Sound first crypto) {message : List UInt8}
    (haccepts : ∀ frame, readFrame serde aes m.crypto message = .ok frame →
      Endpoint.Accepts first m.endpoint frame) :
    (m.readLoop serde aes message).Sound first crypto := by
  obtain ⟨hcipher, houtbound, hwrote, hread⟩ := readLoop_spec serde aes m message
  generalize m.readLoop serde aes message = m' at *
  have hkeeps : m'.endpoint.Sound first ∧ m'.endpoint.sent = m.endpoint.sent ∧
      m'.endpoint.writerOpen = m.endpoint.writerOpen := by
    rcases hread with ⟨frame, hframe, he, -⟩ | ⟨-, he, -⟩
    · obtain ⟨hsent, -, hwriter, -⟩ := m.endpoint.receive_histories frame
      rw [he]
      exact ⟨h.endpoint.receive (haccepts frame hframe), hsent, hwriter⟩
    · rw [he]
      exact ⟨h.endpoint, rfl, rfl⟩
  obtain ⟨hsound, hsent, hwriter⟩ := hkeeps
  constructor
  · exact hsound
  · rw [hwrote, hsent]
    exact h.wrote
  · rw [hwriter, hwrote, houtbound, hsent]
    exact h.pending
  · rw [hwriter, houtbound]
    exact h.stopped
  · rw [hcipher]
    exact h.cipher

end MuxConnection

end NodeAccess.Mux
