import NodeAccess.Foundation.Table
import NodeAccess.Foundation.Transition
import NodeAccess.Mux.Stream

/-! # The streams of one end of a connection

The part of a mux that its handles, its streams and `read_loop` share: the stream ids,
the stream table and the streams. A sender of a stream's queue is named by the stream
that it feeds. The histories record the frames that were queued for `write_loop` and the
frames that `read_loop` took in.
-/

namespace NodeAccess.Mux

open Foundation

abbrev StreamRef := ℕ

/-- `opening` holds the calls of `open_stream` that have their id and wait for the table,
`reaping` the removals that dropped streams have spawned. -/
structure Endpoint where
  nextStreamId : UInt32
  streams : Table UInt32 StreamRef
  stream : StreamRef → Option VirtualStream
  created : StreamRef
  opening : List (UInt32 × OpenRequest)
  reaping : List UInt32
  writerOpen : Bool
  opened : ℕ
  sent : List MuxFrame
  arrived : List MuxFrame

inductive StreamEvent where
  | openBegin (request : OpenRequest)
  | openFinish (streamId : UInt32) (request : OpenRequest)
  | sendControl (message : ControlMessage)
  | pollWrite (ref : StreamRef) (data : List UInt8)
  | pollShutdown (ref : StreamRef)
  | drop (ref : StreamRef)
  | reap (streamId : UInt32)
  | pollRead (ref : StreamRef) (cx : TaskContext) (buf : ReadBuf)
  | receive (frame : MuxFrame)
  | writerStop
deriving DecidableEq, Repr

/-- The stream that a call works on. -/
def StreamEvent.target : StreamEvent → Option StreamRef
  | .pollWrite ref _ | .pollShutdown ref | .drop ref | .pollRead ref _ _ => some ref
  | _ => none

namespace Endpoint

def start (firstStreamId : UInt32) : Endpoint :=
  ⟨firstStreamId, ∅, fun _ => none, 0, [], [], true, 0, [], []⟩

/-- The unbounded `outbound` channel refuses a frame only when its receiver is gone. -/
def send (e : Endpoint) (frame : MuxFrame) : Endpoint :=
  { e with sent := e.sent ++ if e.writerOpen then [frame] else [] }

def setStream (e : Endpoint) (ref : StreamRef) (s : VirtualStream) : Endpoint :=
  { e with stream := Function.update e.stream ref (some s) }

/-- A stream that has not been dropped. -/
def live (e : Endpoint) (ref : StreamRef) : Option VirtualStream :=
  (e.stream ref).filter fun s => !s.dropped

/-- The part of `open_stream` under the table's lock and after it. A refused Open leaves
the table entry behind, and there is no stream. -/
def openFinish (e : Endpoint) (streamId : UInt32) (request : OpenRequest) : Endpoint :=
  let ref := e.created
  let inserted := { e with
    opening := e.opening.erase (streamId, request)
    streams := e.streams.insert streamId ref
    created := ref + 1 }
  if e.writerOpen then (inserted.send (.openStream streamId request)).setStream ref (.new streamId)
  else inserted

def pollWrite (e : Endpoint) (ref : StreamRef) (s : VirtualStream) (data : List UInt8) : Endpoint :=
  if e.writerOpen then
    (e.send (.data s.streamId data)).setStream ref
      (if s.sentClose then { s with late := s.late ++ data }
        else { s with written := s.written ++ data })
  else e

def closeRemote (e : Endpoint) (ref : StreamRef) (s : VirtualStream) : Endpoint :=
  if s.sentClose then e
  else (e.send (.close s.streamId)).setStream ref { s with sentClose := true }

/-- `Drop`: the Close, the end of the receiver, and the task that clears the table. -/
def dropStream (e : Endpoint) (ref : StreamRef) (s : VirtualStream) : Endpoint :=
  let closed := if s.sentClose then e else e.send (.close s.streamId)
  { closed.setStream ref { s with sentClose := true, dropped := true, inbound := [] } with
    reaping := e.reaping ++ [s.streamId] }

/-- The queue is closed when the table does not hold its sender. -/
def pollRead (e : Endpoint) (ref : StreamRef) (s : VirtualStream) (cx : TaskContext)
    (buf : ReadBuf) : Endpoint :=
  let r := s.pollRead cx (decide (e.streams.get s.streamId ≠ some ref)) buf
  e.setStream ref { r.1 with handed := s.handed ++ r.2.1.filled.drop buf.filled.length }

/-- What `read_loop` does with a frame. The lookup and the send to a stream's queue are one
step: nothing but the drop of that stream comes between them. -/
def receive (e : Endpoint) (frame : MuxFrame) : Endpoint :=
  let heard := { e with arrived := e.arrived ++ [frame] }
  match frame with
  | .openStream streamId _ =>
    { heard.setStream e.created (.new streamId) with
      streams := e.streams.insert streamId e.created
      created := e.created + 1 }
  | .data streamId payload =>
    match (e.streams.get streamId).bind fun ref => (e.live ref).map fun s => (ref, s) with
    | some (ref, s) => heard.setStream ref { s with inbound := s.inbound ++ [payload] }
    | none => heard
  | .close streamId => { heard with streams := e.streams.remove streamId }
  | .control _ => heard

def step (e : Endpoint) : StreamEvent → Option Endpoint
  | .openBegin request => some { e with
      nextStreamId := e.nextStreamId + 2
      opened := e.opened + 1
      opening := e.opening ++ [(e.nextStreamId, request)] }
  | .openFinish streamId request =>
    if (streamId, request) ∈ e.opening then some (e.openFinish streamId request) else none
  | .sendControl message => some (e.send (.control message))
  | .pollWrite ref data => (e.live ref).map fun s => e.pollWrite ref s data
  | .pollShutdown ref => (e.live ref).map fun s => e.closeRemote ref s
  | .drop ref => (e.live ref).map fun s => e.dropStream ref s
  | .reap streamId =>
    if streamId ∈ e.reaping then some { e with
      reaping := e.reaping.erase streamId
      streams := e.streams.remove streamId }
    else none
  | .pollRead ref cx buf => (e.live ref).map fun s => e.pollRead ref s cx buf
  | .receive frame => some (e.receive frame)
  | .writerStop => some { e with writerOpen := false }

theorem live_eq_some {e : Endpoint} {ref : StreamRef} {s : VirtualStream} :
    e.live ref = some s ↔ e.stream ref = some s ∧ s.dropped = false := by
  simp [live, Option.filter_eq_some_iff]

/-- What a call on a live stream can do: the stream changes, but for its id, and at most one frame
of the stream is sent. -/
structure Touches (e e' : Endpoint) (ref : StreamRef) (s : VirtualStream) : Prop where
  live : e.live ref = some s
  stream : ∃ s', e'.stream = Function.update e.stream ref (some s') ∧ s'.streamId = s.streamId
  sent : e'.sent = e.sent ∨ (∃ data, e'.sent = (e.send (.data s.streamId data)).sent) ∨
    e'.sent = (e.send (.close s.streamId)).sent
  table : e'.streams = e.streams ∧ e'.created = e.created
  ids : e'.nextStreamId = e.nextStreamId ∧ e'.opening = e.opening ∧ e'.opened = e.opened
  loops : e'.writerOpen = e.writerOpen ∧ e'.arrived = e.arrived

theorem touches_self {e : Endpoint} {ref : StreamRef} {s : VirtualStream}
    (h : e.live ref = some s) :
    e.Touches e ref s := by
  refine ⟨h, ⟨s, ?_, rfl⟩, .inl rfl, ⟨rfl, rfl⟩, ⟨rfl, rfl, rfl⟩, rfl, rfl⟩
  rw [← (live_eq_some.mp h).1, Function.update_eq_self]

theorem touches_of_step {e e' : Endpoint} {event : StreamEvent} {ref : StreamRef}
    (hs : e.step event = some e') (hr : event.target = some ref) : ∃ s, e.Touches e' ref s := by
  cases event with
  | pollWrite r data =>
    obtain rfl := Option.some.inj hr
    obtain ⟨s, hl, rfl⟩ := Option.map_eq_some_iff.mp hs
    refine ⟨s, ?_⟩
    unfold pollWrite
    split_ifs
    · exact ⟨hl, ⟨_, rfl, rfl⟩, .inr (.inl ⟨data, rfl⟩), ⟨rfl, rfl⟩, ⟨rfl, rfl, rfl⟩, rfl, rfl⟩
    · exact ⟨hl, ⟨_, rfl, rfl⟩, .inr (.inl ⟨data, rfl⟩), ⟨rfl, rfl⟩, ⟨rfl, rfl, rfl⟩, rfl, rfl⟩
    · exact touches_self hl
  | pollShutdown r =>
    obtain rfl := Option.some.inj hr
    obtain ⟨s, hl, rfl⟩ := Option.map_eq_some_iff.mp hs
    refine ⟨s, ?_⟩
    unfold closeRemote
    split_ifs
    · exact touches_self hl
    · exact ⟨hl, ⟨_, rfl, rfl⟩, .inr (.inr rfl), ⟨rfl, rfl⟩, ⟨rfl, rfl, rfl⟩, rfl, rfl⟩
  | drop r =>
    obtain rfl := Option.some.inj hr
    obtain ⟨s, hl, rfl⟩ := Option.map_eq_some_iff.mp hs
    refine ⟨s, ?_⟩
    unfold dropStream
    split_ifs
    · exact ⟨hl, ⟨_, rfl, rfl⟩, .inl rfl, ⟨rfl, rfl⟩, ⟨rfl, rfl, rfl⟩, rfl, rfl⟩
    · exact ⟨hl, ⟨_, rfl, rfl⟩, .inr (.inr rfl), ⟨rfl, rfl⟩, ⟨rfl, rfl, rfl⟩, rfl, rfl⟩
  | pollRead r cx buf =>
    obtain rfl := Option.some.inj hr
    obtain ⟨s, hl, rfl⟩ := Option.map_eq_some_iff.mp hs
    have hread := (s.pollRead_spec cx (decide (e.streams.get s.streamId ≠ some r)) buf).2.2
    obtain ⟨inbound, readBuffer, hsame⟩ := hread
    refine ⟨s, hl, ⟨_, rfl, ?_⟩, .inl rfl, ⟨rfl, rfl⟩, ⟨rfl, rfl, rfl⟩, rfl, rfl⟩
    rw [hsame]
  | _ => cases hr

end Endpoint

/-! ## Stream ids -/

/-- The id that the k-th `open_stream` takes. -/
def idAt (first : UInt32) (k : ℕ) : UInt32 := first + 2 * UInt32.ofNat k

/-- The ids that an end draws itself. -/
def Own (first i : UInt32) : Prop := i.toNat % 2 = first.toNat % 2

theorem idAt_succ (first : UInt32) (k : ℕ) : idAt first (k + 1) = idAt first k + 2 := by
  rw [idAt, idAt, UInt32.ofNat_add, UInt32.mul_add, UInt32.add_assoc]
  rfl

theorem toNat_idAt (first : UInt32) (k : ℕ) :
    (idAt first k).toNat = (first.toNat + 2 * (k % 2 ^ 32) % 2 ^ 32) % 2 ^ 32 := by
  simp [idAt, UInt32.toNat_add, UInt32.toNat_mul]

theorem own_idAt (first : UInt32) (k : ℕ) : Own first (idAt first k) := by
  rw [Own, toNat_idAt]
  omega

theorem idAt_inj {first : UInt32} {k l : ℕ} (hk : k < 2 ^ 31) (hl : l < 2 ^ 31)
    (h : idAt first k = idAt first l) : k = l := by
  have hn := congrArg UInt32.toNat h
  have hf := first.toNat_lt
  rw [toNat_idAt, toNat_idAt] at hn
  omega

end NodeAccess.Mux
