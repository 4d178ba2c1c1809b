import NodeAccess.Mux.Handover

/-! # Pipes between streams and sockets

`pipe` joins two ends, each a TCP socket or a stream of a mux connection, and copies in both
directions until each direction has seen the end of its source and has shut down its target. A
net is any number of mux connections and sockets with the pipes that the programs have made of
their ends. What else the programs do with streams that are in no pipe is left open.
-/

namespace NodeAccess.Tunnel

open Foundation Crypto Mux

inductive PipeEnd where
  | socket (id : ℕ)
  | stream (conn : ℕ) (side : Side) (ref : StreamRef)
deriving DecidableEq, Repr

/-- `incoming` has come from the peer and waits, and `finished` says that nothing will follow it.
`taken` records what the program has read and `written` what it has written. -/
structure TcpSocket where
  incoming : List UInt8
  finished : Bool
  taken : List UInt8
  written : List UInt8
  shut : Bool
  dropped : Bool
deriving DecidableEq, Repr

def TcpSocket.new : TcpSocket := ⟨[], false, [], [], false, false⟩

inductive Direction where
  | forth
  | back
deriving DecidableEq, Repr

def Direction.flip : Direction → Direction
  | forth => back
  | back => forth

@[simp] theorem Direction.flip_flip (d : Direction) : d.flip.flip = d := by
  cases d <;> rfl

theorem Direction.flip_ne (d : Direction) : d.flip ≠ d := by
  cases d <;> decide

/-- One direction of `copy_bidirectional`: `buffer` has been read and is not yet written, and
`moved` records what has been written. -/
structure CopyBuffer where
  buffer : List UInt8
  readDone : Bool
  shut : Bool
  moved : List UInt8
deriving DecidableEq, Repr

namespace CopyBuffer

def new : CopyBuffer := ⟨[], false, false, []⟩

/-- A poll that is ready and gives nothing is the end of the source. -/
def fill (copy : CopyBuffer) (given : List UInt8) : CopyBuffer :=
  { copy with buffer := copy.buffer ++ given, readDone := decide (given = []) }

/-- So many bytes have been written. -/
def pass (copy : CopyBuffer) (size : ℕ) : CopyBuffer :=
  { copy with buffer := copy.buffer.drop size, moved := copy.moved ++ copy.buffer.take size }

/-- A target is shut down when everything has been written. -/
def ShutLast (copy : CopyBuffer) : Prop := copy.shut = true → copy.readDone = true ∧
    copy.buffer = []

end CopyBuffer

/-- What the programs have done with an end. -/
@[ext] structure EndView where
  taken : List UInt8
  written : List UInt8
  shut : Bool
  dropped : Bool
deriving DecidableEq, Repr

def TcpSocket.view (s : TcpSocket) : EndView := ⟨s.taken, s.written, s.shut, s.dropped⟩

def streamView (s : VirtualStream) : EndView := ⟨s.handed, s.written, s.sentClose, s.dropped⟩

/-- `earlier` is what had been done with the ends when the pipe was made, as `serve_socks5` reads a
request and answers it first. `returned` says that `pipe` has returned, with an error or without,
and has dropped its ends. -/
structure Pipe where
  source : Direction → PipeEnd
  earlier : Direction → EndView
  copy : Direction → CopyBuffer
  returned : Bool

namespace Pipe

def new (left right : PipeEnd) (v w : EndView) : Pipe :=
  ⟨fun d => if d = .forth then left else right, fun d => if d = .forth then v else w, fun _ => .new,
    false⟩

def target (pipe : Pipe) (d : Direction) : PipeEnd := pipe.source d.flip

def setCopy (pipe : Pipe) (d : Direction) (copy : CopyBuffer) : Pipe :=
  { pipe with copy := Function.update pipe.copy d copy }

end Pipe

structure Net where
  pair : ℕ → Pair
  socket : ℕ → TcpSocket
  pipes : List Pipe

inductive NetEvent where
  | mux (conn : ℕ) (event : PairEvent)
  | arrive (id : ℕ) (bytes : List UInt8)
  | finish (id : ℕ)
  | pipe (left right : PipeEnd)
  | drop (e : PipeEnd)
  | read (k : ℕ) (d : Direction) (cx : TaskContext) (buf : ReadBuf)
  | write (k : ℕ) (d : Direction) (n : ℕ)
  | shutdown (k : ℕ) (d : Direction)
  | leave (k : ℕ)
deriving DecidableEq, Repr

/-- The stream that an event of a connection calls. -/
def calledEnd (conn : ℕ) : PairEvent → Option PipeEnd
  | .call side event => event.target.map (.stream conn side)
  | _ => none

def emptyWrite : PairEvent → Bool
  | .call _ (.pollWrite _ data) => data = []
  | _ => false

namespace Net

def start (crypto : ℕ → Side → Option FrameCrypto) : Net :=
  ⟨fun conn => .start (crypto conn), fun _ => .new, []⟩

def endpoint (n : Net) (conn : ℕ) (side : Side) : Endpoint := ((n.pair conn).mux side).endpoint

def stream (n : Net) (conn : ℕ) (side : Side) (ref : StreamRef) : Option VirtualStream :=
  (n.endpoint conn side).stream ref

def setPair (n : Net) (conn : ℕ) (pair : Pair) : Net :=
  { n with pair := Function.update n.pair conn pair }

def setSocket (n : Net) (id : ℕ) (socket : TcpSocket) : Net :=
  { n with socket := Function.update n.socket id socket }

def setPipe (n : Net) (k : ℕ) (pipe : Pipe) : Net := { n with pipes := n.pipes.set k pipe }

/-- Some pipe has this end, or has had it. -/
def piped (n : Net) (e : PipeEnd) : Bool :=
  n.pipes.any fun pipe => pipe.source .forth = e || pipe.source .back = e

def view (n : Net) : PipeEnd → Option EndView
  | .socket id => some (n.socket id).view
  | .stream conn side ref => (n.stream conn side ref).map streamView

/-- An end that no one has shut down, with what has been done with it. -/
def openView (n : Net) (e : PipeEnd) : Option EndView :=
  (n.view e).filter fun v => !v.shut && !v.dropped

variable (serde : SerdeSlice) (aes : AesGcm)

/-- A call of a program on one end of a mux connection. -/
def call (n : Net) (conn : ℕ) (side : Side) (event : StreamEvent) : Option Net :=
  ((n.pair conn).step serde aes (.call side event)).map (n.setPair conn)

/-- A poll of an end that is ready, with the bytes that it gives. -/
def pollRead (n : Net) (cx : TaskContext) (buf : ReadBuf) : PipeEnd → Option (Net × List UInt8)
  | .socket id =>
    let s := n.socket id
    let given := s.incoming.take buf.remaining
    if given ≠ [] ∨ s.finished = true then
      some (n.setSocket id { s with
        incoming := s.incoming.drop buf.remaining
        taken := s.taken ++ given }, given)
    else none
  | .stream conn side ref =>
    (n.stream conn side ref).bind fun s =>
      let r := s.pollRead cx (decide ((n.endpoint conn side).streams.get s.streamId ≠ some ref)) buf
      if r.2.2 = .ready then
        (n.call serde aes conn side (.pollRead ref cx buf)).map fun next =>
          (next, r.2.1.filled.drop buf.filled.length)
      else none

/-- A write that succeeds. -/
def pollWrite (n : Net) (bytes : List UInt8) : PipeEnd → Option Net
  | .socket id =>
    let s := n.socket id
    some (n.setSocket id { s with written := s.written ++ bytes })
  | .stream conn side ref =>
    if (n.endpoint conn side).writerOpen then n.call serde aes conn side (.pollWrite ref bytes)
      else none

def pollShutdown (n : Net) : PipeEnd → Option Net
  | .socket id => some (n.setSocket id { n.socket id with shut := true })
  | .stream conn side ref => n.call serde aes conn side (.pollShutdown ref)

def dropEnd (n : Net) : PipeEnd → Option Net
  | .socket id => some (n.setSocket id { n.socket id with shut := true, dropped := true })
  | .stream conn side ref => n.call serde aes conn side (.drop ref)

/-- A pipe that has not returned. -/
def running (n : Net) (k : ℕ) : Option Pipe := (n.pipes[k]?).filter fun pipe => !pipe.returned

/-- A call on an end that a pipe has is that pipe's, and no program writes an empty chunk. An error
on either end, or the abort of the task, ends a pipe at any time. -/
def step (n : Net) : NetEvent → Option Net
  | .mux conn event =>
    if (calledEnd conn event).any n.piped ∨ emptyWrite event then none
    else ((n.pair conn).step serde aes event).map (n.setPair conn)
  | .arrive id bytes =>
    let s := n.socket id
    if s.finished then none else some (n.setSocket id { s with incoming := s.incoming ++ bytes })
  | .finish id => some (n.setSocket id { n.socket id with finished := true })
  | .pipe left right =>
    (n.openView left).bind fun v => (n.openView right).bind fun w =>
      if left ≠ right ∧ n.piped left = false ∧ n.piped right = false then
        some { n with pipes := n.pipes ++ [.new left right v w] }
      else none
  | .drop e => if n.piped e then none else n.dropEnd serde aes e
  | .read k d cx buf =>
    (n.running k).bind fun pipe =>
      let copy := pipe.copy d
      if copy.readDone = false ∧ 0 < buf.remaining then
        (n.pollRead serde aes cx buf (pipe.source d)).map fun r =>
          r.1.setPipe k (pipe.setCopy d (copy.fill r.2))
      else none
  | .write k d size =>
    (n.running k).bind fun pipe =>
      let copy := pipe.copy d
      let chunk := copy.buffer.take size
      if chunk ≠ [] then
        (n.pollWrite serde aes chunk (pipe.target d)).map fun next =>
          next.setPipe k (pipe.setCopy d (copy.pass size))
      else none
  | .shutdown k d =>
    (n.running k).bind fun pipe =>
      let copy := pipe.copy d
      if copy.readDone = true ∧ copy.buffer = [] ∧ copy.shut = false then
        (n.pollShutdown serde aes (pipe.target d)).map fun next =>
          next.setPipe k (pipe.setCopy d { copy with shut := true })
      else none
  | .leave k =>
    (n.running k).bind fun pipe =>
      (n.dropEnd serde aes (pipe.source .forth)).bind fun next =>
        (next.dropEnd serde aes (pipe.source .back)).map fun last =>
          last.setPipe k { pipe with returned := true }

end Net

end NodeAccess.Tunnel
