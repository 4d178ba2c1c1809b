import NodeAccess.Serve.Provider
import NodeAccess.Tunnel.Pipe

/-! # The tasks of the node tools

A node that serves others has a mux for each data connection, with the odd end at the node that
visits or provides and the even end at the serving node. The programs at the two ends take what
their muxes hand over, and each visit, Bind and local connection is a task of its own that asks for
streams, dials addresses and joins the two in a pipe. Only the serving node of the two-role system
has providers of its own. Each data connection has one client: no two access nodes share an id, and
a visiting node of the two-role system has one mapping, as it opens a mux under its id for each.
-/

namespace NodeAccess.Nodes

open Foundation Crypto Mux Serve Tunnel

/-- A task that asks for a stream, to join it to the end that it has. -/
structure Ask where
  own : PipeEnd
  conn : ℕ
  side : Side
  request : OpenRequest
deriving DecidableEq, Repr

/-- A task that connects to an address, to join the socket to the stream that it has. -/
structure Dial where
  own : PipeEnd
  name : String
  addr : String
deriving DecidableEq, Repr

inductive Job where
  | visit (conn : ℕ) (ref : StreamRef) (name : String) (presented : Option String)
  | socks (conn : ℕ) (ref : StreamRef)
  | ask (a : Ask)
  | asking (a : Ask) (streamId : UInt32)
  | dial (d : Dial)
deriving DecidableEq, Repr

/-- The end that a task has. -/
def Job.own : Job → PipeEnd
  | .visit conn ref _ _ | .socks conn ref => .stream conn .even ref
  | .ask a | .asking a _ => a.own
  | .dial d => d.own

/-- `bound` and `handled` count the Binds that a node has sent and the control messages that the
serving node has taken, `dispatched` the streams that a program has taken from its mux. The sockets
are numbered as they are made. `asked` and `dialled` record the tasks that have made a pipe, with
their stream or socket. -/
structure Tools where
  net : Net
  node : ServeNode
  bound : ℕ → ℕ
  handled : ℕ → ℕ
  dispatched : ℕ → Side → ℕ
  sockets : ℕ
  jobs : List Job
  asked : List (Ask × StreamRef)
  dialled : List (Dial × ℕ)

inductive ToolEvent where
  | net (event : NetEvent)
  | serve (event : ServeEvent)
  | sendBind (conn : ℕ)
  | control (conn : ℕ)
  | incoming (conn : ℕ) (side : Side)
  | lookUp (conn : ℕ) (ref : StreamRef) (name : String) (presented : Option String)
  | accept (conn : ℕ) (request : OpenRequest)
  | openBegin (a : Ask)
  | openFinish (a : Ask) (streamId : UInt32)
  | socks (conn : ℕ) (event : StreamEvent)
  | connected (job : Job)
  | failed (job : Job)
deriving DecidableEq, Repr

/-- The work of the loops, of the pipes and of the peers of the sockets. -/
def isWork : NetEvent → Bool
  | .mux _ (.call _ (.reap _)) => true
  | .mux _ (.call _ _) | .pipe _ _ | .drop _ => false
  | _ => true

/-- What a listener asks for. -/
def isLocal : OpenRequest → Bool
  | .providerConnect _ => false
  | .socks | .visit _ _ => true

/-- Whether a task waits for a connection. -/
def Job.dials : Job → Bool
  | .dial _ | .socks _ _ => true
  | .visit _ _ _ _ | .ask _ | .asking _ _ => false

def Job.dial? : Job → Option Dial
  | .dial d => some d
  | _ => none

/-- What `serve_socks5` does with its stream before it has a connection. -/
def isHandshake : StreamEvent → Bool
  | .pollRead _ _ _ => true
  | .pollWrite _ data => data ≠ []
  | _ => false

def isBind : ServeEvent → Bool
  | .bind _ _ _ _ => true
  | _ => false

namespace Tools

def start (crypto : ℕ → Side → Option FrameCrypto) (localProviders : Table String TcpMapping) :
    Tools :=
  ⟨.start crypto, .init localProviders, fun _ => 0, fun _ => 0, fun _ _ => 0, 0, [], [], []⟩

def addJob (t : Tools) (job : Job) : Tools := { t with jobs := t.jobs ++ [job] }

def endJob (t : Tools) (job : Job) : Tools := { t with jobs := t.jobs.erase job }

def setNet (t : Tools) (net : Net) : Tools := { t with net := net }

def setDispatched (t : Tools) (conn : ℕ) (side : Side) : Tools :=
  let dispatched := Function.update (t.dispatched conn) side (t.dispatched conn side + 1)
  { t with dispatched := Function.update t.dispatched conn dispatched }

/-- The loop of a data connection runs. The loop of the other node runs from the start. -/
def runs (t : Tools) (conn : ℕ) : Side → Bool
  | .odd => true
  | .even => (t.node.task conn).any fun task => task.stage = .running

variable (serde : SerdeSlice) (aes : AesGcm) (mappings : ℕ → List TcpMapping)

/-- A program drops an end that it has. -/
def giveUp (t : Tools) (e : PipeEnd) : Option Tools := (t.net.step serde aes (.drop e)).map t.setNet

/-- A call of a program on the mux of a connection. -/
def callMux (t : Tools) (conn : ℕ) (side : Side) (event : StreamEvent) : Option Tools :=
  (t.net.step serde aes (.mux conn (.call side event))).map t.setNet

/-- What the loop of a program does with a stream that it takes from its mux. -/
def dispatch (t : Tools) (conn : ℕ) : Side → OpenRequest → StreamRef → Option Tools
  | .even, .visit name auth, ref => some (t.addJob (.visit conn ref name auth))
  | .even, .socks, ref => some (t.addJob (.socks conn ref))
  | .odd, .providerConnect name, ref =>
    match (targets (mappings conn)).get name with
    | some addr => some (t.addJob (.dial ⟨.stream conn .odd ref, name, addr⟩))
    | none => t.giveUp serde aes (.stream conn .odd ref)
  | side, _, ref => t.giveUp serde aes (.stream conn side ref)

/-- `handle_bind` of the serving node, for the control message that its loop takes next. -/
def handleControl (t : Tools) (conn : ℕ) (connectionId : String) : ControlMessage → Option Tools
  | .bind name auth =>
    (t.node.step (.bind conn name auth (t.net.endpoint conn .even).writerOpen)).bind fun node =>
      { t with node := node }.callMux serde aes conn .even
        (.sendControl (t.node.state.handleBind conn connectionId name auth).2)
  | .bindAck _ _ _ | .info _ => some t

/-- A task that has its connection makes the pipe. -/
def join (t : Tools) (job : Job) : Option Tools :=
  (t.net.step serde aes (.pipe job.own (.socket t.sockets))).map fun net =>
    { (t.endJob job).setNet net with
      sockets := t.sockets + 1
      dialled := t.dialled ++ job.dial?.toList.map fun d => (d, t.sockets) }

/-- `open_stream` gives no stream when `write_loop` has ended. -/
def openFinish (t : Tools) (a : Ask) (streamId : UInt32) : Option Tools :=
  let endpoint := t.net.endpoint a.conn a.side
  ((t.endJob (.asking a streamId)).callMux serde aes a.conn a.side
    (.openFinish streamId a.request)).bind fun next =>
    if endpoint.writerOpen then
      (next.net.step serde aes (.pipe a.own (.stream a.conn a.side endpoint.created))).map
        fun net =>
        { next.setNet net with asked := next.asked ++ [(a, endpoint.created)] }
    else next.giveUp serde aes a.own

def step (t : Tools) : ToolEvent → Option Tools
  | .net event => if isWork event then (t.net.step serde aes event).map t.setNet else none
  | .serve event =>
    if isBind event then none else (t.node.step event).map fun node => { t with node := node }
  | .sendBind conn =>
    (mappings conn)[t.bound conn]?.bind fun mapping =>
      { t with bound := Function.update t.bound conn (t.bound conn + 1) }.callMux serde aes conn
        .odd
        (.sendControl (.bind mapping.name mapping.auth))
  | .control conn =>
    ((t.node.task conn).filter fun task => task.stage = .running).bind fun task =>
      (((t.net.pair conn).mux .even).control[t.handled conn]?).bind fun message =>
        { t with handled := Function.update t.handled conn (t.handled conn + 1) }.handleControl
          serde aes conn
          task.connectionId message
  | .incoming conn side =>
    if t.runs conn side then
      (((t.net.pair conn).mux side).incoming[t.dispatched conn side]?).bind fun stream =>
        (t.setDispatched conn side).dispatch serde aes mappings conn side stream.1 stream.2
    else none
  | .lookUp conn ref name presented =>
    if Job.visit conn ref name presented ∈ t.jobs then
      let ended := t.endJob (.visit conn ref name presented)
      match t.node.state.handleVisit name presented with
      | .openProvider mux => some
          (ended.addJob (.ask ⟨.stream conn .even ref, mux, .even, .providerConnect name⟩))
      | .dialLocal addr => some (ended.addJob (.dial ⟨.stream conn .even ref, name, addr⟩))
      | .rejected _ => ended.giveUp serde aes (.stream conn .even ref)
    else none
  | .accept conn request =>
    if isLocal request then
      some { t.addJob (.ask ⟨.socket t.sockets, conn, .odd, request⟩) with sockets :=
        t.sockets + 1 }
    else none
  | .openBegin a =>
    if Job.ask a ∈ t.jobs then
      ((t.endJob (.ask a)).addJob (.asking a (t.net.endpoint a.conn a.side).nextStreamId)).callMux
        serde aes
        a.conn a.side (.openBegin a.request)
    else none
  | .openFinish a streamId =>
    if Job.asking a streamId ∈ t.jobs then t.openFinish serde aes a streamId else none
  | .socks conn event =>
    if event.target.any (fun ref => .socks conn ref ∈ t.jobs) ∧ isHandshake event then
      t.callMux serde aes conn .even event
    else none
  | .connected job => if job ∈ t.jobs ∧ job.dials then t.join serde aes job else none
  | .failed job =>
    if job ∈ t.jobs ∧ job.dials then (t.endJob job).giveUp serde aes job.own else none

end Tools

end NodeAccess.Nodes
