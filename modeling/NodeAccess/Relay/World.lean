import NodeAccess.Foundation.JsonText
import NodeAccess.Relay.PeerQueue

/-! # A session with its peers

Each peer follows `run_peer`: one registration, then frames and pings while it is
registered, then one unregistration. A session operation runs under the session's
lock, so it is one event; the write tasks and the read loops of the peers do not wait
for the lock, and the pace of an event says what they do between its sends.
-/

namespace NodeAccess.Relay

open Foundation

/-- What a session is made with. -/
structure RelaySession where
  key : SessionKey
  limits : RelayLimitsConfig
  serde : SerdeJson

/-- Where `run_peer` stands. A refused peer goes from `fresh` to `gone`. -/
inductive Phase where
  | fresh
  | registered (peerMeta : PeerMeta)
  | gone
deriving DecidableEq, Repr

/-- The session's state, the peers, and the nudge task that each registration spawned. -/
structure Core where
  state : SessionState
  phase : PeerId → Phase
  task : PeerId → Option (String × NudgeStage)

inductive SessionEvent where
  | register (peerMeta : PeerMeta)
  | frame (peerMeta : PeerMeta) (frame : RelayFrame) (nowMs : ℕ)
  | ping (peerMeta : PeerMeta) (payload : List UInt8)
  | unregister (peerMeta : PeerMeta)
  | nudge (peerId : PeerId)
deriving DecidableEq, Repr

def Core.init : Core := ⟨.default, fun _ => .fresh, fun _ => none⟩

variable (session : RelaySession)

/-- `run_peer` makes the queue before it registers, and a queue cannot have size zero. -/
def Core.step (core : Core) : SessionEvent → Option (Core × List Send)
  | .register peerMeta =>
    if core.phase peerMeta.peerId = .fresh ∧ peerMeta.Conforms session.key ∧
        0 < session.limits.maxOutboundQueueMessages then
      let r := register session.serde session.limits core.state ⟨peerMeta⟩
      let phase := if r.result.isOk then .registered peerMeta else .gone
      some (⟨r.state, Function.update core.phase peerMeta.peerId phase,
        Function.update core.task peerMeta.peerId (r.nudge.map fun id => (id, .checkClient))⟩,
        r.sends)
    else none
  | .frame peerMeta frame nowMs =>
    if core.phase peerMeta.peerId = .registered peerMeta then
      let r := handleFrame session.serde core.state peerMeta frame nowMs
      some ({ core with state := r.1 }, r.2)
    else none
  | .ping peerMeta payload =>
    if core.phase peerMeta.peerId = .registered peerMeta then
      some (core, handlePing core.state peerMeta payload)
    else none
  | .unregister peerMeta =>
    if core.phase peerMeta.peerId = .registered peerMeta then
      let r := unregister session.serde core.state peerMeta
      some ({ core with state := r.1, phase := Function.update core.phase peerMeta.peerId .gone },
        r.2)
    else none
  | .nudge peerId =>
    match core.task peerId with
    | some (connectionId, stage) =>
      let r := nudgeOrResetControl session.serde core.state connectionId stage
      some ({ core with
        task := Function.update core.task peerId (r.1.map fun next => (connectionId, next)) }, r.2)
    | none => none

variable {session} {core core' : Core} {sends : List Send} {peerMeta : PeerMeta}

theorem Core.step_register (h : core.step session (.register peerMeta) = some (core', sends)) :
    let r := Relay.register session.serde session.limits core.state ⟨peerMeta⟩
    (core.phase peerMeta.peerId = .fresh ∧ peerMeta.Conforms session.key ∧
        0 < session.limits.maxOutboundQueueMessages) ∧
      core'.state = r.state ∧ sends = r.sends ∧
      core'.phase = Function.update core.phase peerMeta.peerId
        (if r.result.isOk then .registered peerMeta else .gone) ∧
      core'.task = Function.update core.task peerMeta.peerId
        (r.nudge.map fun id => (id, .checkClient)) := by
  simp only [Core.step, Option.ite_none_right_eq_some, Option.some.injEq, Prod.mk.injEq] at h
  rcases h with ⟨hg, rfl, rfl⟩
  exact ⟨hg, rfl, rfl, rfl, rfl⟩

theorem Core.step_frame {frame : RelayFrame} {nowMs : ℕ}
    (h : core.step session (.frame peerMeta frame nowMs) = some (core', sends)) :
    core.phase peerMeta.peerId = .registered peerMeta ∧
      core' = { core with state := (handleFrame session.serde core.state peerMeta frame nowMs).1 } ∧
      sends = (handleFrame session.serde core.state peerMeta frame nowMs).2 := by
  simp only [Core.step, Option.ite_none_right_eq_some, Option.some.injEq, Prod.mk.injEq] at h
  rcases h with ⟨hg, rfl, rfl⟩
  exact ⟨hg, rfl, rfl⟩

theorem Core.step_ping {payload : List UInt8}
    (h : core.step session (.ping peerMeta payload) = some (core', sends)) :
    core.phase peerMeta.peerId = .registered peerMeta ∧ core' = core ∧
      sends = handlePing core.state peerMeta payload := by
  simp only [Core.step, Option.ite_none_right_eq_some, Option.some.injEq, Prod.mk.injEq] at h
  rcases h with ⟨hg, rfl, rfl⟩
  exact ⟨hg, rfl, rfl⟩

theorem Core.step_unregister (h : core.step session (.unregister peerMeta) = some (core', sends)) :
    core.phase peerMeta.peerId = .registered peerMeta ∧
      core' = { core with
        state := (unregister session.serde core.state peerMeta).1
        phase := Function.update core.phase peerMeta.peerId .gone } ∧
      sends = (unregister session.serde core.state peerMeta).2 := by
  simp only [Core.step, Option.ite_none_right_eq_some, Option.some.injEq, Prod.mk.injEq] at h
  rcases h with ⟨hg, rfl, rfl⟩
  exact ⟨hg, rfl, rfl⟩

theorem Core.step_nudge {peerId : PeerId}
    (h : core.step session (.nudge peerId) = some (core', sends)) :
    ∃ id stage, core.task peerId = some (id, stage) ∧
      core' = { core with
        task := Function.update core.task peerId
          ((nudgeOrResetControl session.serde core.state id stage).1.map fun next => (id, next)) } ∧
      sends = (nudgeOrResetControl session.serde core.state id stage).2 := by
  cases ht : core.task peerId with
  | none => simp [Core.step, ht] at h
  | some task =>
    simp only [Core.step, ht, Option.some.injEq, Prod.mk.injEq] at h
    rcases h with ⟨rfl, rfl⟩
    exact ⟨task.1, task.2, rfl, rfl, rfl⟩

variable (session)

/-! ## Queues -/

/-- What reaches a queue without the session's lock. -/
inductive QueueWork where
  | recv
  | ownClose (code : ℕ) (reason : String)
  | stop
deriving DecidableEq, Repr

def PeerQueue.work (q : PeerQueue) : QueueWork → PeerQueue
  | .recv => q.recv
  | .ownClose code reason => q.tryOwnClose code reason
  | .stop => q.stop

def PeerQueue.works (q : PeerQueue) (works : List QueueWork) : PeerQueue :=
  works.foldl PeerQueue.work q

/-- What happens to the target's queue before a send, and between the two sends of
`send_or_close`. -/
structure Gap where
  before : List QueueWork
  between : List QueueWork
deriving DecidableEq, Repr

def Send.apply (gap : Gap) (q : PeerQueue) : Send → PeerQueue
  | .sendOrClose _ message =>
    let sent := (q.works gap.before).tryMessage message
    if sent.owed then (sent.works gap.between).tryFallback else sent
  | .closeHandle _ code reason => (q.works gap.before).tryClose code reason

/-- The sends of one operation. Past the end of the pace they follow each other at once. -/
def deliver : List Send → List Gap → (PeerId → PeerQueue) → PeerId → PeerQueue
  | [], _, queue => queue
  | send :: sends, pace, queue =>
    deliver sends pace.tail
      (Function.update queue send.target (send.apply (pace.headD ⟨[], []⟩) (queue send.target)))

structure World extends Core where
  queue : PeerId → PeerQueue

inductive WorldEvent where
  | session (event : SessionEvent) (pace : List Gap)
  | queue (peerId : PeerId) (work : QueueWork)
deriving DecidableEq, Repr

def World.init : World :=
  ⟨.init, fun _ => .new session.limits.maxOutboundQueueMessages⟩

def World.step (world : World) : WorldEvent → Option World
  | .session event pace =>
    (world.toCore.step session event).map fun r => ⟨r.1, deliver r.2 pace world.queue⟩
  | .queue peerId work =>
    if world.phase peerId = .fresh then none
    else some { world with
      queue := Function.update world.queue peerId ((world.queue peerId).work work) }

/-! ## Peers of one session, for runs on fixed inputs -/

def nodeSession : RelaySession := ⟨⟨"node", .v2⟩, .default, .plain⟩

def nodeControl (uuid : ℕ) : PeerMeta := ⟨⟨uuid⟩, "node", .server, .v2, none, .v2ServerControl⟩

def nodeData (uuid : ℕ) (id : String) : PeerMeta :=
  ⟨⟨uuid⟩, "node", .server, .v2, some id, .v2ServerData id⟩

def nodeClient (uuid : ℕ) (id : String) : PeerMeta :=
  ⟨⟨uuid⟩, "node", .client, .v2, some id, .v2Client id⟩

end NodeAccess.Relay
