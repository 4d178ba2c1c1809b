import NodeAccess.Foundation.Transition
import NodeAccess.Mux.Frame
import NodeAccess.Relay.ControlView
import NodeAccess.Serve.Mapping

/-! # A serving node

The control loop of a node starts one task for each announced connection. A task opens a
data channel with a mux, answers the Binds that come over it and cleans up after itself.
Every access to the shared state takes its lock, so the steps are the lock acquisitions
of the control loop and of the tasks, in any order.
-/

namespace NodeAccess.Serve

open Foundation Mux Relay

/-- The tasks are numbered as they are spawned. A task makes one mux, which has its number. -/
abbrev TaskId := ℕ

structure ProviderEndpoint where
  connectionId : String
  mux : TaskId
  auth : Option String
deriving DecidableEq, Repr

/-- A node of the three-role system has no local providers. -/
structure ServeState where
  activeConnections : Finset String
  localProviders : Table String TcpMapping
  providers : Table String ProviderEndpoint

namespace ServeState

def new (localProviders : Table String TcpMapping) : ServeState := ⟨∅, localProviders, ∅⟩

/-- The state after `insert` and whether the connection id is new. -/
def startConnection (state : ServeState) (connectionId : String) : ServeState × Bool :=
  ({ state with activeConnections := insert connectionId state.activeConnections },
    connectionId ∉ state.activeConnections)

def handleBind (state : ServeState) (mux : TaskId) (connectionId name : String)
    (auth : Option String) :
    ServeState × ControlMessage :=
  if (state.providers.get name).any fun existing => existing.connectionId ≠ connectionId then
    (state, .bindAck name false (some "provider name is already registered"))
  else
    ({ state with providers := state.providers.insert name ⟨connectionId, mux, auth⟩ },
      .bindAck name true none)

/-- What a task does under the lock when its data channel has ended. -/
def cleanup (state : ServeState) (connectionId : String) : ServeState :=
  { state with
    activeConnections := state.activeConnections.erase connectionId
    providers := state.providers.retain fun _ provider => provider.connectionId ≠ connectionId }

end ServeState

inductive TaskStage where
  | opening
  | running
  | ended
deriving DecidableEq, Repr

/-- `acks` records the control messages that the mux of the task has taken for its peer. -/
structure DataTask where
  connectionId : String
  stage : TaskStage
  acks : List ControlMessage
deriving DecidableEq, Repr

/-- `pending` is what the control loop has left of the event in its hand, and `spawned` counts
the tasks that it has spawned. A task that has cleaned up is gone. -/
structure ServeNode where
  state : ServeState
  pending : List String
  task : TaskId → Option DataTask
  spawned : ℕ

/-- `writerOpen` says whether the mux of the task still has its `write_loop`, which may end before
`read_loop` does. -/
inductive ServeEvent where
  | control (event : RelayControlEvent)
  | start
  | opened (task : TaskId)
  | bind (task : TaskId) (name : String) (auth : Option String) (writerOpen : Bool)
  | ended (task : TaskId)
  | cleanup (task : TaskId)
deriving DecidableEq, Repr

/-- The connections that an event of the control channel announces. -/
def announced : RelayControlEvent → List String
  | .connected connectionId => [connectionId]
  | .sync connectionIds => connectionIds
  | .disconnected _ | .pong => []

namespace ServeNode

def init (localProviders : Table String TcpMapping) : ServeNode :=
  ⟨.new localProviders, [], fun _ => none, 0⟩

def setTask (node : ServeNode) (t : TaskId) (task : Option DataTask) : ServeNode :=
  { node with task := Function.update node.task t task }

/-- A task that this step may take from one stage to another. -/
def advance (node : ServeNode) (t : TaskId) (stages : List TaskStage) (next : TaskStage) :
    Option ServeNode :=
  (node.task t).bind fun task =>
    if task.stage ∈ stages then some (node.setTask t (some { task with stage := next })) else none

/-- A channel that could not be opened ends too. `handle_bind` does not look whether `send_control`
has failed. -/
def step (node : ServeNode) : ServeEvent → Option ServeNode
  | .control event => if node.pending = [] then some { node with pending := announced event }
      else none
  | .start =>
    match node.pending with
    | [] => none
    | connectionId :: rest =>
      let started := node.state.startConnection connectionId
      let next := { node with state := started.1, pending := rest }
      if started.2 then
        some { next.setTask node.spawned (some ⟨connectionId, .opening, []⟩) with
          spawned := node.spawned + 1 }
      else some next
  | .opened t => node.advance t [.opening] .running
  | .bind t name auth writerOpen =>
    (node.task t).bind fun task =>
      if task.stage = .running then
        let bound := node.state.handleBind t task.connectionId name auth
        let sent := if writerOpen then [bound.2] else []
        some { node.setTask t (some { task with acks := task.acks ++ sent }) with state := bound.1 }
      else none
  | .ended t => node.advance t [.opening, .running] .ended
  | .cleanup t =>
    (node.task t).bind fun task =>
      if task.stage = .ended then
        some { node.setTask t none with state := node.state.cleanup task.connectionId }
      else none

variable {node node' : ServeNode} {t : TaskId}

theorem step_control {event : RelayControlEvent} (h : node.step (.control event) = some node') :
    node.pending = [] ∧ node' = { node with pending := announced event } := by
  simp only [step, Option.ite_none_right_eq_some, Option.some.injEq] at h
  exact ⟨h.1, h.2.symm⟩

theorem step_start (h : node.step .start = some node') : ∃ c rest, node.pending = c :: rest ∧
    (c ∉ node.state.activeConnections ∧
        node' = ⟨{ node.state with activeConnections := insert c node.state.activeConnections },
          rest, Function.update node.task node.spawned (some ⟨c, .opening, []⟩), node.spawned + 1⟩ ∨
      c ∈ node.state.activeConnections ∧ node' = { node with pending := rest }) := by
  simp only [step] at h
  cases hp : node.pending with
  | nil =>
    rw [hp] at h
    cases h
  | cons c rest =>
    refine ⟨c, rest, rfl, ?_⟩
    simp only [hp, ServeState.startConnection, decide_eq_true_eq] at h
    by_cases hc : c ∈ node.state.activeConnections
    · rw [if_neg (not_not.mpr hc), Option.some.injEq, Finset.insert_eq_self.mpr hc] at h
      exact .inr ⟨hc, h.symm⟩
    · rw [if_pos hc, Option.some.injEq] at h
      exact .inl ⟨hc, h.symm⟩

theorem advance_eq {stages : List TaskStage} {next : TaskStage}
    (h : node.advance t stages next = some node') : ∃ task, node.task t = some task ∧
      task.stage ∈ stages ∧
      node' = { node with task := Function.update node.task t (some { task with stage := next })
        } := by
  simp only [advance, Option.bind_eq_some_iff, Option.ite_none_right_eq_some,
    Option.some.injEq] at h
  obtain ⟨task, ht, hs, rfl⟩ := h
  exact ⟨task, ht, hs, rfl⟩

theorem step_bind {name : String} {auth : Option String} {writerOpen : Bool}
    (h : node.step (.bind t name auth writerOpen) = some node') :
    ∃ task, node.task t = some task ∧ task.stage = .running ∧
      node' = { node with
        state := (node.state.handleBind t task.connectionId name auth).1
        task := Function.update node.task t (some { task with acks := task.acks ++
          if writerOpen then [(node.state.handleBind t task.connectionId name auth).2] else [] })
            } := by
  simp only [step, Option.bind_eq_some_iff, Option.ite_none_right_eq_some, Option.some.injEq] at h
  obtain ⟨task, ht, hs, rfl⟩ := h
  exact ⟨task, ht, hs, rfl⟩

theorem step_cleanup (h : node.step (.cleanup t) = some node') :
    ∃ task, node.task t = some task ∧ task.stage = .ended ∧
      node' = { node with
        state := node.state.cleanup task.connectionId
        task := Function.update node.task t none } := by
  simp only [step, Option.bind_eq_some_iff, Option.ite_none_right_eq_some, Option.some.injEq] at h
  obtain ⟨task, ht, hs, rfl⟩ := h
  exact ⟨task, ht, hs, rfl⟩

end ServeNode

/-! ## The two lock acquisitions that touch the providers -/

namespace ServeState

variable (state : ServeState) (mux : TaskId) (connectionId name : String) (auth : Option String)

theorem handleBind_cases :
    (∃ existing, state.providers.get name = some existing ∧ existing.connectionId ≠ connectionId ∧
        state.handleBind mux connectionId name auth =
          (state, .bindAck name false (some "provider name is already registered"))) ∨
      (∀ existing, state.providers.get name = some existing →
        existing.connectionId = connectionId) ∧
        state.handleBind mux connectionId name auth =
          ({ state with providers := state.providers.insert name ⟨connectionId, mux, auth⟩ },
            .bindAck name true none) := by
  unfold handleBind
  cases h : state.providers.get name with
  | none => simp
  | some existing => by_cases hc : existing.connectionId = connectionId <;> simp [hc]

theorem cleanup_providers :
    (state.cleanup connectionId).providers.get name =
      (state.providers.get name).filter fun provider => provider.connectionId ≠ connectionId :=
  Table.get_retain _ _ _

end ServeState

end NodeAccess.Serve
