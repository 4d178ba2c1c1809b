import NodeAccess.Relay.World

/-! # The tasks of a peer

`run_peer` reads the peer's websocket in a loop and has a write task that empties the peer's queue
onto it. The loop ends with the session's `unregister`, after which the write task is aborted. A
session operation holds the session's lock up to its last `try_send`; the tasks of the other peers
do not wait for it.
-/

namespace NodeAccess.Relay

open Foundation

/-- The limits that the read loop applies, with times in milliseconds. -/
structure IngressLimits where
  maxFrameBytes : ℕ
  maxMessagesPerWindow : ℕ
  rateLimitWindow : ℕ
deriving DecidableEq, Repr

/-- The limits of the relay's defaults. -/
def IngressLimits.default : IngressLimits := ⟨64 * 1024, 240, 10000⟩

/-- What the websocket hands to the read loop. -/
inductive Received where
  | text (text : String)
  | binary (bytes : List UInt8)
  | ping (payload : List UInt8)
  | pong
  | close
  | error
  | ended
deriving DecidableEq, Repr

structure RateWindow where
  startedAt : ℕ
  messages : ℕ
deriving DecidableEq, Repr

/-- The count of a message that comes at `now`. -/
def RateWindow.count (limits : IngressLimits) (window : RateWindow) (now : ℕ) : RateWindow :=
  let window := if limits.rateLimitWindow ≤ now - window.startedAt then ⟨now, 0⟩ else window
  { window with messages := window.messages + 1 }

/-- What the read loop does about a message. -/
inductive Answer where
  | handleFrame (frame : RelayFrame)
  | handlePing (payload : List UInt8)
  | ignore
  | close (code : ℕ) (reason : String)
  | leave
deriving DecidableEq, Repr

def answerFrame (limits : IngressLimits) (size : ℕ) (frame : RelayFrame) : Answer :=
  if limits.maxFrameBytes < size then .close 1009 "Frame too large" else .handleFrame frame

/-- One turn of the read loop. The end of the stream is seen before the count. -/
def receive (limits : IngressLimits) (window : RateWindow) (now : ℕ) (message : Received) :
    RateWindow × Answer :=
  if message = .ended then (window, .leave)
  else
    let window := window.count limits now
    if limits.maxMessagesPerWindow < window.messages then
      (window, .close 1008 "Rate limit exceeded")
    else
      (window, match message with
        | .text text => answerFrame limits text.utf8ByteSize (.text text)
        | .binary bytes => answerFrame limits bytes.length (.binary bytes)
        | .ping payload => .handlePing payload
        | .pong => .ignore
        | .close | .error | .ended => .leave)

/-- Where the read loop stands. In `handling` and `leaving` it is about to call the session. -/
inductive Reader where
  | outside
  | receiving
  | handling (answer : Answer)
  | leaving
  | left
deriving DecidableEq, Repr

/-- Where the write task stands. It never sees the end of its queue, because `run_peer` keeps a
sender until it has aborted the task. -/
inductive Writer where
  | unspawned
  | idle
  | sending (message : OutboundMessage)
  | failed
  | aborted
deriving DecidableEq, Repr

/-- `written` records what the write task has put on the websocket, and `decided` the codes with
which the relay has decided to close the peer. -/
structure PeerTask where
  queue : PeerQueue
  reader : Reader
  window : RateWindow
  writer : Writer
  written : List OutboundMessage
  decided : List ℕ

/-- One use of a peer's sender, one `try_send` at a time; the flag says that it is over. -/
def Send.attempt (q : PeerQueue) : Send → PeerQueue × Bool
  | .sendOrClose _ message =>
    if q.owed then (q.tryFallback, true)
    else
      let q := q.tryMessage message
      (q, !q.owed)
  | .closeHandle _ code reason => (q.tryClose code reason, true)

def Send.closeCode : Send → Option ℕ
  | .sendOrClose _ _ => none
  | .closeHandle _ code _ => some code

namespace PeerTask

def new (capacity : ℕ) : PeerTask := ⟨.new capacity, .outside, ⟨0, 0⟩, .unspawned, [], []⟩

/-- The registered peer's tasks begin. -/
def start (t : PeerTask) (now : ℕ) : Option PeerTask :=
  match t.reader, t.writer with
  | .outside, .unspawned =>
    some { t with reader := .receiving, window := ⟨now, 0⟩, writer := .idle }
  | _, _ => none

def ownClose (t : PeerTask) (code : ℕ) (reason : String) : PeerTask :=
  { t with queue := t.queue.tryOwnClose code reason, reader := .leaving, decided :=
    t.decided ++ [code] }

def idleTimeout (t : PeerTask) : Option PeerTask :=
  if t.reader = .receiving then some (t.ownClose 1001 "Idle timeout") else none

def receive (limits : IngressLimits) (t : PeerTask) (now : ℕ) (message : Received) :
    Option PeerTask :=
  if t.reader = .receiving then
    let r := Relay.receive limits t.window now message
    let t := { t with window := r.1 }
    match r.2 with
    | .handleFrame frame => some { t with reader := .handling (.handleFrame frame) }
    | .handlePing payload => some { t with reader := .handling (.handlePing payload) }
    | .ignore => some t
    | .close code reason => some (t.ownClose code reason)
    | .leave => some { t with reader := .leaving }
  else none

def take (t : PeerTask) : Option PeerTask :=
  match t.writer, t.queue.chan.waiting with
  | .idle, message :: _ => some { t with queue := t.queue.recv, writer := .sending message }
  | _, _ => none

def write (t : PeerTask) (ok : Bool) : Option PeerTask :=
  match t.writer with
  | .sending message =>
    if ok then some { t with writer := .idle, written := t.written ++ [message] }
    else some { t with queue := t.queue.stop, writer := .failed }
  | _ => none

def attempt (t : PeerTask) (send : Send) : PeerTask × Bool :=
  let r := send.attempt t.queue
  ({ t with queue := r.1, decided := t.decided ++ send.closeCode.toList }, r.2)

/-- The abort of the write task takes effect at a time of its own after the loop has been left. -/
def abort (t : PeerTask) : Option PeerTask :=
  if t.reader = .left then
    match t.writer with
    | .idle | .sending _ => some { t with queue := t.queue.stop, writer := .aborted }
    | _ => none
  else none

end PeerTask

/-- `sending` is what the operation that holds the lock has still to send, and `holder` the peer
whose `run_peer` waits for that operation. -/
structure Hub extends Core where
  sending : List Send
  holder : Option PeerId
  peer : PeerId → PeerTask

inductive HubEvent where
  | session (event : SessionEvent)
  | send
  | start (peerId : PeerId) (now : ℕ)
  | idle (peerId : PeerId)
  | receive (peerId : PeerId) (now : ℕ) (message : Received)
  | take (peerId : PeerId)
  | write (peerId : PeerId) (ok : Bool)
  | abort (peerId : PeerId)
deriving DecidableEq, Repr

/-- The `run_peer` that makes a call, where its read loop must stand for it, and where it goes. -/
def SessionEvent.caller : SessionEvent → Option (PeerId × Reader × Reader)
  | .register peerMeta => some (peerMeta.peerId, .outside, .outside)
  | .frame peerMeta received _ =>
      some (peerMeta.peerId, .handling (.handleFrame received), .receiving)
  | .ping peerMeta payload => some (peerMeta.peerId, .handling (.handlePing payload), .receiving)
  | .unregister peerMeta => some (peerMeta.peerId, .leaving, .left)
  | .nudge _ => none

namespace Hub

variable (session : RelaySession) (limits : IngressLimits)

def init : Hub := ⟨.init, [], none, fun _ => .new session.limits.maxOutboundQueueMessages⟩

/-- The `run_peer` of this peer waits for the operation that holds the lock. -/
def Waits (hub : Hub) (peerId : PeerId) : Prop := hub.sending ≠ [] ∧ hub.holder = some peerId

instance (hub : Hub) (peerId : PeerId) : Decidable (hub.Waits peerId) :=
  inferInstanceAs (Decidable (_ ∧ _))

def setPeer (hub : Hub) (peerId : PeerId) (task : PeerTask) : Hub :=
  { hub with peer := Function.update hub.peer peerId task }

/-- The read loop goes on to its next place. -/
def setReader (hub : Hub) (peerId : PeerId) (reader : Reader) : Hub :=
  hub.setPeer peerId { hub.peer peerId with reader := reader }

def callSession (hub : Hub) (event : SessionEvent) : Option Hub :=
  if hub.sending = [] then
    (hub.toCore.step session event).bind fun r =>
      let next : Hub := { hub with toCore := r.1, sending := r.2 }
      match event.caller with
      | none => some { next with holder := none }
      | some (peerId, before, after) =>
        if (hub.peer peerId).reader = before then
          some { next.setReader peerId after with holder := some peerId }
        else none
  else none

/-- The next `try_send` of the operation that holds the lock. -/
def nextSend (hub : Hub) : Option Hub :=
  match hub.sending with
  | [] => none
  | send :: rest =>
    let r := (hub.peer send.target).attempt send
    some { hub.setPeer send.target r.1 with sending := if r.2 then rest else send :: rest }

def step (hub : Hub) : HubEvent → Option Hub
  | .session event => hub.callSession session event
  | .send => hub.nextSend
  | .start peerId now =>
    if hub.phase peerId matches .registered _ ∧ ¬ hub.Waits peerId then
      ((hub.peer peerId).start now).map (hub.setPeer peerId)
    else none
  | .idle peerId =>
    if hub.Waits peerId then none else (hub.peer peerId).idleTimeout.map (hub.setPeer peerId)
  | .receive peerId now message =>
    if hub.Waits peerId then none
    else ((hub.peer peerId).receive limits now message).map (hub.setPeer peerId)
  | .take peerId => (hub.peer peerId).take.map (hub.setPeer peerId)
  | .write peerId ok => ((hub.peer peerId).write ok).map (hub.setPeer peerId)
  | .abort peerId =>
    if hub.Waits peerId then none else (hub.peer peerId).abort.map (hub.setPeer peerId)

end Hub

/-! ## What a step does to a peer's messages -/

namespace PeerTask

/-- What the write task has still to write: the message in hand and those that wait. -/
def left (t : PeerTask) : List OutboundMessage :=
  match t.writer with
  | .unspawned | .idle => t.queue.chan.waiting
  | .sending message => message :: t.queue.chan.waiting
  | .failed | .aborted => []

/-- What the write task has put on the websocket and what it will put there if it goes on. -/
def outgoing (t : PeerTask) : List OutboundMessage := t.written ++ t.left

/-- As long as the write task is there, what it writes is what the queue has let in. -/
def Faithful (t : PeerTask) : Prop :=
  t.writer = .failed ∨ t.writer = .aborted ∨ t.outgoing = t.queue.chan.queued

/-- Messages that have entered the queue stay in order, unless a write fails. -/
structure Keeps (t t' : PeerTask) : Prop where
  decided : t.decided <+: t'.decided
  failed : t.writer = .failed → t'.writer = .failed
  outgoing : t'.writer = .failed ∨ t.outgoing <+: t'.outgoing
  closed : t'.writer = .failed ∨ t'.writer = .aborted →
    t'.queue.chan.closed = true ∨ t'.writer = t.writer ∧ t'.queue.chan.closed = t.queue.chan.closed
  faithful : t.Faithful → t'.Faithful

variable {t t' : PeerTask}

theorem keeps_of_trySend (hwriter : t'.writer = t.writer) (hwritten : t'.written = t.written)
    (hdecided : t.decided <+: t'.decided)
    (hchan : t'.queue.chan = t.queue.chan ∨ ∃ message,
      t'.queue.chan = (t.queue.chan.trySend message).1) :
    t.Keeps t' := by
  have hwaiting : t.queue.chan.waiting <+: t'.queue.chan.waiting := by
    rcases hchan with h | ⟨message, h⟩
    · rw [h]
    · rw [h]
      exact Channel.waiting_prefix_trySend _ _
  have hclosed : t'.queue.chan.closed = t.queue.chan.closed := by
    rcases hchan with h | ⟨message, h⟩
    · rw [h]
    · rw [h, Channel.trySend_closed]
  constructor
  · exact hdecided
  · intro h
    rw [hwriter, h]
  · right
    rw [PeerTask.outgoing, PeerTask.outgoing, PeerTask.left, PeerTask.left, hwriter, hwritten]
    apply (List.prefix_append_right_inj _).mpr
    cases t.writer with
    | unspawned => exact hwaiting
    | idle => exact hwaiting
    | sending message => exact List.cons_prefix_cons.mpr ⟨rfl, hwaiting⟩
    | failed => exact List.prefix_rfl
    | aborted => exact List.prefix_rfl
  · exact fun _ => .inr ⟨hwriter, hclosed⟩
  · rw [Faithful, Faithful, hwriter, ← or_assoc, ← or_assoc]
    rintro (hend | hqueued)
    · exact .inl hend
    · rw [or_iff_not_imp_left]
      intro hrunning
      obtain ⟨more, hwait, hqueue⟩ : ∃ more, t'.queue.chan.waiting = t.queue.chan.waiting ++ more ∧
          t'.queue.chan.queued = t.queue.chan.queued ++ more := by
        rcases hchan with h | ⟨message, h⟩
        · exact ⟨[], by simp [h], by simp [h]⟩
        · rcases t.queue.chan.trySend_cases message with ⟨-, he⟩ | ⟨-, -, he⟩ | ⟨-, -, he⟩
          · exact ⟨[], by simp [h, he], by simp [h, he]⟩
          · exact ⟨[message], by simp [h, he], by simp [h, he]⟩
          · exact ⟨[], by simp [h, he], by simp [h, he]⟩
      rw [hqueue, ← hqueued]
      simp only [PeerTask.outgoing, PeerTask.left, hwriter, hwritten, hwait]
      cases hw : t.writer with
      | unspawned => simp
      | idle => simp
      | sending message => simp
      | failed => exact absurd (.inl hw) hrunning
      | aborted => exact absurd (.inr hw) hrunning

theorem keeps_rfl (t : PeerTask) : t.Keeps t := keeps_of_trySend rfl rfl List.prefix_rfl (.inl rfl)

theorem keeps_start {now : ℕ} (h : t.start now = some t') : t.Keeps t' := by
  rw [start] at h
  split at h
  · rename_i hreader hwriter
    obtain rfl := Option.some.inj h
    refine ⟨List.prefix_rfl, by simp [hwriter], .inr ?_, by simp, ?_⟩
    · simp [PeerTask.outgoing, PeerTask.left, hwriter]
    · simp [Faithful, PeerTask.outgoing, PeerTask.left, hwriter]
  · cases h

theorem keeps_idleTimeout (h : t.idleTimeout = some t') : t.Keeps t' := by
  rw [idleTimeout] at h
  split_ifs at h
  obtain rfl := Option.some.inj h
  exact keeps_of_trySend rfl rfl (List.prefix_append _ _) (.inr ⟨_, rfl⟩)

theorem keeps_receive {limits : IngressLimits} {now : ℕ} {message : Received}
    (h : t.receive limits now message = some t') : t.Keeps t' := by
  simp only [PeerTask.receive] at h
  split_ifs at h
  cases hanswer : (Relay.receive limits t.window now message).2 with
  | close code reason =>
    simp only [hanswer, Option.some.injEq] at h
    exact h ▸ keeps_of_trySend rfl rfl (List.prefix_append _ _) (.inr ⟨_, rfl⟩)
  | _ =>
    simp only [hanswer, Option.some.injEq] at h
    exact h ▸ keeps_of_trySend rfl rfl List.prefix_rfl (.inl rfl)

theorem keeps_take (h : t.take = some t') : t.Keeps t' := by
  rw [take] at h
  split at h
  · rename_i message rest hwriter hwaiting
    obtain rfl := Option.some.inj h
    refine ⟨List.prefix_rfl, by simp [hwriter], .inr ?_, by simp, ?_⟩
    · simp [PeerTask.outgoing, PeerTask.left, PeerQueue.recv, Channel.recv, hwriter, hwaiting]
    · simp [Faithful, PeerTask.outgoing, PeerTask.left, PeerQueue.recv, Channel.recv, hwriter,
        hwaiting]
  · cases h

theorem keeps_write {ok : Bool} (h : t.write ok = some t') : t.Keeps t' := by
  rw [write] at h
  split at h
  · rename_i message hwriter
    split_ifs at h
    · obtain rfl := Option.some.inj h
      refine ⟨List.prefix_rfl, by simp [hwriter], .inr ?_, by simp, ?_⟩
      · simp [PeerTask.outgoing, PeerTask.left, hwriter]
      · simp [Faithful, PeerTask.outgoing, PeerTask.left, hwriter]
    · obtain rfl := Option.some.inj h
      exact ⟨List.prefix_rfl, fun _ => rfl, .inl rfl, fun _ => .inl rfl, fun _ => .inl rfl⟩
  · cases h

theorem keeps_attempt (send : Send) : t.Keeps (t.attempt send).1 := by
  have hchan : ∃ message, (send.attempt t.queue).1.chan = (t.queue.chan.trySend message).1 := by
    cases send with
    | sendOrClose handle message =>
      by_cases howed : t.queue.owed = true
      · exact ⟨PeerQueue.slowConsumer, by simp [Send.attempt, howed, PeerQueue.tryFallback]⟩
      · exact ⟨message, by simp [Send.attempt, howed, PeerQueue.tryMessage]⟩
    | closeHandle handle code reason => exact ⟨.close code reason, rfl⟩
  exact keeps_of_trySend rfl rfl (List.prefix_append _ _) (.inr hchan)

theorem abort_spec (h : t.abort = some t') :
    t'.writer = .aborted ∧ t'.outgoing = t.written ∧ t'.queue.chan.closed = true ∧
      t'.decided = t.decided ∧ t.writer ≠ .failed := by
  rw [abort] at h
  split_ifs at h
  split at h <;> rename_i hwriter
  · obtain rfl := Option.some.inj h
    simp [PeerTask.outgoing, PeerTask.left, PeerQueue.stop, Channel.close, hwriter]
  · obtain rfl := Option.some.inj h
    simp [PeerTask.outgoing, PeerTask.left, PeerQueue.stop, Channel.close, hwriter]
  · cases h

end PeerTask

namespace Hub

variable {session : RelaySession} {limits : IngressLimits} {hub hub' : Hub} {event : HubEvent}

theorem keeps_setPeer {peerId : PeerId} {task : PeerTask} (h : (hub.peer peerId).Keeps task)
    (p : PeerId) :
    (hub.peer p).Keeps ((hub.setPeer peerId task).peer p) := by
  by_cases hp : p = peerId
  · subst hp
    simpa [setPeer] using h
  · simpa [setPeer, hp] using PeerTask.keeps_rfl _

theorem keeps_of_map {peerId : PeerId} {next : Option PeerTask}
    (h : next.map (hub.setPeer peerId) = some hub')
    (hkeeps : ∀ task, next = some task → (hub.peer peerId).Keeps task) (p : PeerId) :
    (hub.peer p).Keeps (hub'.peer p) := by
  obtain ⟨task, htask, rfl⟩ := Option.map_eq_some_iff.mp h
  exact keeps_setPeer (hkeeps task htask) p

theorem step_keeps (h : hub.step session limits event = some hub') (p : PeerId) :
    (hub.peer p).Keeps (hub'.peer p) ∨ event = .abort p ∧
      (hub.peer p).abort = some (hub'.peer p) := by
  cases event with
  | session event =>
    left
    simp only [step, callSession] at h
    split_ifs at h
    obtain ⟨r, -, h⟩ := Option.bind_eq_some_iff.mp h
    cases hcaller : event.caller with
    | none =>
      simp only [hcaller, Option.some.injEq] at h
      rw [← h]
      exact PeerTask.keeps_rfl _
    | some caller =>
      simp only [hcaller] at h
      split_ifs at h
      rw [← Option.some.inj h]
      have hreader : (hub.peer caller.1).Keeps { hub.peer caller.1 with reader := caller.2.2 } :=
        PeerTask.keeps_of_trySend rfl rfl List.prefix_rfl (.inl rfl)
      exact keeps_setPeer hreader p
  | send =>
    left
    simp only [step, nextSend] at h
    cases hsending : hub.sending with
    | nil => simp [hsending] at h
    | cons send rest =>
      simp only [hsending, Option.some.injEq] at h
      rw [← h]
      exact keeps_setPeer (PeerTask.keeps_attempt send) p
  | start peerId now =>
    left
    simp only [step] at h
    split_ifs at h
    exact keeps_of_map h (fun _ => PeerTask.keeps_start) p
  | idle peerId =>
    left
    simp only [step] at h
    split_ifs at h
    exact keeps_of_map h (fun _ => PeerTask.keeps_idleTimeout) p
  | receive peerId now message =>
    left
    simp only [step] at h
    split_ifs at h
    exact keeps_of_map h (fun _ => PeerTask.keeps_receive) p
  | take peerId =>
    left
    exact keeps_of_map h (fun _ => PeerTask.keeps_take) p
  | write peerId ok =>
    left
    exact keeps_of_map h (fun _ => PeerTask.keeps_write) p
  | abort peerId =>
    simp only [step] at h
    split_ifs at h
    obtain ⟨task, htask, rfl⟩ := Option.map_eq_some_iff.mp h
    by_cases hp : p = peerId
    · subst hp
      exact .inr ⟨rfl, by simpa [setPeer] using htask⟩
    · left
      simpa [setPeer, hp] using PeerTask.keeps_rfl _

end Hub

end NodeAccess.Relay
