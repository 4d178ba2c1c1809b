import NodeAccess.Foundation.Channel
import NodeAccess.Foundation.Transition
import NodeAccess.Relay.Session

/-! # The outbound queue of a peer

Every peer has one bounded queue. The session fills it through `send_or_close`
and `close_handle`, the peer's own read loop adds its own closes, and the write
task takes the messages out and puts them on the wire. A refused message of
`send_or_close` is followed by a second `try_send`, of a Close, on the same queue.
-/

namespace NodeAccess.Relay

open Foundation

/-- `tried` records the messages that the session tried to send, without the
fallback closes. `owed` stands between the two sends of `send_or_close`. -/
structure PeerQueue where
  chan : Channel OutboundMessage
  tried : List OutboundMessage
  owed : Bool

namespace PeerQueue

def new (capacity : ℕ) : PeerQueue := ⟨.new capacity, [], false⟩

def slowConsumer : OutboundMessage := .close 1013 "Slow consumer"

/-- The first `try_send` of `send_or_close`. -/
def tryMessage (q : PeerQueue) (message : OutboundMessage) : PeerQueue :=
  let sent := q.chan.trySend message
  ⟨sent.1, q.tried ++ [message], sent.2 == .full⟩

/-- The second `try_send` of `send_or_close`, after the first one found the queue full. -/
def tryFallback (q : PeerQueue) : PeerQueue :=
  { q with chan := (q.chan.trySend slowConsumer).1, owed := false }

def tryClose (q : PeerQueue) (code : ℕ) (reason : String) : PeerQueue :=
  { q with chan := (q.chan.trySend (.close code reason)).1, tried :=
    q.tried ++ [.close code reason] }

/-- The Close that `run_peer` sends to its own queue. -/
def tryOwnClose (q : PeerQueue) (code : ℕ) (reason : String) : PeerQueue :=
  { q with chan := (q.chan.trySend (.close code reason)).1 }

def recv (q : PeerQueue) : PeerQueue := { q with chan := q.chan.recv }

/-- The write task ends: a write to the socket failed, or the task was aborted. -/
def stop (q : PeerQueue) : PeerQueue := { q with chan := q.chan.close }

end PeerQueue

/-- What can happen to a queue, one `try_send` or one receive at a time. -/
inductive QueueEvent where
  | message (message : OutboundMessage)
  | fallback
  | close (code : ℕ) (reason : String)
  | ownClose (code : ℕ) (reason : String)
  | recv
  | stop
deriving DecidableEq, Repr

/-- The session holds its lock from a refused message to the fallback, so its other
sends wait for it; the write task and the peer's read loop do not. -/
def PeerQueue.step (q : PeerQueue) : QueueEvent → Option PeerQueue
  | .message m => if q.owed then none else some (q.tryMessage m)
  | .fallback => if q.owed then some q.tryFallback else none
  | .close code reason => if q.owed then none else some (q.tryClose code reason)
  | .ownClose code reason => some (q.tryOwnClose code reason)
  | .recv => some q.recv
  | .stop => some q.stop

def OutboundMessage.isClose : OutboundMessage → Bool
  | .close _ _ => true
  | _ => false

end NodeAccess.Relay
