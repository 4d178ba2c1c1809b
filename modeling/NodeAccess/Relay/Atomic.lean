import NodeAccess.Relay.Delivery
import NodeAccess.Relay.RunPeer

/-! # Session operations as single steps

The write tasks and the read loops go on while a session operation sends its messages one by one.
What they do meanwhile can be put into the pace of the operation or after it, so that the operation
is a single step: every run of the peers' tasks is a run of a session with its peers.
-/

namespace NodeAccess.Relay

open Foundation

def WorldEvent.call? : WorldEvent → Option SessionEvent
  | .session event _ => some event
  | .queue _ _ => none

def HubEvent.call? : HubEvent → Option SessionEvent
  | .session event => some event
  | _ => none

/-- The session's operations in a run. -/
def worldCalls (ms : List (Move World WorldEvent)) : List SessionEvent :=
  ms.filterMap fun m => m.event.call?

def hubCalls (ms : List (Move Hub HubEvent)) : List SessionEvent :=
  ms.filterMap fun m => m.event.call?

/-- What the tasks of one peer have done. -/
def worksOf (p : PeerId) (works : List (PeerId × QueueWork)) : List QueueWork :=
  (works.filter fun work => work.1 = p).map Prod.snd

/-! ## Queues -/

theorem worksOf_append (p : PeerId) (s t : List (PeerId × QueueWork)) :
    worksOf p (s ++ t) = worksOf p s ++ worksOf p t := by
  simp [worksOf]

theorem worksOf_of_ne {p q : PeerId} (h : p ≠ q) (works : List (PeerId × QueueWork)) :
    worksOf p (works.filter fun work => work.1 ≠ q) = worksOf p works := by
  rw [worksOf, List.filter_filter, worksOf]
  congr 1
  apply List.filter_congr
  intro work _
  by_cases hp : work.1 = p
  · simp [hp, h]
  · simp [hp]

theorem worksOf_self (p : PeerId) (works : List (PeerId × QueueWork)) :
    worksOf p (works.filter fun work => work.1 ≠ p) = [] := by
  simp [worksOf, List.filter_filter]

namespace PeerQueue

theorem works_append (q : PeerQueue) (s t : List QueueWork) :
    q.works (s ++ t) = (q.works s).works t :=
  List.foldl_append

theorem works_owed (q : PeerQueue) (works : List QueueWork) : (q.works works).owed = q.owed := by
  apply works_induction (P := fun r => r.owed = q.owed) _ rfl
  intro r work hr
  cases work <;> exact hr

end PeerQueue

theorem deliver_concat {done : List Send} {pace : List Gap} (hlength : pace.length = done.length)
    (send : Send) (gap : Gap) (queue : PeerId → PeerQueue) :
    deliver (done ++ [send]) (pace ++ [gap]) queue =
      Function.update (deliver done pace queue) send.target
        (send.apply gap (deliver done pace queue send.target)) := by
  induction done generalizing pace queue with
  | nil =>
    rw [List.length_nil, List.length_eq_zero_iff] at hlength
    subst hlength
    rfl
  | cons first done ih =>
    cases pace with
    | nil => cases hlength
    | cons before pace =>
      simp only [List.cons_append, deliver, List.tail_cons, List.headD_cons]
      exact ih (Nat.succ.inj hlength) _

/-! ## The tasks of peers that have come -/

namespace Hub

variable {session : RelaySession} {limits : IngressLimits} {hub hub' : Hub} {event : HubEvent}

/-- The session and the queues, without the tasks. -/
def world (hub : Hub) : World := ⟨hub.toCore, fun p => (hub.peer p).queue⟩

/-- The tasks of a peer start when it has been registered. -/
def Unstarted (hub : Hub) : Prop :=
  ∀ p, hub.phase p = .fresh → (hub.peer p).reader = .outside ∧ (hub.peer p).writer = .unspawned

theorem unstarted_init : (init session).Unstarted := fun _ _ => ⟨rfl, rfl⟩

theorem Unstarted.setPeer (h : hub.Unstarted) {p : PeerId} {task : PeerTask}
    (hphase : hub'.phase = hub.phase) (hpeer : hub'.peer = Function.update hub.peer p task)
    (hp : hub.phase p ≠ .fresh) : hub'.Unstarted := by
  intro q hq
  rw [hphase] at hq
  have hne : q ≠ p := by
    rintro rfl
    exact hp hq
  rw [hpeer, Function.update_of_ne hne]
  exact h q hq

theorem Unstarted.not_fresh (h : hub.Unstarted) {p : PeerId} (hp : (hub.peer p).reader ≠ .outside) :
    hub.phase p ≠ .fresh := fun hf => hp (h p hf).1

theorem Unstarted.not_fresh_of_writer (h : hub.Unstarted) {p : PeerId}
    (hp : (hub.peer p).writer ≠ .unspawned) :
    hub.phase p ≠ .fresh := fun hf => hp (h p hf).2

theorem setPeer_peer_self (hub : Hub) (p : PeerId) (task : PeerTask) :
    (hub.setPeer p task).peer p = task := by
  simp [setPeer]

theorem setPeer_peer_of_ne (hub : Hub) {p q : PeerId} (h : q ≠ p) (task : PeerTask) :
    (hub.setPeer p task).peer q = hub.peer q := by
  simp [setPeer, h]

/-- What a step of the tasks does to the queues. -/
structure Worked (hub hub' : Hub) (works : List (PeerId × QueueWork)) : Prop where
  core : hub'.toCore = hub.toCore
  sending : hub'.sending = hub.sending
  come : ∀ work ∈ works, hub.phase work.1 ≠ .fresh
  queue : ∀ p, (hub'.peer p).queue = (hub.peer p).queue.works (worksOf p works)

theorem worked_nil {p : PeerId} {task : PeerTask} (hqueue : task.queue = (hub.peer p).queue) :
    hub.Worked (hub.setPeer p task) [] := by
  refine ⟨rfl, rfl, (fun _ hw => by cases hw), ?_⟩
  intro q
  by_cases hq : q = p
  · subst hq
    rw [setPeer_peer_self, hqueue]
    rfl
  · rw [setPeer_peer_of_ne hub hq]
    rfl

theorem worked_single {p : PeerId} {task : PeerTask} {w : QueueWork} (hp : hub.phase p ≠ .fresh)
    (hqueue : task.queue = (hub.peer p).queue.work w) :
    hub.Worked (hub.setPeer p task) [(p, w)] := by
  refine ⟨rfl, rfl, ?_, ?_⟩
  · intro other hw
    rw [List.mem_singleton.mp hw]
    exact hp
  · intro q
    by_cases hq : q = p
    · subst hq
      rw [setPeer_peer_self, hqueue]
      simp [worksOf, PeerQueue.works]
    · rw [setPeer_peer_of_ne hub hq]
      simp [worksOf, PeerQueue.works, Ne.symm hq]

theorem worked_step (h : hub.Unstarted) (hs : hub.step session limits event = some hub')
    (hcall : event.call? = none) (hsend : event ≠ .send) :
    hub'.Unstarted ∧ ∃ works, hub.Worked hub' works := by
  cases event with
  | session event => cases hcall
  | send => exact absurd rfl hsend
  | start p now =>
    simp only [step] at hs
    split_ifs at hs with hguard
    obtain ⟨task, htask, rfl⟩ := Option.map_eq_some_iff.mp hs
    have hp : hub.phase p ≠ .fresh := by
      intro hf
      rw [hf] at hguard
      cases hguard.1
    refine ⟨h.setPeer rfl rfl hp, [], worked_nil ?_⟩
    rw [PeerTask.start] at htask
    split at htask
    · exact Option.some.inj htask ▸ rfl
    · cases htask
  | idle p =>
    obtain ⟨-, hs⟩ := Option.ite_none_left_eq_some.mp hs
    obtain ⟨task, htask, rfl⟩ := Option.map_eq_some_iff.mp hs
    obtain ⟨hreader, htask⟩ := Option.ite_none_right_eq_some.mp htask
    have hp := h.not_fresh (p := p) (by rw [hreader]; exact fun he => by cases he)
    exact ⟨h.setPeer rfl rfl hp, _, worked_single (w := .ownClose 1001 "Idle timeout") hp
      (Option.some.inj htask ▸ rfl)⟩
  | receive p now message =>
    obtain ⟨-, hs⟩ := Option.ite_none_left_eq_some.mp hs
    obtain ⟨task, htask, rfl⟩ := Option.map_eq_some_iff.mp hs
    obtain ⟨hreader, htask⟩ := Option.ite_none_right_eq_some.mp htask
    have hp := h.not_fresh (p := p) (by rw [hreader]; exact fun he => by cases he)
    refine ⟨h.setPeer rfl rfl hp, ?_⟩
    cases hanswer : (Relay.receive limits (hub.peer p).window now message).2 with
    | close code reason =>
      simp only [hanswer, Option.some.injEq] at htask
      exact ⟨_, worked_single (w := .ownClose code reason) hp (htask ▸ rfl)⟩
    | _ =>
      simp only [hanswer, Option.some.injEq] at htask
      exact ⟨_, worked_nil (htask ▸ rfl)⟩
  | take p =>
    obtain ⟨task, htask, rfl⟩ := Option.map_eq_some_iff.mp hs
    rw [PeerTask.take] at htask
    split at htask
    · rename_i hwriter _
      have hp := h.not_fresh_of_writer (p := p) (by rw [hwriter]; exact fun he => by cases he)
      exact ⟨h.setPeer rfl rfl hp, _, worked_single (w := .recv) hp (Option.some.inj htask ▸ rfl)⟩
    · cases htask
  | write p ok =>
    obtain ⟨task, htask, rfl⟩ := Option.map_eq_some_iff.mp hs
    rw [PeerTask.write] at htask
    split at htask
    · rename_i hwriter
      have hp := h.not_fresh_of_writer (p := p) (by rw [hwriter]; exact fun he => by cases he)
      refine ⟨h.setPeer rfl rfl hp, ?_⟩
      split_ifs at htask
      · exact ⟨_, worked_nil (Option.some.inj htask ▸ rfl)⟩
      · exact ⟨_, worked_single (w := .stop) hp (Option.some.inj htask ▸ rfl)⟩
    · cases htask
  | abort p =>
    obtain ⟨-, hs⟩ := Option.ite_none_left_eq_some.mp hs
    obtain ⟨task, htask, rfl⟩ := Option.map_eq_some_iff.mp hs
    obtain ⟨hreader, htask⟩ := Option.ite_none_right_eq_some.mp htask
    have hp := h.not_fresh (p := p) (by rw [hreader]; exact fun he => by cases he)
    refine ⟨h.setPeer rfl rfl hp, ?_⟩
    split at htask
    · exact ⟨_, worked_single (w := .stop) hp (Option.some.inj htask ▸ rfl)⟩
    · exact ⟨_, worked_single (w := .stop) hp (Option.some.inj htask ▸ rfl)⟩
    · cases htask

/-! ## An operation under way -/

/-- The world stands before an operation that the hub has made in part. `queue` has the queues after
what has been sent, and the tasks have done the rest since. -/
structure UnderWay (session : RelaySession) (hub : Hub) (world : World) (event : SessionEvent)
    (done : List Send) (pace : List Gap) (works : List (PeerId × QueueWork))
    (queue : PeerId → PeerQueue) : Prop where
  step : world.toCore.step session event = some (hub.toCore, done ++ hub.sending)
  length : pace.length = done.length
  come : ∀ work ∈ works, hub.phase work.1 ≠ .fresh
  queue : ∀ p, (hub.peer p).queue = (queue p).works (worksOf p works)

/-- Between the two sends of `send_or_close` the target's queue has refused the message. -/
def halfSent (queue : PeerId → PeerQueue) (before : List QueueWork) (handle : PeerHandle)
    (message : OutboundMessage) : PeerId → PeerQueue :=
  Function.update queue handle.peerMeta.peerId
    ((queue handle.peerMeta.peerId).works before |>.tryMessage message)

/-- The world that has made the same operations as the hub, up to the one under way. -/
inductive Atomic (session : RelaySession) (hub : Hub) : List SessionEvent → Prop
  | free {ms : List (Move World WorldEvent)}
      (run : Run (World.step session) (World.init session) ms hub.world)
      (free : hub.sending = []) : Atomic session hub (worldCalls ms)
  | busy {ms : List (Move World WorldEvent)} {world : World} {event : SessionEvent}
      {done : List Send}
      {pace : List Gap} {works : List (PeerId × QueueWork)}
      (run : Run (World.step session) (World.init session) ms world)
      (way : hub.UnderWay session world event done pace works (deliver done pace world.queue))
      (busy : hub.sending ≠ []) : Atomic session hub (worldCalls ms ++ [event])
  | half {ms : List (Move World WorldEvent)} {world : World} {event : SessionEvent}
      {done : List Send}
      {pace : List Gap} {works : List (PeerId × QueueWork)} {handle : PeerHandle}
        {message : OutboundMessage}
      {rest : List Send} {before : List QueueWork}
      (run : Run (World.step session) (World.init session) ms world)
      (way : hub.UnderWay session world event done pace works
        (halfSent (deliver done pace world.queue) before handle message))
      (sending : hub.sending = .sendOrClose handle message :: rest)
      (owed : (((deliver done pace world.queue) handle.peerMeta.peerId).works before |>.tryMessage
        message).owed = true) :
      Atomic session hub (worldCalls ms ++ [event])

variable {world : World} {call : SessionEvent} {done rest : List Send} {pace : List Gap}
  {works works' : List (PeerId × QueueWork)} {queue : PeerId → PeerQueue}
    {calls : List SessionEvent} {send : Send}

theorem UnderWay.worked (h : hub.UnderWay session world call done pace works queue)
    (hw : hub.Worked hub' works') :
    hub'.UnderWay session world call done pace (works ++ works') queue where
  step := by
    rw [hw.core, hw.sending]
    exact h.step
  length := h.length
  come work hm := by
    rw [hw.core]
    exact (List.mem_append.mp hm).elim (h.come work) (hw.come work)
  queue p := by
    rw [hw.queue p, h.queue p, worksOf_append, PeerQueue.works_append]

/-- A send that is over joins those that are done. What the tasks did to its target
comes before it. -/
theorem UnderWay.sent (h : hub.UnderWay session world call done pace works queue)
    (hsending : hub.sending = send :: rest) (hcore : hub'.toCore = hub.toCore)
    (hrest : hub'.sending = rest) (gap : Gap)
    (hself : (hub'.peer send.target).queue =
      send.apply gap (deliver done pace world.queue send.target))
    (hother : ∀ p, p ≠ send.target → (hub'.peer p).queue = (hub.peer p).queue)
    (hqueue : ∀ p, p ≠ send.target → queue p = deliver done pace world.queue p) :
    hub'.UnderWay session world call (done ++ [send]) (pace ++ [gap]) (works.filter fun work =>
      work.1 ≠ send.target)
      (deliver (done ++ [send]) (pace ++ [gap]) world.queue) where
  step := by
    rw [hcore, hrest, h.step, hsending, List.append_cons]
  length := by
    rw [List.length_append, List.length_append, h.length]
    rfl
  come work hm := by
    rw [hcore]
    exact h.come work (List.mem_filter.mp hm).1
  queue p := by
    rw [deliver_concat h.length]
    by_cases hp : p = send.target
    · subst hp
      rw [Function.update_self, worksOf_self, hself]
      rfl
    · rw [Function.update_of_ne hp, worksOf_of_ne hp, hother p hp, h.queue p, hqueue p hp]

theorem run_works (session : RelaySession) (world : World) (works : List (PeerId × QueueWork))
    (hcome : ∀ work ∈ works, world.phase work.1 ≠ .fresh) :
    ∃ ms, Run (World.step session) world ms ⟨world.toCore,
      fun p => (world.queue p).works (worksOf p works)⟩ ∧
      worldCalls ms = [] := by
  induction works generalizing world with
  | nil => exact ⟨[], Run.nil, rfl⟩
  | cons first works ih =>
    obtain ⟨p, work⟩ := first
    have hp : world.phase p ≠ .fresh := hcome (p, work) List.mem_cons_self
    have hstep : world.step session (.queue p work) = some { world with
        queue := Function.update world.queue p ((world.queue p).work work) } := if_neg hp
    obtain ⟨ms, hrun, hcalls⟩ :=
      ih { world with queue := Function.update world.queue p ((world.queue p).work work) }
      fun other hm => hcome other (List.mem_cons_of_mem _ hm)
    have hqueue :
        (fun q => (Function.update world.queue p ((world.queue p).work work) q).works
          (worksOf q works)) =
        fun q => (world.queue q).works (worksOf q ((p, work) :: works)) := by
      funext q
      by_cases hq : q = p
      · subst hq
        simp [worksOf, PeerQueue.works]
      · simp [worksOf, PeerQueue.works, hq, Ne.symm hq]
    dsimp only at hrun
    rw [hqueue] at hrun
    exact ⟨_, (Run.single hstep).trans hrun, hcalls⟩

theorem UnderWay.settle {ms : List (Move World WorldEvent)}
    (hrun : Run (World.step session) (World.init session) ms world)
    (h : hub.UnderWay session world call done pace works (deliver done pace world.queue)) :
    hub.Atomic session (worldCalls ms ++ [call]) := by
  by_cases hfree : hub.sending = []
  · have hcall := h.step
    rw [hfree, List.append_nil] at hcall
    have hstep :
        world.step session (.session call pace) =
          some ⟨hub.toCore, deliver done pace world.queue⟩ := by
      rw [World.step, hcall]
      rfl
    obtain ⟨ns, hworks, hcalls⟩ :=
      run_works session ⟨hub.toCore, deliver done pace world.queue⟩ works h.come
    have hqueue :
        (⟨hub.toCore, fun p => (deliver done pace world.queue p).works (worksOf p works)⟩ : World) =
          hub.world := by
      rw [Hub.world]
      congr 1
      funext p
      exact (h.queue p).symm
    dsimp only at hworks
    rw [hqueue] at hworks
    have hall :
        worldCalls
          (ms ++ [⟨world, .session call pace, ⟨hub.toCore, deliver done pace world.queue⟩⟩] ++ ns) =
        worldCalls ms ++ [call] := by
      rw [worldCalls, List.filterMap_append, List.filterMap_append]
      change worldCalls ms ++ [call] ++ worldCalls ns = _
      rw [hcalls, List.append_nil]
    exact hall ▸ .free ((hrun.snoc hstep).trans hworks) hfree
  · exact .busy hrun h hfree

/-! ## Every step of the hub -/

theorem callSession_spec {event : SessionEvent} (h : hub.callSession session event = some hub') :
    hub.sending = [] ∧ hub.toCore.step session event = some (hub'.toCore, hub'.sending) ∧
      (∀ p, (hub'.peer p).queue = (hub.peer p).queue) ∧ (hub.Unstarted → hub'.Unstarted) := by
  obtain ⟨hfree, h⟩ := Option.ite_none_right_eq_some.mp h
  obtain ⟨⟨core, sends⟩, hstep, h⟩ := Option.bind_eq_some_iff.mp h
  have hfresh : ∀ p, core.phase p = .fresh → hub.phase p = .fresh := by
    intro p hp
    by_contra hn
    exact Core.step_not_fresh hstep hn hp
  cases hcaller : event.caller with
  | none =>
    simp only [hcaller, Option.some.injEq] at h
    subst h
    exact ⟨hfree, hstep, fun _ => rfl, fun hun p hp => hun p (hfresh p hp)⟩
  | some caller =>
    obtain ⟨p, before, after⟩ := caller
    simp only [hcaller, Option.ite_none_right_eq_some, Option.some.injEq] at h
    obtain ⟨hreader, rfl⟩ := h
    refine ⟨hfree, hstep, ?_, ?_⟩
    · intro q
      by_cases hq : q = p
      · subst hq
        simp [setReader, setPeer]
      · simp [setReader, setPeer, hq]
    · intro hun q hq
      have hbefore := hun q (hfresh q hq)
      by_cases hqp : q = p
      · subst hqp
        rw [hbefore.1] at hreader
        -- the call of a peer that has not started can only be its registration
        have hafter : after = .outside := by
          cases event with
          | nudge peerId => cases hcaller
          | _ =>
            obtain ⟨rfl, hb, ha⟩ := Option.some.inj hcaller
            first
            | rfl
            | cases hreader
        simpa [setReader, setPeer, hafter] using hbefore.2
      · simpa [setReader, setPeer, hqp] using hbefore

theorem nextSend_spec (h : hub.nextSend = some hub') : ∃ send rest, hub.sending = send :: rest ∧
    hub'.toCore = hub.toCore ∧
    (hub'.peer send.target).queue = (send.attempt (hub.peer send.target).queue).1 ∧
    (∀ p, p ≠ send.target → (hub'.peer p).queue = (hub.peer p).queue) ∧
    hub'.sending = (if (send.attempt (hub.peer send.target).queue).2 then rest else send :: rest) ∧
    (hub.Unstarted → hub'.Unstarted) := by
  rw [nextSend] at h
  split at h
  · cases h
  · rename_i send rest hsending
    obtain rfl := Option.some.inj h
    refine ⟨send, rest, hsending, rfl, ?_, ?_, rfl, ?_⟩
    · simp [setPeer, PeerTask.attempt]
    · intro p hp
      simp [setPeer, hp]
    · intro hun p hp
      by_cases hpt : p = send.target
      · subst hpt
        simpa [setPeer, PeerTask.attempt] using hun _ hp
      · simpa [setPeer, hpt] using hun p hp

theorem UnderWay.next {ms : List (Move World WorldEvent)}
    (hrun : Run (World.step session) (World.init session) ms world)
    (h : hub.UnderWay session world call done pace works (deliver done pace world.queue))
    (hs : hub.nextSend = some hub') : hub'.Atomic session (worldCalls ms ++ [call]) := by
  obtain ⟨send, rest, hsending, hcore, hself, hother, hrest, -⟩ := nextSend_spec hs
  have hqueue : (hub.peer send.target).queue =
      (deliver done pace world.queue send.target).works (worksOf send.target works) := h.queue _
  have howed : (hub.peer send.target).queue.owed = false := by
    rw [hqueue, PeerQueue.works_owed]
    exact (deliver_tracks (World.run_settled hrun).tracks done pace send.target).settled
  cases send with
  | closeHandle handle code reason =>
    rw [hqueue] at hself
    exact (h.sent hsending hcore hrest ⟨worksOf handle.peerMeta.peerId works, []⟩ hself hother
      fun _ _ => rfl).settle hrun
  | sendOrClose handle message =>
    rw [Send.target] at hqueue howed hself hother hrest
    simp only [Send.attempt, howed, Bool.false_eq_true, if_false] at hself hrest
    rw [hqueue] at hself hrest
    cases hrefused : (((deliver done pace world.queue handle.peerMeta.peerId).works
        (worksOf handle.peerMeta.peerId works)).tryMessage message).owed with
    | false =>
      rw [hrefused] at hrest
      refine (h.sent hsending hcore hrest ⟨worksOf handle.peerMeta.peerId works, []⟩ ?_ hother
        fun _ _ => rfl).settle hrun
      rw [Send.target, hself, Send.apply, hrefused]
      rfl
    | true =>
      rw [hrefused] at hrest
      have hsame : hub'.sending = .sendOrClose handle message :: rest := hrest
      have hway :
          hub'.UnderWay session world call done pace (works.filter fun work =>
            work.1 ≠ handle.peerMeta.peerId)
          (halfSent (deliver done pace world.queue) (worksOf handle.peerMeta.peerId works) handle
            message) := by
        constructor
        case step =>
          rw [hcore, hsame, ← hsending]
          exact h.step
        case length => exact h.length
        case come =>
          intro work hm
          rw [hcore]
          exact h.come work (List.mem_filter.mp hm).1
        case queue =>
          intro p
          by_cases hp : p = handle.peerMeta.peerId
          · subst hp
            rw [worksOf_self, halfSent, Function.update_self]
            exact hself
          · rw [worksOf_of_ne hp, halfSent, Function.update_of_ne hp, hother p hp]
            exact h.queue p
      exact .half hrun hway hsame hrefused

theorem UnderWay.fallback {ms : List (Move World WorldEvent)} {handle : PeerHandle}
    {message : OutboundMessage} {before : List QueueWork}
    (hrun : Run (World.step session) (World.init session) ms world)
    (h : hub.UnderWay session world call done pace works
      (halfSent (deliver done pace world.queue) before handle message))
    (hsending : hub.sending = .sendOrClose handle message :: rest)
    (howed : (((deliver done pace world.queue) handle.peerMeta.peerId).works before |>.tryMessage
      message).owed = true)
    (hs : hub.nextSend = some hub') : hub'.Atomic session (worldCalls ms ++ [call]) := by
  obtain ⟨send, rest', hsending', hcore, hself, hother, hrest, -⟩ := nextSend_spec hs
  obtain ⟨rfl, rfl⟩ := List.cons.inj (hsending.symm.trans hsending')
  have hqueue : (hub.peer handle.peerMeta.peerId).queue =
      ((((deliver done pace world.queue) handle.peerMeta.peerId).works before).tryMessage
        message).works
        (worksOf handle.peerMeta.peerId works) := by
    rw [h.queue, halfSent, Function.update_self]
  have howed' : (hub.peer handle.peerMeta.peerId).queue.owed = true := by
    rw [hqueue, PeerQueue.works_owed, howed]
  simp only [Send.target, Send.attempt, howed', if_true] at hself hrest
  refine (h.sent hsending hcore hrest ⟨before, worksOf handle.peerMeta.peerId works⟩ ?_ hother
    ?_).settle hrun
  · rw [Send.target, hself, hqueue, Send.apply, howed]
    rfl
  · intro p hp
    exact Function.update_of_ne hp _ _

theorem Atomic.step (h : hub.Atomic session calls) (hun : hub.Unstarted)
    (hs : hub.step session limits event = some hub') :
    hub'.Atomic session (calls ++ event.call?.toList) := by
  by_cases hcall : ∃ call, event = .session call
  · obtain ⟨call, rfl⟩ := hcall
    obtain ⟨hfree, hstep, hqueue, -⟩ := callSession_spec hs
    cases h with
    | free hrun _ =>
      have hway : hub'.UnderWay session hub.world call [] [] [] (deliver [] [] hub.world.queue) :=
        ⟨hstep, rfl, (fun _ hm => by cases hm), hqueue⟩
      exact hway.settle hrun
    | busy _ _ hbusy => exact absurd hfree hbusy
    | half _ _ hsending _ =>
      rw [hfree] at hsending
      cases hsending
  · have hnone : event.call? = none := by
      cases event with
      | session call => exact absurd ⟨call, rfl⟩ hcall
      | _ => rfl
    rw [hnone, Option.toList_none, List.append_nil]
    by_cases hsend : event = .send
    · subst hsend
      cases h with
      | free _ hfree =>
        obtain ⟨send, rest, hsending, -⟩ := nextSend_spec hs
        rw [hfree] at hsending
        cases hsending
      | busy hrun hway _ => exact hway.next hrun hs
      | half hrun hway hsending howed => exact hway.fallback hrun hsending howed hs
    · obtain ⟨-, works, hworked⟩ := worked_step hun hs hnone hsend
      cases h with
      | @free ms hrun hfree =>
        obtain ⟨ns, hworks, hcalls⟩ := run_works session hub.world works hworked.come
        have hworld :
            (⟨hub.world.toCore, fun p => (hub.world.queue p).works (worksOf p works)⟩ : World) =
              hub'.world := by
          rw [Hub.world, Hub.world, hworked.core]
          congr 1
          funext p
          exact (hworked.queue p).symm
        rw [hworld] at hworks
        have hall : worldCalls (ms ++ ns) = worldCalls ms := by
          rw [worldCalls, List.filterMap_append]
          change worldCalls ms ++ worldCalls ns = _
          rw [hcalls, List.append_nil]
        exact hall ▸ .free (hrun.trans hworks) (hworked.sending.trans hfree)
      | busy hrun hway hbusy => exact .busy hrun (hway.worked hworked) (hworked.sending ▸ hbusy)
      | half hrun hway hsending howed =>
        exact .half hrun (hway.worked hworked) (hworked.sending.trans hsending) howed

theorem unstarted_step (h : hub.Unstarted) (hs : hub.step session limits event = some hub') :
    hub'.Unstarted := by
  by_cases hcall : event.call? = none
  · by_cases hsend : event = .send
    · subst hsend
      obtain ⟨send, rest, -, -, -, -, -, hun⟩ := nextSend_spec hs
      exact hun h
    · exact (worked_step h hs hcall hsend).1
  · cases event with
    | session call => exact (callSession_spec hs).2.2.2 h
    | _ => exact absurd rfl hcall

theorem run_atomic {ms : List (Move Hub HubEvent)}
    (hrun : Run (step session limits) (init session) ms hub) :
    hub.Unstarted ∧ hub.Atomic session (hubCalls ms) := by
  apply hrun.history_invariant (P := fun ms hub => hub.Unstarted ∧ hub.Atomic session (hubCalls ms))
  · have hstart : (init session).Atomic session (worldCalls []) := .free Run.nil rfl
    exact ⟨unstarted_init, hstart⟩
  · intro ns before event after _ h hs
    refine ⟨unstarted_step h.1 hs, ?_⟩
    have hcalls :
        hubCalls (ns ++ [⟨before, event, after⟩]) = hubCalls ns ++ event.call?.toList := by
      cases hcall : event.call? <;> simp [hubCalls, hcall]
    rw [hcalls]
    exact h.2.step h.1 hs

/-- Whenever the lock is free, the session and the queues are as if each operation had been a single
step, in the order in which the operations took the lock. -/
theorem run_linearizes {ms : List (Move Hub HubEvent)}
    (hrun : Run (step session limits) (init session) ms hub) (hfree : hub.sending = []) :
    ∃ ns, Run (World.step session) (World.init session) ns hub.world ∧
      worldCalls ns = hubCalls ms := by
  have hatomic := (run_atomic hrun).2
  generalize hubCalls ms = calls at hatomic ⊢
  cases hatomic with
  | @free ns hworld _ => exact ⟨ns, hworld, rfl⟩
  | busy _ _ hbusy => exact absurd hfree hbusy
  | half _ _ hsending _ =>
    rw [hfree] at hsending
    cases hsending

/-- The write task of one client has written its frame before the other client's is sent. -/
def servedTwice : List HubEvent :=
  [.session (.register (nodeClient 1 "c")), .start ⟨1⟩ 0, .session (.register (nodeClient 3 "c")),
    .start ⟨3⟩ 0, .session (.register (nodeData 2 "c")), .start ⟨2⟩ 0, .receive ⟨2⟩ 1 (.binary [7]),
    .session (.frame (nodeData 2 "c") (.binary [7]) 1), .send, .take ⟨3⟩, .write ⟨3⟩ true, .send,
      .take ⟨1⟩]

theorem run_linearizes_of_servedTwice :
    ∃ ns, Run (World.step nodeSession) (World.init nodeSession) ns
        (outcome (step nodeSession .default) (init nodeSession) servedTwice).world ∧
      worldCalls ns =
        hubCalls (history (step nodeSession .default) (init nodeSession) servedTwice) := by
  have hplay :
      (play (step nodeSession .default) (init nodeSession) servedTwice).isSome =
        true := by decide +kernel
  have hfree :
      (outcome (step nodeSession .default) (init nodeSession) servedTwice).sending =
        [] := by decide +kernel
  exact run_linearizes (Run.of_outcome hplay) hfree

end Hub

end NodeAccess.Relay
