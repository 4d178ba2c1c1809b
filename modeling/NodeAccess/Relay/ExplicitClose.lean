import NodeAccess.Relay.RunPeer

/-! # The closes of the relay

The relay closes a peer through the peer's queue, which may be full, and the read loop that has
queued its own Close ends the write task, which may not have come to it. A Close is written, after
at most an earlier one, when it finds room and the write task is aborted only after its Close.
-/

namespace NodeAccess.Relay

open Foundation

def OutboundMessage.code : OutboundMessage → Option ℕ
  | .close code _ => some code
  | _ => none

/-- The close that the relay decides on in a step, with its code: the call of `close_handle`
by a session operation, or the read loop's own. -/
def Hub.decision (limits : IngressLimits) (hub : Hub) : HubEvent → Option (PeerId × ℕ)
  | .send =>
    match hub.sending.head? with
    | some (.closeHandle handle code _) => some (handle.peerMeta.peerId, code)
    | _ => none
  | .idle peerId => some (peerId, 1001)
  | .receive peerId now message =>
    match (receive limits (hub.peer peerId).window now message).2 with
    | .close code _ => some (peerId, code)
    | _ => none
  | _ => none

/-- A write has failed, or a Close is on its way to the websocket, or there already: one with this
code, or one that was on its way before. -/
def PeerTask.Answered (t before : PeerTask) (code : ℕ) : Prop :=
  t.writer = .failed ∨
    ∃ c ∈ t.outgoing, c.code = some code ∨ c.isClose = true ∧ c ∈ before.outgoing

instance (t before : PeerTask) (code : ℕ) : Decidable (t.Answered before code) :=
  inferInstanceAs (Decidable (_ ∨ ∃ c ∈ t.outgoing, _))

/-- Every close that the relay has decided on in a run. -/
def Hub.AllAnswered (limits : IngressLimits) (ms : List (Move Hub HubEvent)) (hub : Hub) : Prop :=
  ∀ ms₁ m ms₂ p k, ms = ms₁ ++ m :: ms₂ → m.before.decision limits m.event = some (p, k) →
    (hub.peer p).Answered (m.before.peer p) k

/-- Whatever a session operation of the run had to send has been tried, or is about to be. -/
def Hub.AllTried (ms : List (Move Hub HubEvent)) (hub : Hub) : Prop :=
  ∀ ms₁ m ms₂ event send, ms = ms₁ ++ m :: ms₂ → m.event = .session event → send ∈ m.after.sending →
    send ∈ hub.sending ∨ ∃ m' ∈ ms₂, m'.event = .send ∧ m'.before.sending.head? = some send

def HubEvent.aborts : HubEvent → Option PeerId
  | .abort peerId => some peerId
  | _ => none

/-- What the queue has let in from the first Close on. -/
def PeerTask.sinceClose (t : PeerTask) : List OutboundMessage :=
  t.queue.chan.queued.dropWhile fun message => !message.isClose

/-- A Close finds room in the queue, unless a write has failed or a Close is on its way before it;
and the write task of a peer that is to be closed is aborted only when it has come past the first
Close in its queue. -/
structure Unhindered (limits : IngressLimits) (move : Move Hub HubEvent) : Prop where
  room : ∀ d ∈ move.before.decision limits move.event,
    let t := move.before.peer d.1
    t.queue.chan.closed = false ∧ t.queue.chan.hasRoom = true ∨ t.writer = .failed ∨
      ∃ c ∈ t.outgoing, c.isClose = true
  drained : ∀ peerId ∈ move.event.aborts,
    let t := move.before.peer peerId
    t.decided ≠ [] → t.sinceClose ≠ [] → t.left.length < t.sinceClose.length

instance (limits : IngressLimits) : DecidablePred (Unhindered limits) := fun _ =>
  decidable_of_iff (_ ∧ _) ⟨fun h => ⟨h.1, h.2⟩, fun h => ⟨h.room, h.drained⟩⟩

namespace PeerTask

def firstClose (t : PeerTask) : Option OutboundMessage := t.outgoing.find? OutboundMessage.isClose

/-- A write task that has ended has dropped its queue. -/
def Ended (t : PeerTask) : Prop :=
  t.writer = .failed ∨ t.writer = .aborted → t.queue.chan.closed = true

variable {t t' : PeerTask} {c : OutboundMessage} {code : ℕ}

theorem find_grows {l m : List OutboundMessage} (h : l <+: m)
    (hc : l.find? OutboundMessage.isClose = some c) : m.find? OutboundMessage.isClose = some c := by
  obtain ⟨rest, rfl⟩ := h
  rw [List.find?_append, hc, Option.some_or]

theorem Ended.keeps (h : t.Ended) (hkeeps : t.Keeps t') : t'.Ended := by
  intro hend
  rcases hkeeps.closed hend with hclosed | ⟨hwriter, hclosed⟩
  · exact hclosed
  · rw [hwriter] at hend
    rw [hclosed, h hend]

/-- The peer is to be closed, and this is the first Close to go out, unless a write has failed. -/
structure Closing (t : PeerTask) (c : OutboundMessage) : Prop where
  decided : t.decided ≠ []
  first : t.writer = .failed ∨ t.firstClose = some c

theorem decided_keeps (hkeeps : t.Keeps t') (h : t.decided ≠ []) : t'.decided ≠ [] := by
  intro hnil
  apply h
  apply List.prefix_nil.mp
  rw [← hnil]
  exact hkeeps.decided

theorem Closing.keeps (h : t.Closing c) (hkeeps : t.Keeps t') : t'.Closing c := by
  refine ⟨decided_keeps hkeeps h.decided, ?_⟩
  rcases h.first with hfailed | hfirst
  · exact .inl (hkeeps.failed hfailed)
  · exact hkeeps.outgoing.imp_right fun hprefix => find_grows hprefix hfirst

theorem written_prefix_outgoing (t : PeerTask) : t.written <+: t.outgoing := List.prefix_append _ _

theorem close_written (h : t.outgoing = t.queue.chan.queued)
    (hpast : t.left.length < t.sinceClose.length) : ∃ c ∈ t.written, c.isClose = true := by
  by_contra hnone
  push Not at hnone
  have hsince : t.sinceClose = t.left.dropWhile fun message => !message.isClose := by
    rw [sinceClose, ← h, outgoing]
    apply List.dropWhile_append_of_pos
    intro c hc
    simpa using hnone c hc
  rw [hsince] at hpast
  exact absurd (List.length_dropWhile_le _ _) (not_le.mpr hpast)

theorem Closing.abort (h : t.Closing c) (hfaithful : t.Faithful) (habort : t.abort = some t')
    (hpast : t.sinceClose ≠ [] → t.left.length < t.sinceClose.length) : t'.Closing c := by
  obtain ⟨-, houtgoing, -, hdecided, hrunning⟩ := abort_spec habort
  have hqueued : t.outgoing = t.queue.chan.queued := by
    rcases hfaithful with hfailed | haborted | hqueued
    · exact absurd hfailed hrunning
    · simp [PeerTask.abort, haborted] at habort
    · exact hqueued
  have hfirst := h.first.resolve_left hrunning
  have hsince : t.sinceClose ≠ [] := by
    intro hnil
    rw [sinceClose, List.dropWhile_eq_nil_iff, ← hqueued] at hnil
    have hopen := hnil c (List.mem_of_find?_eq_some hfirst)
    rw [show c.isClose = true from List.find?_some hfirst] at hopen
    cases hopen
  obtain ⟨d, hd⟩ := Option.isSome_iff_exists.mp
    (List.find?_isSome.mpr (close_written hqueued (hpast hsince)))
  have hsame := (find_grows t.written_prefix_outgoing hd).symm.trans hfirst
  refine ⟨hdecided ▸ h.decided, .inr ?_⟩
  rw [firstClose, houtgoing, hd, hsame]

theorem outgoing_of_sent {message : OutboundMessage} (hended : t.Ended)
    (hopen : t.queue.chan.closed = false) (hroom : t.queue.chan.hasRoom = true)
    (hwriter : t'.writer = t.writer) (hwritten : t'.written = t.written)
    (hchan : t'.queue.chan = (t.queue.chan.trySend message).1) :
    t'.outgoing = t.outgoing ++ [message] := by
  have hwaiting : t'.queue.chan.waiting = t.queue.chan.waiting ++ [message] := by
    simp [hchan, Channel.trySend, hopen, hroom]
  have hrunning : ¬ (t.writer = .failed ∨ t.writer = .aborted) := by
    intro hend
    rw [hended hend] at hopen
    cases hopen
  simp only [PeerTask.outgoing, PeerTask.left, hwriter, hwritten, hwaiting]
  cases hw : t.writer with
  | unspawned => simp
  | idle => simp
  | sending message => simp
  | failed => exact absurd (.inl hw) hrunning
  | aborted => exact absurd (.inr hw) hrunning

end PeerTask

namespace Hub

variable {session : RelaySession} {limits : IngressLimits} {hub hub' : Hub} {event : HubEvent}
  {peerId : PeerId} {code : ℕ}

theorem decision_spec (hdecision : hub.decision limits event = some (peerId, code))
    (h : hub.step session limits event = some hub') :
    ∃ reason, (hub'.peer peerId).queue.chan =
        ((hub.peer peerId).queue.chan.trySend (.close code reason)).1 ∧
      (hub'.peer peerId).writer = (hub.peer peerId).writer ∧
      (hub'.peer peerId).written = (hub.peer peerId).written ∧
      (hub'.peer peerId).decided = (hub.peer peerId).decided ++ [code] := by
  cases event with
  | send =>
    simp only [step, nextSend] at h
    cases hsending : hub.sending with
    | nil => simp [hsending] at h
    | cons send rest =>
      cases send with
      | sendOrClose handle message => simp [decision, hsending] at hdecision
      | closeHandle handle code' reason =>
        simp only [decision, hsending, List.head?_cons, Option.some.injEq,
          Prod.mk.injEq] at hdecision
        obtain ⟨rfl, rfl⟩ := hdecision
        simp only [hsending, Option.some.injEq] at h
        rw [← h]
        exact ⟨reason, by
          simp [setPeer, Send.target, PeerTask.attempt, Send.attempt, Send.closeCode,
            PeerQueue.tryClose]⟩
  | idle p =>
    simp only [decision, Option.some.injEq, Prod.mk.injEq] at hdecision
    obtain ⟨rfl, rfl⟩ := hdecision
    simp only [step] at h
    split_ifs at h
    obtain ⟨task, htask, rfl⟩ := Option.map_eq_some_iff.mp h
    rw [PeerTask.idleTimeout] at htask
    split_ifs at htask
    rw [← Option.some.inj htask]
    exact ⟨"Idle timeout", by simp [setPeer, PeerTask.ownClose, PeerQueue.tryOwnClose]⟩
  | receive p now message =>
    simp only [decision] at hdecision
    cases hanswer : (receive limits (hub.peer p).window now message).2 with
    | close code' reason =>
      simp only [hanswer, Option.some.injEq, Prod.mk.injEq] at hdecision
      obtain ⟨rfl, rfl⟩ := hdecision
      simp only [step] at h
      split_ifs at h
      obtain ⟨task, htask, rfl⟩ := Option.map_eq_some_iff.mp h
      simp only [PeerTask.receive, hanswer] at htask
      split_ifs at htask
      rw [← Option.some.inj htask]
      exact ⟨reason, by simp [setPeer, PeerTask.ownClose, PeerQueue.tryOwnClose]⟩
    | _ => simp [hanswer] at hdecision
  | _ => simp [decision] at hdecision

theorem ended_of_run {ms : List (Move Hub HubEvent)}
    (hrun : Run (Hub.step session limits) (.init session) ms hub) (p : PeerId) :
    (hub.peer p).Ended := by
  apply hrun.invariant (P := fun h => (h.peer p).Ended)
  · rintro (h | h) <;> cases h
  · intro u e v hu hs
    rcases step_keeps hs p with hkeeps | ⟨-, habort⟩
    · exact hu.keeps hkeeps
    · exact fun _ => (PeerTask.abort_spec habort).2.2.1

theorem faithful_of_run {ms : List (Move Hub HubEvent)}
    (hrun : Run (Hub.step session limits) (.init session) ms hub) (p : PeerId) :
    (hub.peer p).Faithful := by
  apply hrun.invariant (P := fun h => (h.peer p).Faithful) (.inr (.inr rfl))
  intro u e v hu hs
  rcases step_keeps hs p with hkeeps | ⟨-, habort⟩
  · exact hkeeps.faithful hu
  · exact .inr (.inl (PeerTask.abort_spec habort).1)

theorem decision_answered (hended : (hub.peer peerId).Ended)
    (hstep : hub.step session limits event = some hub') (hun : Unhindered limits ⟨hub, event, hub'⟩)
    (hdecision : hub.decision limits event = some (peerId, code)) :
    (hub'.peer peerId).writer = .failed ∨ ∃ c, (hub'.peer peerId).Closing c ∧
      (c.code = some code ∨ c ∈ (hub.peer peerId).outgoing) := by
  have hkeeps : (hub.peer peerId).Keeps (hub'.peer peerId) := by
    apply (step_keeps hstep peerId).resolve_right
    rintro ⟨rfl, -⟩
    cases hdecision
  obtain ⟨reason, hchan, hwriter, hwritten, hdecided⟩ := decision_spec hdecision hstep
  have hto : (hub'.peer peerId).decided ≠ [] := by simp [hdecided]
  rcases hun.room (peerId, code) hdecision with ⟨hopen, hroom⟩ | hfailed | hclose
  · have houtgoing := PeerTask.outgoing_of_sent hended hopen hroom hwriter hwritten hchan
    right
    cases hfind : (hub.peer peerId).outgoing.find? OutboundMessage.isClose with
    | some c =>
      have hfirst : (hub'.peer peerId).firstClose = some c := by
        rw [PeerTask.firstClose, houtgoing, List.find?_append, hfind, Option.some_or]
      exact ⟨c, ⟨hto, .inr hfirst⟩, .inr (List.mem_of_find?_eq_some hfind)⟩
    | none =>
      have hfirst : (hub'.peer peerId).firstClose = some (.close code reason) := by
        rw [PeerTask.firstClose, houtgoing, List.find?_append, hfind, Option.none_or]
        rfl
      exact ⟨_, ⟨hto, .inr hfirst⟩, .inl rfl⟩
  · exact .inl (hkeeps.failed hfailed)
  · obtain ⟨c, hc⟩ := Option.isSome_iff_exists.mp (List.find?_isSome.mpr hclose)
    rcases hkeeps.outgoing with hfailed | hprefix
    · exact .inl hfailed
    · exact .inr ⟨c, ⟨hto, .inr (PeerTask.find_grows hprefix hc)⟩,
        .inr (List.mem_of_find?_eq_some hc)⟩

theorem closing_of_run {ms₁ ms₂ : List (Move Hub HubEvent)} {c : OutboundMessage}
    (hbefore : Run (Hub.step session limits) (.init session) ms₁ hub)
    (hrun : Run (Hub.step session limits) hub ms₂ hub') (hun : ∀ m ∈ ms₂, Unhindered limits m)
    (h : (hub.peer peerId).Closing c) : (hub'.peer peerId).Closing c := by
  apply hrun.guarded (P := fun h => (h.peer peerId).Closing c) hun h
  intro ns u e v hr hu hs hc
  rcases step_keeps hs peerId with hkeeps | ⟨rfl, habort⟩
  · exact hu.keeps hkeeps
  · exact hu.abort (faithful_of_run (hbefore.trans hr) peerId) habort
      (hc.drained peerId rfl hu.decided)

theorem failed_of_run {ms : List (Move Hub HubEvent)}
    (hrun : Run (Hub.step session limits) hub ms hub') (h : (hub.peer peerId).writer = .failed) :
    (hub'.peer peerId).writer = .failed := by
  apply hrun.invariant (P := fun h => (h.peer peerId).writer = .failed) h
  intro u e v hu hs
  rcases step_keeps hs peerId with hkeeps | ⟨-, habort⟩
  · exact hkeeps.failed hu
  · exact absurd hu (PeerTask.abort_spec habort).2.2.2.2

/-- While an operation has something to send, the lock is not free, and only its next send
changes what it has to send. -/
theorem sending_of_step {first : Send} {rest : List Send} (hsending : hub.sending = first :: rest)
    (h : hub.step session limits event = some hub') :
    hub'.sending = hub.sending ∨ event = .send ∧ hub'.sending = rest := by
  cases event with
  | session event => simp [step, callSession, hsending] at h
  | send =>
    simp only [step, nextSend, hsending, Option.some.injEq] at h
    rw [← h, hsending]
    dsimp only
    split_ifs
    · exact .inr ⟨rfl, rfl⟩
    · exact .inl rfl
  | start | idle | receive | abort =>
    simp only [step] at h
    split_ifs at h
    obtain ⟨task, -, rfl⟩ := Option.map_eq_some_iff.mp h
    exact .inl rfl
  | take | write =>
    obtain ⟨task, -, rfl⟩ := Option.map_eq_some_iff.mp h
    exact .inl rfl

theorem sent_of_run {ms : List (Move Hub HubEvent)} {send : Send}
    (hrun : Run (Hub.step session limits) hub ms hub') (h : send ∈ hub.sending) :
    send ∈ hub'.sending ∨ ∃ m ∈ ms, m.event = .send ∧ m.before.sending.head? = some send := by
  apply hrun.history_invariant
    (P := fun ms u => send ∈ u.sending ∨ ∃ m ∈ ms, m.event = .send ∧
      m.before.sending.head? = some send)
    (.inl h)
  intro ns u e v _ hu hs
  rcases hu with hu | ⟨m, hm, hsent⟩
  · cases hsending : u.sending with
    | nil => simp [hsending] at hu
    | cons first rest =>
      rcases sending_of_step hsending hs with hsame | ⟨rfl, hrest⟩
      · exact .inl (hsame ▸ hu)
      · rw [hsending] at hu
        rcases List.mem_cons.mp hu with rfl | hu
        · exact .inr ⟨⟨u, .send, v⟩, by simp, rfl, by simp [hsending]⟩
        · exact .inl (hrest ▸ hu)
  · exact .inr ⟨m, List.mem_append_left _ hm, hsent⟩

/-- A control is replaced while its first message waits, gets its Close, and leaves. -/
def replacedControl : List HubEvent :=
  [.session (.register (nodeControl 1)), .send, .start ⟨1⟩ 0, .session (.register (nodeControl 2)),
    .send, .send, .take ⟨1⟩, .write ⟨1⟩ true, .take ⟨1⟩, .write ⟨1⟩ true, .receive ⟨1⟩ 5 .close,
    .session (.unregister (nodeControl 1)), .abort ⟨1⟩]

end Hub

end NodeAccess.Relay
