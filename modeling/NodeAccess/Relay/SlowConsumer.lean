import NodeAccess.Relay.PeerQueue

/-! # Slow consumers

The fallback Close of `send_or_close` goes through the queue that has just refused
a message. When that Close finds room, the messages delivered before the first
Close are a prefix of the messages that the session tried to send; when it does
not, a later message can follow the refused one.
-/

namespace NodeAccess.Relay

open Foundation

/-- What the write task has put on the wire before its first Close. -/
def PeerQueue.onWire (q : PeerQueue) : List OutboundMessage :=
  q.chan.taken.takeWhile fun m => !m.isClose

/-- What the queue has let in before its first Close. -/
def PeerQueue.admitted (q : PeerQueue) : List OutboundMessage :=
  q.chan.queued.takeWhile fun m => !m.isClose

/-- Nothing that is sent from now on can reach the wire before a Close. -/
def PeerQueue.Sealed (q : PeerQueue) : Prop :=
  q.owed = true ∨ q.chan.closed = true ∨ ∃ m ∈ q.chan.queued, m.isClose = true

/-- The moves that try a Close of the session. -/
def QueueEvent.triesClose : QueueEvent → Bool
  | .fallback | .close _ _ => true
  | _ => false

/-- A Close that the session tries finds room, unless it no longer matters: the write
task is gone, or an earlier Close is already in the queue. -/
def CloseFindsRoom (m : Move PeerQueue QueueEvent) : Prop :=
  m.event.triesClose = true → m.before.chan.hasRoom = true ∨ m.before.chan.closed = true ∨
    ∃ c ∈ m.before.chan.queued, c.isClose = true

/-- The move in which the queue refuses a message because it is full. -/
def RefusesForFull (m : Move PeerQueue QueueEvent) : Prop :=
  (∃ message, m.event = .message message) ∧ m.before.chan.closed = false ∧
    m.before.chan.hasRoom = false

theorem takeWhile_snoc_of_mem {α : Type*} {p : α → Bool} {l : List α} (a : α)
    (h : ∃ x ∈ l, p x = false) : (l ++ [a]).takeWhile p = l.takeWhile p := by
  rcases h with ⟨x, hx, hp⟩
  rw [List.takeWhile_append, if_neg]
  intro hl
  have hall := List.takeWhile_eq_self_iff.mp ((List.takeWhile_prefix p).eq_of_length hl)
  rw [hall x hx] at hp
  cases hp

theorem takeWhile_prefix_of_prefix {α : Type*} (p : α → Bool) {l m : List α} (h : l <+: m) :
    l.takeWhile p <+: m.takeWhile p := by
  rcases h with ⟨r, rfl⟩
  rw [List.takeWhile_append]
  split
  · rename_i hl
    rw [(List.takeWhile_prefix p).eq_of_length hl]
    exact List.prefix_append _ _
  · exact List.prefix_rfl

theorem trySend_close_admitted (c : Channel OutboundMessage) {m : OutboundMessage}
    (hm : m.isClose = true) :
    (c.trySend m).1.queued.takeWhile (fun m => !m.isClose) =
      c.queued.takeWhile fun m => !m.isClose := by
  rcases c.trySend_cases m with ⟨hc, he⟩ | ⟨hc, hr, he⟩ | ⟨hc, hr, he⟩ <;> rw [he]
  change (c.queued ++ [m]).takeWhile _ = _
  rw [List.takeWhile_append]
  split
  · rename_i hl
    rw [(List.takeWhile_prefix _).eq_of_length hl]
    simp [hm]
  · rfl

theorem trySend_admitted_of_close (c : Channel OutboundMessage) (m : OutboundMessage)
    (h : c.closed = true ∨ ∃ x ∈ c.queued, x.isClose = true) :
    (c.trySend m).1.queued.takeWhile (fun m => !m.isClose) =
        c.queued.takeWhile (fun m => !m.isClose) ∧
      ((c.trySend m).1.closed = true ∨ ∃ x ∈ (c.trySend m).1.queued, x.isClose = true) := by
  rcases c.trySend_cases m with ⟨hc, he⟩ | ⟨hc, hr, he⟩ | ⟨hc, hr, he⟩ <;> rw [he]
  · exact ⟨rfl, h⟩
  · rcases h with h | ⟨x, hx, hp⟩
    · rw [hc] at h
      cases h
    · refine ⟨takeWhile_snoc_of_mem m ⟨x, hx, by simp [hp]⟩, .inr ⟨x, ?_, hp⟩⟩
      exact List.mem_append_left _ hx
  · exact ⟨rfl, h⟩

theorem trySend_close_sealed (c : Channel OutboundMessage) {m : OutboundMessage}
    (hm : m.isClose = true)
    (h : c.hasRoom = true ∨ c.closed = true ∨ ∃ x ∈ c.queued, x.isClose = true) :
    (c.trySend m).1.closed = true ∨ ∃ x ∈ (c.trySend m).1.queued, x.isClose = true := by
  rcases h with h | h
  · rcases c.trySend_cases m with ⟨hc, he⟩ | ⟨hc, hr, he⟩ | ⟨hc, hr, he⟩ <;> rw [he]
    · exact .inl hc
    · exact .inr ⟨m, by simp, hm⟩
    · rw [h] at hr
      cases hr
  · exact (trySend_admitted_of_close c m h).2

theorem sealed_step {q r : PeerQueue} {e : QueueEvent} (hs : q.Sealed) (he : q.step e = some r)
    (hroom : CloseFindsRoom ⟨q, e, r⟩) : r.Sealed ∧ r.admitted = q.admitted := by
  cases e with
  | message m =>
    cases ho : q.owed with
    | true => simp [PeerQueue.step, ho] at he
    | false =>
      obtain rfl : q.tryMessage m = r := by simpa [PeerQueue.step, ho] using he
      have hc := trySend_admitted_of_close q.chan m (by simpa [PeerQueue.Sealed, ho] using hs)
      exact ⟨.inr hc.2, hc.1⟩
  | fallback =>
    cases ho : q.owed with
    | false => simp [PeerQueue.step, ho] at he
    | true =>
      obtain rfl : q.tryFallback = r := by simpa [PeerQueue.step, ho] using he
      exact ⟨.inr (trySend_close_sealed q.chan rfl (hroom rfl)),
        trySend_close_admitted q.chan rfl⟩
  | close code reason =>
    cases ho : q.owed with
    | true => simp [PeerQueue.step, ho] at he
    | false =>
      obtain rfl : q.tryClose code reason = r := by simpa [PeerQueue.step, ho] using he
      exact ⟨.inr (trySend_close_sealed q.chan rfl (hroom rfl)),
        trySend_close_admitted q.chan rfl⟩
  | ownClose code reason =>
    obtain rfl : q.tryOwnClose code reason = r := by simpa [PeerQueue.step] using he
    refine ⟨?_, trySend_close_admitted q.chan rfl⟩
    rcases hs with ho | hc
    · exact .inl ho
    · exact .inr (trySend_admitted_of_close q.chan _ hc).2
  | recv =>
    obtain rfl : q.recv = r := by simpa [PeerQueue.step] using he
    simpa [PeerQueue.Sealed, PeerQueue.recv, PeerQueue.admitted] using hs
  | stop =>
    obtain rfl : q.stop = r := by simpa [PeerQueue.step] using he
    exact ⟨.inr (.inl rfl), rfl⟩

/-- Until it is sealed, a queue has let in exactly what the session tried to send. -/
structure Faithful (q : PeerQueue) : Prop where
  coherent : q.chan.Coherent
  unsealed : ¬ q.Sealed → q.chan.queued = q.tried
  prefix_tried : q.admitted <+: q.tried

theorem admitted_eq_of_not_sealed {q : PeerQueue} (h : ¬ q.Sealed) :
    q.admitted = q.chan.queued := by
  apply List.takeWhile_eq_self_iff.mpr
  intro m hm
  cases hc : m.isClose with
  | false => rfl
  | true => exact absurd (.inr (.inr ⟨m, hm, hc⟩)) h

theorem tried_prefix_step {q r : PeerQueue} {e : QueueEvent} (he : q.step e = some r) :
    q.tried <+: r.tried := by
  cases e <;> simp only [PeerQueue.step, Option.ite_none_left_eq_some,
    Option.ite_none_right_eq_some, Option.some.injEq] at he
  case message => rw [← he.2]; exact List.prefix_append _ _
  case fallback => rw [← he.2]; exact List.prefix_rfl
  case close => rw [← he.2]; exact List.prefix_append _ _
  all_goals rw [← he]; exact List.prefix_rfl

theorem coherent_step {q r : PeerQueue} {e : QueueEvent} (h : q.chan.Coherent)
    (he : q.step e = some r) : r.chan.Coherent := by
  cases e <;> simp only [PeerQueue.step, Option.ite_none_left_eq_some,
    Option.ite_none_right_eq_some, Option.some.injEq] at he
  case message m => rw [← he.2]; exact h.trySend m
  case fallback => rw [← he.2]; exact h.trySend _
  case close => rw [← he.2]; exact h.trySend _
  case ownClose => rw [← he]; exact h.trySend _
  case recv => rw [← he]; exact h.recv
  case stop => rw [← he]; exact h.close

theorem unsealed_step {q r : PeerQueue} {e : QueueEvent} (hs : ¬ q.Sealed)
    (hq : q.chan.queued = q.tried) (he : q.step e = some r) (hroom : CloseFindsRoom ⟨q, e, r⟩) :
    (¬ r.Sealed → r.chan.queued = r.tried) ∧ r.admitted <+: r.tried := by
  have ha : q.admitted = q.tried := (admitted_eq_of_not_sealed hs).trans hq
  have ho : q.owed = false := by
    cases ho : q.owed with
    | false => rfl
    | true => exact absurd (.inl ho) hs
  have hc : q.chan.closed = false := by
    cases hc : q.chan.closed with
    | false => rfl
    | true => exact absurd (.inr (.inl hc)) hs
  cases e with
  | message m =>
    obtain rfl : q.tryMessage m = r := by simpa [PeerQueue.step, ho] using he
    rcases q.chan.trySend_cases m with ⟨hc', -⟩ | ⟨-, hr, hsent⟩ | ⟨-, hr, hfull⟩
    · rw [hc] at hc'
      cases hc'
    · have hqr : (q.tryMessage m).chan.queued = (q.tryMessage m).tried := by
        simp [PeerQueue.tryMessage, hsent, hq]
      exact ⟨fun _ => hqr, hqr ▸ List.takeWhile_prefix _⟩
    · have hor : (q.tryMessage m).owed = true := by simp [PeerQueue.tryMessage, hfull]
      have har : (q.tryMessage m).admitted = q.tried := by
        rw [← ha]
        simp [PeerQueue.admitted, PeerQueue.tryMessage, hfull]
      refine ⟨fun hn => absurd (.inl hor) hn, ?_⟩
      rw [har]
      exact List.prefix_append _ _
  | fallback => simp [PeerQueue.step, ho] at he
  | close code reason =>
    obtain rfl : q.tryClose code reason = r := by simpa [PeerQueue.step, ho] using he
    have hsr := trySend_close_sealed q.chan (m := .close code reason) rfl (hroom rfl)
    refine ⟨fun hn => absurd (.inr hsr) hn, ?_⟩
    have har : (q.tryClose code reason).admitted = q.tried :=
      (trySend_close_admitted q.chan rfl).trans ha
    rw [har]
    exact List.prefix_append _ _
  | ownClose code reason =>
    obtain rfl : q.tryOwnClose code reason = r := by simpa [PeerQueue.step] using he
    have har : (q.tryOwnClose code reason).admitted = q.tried :=
      (trySend_close_admitted q.chan rfl).trans ha
    refine ⟨fun hn => ?_, har ▸ List.prefix_rfl⟩
    rw [← admitted_eq_of_not_sealed hn, har]
    rfl
  | recv =>
    obtain rfl : q.recv = r := by simpa [PeerQueue.step] using he
    refine ⟨fun _ => by simpa [PeerQueue.recv] using hq, ?_⟩
    simp only [PeerQueue.admitted, PeerQueue.recv, Channel.recv_queued]
    rw [hq]
    exact List.takeWhile_prefix _
  | stop =>
    obtain rfl : q.stop = r := by simpa [PeerQueue.step] using he
    exact ⟨fun hn => absurd (.inr (.inl rfl)) hn, ha ▸ List.prefix_rfl⟩

theorem faithful_step {q r : PeerQueue} {e : QueueEvent} (h : Faithful q)
    (he : q.step e = some r) (hroom : CloseFindsRoom ⟨q, e, r⟩) : Faithful r := by
  refine ⟨coherent_step h.coherent he, ?_, ?_⟩ <;> by_cases hs : q.Sealed
  · exact fun hn => absurd (sealed_step hs he hroom).1 hn
  · exact (unsealed_step hs (h.unsealed hs) he hroom).1
  · rw [(sealed_step hs he hroom).2]
    exact h.prefix_tried.trans (tried_prefix_step he)
  · exact (unsealed_step hs (h.unsealed hs) he hroom).2

theorem faithful_new (capacity : ℕ) : Faithful (PeerQueue.new capacity) :=
  ⟨Channel.coherent_new capacity, fun _ => rfl, List.nil_prefix⟩

theorem run_faithful {q r : PeerQueue} {ms : List (Move PeerQueue QueueEvent)}
    (hrun : Run PeerQueue.step q ms r) (h : Faithful q) (hroom : ∀ m ∈ ms, CloseFindsRoom m) :
    Faithful r := by
  induction hrun with
  | nil => exact h
  | snoc hr hs ih =>
    have hm := ih fun m hm => hroom m (List.mem_append_left _ hm)
    exact faithful_step hm hs (hroom _ (by simp))

theorem run_sealed {q r : PeerQueue} {ms : List (Move PeerQueue QueueEvent)}
    (hrun : Run PeerQueue.step q ms r) (h : q.Sealed) (hroom : ∀ m ∈ ms, CloseFindsRoom m) :
    r.Sealed ∧ r.admitted = q.admitted := by
  induction hrun with
  | nil => exact ⟨h, rfl⟩
  | snoc hr hs ih =>
    have hm := ih fun m hm => hroom m (List.mem_append_left _ hm)
    have ht := sealed_step hm.1 hs (hroom _ (by simp))
    exact ⟨ht.1, ht.2.trans hm.2⟩

theorem onWire_prefix_admitted {q : PeerQueue} (h : q.chan.Coherent) : q.onWire <+: q.admitted :=
  takeWhile_prefix_of_prefix _ h.taken_prefix

/-- The write task has written all that the queue was given, which has refused nothing and holds no
Close. -/
structure PeerQueue.Drained (q : PeerQueue) : Prop where
  room : q.chan.refused = false
  running : q.chan.closed = false
  waiting : q.chan.waiting = []
  unclosed : ∀ m ∈ q.chan.queued, m.isClose = false

theorem PeerQueue.Drained.onWire_eq {q : PeerQueue} (h : q.Drained) (hcoherent : q.chan.Coherent) :
    q.onWire = q.chan.queued := by
  have hqueued := hcoherent.queued_eq h.running
  rw [h.waiting, List.append_nil] at hqueued
  rw [PeerQueue.onWire, ← hqueued, List.takeWhile_eq_self_iff]
  intro m hm
  rw [h.unclosed m hm]
  rfl

/-- A check of a queue that finds nothing left in it. -/
def PeerQueue.drained (q : PeerQueue) : Bool :=
  !q.chan.refused && !q.chan.closed && q.chan.waiting = [] && q.chan.queued.all fun m => !m.isClose

theorem PeerQueue.drained_iff {q : PeerQueue} : q.drained = true ↔ q.Drained := by
  simp only [drained, Bool.and_eq_true, decide_eq_true_eq, Bool.not_eq_true', List.all_eq_true]
  constructor
  · rintro ⟨⟨⟨hroom, hrunning⟩, hwaiting⟩, hclose⟩
    exact ⟨hroom, hrunning, hwaiting, hclose⟩
  · intro h
    exact ⟨⟨⟨h.room, h.running⟩, h.waiting⟩, h.unclosed⟩

/-- A slow consumer fails closed: what precedes the first Close on the wire is a prefix
of what the session tried to send, and ends before the first message refused. -/
def FailsClosed (ms : List (Move PeerQueue QueueEvent)) (q : PeerQueue) : Prop :=
  q.onWire <+: q.tried ∧
    ∀ ms₁ m ms₂, ms = ms₁ ++ m :: ms₂ → RefusesForFull m → q.onWire <+: m.before.tried

/-- Every capacity and every schedule in which the session's closes find room. -/
theorem failsClosed_of_closeFindsRoom {capacity : ℕ} {ms : List (Move PeerQueue QueueEvent)}
    {q : PeerQueue} (hrun : Run PeerQueue.step (PeerQueue.new capacity) ms q)
    (hroom : ∀ m ∈ ms, CloseFindsRoom m) : FailsClosed ms q := by
  have hq := run_faithful hrun (faithful_new capacity) hroom
  have hw := onWire_prefix_admitted hq.coherent
  refine ⟨hw.trans hq.prefix_tried, ?_⟩
  rintro ms₁ ⟨before, e, after⟩ ms₂ rfl ⟨⟨message, rfl⟩, hclosed, hfull⟩
  rcases hrun.of_split with ⟨h₁, hs, h₂⟩
  have hb := run_faithful h₁ (faithful_new capacity) fun m hm =>
    hroom m (List.mem_append_left _ hm)
  have ha := faithful_step hb hs (hroom _ (by simp))
  change before.chan.closed = false at hclosed
  change before.chan.hasRoom = false at hfull
  have hadm : after.admitted = before.admitted ∧ after.Sealed := by
    cases ho : before.owed with
    | true => simp [PeerQueue.step, ho] at hs
    | false =>
      obtain rfl : before.tryMessage message = after := by simpa [PeerQueue.step, ho] using hs
      simp [PeerQueue.admitted, PeerQueue.Sealed, PeerQueue.tryMessage, Channel.trySend, hclosed,
        hfull]
  have hend := run_sealed h₂ hadm.2 fun m hm => hroom m (by simp [hm])
  rw [hend.2, hadm.1] at hw
  exact hw.trans hb.prefix_tried

/-- With room for two messages the fallback Close enters the queue and ends the stream. -/
theorem failsClosed_of_closeFindsRoom_at_one :
    FailsClosed
      (history PeerQueue.step (.new 1) [.message (.text "a"), .message (.text "b"), .recv,
        .fallback])
      ⟨⟨1, [PeerQueue.slowConsumer], false, [.text "a", PeerQueue.slowConsumer], [.text "a"], true⟩,
        [.text "a", .text "b"], false⟩ :=
  failsClosed_of_closeFindsRoom (Run.of_play rfl) (by
    intro m hm hc
    simp only [history, PeerQueue.step] at hm
    fin_cases hm <;> cases hc
    exact .inl rfl)

/-- A queue of one message: the second message and its fallback Close are refused, the
write task drains the queue, and the third message follows the first one. -/
theorem failsClosed_fails_when_fallback_refused :
    ∃ q, play PeerQueue.step (.new 1) [.message (.text "a"), .message (.text "b"), .fallback, .recv,
        .message (.text "c"), .recv] = some q ∧ q.onWire = [.text "a", .text "c"] ∧
      ¬ FailsClosed (history PeerQueue.step (.new 1) [.message (.text "a"), .message (.text "b"),
        .fallback, .recv, .message (.text "c"), .recv]) q :=
  ⟨_, rfl, by decide, fun h => absurd h.1 (by decide)⟩

end NodeAccess.Relay
