import NodeAccess.Foundation.FixedWindow
import NodeAccess.Relay.RunPeer

/-! # The rate limiter of the read loop

A window restarts at the first message after its end. Every message that passes is stamped with the
window that counts it. Times and the window's length are in any common unit.
-/

namespace NodeAccess.Relay

open Foundation

def rateLimited : Answer := .close 1008 "Rate limit exceeded"

/-- The read loop goes on to the next message. -/
def Answer.goesOn : Answer → Bool
  | .handleFrame _ | .handlePing _ | .ignore => true
  | .close _ _ | .leave => false

/-- The messages that have passed the limiter, and the answer that has ended the loop. -/
structure ReadLoop where
  passed : List (Stamp ℕ)
  window : RateWindow
  ending : Option Answer

/-- The read loop on what a socket receives, with the time that the clock shows for each. -/
def readLoop (limits : IngressLimits) (window : RateWindow) : List (ℕ × Received) → ReadLoop
  | [] => ⟨[], window, none⟩
  | (now, message) :: rest =>
    let r := receive limits window now message
    let passed := if message = .ended ∨ r.2 = rateLimited then [] else [⟨r.1.startedAt, now⟩]
    if r.2.goesOn then
      let next := readLoop limits r.1 rest
      { next with passed := passed ++ next.passed }
    else ⟨passed, r.1, some r.2⟩

/-- The times of the messages; the end of the stream is none. -/
def messageTimes (received : List (ℕ × Received)) : List ℕ :=
  (received.filter fun r => r.2 ≠ .ended).map Prod.fst

variable {limits : IngressLimits} {window : RateWindow} {now : ℕ} {message : Received}

/-! ## One message -/

theorem RateWindow.count_spec (hW : 0 < limits.rateLimitWindow) (hstart : window.startedAt ≤ now) :
    ((window.count limits now).startedAt ≤ now ∧
        now < (window.count limits now).startedAt + limits.rateLimitWindow) ∧
      (((window.count limits now).startedAt = window.startedAt ∧
          (window.count limits now).messages = window.messages + 1) ∨
        (window.startedAt + limits.rateLimitWindow ≤ (window.count limits now).startedAt ∧
          (window.count limits now).messages = 1)) := by
  by_cases h : limits.rateLimitWindow ≤ now - window.startedAt
  · have hnew : window.count limits now = ⟨now, 1⟩ := by simp only [count, h, if_true, Nat.zero_add]
    rw [hnew]
    exact ⟨⟨le_rfl, Nat.lt_add_of_pos_right hW⟩, .inr ⟨Nat.add_le_of_le_sub' hstart h, rfl⟩⟩
  · have hsame : window.count limits now = ⟨window.startedAt, window.messages + 1⟩ := by
      simp only [count, h, if_false]
    have hin : now < window.startedAt + limits.rateLimitWindow := by omega
    rw [hsame]
    exact ⟨⟨hstart, hin⟩, .inl ⟨rfl, rfl⟩⟩

theorem receive_of_ne_ended (h : message ≠ .ended) :
    (receive limits window now message).1 = window.count limits now ∧
      ((receive limits window now message).2 = rateLimited ↔
        limits.maxMessagesPerWindow < (window.count limits now).messages) := by
  simp only [receive, h, if_false]
  split_ifs with hlimit
  · simp [rateLimited, hlimit]
  · constructor
    · rfl
    · simp only [hlimit, iff_false]
      have hframe : ∀ size frame, answerFrame limits size frame ≠ rateLimited := by
        intro size frame
        unfold answerFrame
        split_ifs <;> simp [rateLimited]
      cases message with
      | text text => exact hframe _ _
      | binary bytes => exact hframe _ _
      | ping payload => exact Answer.noConfusion
      | pong => exact Answer.noConfusion
      | close => exact Answer.noConfusion
      | error => exact Answer.noConfusion
      | ended => exact absurd rfl h

/-- The stream has ended, the limiter closes the socket, or the message passes and is followed by
the rest of the loop or by nothing. -/
theorem readLoop_cons (limits : IngressLimits) (window : RateWindow) (now : ℕ) (message : Received)
    (rest : List (ℕ × Received)) :
    (message = .ended ∧
        readLoop limits window ((now, message) :: rest) = ⟨[], window, some .leave⟩) ∨
      (message ≠ .ended ∧ limits.maxMessagesPerWindow < (window.count limits now).messages ∧
        readLoop limits window ((now, message) :: rest) =
          ⟨[], window.count limits now, some rateLimited⟩) ∨
      (message ≠ .ended ∧ (window.count limits now).messages ≤ limits.maxMessagesPerWindow ∧
        ∃ next, (next = readLoop limits (window.count limits now) rest ∨
            ∃ answer, answer ≠ rateLimited ∧ next = ⟨[], window.count limits now, some answer⟩) ∧
          readLoop limits window ((now, message) :: rest) =
            { next with passed := ⟨(window.count limits now).startedAt, now⟩ :: next.passed }) := by
  by_cases hended : message = .ended
  · left
    subst hended
    exact ⟨rfl, rfl⟩
  · right
    have hreceive : (receive limits window now message).1 = window.count limits now ∧
        ((receive limits window now message).2 = rateLimited ↔
          limits.maxMessagesPerWindow < (window.count limits now).messages) :=
      receive_of_ne_ended hended
    obtain ⟨hwindow, hlimited⟩ := hreceive
    rw [readLoop]
    by_cases hover : limits.maxMessagesPerWindow < (window.count limits now).messages
    · left
      have hanswer := hlimited.mpr hover
      refine ⟨hended, hover, ?_⟩
      simp only [hwindow, hanswer, hended, or_true, if_true]
      rfl
    · right
      have hanswer := mt hlimited.mp hover
      refine ⟨hended, not_lt.mp hover, ?_⟩
      simp only [hwindow, hanswer, hended, or_self, if_false]
      by_cases hgoes : (receive limits window now message).2.goesOn = true
      · simp only [hgoes, if_true]
        exact ⟨_, .inl rfl, rfl⟩
      · simp only [hgoes]
        exact ⟨_, .inr ⟨_, hanswer, rfl⟩, rfl⟩

theorem messageTimes_cons (h : message ≠ .ended) (rest : List (ℕ × Received)) :
    messageTimes ((now, message) :: rest) = now :: messageTimes rest := by
  simp [messageTimes, h]

/-! ## Soundness -/

/-- What the messages that pass from a window on look like. -/
structure Counted (limits : IngressLimits) (window : RateWindow) (passed : List (Stamp ℕ)) :
    Prop where
  spread : Spread limits.rateLimitWindow limits.maxMessagesPerWindow passed
  later : ∀ s ∈ passed, s.window = window.startedAt ∨
    window.startedAt + limits.rateLimitWindow ≤ s.window
  room : (passed.countP fun s => s.window = window.startedAt) + window.messages ≤
    limits.maxMessagesPerWindow

theorem Counted.nil (h : window.messages ≤ limits.maxMessagesPerWindow) :
    Counted limits window [] := by
  constructor
  · constructor <;> simp
  · simp
  · simpa using h

theorem Counted.cons {passed : List (Stamp ℕ)} (hW : 0 < limits.rateLimitWindow)
    (hstart : window.startedAt ≤ now) (hroom : window.messages ≤ limits.maxMessagesPerWindow)
    (h : Counted limits (window.count limits now) passed) :
    Counted limits window (⟨(window.count limits now).startedAt, now⟩ :: passed) := by
  obtain ⟨hin, hcount⟩ := window.count_spec hW hstart
  have hmessages : 1 ≤ (window.count limits now).messages := by omega
  have hcounted := h.room
  generalize window.count limits now = next at *
  constructor
  · constructor
    · intro s hs
      rcases List.mem_cons.mp hs with rfl | hs
      · exact hin
      · exact h.spread.inside s hs
    · intro s hs t ht hlt
      rcases List.mem_cons.mp hs with rfl | hs <;> rcases List.mem_cons.mp ht with rfl | ht
      · exact absurd hlt (lt_irrefl _)
      · have hlater := h.later t ht
        dsimp only at hlt ⊢
        omega
      · have hlater := h.later s hs
        dsimp only at hlt ⊢
        omega
      · exact h.spread.apart s hs t ht hlt
    · intro w
      have hbounded := h.spread.bounded w
      rw [List.countP_cons]
      by_cases hw : next.startedAt = w
      · subst hw
        simp only [decide_true, if_true]
        omega
      · simpa only [hw, decide_false, Bool.false_eq_true, if_false, Nat.add_zero] using hbounded
  · intro s hs
    rcases List.mem_cons.mp hs with rfl | hs
    · dsimp only
      omega
    · have hlater := h.later s hs
      omega
  · rcases hcount with ⟨hsame, hnext⟩ | ⟨hnew, -⟩
    · rw [hsame] at hcounted ⊢
      rw [List.countP_cons]
      simp only [decide_true, if_true]
      omega
    · have hzero : ((⟨next.startedAt, now⟩ :: passed).countP fun s : Stamp ℕ =>
          s.window = window.startedAt) = 0 := by
        rw [List.countP_eq_zero]
        intro s hs
        rw [decide_eq_true_eq]
        rcases List.mem_cons.mp hs with rfl | hs
        · dsimp only
          omega
        · have hlater := h.later s hs
          omega
      omega

theorem pairwise_count {times : List ℕ} (hW : 0 < limits.rateLimitWindow)
    (h : (window.startedAt :: now :: times).Pairwise (· ≤ ·)) :
    window.startedAt ≤ now ∧ ((window.count limits now).startedAt :: times).Pairwise (· ≤ ·) := by
  rw [List.pairwise_cons, List.pairwise_cons] at h
  have hstart := h.1 now List.mem_cons_self
  refine ⟨hstart, ?_⟩
  rw [List.pairwise_cons]
  refine ⟨?_, h.2.2⟩
  intro time ht
  exact (window.count_spec hW hstart).1.1.trans (h.2.1 time ht)

theorem counted_readLoop {received : List (ℕ × Received)} (hW : 0 < limits.rateLimitWindow)
    (hroom : window.messages ≤ limits.maxMessagesPerWindow)
    (hsorted : (window.startedAt :: received.map Prod.fst).Pairwise (· ≤ ·)) :
    Counted limits window (readLoop limits window received).passed := by
  induction received generalizing window with
  | nil => exact Counted.nil hroom
  | cons r rest ih =>
    rcases r with ⟨now, message⟩
    obtain ⟨hstart, hrest⟩ := pairwise_count hW hsorted
    rcases readLoop_cons limits window now message rest with
      ⟨-, hloop⟩ | ⟨-, -, hloop⟩ | ⟨-, hle, next, hnext, hloop⟩
    · rw [hloop]
      exact Counted.nil hroom
    · rw [hloop]
      exact Counted.nil hroom
    · rw [hloop]
      apply Counted.cons hW hstart hroom
      rcases hnext with rfl | ⟨answer, -, rfl⟩
      · exact ih hle hrest
      · exact Counted.nil hle

/-! ## Fairness -/

/-- An interval of the window's length with more messages than the limit. -/
def Crowded (limits : IngressLimits) (times : List ℕ) : Prop :=
  ∃ start, limits.maxMessagesPerWindow <
    times.countP fun time => InInterval limits.rateLimitWindow start time

theorem Crowded.cons {times : List ℕ} (h : Crowded limits times) (now : ℕ) :
    Crowded limits (now :: times) := by
  obtain ⟨start, hlt⟩ := h
  refine ⟨start, hlt.trans_le ?_⟩
  rw [List.countP_cons]
  omega

/-- When the limiter closes a socket, the messages of one window were too many: those that the
loop had counted in it before, or those of a later one. -/
theorem crowded_of_rateLimited {received : List (ℕ × Received)} (hW : 0 < limits.rateLimitWindow)
    (hsorted : (window.startedAt :: received.map Prod.fst).Pairwise (· ≤ ·))
    (h : (readLoop limits window received).ending = some rateLimited) :
    (limits.maxMessagesPerWindow < window.messages + (messageTimes received).countP fun time =>
        InInterval limits.rateLimitWindow window.startedAt time) ∨
      Crowded limits (messageTimes received) := by
  induction received generalizing window with
  | nil => simp [readLoop] at h
  | cons r rest ih =>
    rcases r with ⟨now, message⟩
    obtain ⟨hstart, hrest⟩ := pairwise_count hW hsorted
    obtain ⟨hin, hcount⟩ := window.count_spec hW hstart
    have hcase : (limits.maxMessagesPerWindow < (window.count limits now).messages +
        (messageTimes rest).countP fun time =>
          InInterval limits.rateLimitWindow (window.count limits now).startedAt time) ∨
        Crowded limits (messageTimes rest) := by
      rcases readLoop_cons limits window now message rest with
        ⟨-, hloop⟩ | ⟨-, hover, -⟩ | ⟨-, -, next, hnext, hloop⟩
      · rw [hloop] at h
        cases h
      · left
        omega
      · rw [hloop] at h
        rcases hnext with rfl | ⟨answer, hne, rfl⟩
        · exact ih hrest h
        · exact absurd (Option.some.inj h) hne
    have hmessage : message ≠ .ended := by
      rintro rfl
      cases h
    rw [messageTimes_cons hmessage]
    rcases hcase with hlt | hcrowded
    · generalize window.count limits now = next at *
      have hself : ((now :: messageTimes rest).countP fun time =>
          InInterval limits.rateLimitWindow next.startedAt time) =
            ((messageTimes rest).countP fun time =>
              InInterval limits.rateLimitWindow next.startedAt time) + 1 :=
        List.countP_cons_of_pos (decide_eq_true hin)
      rcases hcount with ⟨hsame, hnext⟩ | ⟨-, hnext⟩
      · left
        rw [hsame] at hself hlt
        omega
      · right
        exact ⟨next.startedAt, by omega⟩
    · exact .inr (hcrowded.cons now)

/-- The limiter lets no window count more than the limit and no interval of its length more than
twice the limit; and it closes no socket that keeps to the limit in every such interval. -/
theorem readLoop_rate (limits : IngressLimits) (hW : 0 < limits.rateLimitWindow) (start : ℕ)
    (received : List (ℕ × Received))
    (hsorted : (start :: received.map Prod.fst).Pairwise (· ≤ ·)) :
    Spread limits.rateLimitWindow limits.maxMessagesPerWindow
        (readLoop limits ⟨start, 0⟩ received).passed ∧
      (∀ a, ((readLoop limits ⟨start, 0⟩ received).passed.countP fun s =>
          InInterval limits.rateLimitWindow a s.time) ≤ 2 * limits.maxMessagesPerWindow) ∧
      ((∀ a, ((messageTimes received).countP fun time => InInterval limits.rateLimitWindow a time) ≤
          limits.maxMessagesPerWindow) →
        (readLoop limits ⟨start, 0⟩ received).ending ≠ some rateLimited) := by
  have hcounted : Counted limits ⟨start, 0⟩ (readLoop limits ⟨start, 0⟩ received).passed :=
    counted_readLoop hW (Nat.zero_le _) hsorted
  have hspread := hcounted.spread
  refine ⟨hspread, hspread.countP_interval_le, ?_⟩
  intro hcalm h
  have hcrowded : limits.maxMessagesPerWindow < 0 + (messageTimes received).countP
      (fun time => InInterval limits.rateLimitWindow start time) ∨
        Crowded limits (messageTimes received) :=
    crowded_of_rateLimited hW hsorted h
  rcases hcrowded with hlt | ⟨a, hlt⟩
  · have hle := hcalm start
    omega
  · have hle := hcalm a
    omega

/-- Two messages in the first window and one just after it. -/
theorem readLoop_rate_of_threeMessages :
    (readLoop ⟨1024, 2, 10⟩ ⟨0, 0⟩ [(3, .pong), (4, .pong), (13, .pong)]).ending ≠
      some rateLimited := by
  have hsorted : (0 :: ([(3, .pong), (4, .pong), (13, .pong)] : List (ℕ × Received)).map
      Prod.fst).Pairwise (· ≤ ·) := by decide
  apply (readLoop_rate ⟨1024, 2, 10⟩ (by decide) 0 _ hsorted).2.2
  intro a
  have htimes : messageTimes [(3, .pong), (4, .pong), (13, .pong)] = [3, 4, 13] := rfl
  rw [htimes]
  rcases le_or_gt a 3 with h | h
  · have hlast : ([13].countP fun time => InInterval 10 a time) = 0 := by
      simp only [List.countP_eq_zero, List.mem_singleton, forall_eq, decide_eq_true_eq]
      intro hin
      have hlt := hin.2
      omega
    have hfirst : ([3, 4].countP fun time => InInterval 10 a time) ≤ 2 := List.countP_le_length
    change (([3, 4] ++ [13]).countP fun time => InInterval 10 a time) ≤ 2
    rw [List.countP_append, hlast]
    exact hfirst
  · have hout : ¬ InInterval 10 a 3 := fun hin => absurd hin.1 (not_le.mpr h)
    rw [List.countP_cons_of_neg (by simpa using hout)]
    exact List.countP_le_length

/-! ## The read loop in a session -/

/-- The read loop has not been left. -/
def Reader.Reads (reader : Reader) : Prop := reader = .receiving ∨
    ∃ answer, reader = .handling answer

/-- A change of a peer that its limiter does not see. -/
structure PeerTask.Aside (t t' : PeerTask) : Prop where
  window : t'.window = t.window
  reads : t'.reader.Reads → t.reader.Reads
  outside : t'.reader = .outside ↔ t.reader = .outside

theorem PeerTask.aside_of_eq {t t' : PeerTask} (hwindow : t'.window = t.window)
    (hreader : t'.reader = t.reader) : t.Aside t' := by
  constructor
  · exact hwindow
  · rw [hreader]
    exact id
  · rw [hreader]

theorem PeerTask.aside_idleTimeout {t t' : PeerTask} (h : t.idleTimeout = some t') :
    t.Aside t' := by
  rw [idleTimeout] at h
  split_ifs at h with hreader
  obtain rfl := Option.some.inj h
  constructor
  · rfl
  · intro _
    exact .inl hreader
  · simp [ownClose, hreader]

theorem PeerTask.aside_take {t t' : PeerTask} (h : t.take = some t') : t.Aside t' := by
  rw [take] at h
  split at h
  · obtain rfl := Option.some.inj h
    exact aside_of_eq rfl rfl
  · cases h

theorem PeerTask.aside_write {t t' : PeerTask} {ok : Bool} (h : t.write ok = some t') :
    t.Aside t' := by
  rw [write] at h
  split at h
  · split_ifs at h <;> obtain rfl := Option.some.inj h <;> exact aside_of_eq rfl rfl
  · cases h

theorem PeerTask.aside_abort {t t' : PeerTask} (h : t.abort = some t') : t.Aside t' := by
  rw [abort] at h
  split_ifs at h
  split at h
  · obtain rfl := Option.some.inj h
    exact aside_of_eq rfl rfl
  · obtain rfl := Option.some.inj h
    exact aside_of_eq rfl rfl
  · cases h

theorem PeerTask.aside_call {t : PeerTask} {event : SessionEvent} {peerId : PeerId}
    {before after : Reader} (hcaller : event.caller = some (peerId, before, after))
    (hreader : t.reader = before) : t.Aside { t with reader := after } := by
  subst hreader
  cases event with
  | register peerMeta =>
    simp only [SessionEvent.caller, Option.some.injEq, Prod.mk.injEq] at hcaller
    obtain ⟨-, hbefore, rfl⟩ := hcaller
    exact aside_of_eq rfl hbefore
  | frame peerMeta frame nowMs =>
    simp only [SessionEvent.caller, Option.some.injEq, Prod.mk.injEq] at hcaller
    obtain ⟨-, hbefore, rfl⟩ := hcaller
    exact ⟨rfl, fun _ => .inr ⟨_, hbefore.symm⟩, by simp [← hbefore]⟩
  | ping peerMeta payload =>
    simp only [SessionEvent.caller, Option.some.injEq, Prod.mk.injEq] at hcaller
    obtain ⟨-, hbefore, rfl⟩ := hcaller
    exact ⟨rfl, fun _ => .inr ⟨_, hbefore.symm⟩, by simp [← hbefore]⟩
  | unregister peerMeta =>
    simp only [SessionEvent.caller, Option.some.injEq, Prod.mk.injEq] at hcaller
    obtain ⟨-, hbefore, rfl⟩ := hcaller
    exact ⟨rfl, by simp [Reader.Reads], by simp [← hbefore]⟩
  | nudge peerId => cases hcaller

/-- A peer's limiter sees the start of its read loop and what the loop receives. -/
inductive LimiterStep (limits : IngressLimits) (p : PeerId) (t t' : PeerTask) : HubEvent → Prop
  | start (now : ℕ) : t.reader = .outside → t'.reader = .receiving → t'.window = ⟨now, 0⟩ →
      LimiterStep limits p t t' (.start p now)
  | receive (now : ℕ) (message : Received) : t.receive limits now message = some t' →
      LimiterStep limits p t t' (.receive p now message)
  | aside (event : HubEvent) : t.Aside t' → (∀ now, event ≠ .start p now) →
      (∀ now message, event ≠ .receive p now message) → LimiterStep limits p t t' event

theorem aside_setPeer {hub : Hub} {peerId : PeerId} {task : PeerTask}
    (h : (hub.peer peerId).Aside task) (p : PeerId) :
    (hub.peer p).Aside ((hub.setPeer peerId task).peer p) := by
  by_cases hp : p = peerId
  · subst hp
    simpa [Hub.setPeer] using h
  · simpa [Hub.setPeer, hp] using PeerTask.aside_of_eq rfl rfl

theorem aside_of_map {hub hub' : Hub} {peerId : PeerId} {next : Option PeerTask}
    (h : next.map (hub.setPeer peerId) = some hub')
    (haside : ∀ task, next = some task → (hub.peer peerId).Aside task) (p : PeerId) :
    (hub.peer p).Aside (hub'.peer p) := by
  obtain ⟨task, htask, rfl⟩ := Option.map_eq_some_iff.mp h
  exact aside_setPeer (haside task htask) p

theorem limiterStep {session : RelaySession} {hub hub' : Hub} {event : HubEvent}
    (h : hub.step session limits event = some hub') (p : PeerId) :
    LimiterStep limits p (hub.peer p) (hub'.peer p) event := by
  have haside : (hub.peer p).Aside (hub'.peer p) → (∀ now, event ≠ .start p now) →
      (∀ now message, event ≠ .receive p now message) →
      LimiterStep limits p (hub.peer p) (hub'.peer p) event := .aside event
  cases event with
  | session event =>
    apply haside _ (by simp) (by simp)
    simp only [Hub.step, Hub.callSession] at h
    split_ifs at h
    obtain ⟨r, -, h⟩ := Option.bind_eq_some_iff.mp h
    cases hcaller : event.caller with
    | none =>
      simp only [hcaller, Option.some.injEq] at h
      rw [← h]
      exact PeerTask.aside_of_eq rfl rfl
    | some caller =>
      simp only [hcaller] at h
      split_ifs at h with hreader
      rw [← Option.some.inj h]
      exact aside_setPeer (PeerTask.aside_call hcaller hreader) p
  | send =>
    apply haside _ (by simp) (by simp)
    simp only [Hub.step, Hub.nextSend] at h
    cases hsending : hub.sending with
    | nil => simp [hsending] at h
    | cons send rest =>
      simp only [hsending, Option.some.injEq] at h
      rw [← h]
      have hattempt : (hub.peer send.target).Aside ((hub.peer send.target).attempt send).1 :=
        PeerTask.aside_of_eq rfl rfl
      exact aside_setPeer hattempt p
  | start peerId now =>
    simp only [Hub.step] at h
    split_ifs at h
    obtain ⟨task, htask, rfl⟩ := Option.map_eq_some_iff.mp h
    by_cases hp : p = peerId
    · subst hp
      simp only [PeerTask.start] at htask
      split at htask
      · rename_i hreader hwriter
        obtain rfl := Option.some.inj htask
        apply LimiterStep.start now hreader <;> simp [Hub.setPeer]
      · cases htask
    · apply haside
      · simpa [Hub.setPeer, hp] using PeerTask.aside_of_eq rfl rfl
      · simp [Ne.symm hp]
      · simp
  | receive peerId now message =>
    simp only [Hub.step] at h
    split_ifs at h
    obtain ⟨task, htask, rfl⟩ := Option.map_eq_some_iff.mp h
    by_cases hp : p = peerId
    · subst hp
      apply LimiterStep.receive now message
      simpa [Hub.setPeer] using htask
    · apply haside
      · simpa [Hub.setPeer, hp] using PeerTask.aside_of_eq rfl rfl
      · simp
      · simp [Ne.symm hp]
  | idle peerId =>
    apply haside _ (by simp) (by simp)
    simp only [Hub.step] at h
    split_ifs at h
    exact aside_of_map h (fun _ => PeerTask.aside_idleTimeout) p
  | take peerId =>
    apply haside _ (by simp) (by simp)
    exact aside_of_map h (fun _ => PeerTask.aside_take) p
  | write peerId ok =>
    apply haside _ (by simp) (by simp)
    exact aside_of_map h (fun _ => PeerTask.aside_write) p
  | abort peerId =>
    apply haside _ (by simp) (by simp)
    simp only [Hub.step] at h
    split_ifs at h
    exact aside_of_map h (fun _ => PeerTask.aside_abort) p

/-- What a peer's loop has received in a run. -/
def receivedBy (p : PeerId) (ms : List (Move Hub HubEvent)) : List (ℕ × Received) :=
  ms.filterMap fun move => match move.event with
    | .receive peerId now message => if peerId = p then some (now, message) else none
    | _ => none

theorem readLoop_snoc {received : List (ℕ × Received)} (r : ℕ × Received)
    (h : (readLoop limits window received).ending = none) :
    readLoop limits window (received ++ [r]) =
      let next := readLoop limits (readLoop limits window received).window [r]
      { next with passed := (readLoop limits window received).passed ++ next.passed } := by
  induction received generalizing window with
  | nil => rfl
  | cons first rest ih =>
    rcases first with ⟨now, message⟩
    by_cases hgoes : (receive limits window now message).2.goesOn = true
    · simp only [List.cons_append, readLoop, hgoes, if_true] at h ⊢
      rw [ih h]
      simp only [List.append_assoc]
      rfl
    · simp [readLoop, hgoes] at h

theorem receive_readLoop {t t' : PeerTask} (h : t.receive limits now message = some t') :
    t.reader = .receiving ∧ t'.reader ≠ .outside ∧
      t'.window = (readLoop limits t.window [(now, message)]).window ∧
      (t'.reader.Reads → (readLoop limits t.window [(now, message)]).ending = none) := by
  simp only [PeerTask.receive] at h
  split_ifs at h with hreader
  refine ⟨hreader, ?_⟩
  simp only [readLoop]
  cases hanswer : (receive limits t.window now message).2 with
  | handleFrame frame =>
    simp only [hanswer, Option.some.injEq] at h
    subst h
    simp [Answer.goesOn]
  | handlePing payload =>
    simp only [hanswer, Option.some.injEq] at h
    subst h
    simp [Answer.goesOn]
  | ignore =>
    simp only [hanswer, Option.some.injEq] at h
    subst h
    simp [Answer.goesOn, hreader]
  | close code reason =>
    simp only [hanswer, Option.some.injEq] at h
    subst h
    simp [Answer.goesOn, PeerTask.ownClose, Reader.Reads]
  | leave =>
    simp only [hanswer, Option.some.injEq] at h
    subst h
    simp [Answer.goesOn, Reader.Reads]

theorem receivedBy_append (p : PeerId) (ms ns : List (Move Hub HubEvent)) :
    receivedBy p (ms ++ ns) = receivedBy p ms ++ receivedBy p ns := List.filterMap_append

theorem receivedBy_receive (p : PeerId) (u v : Hub) (now : ℕ) (message : Received) :
    receivedBy p [⟨u, .receive p now message, v⟩] = [(now, message)] := by
  simp [receivedBy]

theorem receivedBy_of_ne {p : PeerId} {u v : Hub} {event : HubEvent}
    (h : ∀ now message, event ≠ .receive p now message) : receivedBy p [⟨u, event, v⟩] = [] := by
  cases event with
  | receive peerId now message =>
    have hne : peerId ≠ p := by
      rintro rfl
      exact h now message rfl
    simp [receivedBy, hne]
  | _ => rfl

/-- The loop has not been entered, or its window is the one of the read loop on what has come since
its start, and that read loop has not ended while this one reads. -/
def FollowsReadLoop (limits : IngressLimits) (p : PeerId) (ms : List (Move Hub HubEvent))
    (t : PeerTask) :
    Prop :=
  (t.reader = .outside ∧ receivedBy p ms = []) ∨
    (t.reader ≠ .outside ∧ ∃ start, (∃ move ∈ ms, move.event = .start p start) ∧
      (readLoop limits ⟨start, 0⟩ (receivedBy p ms)).window = t.window ∧
      (t.reader.Reads → (readLoop limits ⟨start, 0⟩ (receivedBy p ms)).ending = none))

theorem run_readLoop {session : RelaySession} {hub : Hub} {ms : List (Move Hub HubEvent)}
    (hrun : Run (Hub.step session limits) (Hub.init session) ms hub) (p : PeerId) :
    FollowsReadLoop limits p ms (hub.peer p) := by
  apply hrun.history_invariant (P := fun ms hub => FollowsReadLoop limits p ms (hub.peer p))
  · exact .inl ⟨rfl, rfl⟩
  · intro ns u e v _ ih hs
    rw [FollowsReadLoop, receivedBy_append]
    cases limiterStep hs p with
    | start now hbefore hafter hwindow =>
      right
      have hnil : receivedBy p ns = [] := by
        rcases ih with ⟨-, hnil⟩ | ⟨hne, -⟩
        · exact hnil
        · exact absurd hbefore hne
      rw [hnil, receivedBy_of_ne (by simp), hafter, hwindow]
      refine ⟨Reader.noConfusion, now, ⟨⟨u, .start p now, v⟩, by simp, rfl⟩, rfl, ?_⟩
      exact fun _ => rfl
    | receive now message hreceive =>
      right
      obtain ⟨hbefore, hafter, hwindow, hending⟩ := receive_readLoop hreceive
      rcases ih with ⟨hout, -⟩ | ⟨-, start, ⟨move, hm, hstart⟩, hsame, hreads⟩
      · rw [hbefore] at hout
        cases hout
      · refine ⟨hafter, start, ⟨move, List.mem_append_left _ hm, hstart⟩, ?_⟩
        rw [receivedBy_receive, readLoop_snoc (now, message) (hreads (.inl hbefore)), hsame]
        exact ⟨hwindow.symm, hending⟩
    | aside _ haside hstart hreceive =>
      rw [receivedBy_of_ne hreceive, List.append_nil, haside.window, haside.outside, Ne,
        haside.outside]
      rcases ih with h | ⟨hne, start, ⟨move, hm, hmove⟩, hsame, hreads⟩
      · exact .inl h
      · right
        refine ⟨hne, start, ⟨move, List.mem_append_left _ hm, hmove⟩, hsame, ?_⟩
        intro h
        exact hreads (haside.reads h)

end NodeAccess.Relay
