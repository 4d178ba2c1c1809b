import NodeAccess.Foundation.Transition
import NodeAccess.Mux.Stream

/-! # Exact reads from a virtual stream

A server task is a chain of exact reads with writes between them, and may end by copying the
rest of the stream. An exact read polls the stream until its buffer is full, and gives up when a
poll is ready and has added nothing. What the task does depends on the bytes alone, and not on
the frames they come in, unless a poll with a partly filled buffer comes between two frames or
when the task has used up its budget.
-/

namespace NodeAccess.Socks

open Foundation Mux

/-- What a task does from one await to the next. -/
inductive Task where
  | readExact (n : ℕ) (next : List UInt8 → Task)
  | writeAll (bytes : List UInt8) (next : Task)
  | connect (target : String) (next : Bool → Task)
  | copyBidirectional
  | finished (result : Except String Unit)

/-- What can be seen of a task: its writes to the stream, the targets that it dials, and the
bytes that it passes on. -/
@[ext] structure Observed where
  replies : List (List UInt8)
  dialled : List String
  forwarded : List UInt8
deriving DecidableEq, Repr

namespace Observed

def none : Observed := ⟨[], [], []⟩

def append (o p : Observed) : Observed :=
  ⟨o.replies ++ p.replies, o.dialled ++ p.dialled, o.forwarded ++ p.forwarded⟩

/-- Everything that is seen here is seen there first. -/
structure Within (o p : Observed) : Prop where
  replies : o.replies <+: p.replies
  dialled : o.dialled <+: p.dialled
  forwarded : o.forwarded <+: p.forwarded

@[simp] theorem append_none (o : Observed) : o.append none = o := by
  ext1 <;> simp [append, none]

@[simp] theorem none_append (o : Observed) : none.append o = o := by
  ext1 <;> simp [append, none]

theorem append_assoc (o p q : Observed) : (o.append p).append q = o.append (p.append q) := by
  ext1 <;> simp [append]

theorem within_append (o p : Observed) : o.Within (o.append p) :=
  ⟨List.prefix_append _ _, List.prefix_append _ _, List.prefix_append _ _⟩

end Observed

namespace Task

variable (dial : String → Bool)

/-- The task on a stream that holds these bytes and no more. -/
def runOn : Task → List UInt8 → Observed
  | readExact n next, bytes =>
    if n ≤ bytes.length then (next (bytes.take n)).runOn (bytes.drop n) else .none
  | writeAll reply next, bytes => Observed.append ⟨[reply], [], []⟩ (next.runOn bytes)
  | connect target next, bytes =>
      Observed.append ⟨[], [target], []⟩ ((next (dial target)).runOn bytes)
  | copyBidirectional, bytes => ⟨[], [], bytes⟩
  | finished _, _ => .none

/-- The task up to its next read of a byte. An exact read of no bytes does not poll. -/
def settle : Task → Task × Observed
  | readExact 0 next => (next []).settle
  | writeAll reply next => (next.settle.1, Observed.append ⟨[reply], [], []⟩ next.settle.2)
  | connect target next =>
    ((next (dial target)).settle.1,
      Observed.append ⟨[], [target], []⟩ (next (dial target)).settle.2)
  | readExact (n + 1) next => (readExact (n + 1) next, .none)
  | copyBidirectional => (copyBidirectional, .none)
  | finished result => (finished result, .none)

/-- The buffer that a task makes for its next exact read. -/
def buffer : Task → ReadBuf
  | readExact n _ => ⟨n, []⟩
  | _ => ⟨0, []⟩

theorem runOn_settle (task : Task) (bytes : List UInt8) :
    (task.settle dial).2.append ((task.settle dial).1.runOn dial bytes) =
      task.runOn dial bytes := by
  induction task with
  | readExact n next ih =>
    cases n with
    | zero => simp [settle, runOn, ih]
    | succ n => simp [settle]
  | writeAll reply next ih => rw [settle, runOn, Observed.append_assoc, ih]
  | connect target next ih => rw [settle, runOn, Observed.append_assoc, ih]
  | copyBidirectional => simp [settle]
  | finished result => simp [settle]

end Task

/-- A task with its stream. `coming` holds the payloads of the Data frames that have not arrived,
and `buf` is the buffer of the exact read that the task is in. -/
structure Tunnel where
  coming : List (List UInt8)
  stream : VirtualStream
  task : Task
  buf : ReadBuf
  observed : Observed

inductive TunnelEvent where
  | arrive
  | poll (cx : TaskContext)
  | pollCopy (cx : TaskContext) (buf : ReadBuf)
deriving DecidableEq, Repr

namespace Tunnel

variable (dial : String → Bool)

def settled (coming : List (List UInt8)) (stream : VirtualStream) (observed : Observed)
    (task : Task) :
    Tunnel :=
  let r := task.settle dial
  ⟨coming, stream, r.1, r.1.buffer, observed.append r.2⟩

/-- The task before its first poll, with the payloads that will come. -/
def init (task : Task) (coming : List (List UInt8)) : Tunnel :=
  settled dial coming (.new 0) .none task

/-- One poll of the stream, or the arrival of a frame. A copy may poll with what it has not yet
written in its buffer; it ends at a ready poll that adds nothing. -/
def step (t : Tunnel) : TunnelEvent → Option Tunnel
  | .arrive =>
    match t.coming with
    | [] => none
    | payload :: rest => some { t with
        coming := rest
        stream := { t.stream with inbound := t.stream.inbound ++ [payload] } }
  | .poll cx =>
    match t.task with
    | .readExact _ next =>
      let r := t.stream.pollRead cx false t.buf
      match r.2.2 with
      | .pending => some { t with stream := r.1, buf := r.2.1 }
      | .ready =>
        if r.2.1.filled = t.buf.filled then
          some { t with stream := r.1, task := .finished (.error "early eof") }
        else if r.2.1.remaining = 0 then
          some (settled dial t.coming r.1 t.observed (next r.2.1.filled))
        else some { t with stream := r.1, buf := r.2.1 }
    | _ => none
  | .pollCopy cx buf =>
    match t.task with
    | .copyBidirectional =>
      if 0 < buf.remaining then
        let r := t.stream.pollRead cx false buf
        match r.2.2 with
        | .pending => some { t with stream := r.1 }
        | .ready =>
          if r.2.1.filled = buf.filled then
            some { t with stream := r.1, task := .finished (.ok ()) }
          else some { t with
            stream := r.1
            observed := t.observed.append ⟨[], [], r.2.1.filled.drop buf.filled.length⟩ }
      else none
    | _ => none

/-- Nothing is to come, and the task has taken in all there is, or it has ended before. -/
def Complete (t : Tunnel) : Prop :=
  (∃ result, t.task = .finished result) ∨ t.coming = [] ∧ t.stream.waiting = []

end Tunnel

/-- A poll comes upon nothing: the read buffer is empty, and so is the queue, or the task has no
budget to look into it. -/
def Withheld (s : VirtualStream) (cx : TaskContext) : Prop :=
  s.readBuffer = [] ∧ (cx.budget = true → s.inbound = [])

instance (s : VirtualStream) (cx : TaskContext) : Decidable (Withheld s cx) :=
  inferInstanceAs (Decidable (s.readBuffer = [] ∧ (cx.budget = true → s.inbound = [])))

/-- A poll with a partly filled buffer comes upon bytes, unless those that wait and those that are
still to come would not fill the buffer either, or, in a copy, there are none. -/
def Fed : Move Tunnel TunnelEvent → Prop
  | ⟨_, .arrive, _⟩ => True
  | ⟨t, .poll cx, _⟩ => t.buf.filled ≠ [] → Withheld t.stream cx →
    t.buf.filled.length + t.stream.waiting.length + t.coming.flatten.length < t.buf.capacity
  | ⟨t, .pollCopy cx buf, _⟩ => buf.filled ≠ [] → Withheld t.stream cx →
    t.stream.waiting = [] ∧ t.coming = []

instance : DecidablePred Fed
  | ⟨_, .arrive, _⟩ => inferInstanceAs (Decidable True)
  | ⟨t, .poll cx, _⟩ => inferInstanceAs (Decidable (t.buf.filled ≠ [] → Withheld t.stream cx →
      t.buf.filled.length + t.stream.waiting.length + t.coming.flatten.length < t.buf.capacity))
  | ⟨t, .pollCopy cx buf, _⟩ => inferInstanceAs (Decidable (buf.filled ≠ [] →
      Withheld t.stream cx → t.stream.waiting = [] ∧ t.coming = []))

/-! ## One poll -/

theorem not_withheld_of_waiting {s : VirtualStream} (hwaiting : s.waiting ≠ []) :
    ¬ Withheld s ⟨true⟩ := by
  rintro ⟨hbuffer, hinbound⟩
  simp [VirtualStream.waiting, hbuffer, hinbound] at hwaiting

theorem pollRead_progress {s : VirtualStream} {cx : TaskContext} {buf : ReadBuf}
    (hbuf : 0 < buf.remaining) (hnonempty : ∀ payload ∈ s.inbound, payload ≠ [])
    (hgives : ¬ Withheld s cx) :
    let r := s.pollRead cx false buf
    r.2.2 = .ready ∧ buf.filled.length < r.2.1.filled.length := by
  simp only [VirtualStream.pollRead]
  cases hr : s.readBuffer with
  | cons byte rest =>
    have hlonger :
        buf.filled.length < (VirtualStream.drainBuffer (byte :: rest) buf).2.filled.length :=
      VirtualStream.drainBuffer_filled (List.cons_ne_nil byte rest) hbuf
    generalize VirtualStream.drainBuffer (byte :: rest) buf = drained at hlonger ⊢
    have hsome : drained.2.filled ≠ [] := by
      intro h
      simp [h] at hlonger
    by_cases hfull : drained.2.remaining = 0
    · simp [hfull, hlonger]
    · rw [if_neg hfull]
      cases VirtualStream.pollRecv s.inbound cx false with
      | pending => simp [hsome, hlonger]
      | ended => simp [hlonger]
      | item payload later =>
        simp only [ReadBuf.putSlice, List.length_append, true_and]
        omega
  | nil =>
    have hfull : ¬ buf.remaining = 0 := by omega
    rw [VirtualStream.drainBuffer, if_neg hfull]
    have hmore : cx.budget = true ∧ s.inbound ≠ [] := by simpa [Withheld, hr] using hgives
    cases hi : s.inbound with
    | nil => exact absurd hi hmore.2
    | cons payload later =>
      have hlength : 0 < payload.length := by
        apply List.length_pos_of_ne_nil
        apply hnonempty
        simp [hi]
      rw [VirtualStream.pollRecv_eq_item.mpr ⟨hmore.1, rfl⟩]
      simp only [ReadBuf.putSlice, List.length_append, List.length_take, true_and]
      omega

/-- A poll that comes upon nothing leaves the buffer as it is, and is ready when that is not
empty. -/
theorem pollRead_starved {s : VirtualStream} {cx : TaskContext} {buf : ReadBuf}
    (hbuf : 0 < buf.remaining) (hwithheld : Withheld s cx) :
    s.pollRead cx false buf = (s, buf, if buf.filled = [] then .pending else .ready) := by
  have hfull : ¬ buf.remaining = 0 := by omega
  have hrecv : VirtualStream.pollRecv s.inbound cx false = .pending :=
    VirtualStream.pollRecv_eq_pending.mpr fun hbudget => ⟨hwithheld.2 hbudget, rfl⟩
  have hbuffer := hwithheld.1
  obtain ⟨_, inbound, readBuffer, _, _, _, _, _⟩ := s
  dsimp only at hbuffer hrecv
  subst hbuffer
  by_cases h : buf.filled = []
  · simp [VirtualStream.pollRead, VirtualStream.drainBuffer, hfull, hrecv, h]
  · simp [VirtualStream.pollRead, VirtualStream.drainBuffer, hfull, hrecv, h]

/-! ## The bytes decide -/

/-- A task between two steps waits for bytes, or has ended. -/
def Task.Waits : Task → Prop
  | .readExact n _ => 0 < n
  | .copyBidirectional | .finished _ => True
  | .writeAll _ _ | .connect _ _ => False

variable {dial : String → Bool} {promise : Observed} {t t' : Tunnel}

theorem Task.waits_settle (task : Task) : (task.settle dial).1.Waits := by
  induction task with
  | readExact n next ih =>
    cases n with
    | zero => exact ih []
    | succ n => exact Nat.succ_pos n
  | writeAll reply next ih => exact ih
  | connect target next ih => exact ih (dial target)
  | copyBidirectional => trivial
  | finished result => trivial

@[simp] theorem Task.filled_buffer (task : Task) : task.buffer.filled = [] := by
  cases task <;> rfl

namespace Tunnel

variable (dial) in
/-- What will have been seen when the task has read all that is there and all that is to come. -/
def outlook (t : Tunnel) : Observed :=
  t.observed.append (t.task.runOn dial (t.buf.filled ++ t.stream.waiting ++ t.coming.flatten))

variable (dial) in
structure Sound (promise : Observed) (t : Tunnel) : Prop where
  nonempty : ∀ payload ∈ t.stream.inbound ++ t.coming, payload ≠ []
  waits : t.task.Waits
  reading : ∀ n next, t.task = .readExact n next → t.buf.capacity = n ∧ t.buf.filled.length < n
  copying : t.task = .copyBidirectional → t.buf.filled = []
  outlook : t.outlook dial = promise

theorem sound_settled {coming : List (List UInt8)} {stream : VirtualStream} {observed : Observed}
    {task : Task} (hnonempty : ∀ payload ∈ stream.inbound ++ coming, payload ≠ [])
    (houtlook : observed.append (task.runOn dial (stream.waiting ++ coming.flatten)) = promise) :
    Sound dial promise (settled dial coming stream observed task) where
  nonempty := hnonempty
  waits := task.waits_settle
  reading := by
    intro n next htask
    have hwaits : (task.settle dial).1.Waits := task.waits_settle
    simp only [settled] at htask ⊢
    rw [htask] at hwaits ⊢
    exact ⟨rfl, hwaits⟩
  copying := fun _ => Task.filled_buffer _
  outlook := by
    rw [← houtlook, ← task.runOn_settle, ← Observed.append_assoc]
    simp [Tunnel.outlook, settled]

theorem Sound.observed_eq (h : Sound dial promise t) (hcomplete : t.Complete) :
    t.observed = promise := by
  rw [← h.outlook, Tunnel.outlook]
  suffices hnone :
      t.task.runOn dial (t.buf.filled ++ t.stream.waiting ++ t.coming.flatten) = .none by
    rw [hnone, Observed.append_none]
  have hwaits := h.waits
  cases htask : t.task with
  | finished result => rfl
  | readExact n next =>
    rcases hcomplete with ⟨result, hfinished⟩ | ⟨hcoming, hwaiting⟩
    · rw [hfinished] at htask
      cases htask
    · have hshort := (h.reading n next htask).2
      simp [hcoming, hwaiting, Task.runOn, Nat.not_le.mpr hshort]
  | copyBidirectional =>
    rcases hcomplete with ⟨result, hfinished⟩ | ⟨hcoming, hwaiting⟩
    · rw [hfinished] at htask
      cases htask
    · simp [hcoming, hwaiting, h.copying htask, Task.runOn, Observed.none]
  | writeAll reply next => simp [htask, Task.Waits] at hwaits
  | connect target next => simp [htask, Task.Waits] at hwaits

theorem Sound.within (h : Sound dial promise t) : t.observed.Within promise := by
  rw [← h.outlook]
  exact Observed.within_append _ _

/-! ## One step -/

theorem Sound.arrive (h : Sound dial promise t) (hstep : t.step dial .arrive = some t') :
    Sound dial promise t' := by
  simp only [step] at hstep
  cases hc : t.coming with
  | nil => simp [hc] at hstep
  | cons payload rest =>
    simp only [hc, Option.some.injEq] at hstep
    subst hstep
    refine ⟨?_, h.waits, h.reading, h.copying, ?_⟩
    · intro payload' hp
      apply h.nonempty
      simpa [hc] using hp
    · rw [← h.outlook]
      simp [Tunnel.outlook, VirtualStream.waiting, hc]

/-- What a poll has to do with the invariant: payloads stay nonempty, and the bytes that it takes
from the stream are those that it puts into the buffer. -/
theorem Sound.pollRead (h : Sound dial promise t) (cx : TaskContext) (buf : ReadBuf) :
    let r := t.stream.pollRead cx false buf
    (∀ payload ∈ r.1.inbound ++ t.coming, payload ≠ []) ∧
      r.2.1.filled ++ r.1.waiting = buf.filled ++ t.stream.waiting := by
  constructor
  · intro payload hp
    apply h.nonempty
    rcases List.mem_append.mp hp with hp | hp
    · exact List.mem_append_left _ ((t.stream.pollRead_inbound cx false buf).mem hp)
    · exact List.mem_append_right _ hp
  · exact (t.stream.pollRead_spec cx false buf).2.1

theorem Sound.consumed {cx : TaskContext} {buf : ReadBuf} (h : Sound dial promise t)
    (hroom : 0 < buf.remaining) (hgives : ¬ Withheld t.stream cx) :
    let r := t.stream.pollRead cx false buf
    r.2.2 = .ready ∧ r.2.1.filled ≠ buf.filled ∧ r.1.waiting.length < t.stream.waiting.length := by
  obtain ⟨hready, hmore⟩ := pollRead_progress hroom
    (fun payload hp => h.nonempty payload (List.mem_append_left _ hp)) hgives
  have hbytes := congrArg List.length (h.pollRead cx buf).2
  simp only [List.length_append] at hbytes
  refine ⟨hready, ?_, by omega⟩
  intro he
  rw [he] at hmore
  omega

theorem Sound.room {n : ℕ} {next : List UInt8 → Task} (h : Sound dial promise t)
    (htask : t.task = .readExact n next) : 0 < t.buf.remaining := by
  obtain ⟨hcapacity, hlength⟩ := h.reading n next htask
  simp only [ReadBuf.remaining]
  omega

theorem Sound.finish {result : Except String Unit} (h : Sound dial promise t)
    (houtlook : Tunnel.outlook dial { t with task := .finished result } = promise) :
    Sound dial promise { t with task := .finished result } := by
  refine ⟨h.nonempty, trivial, ?_, ?_, houtlook⟩
  · intro n next htask
    cases htask
  · intro htask
    cases htask

theorem Sound.finished_of_starved {n : ℕ} {next : List UInt8 → Task} {result : Except String Unit}
    (h : Sound dial promise t) (htask : t.task = .readExact n next)
    (hshort : t.buf.filled.length + t.stream.waiting.length + t.coming.flatten.length < n) :
    Sound dial promise { t with task := .finished result } := by
  have hnone :
      t.task.runOn dial (t.buf.filled ++ t.stream.waiting ++ t.coming.flatten) = .none := by
    have hlength : ¬ n ≤ (t.buf.filled ++ t.stream.waiting ++ t.coming.flatten).length := by
      simp only [List.length_append]
      omega
    rw [htask, Task.runOn, if_neg hlength]
  apply h.finish
  rw [← h.outlook, Tunnel.outlook.eq_def dial t, hnone]
  rfl

theorem Sound.poll {cx : TaskContext} (h : Sound dial promise t)
    (hstep : t.step dial (.poll cx) = some t') (hfed : Fed ⟨t, .poll cx, t'⟩) :
    Sound dial promise t' := by
  obtain ⟨coming, stream, task, buf, observed⟩ := t
  cases task with
  | readExact n next =>
    obtain ⟨hcapacity, hlength⟩ := h.reading n next rfl
    obtain ⟨hnonempty, hbytes⟩ := h.pollRead cx buf
    have hroom : 0 < buf.remaining := h.room rfl
    dsimp only [step, Fed] at *
    by_cases hwithheld : Withheld stream cx
    · simp only [pollRead_starved hroom hwithheld] at hstep
      by_cases hempty : buf.filled = []
      · simp only [hempty, if_true, Option.some.injEq] at hstep
        exact hstep ▸ h
      · simp only [hempty, if_false, if_true, Option.some.injEq] at hstep
        rw [← hstep]
        exact h.finished_of_starved rfl (hcapacity ▸ hfed hempty hwithheld)
    · have houtlook := h.outlook
      simp only [Tunnel.outlook, ← hbytes] at houtlook
      have hbound := stream.pollRead_bounded cx false (hlength.le.trans_eq hcapacity.symm)
      obtain ⟨hready, hne, -⟩ := h.consumed hroom hwithheld
      generalize stream.pollRead cx false buf = r at *
      obtain ⟨stream', buf', poll⟩ := r
      dsimp only at *
      subst hready
      simp only [if_neg hne] at hstep
      by_cases hfull : buf'.remaining = 0
      · simp only [hfull, if_true, Option.some.injEq] at hstep
        rw [← hstep]
        apply sound_settled hnonempty
        have hn : n = buf'.filled.length := by
          simp only [ReadBuf.remaining] at hfull
          omega
        simpa [Task.runOn, hn] using houtlook
      · simp only [hfull, if_false, Option.some.injEq] at hstep
        rw [← hstep]
        have hreading : buf'.capacity = n ∧ buf'.filled.length < n := by
          simp only [ReadBuf.remaining] at hfull
          omega
        refine ⟨hnonempty, h.waits, ?_, ?_, houtlook⟩
        · intro m next' htask
          cases htask
          exact hreading
        · intro hcopying
          cases hcopying
  | _ => simp [step] at hstep

theorem Sound.pollCopy {cx : TaskContext} {buf : ReadBuf} (h : Sound dial promise t)
    (hstep : t.step dial (.pollCopy cx buf) = some t') (hfed : Fed ⟨t, .pollCopy cx buf, t'⟩) :
    Sound dial promise t' := by
  obtain ⟨coming, stream, task, kept, observed⟩ := t
  cases task with
  | copyBidirectional =>
    have hkept : kept.filled = [] := h.copying rfl
    have hroom : 0 < buf.remaining := by
      by_contra hroom
      simp [step, hroom] at hstep
    obtain ⟨hnonempty, hbytes⟩ := h.pollRead cx buf
    dsimp only [step, Fed] at *
    rw [if_pos hroom] at hstep
    have houtlook := h.outlook
    simp only [Tunnel.outlook, Task.runOn, hkept, List.nil_append] at houtlook
    by_cases hwithheld : Withheld stream cx
    · simp only [pollRead_starved hroom hwithheld] at hstep
      by_cases hempty : buf.filled = []
      · simp only [hempty, if_true, Option.some.injEq] at hstep
        exact hstep ▸ h
      · simp only [hempty, if_false, if_true, Option.some.injEq] at hstep
        rw [← hstep]
        apply h.finish
        rw [← houtlook, (hfed hempty hwithheld).1, (hfed hempty hwithheld).2]
        rfl
    · obtain ⟨hready, hne, -⟩ := h.consumed hroom hwithheld
      have hbegins : buf.filled <+: (stream.pollRead cx false buf).2.1.filled :=
        (stream.pollRead_spec cx false buf).1
      generalize stream.pollRead cx false buf = r at *
      obtain ⟨stream', buf', poll⟩ := r
      dsimp only at *
      subst hready
      simp only [if_neg hne, Option.some.injEq] at hstep
      rw [← hstep]
      refine ⟨hnonempty, trivial, ?_, fun _ => hkept, ?_⟩
      · intro n next htask
        cases htask
      obtain ⟨added, hadded⟩ := hbegins
      rw [← hadded, List.append_assoc, List.append_cancel_left_eq] at hbytes
      rw [← houtlook, ← hadded, ← hbytes]
      simp [Tunnel.outlook, Task.runOn, hkept, Observed.append]
  | _ => simp [step] at hstep

theorem Sound.step {event : TunnelEvent} (h : Sound dial promise t)
    (hstep : t.step dial event = some t') (hfed : Fed ⟨t, event, t'⟩) : Sound dial promise t' := by
  cases event with
  | arrive => exact h.arrive hstep
  | poll cx => exact h.poll hstep hfed
  | pollCopy cx buf => exact h.pollCopy hstep hfed

/-- The whole stream has come in a single frame, which is still there and has been met by no read,
or has gone into the read buffer. -/
structure Loaded (t : Tunnel) : Prop where
  coming : t.coming = []
  frame : t.stream.inbound = [] ∨ t.stream.inbound.length = 1 ∧ t.stream.readBuffer = [] ∧
    t.buf.filled = [] ∧ t.task ≠ .copyBidirectional

theorem Sound.fed {event : TunnelEvent} (h : Sound dial promise t)
    (hstep : t.step dial event = some t') (hloaded : t.Loaded) : Fed ⟨t, event, t'⟩ := by
  have hwaiting : ∀ cx, t.stream.inbound = [] → Withheld t.stream cx → t.stream.waiting = [] := by
    intro cx hinbound hwithheld
    simp [VirtualStream.waiting, hinbound, hwithheld.1]
  cases event with
  | arrive => trivial
  | poll cx =>
    intro hsome hwithheld
    rcases hloaded.frame with hinbound | ⟨-, -, hnone, -⟩
    · cases htask : t.task with
      | readExact n next =>
        obtain ⟨hcapacity, hlength⟩ := h.reading n next htask
        simp [hloaded.coming, hwaiting cx hinbound hwithheld, hcapacity, hlength]
      | _ => simp [Tunnel.step, htask] at hstep
    · exact absurd hnone hsome
  | pollCopy cx buf =>
    intro _ hwithheld
    rcases hloaded.frame with hinbound | ⟨-, -, -, hcopy⟩
    · exact ⟨hwaiting cx hinbound hwithheld, hloaded.coming⟩
    · cases htask : t.task with
      | copyBidirectional => exact absurd htask hcopy
      | _ => simp [Tunnel.step, htask] at hstep

theorem Loaded.pollRead (h : t.Loaded) (cx : TaskContext) {buf : ReadBuf}
    (hroom : 0 < buf.remaining) (hbuf : t.stream.inbound ≠ [] → buf.filled = []) :
    let r := t.stream.pollRead cx false buf
    r.1.inbound = [] ∨ t.stream.inbound ≠ [] ∧ r = (t.stream, buf, .pending) := by
  by_cases hinbound : t.stream.inbound = []
  · have htaken := t.stream.pollRead_inbound cx false buf
    rw [hinbound] at htaken
    exact .inl (List.suffix_nil.mp htaken)
  · obtain ⟨hlength, hbuffer, -⟩ := h.frame.resolve_left hinbound
    cases hbudget : cx.budget with
    | false =>
      right
      refine ⟨hinbound, ?_⟩
      have hwithheld :
          Withheld t.stream cx := ⟨hbuffer, fun h => absurd (hbudget.symm.trans h) (by decide)⟩
      rw [pollRead_starved hroom hwithheld, if_pos (hbuf hinbound)]
    | true =>
      left
      obtain ⟨payload, hpayload⟩ := List.length_eq_one_iff.mp hlength
      have hrecv : VirtualStream.pollRecv t.stream.inbound cx false = .item payload [] :=
        VirtualStream.pollRecv_eq_item.mpr ⟨hbudget, hpayload⟩
      have hfull : ¬ buf.remaining = 0 := by omega
      simp [VirtualStream.pollRead, hbuffer, VirtualStream.drainBuffer, hfull, hrecv]

theorem Loaded.step {event : TunnelEvent} (hsound : Sound dial promise t) (h : t.Loaded)
    (hstep : t.step dial event = some t') : t'.Loaded := by
  cases event with
  | arrive => simp [Tunnel.step, h.coming] at hstep
  | poll cx =>
    cases htask : t.task with
    | readExact n next =>
      simp only [Tunnel.step, htask] at hstep
      have hbuf : t.stream.inbound ≠ [] → t.buf.filled = [] :=
        fun hne => (h.frame.resolve_left hne).2.2.1
      rcases h.pollRead cx (hsound.room htask) hbuf with hinbound | ⟨-, hsame⟩
      · cases hpoll : (t.stream.pollRead cx false t.buf).2.2 with
        | pending =>
          simp only [hpoll, Option.some.injEq] at hstep
          exact hstep ▸ ⟨h.coming, .inl hinbound⟩
        | ready =>
          simp only [hpoll] at hstep
          split_ifs at hstep <;> exact Option.some.inj hstep ▸ ⟨h.coming, .inl hinbound⟩
      · simp only [hsame, Option.some.injEq] at hstep
        rw [← htask] at hstep
        exact hstep ▸ h
    | _ => simp [Tunnel.step, htask] at hstep
  | pollCopy cx buf =>
    cases htask : t.task with
    | copyBidirectional =>
      have hinbound : t.stream.inbound = [] := by
        by_contra hne
        exact (h.frame.resolve_left hne).2.2.2 htask
      have htaken := t.stream.pollRead_inbound cx false buf
      rw [hinbound, List.suffix_nil] at htaken
      simp only [Tunnel.step, htask] at hstep
      cases hpoll : (t.stream.pollRead cx false buf).2.2 with
      | pending =>
        simp only [hpoll] at hstep
        split_ifs at hstep
        exact Option.some.inj hstep ▸ ⟨h.coming, .inl htaken⟩
      | ready =>
        simp only [hpoll] at hstep
        split_ifs at hstep <;> exact Option.some.inj hstep ▸ ⟨h.coming, .inl htaken⟩
    | _ => simp [Tunnel.step, htask] at hstep

end Tunnel

/-! ## Runs -/

variable (dial) in
/-- The task before its first poll, with its whole stream there in a single frame. -/
def Tunnel.whole (task : Task) (bytes : List UInt8) : Tunnel :=
  Tunnel.settled dial [] { VirtualStream.new 0 with inbound := [bytes].filter (· ≠ []) } .none task

variable {task : Task} {payloads : List (List UInt8)} {bytes : List UInt8}
  {ms : List (Move Tunnel TunnelEvent)}

theorem Tunnel.sound_of_fed (hnonempty : ∀ payload ∈ payloads, payload ≠ [])
    (hrun : Run (Tunnel.step dial) (Tunnel.init dial task payloads) ms t) (hfed : ∀ m ∈ ms, Fed m) :
    Tunnel.Sound dial (task.runOn dial payloads.flatten) t := by
  apply hrun.guarded hfed
  · apply Tunnel.sound_settled
    · simpa [VirtualStream.new] using hnonempty
    · simp [VirtualStream.waiting, VirtualStream.new]
  · intro ns u e v _ hu hs hc
    exact hu.step hs hc

theorem Tunnel.sound_of_whole (hreads : (task.settle dial).1 ≠ .copyBidirectional)
    (hrun : Run (Tunnel.step dial) (Tunnel.whole dial task bytes) ms t) :
    Tunnel.Sound dial (task.runOn dial bytes) t := by
  suffices h : Tunnel.Sound dial (task.runOn dial bytes) t ∧ t.Loaded from h.1
  apply hrun.invariant
  · constructor
    · apply Tunnel.sound_settled
      · simp
      · by_cases h : bytes = [] <;> simp [VirtualStream.waiting, VirtualStream.new, h]
    · by_cases h : bytes = []
      · exact ⟨rfl, .inl (by simp [whole, settled, h])⟩
      · exact ⟨rfl, .inr ⟨by simp [whole, settled, h], rfl, Task.filled_buffer _, hreads⟩⟩
  · intro u e v hu hs
    exact ⟨hu.1.step hs (hu.1.fed hs hu.2), hu.2.step hu.1 hs⟩

theorem Tunnel.Sound.progress (h : Tunnel.Sound dial promise t) (hwaiting : t.stream.waiting ≠ [])
    (hrunning : ∀ result, t.task ≠ .finished result) :
    ∃ event t', t.step dial event = some t' ∧ Fed ⟨t, event, t'⟩ ∧ t'.coming = t.coming ∧
      t'.stream.waiting.length < t.stream.waiting.length := by
  have hwaits := h.waits
  have hgives := not_withheld_of_waiting hwaiting
  cases htask : t.task with
  | readExact n next =>
    obtain ⟨hready, hne, hless⟩ := h.consumed (h.room htask) hgives
    have hstep : t.step dial (.poll ⟨true⟩) = some
        (if (t.stream.pollRead ⟨true⟩ false t.buf).2.1.remaining = 0 then
          settled dial t.coming (t.stream.pollRead ⟨true⟩ false t.buf).1 t.observed
            (next (t.stream.pollRead ⟨true⟩ false t.buf).2.1.filled)
        else { t with
          stream := (t.stream.pollRead ⟨true⟩ false t.buf).1
          buf := (t.stream.pollRead ⟨true⟩ false t.buf).2.1 }) := by
      simp only [Tunnel.step, htask, hready, if_neg hne]
      split_ifs <;> rfl
    refine ⟨.poll ⟨true⟩, _, hstep, fun _ hwithheld => absurd hwithheld hgives, ?_⟩
    split_ifs <;> exact ⟨rfl, hless⟩
  | copyBidirectional =>
    have hroom : 0 < (⟨1, []⟩ : ReadBuf).remaining := Nat.one_pos
    obtain ⟨hready, hne, hless⟩ := h.consumed hroom hgives
    have hstep : t.step dial (.pollCopy ⟨true⟩ ⟨1, []⟩) = some { t with
        stream := (t.stream.pollRead ⟨true⟩ false ⟨1, []⟩).1
        observed := t.observed.append
          ⟨[], [], (t.stream.pollRead ⟨true⟩ false ⟨1, []⟩).2.1.filled.drop 0⟩ } := by
      simp only [Tunnel.step, htask, hready, if_neg hne, if_pos hroom]
      rfl
    exact ⟨_, _, hstep, fun _ hwithheld => absurd hwithheld hgives, rfl, hless⟩
  | finished result => exact absurd htask (hrunning result)
  | writeAll reply next => simp [htask, Task.Waits] at hwaits
  | connect target next => simp [htask, Task.Waits] at hwaits

theorem Tunnel.Sound.completes (h : Tunnel.Sound dial promise t) :
    ∃ ms' t', Run (Tunnel.step dial) t ms' t' ∧ (∀ m ∈ ms', Fed m) ∧ t'.Complete := by
  -- by induction on the bytes that wait, the bytes to come and the frames that bring them
  generalize hmeasure :
    t.stream.waiting.length + t.coming.flatten.length + t.coming.length = measure
  induction measure using Nat.strong_induction_on generalizing t with
  | _ measure ih =>
  have step : ∀ {event u}, t.step dial event = some u → Fed ⟨t, event, u⟩ →
      u.stream.waiting.length + u.coming.flatten.length + u.coming.length < measure →
      ∃ ms' t', Run (Tunnel.step dial) t ms' t' ∧ (∀ m ∈ ms', Fed m) ∧ t'.Complete := by
    intro event u hs hfed hless
    obtain ⟨ms', t', hrun, hall, hcomplete⟩ := ih _ hless (h.step hs hfed) rfl
    refine ⟨_, t', (Run.single hs).trans hrun, ?_, hcomplete⟩
    intro m hm
    rcases List.mem_append.mp hm with hm | hm
    · obtain rfl := List.mem_singleton.mp hm
      exact hfed
    · exact hall m hm
  by_cases hfinished : ∃ result, t.task = .finished result
  · exact ⟨[], t, Run.nil, by simp, Or.inl hfinished⟩
  · push Not at hfinished
    cases hcoming : t.coming with
    | cons payload rest =>
      have harrive : t.step dial .arrive = some { t with
          coming := rest
          stream := { t.stream with inbound := t.stream.inbound ++ [payload] } } := by
        simp only [Tunnel.step, hcoming]
      apply step harrive trivial
      simp [hcoming, VirtualStream.waiting] at hmeasure ⊢
      omega
    | nil =>
      by_cases hwaiting : t.stream.waiting = []
      · exact ⟨[], t, Run.nil, by simp, Or.inr ⟨hcoming, hwaiting⟩⟩
      · obtain ⟨event, u, hs, hfed, hsame, hless⟩ := h.progress hwaiting hfinished
        apply step hs hfed
        rw [hsame]
        omega

end NodeAccess.Socks
