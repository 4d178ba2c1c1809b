import NodeAccess.Mux.Frame

/-! # Virtual streams

A stream reads from the payloads that `read_loop` queued for it, through a buffer for
the part of a payload that did not fit the caller's space. Reading moves bytes from the
front of the buffer and the queue to the caller and changes nothing else.
-/

namespace NodeAccess.Mux

open Foundation

/-- `inbound` is the receiver's queue. `written` and `late` record the bytes that
`poll_write` accepted before and after the stream's Close, `handed` the bytes that
`poll_read` gave out. -/
structure VirtualStream where
  streamId : UInt32
  inbound : List (List UInt8)
  readBuffer : List UInt8
  sentClose : Bool
  dropped : Bool
  written : List UInt8
  late : List UInt8
  handed : List UInt8
deriving DecidableEq, Repr

structure ReadBuf where
  capacity : ℕ
  filled : List UInt8
deriving DecidableEq, Repr

inductive Poll where
  | ready
  | pending
deriving DecidableEq, Repr

/-- A task whose `budget` is used up finds every channel pending, until the runtime polls it
anew. -/
structure TaskContext where
  budget : Bool
deriving DecidableEq, Repr

def ReadBuf.remaining (buf : ReadBuf) : ℕ := buf.capacity - buf.filled.length

def ReadBuf.putSlice (buf : ReadBuf) (bytes : List UInt8) : ReadBuf :=
  { buf with filled := buf.filled ++ bytes }

namespace VirtualStream

def new (streamId : UInt32) : VirtualStream := ⟨streamId, [], [], false, false, [], [], []⟩

/-- The bytes that wait for the reader. -/
def waiting (s : VirtualStream) : List UInt8 := s.readBuffer ++ s.inbound.flatten

/-- The loop that empties the read buffer into the caller's space. -/
def drainBuffer : List UInt8 → ReadBuf → List UInt8 × ReadBuf
  | [], buf => ([], buf)
  | byte :: rest, buf =>
    if 0 < buf.remaining then drainBuffer rest (buf.putSlice [byte]) else (byte :: rest, buf)

/-- What `poll_recv` answers: the next payload with those behind it, that no more will come, or
that the task has to wait. -/
inductive Received where
  | item (bytes : List UInt8) (rest : List (List UInt8))
  | ended
  | pending
deriving DecidableEq, Repr

/-- `closed` says that the queue has no sender left. The budget is checked before the queue. -/
def pollRecv (inbound : List (List UInt8)) (cx : TaskContext) (closed : Bool) : Received :=
  if cx.budget then
    match inbound with
    | bytes :: rest => .item bytes rest
    | [] => if closed then .ended else .pending
  else .pending

def pollRead (s : VirtualStream) (cx : TaskContext) (closed : Bool) (buf : ReadBuf) :
    VirtualStream × ReadBuf × Poll :=
  let drained := drainBuffer s.readBuffer buf
  let s := { s with readBuffer := drained.1 }
  let buf := drained.2
  if buf.remaining = 0 then (s, buf, .ready)
  else
    match pollRecv s.inbound cx closed with
    | .item bytes rest =>
      let toCopy := min bytes.length buf.remaining
      ({ s with inbound := rest, readBuffer := s.readBuffer ++ bytes.drop toCopy },
        buf.putSlice (bytes.take toCopy), .ready)
    | .ended => (s, buf, .ready)
    | .pending => (s, buf, if buf.filled = [] then .pending else .ready)

theorem drainBuffer_spec (readBuffer : List UInt8) (buf : ReadBuf) :
    let r := drainBuffer readBuffer buf
    r.2.filled ++ r.1 = buf.filled ++ readBuffer ∧ buf.filled <+: r.2.filled ∧
      (r.2.remaining ≠ 0 → r.1 = []) := by
  induction readBuffer generalizing buf with
  | nil => exact ⟨rfl, List.prefix_rfl, fun _ => rfl⟩
  | cons byte rest ih =>
    rw [drainBuffer]
    split_ifs with h
    · have hr := ih (buf.putSlice [byte])
      refine ⟨hr.1.trans (by simp [ReadBuf.putSlice]), ?_, hr.2.2⟩
      exact (List.prefix_append buf.filled [byte]).trans hr.2.1
    · exact ⟨rfl, List.prefix_rfl, fun hn => absurd (Nat.pos_of_ne_zero hn) h⟩

theorem drainBuffer_filled {readBuffer : List UInt8} {buf : ReadBuf}
    (hbuffer : readBuffer ≠ []) (hroom : 0 < buf.remaining) :
    buf.filled.length < (drainBuffer readBuffer buf).2.filled.length := by
  cases readBuffer with
  | nil => exact absurd rfl hbuffer
  | cons byte rest =>
    rw [drainBuffer, if_pos hroom]
    have hbegins := (drainBuffer_spec rest (buf.putSlice [byte])).2.1.length_le
    simp only [ReadBuf.putSlice, List.length_append, List.length_singleton] at hbegins
    exact hbegins

variable {inbound : List (List UInt8)} {cx : TaskContext} {closed : Bool}

theorem pollRecv_eq_item {bytes : List UInt8} {rest : List (List UInt8)} :
    pollRecv inbound cx closed = .item bytes rest ↔ cx.budget = true ∧ inbound = bytes :: rest := by
  cases inbound <;> cases hc : closed <;> cases hb : cx.budget <;> simp [pollRecv, hb]

theorem pollRecv_eq_ended :
    pollRecv inbound cx closed = .ended ↔ cx.budget = true ∧ inbound = [] ∧ closed = true := by
  cases inbound <;> cases hc : closed <;> cases hb : cx.budget <;> simp [pollRecv, hb]

theorem pollRecv_eq_pending :
    pollRecv inbound cx closed = .pending ↔ cx.budget = true → inbound = [] ∧ closed = false := by
  cases inbound <;> cases hc : closed <;> cases hb : cx.budget <;> simp [pollRecv, hb]

theorem pollRead_spec (s : VirtualStream) (cx : TaskContext) (closed : Bool) (buf : ReadBuf) :
    let r := s.pollRead cx closed buf
    buf.filled <+: r.2.1.filled ∧ r.2.1.filled ++ r.1.waiting = buf.filled ++ s.waiting ∧
      ∃ inbound readBuffer, r.1 = { s with inbound := inbound, readBuffer := readBuffer } := by
  obtain ⟨hall, hbegins, hempty⟩ := drainBuffer_spec s.readBuffer buf
  simp only [pollRead]
  generalize hd : drainBuffer s.readBuffer buf = drained at *
  obtain ⟨rest, space⟩ := drained
  dsimp only at *
  by_cases hfull : space.remaining = 0
  · rw [if_pos hfull]
    refine ⟨hbegins, ?_, s.inbound, rest, rfl⟩
    simp only [waiting]
    rw [← List.append_assoc, hall, List.append_assoc]
  · rw [if_neg hfull]
    obtain rfl := hempty hfull
    rw [List.append_nil] at hall
    cases hrecv : pollRecv s.inbound cx closed with
    | pending => exact ⟨hbegins, by simp [waiting, hall], s.inbound, [], rfl⟩
    | ended => exact ⟨hbegins, by simp [waiting, hall], s.inbound, [], rfl⟩
    | item bytes later =>
      have hi := (pollRecv_eq_item.mp hrecv).2
      refine ⟨hbegins.trans (List.prefix_append _ _), ?_, later, _, rfl⟩
      have hsplit := List.take_append_drop (min bytes.length space.remaining) bytes
      simp only [waiting, ReadBuf.putSlice, hall, List.nil_append, hi, List.flatten_cons,
        List.append_assoc]
      rw [← List.append_assoc (bytes.take _), hsplit]

theorem pollRead_inbound (s : VirtualStream) (cx : TaskContext) (closed : Bool) (buf : ReadBuf) :
    (s.pollRead cx closed buf).1.inbound <:+ s.inbound := by
  simp only [pollRead]
  by_cases hfull : (drainBuffer s.readBuffer buf).2.remaining = 0
  · rw [if_pos hfull]
  · rw [if_neg hfull]
    cases hrecv : pollRecv s.inbound cx closed with
    | pending => exact List.suffix_rfl
    | ended => exact List.suffix_rfl
    | item bytes rest =>
      rw [(pollRecv_eq_item.mp hrecv).2]
      exact List.suffix_cons bytes rest

theorem drainBuffer_bounded (readBuffer : List UInt8) {buf : ReadBuf}
    (h : buf.filled.length ≤ buf.capacity) :
    let r := drainBuffer readBuffer buf
    r.2.capacity = buf.capacity ∧ r.2.filled.length ≤ buf.capacity := by
  induction readBuffer generalizing buf with
  | nil => exact ⟨rfl, h⟩
  | cons byte rest ih =>
    rw [drainBuffer]
    split_ifs with hroom
    · apply ih
      simp only [ReadBuf.remaining] at hroom
      simp only [ReadBuf.putSlice, List.length_append, List.length_singleton]
      omega
    · exact ⟨rfl, h⟩

theorem pollRead_bounded (s : VirtualStream) (cx : TaskContext) (closed : Bool) {buf : ReadBuf}
    (h : buf.filled.length ≤ buf.capacity) :
    let r := s.pollRead cx closed buf
    r.2.1.capacity = buf.capacity ∧ r.2.1.filled.length ≤ buf.capacity := by
  have hdrained := drainBuffer_bounded s.readBuffer h
  simp only [pollRead]
  generalize drainBuffer s.readBuffer buf = drained at hdrained ⊢
  by_cases hfull : drained.2.remaining = 0
  · rw [if_pos hfull]
    exact hdrained
  · rw [if_neg hfull]
    cases pollRecv s.inbound cx closed with
    | pending => exact hdrained
    | ended => exact hdrained
    | item bytes rest =>
      simp only [ReadBuf.putSlice, ReadBuf.remaining, List.length_append, List.length_take]
      omega

end VirtualStream

/-! ## What a list of frames carries for one stream -/

/-- The stream that a frame names. -/
def MuxFrame.streamId : MuxFrame → Option UInt32
  | .openStream streamId _ | .data streamId _ | .close streamId => some streamId
  | .control _ => none

def MuxFrame.isOpen : MuxFrame → Bool
  | .openStream _ _ => true
  | _ => false

/-- The payloads of a stream up to its first Close. -/
def carried (streamId : UInt32) : List MuxFrame → List UInt8
  | [] => []
  | .data other payload :: frames =>
    if other = streamId then payload ++ carried streamId frames else carried streamId frames
  | .close other :: frames => if other = streamId then [] else carried streamId frames
  | .openStream _ _ :: frames | .control _ :: frames => carried streamId frames

/-- The payloads of a stream, those after its Close too. -/
def carriedAll (streamId : UInt32) : List MuxFrame → List UInt8
  | [] => []
  | .data other payload :: frames =>
    if other = streamId then payload ++ carriedAll streamId frames else carriedAll streamId frames
  | .close _ :: frames | .openStream _ _ :: frames | .control _ :: frames =>
      carriedAll streamId frames

variable {i : UInt32} {frames frames' : List MuxFrame}

theorem carried_append : carried i (frames ++ frames') =
    carried i frames ++ if .close i ∈ frames then [] else carried i frames' := by
  induction frames with
  | nil => simp [carried]
  | cons f frames ih =>
    cases f with
    | data j payload =>
      by_cases h : j = i
      · simp [carried, h, ih]
      · simp [carried, h, ih]
    | close j =>
      by_cases h : j = i
      · simp [carried, h]
      · simp [carried, h, ih, Ne.symm h]
    | openStream j request => simp [carried, ih]
    | control message => simp [carried, ih]

theorem carriedAll_append :
    carriedAll i (frames ++ frames') = carriedAll i frames ++ carriedAll i frames' := by
  induction frames with
  | nil => rfl
  | cons f frames ih =>
    cases f with
    | data j payload =>
      by_cases h : j = i <;> simp [carriedAll, h, ih]
    | _ => simp [carriedAll, ih]

theorem carried_mono (h : frames <+: frames') : carried i frames <+: carried i frames' := by
  obtain ⟨rest, rfl⟩ := h
  rw [carried_append]
  exact List.prefix_append _ _

theorem carried_eq_of_close (h : frames <+: frames') (hc : .close i ∈ frames) :
    carried i frames = carried i frames' := by
  obtain ⟨rest, rfl⟩ := h
  rw [carried_append, if_pos hc, List.append_nil]

theorem carried_prefix_carriedAll : carried i frames <+: carriedAll i frames := by
  induction frames with
  | nil => exact List.prefix_rfl
  | cons f frames ih =>
    cases f with
    | data j payload =>
      by_cases h : j = i
      · simpa [carried, carriedAll, h] using ih
      · simpa [carried, carriedAll, h] using ih
    | close j =>
      by_cases h : j = i
      · simp [carried, h]
      · simpa [carried, carriedAll, h] using ih
    | openStream j request => exact ih
    | control message => exact ih

theorem carriedAll_eq_carried (h : .close i ∉ frames) : carriedAll i frames = carried i frames := by
  induction frames with
  | nil => rfl
  | cons f frames ih =>
    have hrest := ih fun hm => h (List.mem_cons_of_mem _ hm)
    cases f with
    | data j payload => simp [carried, carriedAll, hrest]
    | close j =>
      have hj : j ≠ i := by
        rintro rfl
        exact h List.mem_cons_self
      simp [carried, carriedAll, hj, hrest]
    | openStream j request => exact hrest
    | control message => exact hrest

theorem carriedAll_sublist (h : frames.Sublist frames') :
    (carriedAll i frames).Sublist (carriedAll i frames') := by
  induction h with
  | slnil => exact List.Sublist.refl _
  | @cons l₁ l₂ f _ ih =>
    cases f with
    | data j payload =>
      by_cases hj : j = i
      · simpa [carriedAll, hj] using ih.trans (List.sublist_append_right payload _)
      · simpa [carriedAll, hj] using ih
    | _ => exact ih
  | @cons_cons l₁ l₂ f _ ih =>
    cases f with
    | data j payload =>
      by_cases hj : j = i
      · simpa [carriedAll, hj] using ih
      · simpa [carriedAll, hj] using ih
    | _ => exact ih

theorem carriedAll_eq_nil (h : ∀ f ∈ frames, f.streamId = some i → f.isOpen = true) :
    carriedAll i frames = [] := by
  induction frames with
  | nil => rfl
  | cons f frames ih =>
    have hrest := ih fun g hg => h g (List.mem_cons_of_mem _ hg)
    have hf := h f List.mem_cons_self
    cases f with
    | data j payload =>
      have hj : j ≠ i := fun he => Bool.false_ne_true (hf (congrArg some he))
      simpa [carriedAll, hj] using hrest
    | _ => exact hrest

theorem carried_eq_nil (h : ∀ f ∈ frames, f.streamId = some i → f.isOpen = true) :
    carried i frames = [] :=
  List.prefix_nil.mp (carriedAll_eq_nil h ▸ carried_prefix_carriedAll)

theorem carried_append_others {other : Option MuxFrame} (h : ∀ f ∈ other, f.streamId ≠ some i) :
    carried i (frames ++ other.toList) = carried i frames ∧
      carriedAll i (frames ++ other.toList) = carriedAll i frames := by
  have hone : ∀ f ∈ other.toList, f.streamId = some i → f.isOpen = true := fun f hf he =>
    absurd he (h f (Option.mem_toList.mp hf))
  rw [carried_append, carriedAll_append, carried_eq_nil hone, carriedAll_eq_nil hone]
  simp

end NodeAccess.Mux
