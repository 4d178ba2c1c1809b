import NodeAccess.Mux.Stream

/-! # The contract of `poll_read`

A reader takes a poll that is ready and adds nothing for the end of the stream. `poll_read`
always gives out the next bytes in order, but it can be ready without a byte before the end:
for an empty payload, and when `poll_recv` is pending, be it for an idle queue or for a budget
that is used up, while the caller's buffer is partly filled.
-/

namespace NodeAccess.Mux.VirtualStream

/-- What a caller of `poll_read` relies on. -/
structure ReadContract (s : VirtualStream) (cx : TaskContext) (closed : Bool) (buf : ReadBuf) :
    Prop where
  content : ∃ given, (s.pollRead cx closed buf).2.1.filled = buf.filled ++ given ∧
    s.waiting = given ++ (s.pollRead cx closed buf).1.waiting
  bounded : buf.filled.length ≤ buf.capacity →
    (s.pollRead cx closed buf).2.1.filled.length ≤ buf.capacity
  ready : 0 < buf.remaining → (s.pollRead cx closed buf).2.2 = .ready →
    (s.pollRead cx closed buf).2.1.filled = buf.filled → closed = true ∧ s.waiting = []
  pending : (s.pollRead cx closed buf).2.2 = .pending →
    (s.pollRead cx closed buf).2.1.filled = buf.filled

/-- There is room, nothing in the read buffer, and more to come than the end; and the poll, with
budget, comes upon an empty payload, or it finds an idle queue or no budget while the caller's
buffer is partly filled. -/
def FalseEnd (s : VirtualStream) (cx : TaskContext) (closed : Bool) (buf : ReadBuf) : Prop :=
  0 < buf.remaining ∧ s.readBuffer = [] ∧ ¬ (closed = true ∧ s.inbound.flatten = []) ∧
    match cx.budget, s.inbound with
    | true, payload :: _ => payload = []
    | _, _ => buf.filled ≠ []

variable {s : VirtualStream} {cx : TaskContext} {closed : Bool} {buf : ReadBuf}

theorem drainBuffer_nil (buf : ReadBuf) : drainBuffer [] buf = ([], buf) := rfl

theorem drainBuffer_prefix_pollRead (s : VirtualStream) (cx : TaskContext) (closed : Bool)
    (buf : ReadBuf) :
    (drainBuffer s.readBuffer buf).2.filled <+: (s.pollRead cx closed buf).2.1.filled := by
  simp only [pollRead]
  by_cases hfull : (drainBuffer s.readBuffer buf).2.remaining = 0
  · rw [if_pos hfull]
  · rw [if_neg hfull]
    cases pollRecv s.inbound cx closed with
    | pending => exact List.prefix_rfl
    | ended => exact List.prefix_rfl
    | item payload rest => exact List.prefix_append _ _

theorem pollRead_filled (cx : TaskContext) (closed : Bool) (hbuffer : s.readBuffer ≠ [])
    (hroom : 0 < buf.remaining) : (s.pollRead cx closed buf).2.1.filled ≠ buf.filled := by
  intro h
  have hmoved := drainBuffer_filled hbuffer hroom
  have hbegins := (drainBuffer_prefix_pollRead s cx closed buf).length_le
  rw [h] at hbegins
  omega

theorem pollRead_of_empty (cx : TaskContext) (closed : Bool) (hbuffer : s.readBuffer = [])
    (hroom : 0 < buf.remaining) :
    (s.pollRead cx closed buf).2 =
      match pollRecv s.inbound cx closed with
      | .item payload _ =>
        (buf.putSlice (payload.take (min payload.length buf.remaining)), .ready)
      | .ended => (buf, .ready)
      | .pending => (buf, if buf.filled = [] then .pending else .ready) := by
  have hfull : ¬ buf.remaining = 0 := by omega
  simp only [pollRead, hbuffer, drainBuffer_nil, if_neg hfull]
  cases pollRecv s.inbound cx closed <;> rfl

theorem pollRead_pending (h : (s.pollRead cx closed buf).2.2 = .pending) :
    (s.pollRead cx closed buf).2.1.filled = [] := by
  simp only [pollRead] at h ⊢
  by_cases hfull : (drainBuffer s.readBuffer buf).2.remaining = 0
  · simp [hfull] at h
  · rw [if_neg hfull] at h ⊢
    cases hrecv : pollRecv s.inbound cx closed with
    | item payload rest => simp [hrecv] at h
    | ended => simp [hrecv] at h
    | pending => simpa [hrecv] using h

/-- A poll is ready without a byte, though there was room and the end has not come, exactly in
these states. -/
theorem ready_empty_iff (hroom : 0 < buf.remaining) :
    ((s.pollRead cx closed buf).2.2 = .ready ∧
      (s.pollRead cx closed buf).2.1.filled = buf.filled ∧
      ¬ (closed = true ∧ s.waiting = [])) ↔ s.FalseEnd cx closed buf := by
  by_cases hbuffer : s.readBuffer = []
  · have hwaiting : s.waiting = s.inbound.flatten := by simp [waiting, hbuffer]
    rw [pollRead_of_empty cx closed hbuffer hroom, hwaiting, FalseEnd]
    cases hrecv : pollRecv s.inbound cx closed with
    | item payload rest =>
      obtain ⟨hbudget, hi⟩ := pollRecv_eq_item.mp hrecv
      have hcopy : payload.take (min payload.length buf.remaining) = [] ↔ payload = [] := by
        rw [List.take_eq_nil_iff]
        constructor
        · rintro (h | h)
          · exact List.length_eq_zero_iff.mp (by omega)
          · exact h
        · exact fun h => .inr h
      by_cases hp : payload = [] <;>
        simp [ReadBuf.putSlice, hroom, hbuffer, hbudget, hi, hp, hcopy]
    | ended =>
      obtain ⟨-, hi, hclosed⟩ := pollRecv_eq_ended.mp hrecv
      simp [hi, hclosed]
    | pending =>
      have hidle := pollRecv_eq_pending.mp hrecv
      cases hbudget : cx.budget with
      | true => simp [hroom, hbuffer, (hidle hbudget).1, (hidle hbudget).2]
      | false =>
        cases hi : s.inbound <;> simp [hroom, hbuffer, and_comm]
  · have hfilled := pollRead_filled cx closed hbuffer hroom
    simp [FalseEnd, hbuffer, hfilled]

/-- The contract is kept exactly when the poll is no false end of the stream. -/
theorem pollRead_contract_iff (s : VirtualStream) (cx : TaskContext) (closed : Bool)
    (buf : ReadBuf) : s.ReadContract cx closed buf ↔ ¬ s.FalseEnd cx closed buf := by
  constructor
  · intro h hend
    obtain ⟨hready, hfilled, hmore⟩ := (ready_empty_iff hend.1).mpr hend
    exact hmore (h.ready hend.1 hready hfilled)
  · intro hend
    obtain ⟨hbegins, hrest, -⟩ := pollRead_spec s cx closed buf
    constructor
    · obtain ⟨given, hgiven⟩ := hbegins
      refine ⟨given, hgiven.symm, ?_⟩
      rw [← hgiven, List.append_assoc] at hrest
      exact (List.append_cancel_left hrest).symm
    · exact fun hbuf => (pollRead_bounded s cx closed hbuf).2
    · intro hroom hready hfilled
      by_contra hmore
      exact hend ((ready_empty_iff hroom).mp ⟨hready, hfilled, hmore⟩)
    · intro hpending
      have hnone := pollRead_pending hpending
      rw [hnone] at hbegins ⊢
      exact (List.prefix_nil.mp hbegins).symm

/-- An empty Data frame, a pause after part of a message, and a spent budget with a byte in the
queue each look like the end. -/
theorem false_end_of_emptyPayload_of_pause_and_of_spentBudget :
    ¬ ({ new 1 with inbound := [[], [7]] } : VirtualStream).ReadContract ⟨true⟩ false ⟨4, []⟩ ∧
      ¬ (new 1).ReadContract ⟨true⟩ false ⟨4, [5]⟩ ∧
      ¬ ({ new 1 with inbound := [[7]] } : VirtualStream).ReadContract ⟨false⟩ false ⟨4, [5]⟩ := by
  refine ⟨?_, ?_, ?_⟩
  · intro h
    have hend := h.ready (by decide) (by decide) (by decide)
    exact absurd hend.1 (by decide)
  · intro h
    have hend := h.ready (by decide) (by decide) (by decide)
    exact absurd hend.1 (by decide)
  · intro h
    have hend := h.ready (by decide) (by decide) (by decide)
    exact absurd hend.1 (by decide)

end NodeAccess.Mux.VirtualStream
