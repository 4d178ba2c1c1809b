import Mathlib.Tactic

/-! # Bounded channels with one receiver

`trySend` never waits: it fails when the channel is full or when the receiver is
gone. The history of a channel records what was let in and what was taken out.
-/

namespace NodeAccess.Foundation

structure Channel (α : Type*) where
  capacity : ℕ
  waiting : List α
  closed : Bool
  queued : List α
  taken : List α
  refused : Bool

inductive TrySend where
  | sent
  | full
  | closed
deriving DecidableEq, Repr

namespace Channel

variable {α : Type*}

def new (capacity : ℕ) : Channel α := ⟨capacity, [], false, [], [], false⟩

def hasRoom (c : Channel α) : Bool := c.waiting.length < c.capacity

def trySend (c : Channel α) (a : α) : Channel α × TrySend :=
  if c.closed then ({ c with refused := true }, .closed)
  else if c.hasRoom then
    ({ c with waiting := c.waiting ++ [a], queued := c.queued ++ [a] }, .sent)
  else ({ c with refused := true }, .full)

/-- The receiver takes the oldest message, if there is one. -/
def recv (c : Channel α) : Channel α :=
  match c.waiting with
  | [] => c
  | a :: rest => { c with waiting := rest, taken := c.taken ++ [a] }

/-- The receiver is dropped, with the messages that still wait. -/
def close (c : Channel α) : Channel α := { c with waiting := [], closed := true }

/-- What was taken out is what was let in first; an open channel holds the rest, and a
closed one holds nothing. -/
structure Coherent (c : Channel α) : Prop where
  taken_prefix : c.taken <+: c.queued
  queued_eq : c.closed = false → c.queued = c.taken ++ c.waiting
  waiting_eq : c.closed = true → c.waiting = []

theorem coherent_new (capacity : ℕ) : (new capacity : Channel α).Coherent :=
  ⟨List.nil_prefix, fun _ => rfl, fun _ => rfl⟩

theorem trySend_cases (c : Channel α) (a : α) :
    (c.closed = true ∧ c.trySend a = ({ c with refused := true }, .closed)) ∨
    (c.closed = false ∧ c.hasRoom = true ∧
      c.trySend a = ({ c with waiting := c.waiting ++ [a], queued := c.queued ++ [a] }, .sent)) ∨
    (c.closed = false ∧ c.hasRoom = false ∧ c.trySend a = ({ c with refused := true }, .full)) := by
  unfold trySend
  cases hc : c.closed <;> cases hr : c.hasRoom <;> simp

theorem Coherent.trySend {c : Channel α} (h : c.Coherent) (a : α) : (c.trySend a).1.Coherent := by
  rcases c.trySend_cases a with ⟨hc, he⟩ | ⟨hc, hr, he⟩ | ⟨hc, hr, he⟩ <;> rw [he]
  · exact ⟨h.taken_prefix, h.queued_eq, h.waiting_eq⟩
  · constructor
    · exact h.taken_prefix.trans (List.prefix_append _ _)
    · intro ho
      change c.queued ++ [a] = c.taken ++ (c.waiting ++ [a])
      rw [h.queued_eq ho, List.append_assoc]
    · intro ho
      exact absurd (hc.symm.trans ho) (by decide)
  · exact ⟨h.taken_prefix, h.queued_eq, h.waiting_eq⟩

theorem Coherent.recv {c : Channel α} (h : c.Coherent) : c.recv.Coherent := by
  unfold Channel.recv
  cases hw : c.waiting with
  | nil => exact h
  | cons a rest =>
    have hc : c.closed = false := by
      cases hc : c.closed with
      | false => rfl
      | true => simp [h.waiting_eq hc] at hw
    have hq : c.queued = (c.taken ++ [a]) ++ rest := by
      rw [h.queued_eq hc, hw, List.append_assoc]
      rfl
    exact ⟨⟨rest, hq.symm⟩, fun _ => hq, fun ho => absurd (hc.symm.trans ho) (by decide)⟩

theorem Coherent.close {c : Channel α} (h : c.Coherent) : c.close.Coherent :=
  ⟨h.taken_prefix, (fun hc => by cases hc), fun _ => rfl⟩

@[simp] theorem recv_queued (c : Channel α) : c.recv.queued = c.queued := by
  unfold recv
  split <;> rfl

@[simp] theorem recv_closed (c : Channel α) : c.recv.closed = c.closed := by
  unfold recv
  split <;> rfl

@[simp] theorem recv_refused (c : Channel α) : c.recv.refused = c.refused := by
  unfold recv
  split <;> rfl

@[simp] theorem recv_capacity (c : Channel α) : c.recv.capacity = c.capacity := by
  unfold recv
  split <;> rfl

@[simp] theorem trySend_capacity (c : Channel α) (a : α) :
    (c.trySend a).1.capacity = c.capacity := by
  rcases c.trySend_cases a with ⟨_, he⟩ | ⟨_, _, he⟩ | ⟨_, _, he⟩ <;> rw [he]

@[simp] theorem trySend_closed (c : Channel α) (a : α) : (c.trySend a).1.closed = c.closed := by
  rcases c.trySend_cases a with ⟨_, he⟩ | ⟨_, _, he⟩ | ⟨_, _, he⟩ <;> rw [he]

@[simp] theorem trySend_taken (c : Channel α) (a : α) : (c.trySend a).1.taken = c.taken := by
  rcases c.trySend_cases a with ⟨_, he⟩ | ⟨_, _, he⟩ | ⟨_, _, he⟩ <;> rw [he]

theorem taken_prefix_recv (c : Channel α) : c.taken <+: c.recv.taken := by
  unfold recv
  split
  · exact List.prefix_rfl
  · exact List.prefix_append _ _

/-- What a channel has let in only grows. -/
theorem queued_prefix_trySend (c : Channel α) (a : α) : c.queued <+: (c.trySend a).1.queued := by
  rcases c.trySend_cases a with ⟨_, he⟩ | ⟨_, _, he⟩ | ⟨_, _, he⟩ <;> rw [he]
  exact List.prefix_append _ _

theorem waiting_prefix_trySend (c : Channel α) (a : α) : c.waiting <+: (c.trySend a).1.waiting := by
  rcases c.trySend_cases a with ⟨_, he⟩ | ⟨_, _, he⟩ | ⟨_, _, he⟩ <;> rw [he]
  exact List.prefix_append _ _

theorem refused_mono {c : Channel α} (a : α) (h : c.refused = true) :
    (c.trySend a).1.refused = true := by
  rcases c.trySend_cases a with ⟨_, he⟩ | ⟨_, _, he⟩ | ⟨_, _, he⟩ <;> rw [he]
  exact h

/-- One `trySend`: either the message was let in, or a refusal is on record. -/
theorem refused_of_trySend {c : Channel α} {a : α} (h : (c.trySend a).1.refused = false) :
    c.refused = false ∧ (c.trySend a).1.queued = c.queued ++ [a] ∧ (c.trySend a).2 = .sent := by
  rcases c.trySend_cases a with ⟨_, he⟩ | ⟨_, _, he⟩ | ⟨_, _, he⟩ <;> rw [he] at h ⊢
  · cases h
  · exact ⟨h, rfl, rfl⟩
  · cases h

end Channel

end NodeAccess.Foundation
