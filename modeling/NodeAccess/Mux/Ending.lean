import NodeAccess.Mux.Loops
import NodeAccess.Mux.Messages

/-! # The end of `read_loop`

When `read_loop` ends it drops its hold on the stream table, but every stream holds the table
too, and with it the sender of its own queue. A stream that still has its entry then waits for
bytes that nobody will send.
-/

namespace NodeAccess.Mux

open Foundation Crypto

inductive MuxEvent where
  | call (event : StreamEvent)
  | writeLoop
  | writerEnd
  | readLoop (message : List UInt8)
  | readerEnd
deriving DecidableEq, Repr

/-- The steps of one connection, whatever its peer sends. The websocket may fail at any time. -/
def MuxConnection.step (serde : SerdeSlice) (aes : AesGcm) (m : MuxConnection) :
    MuxEvent → Option MuxConnection
  | .call event => m.call event
  | .writeLoop => (m.writeLoop serde aes).map Prod.fst
  | .writerEnd => some m.stopWriter
  | .readLoop message => if m.readerOpen then some (m.readLoop serde aes message) else none
  | .readerEnd => some { m with readerOpen := false }

/-- The table holds no sender of this stream's queue, so that a read returns what waits for it
and waits itself only until its task has budget again. -/
def Endpoint.Ended (e : Endpoint) (ref : StreamRef) (s : VirtualStream) : Prop :=
  e.streams.get s.streamId ≠ some ref ∧
    ∀ cx buf, let r := s.pollRead cx (decide (e.streams.get s.streamId ≠ some ref)) buf
      (cx.budget = true → r.2.2 = .ready) ∧
        r.2.1.filled ++ r.1.waiting = buf.filled ++ s.waiting

/-- `read_loop` ends in this move. -/
def EndsReader (serde : SerdeSlice) (aes : AesGcm) (move : Move MuxConnection MuxEvent) : Prop :=
  move.event = .readerEnd ∨
    ∃ message e, move.event = .readLoop message ∧
      readFrame serde aes move.before.crypto message = .error e

/-- What takes the sender of a stream of this id out of the table: its Close frame, another
stream that is opened under the id, or the removal that the drop of one has spawned. -/
def Severs (serde : SerdeSlice) (aes : AesGcm) (i : UInt32) (move : Move MuxConnection MuxEvent) :
    Prop :=
  match move.event with
  | .readLoop message =>
    readFrame serde aes move.before.crypto message = .ok (.close i) ∨
      ∃ request, readFrame serde aes move.before.crypto message = .ok (.openStream i request)
  | .call (.openFinish j _) | .call (.reap j) => j = i
  | _ => False

/-- When `read_loop` ends, each live stream has been severed since it was made, and no stream is
opened after that unless its Open is refused. -/
structure Orderly (serde : SerdeSlice) (aes : AesGcm) (earlier : List (Move MuxConnection MuxEvent))
    (move : Move MuxConnection MuxEvent) : Prop where
  ends : move.before.readerOpen = true → EndsReader serde aes move →
    ∀ ref s, move.before.endpoint.live ref = some s →
      ∃ cut ∈ earlier, ref < cut.before.endpoint.created ∧ Severs serde aes s.streamId cut
  opens : move.before.readerOpen = false → ∀ i request, move.event = .call (.openFinish i request) →
    move.before.endpoint.writerOpen = false

theorem VirtualStream.pollRead_closed (s : VirtualStream) {cx : TaskContext}
    (hbudget : cx.budget = true) (buf : ReadBuf) : (s.pollRead cx true buf).2.2 = .ready := by
  simp only [pollRead]
  by_cases hfull : (drainBuffer s.readBuffer buf).2.remaining = 0
  · rw [if_pos hfull]
  · rw [if_neg hfull]
    cases hrecv : pollRecv s.inbound cx true with
    | pending => exact absurd (pollRecv_eq_pending.mp hrecv hbudget).2 (by decide)
    | ended => rfl
    | item bytes rest => rfl

theorem Endpoint.ended_iff {e : Endpoint} {ref : StreamRef} {s : VirtualStream} :
    e.Ended ref s ↔ e.streams.get s.streamId ≠ some ref := by
  constructor
  · exact fun h => h.1
  · intro h
    refine ⟨h, ?_⟩
    intro cx buf
    rw [decide_eq_true h]
    exact ⟨fun hbudget => s.pollRead_closed hbudget buf, (s.pollRead_spec cx true buf).2.1⟩

namespace Endpoint

variable {e e' : Endpoint} {event : StreamEvent}

theorem live_of_call (hs : e.step event = some e') (hcall : event.isCall = true)
    (hrefused : ∀ i request, event = .openFinish i request → e.writerOpen = false) :
    ∀ r s', e'.live r = some s' → ∃ s, e.live r = some s ∧ s.streamId = s'.streamId := by
  have hsame : e'.stream = e.stream →
      ∀ r s', e'.live r = some s' → ∃ s, e.live r = some s ∧ s.streamId = s'.streamId := by
    intro hstream r s' hl
    refine ⟨s', ?_, rfl⟩
    rwa [Endpoint.live, hstream] at hl
  have htouches : (∃ r s, e.Touches e' r s) →
      ∀ r s', e'.live r = some s' → ∃ s, e.live r = some s ∧ s.streamId = s'.streamId := by
    rintro ⟨r, s, ht⟩ q t hl
    obtain ⟨s', hstream, hid⟩ := ht.stream
    rw [live_eq_some, hstream] at hl
    rcases update_some_cases hl.1 with ⟨rfl, rfl⟩ | ⟨-, hold⟩
    · exact ⟨s, ht.live, hid.symm⟩
    · exact ⟨t, live_eq_some.mpr ⟨hold, hl.2⟩, rfl⟩
  cases event with
  | openBegin request =>
    obtain rfl := Option.some.inj hs
    exact hsame rfl
  | openFinish i request =>
    rw [Endpoint.step, Option.ite_none_right_eq_some] at hs
    obtain rfl := Option.some.inj hs.2
    rw [openFinish, if_neg (by simp [hrefused i request rfl])]
    exact fun r s' hl => ⟨s', hl, rfl⟩
  | sendControl message =>
    obtain rfl := Option.some.inj hs
    exact hsame rfl
  | pollWrite r data => exact htouches ⟨r, touches_of_step hs rfl⟩
  | pollShutdown r => exact htouches ⟨r, touches_of_step hs rfl⟩
  | drop r => exact htouches ⟨r, touches_of_step hs rfl⟩
  | pollRead r cx buf => exact htouches ⟨r, touches_of_step hs rfl⟩
  | reap i =>
    rw [Endpoint.step, Option.ite_none_right_eq_some] at hs
    obtain rfl := Option.some.inj hs.2
    exact hsame rfl
  | receive frame => cases hcall
  | writerStop => cases hcall

theorem entry_of_step (hs : e.step event = some e') :
    e.created ≤ e'.created ∧
      ∀ i r, e'.streams.get i = some r → e.streams.get i = some r ∨ e.created ≤ r := by
  have hinsert :
      ∀ (table : Table UInt32 StreamRef) j i r, (table.insert j e.created).get i = some r →
      table.get i = some r ∨ e.created ≤ r := by
    intro table j i r he
    by_cases hi : i = j
    · rw [hi, Table.get_insert_self, Option.some.injEq] at he
      exact .inr he.le
    · rw [Table.get_insert_of_ne hi] at he
      exact .inl he
  have hremove : ∀ (table : Table UInt32 StreamRef) j i r, (table.remove j).get i = some r →
      table.get i = some r ∨ e.created ≤ r := by
    intro table j i r he
    rw [Table.get_remove] at he
    split_ifs at he
    exact .inl he
  have htouches : (∃ r s, e.Touches e' r s) → e.created ≤ e'.created ∧
      ∀ i r, e'.streams.get i = some r → e.streams.get i = some r ∨ e.created ≤ r := by
    rintro ⟨r, s, ht⟩
    rw [ht.table.1, ht.table.2]
    exact ⟨le_rfl, fun _ _ => .inl⟩
  cases event with
  | openBegin request =>
    obtain rfl := Option.some.inj hs
    exact ⟨le_rfl, fun _ _ => .inl⟩
  | openFinish j request =>
    rw [Endpoint.step, Option.ite_none_right_eq_some] at hs
    obtain rfl := Option.some.inj hs.2
    unfold openFinish
    split_ifs
    · exact ⟨Nat.le_succ _, hinsert e.streams j⟩
    · exact ⟨Nat.le_succ _, hinsert e.streams j⟩
  | sendControl message =>
    obtain rfl := Option.some.inj hs
    exact ⟨le_rfl, fun _ _ => .inl⟩
  | pollWrite r data => exact htouches ⟨r, touches_of_step hs rfl⟩
  | pollShutdown r => exact htouches ⟨r, touches_of_step hs rfl⟩
  | drop r => exact htouches ⟨r, touches_of_step hs rfl⟩
  | pollRead r cx buf => exact htouches ⟨r, touches_of_step hs rfl⟩
  | reap j =>
    rw [Endpoint.step, Option.ite_none_right_eq_some] at hs
    obtain rfl := Option.some.inj hs.2
    exact ⟨le_rfl, hremove e.streams j⟩
  | receive frame =>
    obtain rfl := Option.some.inj hs
    cases frame with
    | openStream j request => exact ⟨Nat.le_succ _, hinsert e.streams j⟩
    | data j payload =>
      unfold Endpoint.receive
      dsimp only
      split <;> exact ⟨le_rfl, fun _ _ => .inl⟩
    | close j => exact ⟨le_rfl, hremove e.streams j⟩
    | control message => exact ⟨le_rfl, fun _ _ => .inl⟩
  | writerStop =>
    obtain rfl := Option.some.inj hs
    exact ⟨le_rfl, fun _ _ => .inl⟩

end Endpoint

/-! ## Along a run -/

namespace MuxConnection

variable {first : UInt32} {crypto : Option FrameCrypto} {m m' : MuxConnection}
  {serde : SerdeSlice} {aes : AesGcm} {event : MuxEvent} {ns : List (Move MuxConnection MuxEvent)}

theorem step_endpoint (hs : m.step serde aes event = some m') :
    (∃ e, event = .call e ∧ e.isCall = true ∧ m.endpoint.step e = some m'.endpoint ∧
        m'.readerOpen = m.readerOpen) ∨
      (∃ writerOpen, m'.endpoint = { m.endpoint with writerOpen := writerOpen } ∧
        (∀ i, ¬ Severs serde aes i ⟨m, event, m'⟩) ∧
        (event = .readerEnd ∧ m'.readerOpen = false ∨ m'.readerOpen = m.readerOpen)) ∨
      ∃ message, event = .readLoop message ∧ m.readerOpen = true ∧
        ((∃ frame, readFrame serde aes m.crypto message = .ok frame ∧
            m'.endpoint = m.endpoint.receive frame ∧ m'.readerOpen = true) ∨
          (∃ e, readFrame serde aes m.crypto message = .error e) ∧ m'.endpoint = m.endpoint ∧
            m'.readerOpen = false) := by
  cases event with
  | call e =>
    obtain ⟨hc, endpoint, hstep, rfl⟩ := call_eq_some hs
    exact .inl ⟨e, rfl, hc, hstep, rfl⟩
  | writeLoop =>
    obtain ⟨⟨next, message⟩, hw, rfl⟩ := Option.map_eq_some_iff.mp hs
    obtain ⟨⟨writerOpen, he⟩, hopen⟩ := writeLoop_endpoint hw
    exact .inr (.inl ⟨writerOpen, he, fun _ => not_false, .inr hopen⟩)
  | writerEnd =>
    obtain rfl := Option.some.inj hs
    exact .inr (.inl ⟨false, rfl, fun _ => not_false, .inr rfl⟩)
  | readLoop message =>
    rw [step, Option.ite_none_right_eq_some, Option.some.injEq] at hs
    obtain ⟨hopen, rfl⟩ := hs
    refine .inr (.inr ⟨message, rfl, hopen, ?_⟩)
    obtain ⟨-, -, -, ⟨frame, hread, he, hr⟩ | ⟨herror, he, hr⟩⟩ := readLoop_spec serde aes m message
    · exact .inl ⟨frame, hread, he, hr.trans hopen⟩
    · exact .inr ⟨herror, he, hr⟩
  | readerEnd =>
    obtain rfl := Option.some.inj hs
    exact .inr (.inl ⟨m.endpoint.writerOpen, rfl, fun _ => not_false, .inl ⟨rfl, rfl⟩⟩)

theorem entry_of_step (hs : m.step serde aes event = some m') :
    m.endpoint.created ≤ m'.endpoint.created ∧
      ∀ i r, m'.endpoint.streams.get i = some r →
        m.endpoint.streams.get i = some r ∨ m.endpoint.created ≤ r := by
  rcases step_endpoint hs with ⟨e, -, -, hstep, -⟩ | ⟨writerOpen, he, -⟩ |
    ⟨message, -, -, ⟨frame, -, he, -⟩ | ⟨-, he, -⟩⟩
  · exact Endpoint.entry_of_step hstep
  · rw [he]
    exact ⟨le_rfl, fun _ _ => .inl⟩
  · have hreceive : m.endpoint.step (.receive frame) = some m'.endpoint := he ▸ rfl
    exact Endpoint.entry_of_step hreceive
  · rw [he]
    exact ⟨le_rfl, fun _ _ => .inl⟩

theorem severed (hs : m.step serde aes event = some m') {i : UInt32}
    (hsevers : Severs serde aes i ⟨m, event, m'⟩) {r : StreamRef} (hr : r < m.endpoint.created) :
    m'.endpoint.streams.get i ≠ some r := by
  have hinsert : (m.endpoint.streams.insert i m.endpoint.created).get i ≠ some r := by
    rw [Table.get_insert_self]
    exact fun he => hr.ne' (Option.some.inj he)
  have hremove : (m.endpoint.streams.remove i).get i ≠ some r := by simp
  rcases step_endpoint hs with ⟨e, rfl, -, hstep, -⟩ | ⟨writerOpen, -, hno, -⟩ |
    ⟨message, rfl, -, ⟨frame, hread, he, -⟩ | ⟨⟨e, hread⟩, -⟩⟩
  · cases e with
    | openFinish j request =>
      obtain rfl : j = i := hsevers
      rw [Endpoint.step, Option.ite_none_right_eq_some] at hstep
      rw [← Option.some.inj hstep.2, Endpoint.openFinish]
      split_ifs
      · exact hinsert
      · exact hinsert
    | reap j =>
      obtain rfl : j = i := hsevers
      rw [Endpoint.step, Option.ite_none_right_eq_some] at hstep
      rw [← Option.some.inj hstep.2]
      exact hremove
    | _ => exact hsevers.elim
  · exact absurd hsevers (hno i)
  · rw [he]
    rcases hsevers with hclose | ⟨request, hopen⟩
    · obtain rfl := Except.ok.inj (hread.symm.trans hclose)
      exact hremove
    · obtain rfl := Except.ok.inj (hread.symm.trans hopen)
      exact hinsert
  · rcases hsevers with hclose | ⟨request, hopen⟩
    · cases hread.symm.trans hclose
    · cases hread.symm.trans hopen

/-- What has been severed stays out of the table. -/
structure Cut (serde : SerdeSlice) (aes : AesGcm) (ns : List (Move MuxConnection MuxEvent))
    (m : MuxConnection) : Prop where
  created : ∀ cut ∈ ns, cut.before.endpoint.created ≤ m.endpoint.created
  entry : ∀ cut ∈ ns, ∀ i r, r < cut.before.endpoint.created → Severs serde aes i cut →
    m.endpoint.streams.get i ≠ some r

theorem Cut.step (h : m.Cut serde aes ns) (hs : m.step serde aes event = some m') :
    m'.Cut serde aes (ns ++ [⟨m, event, m'⟩]) := by
  obtain ⟨hcreated, hentry⟩ := entry_of_step hs
  constructor
  · intro cut hc
    rcases List.mem_append.mp hc with hc | hc
    · exact (h.created cut hc).trans hcreated
    · obtain rfl := List.mem_singleton.mp hc
      exact hcreated
  · intro cut hc i r hr hsevers
    rcases List.mem_append.mp hc with hc | hc
    · intro he
      rcases hentry i r he with hold | hnew
      · exact h.entry cut hc i r hr hsevers hold
      · exact absurd (hr.trans_le (h.created cut hc)) (Nat.not_lt.mpr hnew)
    · obtain rfl := List.mem_singleton.mp hc
      exact severed hs hsevers hr

/-- Once `read_loop` has ended, every live stream has been severed. -/
def Finished (serde : SerdeSlice) (aes : AesGcm) (ns : List (Move MuxConnection MuxEvent))
    (m : MuxConnection) : Prop :=
  m.readerOpen = false → ∀ ref s, m.endpoint.live ref = some s →
    ∃ cut ∈ ns, ref < cut.before.endpoint.created ∧ Severs serde aes s.streamId cut

theorem Finished.step (h : m.Finished serde aes ns) (hs : m.step serde aes event = some m')
    (horderly : Orderly serde aes ns ⟨m, event, m'⟩) :
    m'.Finished serde aes (ns ++ [⟨m, event, m'⟩]) := by
  intro hend ref s' hl'
  suffices hcut :
      ∃ cut ∈ ns, ref < cut.before.endpoint.created ∧ Severs serde aes s'.streamId cut by
    obtain ⟨cut, hc, hsevered⟩ := hcut
    exact ⟨cut, List.mem_append_left _ hc, hsevered⟩
  rcases step_endpoint hs with ⟨e, rfl, hc, hstep, hr⟩ | ⟨writerOpen, he, -, hr⟩ |
    ⟨message, rfl, hopen, ⟨frame, -, -, hr⟩ | ⟨herror, he, -⟩⟩
  · rw [hr] at hend
    obtain ⟨s, hl, hid⟩ := Endpoint.live_of_call hstep hc
      (fun i request he => horderly.opens hend i request (congrArg MuxEvent.call he)) ref s' hl'
    rw [← hid]
    exact h hend ref s hl
  · rw [he] at hl'
    by_cases hopen : m.readerOpen = true
    · rcases hr with ⟨rfl, -⟩ | hr
      · exact horderly.ends hopen (.inl rfl) ref s' hl'
      · rw [hr, hopen] at hend
        cases hend
    · exact h (Bool.eq_false_of_not_eq_true hopen) ref s' hl'
  · rw [hr] at hend
    cases hend
  · rw [he] at hl'
    obtain ⟨error, herror⟩ := herror
    exact horderly.ends hopen (.inr ⟨message, error, rfl, herror⟩) ref s' hl'

end MuxConnection

/-- One stream is closed by the peer and the other dropped before the websocket fails, and a stream
that is opened later is refused. -/
def closedStream : List MuxEvent :=
  [.call (.openBegin .socks), .call (.openFinish 1 .socks), .call (.openBegin .socks),
    .call (.openFinish 3 .socks), .readLoop [3, 0, 0, 0, 1], .call (.drop 1), .readerEnd,
      .writerEnd,
    .call (.openBegin .socks), .call (.openFinish 5 .socks)]

theorem orderly_closedStream : ∀ ns₁ move ns₂,
    history (MuxConnection.step .plain clearCipher) (.start 1 none) closedStream =
      ns₁ ++ move :: ns₂ →
      Orderly .plain clearCipher ns₁ move := by
  -- What neither ends the loop nor comes after its end is in order.
  have hopen : ∀ earlier (move : Move MuxConnection MuxEvent), move.before.readerOpen = true →
      ¬ EndsReader .plain clearCipher move → Orderly .plain clearCipher earlier move := by
    intro earlier move hopen hgoes
    constructor
    · exact fun _ hends => absurd hends hgoes
    · intro hend
      rw [hopen] at hend
      cases hend
  have hcall : ∀ (before after : MuxConnection) event,
      ¬ EndsReader .plain clearCipher ⟨before, .call event, after⟩ := by
    rintro before after event (he | ⟨message, e, he, -⟩) <;> cases he
  refine forall_split_history (C := Orderly .plain clearCipher) (by decide +kernel) ?_
  intro k hk
  have hk : k < 10 := hk
  interval_cases k
  · exact hopen _ _ rfl (hcall _ _ _)
  · exact hopen _ _ rfl (hcall _ _ _)
  · exact hopen _ _ rfl (hcall _ _ _)
  · exact hopen _ _ rfl (hcall _ _ _)
  · apply hopen _ _ rfl
    rintro (he | ⟨message, e, he, herror⟩)
    · cases he
    · cases he
      cases herror
  · exact hopen _ _ rfl (hcall _ _ _)
  · constructor
    · intro _ _ ref s hl
      rcases ref with _ | _ | ref
      · obtain rfl := Option.some.inj (show some (VirtualStream.new 1) = some s from hl)
        exact ⟨_, List.getElem_mem (n := 4) (by decide), by decide, .inl rfl⟩
      · cases hl
      · cases hl
    · intro hend
      cases hend
  · exact ⟨fun hend => absurd hend Bool.false_ne_true, fun _ i request he => by cases he⟩
  · exact ⟨fun hend => absurd hend Bool.false_ne_true, fun _ i request he => by cases he⟩
  · exact ⟨fun hend => absurd hend Bool.false_ne_true, fun _ _ _ _ => rfl⟩

/-- The websocket fails under an open stream. -/
def openStream : List MuxEvent :=
  [.call (.openBegin .socks), .call (.openFinish 1 .socks), .readerEnd]

end NodeAccess.Mux
