import NodeAccess.Mux.Endpoint

/-! # The invariant of one end

Every stream has an id of its own; the table feeds each live stream until the peer's
Close; what the stream has handed out, together with what waits in it, is what the
frames of its id have carried, and what was written to it is what its own frames carry.
The invariant holds as long as the peer's frames arrive in an acceptable order.
-/

namespace NodeAccess.Mux

open Foundation

namespace Endpoint

/-- What the histories and the table say about one stream. -/
structure Serves (e : Endpoint) (ref : StreamRef) (s : VirtualStream) : Prop where
  entry : s.dropped = false →
    e.streams.get s.streamId = if .close s.streamId ∈ e.arrived then none else some ref
  content : s.dropped = false → s.handed ++ s.waiting = carried s.streamId e.arrived
  handed : s.handed <+: carried s.streamId e.arrived
  written : s.written = carried s.streamId e.sent
  accepted : s.written ++ s.late = carriedAll s.streamId e.sent
  closeOnce : e.sent.count (.close s.streamId) ≤ 1
  unclosed : s.sentClose = false → .close s.streamId ∉ e.sent
  closed : s.sentClose = true → .close s.streamId ∈ e.sent ∨ e.writerOpen = false

/-- A stream with the id exists, or has existed. -/
def HasStream (e : Endpoint) (i : UInt32) : Prop := ∃ ref s, e.stream ref = some s ∧ s.streamId = i

def OpenIn (i : UInt32) (frames : List MuxFrame) : Prop := ∃ request, .openStream i request ∈ frames

/-- A frame that follows the earlier ones: an Open comes first, other frames of an own stream
come after its Open. -/
def Follows (first : UInt32) (earlier : List MuxFrame) (frame : MuxFrame) : Prop :=
  ∀ i, frame.streamId = some i →
    (frame.isOpen = true → ∀ g ∈ earlier, g.streamId ≠ some i) ∧
      (frame.isOpen = false → Own first i → OpenIn i earlier)

structure Sound (first : UInt32) (e : Endpoint) : Prop where
  next : e.nextStreamId = idAt first e.opened
  opening : ∀ p ∈ e.opening, (∃ k < e.opened, p.1 = idAt first k) ∧ ¬ OpenIn p.1 e.sent
  openingOnce : (e.opening.map Prod.fst).Nodup
  ref : ∀ r s, e.stream r = some s → r < e.created
  entry : ∀ i r, e.streams.get i = some r → r < e.created ∧ ∀ s, e.stream r = some s →
    s.streamId = i
  unique : ∀ r r' s s', e.stream r = some s → e.stream r' = some s' → s.streamId = s'.streamId →
    r = r'
  reap : ∀ i ∈ e.reaping, ∃ r s, e.stream r = some s ∧ s.streamId = i ∧ s.dropped = true
  sentOpen : ∀ i, OpenIn i e.sent → ∃ k < e.opened, i = idAt first k
  sentBy : ∀ f ∈ e.sent, ∀ i, f.streamId = some i → e.HasStream i
  arrivedOpen : ∀ i, OpenIn i e.arrived → ¬ Own first i ∧ e.HasStream i
  own : ∀ r s, e.stream r = some s → Own first s.streamId → OpenIn s.streamId e.sent
  foreign : ∀ r s, e.stream r = some s → ¬ Own first s.streamId → OpenIn s.streamId e.arrived
  order : ∀ l f, l ++ [f] <+: e.sent → Follows first l f
  heard : ∀ f ∈ e.arrived, ∀ i, f.streamId = some i → Own first i → OpenIn i e.sent
  serves : ∀ r s, e.stream r = some s → e.Serves r s

/-- The peer keeps to its own ids: its Opens are new and its other frames answer ours. -/
structure Accepts (first : UInt32) (e : Endpoint) (frame : MuxFrame) : Prop where
  opens : ∀ i request, frame = .openStream i request →
    ¬ Own first i ∧ ∀ g ∈ e.arrived, g.streamId ≠ some i
  answers : ∀ i, frame.streamId = some i → Own first i → OpenIn i e.sent

theorem sound_start (first : UInt32) : (start first).Sound first where
  next := by simp [start, idAt]
  opening := by
    intro p hp
    cases hp
  openingOnce := List.nodup_nil
  ref := by
    intro r s hs
    cases hs
  entry := by
    intro i r hr
    simp [start] at hr
  unique := by
    intro r r' s s' hs
    cases hs
  reap := by
    intro i hi
    cases hi
  sentOpen := by
    rintro i ⟨request, hm⟩
    cases hm
  sentBy := by
    intro f hf
    cases hf
  arrivedOpen := by
    rintro i ⟨request, hm⟩
    cases hm
  own := by
    intro r s hs
    cases hs
  foreign := by
    intro r s hs
    cases hs
  order := by
    intro l f hl
    simp [start] at hl
  heard := by
    intro f hf
    cases hf
  serves := by
    intro r s hs
    cases hs

/-! ## Steps that touch one stream -/

section Update

variable {first : UInt32} {e : Endpoint} {r : StreamRef} {s s' : VirtualStream}

theorem OpenIn.append {i : UInt32} {frames : List MuxFrame} (h : OpenIn i frames)
    (more : List MuxFrame) : OpenIn i (frames ++ more) := by
  obtain ⟨request, hm⟩ := h
  exact ⟨request, List.mem_append_left _ hm⟩

theorem OpenIn.of_append {i : UInt32} {frames more : List MuxFrame} (h : OpenIn i (frames ++ more))
    (hmore : ∀ f ∈ more, f.isOpen = true → f.streamId ≠ some i) : OpenIn i frames := by
  obtain ⟨request, hm⟩ := h
  rcases List.mem_append.mp hm with hm | hm
  · exact ⟨request, hm⟩
  · exact absurd rfl (hmore _ hm rfl)

theorem order_append {frames : List MuxFrame} {frame : MuxFrame}
    (h : ∀ l f, l ++ [f] <+: frames → Follows first l f) (hframe : Follows first frames frame) :
    ∀ l f, l ++ [f] <+: frames ++ [frame] → Follows first l f := by
  intro l f hl
  rcases List.prefix_concat_iff.mp hl with he | hl
  · obtain ⟨rfl, hf⟩ := List.append_inj' he rfl
    obtain rfl := List.singleton_inj.mp hf
    exact hframe
  · exact h l f hl

theorem Serves.of_other (h : e.Serves r s) {e' : Endpoint} (frame heard : Option MuxFrame)
    (hframe : ∀ f ∈ frame, f.streamId ≠ some s.streamId)
    (hheard : ∀ f ∈ heard, f.streamId ≠ some s.streamId)
    (htable : e'.streams.get s.streamId = e.streams.get s.streamId)
    (harrived : e'.arrived = e.arrived ++ heard.toList)
    (hsent : e'.sent = e.sent ++ frame.toList)
    (hwriter : e.writerOpen = false → e'.writerOpen = false) : e'.Serves r s := by
  have hsentCarried : carried s.streamId e'.sent = carried s.streamId e.sent ∧
      carriedAll s.streamId e'.sent = carriedAll s.streamId e.sent := by
    rw [hsent]
    exact carried_append_others hframe
  have harrivedCarried : carried s.streamId e'.arrived = carried s.streamId e.arrived := by
    rw [harrived]
    exact (carried_append_others hheard).1
  have hnot : ∀ o : Option MuxFrame, (∀ f ∈ o, f.streamId ≠ some s.streamId) →
      .close s.streamId ∉ o.toList := fun o ho hm => ho _ (Option.mem_toList.mp hm) rfl
  have hclose : .close s.streamId ∈ e'.arrived ↔ .close s.streamId ∈ e.arrived := by
    rw [harrived, List.mem_append, or_iff_left (hnot heard hheard)]
  constructor
  case entry => simpa only [htable, hclose] using h.entry
  case content =>
    rw [harrivedCarried]
    exact h.content
  case handed =>
    rw [harrivedCarried]
    exact h.handed
  case written =>
    rw [hsentCarried.1]
    exact h.written
  case accepted =>
    rw [hsentCarried.2]
    exact h.accepted
  case closeOnce =>
    rw [hsent, List.count_append, List.count_eq_zero_of_not_mem (hnot frame hframe)]
    exact h.closeOnce
  case unclosed =>
    intro hc
    rw [hsent, List.mem_append, or_iff_left (hnot frame hframe)]
    exact h.unclosed hc
  case closed =>
    intro hc
    rw [hsent]
    exact (h.closed hc).imp (fun hm => List.mem_append_left _ hm) hwriter

theorem Sound.update (h : e.Sound first) (hs : e.stream r = some s) (frame : Option MuxFrame)
    (reaped : List UInt32) {e' : Endpoint}
    (he : e' = { e with
      stream := Function.update e.stream r (some s')
      sent := e.sent ++ frame.toList
      reaping := e.reaping ++ reaped })
    (hid : s'.streamId = s.streamId)
    (hframe : ∀ f ∈ frame, f.isOpen = false ∧ f.streamId = some s.streamId)
    (hreaped : ∀ i ∈ reaped, i = s.streamId ∧ s'.dropped = true)
    (hdropped : s.dropped = true → s'.dropped = true)
    (hserves : e'.Serves r s') : e'.Sound first := by
  have hnoOpen : ∀ f ∈ frame.toList, f.isOpen = true → ∀ i, f.streamId ≠ some i := by
    intro f hf ho
    rw [(hframe f (Option.mem_toList.mp hf)).1] at ho
    cases ho
  have hopen : ∀ i, OpenIn i (e.sent ++ frame.toList) → OpenIn i e.sent := fun i ho =>
    ho.of_append fun f hf hopen => hnoOpen f hf hopen i
  have hold : ∀ r₁ s₁, Function.update e.stream r (some s') r₁ = some s₁ →
      ∃ s₀, e.stream r₁ = some s₀ ∧ s₀.streamId = s₁.streamId :=
    fun r₁ s₁ h₁ => exists_of_update_some hs hid h₁
  have hhas : ∀ i, e.HasStream i → e'.HasStream i := by
    rintro i ⟨r₀, s₀, h₀, rfl⟩
    subst he
    exact ⟨r₀, exists_update_some hs hid h₀⟩
  subst he
  constructor
  case next => exact h.next
  case opening =>
    intro p hp
    exact ⟨(h.opening p hp).1, fun ho => (h.opening p hp).2 (hopen _ ho)⟩
  case openingOnce => exact h.openingOnce
  case ref =>
    intro r₁ s₁ h₁
    obtain ⟨s₀, h₀, -⟩ := hold r₁ s₁ h₁
    exact h.ref r₁ s₀ h₀
  case entry =>
    intro i r₁ hr
    refine ⟨(h.entry i r₁ hr).1, ?_⟩
    intro s₁ h₁
    obtain ⟨s₀, h₀, he⟩ := hold r₁ s₁ h₁
    rw [← he]
    exact (h.entry i r₁ hr).2 s₀ h₀
  case unique =>
    intro r₁ r₂ s₁ s₂ h₁ h₂ heq
    obtain ⟨t₁, g₁, e₁⟩ := hold r₁ s₁ h₁
    obtain ⟨t₂, g₂, e₂⟩ := hold r₂ s₂ h₂
    exact h.unique r₁ r₂ t₁ t₂ g₁ g₂ (by rw [e₁, e₂, heq])
  case reap =>
    intro i hi
    rcases List.mem_append.mp hi with hi | hi
    · obtain ⟨r₀, s₀, h₀, hid₀, hd⟩ := h.reap i hi
      by_cases hr : r₀ = r
      · rw [hr, hs, Option.some.injEq] at h₀
        subst h₀
        exact ⟨r, s', Function.update_self _ _ _, by rw [hid, hid₀], hdropped hd⟩
      · exact ⟨r₀, s₀, (Function.update_of_ne hr _ _).trans h₀, hid₀, hd⟩
    · obtain ⟨rfl, hd⟩ := hreaped i hi
      exact ⟨r, s', Function.update_self _ _ _, hid, hd⟩
  case sentOpen =>
    intro i ho
    exact h.sentOpen i (hopen i ho)
  case sentBy =>
    intro f hf i hi
    rcases List.mem_append.mp hf with hf | hf
    · exact hhas i (h.sentBy f hf i hi)
    · rw [(hframe f (Option.mem_toList.mp hf)).2, Option.some.injEq] at hi
      exact ⟨r, s', Function.update_self _ _ _, by rw [hid, hi]⟩
  case arrivedOpen =>
    intro i ho
    exact ⟨(h.arrivedOpen i ho).1, hhas i (h.arrivedOpen i ho).2⟩
  case own =>
    intro r₁ s₁ h₁ hown
    obtain ⟨s₀, h₀, he⟩ := hold r₁ s₁ h₁
    rw [← he] at hown ⊢
    exact (h.own r₁ s₀ h₀ hown).append _
  case foreign =>
    intro r₁ s₁ h₁ hown
    obtain ⟨s₀, h₀, he⟩ := hold r₁ s₁ h₁
    rw [← he] at hown ⊢
    exact h.foreign r₁ s₀ h₀ hown
  case order =>
    cases frame with
    | none => simpa using h.order
    | some f =>
      apply order_append h.order
      intro i hi
      obtain ⟨hno, hfid⟩ := hframe f rfl
      rw [hfid, Option.some.injEq] at hi
      subst hi
      refine ⟨fun ho => ?_, fun _ hown => h.own r s hs hown⟩
      rw [hno] at ho
      cases ho
  case heard =>
    intro f hf i hi hown
    exact (h.heard f hf i hi hown).append _
  case serves =>
    intro r₁ s₁ h₁
    rcases update_some_cases h₁ with ⟨rfl, rfl⟩ | ⟨hr, h₁⟩
    · exact hserves
    · have hother : ∀ f ∈ frame, f.streamId ≠ some s₁.streamId := by
        intro f hf he
        rw [(hframe f hf).2, Option.some.injEq] at he
        exact hr (h.unique r₁ r s₁ s h₁ hs he.symm)
      exact (h.serves r₁ s₁ h₁).of_other frame none hother (by simp) rfl (List.append_nil _).symm
        rfl
        fun hw => hw

theorem Sound.pollRead (h : e.Sound first) (hs : e.live r = some s) (cx : TaskContext)
    (buf : ReadBuf) : (e.pollRead r s cx buf).Sound first := by
  obtain ⟨hs, hd⟩ := live_eq_some.mp hs
  have hserves := h.serves r s hs
  obtain ⟨hbegins, hall, hrest⟩ :=
    s.pollRead_spec cx (decide (e.streams.get s.streamId ≠ some r)) buf
  generalize hread : s.pollRead cx (decide (e.streams.get s.streamId ≠ some r)) buf = read at *
  obtain ⟨next, space, poll⟩ := read
  dsimp only at hbegins hall hrest
  obtain ⟨inbound, readBuffer, rfl⟩ := hrest
  obtain ⟨more, hmore⟩ := hbegins
  have hgiven : space.filled.drop buf.filled.length = more := by rw [← hmore, List.drop_left]
  have hcontent : (s.handed ++ more) ++ (readBuffer ++ inbound.flatten) =
      carried s.streamId e.arrived := by
    rw [← hmore, List.append_assoc, List.append_cancel_left_eq] at hall
    rw [List.append_assoc, ← hserves.content hd, ← hall]
    rfl
  have he : e.pollRead r s cx buf = { e with
      stream := Function.update e.stream r (some { s with
        inbound := inbound
        readBuffer := readBuffer
        handed := s.handed ++ more })
      sent := e.sent ++ (none : Option MuxFrame).toList
      reaping := e.reaping ++ [] } := by
    rw [Endpoint.pollRead, hread]
    simp [setStream, hgiven]
  apply h.update hs none [] he rfl (by simp) (by simp) fun hdrop => hdrop
  simp only [he, Option.toList_none, List.append_nil]
  exact ⟨hserves.entry, fun _ => hcontent, ⟨_, hcontent⟩, hserves.written, hserves.accepted,
    hserves.closeOnce, hserves.unclosed, hserves.closed⟩

theorem Sound.pollWrite (h : e.Sound first) (hs : e.live r = some s) (data : List UInt8) :
    (e.pollWrite r s data).Sound first := by
  obtain ⟨hs, -⟩ := live_eq_some.mp hs
  have hserves := h.serves r s hs
  by_cases hw : e.writerOpen = true
  swap
  · rw [Endpoint.pollWrite, if_neg hw]
    exact h
  · have he : e.pollWrite r s data = { e with
        stream := Function.update e.stream r (some
          (if s.sentClose then { s with late := s.late ++ data }
            else { s with written := s.written ++ data }))
        sent := e.sent ++ (some (MuxFrame.data s.streamId data)).toList
        reaping := e.reaping ++ [] } := by
      simp [Endpoint.pollWrite, send, setStream, hw]
    have hall : carriedAll s.streamId (e.sent ++ [.data s.streamId data]) =
        carriedAll s.streamId e.sent ++ data := by
      rw [carriedAll_append]
      simp [carriedAll]
    have hcount : (e.sent ++ [MuxFrame.data s.streamId data]).count (.close s.streamId) =
        e.sent.count (.close s.streamId) := by
      simp [List.count_append]
    cases hc : s.sentClose with
    | true =>
      have hclose : .close s.streamId ∈ e.sent := (h.serves r s hs).closed hc |>.resolve_right
        (by simp [hw])
      simp only [hc, if_true] at he
      apply h.update hs (some (.data s.streamId data)) [] he rfl _ (by simp) fun hdrop => hdrop
      · rw [he]
        constructor
        case entry => exact hserves.entry
        case content => exact hserves.content
        case handed => exact hserves.handed
        case written =>
          dsimp only [Option.toList_some]
          rw [carried_append, if_pos hclose, List.append_nil]
          exact hserves.written
        case accepted =>
          dsimp only [Option.toList_some]
          rw [hall, ← hserves.accepted, List.append_assoc]
        case closeOnce => exact hcount.trans_le hserves.closeOnce
        case unclosed =>
          intro hn
          cases hn
        case closed =>
          intro _
          exact .inl (List.mem_append_left _ hclose)
      · simp [MuxFrame.isOpen, MuxFrame.streamId]
    | false =>
      have hclose : .close s.streamId ∉ e.sent := hserves.unclosed hc
      have hlate : s.late = [] := by
        have ha := hserves.accepted
        rw [hserves.written] at ha
        have hsame : carriedAll s.streamId e.sent = carried s.streamId e.sent :=
          carriedAll_eq_carried hclose
        rw [hsame] at ha
        simpa using ha
      simp only [hc, Bool.false_eq_true, if_false] at he
      apply h.update hs (some (.data s.streamId data)) [] he rfl _ (by simp) fun hdrop => hdrop
      · rw [he]
        constructor
        case entry => exact hserves.entry
        case content => exact hserves.content
        case handed => exact hserves.handed
        case written =>
          dsimp only [Option.toList_some]
          rw [carried_append, if_neg hclose, ← hserves.written]
          simp [carried]
        case accepted =>
          dsimp only [Option.toList_some]
          rw [hall, ← hserves.accepted, hlate, List.append_nil, List.append_nil]
        case closeOnce => exact hcount.trans_le hserves.closeOnce
        case unclosed =>
          intro _ hm
          rcases List.mem_append.mp hm with hm | hm
          · exact hclose hm
          · cases List.mem_singleton.mp hm
        case closed =>
          intro hn
          cases hn
      · simp [MuxFrame.isOpen, MuxFrame.streamId]

/-- The Close that `close_remote` gets out. -/
def closeFrame (e : Endpoint) (s : VirtualStream) : Option MuxFrame :=
  if s.sentClose = false ∧ e.writerOpen = true then some (.close s.streamId) else none

theorem Serves.close (h : e.Serves r s) :
    let sent := e.sent ++ (e.closeFrame s).toList
    s.written = carried s.streamId sent ∧ s.written ++ s.late = carriedAll s.streamId sent ∧
      sent.count (.close s.streamId) ≤ 1 ∧
      (.close s.streamId ∈ sent ∨ e.writerOpen = false) := by
  unfold closeFrame
  split_ifs with hc
  · have hnot := h.unclosed hc.1
    dsimp only [Option.toList_some]
    refine ⟨?_, ?_, ?_, .inl (by simp)⟩
    · rw [carried_append, h.written]
      simp [carried]
    · rw [carriedAll_append, h.accepted]
      simp [carriedAll]
    · rw [List.count_append, List.count_eq_zero_of_not_mem hnot]
      simp
  · dsimp only [Option.toList_none]
    rw [List.append_nil]
    refine ⟨h.written, h.accepted, h.closeOnce, ?_⟩
    cases hs : s.sentClose with
    | true => exact h.closed hs
    | false => exact .inr (by simpa [hs] using hc)

theorem closeFrame_spec (f : MuxFrame) (hf : f ∈ e.closeFrame s) :
    f.isOpen = false ∧ f.streamId = some s.streamId := by
  unfold closeFrame at hf
  split_ifs at hf
  · obtain rfl := Option.some.inj hf
    exact ⟨rfl, rfl⟩
  · cases hf

theorem Sound.closeRemote (h : e.Sound first) (hs : e.live r = some s) :
    (e.closeRemote r s).Sound first := by
  obtain ⟨hs, -⟩ := live_eq_some.mp hs
  have hserves := h.serves r s hs
  cases hc : s.sentClose with
  | true =>
    rw [Endpoint.closeRemote, if_pos hc]
    exact h
  | false =>
    have he : e.closeRemote r s = { e with
        stream := Function.update e.stream r (some { s with sentClose := true })
        sent := e.sent ++ (e.closeFrame s).toList
        reaping := e.reaping ++ [] } := by
      rw [Endpoint.closeRemote, if_neg (by simp [hc])]
      cases hw : e.writerOpen <;> simp [send, setStream, closeFrame, hc, hw]
    apply h.update hs (e.closeFrame s) [] he rfl closeFrame_spec (by simp) fun hdrop => hdrop
    obtain ⟨hwritten, haccepted, honce, hclosed⟩ := hserves.close
    rw [he]
    constructor
    case entry => exact hserves.entry
    case content => exact hserves.content
    case handed => exact hserves.handed
    case written => exact hwritten
    case accepted => exact haccepted
    case closeOnce => exact honce
    case unclosed =>
      intro hn
      cases hn
    case closed =>
      intro _
      exact hclosed

theorem Sound.dropStream (h : e.Sound first) (hs : e.live r = some s) :
    (e.dropStream r s).Sound first := by
  obtain ⟨hs, -⟩ := live_eq_some.mp hs
  have hserves := h.serves r s hs
  have he : e.dropStream r s = { e with
      stream := Function.update e.stream r
        (some { s with sentClose := true, dropped := true, inbound := [] })
      sent := e.sent ++ (e.closeFrame s).toList
      reaping := e.reaping ++ [s.streamId] } := by
    rw [Endpoint.dropStream]
    cases hc : s.sentClose <;> cases hw : e.writerOpen <;>
      simp [send, setStream, closeFrame, hc, hw]
  apply h.update hs (e.closeFrame s) [s.streamId] he rfl closeFrame_spec (by simp) fun _ => rfl
  obtain ⟨hwritten, haccepted, honce, hclosed⟩ := hserves.close
  rw [he]
  constructor
  case entry =>
    intro hn
    cases hn
  case content =>
    intro hn
    cases hn
  case handed => exact hserves.handed
  case written => exact hwritten
  case accepted => exact haccepted
  case closeOnce => exact honce
  case unclosed =>
    intro hn
    cases hn
  case closed =>
    intro _
    exact hclosed

end Update

/-! ## Steps of the table and of `open_stream` -/

section Table

variable {first : UInt32} {e : Endpoint}

theorem Sound.serves_same (h : e.Sound first) {e' : Endpoint} (message : Option ControlMessage)
    (hstreams : e'.streams = e.streams) (harrived : e'.arrived = e.arrived)
    (hsent : e'.sent = e.sent ++ (message.map MuxFrame.control).toList)
    (hwriter : e.writerOpen = false → e'.writerOpen = false) :
    ∀ r s, e.stream r = some s → e'.Serves r s := by
  intro r s hs
  apply (h.serves r s hs).of_other (message.map MuxFrame.control) none _ (by simp)
    (by rw [hstreams])
    (by simpa using harrived) hsent hwriter
  intro f hf
  obtain ⟨m, -, rfl⟩ := Option.map_eq_some_iff.mp hf
  simp [MuxFrame.streamId]

theorem Sound.openBegin (h : e.Sound first) (hbound : e.opened < 2 ^ 31)
    (request : OpenRequest) :
    Sound first { e with
      nextStreamId := e.nextStreamId + 2
      opened := e.opened + 1
      opening := e.opening ++ [(e.nextStreamId, request)] } where
  next := by
    rw [idAt_succ, ← h.next]
  opening := by
    intro p hp
    rcases List.mem_append.mp hp with hp | hp
    · obtain ⟨⟨k, hk, he⟩, ho⟩ := h.opening p hp
      exact ⟨⟨k, Nat.lt_succ_of_lt hk, he⟩, ho⟩
    · obtain rfl := List.mem_singleton.mp hp
      refine ⟨⟨e.opened, Nat.lt_succ_self _, h.next⟩, ?_⟩
      intro ho
      obtain ⟨k, hk, he⟩ := h.sentOpen _ ho
      rw [h.next] at he
      have hkey := idAt_inj (by omega) (by omega) he
      omega
  openingOnce := by
    rw [List.map_append, List.nodup_append]
    refine ⟨h.openingOnce, by simp, ?_⟩
    intro i hi j hj
    obtain ⟨p, hp, rfl⟩ := List.mem_map.mp hi
    obtain rfl : j = e.nextStreamId := by simpa using hj
    obtain ⟨⟨k, hk, he⟩, -⟩ := h.opening p hp
    intro heq
    rw [he, h.next] at heq
    have hkey := idAt_inj (by omega) (by omega) heq
    omega
  ref := h.ref
  entry := h.entry
  unique := h.unique
  reap := h.reap
  sentOpen := by
    intro i ho
    obtain ⟨k, hk, he⟩ := h.sentOpen i ho
    exact ⟨k, Nat.lt_succ_of_lt hk, he⟩
  sentBy := h.sentBy
  arrivedOpen := h.arrivedOpen
  own := h.own
  foreign := h.foreign
  order := h.order
  heard := h.heard
  serves := h.serves_same none rfl rfl (List.append_nil _).symm fun hw => hw

theorem Sound.sendControl (h : e.Sound first) (message : ControlMessage) :
    (e.send (.control message)).Sound first := by
  have hopen : ∀ i, OpenIn i (e.send (.control message)).sent → OpenIn i e.sent := by
    intro i ho
    apply ho.of_append
    intro f hf hno
    split_ifs at hf
    · obtain rfl := List.mem_singleton.mp hf
      cases hno
    · cases hf
  constructor
  case next => exact h.next
  case opening =>
    intro p hp
    exact ⟨(h.opening p hp).1, fun ho => (h.opening p hp).2 (hopen _ ho)⟩
  case openingOnce => exact h.openingOnce
  case ref => exact h.ref
  case entry => exact h.entry
  case unique => exact h.unique
  case reap => exact h.reap
  case sentOpen =>
    intro i ho
    exact h.sentOpen i (hopen i ho)
  case sentBy =>
    intro f hf i hi
    rcases List.mem_append.mp hf with hf | hf
    · exact h.sentBy f hf i hi
    · split_ifs at hf
      · obtain rfl := List.mem_singleton.mp hf
        cases hi
      · cases hf
  case arrivedOpen => exact h.arrivedOpen
  case own =>
    intro r s hs hown
    exact (h.own r s hs hown).append _
  case foreign => exact h.foreign
  case order =>
    unfold Endpoint.send
    dsimp only
    split_ifs
    · apply order_append h.order
      intro i hi
      cases hi
    · simpa using h.order
  case heard =>
    intro f hf i hi hown
    exact (h.heard f hf i hi hown).append _
  case serves =>
    by_cases hw : e.writerOpen = true
    · exact h.serves_same (some message) rfl rfl (by simp [Endpoint.send, hw]) fun hw => hw
    · exact h.serves_same none rfl rfl (by simp [Endpoint.send, hw]) fun hw => hw

theorem Sound.writerStop (h : e.Sound first) : Sound first { e with writerOpen := false } where
  next := h.next
  opening := h.opening
  openingOnce := h.openingOnce
  ref := h.ref
  entry := h.entry
  unique := h.unique
  reap := h.reap
  sentOpen := h.sentOpen
  sentBy := h.sentBy
  arrivedOpen := h.arrivedOpen
  own := h.own
  foreign := h.foreign
  order := h.order
  heard := h.heard
  serves := h.serves_same none rfl rfl (List.append_nil _).symm fun _ => rfl

theorem Sound.reapStream (h : e.Sound first) {i : UInt32} (hi : i ∈ e.reaping) :
    Sound first { e with reaping := e.reaping.erase i, streams := e.streams.remove i } where
  next := h.next
  opening := h.opening
  openingOnce := h.openingOnce
  ref := h.ref
  entry := by
    intro j r hr
    dsimp only at hr
    rw [Table.get_remove] at hr
    split_ifs at hr
    exact h.entry j r hr
  unique := h.unique
  reap := fun j hj => h.reap j (List.mem_of_mem_erase hj)
  sentOpen := h.sentOpen
  sentBy := h.sentBy
  arrivedOpen := h.arrivedOpen
  own := h.own
  foreign := h.foreign
  order := h.order
  heard := h.heard
  serves := by
    intro r s hs
    have hserves := h.serves r s hs
    refine ⟨?_, hserves.content, hserves.handed, hserves.written, hserves.accepted,
      hserves.closeOnce, hserves.unclosed, hserves.closed⟩
    intro hd
    have hne : s.streamId ≠ i := by
      rintro rfl
      obtain ⟨r₀, s₀, h₀, hid, hdrop⟩ := h.reap _ hi
      obtain rfl := h.unique r₀ r s₀ s h₀ hs hid
      rw [hs, Option.some.injEq] at h₀
      rw [← h₀, hd] at hdrop
      cases hdrop
    dsimp only
    rw [Table.get_remove_of_ne hne]
    exact hserves.entry hd

end Table

end Endpoint

end NodeAccess.Mux
