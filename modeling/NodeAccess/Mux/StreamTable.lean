import NodeAccess.Mux.Endpoint

/-! # The stream table

The table is keyed by bare ids, while three parties change it at different times: an Open or
an `open_stream` puts a stream in, a Close takes the id out, and so does the removal that a
dropped stream spawns. Here the waiting removals are told apart by the streams that spawned
them, so that one can ask whose entry a removal takes.
-/

namespace NodeAccess.Mux

open Foundation

/-- The stream whose removal a call spawns. -/
def StreamEvent.droppers : StreamEvent → List StreamRef
  | .drop ref => [ref]
  | _ => []

def StreamEvent.isReap : StreamEvent → Bool
  | .reap _ => true
  | _ => false

namespace Endpoint

/-- The id of a stream and whether it has been dropped. -/
def status (e : Endpoint) (ref : StreamRef) : Option (UInt32 × Bool) :=
  (e.stream ref).map fun s => (s.streamId, s.dropped)

def latestBelow (e : Endpoint) (streamId : UInt32) : ℕ → Option StreamRef
  | 0 => none
  | ref + 1 =>
    if (e.status ref).map Prod.fst = some streamId then some ref else e.latestBelow streamId ref

/-- The most recently created stream with an id. -/
def latest (e : Endpoint) (streamId : UInt32) : Option StreamRef := e.latestBelow streamId e.created

/-- What a step does to the table, the streams behind it and the removals that wait. -/
inductive Changes (e e' : Endpoint) : StreamEvent → Prop
  | create (event : StreamEvent) (i : UInt32)
      (hevent : ∃ request, event = .receive (.openStream i request) ∨
        event = .openFinish i request ∧ e.writerOpen = true)
      (hcreated : e'.created = e.created + 1) (hstreams : e'.streams = e.streams.insert i e.created)
      (hstatus : e'.status = Function.update e.status e.created (some (i, false)))
      (hreaping : e'.reaping = e.reaping) : Changes e e' event
  | refuse (i : UInt32) (request : OpenRequest) (hwriter : e.writerOpen = false)
      (hcreated : e'.created = e.created + 1) (hstreams : e'.streams = e.streams.insert i e.created)
      (hstatus : e'.status = e.status) (hreaping : e'.reaping = e.reaping) :
      Changes e e' (.openFinish i request)
  | close (i : UInt32) (hcreated : e'.created = e.created)
      (hstreams : e'.streams = e.streams.remove i)
      (hstatus : e'.status = e.status) (hreaping : e'.reaping = e.reaping) :
      Changes e e' (.receive (.close i))
  | reap (i : UInt32) (hmem : i ∈ e.reaping) (hcreated : e'.created = e.created)
      (hstreams : e'.streams = e.streams.remove i) (hstatus : e'.status = e.status)
      (hreaping : e'.reaping = e.reaping.erase i) : Changes e e' (.reap i)
  | drop (ref : StreamRef) (i : UInt32) (hlive : e.status ref = some (i, false))
      (hcreated : e'.created = e.created) (hstreams : e'.streams = e.streams)
      (hstatus : e'.status = Function.update e.status ref (some (i, true)))
      (hreaping : e'.reaping = e.reaping ++ [i]) : Changes e e' (.drop ref)
  | other (event : StreamEvent) (hdroppers : event.droppers = []) (hreap : event.isReap = false)
      (hcreated : e'.created = e.created)
      (hstreams : e'.streams = e.streams) (hstatus : e'.status = e.status)
      (hreaping : e'.reaping = e.reaping) : Changes e e' event

variable {e e' : Endpoint}

theorem status_setStream (e : Endpoint) (ref : StreamRef) (s : VirtualStream) :
    (e.setStream ref s).status = Function.update e.status ref (some (s.streamId, s.dropped)) := by
  funext r
  by_cases hr : r = ref
  · simp [status, setStream, hr]
  · simp [status, setStream, hr]

theorem status_setStream_of_live {ref : StreamRef} {s s' : VirtualStream} (hs : e.live ref = some s)
    (hid : s'.streamId = s.streamId) (hdropped : s'.dropped = false) :
    (e.setStream ref s').status = e.status := by
  obtain ⟨hstream, hd⟩ := live_eq_some.mp hs
  rw [status_setStream, hid, hdropped]
  apply Function.update_eq_self_iff.mpr
  simp [status, hstream, hd]

theorem changes_of_step {event : StreamEvent} (h : e.step event = some e') :
    Changes e e' event := by
  cases event with
  | openBegin request =>
    obtain rfl := Option.some.inj h
    exact .other _ rfl rfl rfl rfl rfl rfl
  | openFinish i request =>
    rw [step, Option.ite_none_right_eq_some] at h
    obtain rfl := Option.some.inj h.2
    unfold openFinish
    by_cases hw : e.writerOpen = true
    · simp only [if_pos hw]
      exact .create _ i ⟨request, .inr ⟨rfl, hw⟩⟩ rfl rfl (status_setStream _ _ _) rfl
    · simp only [if_neg hw]
      exact .refuse i request (Bool.eq_false_of_not_eq_true hw) rfl rfl rfl rfl
  | sendControl message =>
    obtain rfl := Option.some.inj h
    exact .other _ rfl rfl rfl rfl rfl rfl
  | pollWrite ref data =>
    obtain ⟨s, hs, rfl⟩ := Option.map_eq_some_iff.mp h
    have hd := (live_eq_some.mp hs).2
    unfold pollWrite
    by_cases hw : e.writerOpen = true
    · rw [if_pos hw]
      have hlive : (e.send (.data s.streamId data)).live ref = some s := hs
      refine .other _ rfl rfl rfl rfl ?_ rfl
      apply status_setStream_of_live hlive
      · split_ifs <;> rfl
      · split_ifs <;> exact hd
    · rw [if_neg hw]
      exact .other _ rfl rfl rfl rfl rfl rfl
  | pollShutdown ref =>
    obtain ⟨s, hs, rfl⟩ := Option.map_eq_some_iff.mp h
    unfold closeRemote
    by_cases hc : s.sentClose = true
    · rw [if_pos hc]
      exact .other _ rfl rfl rfl rfl rfl rfl
    · rw [if_neg hc]
      have hlive : (e.send (.close s.streamId)).live ref = some s := hs
      exact .other _ rfl rfl rfl rfl (status_setStream_of_live hlive rfl (live_eq_some.mp hs).2) rfl
  | drop ref =>
    obtain ⟨s, hs, rfl⟩ := Option.map_eq_some_iff.mp h
    obtain ⟨hstream, hd⟩ := live_eq_some.mp hs
    have hlive : e.status ref = some (s.streamId, false) := by simp [status, hstream, hd]
    unfold dropStream
    by_cases hc : s.sentClose = true
    · simp only [if_pos hc]
      exact .drop ref s.streamId hlive rfl rfl (status_setStream _ _ _) rfl
    · simp only [if_neg hc]
      exact .drop ref s.streamId hlive rfl rfl (status_setStream _ _ _) rfl
  | reap i =>
    rw [step, Option.ite_none_right_eq_some] at h
    obtain rfl := Option.some.inj h.2
    exact .reap i h.1 rfl rfl rfl rfl
  | pollRead ref cx buf =>
    obtain ⟨s, hs, rfl⟩ := Option.map_eq_some_iff.mp h
    obtain ⟨-, -, inbound, readBuffer, hread⟩ :=
      s.pollRead_spec cx (decide (e.streams.get s.streamId ≠ some ref)) buf
    refine .other _ rfl rfl rfl rfl ?_ rfl
    apply status_setStream_of_live hs
    · rw [hread]
    · rw [hread]
      exact (live_eq_some.mp hs).2
  | receive frame =>
    obtain rfl := Option.some.inj h
    cases frame with
    | openStream i request =>
      exact .create _ i ⟨request, .inl rfl⟩ rfl rfl (status_setStream _ _ _) rfl
    | data i payload =>
      unfold receive
      dsimp only
      split
      · next ref s hfound =>
        obtain ⟨ref', -, hmap⟩ := Option.bind_eq_some_iff.mp hfound
        obtain ⟨s', hs, hpair⟩ := Option.map_eq_some_iff.mp hmap
        obtain ⟨rfl, rfl⟩ := Prod.mk.inj hpair
        exact .other _ rfl rfl rfl rfl (status_setStream_of_live hs rfl (live_eq_some.mp hs).2) rfl
      · exact .other _ rfl rfl rfl rfl rfl rfl
    | close i => exact .close i rfl rfl rfl rfl
    | control message => exact .other _ rfl rfl rfl rfl rfl rfl
  | writerStop =>
    obtain rfl := Option.some.inj h
    exact .other _ rfl rfl rfl rfl rfl rfl

section Changes

variable {event : StreamEvent} {r : StreamRef} {i : UInt32}

theorem Changes.id_kept (h : Changes e e' event) (hr : r < e.created) :
    (e'.status r).map Prod.fst = (e.status r).map Prod.fst := by
  cases h with
  | create event j hevent hcreated hstreams hstatus hreaping =>
    have hne : r ≠ e.created := by
      rintro rfl
      exact absurd hr (Nat.lt_irrefl _)
    rw [hstatus, Function.update_of_ne hne]
  | drop ref j hlive hcreated hstreams hstatus hreaping =>
    rw [hstatus]
    by_cases hne : r = ref
    · simp [hne, hlive]
    · rw [Function.update_of_ne hne]
  | refuse j request hwriter hcreated hstreams hstatus hreaping => rw [hstatus]
  | close j hcreated hstreams hstatus hreaping => rw [hstatus]
  | reap j hmem hcreated hstreams hstatus hreaping => rw [hstatus]
  | other event hdroppers hreap hcreated hstreams hstatus hreaping => rw [hstatus]

theorem Changes.dropped_kept (h : Changes e e' event) (hr : r < e.created)
    (hd : e.status r = some (i, true)) : e'.status r = some (i, true) := by
  cases h with
  | create event j hevent hcreated hstreams hstatus hreaping =>
    have hne : r ≠ e.created := by
      rintro rfl
      exact absurd hr (Nat.lt_irrefl _)
    rw [hstatus, Function.update_of_ne hne, hd]
  | drop ref j hlive hcreated hstreams hstatus hreaping =>
    have hne : r ≠ ref := by
      rintro rfl
      rw [hd] at hlive
      cases hlive
    rw [hstatus, Function.update_of_ne hne, hd]
  | refuse j request hwriter hcreated hstreams hstatus hreaping => rw [hstatus, hd]
  | close j hcreated hstreams hstatus hreaping => rw [hstatus, hd]
  | reap j hmem hcreated hstreams hstatus hreaping => rw [hstatus, hd]
  | other event hdroppers hreap hcreated hstreams hstatus hreaping => rw [hstatus, hd]

theorem Changes.bounded (h : Changes e e' event)
    (href : ∀ r x, e.status r = some x → r < e.created)
    (hentry : ∀ i r, e.streams.get i = some r → r < e.created) :
    (∀ r x, e'.status r = some x → r < e'.created) ∧
      (∀ i r, e'.streams.get i = some r → r < e'.created) ∧ e.created ≤ e'.created := by
  cases h with
  | create event j hevent hcreated hstreams hstatus hreaping =>
    rw [hcreated, hstatus, hstreams]
    refine ⟨?_, ?_, Nat.le_succ _⟩
    · intro r x hx
      by_cases hr : r = e.created
      · rw [hr]
        exact Nat.lt_succ_self _
      · rw [Function.update_of_ne hr] at hx
        exact Nat.lt_succ_of_lt (href r x hx)
    · intro i r hr
      rw [Table.get_insert] at hr
      split_ifs at hr with hi
      · obtain rfl := Option.some.inj hr
        exact Nat.lt_succ_self _
      · exact Nat.lt_succ_of_lt (hentry i r hr)
  | refuse j request hwriter hcreated hstreams hstatus hreaping =>
    rw [hcreated, hstatus, hstreams]
    refine ⟨fun r x hx => Nat.lt_succ_of_lt (href r x hx), ?_, Nat.le_succ _⟩
    intro i r hr
    rw [Table.get_insert] at hr
    split_ifs at hr with hi
    · obtain rfl := Option.some.inj hr
      exact Nat.lt_succ_self _
    · exact Nat.lt_succ_of_lt (hentry i r hr)
  | drop ref j hlive hcreated hstreams hstatus hreaping =>
    rw [hcreated, hstatus, hstreams]
    refine ⟨?_, hentry, le_rfl⟩
    intro r x hx
    by_cases hr : r = ref
    · rw [hr]
      exact href ref _ hlive
    · rw [Function.update_of_ne hr] at hx
      exact href r x hx
  | close j hcreated hstreams hstatus hreaping =>
    rw [hcreated, hstatus, hstreams]
    refine ⟨href, ?_, le_rfl⟩
    intro i r hr
    rw [Table.get_remove] at hr
    split_ifs at hr with hi
    exact hentry i r hr
  | reap j hmem hcreated hstreams hstatus hreaping =>
    rw [hcreated, hstatus, hstreams]
    refine ⟨href, ?_, le_rfl⟩
    intro i r hr
    rw [Table.get_remove] at hr
    split_ifs at hr with hi
    exact hentry i r hr
  | other event hdroppers hreap hcreated hstreams hstatus hreaping =>
    rw [hcreated, hstatus, hstreams]
    exact ⟨href, hentry, le_rfl⟩

theorem Changes.reaping_of_call (h : Changes e e' event) (hcall : event.isReap = false) :
    (event.droppers = [] ∧ e'.reaping = e.reaping) ∨
      ∃ ref i, event.droppers = [ref] ∧ e.status ref = some (i, false) ∧
        e'.status ref = some (i, true) ∧ e'.reaping = e.reaping ++ [i] := by
  cases h with
  | create event j hevent hcreated hstreams hstatus hreaping =>
    obtain ⟨request, rfl | ⟨rfl, -⟩⟩ := hevent
    · exact .inl ⟨rfl, hreaping⟩
    · exact .inl ⟨rfl, hreaping⟩
  | refuse j request hwriter hcreated hstreams hstatus hreaping => exact .inl ⟨rfl, hreaping⟩
  | close j hcreated hstreams hstatus hreaping => exact .inl ⟨rfl, hreaping⟩
  | reap j hmem hcreated hstreams hstatus hreaping => cases hcall
  | drop ref j hlive hcreated hstreams hstatus hreaping =>
    exact .inr ⟨ref, j, rfl, hlive, by rw [hstatus, Function.update_self], hreaping⟩
  | other event hdroppers hreap hcreated hstreams hstatus hreaping =>
      exact .inl ⟨hdroppers, hreaping⟩

theorem Changes.of_reap (h : Changes e e' (.reap i)) :
    i ∈ e.reaping ∧ e'.created = e.created ∧ e'.streams = e.streams.remove i ∧
      e'.status = e.status ∧ e'.reaping = e.reaping.erase i := by
  cases h with
  | create event j hevent hcreated hstreams hstatus hreaping =>
    obtain ⟨request, hnot | ⟨hnot, -⟩⟩ := hevent
    · cases hnot
    · cases hnot
  | reap j hmem hcreated hstreams hstatus hreaping =>
    exact ⟨hmem, hcreated, hstreams, hstatus, hreaping⟩
  | other event hdroppers hreap hcreated hstreams hstatus hreaping => cases hreap

end Changes

end Endpoint

/-- The removals that wait, by the dropped streams that spawned them. -/
structure StreamTable where
  endpoint : Endpoint
  droppers : List StreamRef

/-- A call, or the removal that the drop of a stream has spawned. -/
inductive TableEvent where
  | call (event : StreamEvent)
  | remove (ref : StreamRef)
deriving DecidableEq, Repr

namespace StreamTable

def start (firstStreamId : UInt32) : StreamTable := ⟨.start firstStreamId, []⟩

def step (t : StreamTable) : TableEvent → Option StreamTable
  | .call event =>
    if event.isReap then none
    else (t.endpoint.step event).map fun e => ⟨e, t.droppers ++ event.droppers⟩
  | .remove ref =>
    if ref ∈ t.droppers then
      (t.endpoint.stream ref).bind fun s =>
        (t.endpoint.step (.reap s.streamId)).map fun e => ⟨e, t.droppers.erase ref⟩
    else none

variable {t t' : StreamTable}

theorem step_cases {event : TableEvent} (h : t.step event = some t') :
    (∃ call, event = .call call ∧ call.isReap = false ∧ t.endpoint.step call = some t'.endpoint ∧
        t'.droppers = t.droppers ++ call.droppers) ∨
      ∃ ref s, event = .remove ref ∧ ref ∈ t.droppers ∧ t.endpoint.stream ref = some s ∧
        t.endpoint.step (.reap s.streamId) = some t'.endpoint ∧
          t'.droppers = t.droppers.erase ref := by
  cases event with
  | call call =>
    rw [step, Option.ite_none_left_eq_some] at h
    obtain ⟨e, he, rfl⟩ := Option.map_eq_some_iff.mp h.2
    exact .inl ⟨call, rfl, Bool.eq_false_of_not_eq_true h.1, he, rfl⟩
  | remove ref =>
    rw [step, Option.ite_none_right_eq_some] at h
    obtain ⟨s, hs, hmap⟩ := Option.bind_eq_some_iff.mp h.2
    obtain ⟨e, he, rfl⟩ := Option.map_eq_some_iff.mp hmap
    exact .inr ⟨ref, s, rfl, h.1, hs, he, rfl⟩

theorem endpoint_changes {event : TableEvent} (h : t.step event = some t') :
    ∃ call, t.endpoint.Changes t'.endpoint call := by
  rcases step_cases h with ⟨call, -, -, hcall, -⟩ | ⟨ref, s, -, -, -, hcall, -⟩
  · exact ⟨call, Endpoint.changes_of_step hcall⟩
  · exact ⟨_, Endpoint.changes_of_step hcall⟩

/-! ## What is always so -/

/-- References are given out in order, and a removal waits for each that is owed. -/
structure Counted (t : StreamTable) : Prop where
  ref : ∀ r x, t.endpoint.status r = some x → r < t.endpoint.created
  entry : ∀ i r, t.endpoint.streams.get i = some r → r < t.endpoint.created
  dropper : ∀ r ∈ t.droppers, ∃ i, t.endpoint.status r = some (i, true)
  reaping :
    (t.droppers.map fun r => (t.endpoint.status r).map Prod.fst).Perm (t.endpoint.reaping.map some)

theorem counted_start (firstStreamId : UInt32) : (start firstStreamId).Counted := by
  constructor
  · intro r x hr
    cases hr
  · intro i r hr
    simp [start, Endpoint.start] at hr
  · intro r hr
    cases hr
  · exact List.Perm.refl _

theorem Counted.step (h : t.Counted) {event : TableEvent} (hs : t.step event = some t') :
    t'.Counted := by
  have hbelow : ∀ r ∈ t.droppers, r < t.endpoint.created := by
    intro r hr
    obtain ⟨i, hi⟩ := h.dropper r hr
    exact h.ref r _ hi
  obtain ⟨call, hchanges⟩ := endpoint_changes hs
  obtain ⟨href, hentry, -⟩ := hchanges.bounded h.ref h.entry
  have hdropped : ∀ r ∈ t.droppers, ∃ i, t'.endpoint.status r = some (i, true) := by
    intro r hr
    obtain ⟨i, hi⟩ := h.dropper r hr
    exact ⟨i, hchanges.dropped_kept (hbelow r hr) hi⟩
  have hold : t.droppers.map (fun r => (t'.endpoint.status r).map Prod.fst) =
      t.droppers.map fun r => (t.endpoint.status r).map Prod.fst :=
    List.map_congr_left fun r hr => hchanges.id_kept (hbelow r hr)
  rcases step_cases hs with ⟨call, -, hreap, hcall, hdroppers⟩ |
    ⟨ref, s, -, hmem, hstream, hcall, hdroppers⟩
  · rcases (Endpoint.changes_of_step hcall).reaping_of_call hreap with
      ⟨hnone, hreaping⟩ | ⟨ref, i, hone, hlive, hstatus, hreaping⟩
    · rw [hnone, List.append_nil] at hdroppers
      refine ⟨href, hentry, ?_, ?_⟩
      · rw [hdroppers]
        exact hdropped
      · rw [hdroppers, hreaping, hold]
        exact h.reaping
    · rw [hone] at hdroppers
      refine ⟨href, hentry, ?_, ?_⟩
      · intro r hr
        rw [hdroppers, List.mem_append, List.mem_singleton] at hr
        rcases hr with hr | rfl
        · exact hdropped r hr
        · exact ⟨i, hstatus⟩
      · rw [hdroppers, hreaping, List.map_append, List.map_append, hold]
        apply h.reaping.append
        simp [hstatus]
  · obtain ⟨hid, -, -, -, hreaping⟩ := (Endpoint.changes_of_step hcall).of_reap
    refine ⟨href, hentry, ?_, ?_⟩
    · intro r hr
      rw [hdroppers] at hr
      exact hdropped r (List.mem_of_mem_erase hr)
    · have hstatus : (t'.endpoint.status ref).map Prod.fst = some s.streamId := by
        have hsame := (Endpoint.changes_of_step hcall).id_kept (hbelow ref hmem)
        rw [hsame]
        simp [Endpoint.status, hstream]
      have hleft := (List.perm_cons_erase hmem).map fun r => (t'.endpoint.status r).map Prod.fst
      have hright := (List.perm_cons_erase hid).map (some : UInt32 → Option UInt32)
      rw [List.map_cons, hstatus, hold] at hleft
      rw [hdroppers, hreaping]
      rw [List.map_cons] at hright
      exact ((hleft.symm.trans h.reaping).trans hright).cons_inv

variable {firstStreamId : UInt32} {ms : List (Move StreamTable TableEvent)}

theorem counted_run (hrun : Run step (start firstStreamId) ms t) : t.Counted :=
  hrun.invariant (counted_start firstStreamId) fun _ _ _ h hs => h.step hs

/-! ## The runs of an endpoint, told apart -/

theorem run_endpoint (hrun : Run step (start firstStreamId) ms t) :
    ∃ ns, Run Endpoint.step (.start firstStreamId) ns t.endpoint := by
  induction hrun with
  | nil => exact ⟨[], Run.nil⟩
  | snoc _ hs ih =>
    obtain ⟨ns, hns⟩ := ih
    rcases step_cases hs with ⟨call, -, -, hcall, -⟩ | ⟨ref, s, -, -, -, hcall, -⟩
    · exact ⟨_, hns.snoc hcall⟩
    · exact ⟨_, hns.snoc hcall⟩

/-- Every run of the endpoint is one of these, with some stream for each removal. -/
theorem run_of_endpoint {ns : List (Move Endpoint StreamEvent)} {e : Endpoint}
    (hrun : Run Endpoint.step (.start firstStreamId) ns e) :
    ∃ ms t, Run step (start firstStreamId) ms t ∧ t.endpoint = e := by
  induction hrun with
  | nil => exact ⟨[], start firstStreamId, Run.nil, rfl⟩
  | @snoc ns e e' event _ hs ih =>
    obtain ⟨ms, t, ht, rfl⟩ := ih
    cases hreap : event.isReap with
    | false =>
      refine ⟨_, ⟨e', t.droppers ++ event.droppers⟩, ht.snoc (e := .call event) ?_, rfl⟩
      simp [step, hreap, hs]
    | true =>
      cases event with
      | reap i =>
        have hmem : some i ∈ t.endpoint.reaping.map some :=
          List.mem_map_of_mem (Endpoint.changes_of_step hs).of_reap.1
        rw [← (counted_run ht).reaping.mem_iff, List.mem_map] at hmem
        obtain ⟨ref, href, hid⟩ := hmem
        obtain ⟨⟨j, d⟩, hstatus, rfl⟩ := Option.map_eq_some_iff.mp hid
        obtain ⟨s, hstream, hs'⟩ := Option.map_eq_some_iff.mp hstatus
        obtain ⟨rfl, -⟩ := Prod.mk.inj hs'
        refine ⟨_, ⟨e', t.droppers.erase ref⟩, ht.snoc (e := .remove ref) ?_, rfl⟩
        simp only [step, if_pos href, hstream, Option.bind_some]
        rw [hs, Option.map_some]
      | _ => cases hreap

end StreamTable

end NodeAccess.Mux
