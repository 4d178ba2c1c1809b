import NodeAccess.Mux.StreamTable

/-! # Consistency of the stream table

As long as no `open_stream` fails and no removal runs after its id has come to a younger
stream, an entry feeds the latest stream of its id, only a Close or the drop of that stream
ends it, and when all streams are gone the table is empty. Without either condition it is not
so.
-/

namespace NodeAccess.Mux

open Foundation

namespace Endpoint

variable {e e' : Endpoint} {event : StreamEvent} {i : UInt32} {r : StreamRef}

theorem latestBelow_spec {n : ℕ} (h : e.latestBelow i n = some r) :
    r < n ∧ (e.status r).map Prod.fst = some i := by
  induction n with
  | zero => cases h
  | succ n ih =>
    rw [latestBelow] at h
    split_ifs at h with hn
    · obtain rfl := Option.some.inj h
      exact ⟨Nat.lt_succ_self _, hn⟩
    · exact ⟨Nat.lt_succ_of_lt (ih h).1, (ih h).2⟩

theorem latestBelow_congr {n : ℕ}
    (h : ∀ r < n, (e'.status r).map Prod.fst = (e.status r).map Prod.fst) :
    e'.latestBelow i n = e.latestBelow i n := by
  induction n with
  | zero => rfl
  | succ n ih =>
    rw [latestBelow, latestBelow, h n (Nat.lt_succ_self n), ih fun r hr =>
      h r (Nat.lt_succ_of_lt hr)]

theorem Changes.latest (h : Changes e e' event) (href : ∀ r x, e.status r = some x → r < e.created)
    (i : UInt32) : e'.latest i = e.latest i ∨
      e'.latest i = some e.created ∧ e'.streams = e.streams.insert i e.created ∧
        e'.status e.created = some (i, false) := by
  have hsame : e'.latestBelow i e.created = e.latest i :=
    latestBelow_congr fun r hr => h.id_kept hr
  cases h with
  | create event j hevent hcreated hstreams hstatus hreaping =>
    have hnew : e'.status e.created = some (j, false) := by rw [hstatus, Function.update_self]
    rw [Endpoint.latest, hcreated, latestBelow, hnew]
    by_cases hj : j = i
    · subst hj
      exact .inr ⟨by simp, hstreams, rfl⟩
    · left
      simpa [hj] using hsame
  | refuse j request hwriter hcreated hstreams hstatus hreaping =>
    have hnone : e'.status e.created = none := by
      rw [hstatus, Option.eq_none_iff_forall_ne_some]
      intro x hx
      exact absurd (href _ x hx) (Nat.lt_irrefl _)
    rw [Endpoint.latest, hcreated, latestBelow, hnone]
    left
    simpa using hsame
  | close j hcreated hstreams hstatus hreaping | reap j hmem hcreated hstreams hstatus hreaping =>
    left
    rw [Endpoint.latest, hcreated, hsame]
  | drop ref j hlive hcreated hstreams hstatus hreaping =>
    left
    rw [Endpoint.latest, hcreated, hsame]
  | other event hdroppers hreap hcreated hstreams hstatus hreaping =>
    left
    rw [Endpoint.latest, hcreated, hsame]

theorem openFinish_refused {request : OpenRequest} (hwriter : e.writerOpen = false) :
    (e.openFinish i request).streams = e.streams.insert i e.created := by
  simp [openFinish, hwriter]

end Endpoint

namespace StreamTable

/-- No `open_stream` fails, and a removal runs only while its stream is the latest one with its
id, or when the table has no entry of the id. -/
def Orderly (m : Move StreamTable TableEvent) : Prop :=
  match m.event with
  | .call (.openFinish _ _) => m.before.endpoint.writerOpen = true
  | .remove ref => ∀ s ∈ m.before.endpoint.stream ref,
      m.before.endpoint.latest s.streamId = some ref ∨
        m.before.endpoint.streams.get s.streamId = none
  | _ => True

instance : DecidablePred Orderly := by
  intro m
  unfold Orderly
  split <;> infer_instance

/-- Each entry feeds the most recently created stream with its id. -/
def FeedsLatest (t : StreamTable) : Prop :=
  ∀ i r, t.endpoint.streams.get i = some r → t.endpoint.latest i = some r

/-- When all streams are dropped and their removals have run, the table is empty. -/
def Drains (t : StreamTable) : Prop :=
  (∀ r s, t.endpoint.stream r = some s → s.dropped = true) → t.droppers = [] →
    t.endpoint.streams = ∅

/-- What the table is for, in a run and its last state. -/
structure Consistent (ms : List (Move StreamTable TableEvent)) (t : StreamTable) : Prop where
  latest : t.FeedsLatest
  kept : ∀ m ∈ ms, ∀ i r, m.before.endpoint.streams.get i = some r →
    m.after.endpoint.streams.get i = none →
    m.event = .call (.receive (.close i)) ∨ m.event = .remove r
  refused : ∀ m ∈ ms, ∀ i request, m.event = .call (.openFinish i request) →
    m.before.endpoint.writerOpen = false → m.after.endpoint.streams = m.before.endpoint.streams
  drains : t.Drains

/-- An entry feeds the latest stream of its id, which waits for its removal if it is dropped. -/
def Fed (t : StreamTable) : Prop :=
  ∀ i r, t.endpoint.streams.get i = some r → t.endpoint.latest i = some r ∧
    (t.endpoint.status r = some (i, true) → r ∈ t.droppers)

variable {t t' : StreamTable} {event : TableEvent}

theorem Fed.entry (h : t.Fed) (hcount : t.Counted) (hs : t.step event = some t') {i : UInt32}
    {r : StreamRef} (hr : t.endpoint.streams.get i = some r)
    (hentry : t'.endpoint.streams.get i = some r)
    (hlatest : t'.endpoint.latest i = t.endpoint.latest i) :
    t'.endpoint.latest i = some r ∧ (t'.endpoint.status r = some (i, true) → r ∈ t'.droppers) := by
  obtain ⟨hr', hdropped⟩ := h i r hr
  refine ⟨hlatest.trans hr', ?_⟩
  intro hstatus
  have hbelow := hcount.entry i r hr
  rcases step_cases hs with ⟨call, -, -, hcall, hdroppers⟩ |
    ⟨ref, s, -, -, hstream, hcall, hdroppers⟩
  · rw [hdroppers, List.mem_append]
    by_cases hold : t.endpoint.status r = some (i, true)
    · exact .inl (hdropped hold)
    · right
      cases Endpoint.changes_of_step hcall with
      | drop ref j hlive hcreated hstreams hnew hreaping =>
        by_cases he : r = ref
        · simp [StreamEvent.droppers, he]
        · rw [hnew, Function.update_of_ne he] at hstatus
          exact absurd hstatus hold
      | create event j hevent hcreated hstreams hnew hreaping =>
        have hne : r ≠ t.endpoint.created := by
          rintro rfl
          exact absurd hbelow (Nat.lt_irrefl _)
        rw [hnew, Function.update_of_ne hne] at hstatus
        exact absurd hstatus hold
      | refuse j request hwriter hcreated hstreams hnew hreaping =>
          exact absurd (hnew ▸ hstatus) hold
      | close j hcreated hstreams hnew hreaping => exact absurd (hnew ▸ hstatus) hold
      | reap j hmem hcreated hstreams hnew hreaping => exact absurd (hnew ▸ hstatus) hold
      | other event _ _ hcreated hstreams hnew hreaping => exact absurd (hnew ▸ hstatus) hold
  · obtain ⟨-, -, hstreams, hnew, -⟩ := (Endpoint.changes_of_step hcall).of_reap
    have hne : r ≠ ref := by
      rintro rfl
      have hid := (Endpoint.latestBelow_spec hr').2
      rw [Endpoint.status, hstream, Option.map_some, Option.map_some, Option.some.injEq] at hid
      dsimp only at hid
      rw [hstreams, hid, Table.get_remove_self] at hentry
      cases hentry
    rw [hdroppers]
    exact (List.mem_erase_of_ne hne).mpr (hdropped (hnew ▸ hstatus))

theorem Fed.step (h : t.Fed) (hcount : t.Counted) (hs : t.step event = some t')
    (horderly : Orderly ⟨t, event, t'⟩) : t'.Fed := by
  intro i r hr
  obtain ⟨call, hchanges, hrefused⟩ : ∃ call, t.endpoint.Changes t'.endpoint call ∧
      ∀ j request, call = .openFinish j request → t.endpoint.writerOpen = true := by
    rcases step_cases hs with ⟨call, rfl, -, hcall, -⟩ | ⟨ref, s, rfl, -, -, hcall, -⟩
    · refine ⟨call, Endpoint.changes_of_step hcall, ?_⟩
      rintro j request rfl
      exact horderly
    · exact ⟨_, Endpoint.changes_of_step hcall, by simp⟩
  rcases hchanges.latest hcount.ref i with hsame | ⟨hnew, hstreams, hstatus⟩
  · apply h.entry hcount hs _ hr hsame
    cases hchanges with
    | create event j hevent hcreated hstreams hstatus hreaping =>
      rw [hstreams, Table.get_insert] at hr
      split_ifs at hr with hj
      · subst hj
        have hlatest : t'.endpoint.latest i = some t.endpoint.created := by
          rw [Endpoint.latest, hcreated, Endpoint.latestBelow, if_pos (by simp [hstatus])]
        have hbelow := (Endpoint.latestBelow_spec (hsame.symm.trans hlatest)).1
        exact absurd hbelow (Nat.lt_irrefl _)
      · exact hr
    | refuse j request hwriter hcreated hstreams hstatus hreaping =>
      rw [hrefused j request rfl] at hwriter
      cases hwriter
    | close j hcreated hstreams hstatus hreaping | reap j hmem hcreated hstreams hstatus hreaping =>
      rw [hstreams, Table.get_remove] at hr
      split_ifs at hr
      exact hr
    | drop ref j hlive hcreated hstreams hstatus hreaping => rwa [hstreams] at hr
    | other event hdroppers hreap hcreated hstreams hstatus hreaping => rwa [hstreams] at hr
  · rw [hstreams, Table.get_insert_self, Option.some.injEq] at hr
    subst hr
    refine ⟨hnew, ?_⟩
    intro hdropped
    rw [hstatus] at hdropped
    cases hdropped

variable {firstStreamId : UInt32} {ms : List (Move StreamTable TableEvent)}

theorem fed_run (hrun : Run step (start firstStreamId) ms t) (horderly : ∀ m ∈ ms, Orderly m) :
    t.Fed := by
  apply hrun.guarded horderly
  · intro i r hr
    simp [start, Endpoint.start] at hr
  · intro ns u e v hr h hs ho
    exact h.step (counted_run hr) hs ho

theorem Fed.kept (h : t.Fed) (hs : t.step event = some t') (horderly : Orderly ⟨t, event, t'⟩)
    {i : UInt32} {r : StreamRef} (hr : t.endpoint.streams.get i = some r)
    (hr' : t'.endpoint.streams.get i = none) :
    event = .call (.receive (.close i)) ∨ event = .remove r := by
  rcases step_cases hs with ⟨call, rfl, hreap, hcall, -⟩ | ⟨ref, s, rfl, -, hstream, hcall, -⟩
  · left
    cases Endpoint.changes_of_step hcall with
    | create event j hevent hcreated hstreams hstatus hreaping =>
      rw [hstreams, Table.get_insert] at hr'
      split_ifs at hr'
      rw [hr] at hr'
      cases hr'
    | refuse j request hwriter hcreated hstreams hstatus hreaping =>
      rw [hstreams, Table.get_insert] at hr'
      split_ifs at hr'
      rw [hr] at hr'
      cases hr'
    | close j hcreated hstreams hstatus hreaping =>
      rw [hstreams, Table.get_remove] at hr'
      split_ifs at hr' with hj
      · rw [hj]
      · rw [hr] at hr'
        cases hr'
    | reap j hmem hcreated hstreams hstatus hreaping => cases hreap
    | drop ref j hlive hcreated hstreams hstatus hreaping =>
      rw [hstreams, hr] at hr'
      cases hr'
    | other event hdroppers hreap hcreated hstreams hstatus hreaping =>
      rw [hstreams, hr] at hr'
      cases hr'
  · right
    obtain ⟨-, -, hstreams, -, -⟩ := (Endpoint.changes_of_step hcall).of_reap
    rw [hstreams, Table.get_remove] at hr'
    split_ifs at hr' with hi
    · subst hi
      rcases horderly s hstream with hlatest | hnone
      · rw [(h _ r hr).1, Option.some.injEq] at hlatest
        rw [hlatest]
      · rw [hr] at hnone
        cases hnone
    · rw [hr] at hr'
      cases hr'

/-- A step that is not orderly takes the entry of another stream, or leaves one without a stream. -/
theorem Fed.orderly (h : t.Fed) (hcount : t.Counted) (hs : t.step event = some t')
    (hkept : ∀ i r, t.endpoint.streams.get i = some r → t'.endpoint.streams.get i = none →
      event = .call (.receive (.close i)) ∨ event = .remove r)
    (hrefused : ∀ i request, event = .call (.openFinish i request) → t.endpoint.writerOpen = false →
      t'.endpoint.streams = t.endpoint.streams) : Orderly ⟨t, event, t'⟩ := by
  rcases step_cases hs with ⟨call, rfl, -, hcall, -⟩ | ⟨ref, s, rfl, -, hstream, hcall, -⟩
  · cases call with
    | openFinish i request =>
      by_contra hwriter
      have hclosed : t.endpoint.writerOpen = false := Bool.eq_false_of_not_eq_true hwriter
      have hsame := hrefused i request rfl hclosed
      rw [Endpoint.step, Option.ite_none_right_eq_some] at hcall
      rw [← Option.some.inj hcall.2, Endpoint.openFinish_refused hclosed] at hsame
      have hget : t.endpoint.streams.get i = some t.endpoint.created := by
        rw [← hsame, Table.get_insert_self]
      exact absurd (hcount.entry i _ hget) (Nat.lt_irrefl _)
    | _ => trivial
  · intro s' hs'
    obtain rfl := Option.some.inj (hstream.symm.trans hs')
    obtain ⟨-, -, hstreams, -, -⟩ := (Endpoint.changes_of_step hcall).of_reap
    cases hr : t.endpoint.streams.get s.streamId with
    | none => exact .inr rfl
    | some r =>
      have hgone : t'.endpoint.streams.get s.streamId = none := by
        rw [hstreams, Table.get_remove_self]
      left
      rcases hkept _ r hr hgone with hclose | hremove
      · cases hclose
      · obtain rfl := TableEvent.remove.inj hremove
        exact (h _ _ hr).1

theorem Fed.drains (h : t.Fed) : t.Drains := by
  intro hall hnone
  apply Table.eq_empty_of_get
  intro i
  by_contra hget
  obtain ⟨r, hr⟩ := Option.ne_none_iff_exists'.mp hget
  obtain ⟨hlatest, hdropped⟩ := h i r hr
  obtain ⟨⟨j, d⟩, hstatus, rfl⟩ := Option.map_eq_some_iff.mp (Endpoint.latestBelow_spec hlatest).2
  obtain ⟨s, hs, hs'⟩ := Option.map_eq_some_iff.mp hstatus
  have hd : d = true := by
    rw [← (Prod.mk.inj hs').2]
    exact hall r s hs
  have hmem := hdropped (by rw [hstatus, hd])
  rw [hnone] at hmem
  cases hmem

/-- The table is consistent in exactly the runs whose steps are all orderly. -/
theorem consistent_iff_orderly (hrun : Run step (start firstStreamId) ms t) :
    Consistent ms t ↔ ∀ m ∈ ms, Orderly m := by
  constructor
  · intro hconsistent
    obtain ⟨-, hkept, hrefused, -⟩ := hconsistent
    induction hrun with
    | nil => simp
    | @snoc ms u v e hr hs ih =>
      have hearlier : ∀ m ∈ ms, Orderly m := by
        apply ih
        · exact fun m hm => hkept m (List.mem_append_left _ hm)
        · exact fun m hm => hrefused m (List.mem_append_left _ hm)
      have hlast : (⟨u, e, v⟩ : Move StreamTable TableEvent) ∈ ms ++ [⟨u, e, v⟩] := by simp
      intro m hm
      rcases List.mem_append.mp hm with hm | hm
      · exact hearlier m hm
      · obtain rfl := List.mem_singleton.mp hm
        exact (fed_run hr hearlier).orderly (counted_run hr) hs (hkept _ hlast) (hrefused _ hlast)
  · intro horderly
    have hfed := fed_run hrun horderly
    constructor
    · exact fun i r hr => (hfed i r hr).1
    · intro m hm i r hr hr'
      obtain ⟨ns, hns, hbefore, -⟩ := hrun.upto hm
      have hfed' := fed_run hbefore fun n hn => horderly n (hns n hn)
      exact hfed'.kept (hrun.step_of_mem hm) (horderly m hm) hr hr'
    · intro m hm i request he hwriter
      have ho := horderly m hm
      rw [Orderly, he] at ho
      rw [hwriter] at ho
      cases ho
    · exact hfed.drains

/-- The peer opens and closes an id, opens it again, and both streams are dropped. -/
def reopening : List TableEvent :=
  [.call (.receive (.openStream 2 .socks)), .call (.receive (.close 2)), .call (.drop 0),
    .call (.openBegin .socks), .call (.openFinish 1 .socks), .remove 0,
    .call (.receive (.openStream 2 .socks)), .call (.drop 2), .call (.drop 1), .remove 1, .remove 2]

theorem consistent_of_reopening :
    Consistent (history step (start 1) reopening) (outcome step (start 1) reopening) :=
  (consistent_iff_orderly (Run.of_outcome (by decide +kernel))).mpr (by decide +kernel)

/-- The peer opens a live id again, and the removal of the first stream takes the entry of the
second; an `open_stream` after the end of `write_loop` leaves an entry for good. -/
theorem inconsistent_of_openTwice_and_of_failedOpen :
    (∃ ms t, Run step (start 1) ms t ∧ ¬ Consistent ms t) ∧
      ∃ ms t, Run step (start 1) ms t ∧ ¬ t.Drains := by
  constructor
  · have hrun :
        Run step (start 1) _ _ := Run.of_play_split [.call (.receive (.openStream 2 .socks)),
      .call (.receive (.openStream 2 .socks)), .call (.drop 0)] (.remove 0) [] (by decide +kernel)
    refine ⟨_, _, hrun, ?_⟩
    intro h
    have hkept := h.kept _ (List.mem_append_right _ List.mem_cons_self) 2 1 (by decide +kernel)
      (by decide +kernel)
    revert hkept
    decide +kernel
  · have hplay : (play step (start 1) [.call .writerStop, .call (.openBegin .socks),
        .call (.openFinish 1 .socks)]).isSome = true := by decide +kernel
    refine ⟨_, _, Run.of_outcome hplay, ?_⟩
    intro h
    have hempty := h (by intro r s hs; cases hs) rfl
    have hget := congrArg (fun streams : Table UInt32 StreamRef => streams.get 1) hempty
    revert hget
    decide +kernel

end StreamTable

end NodeAccess.Mux
