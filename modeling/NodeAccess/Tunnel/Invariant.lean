import NodeAccess.Mux.Payloads
import NodeAccess.Tunnel.Carrying

/-! # The invariant of a net

No two pipes share an end, and what the programs have done with an end of a pipe is what the
pipe's two copies say.
-/

namespace NodeAccess.Tunnel

open Foundation Crypto Mux

namespace Net

structure Carries (n : Net) : Prop where
  apart : ∀ (j k : ℕ) (p q : Pipe) (d d' : Direction), n.pipes[j]? = some p → n.pipes[k]? = some q →
    p.source d = q.source d' →
    j = k ∧ d = d'
  ends : ∀ (k : ℕ) (pipe : Pipe), n.pipes[k]? = some pipe →
    ∀ d, n.view (pipe.source d) = some (pipe.endView d)
  finished : ∀ (k : ℕ) (pipe : Pipe), n.pipes[k]? = some pipe → ∀ d, (pipe.copy d).ShutLast

theorem carries_start (crypto : ℕ → Side → Option FrameCrypto) : (start crypto).Carries := by
  constructor
  · intro j k p q d d' hj
    cases hj
  · intro k pipe hk
    cases hk
  · intro k pipe hk
    cases hk

variable {serde : SerdeSlice} {aes : AesGcm} {crypto : ℕ → Side → Option FrameCrypto} {n n' : Net}

theorem piped_eq_true {e : PipeEnd} :
    n.piped e = true ↔ ∃ (k : ℕ) (pipe : Pipe) (d : Direction), n.pipes[k]? = some pipe ∧
      pipe.source d = e := by
  rw [piped, List.any_eq_true]
  constructor
  · rintro ⟨pipe, hm, h⟩
    obtain ⟨k, hk⟩ := List.mem_iff_getElem?.mp hm
    rcases Bool.or_eq_true_iff.mp h with h | h
    · exact ⟨k, pipe, .forth, hk, of_decide_eq_true h⟩
    · exact ⟨k, pipe, .back, hk, of_decide_eq_true h⟩
  · rintro ⟨k, pipe, d, hk, rfl⟩
    refine ⟨pipe, List.mem_of_getElem? hk, ?_⟩
    cases d <;> simp

theorem Carries.quiet (h : n.Carries) (hpipes : n'.pipes = n.pipes)
    (hview : ∀ e v, n.piped e = true → n.view e = some v → n'.view e = some v) : n'.Carries := by
  constructor
  · rw [hpipes]
    exact h.apart
  · rw [hpipes]
    intro k pipe hk d
    exact hview _ _ (piped_eq_true.mpr ⟨k, pipe, d, hk, rfl⟩) (h.ends k pipe hk d)
  · rw [hpipes]
    exact h.finished

theorem Works.getElem? {k : ℕ} {pipe pipe' : Pipe} (hw : n.Works n' k pipe pipe') {j : ℕ} {p : Pipe}
    (hj : n'.pipes[j]? = some p) : j = k ∧ p = pipe' ∨ j ≠ k ∧ n.pipes[j]? = some p := by
  rw [hw.pipes, List.getElem?_set] at hj
  by_cases hk : k = j
  · subst hk
    have hlt := (List.getElem?_eq_some_iff.mp (running_eq_some.mp hw.running).1).1
    rw [if_pos rfl, if_pos hlt, Option.some.injEq] at hj
    exact .inl ⟨rfl, hj.symm⟩
  · rw [if_neg hk] at hj
    exact .inr ⟨Ne.symm hk, hj⟩

theorem Works.source_getElem? {k : ℕ} {pipe pipe' : Pipe} (hw : n.Works n' k pipe pipe') {j : ℕ}
    {p : Pipe} (hj : n'.pipes[j]? = some p) : ∃ q, n.pipes[j]? = some q ∧ q.source = p.source := by
  rcases hw.getElem? hj with ⟨rfl, rfl⟩ | ⟨-, hj⟩
  · exact ⟨pipe, (running_eq_some.mp hw.running).1, hw.source.symm⟩
  · exact ⟨p, hj, rfl⟩

theorem Carries.works (h : n.Carries) {k : ℕ} {pipe pipe' : Pipe} (hw : n.Works n' k pipe pipe')
    (hfinished : ∀ d, (pipe'.copy d).ShutLast) : n'.Carries := by
  have hk := (running_eq_some.mp hw.running).1
  constructor
  · intro i j p q d d' hi hj he
    obtain ⟨p₀, hi₀, hp⟩ := hw.source_getElem? hi
    obtain ⟨q₀, hj₀, hq⟩ := hw.source_getElem? hj
    exact h.apart i j p₀ q₀ d d' hi₀ hj₀ (by rw [hp, hq, he])
  · intro j p hj d
    rcases hw.getElem? hj with ⟨rfl, rfl⟩ | ⟨hne, hj⟩
    · rw [hw.source]
      exact hw.ends d (h.ends _ pipe hk d)
    · apply hw.others _ _ _ (h.ends j p hj d)
      intro d' he
      exact hne (h.apart j k p pipe d d' hj hk he).1
  · intro j p hj
    rcases hw.getElem? hj with ⟨rfl, rfl⟩ | ⟨-, hj⟩
    · exact hfinished
    · exact h.finished j p hj

/-! ## The steps of a pipe -/

end Net

namespace Pipe

variable (pipe : Pipe) (d : Direction) (copy : CopyBuffer)

theorem setCopy_copy_self : (pipe.setCopy d copy).copy d = copy := Function.update_self _ _ _

theorem setCopy_copy_flip : (pipe.setCopy d copy).copy d.flip = pipe.copy d.flip :=
  Function.update_of_ne d.flip_ne _ _

theorem endView_setCopy : (pipe.setCopy d copy).endView d =
    { pipe.endView d with taken := (pipe.earlier d).taken ++ (copy.moved ++ copy.buffer) } := by
  simp only [endView, setCopy_copy_self, setCopy_copy_flip]
  rfl

theorem endView_setCopy_flip : (pipe.setCopy d copy).endView d.flip =
    { pipe.endView d.flip with
      written := (pipe.earlier d.flip).written ++ copy.moved
      shut := copy.shut || pipe.returned } := by
  simp only [endView, Direction.flip_flip, setCopy_copy_self, setCopy_copy_flip]
  rfl

theorem setCopy_cases {P : CopyBuffer → Prop} (hself : P copy) (hflip : P (pipe.copy d.flip))
    (d' : Direction) :
    P ((pipe.setCopy d copy).copy d') := by
  by_cases h : d' = d
  · rw [h, setCopy_copy_self]
    exact hself
  · obtain rfl : d' = d.flip := by
      cases d <;> cases d' <;> first | rfl | exact absurd rfl h
    rw [setCopy_copy_flip]
    exact hflip

end Pipe

namespace Net

variable {serde : SerdeSlice} {aes : AesGcm} {crypto : ℕ → Side → Option FrameCrypto}
    {n n' n₁ : Net}
  {k : ℕ} {pipe : Pipe} {d : Direction}

theorem Carries.source_ne (h : n.Carries) (hk : n.pipes[k]? = some pipe) (d : Direction) :
    pipe.source d.flip ≠ pipe.source d :=
  fun he => d.flip_ne (h.apart k k pipe pipe d.flip d hk hk he).2

theorem Carries.read (h : n.Carries) (href : n.Referenced) {cx : TaskContext} {buf : ReadBuf}
    (hs : n.step serde aes (.read k d cx buf) = some n') : ∃ pipe n₁ given,
      (pipe.copy d).readDone = false ∧ 0 < buf.remaining ∧
      n.pollRead serde aes cx buf (pipe.source d) = some (n₁, given) ∧
      n.Works n' k pipe (pipe.setCopy d ((pipe.copy d).fill given)) := by
  obtain ⟨pipe, n₁, given, hrunning, hdone, hroom, hread, rfl⟩ := step_read hs
  have hk := (running_eq_some.mp hrunning).1
  refine ⟨pipe, n₁, given, hdone, hroom, hread, ?_⟩
  refine .of_touches hrunning rfl rfl (h.source_ne hk d) (touches_pollRead href hread) ?_ ?_
  · rw [Pipe.endView_setCopy]
    simp [Pipe.endView, CopyBuffer.fill]
  · rw [Pipe.endView_setCopy_flip]
    simp [Pipe.endView, CopyBuffer.fill]

theorem Carries.target_view (h : n.Carries) (hk : n.pipes[k]? = some pipe) (d : Direction) :
    n.view (pipe.target d) = some (pipe.endView d.flip) := h.ends k pipe hk d.flip

theorem Carries.write (h : n.Carries) (href : n.Referenced) {size : ℕ}
    (hs : n.step serde aes (.write k d size) = some n') : ∃ pipe,
      (pipe.copy d).buffer.take size ≠ [] ∧
        n.Works n' k pipe (pipe.setCopy d ((pipe.copy d).pass size)) := by
  obtain ⟨pipe, n₁, hrunning, hchunk, hwrite, rfl⟩ := step_write hs
  obtain ⟨hk, hreturned⟩ := running_eq_some.mp hrunning
  refine ⟨pipe, hchunk, ?_⟩
  have hopen : (pipe.endView d.flip).shut = false := by
    have hshut : (pipe.copy d).shut = false := by
      by_contra hn
      rw [(h.finished k pipe hk d (Bool.eq_true_of_not_eq_false hn)).2, List.take_nil] at hchunk
      exact hchunk rfl
    simp [Pipe.endView, hshut, hreturned]
  have htouches := touches_pollWrite href (h.target_view hk d) hopen hwrite
  have hne : pipe.source d.flip.flip ≠ pipe.source d.flip := h.source_ne hk d.flip
  refine .of_touches hrunning rfl rfl hne htouches ?_ ?_
  · rw [Pipe.endView_setCopy_flip]
    simp [Pipe.endView, CopyBuffer.pass]
  · rw [d.flip_flip, Pipe.endView_setCopy]
    simp [Pipe.endView, CopyBuffer.pass]

theorem Carries.shutdown (h : n.Carries) (href : n.Referenced)
    (hs : n.step serde aes (.shutdown k d) = some n') : ∃ pipe,
      ((pipe.copy d).readDone = true ∧ (pipe.copy d).buffer = [] ∧ (pipe.copy d).shut = false) ∧
      n.Works n' k pipe (pipe.setCopy d { pipe.copy d with shut := true }) := by
  obtain ⟨pipe, n₁, hrunning, hdone, hshut, rfl⟩ := step_shutdown hs
  have hk := (running_eq_some.mp hrunning).1
  refine ⟨pipe, hdone, ?_⟩
  have hne : pipe.source d.flip.flip ≠ pipe.source d.flip := h.source_ne hk d.flip
  refine .of_touches hrunning rfl rfl hne (touches_pollShutdown href hshut) ?_ ?_
  · rw [Pipe.endView_setCopy_flip]
    simp [Pipe.endView]
  · rw [d.flip_flip, Pipe.endView_setCopy]
    simp [Pipe.endView]

theorem Carries.leave (h : n.Carries)
    (href : ∀ q, n.Continues serde aes q → q.Continues serde aes n' → q.Referenced)
    (hs : n.step serde aes (.leave k) = some n') : ∃ pipe,
      n.Works n' k pipe { pipe with returned := true } := by
  obtain ⟨pipe, n₁, n₂, hrunning, hforth, hback, rfl⟩ := step_leave hs
  have hk := (running_eq_some.mp hrunning).1
  have hsame : n₂.Continues serde aes (n₂.setPipe k { pipe with returned := true }) := .of_same rfl
  have hcontinues := respects_continues.dropEnd hforth
  have hcontinues' := respects_continues.dropEnd hback
  have htouches :=
    touches_dropEnd (href n (.of_same rfl) ((hcontinues.trans hcontinues').trans hsame)) hforth
  have htouches' := touches_dropEnd (href n₁ hcontinues (hcontinues'.trans hsame)) hback
  have hne := h.source_ne hk .forth
  refine ⟨pipe, hrunning, rfl, rfl, by rw [setPipe, htouches'.pipes, htouches.pipes], ?_, ?_⟩
  · intro d hv
    cases d with
    | forth =>
      obtain ⟨v, hv₀, hv'⟩ := htouches.view
      obtain rfl := Option.some.inj (hv₀.symm.trans hv)
      refine (htouches'.others _ _ hne.symm hv').trans ?_
      simp [Pipe.endView]
    | back =>
      obtain ⟨v, hv₀, hv'⟩ := htouches'.view
      obtain rfl := Option.some.inj (hv₀.symm.trans (htouches.others _ _ hne hv))
      refine hv'.trans ?_
      simp [Pipe.endView]
  · intro e v he hv
    exact htouches'.others e v (he .back) (htouches.others e v (he .forth) hv)

theorem getElem?_join {left right : PipeEnd} {v w : EndView}
    (hk : (n.pipes ++ [Pipe.new left right v w])[k]? = some pipe) :
    n.pipes[k]? = some pipe ∨ k = n.pipes.length ∧ pipe = .new left right v w := by
  rw [List.getElem?_append] at hk
  split_ifs at hk with hlt
  · exact .inl hk
  · have hk' := List.getElem?_singleton.symm.trans hk
    split_ifs at hk' with hzero
    exact .inr ⟨by omega, (Option.some.inj hk').symm⟩

theorem Carries.join (h : n.Carries) {left right : PipeEnd} {v w : EndView} (hne : left ≠ right)
    (hleft : n.openView left = some v) (hright : n.openView right = some w)
    (hfreshLeft : n.piped left = false) (hfreshRight : n.piped right = false) :
    Carries { n with pipes := n.pipes ++ [.new left right v w] } := by
  have hview : ∀ {e : PipeEnd} {u : EndView}, n.openView e = some u →
      n.view e = some ⟨u.taken ++ ([] ++ []), u.written ++ [], false || false, false⟩ := by
    intro e u he
    obtain ⟨hu, hshut, hdropped⟩ := openView_eq_some.mp he
    rw [hu, Option.some.injEq]
    ext1
    · simp
    · simp
    · exact hshut
    · exact hdropped
  have hfresh : ∀ (k : ℕ) (pipe : Pipe) (d d' : Direction), n.pipes[k]? = some pipe →
      pipe.source d ≠ (Pipe.new left right v w).source d' := by
    intro k pipe d d' hk he
    have hp := piped_eq_true.mpr ⟨k, pipe, d, hk, he⟩
    cases d' with
    | forth => exact Bool.false_ne_true (hfreshLeft.symm.trans hp)
    | back => exact Bool.false_ne_true (hfreshRight.symm.trans hp)
  constructor
  · intro j k p q d d' hj hk he
    rcases getElem?_join hj with hj | ⟨rfl, rfl⟩
    · rcases getElem?_join hk with hk | ⟨rfl, rfl⟩
      · exact h.apart j k p q d d' hj hk he
      · exact absurd he (hfresh j p d d' hj)
    · rcases getElem?_join hk with hk | ⟨rfl, rfl⟩
      · exact absurd he.symm (hfresh k q d' d hk)
      · refine ⟨rfl, ?_⟩
        cases d <;> cases d' <;> first | rfl | exact absurd he hne | exact absurd he.symm hne
  · intro k pipe hk d
    rcases getElem?_join hk with hk | ⟨rfl, rfl⟩
    · exact h.ends k pipe hk d
    · cases d with
      | forth => exact hview hleft
      | back => exact hview hright
  · intro k pipe hk
    rcases getElem?_join hk with hk | ⟨rfl, rfl⟩
    · exact h.finished k pipe hk
    · intro d hd
      cases hd

theorem Carries.step (h : n.Carries) {event : NetEvent}
    (href : ∀ q, n.Continues serde aes q → q.Continues serde aes n' → q.Referenced)
    (hs : n.step serde aes event = some n') : n'.Carries := by
  have href₀ := href n (.of_same rfl) (continues_step hs)
  cases event with
  | mux conn event =>
    simp only [Net.step] at hs
    split_ifs at hs with hcalled
    obtain ⟨p, hstep, rfl⟩ := Option.map_eq_some_iff.mp hs
    refine h.quiet rfl ?_
    intro e v hp hv
    apply view_setPair href₀ hstep _ hv
    intro he
    rw [he, Option.any_some] at hcalled
    exact hcalled (.inl hp)
  | arrive id bytes =>
    simp only [Net.step] at hs
    split_ifs at hs
    obtain rfl := Option.some.inj hs
    refine h.quiet rfl ?_
    intro e v _ hv
    refine view_setSocket ?_ hv
    rfl
  | finish id =>
    obtain rfl := Option.some.inj hs
    refine h.quiet rfl ?_
    intro e v _ hv
    refine view_setSocket ?_ hv
    rfl
  | pipe left right =>
    obtain ⟨v, w, hleft, hright, ⟨hne, hfreshLeft, hfreshRight⟩, rfl⟩ := step_pipe hs
    exact h.join hne hleft hright hfreshLeft hfreshRight
  | drop e =>
    obtain ⟨hfresh, hdrop⟩ := step_drop hs
    have htouches := touches_dropEnd href₀ hdrop
    refine h.quiet htouches.pipes ?_
    intro e' v hp hv
    apply htouches.others e' v _ hv
    rintro rfl
    exact Bool.false_ne_true (hfresh.symm.trans hp)
  | read k d cx buf =>
    obtain ⟨pipe, n₁, given, hdone, -, -, hw⟩ := h.read href₀ hs
    have hk := (running_eq_some.mp hw.running).1
    refine h.works hw (Pipe.setCopy_cases _ _ _ (P := CopyBuffer.ShutLast) ?_ ?_)
    · intro hshut
      rw [(h.finished k pipe hk d hshut).1] at hdone
      cases hdone
    · exact h.finished k pipe hk d.flip
  | write k d size =>
    obtain ⟨pipe, hchunk, hw⟩ := h.write href₀ hs
    have hk := (running_eq_some.mp hw.running).1
    refine h.works hw (Pipe.setCopy_cases _ _ _ (P := CopyBuffer.ShutLast) ?_ ?_)
    · intro hshut
      obtain ⟨hdone, hempty⟩ := h.finished k pipe hk d hshut
      exact ⟨hdone, by simp [CopyBuffer.pass, hempty]⟩
    · exact h.finished k pipe hk d.flip
  | shutdown k d =>
    obtain ⟨pipe, ⟨hdone, hempty, -⟩, hw⟩ := h.shutdown href₀ hs
    have hk := (running_eq_some.mp hw.running).1
    refine h.works hw (Pipe.setCopy_cases _ _ _ (P := CopyBuffer.ShutLast) ?_ ?_)
    · exact fun _ => ⟨hdone, hempty⟩
    · exact h.finished k pipe hk d.flip
  | leave k =>
    obtain ⟨pipe, hw⟩ := h.leave href hs
    exact h.works hw (h.finished k pipe (running_eq_some.mp hw.running).1)

/-! ## Runs -/

/-- No connection has used up its stream ids. -/
def Bounded (n : Net) : Prop := ∀ conn side, (n.endpoint conn side).opened ≤ 2 ^ 31

theorem Bounded.of_continues (h : n'.Bounded) (hc : n.Continues serde aes n') : n.Bounded := by
  intro conn side
  obtain ⟨ms, hrun, -⟩ := hc conn
  refine le_trans ?_ (h conn side)
  apply hrun.invariant (P := fun p => (n.endpoint conn side).opened ≤ (p.mux side).endpoint.opened)
    le_rfl
  intro p event p' hp hstep
  exact hp.trans (Pair.opened_step hstep side)

theorem opened_setPair {conn : ℕ} {p : Pair} {m : ℕ}
    (h : ∀ side, (p.mux side).endpoint.opened ≤ (n.endpoint conn side).opened + m) (conn' : ℕ)
    (side : Side) :
    ((n.setPair conn p).endpoint conn' side).opened ≤ (n.endpoint conn' side).opened + m := by
  by_cases hconn : conn' = conn
  · subst hconn
    rw [endpoint, setPair_pair_self]
    exact h side
  · rw [endpoint, setPair_pair_of_ne hconn]
    exact Nat.le_add_right _ _

theorem opened_call {conn : ℕ} {side : Side} {event : StreamEvent} {r : StreamRef}
    (ht : event.target = some r) (h : n.call serde aes conn side event = some n') (conn' : ℕ)
    (side' : Side) :
    (n'.endpoint conn' side').opened ≤ (n.endpoint conn' side').opened := by
  obtain ⟨p, -, hstep, rfl, -⟩ := call_eq_some h
  refine opened_setPair (m := 0) ?_ conn' side'
  intro side₁
  refine Pair.relates_step (R := fun _ e e' => e'.opened ≤ e.opened) ?_ ?_ ?_ ?_ hstep side₁
  · exact fun _ _ => le_rfl
  · exact fun _ _ _ => le_rfl
  · exact fun _ e frame => (e.receive_histories frame).2.2.2.le
  · rintro side₂ event' e he - hs
    cases he
    obtain ⟨s, htouches⟩ := Endpoint.touches_of_step hs ht
    exact htouches.ids.2.2.le

theorem opened_step {event : NetEvent} (h : n.step serde aes event = some n') (conn : ℕ)
    (side : Side) :
    (n'.endpoint conn side).opened ≤ (n.endpoint conn side).opened + 1 := by
  by_cases hmux : ∃ conn' event', event = .mux conn' event'
  · obtain ⟨conn', event', rfl⟩ := hmux
    simp only [Net.step] at h
    split_ifs at h
    obtain ⟨p, hstep, rfl⟩ := Option.map_eq_some_iff.mp h
    refine opened_setPair ?_ conn side
    intro side₁
    refine Pair.relates_step (R := fun _ e e' => e'.opened ≤ e.opened + 1) ?_ ?_ ?_ ?_ hstep side₁
    · exact fun _ _ => Nat.le_succ _
    · exact fun _ _ _ => Nat.le_succ _
    · exact fun _ e frame => (e.receive_histories frame).2.2.2.le.trans (Nat.le_succ _)
    · exact fun _ _ _ _ _ hs => Endpoint.opened_step hs
  · have hrespects :
        Respects serde aes fun n n' =>
          (n'.endpoint conn side).opened ≤ (n.endpoint conn side).opened := by
      constructor
      · intro q q' hpair _
        rw [endpoint, endpoint, hpair]
      · exact fun h h' => h'.trans h
      · exact fun _ => le_rfl
      · exact fun ht _ hcall => opened_call ht hcall conn side
    refine (hrespects.step ?_ h).trans (Nat.le_succ _)
    intro conn' event' p he
    exact absurd ⟨conn', event', he⟩ hmux

theorem run_continues {ms : List (Move Net NetEvent)} (hrun : Run (step serde aes) n ms n') :
    n.Continues serde aes n' := by
  induction hrun with
  | nil => exact .of_same rfl
  | snoc _ hs ih => exact ih.trans (continues_step hs)

theorem run_bounded {ms : List (Move Net NetEvent)}
    (hrun : Run (step serde aes) (start crypto) ms n) (hlength : ms.length ≤ 2 ^ 31) :
    n.Bounded := by
  intro conn side
  refine le_trans ?_ hlength
  apply hrun.history_invariant (P := fun ms n => (n.endpoint conn side).opened ≤ ms.length)
  · exact le_rfl
  · intro ns u event v _ hu hs
    rw [List.length_append, List.length_singleton]
    exact (opened_step hs conn side).trans (Nat.succ_le_succ hu)

theorem pair_sound (hserde : serde.Inverts) (haes : aes.Ideal)
    (hc : (start crypto).Continues serde aes n) (hbound : n.Bounded) (conn : ℕ) :
    (n.pair conn).Sound serde aes (crypto conn) := by
  obtain ⟨ms, hrun, -⟩ := hc conn
  exact Pair.run_sound hserde haes hrun (hbound conn)

theorem referenced (hserde : serde.Inverts) (haes : aes.Ideal)
    (hc : (start crypto).Continues serde aes n) (hbound : n.Bounded) : n.Referenced :=
  fun conn side r s hs => (pair_sound hserde haes hc hbound conn).ref side r s hs

theorem run_carries (hserde : serde.Inverts) (haes : aes.Ideal) {ms : List (Move Net NetEvent)}
    (hrun : Run (step serde aes) (start crypto) ms n) (hbound : n.Bounded) : n.Carries := by
  apply hrun.history_invariant (P := fun _ n => n.Bounded → n.Carries)
    (fun _ => carries_start crypto) _ hbound
  intro ns u event v hrun hu hs hb
  refine (hu (hb.of_continues (continues_step hs))).step ?_ hs
  intro q hq hq'
  exact referenced hserde haes ((run_continues hrun).trans hq) (hb.of_continues hq')

end Net

end NodeAccess.Tunnel
