import NodeAccess.Tunnel.EndToEnd

/-! # Ends that no pipe has

An end that no pipe has is as it was made until a program works on it. The pipes that there are keep
their ends, the streams that a mux has handed over stay so, and what a mux sends besides the frames
of its streams its program has called for.
-/

namespace NodeAccess.Mux

open Foundation Crypto

namespace Endpoint

variable {e e' : Endpoint} {event : StreamEvent} {r : StreamRef} {s : VirtualStream}

theorem new_of_update {s₁ : VirtualStream} {r₁ : StreamRef} (h : e'.stream r = some s)
    (hnone : e.stream r = none) (hstream : e'.stream = Function.update e.stream r₁ (some s₁)) :
    r = r₁ ∧ s = s₁ := by
  rw [hstream] at h
  by_cases hr : r = r₁
  · subst hr
    rw [Function.update_self, Option.some.injEq] at h
    exact ⟨rfl, h.symm⟩
  · rw [Function.update_of_ne hr, hnone] at h
    cases h

theorem new_of_receive {frame : MuxFrame} (h : (e.receive frame).stream r = some s)
    (hnone : e.stream r = none) :
    ∃ i, s = .new i := by
  have hsame : e.stream r ≠ some s := by simp [hnone]
  cases frame with
  | openStream i request => exact ⟨i, (new_of_update h hnone rfl).2⟩
  | data i payload =>
    unfold receive at h
    dsimp only at h
    split at h
    · rename_i r₀ s₀ hfound
      obtain ⟨r₁, -, hl⟩ := Option.bind_eq_some_iff.mp hfound
      obtain ⟨s₁, hlive, he⟩ := Option.map_eq_some_iff.mp hl
      obtain ⟨rfl, rfl⟩ := Prod.mk.inj he
      obtain ⟨rfl, -⟩ := new_of_update h hnone rfl
      rw [(live_eq_some.mp hlive).1] at hnone
      cases hnone
    · exact absurd h hsame
  | close i => exact absurd h hsame
  | control message => exact absurd h hsame

theorem new_of_step (hs : e.step event = some e') (h : e'.stream r = some s)
    (hnone : e.stream r = none) :
    ∃ i, s = .new i := by
  by_cases ht : ∃ r₁, event.target = some r₁
  · obtain ⟨r₁, hr₁⟩ := ht
    obtain ⟨s₁, htouches⟩ := touches_of_step hs hr₁
    obtain ⟨s₂, hstream, -⟩ := htouches.stream
    obtain ⟨rfl, -⟩ := new_of_update h hnone hstream
    rw [(live_eq_some.mp htouches.live).1] at hnone
    cases hnone
  · have hsame : e.stream r ≠ some s := by simp [hnone]
    cases event with
    | openFinish i request =>
      obtain rfl := Option.some.inj (Option.ite_none_right_eq_some.mp hs).2
      unfold openFinish at h
      split_ifs at h
      · exact ⟨i, (new_of_update h hnone rfl).2⟩
      · exact absurd h hsame
    | receive frame =>
      obtain rfl := Option.some.inj hs
      exact new_of_receive h hnone
    | openBegin request =>
      obtain rfl := Option.some.inj hs
      exact absurd h hsame
    | sendControl message =>
      obtain rfl := Option.some.inj hs
      exact absurd h hsame
    | reap i =>
      obtain rfl := Option.some.inj (Option.ite_none_right_eq_some.mp hs).2
      exact absurd h hsame
    | writerStop =>
      obtain rfl := Option.some.inj hs
      exact absurd h hsame
    | _ r₁ => exact absurd ⟨r₁, rfl⟩ ht

theorem none_of_target (hs : e.step event = some e') (ht : event.target.isSome = true)
    (hnone : e.stream r = none) :
    e'.stream r = none := by
  obtain ⟨r₁, hr₁⟩ := Option.isSome_iff_exists.mp ht
  obtain ⟨s₁, htouches⟩ := touches_of_step hs hr₁
  obtain ⟨s₂, hstream, -⟩ := htouches.stream
  have hne : r ≠ r₁ := by
    rintro rfl
    rw [(live_eq_some.mp htouches.live).1] at hnone
    cases hnone
  rw [hstream, Function.update_of_ne hne, hnone]

/-- What is sent beside the frames of streams, and by which call. -/
structure Said (e e' : Endpoint) (event : Option StreamEvent) : Prop where
  control : ∀ message, .control message ∈ e'.sent → .control message ∈ e.sent ∨
    event = some (.sendControl message)
  opens : ∀ i request, .openStream i request ∈ e'.sent →
    .openStream i request ∈ e.sent ∨ event = some (.openFinish i request)

theorem Said.of_same (h : e'.sent = e.sent) {event : Option StreamEvent} : e.Said e' event :=
  ⟨fun _ hm => .inl (h ▸ hm), fun _ _ hm => .inl (h ▸ hm)⟩

theorem Said.of_send {frame : MuxFrame} {event : Option StreamEvent}
    (h : e'.sent = (e.send frame).sent)
    (hcontrol : ∀ message, frame = .control message → event = some (.sendControl message))
    (hopen : ∀ i request, frame = .openStream i request → event = some (.openFinish i request)) :
    e.Said e' event := by
  have hsent : ∀ {f : MuxFrame}, f ∈ e'.sent → f ∈ e.sent ∨ frame = f := by
    intro f hf
    rw [h, send] at hf
    rcases List.mem_append.mp hf with hf | hf
    · exact .inl hf
    · split_ifs at hf
      · exact .inr (List.mem_singleton.mp hf).symm
      · cases hf
  constructor
  · exact fun message hm => (hsent hm).imp_right (hcontrol message)
  · exact fun i request hm => (hsent hm).imp_right (hopen i request)

theorem Said.trans {e'' : Endpoint} (h : e.Said e' none) (h' : e'.Said e'' none) :
    e.Said e'' none := by
  constructor
  · intro message hm
    exact (h'.control message hm).elim (h.control message) .inr
  · intro i request hm
    exact (h'.opens i request hm).elim (h.opens i request) .inr

theorem Said.of_target {event : Option StreamEvent} (h : e.Said e' event)
    (ht : ∀ call, event = some call → call.target = some r) : e.Said e' none := by
  constructor
  · intro message hm
    exact (h.control message hm).imp_right fun he => absurd (ht _ he) (by simp [StreamEvent.target])
  · intro i request hm
    exact (h.opens i request hm).imp_right fun he => absurd (ht _ he) (by simp [StreamEvent.target])

theorem said_of_step (hs : e.step event = some e') : e.Said e' (some event) := by
  by_cases ht : ∃ r₁, event.target = some r₁
  · obtain ⟨r₁, hr₁⟩ := ht
    obtain ⟨s₁, htouches⟩ := touches_of_step hs hr₁
    rcases htouches.sent with hsent | ⟨data, hsent⟩ | hsent
    · exact .of_same hsent
    · exact .of_send hsent (fun _ he => by cases he) (fun _ _ he => by cases he)
    · exact .of_send hsent (fun _ he => by cases he) (fun _ _ he => by cases he)
  · cases event with
    | openFinish i request =>
      obtain rfl := Option.some.inj (Option.ite_none_right_eq_some.mp hs).2
      unfold openFinish
      split_ifs
      · refine .of_send rfl (fun _ he => by cases he) ?_
        rintro _ _ he
        cases he
        rfl
      · apply Said.of_same
        rfl
    | sendControl message =>
      obtain rfl := Option.some.inj hs
      refine .of_send rfl ?_ (fun _ _ he => by cases he)
      rintro _ he
      cases he
      rfl
    | openBegin request => exact .of_same (Option.some.inj hs ▸ rfl)
    | receive frame =>
      obtain rfl := Option.some.inj hs
      exact .of_same (e.receive_histories frame).1
    | reap i => exact .of_same (Option.some.inj (Option.ite_none_right_eq_some.mp hs).2 ▸ rfl)
    | writerStop => exact .of_same (Option.some.inj hs ▸ rfl)
    | _ r₁ => exact absurd ⟨r₁, rfl⟩ ht

end Endpoint

/-- The call of a program on an end of the pair. -/
def PairEvent.calls (side : Side) : PairEvent → Option StreamEvent
  | .call caller event => if caller = side then some event else none
  | _ => none

namespace Pair

variable {serde : SerdeSlice} {aes : AesGcm} {p p' : Pair} {event : PairEvent}

theorem said_step (hstep : p.step serde aes event = some p') (side : Side) :
    (p.mux side).endpoint.Said (p'.mux side).endpoint (event.calls side) := by
  refine relates_step (R := fun side e e' => e.Said e' (event.calls side)) ?_ ?_ ?_ ?_ hstep side
  · exact fun _ _ => .of_same rfl
  · intro _ e writerOpen
    apply Endpoint.Said.of_same
    rfl
  · exact fun _ e frame => .of_same (e.receive_histories frame).1
  · rintro side event' endpoint rfl - hs
    rw [PairEvent.calls, if_pos rfl]
    exact Endpoint.said_of_step hs

theorem new_step (hstep : p.step serde aes event = some p') {side : Side} {r : StreamRef}
    {s : VirtualStream} (h : (p'.mux side).endpoint.stream r = some s)
    (hnone : (p.mux side).endpoint.stream r = none) :
    ∃ i, s = .new i := by
  refine relates_step (R := fun _ e e' => e'.stream r = some s → e.stream r = none →
    ∃ i, s = .new i)
    ?_ ?_ ?_ ?_ hstep side h hnone
  · exact fun _ _ h hnone => absurd h (by simp [hnone])
  · exact fun _ _ _ h hnone => absurd h (by simp [hnone])
  · exact fun _ _ _ => Endpoint.new_of_receive
  · exact fun _ _ _ _ _ hs => Endpoint.new_of_step hs

theorem none_of_call {side : Side} {call : StreamEvent}
    (hstep : p.step serde aes (.call side call) = some p') (ht : call.target.isSome = true)
    {side' : Side} {r : StreamRef} (hnone : (p.mux side').endpoint.stream r = none) :
    (p'.mux side').endpoint.stream r = none := by
  obtain ⟨m, hcall, rfl⟩ := Option.map_eq_some_iff.mp hstep
  obtain ⟨-, endpoint, hs, rfl⟩ := MuxConnection.call_eq_some hcall
  rcases side.eq_or_eq_other side' with rfl | rfl
  · rw [setMux_mux_self]
    exact Endpoint.none_of_target hs ht hnone
  · rwa [setMux_mux_other]

theorem incoming_step (hstep : p.step serde aes event = some p') (side : Side) :
    (p.mux side).incoming <+: (p'.mux side).incoming := by
  have hset :
      ∀ {q : Pair} {side' : Side} {m : MuxConnection}, (q.mux side').incoming <+: m.incoming →
      (q.mux side).incoming <+: ((q.setMux side' m).mux side).incoming := by
    intro q side' m hm
    rcases side'.eq_or_eq_other side with rfl | rfl
    · rwa [setMux_mux_self]
    · rw [setMux_mux_other]
  cases event with
  | call caller event =>
    obtain ⟨m, hcall, rfl⟩ := Option.map_eq_some_iff.mp hstep
    obtain ⟨-, endpoint, -, rfl⟩ := MuxConnection.call_eq_some hcall
    apply hset
    exact List.prefix_rfl
  | writeLoop writer =>
    obtain ⟨⟨m, message⟩, hw, rfl⟩ := Option.map_eq_some_iff.mp hstep
    apply hset
    rw [(MuxConnection.writeLoop_channels hw).2]
  | writerEnd writer =>
    obtain rfl := Option.some.inj hstep
    apply hset
    exact List.prefix_rfl
  | readLoop reader =>
    simp only [Pair.step] at hstep
    cases hwire : p.wire reader.other with
    | nil => simp [hwire] at hstep
    | cons message rest =>
      rw [hwire] at hstep
      obtain ⟨-, hs⟩ := Option.ite_none_right_eq_some.mp hstep
      obtain rfl := Option.some.inj hs
      apply hset
      unfold MuxConnection.readLoop
      cases readFrame serde aes (p.mux reader).crypto message with
      | error e => exact List.prefix_rfl
      | ok frame =>
        cases frame with
        | openStream i request => exact List.prefix_append _ _
        | _ => exact List.prefix_rfl
  | readerEnd reader =>
    obtain rfl := Option.some.inj hstep
    apply hset
    exact List.prefix_rfl

end Pair

end NodeAccess.Mux

namespace NodeAccess.Tunnel

open Foundation Crypto Mux

/-- The end that a program works on itself. -/
def NetEvent.works : NetEvent → Option PipeEnd
  | .mux conn event => calledEnd conn event
  | .drop e => some e
  | _ => none

namespace Net

variable {serde : SerdeSlice} {aes : AesGcm} {crypto : ℕ → Side → Option FrameCrypto} {n n' : Net}
  {event : NetEvent} {e : PipeEnd}

/-- A net that is about to take a step that keeps within the ids. -/
structure Steady (serde : SerdeSlice) (aes : AesGcm) (n n' : Net) : Prop where
  carries : n.Carries
  referenced : ∀ q, n.Continues serde aes q → q.Continues serde aes n' → q.Referenced

theorem steady (hserde : serde.Inverts) (haes : aes.Ideal) {ms : List (Move Net NetEvent)}
    (hrun : Run (step serde aes) (start crypto) ms n) (hs : n.step serde aes event = some n')
    (hbound : n'.Bounded) : n.Steady serde aes n' where
  carries := run_carries hserde haes hrun (hbound.of_continues (continues_step hs))
  referenced _ hq hq' :=
    referenced hserde haes ((run_continues hrun).trans hq) (hbound.of_continues hq')

theorem Steady.step_cases (h : n.Steady serde aes n') (hs : n.step serde aes event = some n') :
    (∃ left right v w, event = .pipe left right ∧ n.openView left = some v ∧
      n.openView right = some w ∧
        n' = { n with pipes := n.pipes ++ [.new left right v w] }) ∨
      (∃ k pipe pipe', n.Works n' k pipe pipe') ∨
      n'.pipes = n.pipes ∧ ∀ e v, event.works ≠ some e → n.view e = some v →
        n'.view e = some v := by
  have hcontinues := continues_step hs
  have href := h.referenced n (.of_same rfl) hcontinues
  cases event with
  | mux conn event =>
    simp only [step] at hs
    split_ifs at hs
    obtain ⟨p, hstep, rfl⟩ := Option.map_eq_some_iff.mp hs
    exact .inr (.inr ⟨rfl, fun e v hne hv => view_setPair href hstep hne hv⟩)
  | arrive id bytes =>
    simp only [step] at hs
    split_ifs at hs
    obtain rfl := Option.some.inj hs
    refine .inr (.inr ⟨rfl, fun e v _ hv => view_setSocket ?_ hv⟩)
    rfl
  | finish id =>
    obtain rfl := Option.some.inj hs
    refine .inr (.inr ⟨rfl, fun e v _ hv => view_setSocket ?_ hv⟩)
    rfl
  | pipe left right =>
    obtain ⟨v, w, hleft, hright, -, rfl⟩ := step_pipe hs
    exact .inl ⟨left, right, v, w, rfl, hleft, hright, rfl⟩
  | drop e =>
    have htouches := touches_dropEnd href (step_drop hs).2
    exact .inr (.inr ⟨htouches.pipes, fun e' v hne hv =>
      htouches.others e' v (fun he => hne (he ▸ rfl)) hv⟩)
  | read k d cx buf =>
    obtain ⟨pipe, n₁, given, -, -, -, hw⟩ := h.carries.read href hs
    exact .inr (.inl ⟨k, pipe, _, hw⟩)
  | write k d size =>
    obtain ⟨pipe, -, hw⟩ := h.carries.write href hs
    exact .inr (.inl ⟨k, pipe, _, hw⟩)
  | shutdown k d =>
    obtain ⟨pipe, -, hw⟩ := h.carries.shutdown href hs
    exact .inr (.inl ⟨k, pipe, _, hw⟩)
  | leave k =>
    obtain ⟨pipe, hw⟩ := h.carries.leave h.referenced hs
    exact .inr (.inl ⟨k, pipe, _, hw⟩)

/-! ## The pipes keep their ends -/

/-- The pipes that there are stay, with their ends and what had been done with them. -/
def KeepsPipes (n n' : Net) : Prop :=
  ∀ (k : ℕ) (pipe : Pipe), n.pipes[k]? = some pipe →
    ∃ pipe', n'.pipes[k]? = some pipe' ∧ pipe'.source = pipe.source ∧ pipe'.earlier = pipe.earlier

theorem Steady.keepsPipes (h : n.Steady serde aes n') (hs : n.step serde aes event = some n') :
    n.KeepsPipes n' := by
  intro k pipe hk
  rcases h.step_cases hs with ⟨left, right, v, w, -, -, -, rfl⟩ | ⟨j, p, p', hw⟩ | ⟨hpipes, -⟩
  · refine ⟨pipe, ?_, rfl, rfl⟩
    dsimp only
    rw [List.getElem?_append_left (List.getElem?_eq_some_iff.mp hk).1, hk]
  · have hj := (running_eq_some.mp hw.running).1
    rw [hw.pipes, List.getElem?_set]
    by_cases hjk : j = k
    · subst hjk
      obtain rfl := Option.some.inj (hj.symm.trans hk)
      rw [if_pos rfl, if_pos (List.getElem?_eq_some_iff.mp hj).1]
      exact ⟨p', rfl, hw.source, hw.earlier⟩
    · rw [if_neg hjk]
      exact ⟨pipe, hk, rfl, rfl⟩
  · exact ⟨pipe, hpipes ▸ hk, rfl, rfl⟩

theorem KeepsPipes.joins (h : n.KeepsPipes n') {k : ℕ} {d : Direction} {a b : PipeEnd}
    (hj : n.joins k d a b = true) :
    n'.joins k d a b = true := by
  simp only [Net.joins, Option.any_eq_true] at hj ⊢
  obtain ⟨pipe, hk, hpipe⟩ := hj
  obtain ⟨pipe', hk', hsource, hearlier⟩ := h k pipe hk
  refine ⟨pipe', hk', ?_⟩
  rwa [Pipe.target, hsource, hearlier]

theorem KeepsPipes.piped (h : n.KeepsPipes n') (hp : n.piped e = true) : n'.piped e = true := by
  obtain ⟨k, pipe, d, hk, he⟩ := piped_eq_true.mp hp
  obtain ⟨pipe', hk', hsource, -⟩ := h k pipe hk
  exact piped_eq_true.mpr ⟨k, pipe', d, hk', by rw [hsource, he]⟩

/-! ## Untouched ends -/

/-- No one has read an end or written to it. -/
def Untouched (n : Net) (e : PipeEnd) : Prop := ∀ v, n.view e = some v → v.taken = [] ∧
    v.written = []

theorem respects_none (e : PipeEnd) : Respects serde aes fun n n' => n.view e = none →
    n'.view e = none where
  same := by
    intro q q' hpair hsocket hq
    cases e with
    | socket id => cases hq
    | stream conn side r => rwa [view, stream, endpoint, hpair]
  trans h h' hq := h' (h hq)
  socket := by
    intro q id s _ hq
    cases e with
    | socket id' => cases hq
    | stream conn side r => exact hq
  call := by
    intro q q' conn side event r ht _ hcall hq
    obtain ⟨p, -, hstep, rfl, -⟩ := call_eq_some hcall
    cases e with
    | socket id => cases hq
    | stream conn' side' r' =>
      rw [view, Option.map_eq_none_iff, stream, endpoint] at hq ⊢
      by_cases hconn : conn' = conn
      · subst hconn
        rw [setPair_pair_self]
        exact Pair.none_of_call hstep (ht ▸ rfl) hq
      · rwa [setPair_pair_of_ne hconn]

theorem untouched_of_none (hs : n.step serde aes event = some n') (hnone : n.view e = none) :
    n'.Untouched e := by
  by_cases hmux : ∃ conn event', event = .mux conn event'
  · obtain ⟨conn, event', rfl⟩ := hmux
    simp only [step] at hs
    split_ifs at hs
    obtain ⟨p, hstep, rfl⟩ := Option.map_eq_some_iff.mp hs
    intro v hv
    cases e with
    | socket id => cases hnone
    | stream conn' side r =>
      rw [view, Option.map_eq_none_iff, stream, endpoint] at hnone
      obtain ⟨s, hstream, rfl⟩ := Option.map_eq_some_iff.mp hv
      rw [stream, endpoint] at hstream
      by_cases hconn : conn' = conn
      · subst hconn
        rw [setPair_pair_self] at hstream
        obtain ⟨i, rfl⟩ := Pair.new_step hstep hstream hnone
        exact ⟨rfl, rfl⟩
      · rw [setPair_pair_of_ne hconn, hnone] at hstream
        cases hstream
  · have hstays :=
      (respects_none e).step (fun conn event' p he => absurd ⟨conn, event', he⟩ hmux) hs hnone
    intro v hv
    rw [hstays] at hv
    cases hv

theorem Untouched.step (h : n.Untouched e) (hsteady : n.Steady serde aes n')
    (hs : n.step serde aes event = some n') (hfree : n'.piped e = false)
    (hworks : event.works ≠ some e) : n'.Untouched e := by
  cases hview : n.view e with
  | none => exact untouched_of_none hs hview
  | some v =>
    have hsame : n'.view e = some v := by
      rcases hsteady.step_cases hs with ⟨left, right, v₁, w₁, -, -, -, rfl⟩ | ⟨k, pipe, pipe', hw⟩ |
        ⟨-, hothers⟩
      · exact hview
      · apply hw.others e v _ hview
        rintro d rfl
        have hk := (running_eq_some.mp hw.running).1
        have hp := (hsteady.keepsPipes hs).piped (piped_eq_true.mpr ⟨k, pipe, d, hk, rfl⟩)
        exact Bool.false_ne_true (hfree.symm.trans hp)
      · exact hothers e v hworks hview
    intro v' hv'
    rw [hsame, Option.some.injEq] at hv'
    exact hv' ▸ h v hview

theorem Untouched.drop (h : n.Untouched e) (hsteady : n.Steady serde aes n') {e' : PipeEnd}
    (hs : n.step serde aes (.drop e') = some n') : n'.Untouched e := by
  cases hview : n.view e with
  | none => exact untouched_of_none hs hview
  | some v =>
    have htouches :=
      touches_dropEnd (hsteady.referenced n (.of_same rfl) (continues_step hs)) (step_drop hs).2
    intro v' hv'
    by_cases he : e = e'
    · subst he
      obtain ⟨v₀, hv₀, hafter⟩ := htouches.view
      rw [hafter, Option.some.injEq] at hv'
      exact hv' ▸ h v₀ hv₀
    · rw [htouches.others e v he hview, Option.some.injEq] at hv'
      exact hv' ▸ h v hview

/-! ## What the programs have called for -/

theorem incoming_step (hs : n.step serde aes event = some n') (conn : ℕ) (side : Side) :
    ((n.pair conn).mux side).incoming <+: ((n'.pair conn).mux side).incoming := by
  obtain ⟨ms, hrun, -⟩ := continues_step hs conn
  apply hrun.invariant (P := fun p => ((n.pair conn).mux side).incoming <+: (p.mux side).incoming)
    List.prefix_rfl
  intro p event p' hp hstep
  exact hp.trans (Pair.incoming_step hstep side)

/-- The call of a program on an end of a connection. -/
def calls (conn : ℕ) (side : Side) : NetEvent → Option StreamEvent
  | .mux conn' event => if conn' = conn then event.calls side else none
  | _ => none

theorem said_setPair {conn' : ℕ} {event : PairEvent} {p : Pair}
    (hstep : (n.pair conn').step serde aes event = some p) (conn : ℕ) (side : Side) :
    (n.endpoint conn side).Said ((n.setPair conn' p).endpoint conn side)
      (calls conn side (.mux conn' event)) := by
  rw [calls]
  by_cases hconn : conn' = conn
  · subst hconn
    rw [if_pos rfl, endpoint, endpoint, setPair_pair_self]
    exact Pair.said_step hstep side
  · rw [if_neg hconn, endpoint, endpoint, setPair_pair_of_ne (Ne.symm hconn)]
    exact .of_same rfl

theorem said_step (hs : n.step serde aes event = some n') (conn : ℕ) (side : Side) :
    (n.endpoint conn side).Said (n'.endpoint conn side) (calls conn side event) := by
  by_cases hmux : ∃ conn' event', event = .mux conn' event'
  · obtain ⟨conn', event', rfl⟩ := hmux
    simp only [Net.step] at hs
    split_ifs at hs
    obtain ⟨p, hstep, rfl⟩ := Option.map_eq_some_iff.mp hs
    exact said_setPair hstep conn side
  · have hquiet :
        Respects serde aes fun n n' =>
          (n.endpoint conn side).Said (n'.endpoint conn side) none := by
      constructor
      · intro q q' hpair _
        rw [endpoint, endpoint, hpair]
        exact .of_same rfl
      · exact .trans
      · intro q id s _
        apply Endpoint.Said.of_same
        rfl
      · intro q q' conn' side' event' r ht _ hcall
        obtain ⟨p, -, hstep, rfl, -⟩ := call_eq_some hcall
        refine (said_setPair hstep conn side).of_target (r := r) ?_
        intro call hc
        rw [calls, PairEvent.calls] at hc
        split_ifs at hc
        exact Option.some.inj hc ▸ ht
    have hnone : calls conn side event = none := by
      cases event with
      | mux conn' event' => exact absurd ⟨conn', event', rfl⟩ hmux
      | _ => rfl
    rw [hnone]
    exact hquiet.step (fun conn' event' p he => absurd ⟨conn', event', he⟩ hmux) hs

/-! ## What the programs hear -/

theorem stream_kept (hserde : serde.Inverts) (haes : aes.Ideal) {ms : List (Move Net NetEvent)}
    (hrun : Run (Net.step serde aes) (start crypto) ms n) (hs : n.step serde aes event = some n')
    (hbound : n'.Bounded) {conn : ℕ} {side : Side} {r : StreamRef} {i : UInt32}
    (h : (n.stream conn side r).map VirtualStream.streamId = some i) :
    (n'.stream conn side r).map VirtualStream.streamId = some i := by
  obtain ⟨s, hstream, rfl⟩ := Option.map_eq_some_iff.mp h
  obtain ⟨ns, hbefore, -⟩ := run_continues hrun conn
  obtain ⟨ks, hpair, -⟩ := continues_step hs conn
  obtain ⟨s', hs', hid, -⟩ := Pair.run_handed hserde haes hbefore hpair (hbound conn) hstream
  rw [stream, endpoint, hs', Option.map_some, hid]

theorem handedOver (hserde : serde.Inverts) (haes : aes.Ideal) {ms : List (Move Net NetEvent)}
    (hrun : Run (Net.step serde aes) (start crypto) ms n) (hbound : n.Bounded) (conn : ℕ)
    (side : Side) :
    ((n.pair conn).mux side).HandedOver := by
  obtain ⟨ns, hpair, -⟩ := run_continues hrun conn
  exact Pair.run_handedOver hserde haes hpair (hbound conn) side

theorem control_begins (hserde : serde.Inverts) (haes : aes.Ideal) {ms : List (Move Net NetEvent)}
    (hrun : Run (Net.step serde aes) (start crypto) ms n) (hbound : n.Bounded) (conn : ℕ)
    (side : Side) :
    ((n.pair conn).mux side).control <+: controls (n.endpoint conn side.other).sent := by
  rw [(handedOver hserde haes hrun hbound conn side).control]
  exact controls_mono ((pair_sound hserde haes (run_continues hrun) hbound conn).heard side)

theorem control_heard (hserde : serde.Inverts) (haes : aes.Ideal) {ms : List (Move Net NetEvent)}
    (hrun : Run (Net.step serde aes) (start crypto) ms n) (hbound : n.Bounded) {conn : ℕ}
    {side : Side} {message : ControlMessage} (h : message ∈ ((n.pair conn).mux side).control) :
    .control message ∈ (n.endpoint conn side.other).sent := by
  have hsent := (control_begins hserde haes hrun hbound conn side).subset h
  rw [controls, List.mem_filterMap] at hsent
  obtain ⟨frame, hframe, he⟩ := hsent
  cases frame with
  | control heard => exact Option.some.inj he ▸ hframe
  | _ => cases he

theorem open_heard (hserde : serde.Inverts) (haes : aes.Ideal) {ms : List (Move Net NetEvent)}
    (hrun : Run (Net.step serde aes) (start crypto) ms n) (hbound : n.Bounded) {conn : ℕ}
    {side : Side} {request : OpenRequest} {r : StreamRef}
    (h : (request, r) ∈ ((n.pair conn).mux side).incoming) :
    ∃ s, n.stream conn side r = some s ∧
      .openStream s.streamId request ∈ (n.endpoint conn side.other).sent := by
  have hsound := pair_sound hserde haes (run_continues hrun) hbound conn
  obtain ⟨⟨i, other⟩, hm, hrequest, s, hs, hid⟩ :=
    exists_of_forall₂ (handedOver hserde haes hrun hbound conn side).incoming h
  dsimp only at hrequest hs hid
  subst hrequest hid
  exact ⟨s, hs, (hsound.heard side).subset (mem_opens.mp hm)⟩

theorem request_unique (hserde : serde.Inverts) (haes : aes.Ideal) {ms : List (Move Net NetEvent)}
    (hrun : Run (Net.step serde aes) (start crypto) ms n) (hbound : n.Bounded) {conn : ℕ}
    {side : Side} {request request' : OpenRequest} {r : StreamRef}
    (h : (request, r) ∈ ((n.pair conn).mux side).incoming)
    (h' : (request', r) ∈ ((n.pair conn).mux side).incoming) : request = request' := by
  obtain ⟨s, hs, hopen⟩ := open_heard hserde haes hrun hbound h
  obtain ⟨s', hs', hopen'⟩ := open_heard hserde haes hrun hbound h'
  obtain rfl := Option.some.inj (hs.symm.trans hs')
  have hsound := pair_sound hserde haes (run_continues hrun) hbound conn
  have hnodup := opens_nodup (hsound.mux side.other).endpoint.order
  have hsame := List.inj_on_of_nodup_map hnodup (mem_opens.mpr hopen) (mem_opens.mpr hopen') rfl
  exact (Prod.mk.inj hsame).2

end Net

end NodeAccess.Tunnel
