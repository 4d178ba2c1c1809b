import NodeAccess.Mux.Handover

/-! # The payloads of streams

Each payload that waits in a stream has been heard, a stream never takes back what it has given
out, and as long as nobody writes an empty chunk no empty payload is on its way.
-/

namespace NodeAccess.Mux

open Foundation Crypto

namespace Endpoint

/-- The payloads that wait come from Data frames. -/
def Heard (e : Endpoint) : Prop :=
  ∀ r s, e.stream r = some s → ∀ payload ∈ s.inbound, ∃ i, .data i payload ∈ e.arrived

variable {e e' : Endpoint} {event : StreamEvent} {r : StreamRef} {s s' : VirtualStream}

theorem Heard.of_same (h : e.Heard) (hstream : e'.stream = e.stream)
    (harrived : e.arrived <+: e'.arrived) :
    e'.Heard := by
  intro r s hs payload hp
  rw [hstream] at hs
  obtain ⟨i, hm⟩ := h r s hs payload hp
  exact ⟨i, harrived.subset hm⟩

theorem Heard.setStream (h : e.Heard) (hstream : e'.stream = Function.update e.stream r (some s'))
    (harrived : e.arrived <+: e'.arrived)
    (hinbound : ∀ payload ∈ s'.inbound, ∃ i, .data i payload ∈ e'.arrived) : e'.Heard := by
  intro r₁ s₁ h₁ payload hp
  rw [hstream] at h₁
  rcases update_some_cases h₁ with ⟨rfl, rfl⟩ | ⟨-, h₁⟩
  · exact hinbound payload hp
  · obtain ⟨i, hm⟩ := h r₁ s₁ h₁ payload hp
    exact ⟨i, harrived.subset hm⟩

theorem Heard.setSuffix (h : e.Heard) (hs : e.stream r = some s)
    (hstream : e'.stream = Function.update e.stream r (some s')) (harrived : e'.arrived = e.arrived)
    (hinbound : s'.inbound <:+ s.inbound) : e'.Heard := by
  refine h.setStream hstream (harrived ▸ List.prefix_rfl) ?_
  intro payload hp
  rw [harrived]
  exact h r s hs payload (hinbound.subset hp)

theorem Heard.receive (h : e.Heard) (frame : MuxFrame) : (e.receive frame).Heard := by
  have harrived : e.arrived <+: e.arrived ++ [frame] := List.prefix_append _ _
  cases frame with
  | openStream i request => exact h.setStream rfl harrived (by simp [VirtualStream.new])
  | data i payload =>
    unfold Endpoint.receive
    dsimp only
    split
    · rename_i r s hfound
      obtain ⟨r₀, -, hl⟩ := Option.bind_eq_some_iff.mp hfound
      obtain ⟨s₀, hlive, he⟩ := Option.map_eq_some_iff.mp hl
      obtain ⟨rfl, rfl⟩ := Prod.mk.inj he
      refine h.setStream rfl harrived ?_
      intro other ho
      rcases List.mem_append.mp ho with ho | ho
      · obtain ⟨j, hm⟩ := h r₀ s₀ (live_eq_some.mp hlive).1 other ho
        exact ⟨j, harrived.subset hm⟩
      · obtain rfl := List.mem_singleton.mp ho
        exact ⟨i, List.mem_append_right _ (List.mem_singleton_self _)⟩
    · exact h.of_same rfl harrived
  | close i => exact h.of_same rfl harrived
  | control message => exact h.of_same rfl harrived

theorem Heard.step (h : e.Heard) (hs : e.step event = some e') : e'.Heard := by
  cases event with
  | openBegin request => exact Option.some.inj hs ▸ h.of_same rfl List.prefix_rfl
  | openFinish i request =>
    obtain rfl := Option.some.inj (Option.ite_none_right_eq_some.mp hs).2
    unfold openFinish
    split_ifs
    · exact h.setStream rfl List.prefix_rfl (by simp [VirtualStream.new])
    · exact h.of_same rfl List.prefix_rfl
  | sendControl message => exact Option.some.inj hs ▸ h.of_same rfl List.prefix_rfl
  | pollWrite r data =>
    obtain ⟨s, hlive, rfl⟩ := Option.map_eq_some_iff.mp hs
    have hstream := (live_eq_some.mp hlive).1
    unfold Endpoint.pollWrite
    split_ifs
    · exact h.setSuffix hstream rfl rfl List.suffix_rfl
    · exact h.setSuffix hstream rfl rfl List.suffix_rfl
    · exact h
  | pollShutdown r =>
    obtain ⟨s, hlive, rfl⟩ := Option.map_eq_some_iff.mp hs
    unfold closeRemote
    split_ifs
    · exact h
    · exact h.setSuffix (live_eq_some.mp hlive).1 rfl rfl List.suffix_rfl
  | drop r =>
    obtain ⟨s, hlive, rfl⟩ := Option.map_eq_some_iff.mp hs
    unfold dropStream
    split_ifs
    · exact h.setSuffix (live_eq_some.mp hlive).1 rfl rfl List.nil_suffix
    · exact h.setSuffix (live_eq_some.mp hlive).1 rfl rfl List.nil_suffix
  | reap i => exact Option.some.inj (Option.ite_none_right_eq_some.mp hs).2 ▸
      h.of_same rfl List.prefix_rfl
  | pollRead r cx buf =>
    obtain ⟨s, hlive, rfl⟩ := Option.map_eq_some_iff.mp hs
    exact h.setSuffix (live_eq_some.mp hlive).1 rfl rfl (s.pollRead_inbound cx _ buf)
  | receive frame => exact Option.some.inj hs ▸ h.receive frame
  | writerStop => exact Option.some.inj hs ▸ h.of_same rfl List.prefix_rfl

theorem handed_step (href : ∀ r s, e.stream r = some s → r < e.created)
    (hstep : e.step event = some e') (hs : e.stream r = some s) :
    ∃ s', e'.stream r = some s' ∧ s'.streamId = s.streamId ∧ s.handed <+: s'.handed := by
  by_cases ht : event.target = some r
  swap
  · obtain ⟨s', hs', hid, hsame⟩ := (preserves_step href hstep).keeps r s hs
    obtain ⟨inbound, rfl⟩ := hsame ht
    exact ⟨_, hs', hid, List.prefix_rfl⟩
  cases event with
  | pollWrite r' data =>
    obtain rfl := Option.some.inj ht
    obtain ⟨s₀, hlive, rfl⟩ := Option.map_eq_some_iff.mp hstep
    obtain rfl := Option.some.inj (hs.symm.trans (live_eq_some.mp hlive).1)
    unfold Endpoint.pollWrite
    split_ifs
    · exact ⟨_, Function.update_self _ _ _, rfl, List.prefix_rfl⟩
    · exact ⟨_, Function.update_self _ _ _, rfl, List.prefix_rfl⟩
    · exact ⟨s, hs, rfl, List.prefix_rfl⟩
  | pollShutdown r' =>
    obtain rfl := Option.some.inj ht
    obtain ⟨s₀, hlive, rfl⟩ := Option.map_eq_some_iff.mp hstep
    obtain rfl := Option.some.inj (hs.symm.trans (live_eq_some.mp hlive).1)
    unfold closeRemote
    split_ifs
    · exact ⟨s, hs, rfl, List.prefix_rfl⟩
    · exact ⟨_, Function.update_self _ _ _, rfl, List.prefix_rfl⟩
  | drop r' =>
    obtain rfl := Option.some.inj ht
    obtain ⟨s₀, hlive, rfl⟩ := Option.map_eq_some_iff.mp hstep
    obtain rfl := Option.some.inj (hs.symm.trans (live_eq_some.mp hlive).1)
    unfold dropStream
    split_ifs <;> exact ⟨_, Function.update_self _ _ _, rfl, List.prefix_rfl⟩
  | pollRead r' cx buf =>
    obtain rfl := Option.some.inj ht
    obtain ⟨s₀, hlive, rfl⟩ := Option.map_eq_some_iff.mp hstep
    obtain rfl := Option.some.inj (hs.symm.trans (live_eq_some.mp hlive).1)
    obtain ⟨-, -, inbound, readBuffer, hsame⟩ :=
      s.pollRead_spec cx (decide (e.streams.get s.streamId ≠ some r')) buf
    refine ⟨_, Function.update_self _ _ _, ?_, List.prefix_append _ _⟩
    rw [hsame]
  | _ => cases ht

/-- No frame carries an empty payload. -/
def Full (frames : List MuxFrame) : Prop := ∀ i, .data i [] ∉ frames

theorem Full.append {frames : List MuxFrame} (h : Full frames) {frame : MuxFrame}
    (hne : ∀ i, frame ≠ .data i []) :
    Full (frames ++ [frame]) := by
  intro i hm
  rcases List.mem_append.mp hm with hm | hm
  · exact h i hm
  · exact hne i (List.mem_singleton.mp hm).symm

theorem Full.send (h : Full e.sent) {frame : MuxFrame} (hne : ∀ i, frame ≠ .data i []) :
    Full (e.send frame).sent := by
  unfold Endpoint.send
  split_ifs
  · exact h.append hne
  · rwa [List.append_nil]

theorem full_step (h : Full e.sent) (hstep : e.step event = some e')
    (hevent : ∀ r, event ≠ .pollWrite r []) :
    Full e'.sent := by
  cases event with
  | openBegin request => exact Option.some.inj hstep ▸ h
  | openFinish i request =>
    obtain rfl := Option.some.inj (Option.ite_none_right_eq_some.mp hstep).2
    unfold openFinish
    split_ifs
    · refine Full.send (e := { e with
        opening := e.opening.erase (i, request)
        streams := e.streams.insert i e.created
        created := e.created + 1 }) h ?_
      intro j hj
      cases hj
    · exact h
  | sendControl message =>
    obtain rfl := Option.some.inj hstep
    refine h.send ?_
    intro i hi
    cases hi
  | pollWrite r data =>
    obtain ⟨s, -, rfl⟩ := Option.map_eq_some_iff.mp hstep
    have hdata : ∀ i, MuxFrame.data s.streamId data ≠ .data i [] := by
      rintro i hi
      cases hi
      exact hevent r rfl
    unfold Endpoint.pollWrite
    split_ifs
    · exact h.send hdata
    · exact h.send hdata
    · exact h
  | pollShutdown r =>
    obtain ⟨s, -, rfl⟩ := Option.map_eq_some_iff.mp hstep
    unfold closeRemote
    split_ifs
    · exact h
    · refine h.send ?_
      intro i hi
      cases hi
  | drop r =>
    obtain ⟨s, -, rfl⟩ := Option.map_eq_some_iff.mp hstep
    unfold dropStream
    split_ifs
    · exact h
    · refine h.send ?_
      intro i hi
      cases hi
  | reap i => exact Option.some.inj (Option.ite_none_right_eq_some.mp hstep).2 ▸ h
  | pollRead r cx buf =>
    obtain ⟨s, -, rfl⟩ := Option.map_eq_some_iff.mp hstep
    exact h
  | receive frame =>
    obtain rfl := Option.some.inj hstep
    rw [(e.receive_histories frame).1]
    exact h
  | writerStop => exact Option.some.inj hstep ▸ h

theorem opened_step (h : e.step event = some e') : e'.opened ≤ e.opened + 1 := by
  by_cases ht : ∃ r, event.target = some r
  · obtain ⟨r, hr⟩ := ht
    obtain ⟨s, htouches⟩ := touches_of_step h hr
    rw [htouches.ids.2.2]
    exact Nat.le_succ _
  · cases event with
    | openBegin request => exact Option.some.inj h ▸ le_rfl
    | openFinish i request =>
      obtain ⟨-, h⟩ := Option.ite_none_right_eq_some.mp h
      obtain rfl := Option.some.inj h
      unfold openFinish
      split_ifs <;> exact Nat.le_succ _
    | reap i =>
      obtain ⟨-, h⟩ := Option.ite_none_right_eq_some.mp h
      exact Option.some.inj h ▸ Nat.le_succ _
    | receive frame =>
      obtain rfl := Option.some.inj h
      rw [(e.receive_histories frame).2.2.2]
      exact Nat.le_succ _
    | sendControl message => exact Option.some.inj h ▸ Nat.le_succ _
    | writerStop => exact Option.some.inj h ▸ Nat.le_succ _
    | _ r => exact absurd ⟨r, rfl⟩ ht

end Endpoint

/-! ## Runs of a pair -/

namespace Pair

variable {serde : SerdeSlice} {aes : AesGcm} {crypto : Side → Option FrameCrypto} {p p' : Pair}

theorem relates_setMux {R : Side → Endpoint → Endpoint → Prop} (hrefl : ∀ side e, R side e e)
    {side : Side} {m : MuxConnection} (hm : R side (p.mux side).endpoint m.endpoint)
    (side' : Side) :
    R side' (p.mux side').endpoint ((p.setMux side m).mux side').endpoint := by
  rcases side.eq_or_eq_other side' with rfl | rfl
  · rwa [setMux_mux_self]
  · rw [setMux_mux_other]
    exact hrefl _ _

theorem relates_step {R : Side → Endpoint → Endpoint → Prop} {event : PairEvent}
    (hrefl : ∀ side e, R side e e)
    (hwriter : ∀ side (e : Endpoint) writerOpen, R side e { e with writerOpen := writerOpen })
    (hreceive : ∀ side (e : Endpoint) frame, R side e (e.receive frame))
    (hcall : ∀ side event' endpoint, event = .call side event' → event'.isCall = true →
      (p.mux side).endpoint.step event' = some endpoint → R side (p.mux side).endpoint endpoint)
    (hstep : p.step serde aes event = some p') (side : Side) :
    R side (p.mux side).endpoint (p'.mux side).endpoint := by
  cases event with
  | call caller event =>
    obtain ⟨m, hm, rfl⟩ := Option.map_eq_some_iff.mp hstep
    obtain ⟨hc, endpoint, hs, rfl⟩ := MuxConnection.call_eq_some hm
    exact relates_setMux hrefl (hcall caller event endpoint rfl hc hs) side
  | writeLoop writer =>
    obtain ⟨⟨m, message⟩, hw, rfl⟩ := Option.map_eq_some_iff.mp hstep
    obtain ⟨⟨writerOpen, he⟩, -⟩ := MuxConnection.writeLoop_endpoint hw
    refine relates_setMux hrefl ?_ side
    rw [he]
    exact hwriter _ _ writerOpen
  | writerEnd writer =>
    obtain rfl := Option.some.inj hstep
    exact relates_setMux hrefl (hwriter _ _ false) side
  | readLoop reader =>
    simp only [Pair.step] at hstep
    cases hwire : p.wire reader.other with
    | nil => simp [hwire] at hstep
    | cons message rest =>
      rw [hwire] at hstep
      obtain ⟨-, hs⟩ := Option.ite_none_right_eq_some.mp hstep
      obtain rfl := Option.some.inj hs
      obtain ⟨-, -, -, hturn⟩ := MuxConnection.readLoop_spec serde aes (p.mux reader) message
      refine relates_setMux hrefl ?_ side
      rcases hturn with ⟨frame, -, he, -⟩ | ⟨-, he, -⟩
      · rw [he]
        exact hreceive _ _ frame
      · rw [he]
        exact hrefl _ _
  | readerEnd reader =>
    obtain rfl := Option.some.inj hstep
    refine relates_setMux hrefl ?_ side
    exact hrefl _ _

theorem run_heard {ms : List (Move Pair PairEvent)}
    (hrun : Run (Pair.step serde aes) (start crypto) ms p) (side : Side) :
    (p.mux side).endpoint.Heard := by
  apply hrun.invariant (P := fun p => (p.mux side).endpoint.Heard)
  · intro r s hs
    cases hs
  · intro q event q' hq hstep
    refine relates_step (R := fun _ e e' => e.Heard → e'.Heard) ?_ ?_ ?_ ?_ hstep side hq
    · exact fun _ _ h => h
    · exact fun _ e writerOpen h => h.of_same rfl List.prefix_rfl
    · exact fun _ e frame h => h.receive frame
    · exact fun side event' endpoint _ _ hs h => h.step hs

theorem run_full {ms : List (Move Pair PairEvent)}
    (hrun : Run (Pair.step serde aes) (start crypto) ms p)
    (hfull : ∀ m ∈ ms, ∀ side r, m.event ≠ .call side (.pollWrite r [])) (side : Side) :
    Endpoint.Full (p.mux side).endpoint.sent := by
  apply hrun.guarded (C := fun m => ∀ side r, m.event ≠ .call side (.pollWrite r []))
    (P := fun p => Endpoint.Full (p.mux side).endpoint.sent) hfull
  · intro i hm
    cases hm
  · intro ns q event q' _ hq hstep hevent
    refine relates_step (R := fun _ e e' => Endpoint.Full e.sent → Endpoint.Full e'.sent) ?_ ?_ ?_
      ?_ hstep side hq
    · exact fun _ _ h => h
    · exact fun _ e writerOpen h => h
    · intro _ e frame h
      rwa [(e.receive_histories frame).1]
    · rintro side event' endpoint rfl _ hs h
      exact Endpoint.full_step h hs fun r hr => hevent side r (hr ▸ rfl)

theorem run_arrived {ms : List (Move Pair PairEvent)} (hrun : Run (Pair.step serde aes) p ms p')
    (side : Side) :
    (p.mux side).endpoint.arrived <+: (p'.mux side).endpoint.arrived := by
  apply hrun.invariant (P := fun q =>
    (p.mux side).endpoint.arrived <+: (q.mux side).endpoint.arrived)
    List.prefix_rfl
  intro q event q' hq hstep
  refine hq.trans
    (relates_step (R := fun _ e e' => e.arrived <+: e'.arrived) ?_ ?_ ?_ ?_ hstep side)
  · exact fun _ _ => List.prefix_rfl
  · exact fun _ _ _ => List.prefix_rfl
  · intro _ e frame
    rw [(e.receive_histories frame).2.1]
    exact List.prefix_append _ _
  · intro side event' endpoint _ hc hs
    rw [(Endpoint.grows_step hs hc).arrived]

theorem Sound.inbound_full (h : p.Sound serde aes crypto) {side : Side}
    (hheard : (p.mux side).endpoint.Heard) (hfull : Endpoint.Full (p.mux side.other).endpoint.sent)
    {r : StreamRef} {s : VirtualStream} (hs : (p.mux side).endpoint.stream r = some s) :
    [] ∉ s.inbound := by
  intro hm
  obtain ⟨i, hi⟩ := hheard r s hs [] hm
  exact hfull i ((h.heard side).subset hi)

theorem handed_step {event : PairEvent} (h : p.Sound serde aes crypto)
    (hstep : p.step serde aes event = some p') {side : Side} {r : StreamRef} {s : VirtualStream}
    (hs : (p.mux side).endpoint.stream r = some s) :
    ∃ s', (p'.mux side).endpoint.stream r = some s' ∧ s'.streamId = s.streamId ∧
      s.handed <+: s'.handed := by
  by_cases ht : event.target side = some r
  swap
  · obtain ⟨s', hs', hid, hsame⟩ := (preserves_step h.ref hstep side).keeps r s hs
    obtain ⟨inbound, rfl⟩ := hsame ht
    exact ⟨_, hs', hid, List.prefix_rfl⟩
  cases event with
  | call caller event =>
    rw [PairEvent.target] at ht
    split_ifs at ht with hside
    subst hside
    obtain ⟨m, hm, rfl⟩ := Option.map_eq_some_iff.mp hstep
    obtain ⟨-, endpoint, hs', rfl⟩ := MuxConnection.call_eq_some hm
    rw [setMux_mux_self]
    exact Endpoint.handed_step (h.ref caller) hs' hs
  | _ => cases ht

theorem run_handed (hserde : serde.Inverts) (haes : aes.Ideal) {ns ms : List (Move Pair PairEvent)}
    (hbefore : Run (Pair.step serde aes) (start crypto) ns p)
    (hrun : Run (Pair.step serde aes) p ms p')
    (hbound : ∀ side, (p'.mux side).endpoint.opened ≤ 2 ^ 31) {side : Side} {r : StreamRef}
    {s : VirtualStream} (hs : (p.mux side).endpoint.stream r = some s) :
    ∃ s', (p'.mux side).endpoint.stream r = some s' ∧ s'.streamId = s.streamId ∧
      s.handed <+: s'.handed := by
  induction hrun with
  | nil => exact ⟨s, hs, rfl, List.prefix_rfl⟩
  | @snoc ms q q' event hrun hstep ih =>
    have hb : ∀ side, (q.mux side).endpoint.opened ≤ 2 ^ 31 := fun side =>
      (opened_step hstep side).trans (hbound side)
    obtain ⟨s₁, hs₁, hid₁, hhanded₁⟩ := ih hb
    have hsound := run_sound hserde haes (hbefore.trans hrun) hb
    obtain ⟨s', hs', hid, hhanded⟩ := handed_step hsound hstep hs₁
    exact ⟨s', hs', hid.trans hid₁, hhanded₁.trans hhanded⟩

end Pair

end NodeAccess.Mux
