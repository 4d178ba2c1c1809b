import NodeAccess.Mux.Pair

/-! # What a mux hands to its program

`read_loop` passes the control messages and the streams of the other end to the program, each
through a channel of its own. Both channels give what the other end has sent, in its order, each
thing once.
-/

namespace NodeAccess.Mux

open Foundation Crypto

def MuxFrame.asControl : MuxFrame → Option ControlMessage
  | .control message => some message
  | .openStream _ _ | .data _ _ | .close _ => none

def MuxFrame.asOpen : MuxFrame → Option (UInt32 × OpenRequest)
  | .openStream streamId request => some (streamId, request)
  | .data _ _ | .close _ | .control _ => none

def controls (frames : List MuxFrame) : List ControlMessage := frames.filterMap MuxFrame.asControl

def opens (frames : List MuxFrame) : List (UInt32 × OpenRequest) := frames.filterMap MuxFrame.asOpen

theorem mem_opens {frames : List MuxFrame} {i : UInt32} {request : OpenRequest} :
    (i, request) ∈ opens frames ↔ .openStream i request ∈ frames := by
  rw [opens, List.mem_filterMap]
  constructor
  · rintro ⟨frame, hf, he⟩
    cases frame with
    | openStream j other =>
      obtain ⟨rfl, rfl⟩ := Prod.mk.inj (Option.some.inj he)
      exact hf
    | _ => cases he
  · exact fun hf => ⟨_, hf, rfl⟩

/-! ## What a step leaves to the streams that it does not work on -/

namespace Endpoint

/-- A stream that is not the target may get payloads, and nothing else changes for it. -/
structure Preserves (e e' : Endpoint) (target : Option StreamRef) : Prop where
  created : e.created ≤ e'.created
  keeps : ∀ r s, e.stream r = some s → ∃ s', e'.stream r = some s' ∧ s'.streamId = s.streamId ∧
    (target ≠ some r → ∃ inbound, s' = { s with inbound := inbound })

variable {e e' : Endpoint} {event : StreamEvent} {target : Option StreamRef}

theorem Preserves.of_same (hcreated : e.created ≤ e'.created) (hstream : e'.stream = e.stream) :
    e.Preserves e' target := by
  refine ⟨hcreated, ?_⟩
  intro r s hs
  exact ⟨s, by rw [hstream, hs], rfl, fun _ => ⟨s.inbound, rfl⟩⟩

theorem Preserves.of_new (href : ∀ r s, e.stream r = some s → r < e.created) {new : VirtualStream}
    (hcreated : e'.created = e.created + 1)
    (hstream : e'.stream = Function.update e.stream e.created (some new)) :
    e.Preserves e' target := by
  refine ⟨hcreated ▸ Nat.le_succ _, ?_⟩
  intro r s hs
  have hne : r ≠ e.created := (href r s hs).ne
  exact ⟨s, by rw [hstream, Function.update_of_ne hne, hs], rfl, fun _ => ⟨s.inbound, rfl⟩⟩

theorem Preserves.of_touches {r : StreamRef} (h : ∃ s, e.Touches e' r s) :
    e.Preserves e' (some r) := by
  obtain ⟨s, h⟩ := h
  obtain ⟨s', hstream, hid⟩ := h.stream
  have hs := (live_eq_some.mp h.live).1
  refine ⟨h.table.2.ge, ?_⟩
  intro r₁ s₁ h₁
  by_cases hr : r₁ = r
  · subst hr
    obtain rfl := Option.some.inj (hs.symm.trans h₁)
    exact ⟨s', by rw [hstream, Function.update_self], hid, fun hne => absurd rfl hne⟩
  · exact ⟨s₁, by rw [hstream, Function.update_of_ne hr, h₁], rfl, fun _ => ⟨s₁.inbound, rfl⟩⟩

theorem preserves_receive (href : ∀ r s, e.stream r = some s → r < e.created) (frame : MuxFrame) :
    e.Preserves (e.receive frame) none := by
  cases frame with
  | openStream i request => exact .of_new href rfl rfl
  | data i payload =>
    unfold receive
    dsimp only
    split
    · rename_i r s hfound
      obtain ⟨r₀, -, hl⟩ := Option.bind_eq_some_iff.mp hfound
      obtain ⟨s₀, hlive, he⟩ := Option.map_eq_some_iff.mp hl
      obtain ⟨rfl, rfl⟩ := Prod.mk.inj he
      have hs := (live_eq_some.mp hlive).1
      refine ⟨le_rfl, ?_⟩
      intro r₁ s₁ h₁
      by_cases hr : r₁ = r₀
      · subst hr
        obtain rfl := Option.some.inj (hs.symm.trans h₁)
        exact ⟨_, Function.update_self _ _ _, rfl, fun _ => ⟨_, rfl⟩⟩
      · exact ⟨s₁, (Function.update_of_ne hr _ _).trans h₁, rfl, fun _ => ⟨s₁.inbound, rfl⟩⟩
    · exact .of_same le_rfl rfl
  | close i => exact .of_same le_rfl rfl
  | control message => exact .of_same le_rfl rfl

theorem preserves_step (href : ∀ r s, e.stream r = some s → r < e.created)
    (hs : e.step event = some e') : e.Preserves e' event.target := by
  cases event with
  | openBegin request =>
    obtain rfl := Option.some.inj hs
    exact .of_same le_rfl rfl
  | openFinish i request =>
    rw [step, Option.ite_none_right_eq_some] at hs
    obtain rfl := Option.some.inj hs.2
    unfold openFinish
    split_ifs
    · exact .of_new href rfl rfl
    · exact .of_same (Nat.le_succ _) rfl
  | sendControl message =>
    obtain rfl := Option.some.inj hs
    exact .of_same le_rfl rfl
  | pollWrite r data => exact .of_touches (touches_of_step hs rfl)
  | pollShutdown r => exact .of_touches (touches_of_step hs rfl)
  | drop r => exact .of_touches (touches_of_step hs rfl)
  | pollRead r cx buf => exact .of_touches (touches_of_step hs rfl)
  | reap i =>
    rw [step, Option.ite_none_right_eq_some] at hs
    obtain rfl := Option.some.inj hs.2
    exact .of_same le_rfl rfl
  | receive frame =>
    obtain rfl := Option.some.inj hs
    exact preserves_receive href frame
  | writerStop =>
    obtain rfl := Option.some.inj hs
    exact .of_same le_rfl rfl

end Endpoint

/-- The stream of an end that a step of the pair works on. -/
def PairEvent.target (side : Side) : PairEvent → Option StreamRef
  | .call caller event => if caller = side then event.target else none
  | _ => none

namespace Pair

variable {serde : SerdeSlice} {aes : AesGcm} {crypto : Side → Option FrameCrypto} {p p' : Pair}

theorem preserves_setMux {side : Side} {m : MuxConnection} {target : Side → Option StreamRef}
    (h : (p.mux side).endpoint.Preserves m.endpoint (target side)) (side' : Side) :
    (p.mux side').endpoint.Preserves ((p.setMux side m).mux side').endpoint (target side') := by
  rcases side.eq_or_eq_other side' with rfl | rfl
  · rwa [setMux_mux_self]
  · rw [setMux_mux_other]
    exact .of_same le_rfl rfl

theorem preserves_step {event : PairEvent}
    (href : ∀ side r s, (p.mux side).endpoint.stream r = some s → r < (p.mux side).endpoint.created)
    (hstep : p.step serde aes event = some p') (side : Side) :
    (p.mux side).endpoint.Preserves (p'.mux side).endpoint (event.target side) := by
  cases event with
  | call caller event =>
    obtain ⟨m, hcall, rfl⟩ := Option.map_eq_some_iff.mp hstep
    obtain ⟨-, endpoint, hs, rfl⟩ := MuxConnection.call_eq_some hcall
    apply preserves_setMux
    rw [PairEvent.target, if_pos rfl]
    exact Endpoint.preserves_step (href caller) hs
  | writeLoop writer =>
    obtain ⟨⟨m, message⟩, hw, rfl⟩ := Option.map_eq_some_iff.mp hstep
    obtain ⟨⟨writerOpen, he⟩, -⟩ := MuxConnection.writeLoop_endpoint hw
    apply preserves_setMux
    rw [he]
    exact .of_same le_rfl rfl
  | writerEnd writer =>
    obtain rfl := Option.some.inj hstep
    apply preserves_setMux
    exact .of_same le_rfl rfl
  | readLoop reader =>
    simp only [Pair.step] at hstep
    cases hwire : p.wire reader.other with
    | nil => simp [hwire] at hstep
    | cons message rest =>
      rw [hwire] at hstep
      obtain ⟨-, hs⟩ := Option.ite_none_right_eq_some.mp hstep
      obtain rfl := Option.some.inj hs
      obtain ⟨-, -, -, hturn⟩ := MuxConnection.readLoop_spec serde aes (p.mux reader) message
      apply preserves_setMux
      rcases hturn with ⟨frame, -, he, -⟩ | ⟨-, he, -⟩
      · rw [he]
        exact Endpoint.preserves_receive (href reader) frame
      · rw [he]
        exact .of_same le_rfl rfl
  | readerEnd reader =>
    obtain rfl := Option.some.inj hstep
    apply preserves_setMux
    exact .of_same le_rfl rfl

end Pair

/-! ## The two channels -/

theorem controls_append (frames more : List MuxFrame) :
    controls (frames ++ more) = controls frames ++ controls more := List.filterMap_append

theorem opens_append (frames more : List MuxFrame) :
    opens (frames ++ more) = opens frames ++ opens more := List.filterMap_append

theorem controls_mono {frames frames' : List MuxFrame} (h : frames <+: frames') :
    controls frames <+: controls frames' := h.filterMap _

theorem opens_mono {frames frames' : List MuxFrame} (h : frames <+: frames') :
    opens frames <+: opens frames' := h.filterMap _

namespace MuxConnection

variable {serde : SerdeSlice} {aes : AesGcm} {m m' : MuxConnection}

/-- The stream that was handed over is the one that this Open has made. -/
def Made (m : MuxConnection) (handed : OpenRequest × StreamRef) (opened : UInt32 × OpenRequest) :
    Prop :=
  handed.1 = opened.2 ∧ ∃ s, m.endpoint.stream handed.2 = some s ∧ s.streamId = opened.1

structure HandedOver (m : MuxConnection) : Prop where
  control : m.control = controls m.endpoint.arrived
  incoming : List.Forall₂ m.Made m.incoming (opens m.endpoint.arrived)

theorem handedOver_start (first : UInt32) (crypto : Option FrameCrypto) :
    (start first crypto).HandedOver :=
  ⟨rfl, .nil⟩

theorem Made.preserved {target : Option StreamRef} (h : m.endpoint.Preserves m'.endpoint target)
    {handed : OpenRequest × StreamRef} {opened : UInt32 × OpenRequest}
    (hmade : m.Made handed opened) :
    m'.Made handed opened := by
  obtain ⟨hrequest, s, hs, hid⟩ := hmade
  obtain ⟨s', hs', hid', -⟩ := h.keeps _ s hs
  exact ⟨hrequest, s', hs', hid'.trans hid⟩

theorem HandedOver.hear (h : m.HandedOver) {target : Option StreamRef} {heard : List MuxFrame}
    {taken : List (OpenRequest × StreamRef)} (hpreserves : m.endpoint.Preserves m'.endpoint target)
    (harrived : m'.endpoint.arrived = m.endpoint.arrived ++ heard)
    (hcontrol : m'.control = m.control ++ controls heard)
    (hincoming : m'.incoming = m.incoming ++ taken)
    (htaken : List.Forall₂ m'.Made taken (opens heard)) : m'.HandedOver := by
  constructor
  · rw [hcontrol, harrived, controls_append, h.control]
  · rw [hincoming, harrived, opens_append]
    refine List.rel_append (h.incoming.imp ?_) htaken
    intro handed opened hmade
    exact hmade.preserved hpreserves

theorem HandedOver.of_quiet (h : m.HandedOver) {target : Option StreamRef}
    (hpreserves : m.endpoint.Preserves m'.endpoint target)
    (harrived : m'.endpoint.arrived = m.endpoint.arrived) (hcontrol : m'.control = m.control)
    (hincoming : m'.incoming = m.incoming) : m'.HandedOver :=
  h.hear hpreserves (harrived.trans (List.append_nil _).symm)
    (hcontrol.trans (List.append_nil _).symm)
    (hincoming.trans (List.append_nil _).symm) .nil

theorem writeLoop_channels {message : Option (List UInt8)}
    (hw : m.writeLoop serde aes = some (m', message)) :
    m'.control = m.control ∧ m'.incoming = m.incoming := by
  unfold MuxConnection.writeLoop at hw
  cases hqueue : m.outbound with
  | nil => simp [hqueue] at hw
  | cons frame rest =>
    simp only [hqueue] at hw
    cases hturn : (writeFrame serde aes m.crypto frame).2 <;>
      simp only [hturn, Option.some.injEq, Prod.mk.injEq] at hw <;>
      obtain ⟨rfl, -⟩ := hw <;>
      exact ⟨rfl, rfl⟩

theorem HandedOver.readLoop (h : m.HandedOver)
    (href : ∀ r s, m.endpoint.stream r = some s → r < m.endpoint.created) (message : List UInt8) :
    (m.readLoop serde aes message).HandedOver := by
  unfold MuxConnection.readLoop
  cases readFrame serde aes m.crypto message with
  | error e =>
    have hsame : m.endpoint.Preserves m.endpoint none := .of_same le_rfl rfl
    exact h.of_quiet hsame rfl rfl rfl
  | ok frame =>
    have hpreserves := Endpoint.preserves_receive href frame
    have harrived := (m.endpoint.receive_histories frame).2.1
    cases frame with
    | openStream i request =>
      apply h.hear hpreserves harrived (List.append_nil _).symm rfl
      exact .cons ⟨rfl, .new i, Function.update_self _ _ _, rfl⟩ .nil
    | control notice => exact h.hear hpreserves harrived rfl (List.append_nil _).symm .nil
    | data i payload =>
      exact h.hear hpreserves harrived (List.append_nil _).symm (List.append_nil _).symm .nil
    | close i =>
        exact h.hear hpreserves harrived (List.append_nil _).symm (List.append_nil _).symm .nil

end MuxConnection

/-! ## Streams of distinct ids -/

theorem exists_of_forall₂ {α β : Type*} {R : α → β → Prop} {as : List α} {bs : List β}
    (h : List.Forall₂ R as bs) {a : α} (ha : a ∈ as) : ∃ b ∈ bs, R a b := by
  induction h with
  | nil => cases ha
  | @cons a' b as bs hab _ ih =>
    rcases List.mem_cons.mp ha with rfl | ha
    · exact ⟨b, List.mem_cons_self, hab⟩
    · obtain ⟨b', hb', hab'⟩ := ih ha
      exact ⟨b', List.mem_cons_of_mem _ hb', hab'⟩

theorem nodup_of_forall₂ {α β γ δ : Type*} {R : α → β → Prop} {f : α → γ} {g : β → δ} {as : List α}
    {bs : List β} (h : List.Forall₂ R as bs)
    (hkey : ∀ a a' b b', R a b → R a' b' → f a = f a' → g b = g b') (hnodup : (bs.map g).Nodup) :
    (as.map f).Nodup := by
  induction h with
  | nil => exact List.nodup_nil
  | @cons a b as bs hab hrest ih =>
    rw [List.map_cons, List.nodup_cons] at hnodup ⊢
    refine ⟨?_, ih hnodup.2⟩
    intro hm
    obtain ⟨a', ha', he⟩ := List.mem_map.mp hm
    obtain ⟨b', hb', hab'⟩ := exists_of_forall₂ hrest ha'
    exact hnodup.1 (hkey a a' b b' hab hab' he.symm ▸ List.mem_map_of_mem hb')

theorem opens_nodup {first : UInt32} {frames : List MuxFrame}
    (h : ∀ l f, l ++ [f] <+: frames → Endpoint.Follows first l f) :
    ((opens frames).map Prod.fst).Nodup := by
  induction frames using List.reverseRecOn with
  | nil => exact List.nodup_nil
  | append_singleton frames frame ih =>
    have hrest := ih fun l f hl => h l f (hl.trans (List.prefix_append _ _))
    rw [opens_append, List.map_append]
    cases frame with
    | openStream i request =>
      have hfirst := (h frames _ List.prefix_rfl i rfl).1 rfl
      refine List.nodup_append.mpr ⟨hrest, List.nodup_singleton i, ?_⟩
      rintro j hj k hk rfl
      obtain ⟨⟨_, other⟩, hm, rfl⟩ := List.mem_map.mp hj
      obtain rfl := List.mem_singleton.mp hk
      exact hfirst _ (mem_opens.mp hm) rfl
    | _ =>
      change (_ ++ []).Nodup
      rwa [List.append_nil]

namespace Pair

variable {serde : SerdeSlice} {aes : AesGcm} {crypto : Side → Option FrameCrypto} {p p' : Pair}

theorem Sound.ref (h : p.Sound serde aes crypto) (side : Side) (r : StreamRef) (s : VirtualStream)
    (hs : (p.mux side).endpoint.stream r = some s) : r < (p.mux side).endpoint.created :=
  (h.mux side).endpoint.ref r s hs

theorem handedOver_setMux {side : Side} {m : MuxConnection} (h : ∀ side, (p.mux side).HandedOver)
    (hm : m.HandedOver) (side' : Side) : ((p.setMux side m).mux side').HandedOver := by
  rcases side.eq_or_eq_other side' with rfl | rfl
  · rwa [setMux_mux_self]
  · rw [setMux_mux_other]
    exact h _

theorem handedOver_step {event : PairEvent} (hsound : p.Sound serde aes crypto)
    (h : ∀ side, (p.mux side).HandedOver) (hstep : p.step serde aes event = some p') :
    ∀ side, (p'.mux side).HandedOver := by
  cases event with
  | call caller event =>
    obtain ⟨m, hcall, rfl⟩ := Option.map_eq_some_iff.mp hstep
    obtain ⟨hc, endpoint, hs, rfl⟩ := MuxConnection.call_eq_some hcall
    apply handedOver_setMux h
    exact (h caller).of_quiet (Endpoint.preserves_step (hsound.ref caller) hs)
      (Endpoint.grows_step hs hc).arrived rfl rfl
  | writeLoop writer =>
    obtain ⟨⟨m, message⟩, hw, rfl⟩ := Option.map_eq_some_iff.mp hstep
    obtain ⟨⟨writerOpen, he⟩, -⟩ := MuxConnection.writeLoop_endpoint hw
    obtain ⟨hcontrol, hincoming⟩ := MuxConnection.writeLoop_channels hw
    have hsame : (p.mux writer).endpoint.Preserves m.endpoint none := by
      rw [he]
      exact .of_same le_rfl rfl
    exact handedOver_setMux h ((h writer).of_quiet hsame (by rw [he]) hcontrol hincoming)
  | writerEnd writer =>
    obtain rfl := Option.some.inj hstep
    have hsame : (p.mux writer).endpoint.Preserves (p.mux writer).stopWriter.endpoint none :=
      .of_same le_rfl rfl
    exact handedOver_setMux h ((h writer).of_quiet hsame rfl rfl rfl)
  | readLoop reader =>
    simp only [Pair.step] at hstep
    cases hwire : p.wire reader.other with
    | nil => simp [hwire] at hstep
    | cons message rest =>
      rw [hwire] at hstep
      obtain ⟨-, hs⟩ := Option.ite_none_right_eq_some.mp hstep
      obtain rfl := Option.some.inj hs
      exact handedOver_setMux h ((h reader).readLoop (hsound.ref reader) message)
  | readerEnd reader =>
    obtain rfl := Option.some.inj hstep
    exact handedOver_setMux h ⟨(h reader).control, (h reader).incoming⟩

/-- What one end has handed to its program, beside what the other end's program has done. The ids of
the Opens are those of the streams that the other program has opened. -/
structure HandsOver (p : Pair) (side : Side) : Prop where
  control : (p.mux side).control <+: controls (p.mux side.other).endpoint.sent
  incoming : ∃ opened, opened <+: opens (p.mux side.other).endpoint.sent ∧
    List.Forall₂ (p.mux side).Made (p.mux side).incoming opened
  opener : ∀ i, i ∈ (opens (p.mux side.other).endpoint.sent).map Prod.fst ↔
    Own side.other.firstStreamId i ∧ (p.mux side.other).endpoint.HasStream i
  openedOnce : ((opens (p.mux side.other).endpoint.sent).map Prod.fst).Nodup
  once : ((p.mux side).incoming.map Prod.snd).Nodup
  drained : p.Drained side →
    (p.mux side).control = controls (p.mux side.other).endpoint.sent ∧
      List.Forall₂ (p.mux side).Made (p.mux side).incoming (opens (p.mux side.other).endpoint.sent)

theorem Sound.arrived_of_drained (h : p.Sound serde aes crypto) {side : Side}
    (hd : p.Drained side) :
    (p.mux side).endpoint.arrived = (p.mux side.other).endpoint.sent := by
  obtain ⟨frames, hframes, hwire⟩ := (h.link side).flight hd.reader
  rw [hd.wire] at hwire
  cases hwire
  have hpending := (h.mux side.other).pending hd.writer
  rwa [hd.outbound, List.append_nil, hframes, List.append_nil] at hpending

theorem Sound.handsOver (h : p.Sound serde aes crypto) {side : Side}
    (ho : (p.mux side).HandedOver) :
    p.HandsOver side := by
  have hother := (h.mux side.other).endpoint
  constructor
  · rw [ho.control]
    exact controls_mono (h.heard side)
  · exact ⟨_, opens_mono (h.heard side), ho.incoming⟩
  · intro i
    constructor
    · intro hi
      obtain ⟨⟨_, request⟩, hm, rfl⟩ := List.mem_map.mp hi
      have hsent := mem_opens.mp hm
      obtain ⟨k, -, hk⟩ := hother.sentOpen _ ⟨request, hsent⟩
      exact ⟨hk ▸ own_idAt _ k, hother.sentBy _ hsent _ rfl⟩
    · rintro ⟨hown, r, s, hs, rfl⟩
      obtain ⟨request, hm⟩ := hother.own r s hs hown
      exact List.mem_map.mpr ⟨_, mem_opens.mpr hm, rfl⟩
  · exact opens_nodup hother.order
  · have hnodup : ((opens (p.mux side).endpoint.arrived).map Prod.fst).Nodup :=
      (opens_nodup hother.order).sublist ((opens_mono (h.heard side)).map _).sublist
    apply nodup_of_forall₂ ho.incoming _ hnodup
    rintro a a' b b' ⟨-, s, hs, hid⟩ ⟨-, s', hs', hid'⟩ he
    rw [he, hs', Option.some.injEq] at hs
    rw [← hid, ← hid', hs]
  · intro hd
    rw [← h.arrived_of_drained hd]
    exact ⟨ho.control, ho.incoming⟩

theorem run_handedOver (hserde : serde.Inverts) (haes : aes.Ideal) {ms : List (Move Pair PairEvent)}
    (hrun : Run (Pair.step serde aes) (start crypto) ms p)
    (hbound : ∀ side, (p.mux side).endpoint.opened ≤ 2 ^ 31) (side : Side) :
    (p.mux side).HandedOver := by
  apply hrun.history_invariant (P := fun _ p => (∀ side, (p.mux side).endpoint.opened ≤ 2 ^ 31) →
    ∀ side, (p.mux side).HandedOver)
  · intro _ side
    exact MuxConnection.handedOver_start _ _
  · intro ns q event q' hrun hq hstep hb
    have hb' : ∀ side, (q.mux side).endpoint.opened ≤ 2 ^ 31 := fun side =>
      (opened_step hstep side).trans (hb side)
    exact handedOver_step (run_sound hserde haes hrun hb') (hq hb') hstep
  · exact hbound

/-- In every run the control messages and the opened streams of one end reach the program of the
other in order, each once, and all of them when nothing is under way. -/
theorem run_handsOver (hserde : serde.Inverts) (haes : aes.Ideal) {ms : List (Move Pair PairEvent)}
    (hrun : Run (Pair.step serde aes) (start crypto) ms p)
    (hbound : ∀ side, (p.mux side).endpoint.opened ≤ 2 ^ 31) (side : Side) : p.HandsOver side :=
  (run_sound hserde haes hrun hbound).handsOver (run_handedOver hserde haes hrun hbound side)

/-- An access node binds a name and visits another one; the relay node answers and
opens a stream. -/
def boundAndVisited : List PairEvent :=
  [.call .odd (.sendControl (.bind "ssh" none)), .call .odd (.openBegin (.visit "web" none)),
    .call .odd (.openFinish 1 (.visit "web" none)), .writeLoop .odd, .readLoop .even,
    .call .even (.sendControl (.bindAck "ssh" true none)), .writeLoop .odd, .readLoop .even,
    .call .even (.openBegin (.providerConnect "ssh")),
      .call .even (.openFinish 2 (.providerConnect "ssh")),
    .writeLoop .even, .writeLoop .even, .readLoop .odd]

theorem run_handsOver_of_boundAndVisited :
    (outcome (Pair.step .plain namedCipher) (start fun _ => none)
      boundAndVisited).HandsOver .odd := by
  have hplay :
      (play (Pair.step .plain namedCipher) (start fun _ => none) boundAndVisited).isSome =
        true := by
    decide +kernel
  have hbound : ∀ side, ((outcome (Pair.step .plain namedCipher) (start fun _ => none)
      boundAndVisited).mux side).endpoint.opened ≤ 2 ^ 31 := by
    intro side
    cases side <;> decide +kernel
  exact run_handsOver SerdeSlice.plain_inverts namedCipher_ideal (Run.of_outcome hplay) hbound .odd

end Pair

end NodeAccess.Mux
