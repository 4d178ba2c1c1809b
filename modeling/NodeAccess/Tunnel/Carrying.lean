import NodeAccess.Tunnel.Pipe

/-! # What a pipe carries

Every byte that a pipe has read from an end it has written to the other one, or holds it. Nobody
else works on its ends, whatever the other pipes, the loops and the programs do.
-/

namespace NodeAccess.Tunnel

open Foundation Crypto Mux

/-- What has come to its end stays so. -/
def TcpSocket.Before (s s' : TcpSocket) : Prop :=
  s.finished = true → s'.finished = true ∧ (s.incoming = [] → s'.incoming = [])

/-- What has been done with an end of a pipe, before the pipe and by its two copies. -/
def Pipe.endView (pipe : Pipe) (d : Direction) : EndView :=
  ⟨(pipe.earlier d).taken ++ ((pipe.copy d).moved ++ (pipe.copy d).buffer),
    (pipe.earlier d).written ++ (pipe.copy d.flip).moved, (pipe.copy d.flip).shut || pipe.returned,
      pipe.returned⟩

namespace Net

/-- One end is worked on and the others keep what they have. -/
structure Touches (n n' : Net) (e : PipeEnd) (f : EndView → EndView) : Prop where
  pipes : n'.pipes = n.pipes
  view : ∃ v, n.view e = some v ∧ n'.view e = some (f v)
  others : ∀ e' v, e' ≠ e → n.view e' = some v → n'.view e' = some v

variable {serde : SerdeSlice} {aes : AesGcm} {n n' : Net}

/-! ## Steps of a connection -/

@[simp] theorem setPair_pair_self (n : Net) (conn : ℕ) (p : Pair) :
    (n.setPair conn p).pair conn = p :=
  Function.update_self _ _ _

theorem setPair_pair_of_ne {conn conn' : ℕ} (h : conn' ≠ conn) (n : Net) (p : Pair) :
    (n.setPair conn p).pair conn' = n.pair conn' := Function.update_of_ne h _ _

/-- The stream references that an end has given out are below its counter. -/
def Referenced (n : Net) : Prop :=
  ∀ conn side r s, n.stream conn side r = some s → r < (n.endpoint conn side).created

theorem view_setPair {conn : ℕ} {event : PairEvent} {p : Pair} (href : n.Referenced)
    (hstep : (n.pair conn).step serde aes event = some p) {e : PipeEnd} {v : EndView}
    (he : calledEnd conn event ≠ some e) (hv : n.view e = some v) :
    (n.setPair conn p).view e = some v := by
  cases e with
  | socket id => exact hv
  | stream conn' side r =>
    obtain ⟨s, hs, rfl⟩ := Option.map_eq_some_iff.mp hv
    by_cases hconn : conn' = conn
    · subst hconn
      have hpreserves := Pair.preserves_step (href conn') hstep side
      obtain ⟨s', hs', -, hsame⟩ := hpreserves.keeps r s hs
      have htarget : event.target side ≠ some r := by
        intro ht
        apply he
        cases event with
        | call caller event =>
          rw [PairEvent.target] at ht
          split_ifs at ht with hside
          rw [calledEnd, hside, ht, Option.map_some]
        | _ => cases ht
      obtain ⟨inbound, rfl⟩ := hsame htarget
      simp only [view, stream, endpoint, setPair_pair_self, hs', Option.map_some]
      rfl
    · simp only [view, stream, endpoint, setPair_pair_of_ne hconn]
      exact congrArg _ hs

theorem call_eq_some {conn : ℕ} {side : Side} {event : StreamEvent}
    (h : n.call serde aes conn side event = some n') : ∃ p endpoint,
      (n.pair conn).step serde aes (.call side event) = some p ∧ n' = n.setPair conn p ∧
      (n.endpoint conn side).step event = some endpoint ∧ n'.endpoint conn side = endpoint := by
  obtain ⟨p, hstep, rfl⟩ := Option.map_eq_some_iff.mp h
  obtain ⟨m, hcall, rfl⟩ := Option.map_eq_some_iff.mp hstep
  obtain ⟨-, endpoint, hs, rfl⟩ := MuxConnection.call_eq_some hcall
  refine ⟨_, endpoint, hstep, rfl, hs, ?_⟩
  rw [Net.endpoint, setPair_pair_self, Pair.setMux_mux_self]

theorem touches_call {conn : ℕ} {side : Side} {event : StreamEvent} {r : StreamRef}
    {f : EndView → EndView} (href : n.Referenced) (h : n.call serde aes conn side event = some n')
    (ht : event.target = some r)
    (hview : ∀ endpoint s, (n.endpoint conn side).step event = some endpoint →
      (n.endpoint conn side).live r = some s →
        ∃ s', endpoint.stream r = some s' ∧ streamView s' = f (streamView s)) :
    n.Touches n' (.stream conn side r) f := by
  obtain ⟨p, endpoint, hstep, rfl, hs, he⟩ := call_eq_some h
  obtain ⟨s, htouches⟩ := Endpoint.touches_of_step hs ht
  obtain ⟨s', hs', hf⟩ := hview endpoint s hs htouches.live
  refine ⟨rfl, ⟨streamView s, ?_, ?_⟩, ?_⟩
  · rw [view, stream, (Endpoint.live_eq_some.mp htouches.live).1, Option.map_some]
  · rw [view, stream, he, hs', Option.map_some, hf]
  · intro e' v hne hv
    apply view_setPair href hstep _ hv
    rw [calledEnd, ht, Option.map_some]
    exact fun heq => hne (Option.some.inj heq).symm

theorem touches_setSocket {id : ℕ} {s : TcpSocket} {f : EndView → EndView}
    (h : s.view = f (n.socket id).view) : n.Touches (n.setSocket id s) (.socket id) f := by
  refine ⟨rfl, ⟨_, rfl, ?_⟩, ?_⟩
  · rw [← h]
    simp [view, setSocket]
  · intro e' v hne hv
    cases e' with
    | socket id' =>
      have hid : id' ≠ id := fun he => hne (congrArg _ he)
      simpa [view, setSocket, Function.update_of_ne hid] using hv
    | stream conn side r => exact hv

theorem view_setSocket {id : ℕ} {s : TcpSocket} (h : s.view = (n.socket id).view) {e : PipeEnd}
    {v : EndView} (hv : n.view e = some v) : (n.setSocket id s).view e = some v := by
  have htouches : n.Touches (n.setSocket id s) (.socket id) fun v => v := touches_setSocket h
  by_cases he : e = .socket id
  · subst he
    obtain ⟨v', hv', hafter⟩ := htouches.view
    rw [hafter, ← hv', hv]
  · exact htouches.others e v he hv

/-! ## The four calls of a pipe -/

theorem touches_pollRead (href : n.Referenced) {cx : TaskContext} {buf : ReadBuf} {e : PipeEnd}
    {given : List UInt8} (h : n.pollRead serde aes cx buf e = some (n', given)) :
    n.Touches n' e fun v => { v with taken := v.taken ++ given } := by
  cases e with
  | socket id =>
    simp only [Net.pollRead] at h
    split_ifs at h
    obtain ⟨rfl, rfl⟩ := Prod.mk.inj (Option.some.inj h)
    exact touches_setSocket rfl
  | stream conn side r =>
    obtain ⟨s, hs, h⟩ := Option.bind_eq_some_iff.mp h
    obtain ⟨-, h⟩ := Option.ite_none_right_eq_some.mp h
    obtain ⟨next, hcall, he⟩ := Option.map_eq_some_iff.mp h
    obtain ⟨rfl, rfl⟩ := Prod.mk.inj he
    apply touches_call href hcall rfl
    intro endpoint s₀ hstep hlive
    rw [Endpoint.step, hlive, Option.map_some, Option.some.injEq] at hstep
    obtain rfl := Option.some.inj (hs.symm.trans (Endpoint.live_eq_some.mp hlive).1)
    obtain ⟨inbound, readBuffer, hsame⟩ :=
      (s.pollRead_spec cx (decide ((n.endpoint conn side).streams.get s.streamId ≠ some r)) buf).2.2
    rw [← hstep]
    refine ⟨_, Function.update_self _ _ _, ?_⟩
    rw [hsame]
    rfl

theorem touches_pollWrite (href : n.Referenced) {bytes : List UInt8} {e : PipeEnd} {v : EndView}
    (hv : n.view e = some v) (hopen : v.shut = false)
    (h : n.pollWrite serde aes bytes e = some n') :
    n.Touches n' e fun v => { v with written := v.written ++ bytes } := by
  cases e with
  | socket id =>
    obtain rfl := Option.some.inj h
    exact touches_setSocket rfl
  | stream conn side r =>
    rw [Net.pollWrite, Option.ite_none_right_eq_some] at h
    obtain ⟨hw, hcall⟩ := h
    apply touches_call href hcall rfl
    intro endpoint s hstep hlive
    have hs := (Endpoint.live_eq_some.mp hlive).1
    have hv' :
        n.view (.stream conn side r) =
          some (streamView s) := by rw [view, stream, hs, Option.map_some]
    obtain rfl := Option.some.inj (hv'.symm.trans hv)
    rw [Endpoint.step, hlive, Option.map_some, Option.some.injEq, Endpoint.pollWrite,
      if_pos hw] at hstep
    have hsent : s.sentClose = false := hopen
    rw [← hstep]
    refine ⟨_, Function.update_self _ _ _, ?_⟩
    simp [streamView, hsent]

theorem touches_pollShutdown (href : n.Referenced) {e : PipeEnd}
    (h : n.pollShutdown serde aes e = some n') :
    n.Touches n' e fun v => { v with shut := true } := by
  cases e with
  | socket id =>
    obtain rfl := Option.some.inj h
    exact touches_setSocket rfl
  | stream conn side r =>
    apply touches_call href h rfl
    intro endpoint s hstep hlive
    rw [Endpoint.step, hlive, Option.map_some, Option.some.injEq, Endpoint.closeRemote] at hstep
    split_ifs at hstep with hsent
    · exact ⟨s, by rw [← hstep, (Endpoint.live_eq_some.mp hlive).1], by simp [streamView, hsent]⟩
    · rw [← hstep]
      exact ⟨_, Function.update_self _ _ _, rfl⟩

theorem touches_dropEnd (href : n.Referenced) {e : PipeEnd} (h : n.dropEnd serde aes e = some n') :
    n.Touches n' e fun v => { v with shut := true, dropped := true } := by
  cases e with
  | socket id =>
    obtain rfl := Option.some.inj h
    exact touches_setSocket rfl
  | stream conn side r =>
    apply touches_call href h rfl
    intro endpoint s hstep hlive
    rw [Endpoint.step, hlive, Option.map_some, Option.some.injEq, Endpoint.dropStream] at hstep
    rw [← hstep]
    exact ⟨_, Function.update_self _ _ _, rfl⟩

theorem running_eq_some {k : ℕ} {pipe : Pipe} :
    n.running k = some pipe ↔ n.pipes[k]? = some pipe ∧ pipe.returned = false := by
  simp [running, Option.filter_eq_some_iff]

/-! ## What a step does -/

/-- A pipe works on one of its ends, or on both. -/
structure Works (n n' : Net) (k : ℕ) (pipe pipe' : Pipe) : Prop where
  running : n.running k = some pipe
  source : pipe'.source = pipe.source
  earlier : pipe'.earlier = pipe.earlier
  pipes : n'.pipes = n.pipes.set k pipe'
  ends : ∀ d, n.view (pipe.source d) = some (pipe.endView d) →
    n'.view (pipe.source d) = some (pipe'.endView d)
  others : ∀ e v, (∀ d, e ≠ pipe.source d) → n.view e = some v → n'.view e = some v

theorem Works.of_touches {n₁ : Net} {k : ℕ} {pipe pipe' : Pipe} {d : Direction}
    {f : EndView → EndView} (hrunning : n.running k = some pipe)
    (hsource : pipe'.source = pipe.source) (hearlier : pipe'.earlier = pipe.earlier)
    (hne : pipe.source d.flip ≠ pipe.source d) (h : n.Touches n₁ (pipe.source d) f)
    (hself : pipe'.endView d = f (pipe.endView d))
    (hother : pipe'.endView d.flip = pipe.endView d.flip) :
    n.Works (n₁.setPipe k pipe') k pipe pipe' := by
  refine ⟨hrunning, hsource, hearlier, by rw [setPipe, h.pipes], ?_, ?_⟩
  · intro d' hv
    by_cases hd : d' = d
    · subst hd
      obtain ⟨v, hv₀, hv'⟩ := h.view
      obtain rfl := Option.some.inj (hv₀.symm.trans hv)
      exact hv'.trans (by rw [hself])
    · obtain rfl : d' = d.flip := by
        cases d <;> cases d' <;> first | rfl | exact absurd rfl hd
      rw [hother]
      exact h.others _ _ hne hv
  · intro e v he hv
    exact h.others e v (he d) hv

theorem openView_eq_some {e : PipeEnd} {v : EndView} :
    n.openView e = some v ↔ n.view e = some v ∧ v.shut = false ∧ v.dropped = false := by
  simp [openView, Option.filter_eq_some_iff]

theorem step_pipe {left right : PipeEnd} (h : n.step serde aes (.pipe left right) = some n') :
    ∃ v w,
    n.openView left = some v ∧ n.openView right = some w ∧
      (left ≠ right ∧ n.piped left = false ∧ n.piped right = false) ∧
      n' = { n with pipes := n.pipes ++ [.new left right v w] } := by
  obtain ⟨v, hleft, h⟩ := Option.bind_eq_some_iff.mp h
  obtain ⟨w, hright, h⟩ := Option.bind_eq_some_iff.mp h
  obtain ⟨hfresh, h⟩ := Option.ite_none_right_eq_some.mp h
  exact ⟨v, w, hleft, hright, hfresh, (Option.some.inj h).symm⟩

theorem step_drop {e : PipeEnd} (h : n.step serde aes (.drop e) = some n') :
    n.piped e = false ∧ n.dropEnd serde aes e = some n' := by
  simp only [step] at h
  split_ifs at h with hp
  exact ⟨Bool.eq_false_of_not_eq_true hp, h⟩

theorem step_read {k : ℕ} {d : Direction} {cx : TaskContext} {buf : ReadBuf}
    (h : n.step serde aes (.read k d cx buf) = some n') :
    ∃ pipe n₁ given, n.running k = some pipe ∧ (pipe.copy d).readDone = false ∧ 0 < buf.remaining ∧
      n.pollRead serde aes cx buf (pipe.source d) = some (n₁, given) ∧
      n' = n₁.setPipe k (pipe.setCopy d ((pipe.copy d).fill given)) := by
  obtain ⟨pipe, hrunning, h⟩ := Option.bind_eq_some_iff.mp h
  obtain ⟨⟨hdone, hroom⟩, h⟩ := Option.ite_none_right_eq_some.mp h
  obtain ⟨⟨n₁, given⟩, hread, rfl⟩ := Option.map_eq_some_iff.mp h
  exact ⟨pipe, n₁, given, hrunning, hdone, hroom, hread, rfl⟩

theorem step_write {k : ℕ} {d : Direction} {size : ℕ}
    (h : n.step serde aes (.write k d size) = some n') :
    ∃ pipe n₁, n.running k = some pipe ∧ (pipe.copy d).buffer.take size ≠ [] ∧
      n.pollWrite serde aes ((pipe.copy d).buffer.take size) (pipe.target d) = some n₁ ∧
      n' = n₁.setPipe k (pipe.setCopy d ((pipe.copy d).pass size)) := by
  obtain ⟨pipe, hrunning, h⟩ := Option.bind_eq_some_iff.mp h
  obtain ⟨hchunk, h⟩ := Option.ite_none_right_eq_some.mp h
  obtain ⟨n₁, hwrite, rfl⟩ := Option.map_eq_some_iff.mp h
  exact ⟨pipe, n₁, hrunning, hchunk, hwrite, rfl⟩

theorem step_shutdown {k : ℕ} {d : Direction} (h : n.step serde aes (.shutdown k d) = some n') :
    ∃ pipe n₁, n.running k = some pipe ∧
      ((pipe.copy d).readDone = true ∧ (pipe.copy d).buffer = [] ∧ (pipe.copy d).shut = false) ∧
      n.pollShutdown serde aes (pipe.target d) = some n₁ ∧
      n' = n₁.setPipe k (pipe.setCopy d { pipe.copy d with shut := true }) := by
  obtain ⟨pipe, hrunning, h⟩ := Option.bind_eq_some_iff.mp h
  obtain ⟨hdone, h⟩ := Option.ite_none_right_eq_some.mp h
  obtain ⟨n₁, hshut, rfl⟩ := Option.map_eq_some_iff.mp h
  exact ⟨pipe, n₁, hrunning, hdone, hshut, rfl⟩

theorem step_leave {k : ℕ} (h : n.step serde aes (.leave k) = some n') :
    ∃ pipe n₁ n₂, n.running k = some pipe ∧ n.dropEnd serde aes (pipe.source .forth) = some n₁ ∧
      n₁.dropEnd serde aes (pipe.source .back) = some n₂ ∧
      n' = n₂.setPipe k { pipe with returned := true } := by
  obtain ⟨pipe, hrunning, h⟩ := Option.bind_eq_some_iff.mp h
  obtain ⟨n₁, hforth, h⟩ := Option.bind_eq_some_iff.mp h
  obtain ⟨n₂, hback, rfl⟩ := Option.map_eq_some_iff.mp h
  exact ⟨pipe, n₁, n₂, hrunning, hforth, hback, rfl⟩

/-! ## The connections of a net -/

section Connections

variable (serde aes)

/-- Each connection goes on as a pair of its own, on which nobody writes an empty chunk. -/
def Continues (n n' : Net) : Prop :=
  ∀ conn, ∃ ms, Run (Pair.step serde aes) (n.pair conn) ms (n'.pair conn) ∧
    ∀ m ∈ ms, emptyWrite m.event = false

/-- A relation in which a change of a socket and a call on a stream stand, one after the other. -/
structure Respects (R : Net → Net → Prop) : Prop where
  same : ∀ {q q' : Net}, q'.pair = q.pair → q'.socket = q.socket → R q q'
  trans : ∀ {q q' q'' : Net}, R q q' → R q' q'' → R q q''
  socket : ∀ {q : Net} {id : ℕ} {s : TcpSocket}, (q.socket id).Before s → R q (q.setSocket id s)
  call : ∀ {q q' : Net} {conn : ℕ} {side : Side} {event : StreamEvent} {r : StreamRef},
    event.target = some r →
    emptyWrite (.call side event) = false → q.call serde aes conn side event = some q' → R q q'

end Connections

namespace Respects

variable {R : Net → Net → Prop}

theorem pollRead (h : Respects serde aes R) {cx : TaskContext} {buf : ReadBuf} {e : PipeEnd}
    {given : List UInt8} (hs : n.pollRead serde aes cx buf e = some (n', given)) : R n n' := by
  cases e with
  | socket id =>
    simp only [Net.pollRead] at hs
    split_ifs at hs
    obtain ⟨rfl, -⟩ := Prod.mk.inj (Option.some.inj hs)
    refine h.socket fun hfinished => ⟨hfinished, ?_⟩
    intro hempty
    simp [hempty]
  | stream conn side r =>
    obtain ⟨s, -, hs⟩ := Option.bind_eq_some_iff.mp hs
    obtain ⟨-, hs⟩ := Option.ite_none_right_eq_some.mp hs
    obtain ⟨next, hcall, he⟩ := Option.map_eq_some_iff.mp hs
    obtain ⟨rfl, -⟩ := Prod.mk.inj he
    exact h.call rfl rfl hcall

theorem pollWrite (h : Respects serde aes R) {bytes : List UInt8} {e : PipeEnd} (hfull : bytes ≠ [])
    (hs : n.pollWrite serde aes bytes e = some n') : R n n' := by
  cases e with
  | socket id => exact Option.some.inj hs ▸ h.socket fun hfinished =>
      ⟨hfinished, fun hempty => hempty⟩
  | stream conn side r =>
    have hempty : emptyWrite (.call side (.pollWrite r bytes)) = false := decide_eq_false hfull
    exact h.call rfl hempty (Option.ite_none_right_eq_some.mp hs).2

theorem pollShutdown (h : Respects serde aes R) {e : PipeEnd}
    (hs : n.pollShutdown serde aes e = some n') :
    R n n' := by
  cases e with
  | socket id => exact Option.some.inj hs ▸ h.socket fun hfinished =>
      ⟨hfinished, fun hempty => hempty⟩
  | stream conn side r => exact h.call rfl rfl hs

theorem dropEnd (h : Respects serde aes R) {e : PipeEnd} (hs : n.dropEnd serde aes e = some n') :
    R n n' := by
  cases e with
  | socket id => exact Option.some.inj hs ▸ h.socket fun hfinished =>
      ⟨hfinished, fun hempty => hempty⟩
  | stream conn side r => exact h.call rfl rfl hs

theorem step (h : Respects serde aes R) {event : NetEvent}
    (hmux : ∀ conn event' p, event = .mux conn event' → emptyWrite event' = false →
      (n.pair conn).step serde aes event' = some p → R n (n.setPair conn p))
    (hs : n.step serde aes event = some n') : R n n' := by
  cases event with
  | mux conn event =>
    simp only [Net.step] at hs
    split_ifs at hs with hcalled
    obtain ⟨p, hstep, rfl⟩ := Option.map_eq_some_iff.mp hs
    push Not at hcalled
    exact hmux conn event p rfl (Bool.eq_false_of_not_eq_true hcalled.2) hstep
  | arrive id bytes =>
    simp only [Net.step] at hs
    split_ifs at hs with hopen
    exact Option.some.inj hs ▸ h.socket fun hfinished => absurd hfinished hopen
  | finish id => exact Option.some.inj hs ▸ h.socket fun _ => ⟨rfl, fun hempty => hempty⟩
  | pipe left right =>
    obtain ⟨v, w, -, -, -, rfl⟩ := step_pipe hs
    exact h.same rfl rfl
  | drop e => exact h.dropEnd (step_drop hs).2
  | read k d cx buf =>
    obtain ⟨pipe, n₁, given, -, -, -, hread, rfl⟩ := step_read hs
    exact h.trans (h.pollRead hread) (h.same rfl rfl)
  | write k d size =>
    obtain ⟨pipe, n₁, -, hchunk, hwrite, rfl⟩ := step_write hs
    exact h.trans (h.pollWrite hchunk hwrite) (h.same rfl rfl)
  | shutdown k d =>
    obtain ⟨pipe, n₁, -, -, hshut, rfl⟩ := step_shutdown hs
    exact h.trans (h.pollShutdown hshut) (h.same rfl rfl)
  | leave k =>
    obtain ⟨pipe, n₁, n₂, -, hforth, hback, rfl⟩ := step_leave hs
    exact h.trans (h.dropEnd hforth) (h.trans (h.dropEnd hback) (h.same rfl rfl))

end Respects

theorem Continues.of_same (h : n'.pair = n.pair) : n.Continues serde aes n' := by
  intro conn
  rw [h]
  exact ⟨[], Run.nil, by simp⟩

theorem Continues.trans {n'' : Net} (h : n.Continues serde aes n')
    (h' : n'.Continues serde aes n'') :
    n.Continues serde aes n'' := by
  intro conn
  obtain ⟨ms, hrun, hms⟩ := h conn
  obtain ⟨ns, hrun', hns⟩ := h' conn
  refine ⟨ms ++ ns, hrun.trans hrun', ?_⟩
  intro m hm
  exact (List.mem_append.mp hm).elim (hms m) (hns m)

theorem continues_setPair {conn : ℕ} {event : PairEvent} {p : Pair}
    (hfull : emptyWrite event = false) (h : (n.pair conn).step serde aes event = some p) :
    n.Continues serde aes (n.setPair conn p) := by
  intro conn'
  by_cases hconn : conn' = conn
  · subst hconn
    rw [setPair_pair_self]
    refine ⟨_, Run.single h, ?_⟩
    intro m hm
    rw [List.mem_singleton.mp hm]
    exact hfull
  · rw [setPair_pair_of_ne hconn]
    exact ⟨[], Run.nil, by simp⟩

theorem respects_continues : Respects serde aes (Continues serde aes) where
  same hpair _ := .of_same hpair
  trans := .trans
  socket _ := .of_same rfl
  call _ hfull h := by
    obtain ⟨p, -, hstep, rfl, -⟩ := call_eq_some h
    exact continues_setPair hfull hstep

theorem continues_step {event : NetEvent} (h : n.step serde aes event = some n') :
    n.Continues serde aes n' :=
  respects_continues.step (fun _ _ _ _ hfull hstep => continues_setPair hfull hstep) h

end Net

end NodeAccess.Tunnel
