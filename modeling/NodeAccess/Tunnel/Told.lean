import NodeAccess.Tunnel.Untouched

/-! # The control messages of an end

An end sends a control message when its program calls for one and `write_loop` still runs, and at no
other time.
-/

namespace NodeAccess.Mux

open Foundation Crypto

/-- The control message that a call sends. -/
def StreamEvent.told : StreamEvent → Option ControlMessage
  | .sendControl message => some message
  | _ => none

namespace Endpoint

variable {e e' e'' : Endpoint} {event : StreamEvent} {said : Option ControlMessage}

/-- The control messages that a step sends: the one that it was called for, if `write_loop` still
runs. -/
structure Tells (e e' : Endpoint) (said : Option ControlMessage) : Prop where
  controls : controls e'.sent = controls e.sent ++ if e.writerOpen then said.toList else []
  writer : e'.writerOpen = true → e.writerOpen = true

theorem Tells.of_same (hsent : e'.sent = e.sent)
    (hwriter : e'.writerOpen = true → e.writerOpen = true) :
    e.Tells e' none := by
  refine ⟨?_, hwriter⟩
  rw [hsent, Option.toList_none, ite_self, List.append_nil]

theorem Tells.of_send (frame : MuxFrame) (hsent : e'.sent = (e.send frame).sent)
    (hwriter : e'.writerOpen = e.writerOpen) : e.Tells e' frame.asControl := by
  refine ⟨?_, fun hw => hwriter ▸ hw⟩
  rw [hsent, send, controls_append]
  congr 1
  split_ifs
  · cases hframe : frame.asControl <;> simp [Mux.controls, hframe]
  · rfl

theorem Tells.trans (h : e.Tells e' none) (h' : e'.Tells e'' none) : e.Tells e'' none := by
  refine ⟨?_, fun hw => h.writer (h'.writer hw)⟩
  rw [h'.controls, h.controls]
  simp

theorem receive_writerOpen (e : Endpoint) (frame : MuxFrame) :
    (e.receive frame).writerOpen = e.writerOpen := by
  cases frame with
  | data i payload =>
    unfold receive
    dsimp only
    split <;> rfl
  | _ => rfl

theorem tells_of_step (hs : e.step event = some e') : e.Tells e' event.told := by
  by_cases ht : ∃ r, event.target = some r
  · obtain ⟨r, hr⟩ := ht
    obtain ⟨s, htouches⟩ := touches_of_step hs hr
    have hquiet : event.told = none := by
      cases event with
      | sendControl message => cases hr
      | _ => rfl
    rw [hquiet]
    rcases htouches.sent with hsent | ⟨data, hsent⟩ | hsent
    · exact .of_same hsent fun hw => htouches.loops.1 ▸ hw
    · exact Tells.of_send _ hsent htouches.loops.1
    · exact Tells.of_send _ hsent htouches.loops.1
  · cases event with
    | openFinish i request =>
      obtain rfl := Option.some.inj (Option.ite_none_right_eq_some.mp hs).2
      unfold openFinish
      split_ifs
      · exact Tells.of_send (.openStream i request) rfl rfl
      · exact .of_same rfl id
    | sendControl message =>
      obtain rfl := Option.some.inj hs
      exact Tells.of_send (.control message) rfl rfl
    | openBegin request =>
      obtain rfl := Option.some.inj hs
      exact .of_same rfl id
    | receive frame =>
      obtain rfl := Option.some.inj hs
      exact .of_same (e.receive_histories frame).1 fun hw => e.receive_writerOpen frame ▸ hw
    | reap i =>
      obtain rfl := Option.some.inj (Option.ite_none_right_eq_some.mp hs).2
      exact .of_same rfl id
    | writerStop =>
      obtain rfl := Option.some.inj hs
      refine .of_same rfl fun hw => ?_
      cases hw
    | _ r => exact absurd ⟨r, rfl⟩ ht

end Endpoint

section Steps

variable {serde : SerdeSlice} {aes : AesGcm}

theorem MuxConnection.writeLoop_writer {m m' : MuxConnection} {message : Option (List UInt8)}
    (hw : m.writeLoop serde aes = some (m', message)) (h : m'.endpoint.writerOpen = true) :
    m.endpoint.writerOpen = true := by
  unfold MuxConnection.writeLoop at hw
  cases hqueue : m.outbound with
  | nil => simp [hqueue] at hw
  | cons frame rest =>
    simp only [hqueue] at hw
    cases hturn : (writeFrame serde aes m.crypto frame).2 with
    | skip =>
      simp only [hturn, Option.some.injEq, Prod.mk.injEq] at hw
      obtain ⟨rfl, -⟩ := hw
      exact h
    | stop =>
      simp only [hturn, Option.some.injEq, Prod.mk.injEq] at hw
      obtain ⟨rfl, -⟩ := hw
      cases h
    | send bytes =>
      simp only [hturn, Option.some.injEq, Prod.mk.injEq] at hw
      obtain ⟨rfl, -⟩ := hw
      exact h

namespace Pair

variable {p p' : Pair} {event : PairEvent}

theorem tells_setMux {side : Side} {m : MuxConnection}
    (hm : (p.mux side).endpoint.Tells m.endpoint none) (side' : Side) :
    (p.mux side').endpoint.Tells ((p.setMux side m).mux side').endpoint none :=
  relates_setMux (R := fun _ e e' => e.Tells e' none) (fun _ _ => .of_same rfl id) hm side'

theorem tells_step (hstep : p.step serde aes event = some p') (side : Side) :
    (p.mux side).endpoint.Tells (p'.mux side).endpoint
      ((event.calls side).bind StreamEvent.told) := by
  cases event with
  | call caller event =>
    obtain ⟨m, hcall, rfl⟩ := Option.map_eq_some_iff.mp hstep
    obtain ⟨-, endpoint, hs, rfl⟩ := MuxConnection.call_eq_some hcall
    rw [PairEvent.calls]
    by_cases hside : caller = side
    · subst hside
      rw [setMux_mux_self, if_pos rfl]
      exact Endpoint.tells_of_step hs
    · obtain rfl := (caller.eq_or_eq_other side).resolve_left (Ne.symm hside)
      rw [setMux_mux_other, if_neg hside]
      exact .of_same rfl id
  | writeLoop writer =>
    obtain ⟨⟨m, message⟩, hw, rfl⟩ := Option.map_eq_some_iff.mp hstep
    obtain ⟨⟨writerOpen, he⟩, -⟩ := MuxConnection.writeLoop_endpoint hw
    refine tells_setMux (.of_same ?_ ?_) side
    · rw [he]
    · exact MuxConnection.writeLoop_writer hw
  | writerEnd writer =>
    obtain rfl := Option.some.inj hstep
    apply tells_setMux
    refine .of_same rfl ?_
    intro hw
    cases hw
  | readLoop reader =>
    simp only [Pair.step] at hstep
    cases hwire : p.wire reader.other with
    | nil => simp [hwire] at hstep
    | cons message rest =>
      rw [hwire] at hstep
      obtain ⟨-, hs⟩ := Option.ite_none_right_eq_some.mp hstep
      obtain rfl := Option.some.inj hs
      obtain ⟨-, -, -, hturn⟩ := MuxConnection.readLoop_spec serde aes (p.mux reader) message
      apply tells_setMux
      rcases hturn with ⟨frame, -, he, -⟩ | ⟨-, he, -⟩
      · rw [he]
        exact .of_same (Endpoint.receive_histories _ frame).1 fun hw =>
          Endpoint.receive_writerOpen _ frame ▸ hw
      · rw [he]
        exact .of_same rfl id
  | readerEnd reader =>
    obtain rfl := Option.some.inj hstep
    apply tells_setMux
    exact .of_same rfl id

end Pair

end Steps

end NodeAccess.Mux

namespace NodeAccess.Tunnel

open Foundation Crypto Mux

namespace Net

variable {serde : SerdeSlice} {aes : AesGcm} {n n' : Net} {event : NetEvent}

theorem tells_setPair {conn' : ℕ} {event : PairEvent} {p : Pair}
    (hstep : (n.pair conn').step serde aes event = some p) (conn : ℕ) (side : Side) :
    (n.endpoint conn side).Tells ((n.setPair conn' p).endpoint conn side)
      ((calls conn side (.mux conn' event)).bind StreamEvent.told) := by
  rw [calls]
  by_cases hconn : conn' = conn
  · subst hconn
    rw [if_pos rfl, endpoint, endpoint, setPair_pair_self]
    exact Pair.tells_step hstep side
  · rw [if_neg hconn, endpoint, endpoint, setPair_pair_of_ne (Ne.symm hconn)]
    exact .of_same rfl id

theorem tells_step (hs : n.step serde aes event = some n') (conn : ℕ) (side : Side) :
    (n.endpoint conn side).Tells (n'.endpoint conn side)
      ((calls conn side event).bind StreamEvent.told) := by
  by_cases hmux : ∃ conn' event', event = .mux conn' event'
  · obtain ⟨conn', event', rfl⟩ := hmux
    simp only [Net.step] at hs
    split_ifs at hs
    obtain ⟨p, hstep, rfl⟩ := Option.map_eq_some_iff.mp hs
    exact tells_setPair hstep conn side
  · have hquiet :
        Respects serde aes fun n n' =>
          (n.endpoint conn side).Tells (n'.endpoint conn side) none := by
      constructor
      · intro q q' hpair _
        rw [endpoint, endpoint, hpair]
        exact .of_same rfl id
      · exact .trans
      · intro q id' s _
        exact .of_same rfl id
      · intro q q' conn' side' event' r ht _ hcall
        obtain ⟨p, -, hstep, rfl, -⟩ := call_eq_some hcall
        have htells := tells_setPair hstep conn side
        rw [calls, PairEvent.calls] at htells
        have htold : event'.told = none := by
          cases event' with
          | sendControl message => cases ht
          | _ => rfl
        split_ifs at htells
        · rwa [Option.bind_some, htold] at htells
        · exact htells
        · exact htells
    have hnone : calls conn side event = none := by
      cases event with
      | mux conn' event' => exact absurd ⟨conn', event', rfl⟩ hmux
      | _ => rfl
    rw [hnone]
    exact hquiet.step (fun conn' event' p he => absurd ⟨conn', event', he⟩ hmux) hs

/-- No control message is sent, and no `write_loop` begins again. -/
def Quiet (n n' : Net) : Prop :=
  ∀ conn side, (n.endpoint conn side).Tells (n'.endpoint conn side) none

theorem Quiet.trans {n'' : Net} (h : n.Quiet n') (h' : n'.Quiet n'') : n.Quiet n'' :=
  fun conn side => (h conn side).trans (h' conn side)

theorem quiet_rfl (n : Net) : n.Quiet n := fun _ _ => .of_same rfl id

theorem quiet_of_step (hs : n.step serde aes event = some n')
    (h : ∀ conn side, (calls conn side event).bind StreamEvent.told = none) : n.Quiet n' := by
  intro conn side
  have htells := tells_step hs conn side
  rwa [h conn side] at htells

theorem quiet_of_call {conn : ℕ} {side : Side} {call : StreamEvent}
    (hs : n.step serde aes (.mux conn (.call side call)) = some n') (h : call.told = none) :
    n.Quiet n' := by
  apply quiet_of_step hs
  intro conn' side'
  rw [calls, PairEvent.calls]
  split_ifs
  · exact h
  · rfl
  · rfl

end Net

end NodeAccess.Tunnel
