import NodeAccess.Tunnel.EndToEnd

/-! # Tunnels do not get stuck

When no loop and no pipe of a tunnel can move, everything that has come to its near end has been put
out at its far end, and the far end has been shut down if the near end is at its end. This needs
the loops of its connections, and pipes that have not returned.
-/

namespace NodeAccess.Mux

open Foundation Crypto

namespace VirtualStream

variable {s : VirtualStream} {closed : Bool} {buf : ReadBuf}

/-- With budget a poll into a buffer with room is pending only when nothing waits and more may
come. -/
theorem waiting_of_pending {cx : TaskContext} (hbudget : cx.budget = true)
    (hroom : 0 < buf.remaining) (h : (s.pollRead cx closed buf).2.2 ≠ .ready) :
    s.waiting = [] ∧ closed = false := by
  have hpending : (s.pollRead cx closed buf).2.2 = .pending := by
    cases hp : (s.pollRead cx closed buf).2.2
    · exact absurd hp h
    · rfl
  by_cases hbuffer : s.readBuffer = []
  · rw [pollRead_of_empty cx closed hbuffer hroom] at hpending
    cases hrecv : pollRecv s.inbound cx closed with
    | item payload rest => simp [hrecv] at hpending
    | ended => simp [hrecv] at hpending
    | pending =>
      obtain ⟨hi, hopen⟩ := pollRecv_eq_pending.mp hrecv hbudget
      exact ⟨by simp [waiting, hbuffer, hi], hopen⟩
  · have hnone := pollRead_pending hpending
    have hbegins := (s.pollRead_spec cx closed buf).1
    rw [hnone] at hbegins
    exact absurd (hnone.trans (List.prefix_nil.mp hbegins).symm)
      (pollRead_filled cx closed hbuffer hroom)

end VirtualStream

theorem MuxConnection.outbound_of_writeLoop {serde : SerdeSlice} {aes : AesGcm} {m : MuxConnection}
    (h : m.writeLoop serde aes = none) : m.outbound = [] := by
  unfold writeLoop at h
  cases hqueue : m.outbound with
  | nil => rfl
  | cons frame rest =>
    rw [hqueue] at h
    cases hturn : (writeFrame serde aes m.crypto frame).2 <;> simp [hturn] at h

theorem Endpoint.step_isSome_of_live {e : Endpoint} {event : StreamEvent} {r : StreamRef}
    {s : VirtualStream} (hs : e.live r = some s) (ht : event.target = some r) :
    (e.step event).isSome = true := by
  cases event with
  | pollWrite r' data => obtain rfl := Option.some.inj ht; simp [step, hs]
  | pollShutdown r' => obtain rfl := Option.some.inj ht; simp [step, hs]
  | drop r' => obtain rfl := Option.some.inj ht; simp [step, hs]
  | pollRead r' cx buf => obtain rfl := Option.some.inj ht; simp [step, hs]
  | _ => cases ht

end NodeAccess.Mux

namespace NodeAccess.Tunnel

open Foundation Crypto Mux

namespace Net

/-- The loops of an end's connection run and have nothing to do. -/
def Idle (serde : SerdeSlice) (aes : AesGcm) (n : Net) : PipeEnd → Prop
  | .socket _ => True
  | .stream conn _ _ => ∀ side, (n.endpoint conn side).writerOpen = true ∧
      ((n.pair conn).mux side).readerOpen = true ∧
        n.step serde aes (.mux conn (.writeLoop side)) = none ∧
      n.step serde aes (.mux conn (.readLoop side)) = none

/-- Nothing can move along these pipes, though none of them has returned. -/
structure Still (serde : SerdeSlice) (aes : AesGcm) (n : Net) (ks : List ℕ) : Prop where
  running : ∀ k ∈ ks, ∀ pipe : Pipe, n.pipes[k]? = some pipe → pipe.returned = false
  idle : ∀ k ∈ ks, ∀ pipe : Pipe, n.pipes[k]? = some pipe → ∀ d, n.Idle serde aes (pipe.source d)
  read : ∀ k ∈ ks, ∀ d, ∃ buf : ReadBuf, 0 < buf.remaining ∧
    n.step serde aes (.read k d ⟨true⟩ buf) = none
  write : ∀ k ∈ ks, ∀ d, ∃ size, 0 < size ∧ n.step serde aes (.write k d size) = none
  shutdown : ∀ k ∈ ks, ∀ d, n.step serde aes (.shutdown k d) = none

variable {serde : SerdeSlice} {aes : AesGcm} {crypto : ℕ → Side → Option FrameCrypto} {n n' : Net}
  {a b e e' : PipeEnd} {ks js : List ℕ} {f : List UInt8 → List UInt8} {k : ℕ} {pipe : Pipe}
    {d : Direction} {v : EndView}

/-! ## Calls that succeed -/

theorem call_isSome {conn : ℕ} {side : Side} {event : StreamEvent} {r : StreamRef}
    {s : VirtualStream} (hs : n.stream conn side r = some s) (hlive : s.dropped = false)
    (ht : event.target = some r) (hc : event.isCall = true) :
    (n.call serde aes conn side event).isSome = true := by
  have hstep := Endpoint.step_isSome_of_live (Endpoint.live_eq_some.mpr ⟨hs, hlive⟩) ht
  rw [call, Option.isSome_map, Pair.step, Option.isSome_map, MuxConnection.call, if_pos hc,
    Option.isSome_map]
  exact hstep

theorem stream_of_view {conn : ℕ} {side : Side} {r : StreamRef}
    (hv : n.view (.stream conn side r) = some v) (hlive : v.dropped = false) :
    ∃ s, n.stream conn side r = some s ∧ s.dropped = false := by
  obtain ⟨s, hs, rfl⟩ := Option.map_eq_some_iff.mp hv
  exact ⟨s, hs, hlive⟩

theorem pollWrite_isSome (hv : n.view e = some v) (hlive : v.dropped = false)
    (hidle : n.Idle serde aes e) (bytes : List UInt8) :
    (n.pollWrite serde aes bytes e).isSome = true := by
  cases e with
  | socket id => rfl
  | stream conn side r =>
    obtain ⟨s, hs, hd⟩ := stream_of_view hv hlive
    rw [Net.pollWrite, if_pos (hidle side).1]
    exact call_isSome hs hd rfl rfl

theorem pollShutdown_isSome (hv : n.view e = some v) (hlive : v.dropped = false) :
    (n.pollShutdown serde aes e).isSome = true := by
  cases e with
  | socket id => rfl
  | stream conn side r =>
    obtain ⟨s, hs, hd⟩ := stream_of_view hv hlive
    exact call_isSome hs hd rfl rfl

theorem waiting_of_pollRead_eq_none (hv : n.view e = some v) (hlive : v.dropped = false)
    {buf : ReadBuf} (hroom : 0 < buf.remaining) (h : n.pollRead serde aes ⟨true⟩ buf e = none) :
    n.waiting e = [] ∧ n.ended e = false := by
  cases e with
  | socket id =>
    simp only [Net.pollRead, ite_eq_right_iff, reduceCtorEq, imp_false, not_or, not_not] at h
    refine ⟨?_, Bool.eq_false_of_not_eq_true h.2⟩
    exact (List.take_eq_nil_iff.mp h.1).resolve_left (by omega)
  | stream conn side r =>
    obtain ⟨s, hs, hd⟩ := stream_of_view hv hlive
    rw [Net.pollRead, hs, Option.bind_some] at h
    by_cases hready : (s.pollRead ⟨true⟩
        (decide ((n.endpoint conn side).streams.get s.streamId ≠ some r)) buf).2.2 = .ready
    · rw [if_pos hready, Option.map_eq_none_iff] at h
      have hcall : (n.call serde aes conn side (.pollRead r ⟨true⟩ buf)).isSome = true :=
        call_isSome hs hd rfl rfl
      rw [h] at hcall
      cases hcall
    · obtain ⟨hwaiting, hclosed⟩ := VirtualStream.waiting_of_pending rfl hroom hready
      refine ⟨?_, ?_⟩
      · simpa [waiting, hs] using hwaiting
      · simpa only [ended, hs, Option.any_some] using hclosed

/-! ## One pipe and one link that are still -/

/-- What a still pipe has done with the ends of one direction. -/
structure Settled (n : Net) (f : List UInt8 → List UInt8) (source target : PipeEnd) : Prop where
  written : n.written target = f (n.taken source)
  waiting : n.waiting source = []
  shut : n.ended source = true → n.shut target = true

theorem Exhausted.waiting (h : n.Exhausted e) (hv : n.view e = some v) (hlive : v.dropped = false)
    (hsound : ∀ conn, (n.pair conn).Sound serde aes (crypto conn)) : n.waiting e = [] := by
  cases e with
  | socket id => exact h.2
  | stream conn side r =>
    obtain ⟨s, hs, -, hhanded⟩ := h
    obtain ⟨s₀, hs₀, hd⟩ := stream_of_view hv hlive
    obtain rfl := Option.some.inj (hs.symm.trans hs₀)
    have hcontent := (((hsound conn).mux side).endpoint.serves r s hs).content hd
    rw [← show s.handed = carried s.streamId ((n.pair conn).mux side).endpoint.arrived
      from hhanded] at hcontent
    simpa [Net.waiting, hs] using hcontent

theorem Still.settled (h : n.Still serde aes ks) (hcarries : n.Carries) (hwhole : n.Whole ks)
    (hsound : ∀ conn, (n.pair conn).Sound serde aes (crypto conn)) (hk : k ∈ ks)
    (hp : n.pipes[k]? = some pipe) (d : Direction) :
    n.Settled (pipe.through d) (pipe.source d) (pipe.target d) := by
  have hreturned := h.running k hk pipe hp
  have hrunning := running_eq_some.mpr ⟨hp, hreturned⟩
  have hsource := hcarries.ends k pipe hp d
  have htarget := hcarries.target_view hp d
  have hidle : n.Idle serde aes (pipe.target d) := h.idle k hk pipe hp d.flip
  have hempty : (pipe.copy d).buffer = [] := by
    by_contra hbuffer
    obtain ⟨size, hsize, hstep⟩ := h.write k hk d
    have hchunk : (pipe.copy d).buffer.take size ≠ [] := fun hn =>
      (List.take_eq_nil_iff.mp hn).elim hsize.ne' hbuffer
    simp only [step, hrunning, Option.bind_some] at hstep
    rw [if_pos hchunk, Option.map_eq_none_iff] at hstep
    exact Option.isSome_iff_ne_none.mp (pollWrite_isSome htarget hreturned hidle _) hstep
  have hread : n.waiting (pipe.source d) = [] ∧
      (n.ended (pipe.source d) = true → (pipe.copy d).readDone = true) := by
    cases hdone : (pipe.copy d).readDone with
    | true =>
      have hexhausted := hwhole.exhausted k hk pipe d hp hdone
      exact ⟨hexhausted.waiting hsource hreturned hsound, fun _ => rfl⟩
    | false =>
      obtain ⟨buf, hroom, hstep⟩ := h.read k hk d
      simp only [step, hrunning, Option.bind_some] at hstep
      rw [if_pos ⟨hdone, hroom⟩, Option.map_eq_none_iff] at hstep
      obtain ⟨hwaiting, hopen⟩ := waiting_of_pollRead_eq_none hsource hreturned hroom hstep
      exact ⟨hwaiting, fun hended => absurd (hopen.symm.trans hended) Bool.false_ne_true⟩
  constructor
  · rw [hcarries.written_target hp d, hcarries.taken_source hp d, hempty, List.append_nil,
      pipe.through_taken]
  · exact hread.1
  · intro hended
    rw [hcarries.shut_target hp d, hreturned, Bool.or_false]
    by_contra hopen
    have hstep := h.shutdown k hk d
    simp only [step, hrunning, Option.bind_some] at hstep
    rw [if_pos ⟨hread.2 hended, hempty, Bool.eq_false_of_not_eq_true hopen⟩,
      Option.map_eq_none_iff] at hstep
    exact Option.isSome_iff_ne_none.mp (pollShutdown_isSome htarget hreturned) hstep

theorem Idle.drained {conn : ℕ} {side : Side} {r : StreamRef}
    (h : n.Idle serde aes (.stream conn side r)) :
    (n.pair conn).Drained side := by
  have hturn : ∀ event, calledEnd conn event = none → emptyWrite event = false →
      n.step serde aes (.mux conn event) = none → (n.pair conn).step serde aes event = none := by
    intro event hcalled hempty hstep
    rwa [step, hcalled, hempty, Option.any_none, if_neg (by simp), Option.map_eq_none_iff] at hstep
  obtain ⟨hwriter, -, hwrite, -⟩ := h side.other
  obtain ⟨-, hreader, -, hread⟩ := h side
  constructor
  · exact hwriter
  · have hwrite := hturn (.writeLoop side.other) rfl rfl hwrite
    rw [Pair.step, Option.map_eq_none_iff] at hwrite
    exact MuxConnection.outbound_of_writeLoop hwrite
  · have hread := hturn (.readLoop side) rfl rfl hread
    cases hwire : (n.pair conn).wire side.other with
    | nil => rfl
    | cons message rest => simp [Pair.step, hwire, hreader] at hread
  · exact hreader

theorem Linked.settled (hlinked : n.Linked e e')
    (hsound : ∀ conn, (n.pair conn).Sound serde aes (crypto conn)) (hidle : n.Idle serde aes e')
    (hv : n.view e' = some v) (hlive : v.dropped = false) (hwaiting : n.waiting e' = []) :
    n.taken e' = n.written e ∧ (n.shut e = true → n.ended e' = true) := by
  cases hlinked with
  | @streams conn side r r' s s' hpeer hown hid =>
    obtain ⟨s₀, hs₀, hd⟩ := stream_of_view hv hlive
    obtain rfl := Option.some.inj (hown.symm.trans hs₀)
    have hdrained := hidle.drained
    have hserves := ((hsound conn).mux side).endpoint.serves r s hown
    have hother := ((hsound conn).mux side.other).endpoint.serves r' s' hpeer
    rw [taken_stream hown, written_stream hpeer, shut_stream hpeer]
    constructor
    · have hall := ((hsound conn).streamCorrect hown).drained hd hdrained s' ⟨r', hpeer, hid⟩
      have hnone : s.waiting = [] := by simpa [Net.waiting, hown] using hwaiting
      rwa [hnone, List.append_nil] at hall
    · intro hclosed
      have hclose : .close s.streamId ∈ ((n.pair conn).mux side).endpoint.arrived := by
        rw [(hsound conn).arrived_of_drained hdrained, ← hid]
        exact (hother.closed hclosed).resolve_right fun hw =>
          Bool.false_ne_true (hw.symm.trans hdrained.writer)
      have hentry := hserves.entry hd
      rw [if_pos hclose] at hentry
      have hentry' : (n.endpoint conn side).streams.get s.streamId = none := hentry
      simp [ended, hown, hentry']

theorem Route.settled (hroute : n.Route a js f b) (hsub : js ⊆ ks) (h : n.Still serde aes ks)
    (hcarries : n.Carries) (hwhole : n.Whole ks)
    (hsound : ∀ conn, (n.pair conn).Sound serde aes (crypto conn)) :
    n.Settled f a b := by
  induction hroute with
  | pipe hp hsource =>
    rw [← hsource]
    exact h.settled hcarries hwhole hsound (hsub List.mem_cons_self) hp _
  | @link js f e k pipe d _ hp hlinked ih =>
    have hk : k ∈ ks := hsub (by simp)
    have hbefore := ih fun j hj => hsub (List.mem_append_left _ hj)
    have hlast := h.settled hcarries hwhole hsound hk hp d
    obtain ⟨htaken, hended⟩ :=
      hlinked.settled hsound (h.idle k hk pipe hp d) (hcarries.ends k pipe hp d)
      (h.running k hk pipe hp) hlast.waiting
    constructor
    · rw [hlast.written, htaken, hbefore.written]
      rfl
    · exact hbefore.waiting
    · exact fun he => hlast.shut (hended (hbefore.shut he))

/-- When nothing can move along a tunnel, everything that came to its near end is out at its far
end, which is shut down if nothing more will come. -/
theorem run_route_settled (hserde : serde.Inverts) (haes : aes.Ideal)
    {ms : List (Move Net NetEvent)} (hrun : Run (Net.step serde aes) (start crypto) ms n)
    (hbound : n.Bounded) (horderly : ∀ m ∈ ms, Orderly ks m) (hroute : n.Route a ks f b)
    (h : n.Still serde aes ks) : n.Settled f a b :=
  hroute.settled (List.Subset.refl ks) h (run_carries hserde haes hrun hbound)
    (run_whole hserde haes hrun hbound horderly)
      (pair_sound hserde haes (run_continues hrun) hbound)

/-- A check of an end that finds the loops of its connection idle. -/
def idles (serde : SerdeSlice) (aes : AesGcm) (n : Net) : PipeEnd → Bool
  | .socket _ => true
  | .stream conn _ _ => [Side.odd, .even].all fun side =>
      (n.endpoint conn side).writerOpen && ((n.pair conn).mux side).readerOpen &&
        (n.step serde aes (.mux conn (.writeLoop side))).isNone &&
          (n.step serde aes (.mux conn (.readLoop side))).isNone

/-- A check of some pipes that finds nothing to move. -/
def stuck (serde : SerdeSlice) (aes : AesGcm) (n : Net) (ks : List ℕ) : Bool :=
  ks.all fun k => ((n.pipes[k]?).all fun pipe => !pipe.returned) && [Direction.forth, .back].all
    fun d =>
    ((n.pipes[k]?).all fun pipe => n.idles serde aes (pipe.source d)) &&
      (n.step serde aes (.read k d ⟨true⟩ ⟨1, []⟩)).isNone &&
      (n.step serde aes (.write k d 1)).isNone && (n.step serde aes (.shutdown k d)).isNone

theorem idle_of_idles (h : n.idles serde aes e = true) : n.Idle serde aes e := by
  cases e with
  | socket id => trivial
  | stream conn side r =>
    intro side'
    have hside := List.all_eq_true.mp h side' (by cases side' <;> simp)
    simp only [Bool.and_eq_true, Option.isNone_iff_eq_none] at hside
    exact ⟨hside.1.1.1, hside.1.1.2, hside.1.2, hside.2⟩

theorem still_of_stuck (h : n.stuck serde aes ks = true) : n.Still serde aes ks := by
  have hmoves :
      ∀ k ∈ ks, ∀ d, ((n.pipes[k]?).all fun pipe => n.idles serde aes (pipe.source d)) = true ∧
      n.step serde aes (.read k d ⟨true⟩ ⟨1, []⟩) = none ∧ n.step serde aes (.write k d 1) = none ∧
      n.step serde aes (.shutdown k d) = none := by
    intro k hk d
    have hd :=
      List.all_eq_true.mp (Bool.and_eq_true_iff.mp (List.all_eq_true.mp h k hk)).2 d
        (by cases d <;> simp)
    simp only [Bool.and_eq_true, Option.isNone_iff_eq_none] at hd
    exact ⟨hd.1.1.1, hd.1.1.2, hd.1.2, hd.2⟩
  constructor
  · intro k hk pipe hp
    have hrunning := (Bool.and_eq_true_iff.mp (List.all_eq_true.mp h k hk)).1
    simpa [hp] using hrunning
  · intro k hk pipe hp d
    have hidles := (hmoves k hk d).1
    rw [hp, Option.all_some] at hidles
    exact idle_of_idles hidles
  · exact fun k hk d => ⟨⟨1, []⟩, by decide, (hmoves k hk d).2.1⟩
  · exact fun k hk d => ⟨1, by decide, (hmoves k hk d).2.2.1⟩
  · exact fun k hk d => (hmoves k hk d).2.2.2

theorem run_route_settled_of_visited : atTarget.Settled id (.socket 0) (.socket 1) := by
  have hstuck : atTarget.stuck .plain namedCipher [0, 1, 2] = true := by decide +kernel
  exact run_route_settled SerdeSlice.plain_inverts namedCipher_ideal run_atTarget bounded_atTarget
    orderly_visited
    route_atTarget (still_of_stuck hstuck)

end Net

end NodeAccess.Tunnel
