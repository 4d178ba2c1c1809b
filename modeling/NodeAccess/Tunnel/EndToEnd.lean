import NodeAccess.Mux.Payloads
import NodeAccess.Mux.ReadContract
import NodeAccess.Tunnel.Invariant

/-! # Tunnels

A tunnel goes from an end that a pipe reads to an end that a pipe writes, over any number of
pipes, each of which reads the stream to which the one before it writes. What comes out of a
tunnel is the beginning of what went into it. It is all of it when the far end is shut down, as
long as no pipe of the tunnel breaks off. A pipe of `serve_socks5` leaves out the request and puts
the answers first.
-/

namespace NodeAccess.Tunnel

open Foundation Crypto Mux

/-- The target has what it was given before the pipe, and then what the source has
given out since. -/
def Pipe.through (pipe : Pipe) (d : Direction) (bytes : List UInt8) : List UInt8 :=
  (pipe.earlier d.flip).written ++ bytes.drop (pipe.earlier d).taken.length

theorem Pipe.through_mono (pipe : Pipe) (d : Direction) {l l' : List UInt8} (h : l <+: l') :
    pipe.through d l <+: pipe.through d l' :=
  (List.prefix_append_right_inj _).mpr (h.drop _)

theorem Pipe.through_taken (pipe : Pipe) (d : Direction) (bytes : List UInt8) :
    pipe.through d ((pipe.earlier d).taken ++ bytes) = (pipe.earlier d.flip).written ++ bytes := by
  rw [through, List.drop_left]

namespace Net

def taken (n : Net) (e : PipeEnd) : List UInt8 := (n.view e).elim [] EndView.taken

def written (n : Net) (e : PipeEnd) : List UInt8 := (n.view e).elim [] EndView.written

def shut (n : Net) (e : PipeEnd) : Bool := (n.view e).elim false EndView.shut

/-- The bytes that wait at an end for its reader. -/
def waiting (n : Net) : PipeEnd → List UInt8
  | .socket id => (n.socket id).incoming
  | .stream conn side ref => (n.stream conn side ref).elim [] VirtualStream.waiting

/-- No more bytes will come to an end. -/
def ended (n : Net) : PipeEnd → Bool
  | .socket id => (n.socket id).finished
  | .stream conn side ref => (n.stream conn side ref).any fun s =>
      (n.endpoint conn side).streams.get s.streamId ≠ some ref

/-- The buffer of a poll is empty, or the end does not pause: bytes wait and the task has budget to
find them, or the end has come. -/
def Polls (n : Net) (e : PipeEnd) (cx : TaskContext) (buf : ReadBuf) : Prop :=
  buf.filled = [] ∨ cx.budget = true ∧ n.waiting e ≠ [] ∨ n.ended e = true ∧ n.waiting e = []

/-- The last byte of an end has come and has been read. -/
def Exhausted (n : Net) : PipeEnd → Prop
  | .socket id => (n.socket id).finished = true ∧ (n.socket id).incoming = []
  | .stream conn side ref => ∃ s, n.stream conn side ref = some s ∧
      .close s.streamId ∈ (n.endpoint conn side).arrived ∧
      s.handed = carried s.streamId (n.endpoint conn side).arrived

/-- Two streams of one id, at the two ends of a connection. -/
inductive Linked (n : Net) : PipeEnd → PipeEnd → Prop
  | streams {conn : ℕ} {side : Side} {r r' : StreamRef} {s s' : VirtualStream}
      (peer : n.stream conn side.other r' = some s') (own : n.stream conn side r = some s)
      (id : s'.streamId = s.streamId) : Linked n (.stream conn side.other r') (.stream conn side r)

/-- A tunnel from one end to another, with the pipes that it goes through and what they make of the
bytes of the first end. -/
inductive Route (n : Net) (a : PipeEnd) : List ℕ → (List UInt8 → List UInt8) → PipeEnd → Prop
  | pipe {k : ℕ} {pipe : Pipe} {d : Direction} (pipes : n.pipes[k]? = some pipe)
      (source : pipe.source d = a) : Route n a [k] (pipe.through d) (pipe.target d)
  | link {ks : List ℕ} {f : List UInt8 → List UInt8} {e : PipeEnd} {k : ℕ} {pipe : Pipe}
      {d : Direction}
      (before : Route n a ks f e) (pipes : n.pipes[k]? = some pipe)
        (linked : Linked n e (pipe.source d)) :
      Route n a (ks ++ [k]) (pipe.through d ∘ f) (pipe.target d)

variable {serde : SerdeSlice} {aes : AesGcm} {crypto : ℕ → Side → Option FrameCrypto} {n n' : Net}
  {a b e e' : PipeEnd} {ks : List ℕ} {f : List UInt8 → List UInt8} {k : ℕ} {pipe : Pipe}
    {d : Direction}

/-! ## One pipe and one link -/

theorem Carries.taken_source (h : n.Carries) (hk : n.pipes[k]? = some pipe) (d : Direction) :
    n.taken (pipe.source d) = (pipe.earlier d).taken ++
      ((pipe.copy d).moved ++ (pipe.copy d).buffer) := by
  rw [taken, h.ends k pipe hk d]
  rfl

theorem Carries.written_target (h : n.Carries) (hk : n.pipes[k]? = some pipe) (d : Direction) :
    n.written (pipe.target d) = (pipe.earlier d.flip).written ++ (pipe.copy d).moved := by
  rw [written, h.target_view hk d, Option.elim_some, Pipe.endView, d.flip_flip]

theorem Carries.shut_target (h : n.Carries) (hk : n.pipes[k]? = some pipe) (d : Direction) :
    n.shut (pipe.target d) = ((pipe.copy d).shut || pipe.returned) := by
  rw [shut, h.target_view hk d, Option.elim_some, Pipe.endView, d.flip_flip]

theorem taken_stream {conn : ℕ} {side : Side} {r : StreamRef} {s : VirtualStream}
    (hs : n.stream conn side r = some s) : n.taken (.stream conn side r) = s.handed := by
  rw [taken, view, hs]
  rfl

theorem written_stream {conn : ℕ} {side : Side} {r : StreamRef} {s : VirtualStream}
    (hs : n.stream conn side r = some s) : n.written (.stream conn side r) = s.written := by
  rw [written, view, hs]
  rfl

theorem shut_stream {conn : ℕ} {side : Side} {r : StreamRef} {s : VirtualStream}
    (hs : n.stream conn side r = some s) : n.shut (.stream conn side r) = s.sentClose := by
  rw [shut, view, hs]
  rfl

theorem Linked.begins (h : n.Linked e e')
    (hsound : ∀ conn, (n.pair conn).Sound serde aes (crypto conn)) :
    n.taken e' <+: n.written e := by
  cases h with
  | @streams conn side r r' s s' hpeer hown hid =>
    rw [taken_stream hown, written_stream hpeer]
    exact ((hsound conn).streamCorrect hown).handed s' ⟨r', hpeer, hid⟩

theorem Linked.complete (h : n.Linked e e')
    (hsound : ∀ conn, (n.pair conn).Sound serde aes (crypto conn)) (he : n.Exhausted e') :
    n.shut e = true ∧ n.taken e' = n.written e := by
  cases h with
  | @streams conn side r r' s s' hpeer hown hid =>
    obtain ⟨s₀, hs₀, hclose, hhanded⟩ := he
    obtain rfl := Option.some.inj (hown.symm.trans hs₀)
    have hserves := ((hsound conn).mux side.other).endpoint.serves r' s' hpeer
    have hheard := (hsound conn).heard side
    rw [shut_stream hpeer, taken_stream hown, written_stream hpeer]
    constructor
    · by_contra hn
      apply hserves.unclosed (Bool.eq_false_of_not_eq_true hn)
      rw [hid]
      exact hheard.subset hclose
    · rw [hhanded, hserves.written, hid]
      exact carried_eq_of_close hheard hclose

theorem Route.begins (h : n.Route a ks f b)
    (hsound : ∀ conn, (n.pair conn).Sound serde aes (crypto conn)) (hcarries : n.Carries) :
    n.written b <+: f (n.taken a) := by
  have hpipe : ∀ {k : ℕ} {pipe : Pipe} (d : Direction), n.pipes[k]? = some pipe →
      n.written (pipe.target d) <+: pipe.through d (n.taken (pipe.source d)) := by
    intro k pipe d hk
    rw [hcarries.written_target hk d, hcarries.taken_source hk d, pipe.through_taken,
      List.prefix_append_right_inj]
    exact List.prefix_append _ _
  induction h with
  | @pipe k pipe d hk hsource =>
    rw [← hsource]
    exact hpipe d hk
  | @link ks f e k pipe d _ hk hlinked ih =>
    exact (hpipe d hk).trans (pipe.through_mono d ((hlinked.begins hsound).trans ih))

/-- What a tunnel has put out at its far end is the beginning of what its pipes make of all that it
has taken in. -/
theorem run_route_begins (hserde : serde.Inverts) (haes : aes.Ideal) {ms : List (Move Net NetEvent)}
    (hrun : Run (step serde aes) (start crypto) ms n) (hbound : n.Bounded) (h : n.Route a ks f b) :
    n.written b <+: f (n.taken a) :=
  h.begins (pair_sound hserde haes (run_continues hrun) hbound)
    (run_carries hserde haes hrun hbound)

/-- A pipe of two ends that no one had used. -/
def joins (n : Net) (k : ℕ) (d : Direction) (a b : PipeEnd) : Bool :=
  (n.pipes[k]?).any fun pipe => pipe.source d = a && pipe.target d = b &&
    (pipe.earlier d).taken = [] && (pipe.earlier d.flip).written = []

theorem exists_of_joins (h : n.joins k d a b = true) : ∃ pipe, n.pipes[k]? = some pipe ∧
    pipe.source d = a ∧
    pipe.target d = b ∧ pipe.through d = id := by
  obtain ⟨pipe, hp, h⟩ := (Option.any_eq_true _ _).mp h
  simp only [Bool.and_eq_true, decide_eq_true_eq] at h
  obtain ⟨⟨⟨hsource, htarget⟩, htaken⟩, hwritten⟩ := h
  refine ⟨pipe, hp, hsource, htarget, ?_⟩
  funext bytes
  rw [Pipe.through, htaken, hwritten]
  rfl

theorem Route.single (h : n.joins k d a b = true) : n.Route a [k] id b := by
  obtain ⟨pipe, hp, rfl, rfl, hf⟩ := exists_of_joins h
  exact hf ▸ .pipe hp rfl

theorem Route.extend (before : n.Route a ks id e) (hlinked : n.Linked e e')
    (h : n.joins k d e' b = true) :
    n.Route a (ks ++ [k]) id b := by
  obtain ⟨pipe, hp, rfl, rfl, hf⟩ := exists_of_joins h
  have hroute := Route.link before hp hlinked
  rwa [hf] at hroute

theorem Route.prepend (h : n.joins k d b e') (hlinked : n.Linked e' e) (after : n.Route e ks f a) :
    n.Route b (k :: ks) f a := by
  induction after with
  | @pipe k' pipe d' hp hsource => exact .link (.single h) hp (hsource ▸ hlinked)
  | @link ks f e₀ k' pipe d' before hp hlinked' ih => exact .link ih hp hlinked'

theorem Linked.of_ids {conn : ℕ} {side : Side} {r r' : StreamRef} {i : UInt32}
    (hpeer : (n.stream conn side.other r').map VirtualStream.streamId = some i)
    (hown : (n.stream conn side r).map VirtualStream.streamId = some i) :
    n.Linked (.stream conn side.other r') (.stream conn side r) := by
  obtain ⟨s', hs', hid'⟩ := Option.map_eq_some_iff.mp hpeer
  obtain ⟨s, hs, hid⟩ := Option.map_eq_some_iff.mp hown
  exact .streams hs' hs (hid'.trans hid.symm)

/-- A message goes over a connection. -/
def passed (conn : ℕ) (side : Side) : List NetEvent :=
  [.mux conn (.writeLoop side), .mux conn (.readLoop side.other)]

/-- A pipe brings some bytes and then the end of its source. -/
def copied (k size : ℕ) : List NetEvent :=
  [.read k .forth ⟨true⟩ ⟨size, []⟩, .write k .forth size, .read k .forth ⟨true⟩ ⟨size, []⟩,
    .shutdown k .forth]

/-- The access node joins a local program to a stream, which the relay node joins to a stream of the
serving node, which joins it to its target. -/
def visited : List NetEvent :=
  [.mux 0 (.call .odd (.openBegin (.visit "web" none))),
    .mux 0 (.call .odd (.openFinish 1 (.visit "web" none)))] ++
    passed 0 .odd ++
    [.mux 1 (.call .even (.openBegin (.providerConnect "web"))),
      .mux 1 (.call .even (.openFinish 2 (.providerConnect "web")))] ++
    passed 1 .even ++
    [.pipe (.socket 0) (.stream 0 .odd 0), .pipe (.stream 0 .even 0) (.stream 1 .even 0),
      .pipe (.stream 1 .odd 0) (.socket 1), .arrive 0 [104, 105], .finish 0] ++
    copied 0 2 ++ passed 0 .odd ++ passed 0 .odd ++ copied 1 2 ++ passed 1 .even ++
      passed 1 .even ++ copied 2 2

def atTarget : Net := outcome (step .plain namedCipher) (start fun _ _ => none) visited

theorem run_atTarget : Run (step .plain namedCipher) (start fun _ _ => none)
    (history (step .plain namedCipher) (start fun _ _ => none) visited) atTarget := by
  have hplay :
      (play (step .plain namedCipher) (start fun _ _ => none) visited).isSome =
        true := by decide +kernel
  exact Run.of_outcome hplay

theorem bounded_atTarget : atTarget.Bounded := by
  apply run_bounded run_atTarget
  decide +kernel

theorem route_atTarget : atTarget.Route (.socket 0) [0, 1, 2] id (.socket 1) := by
  have hvisitor : atTarget.Linked (.stream 0 Side.even.other 0) (.stream 0 .even 0) :=
    .of_ids (i := 1) (by decide +kernel) (by decide +kernel)
  have hprovider : atTarget.Linked (.stream 1 Side.odd.other 0) (.stream 1 .odd 0) :=
    .of_ids (i := 2) (by decide +kernel) (by decide +kernel)
  refine Route.extend (d := .forth)
    (Route.extend (d := .forth) (Route.single (d := .forth) ?_) hvisitor ?_) hprovider ?_
  · decide +kernel
  · decide +kernel
  · decide +kernel

theorem run_route_begins_of_visited :
    atTarget.written (.socket 1) <+: id (atTarget.taken (.socket 0)) :=
  run_route_begins SerdeSlice.plain_inverts namedCipher_ideal run_atTarget bounded_atTarget
    route_atTarget

/-! ## Ends whose last byte has been read -/

/-- A socket that has been read to its end stays so. -/
def KeepsEnds (n n' : Net) : Prop :=
  ∀ id, n.Exhausted (.socket id) → n'.Exhausted (.socket id)

theorem respects_keepsEnds : Respects serde aes KeepsEnds where
  same _ hsocket id h := by
    rwa [Exhausted, hsocket]
  trans h h' id he := h' id (h id he)
  socket := by
    intro q id s hbefore id' he
    by_cases hid : id' = id
    · subst hid
      have hs := hbefore he.1
      simpa [Exhausted, setSocket] using ⟨hs.1, hs.2 he.2⟩
    · simpa [Exhausted, setSocket, Function.update_of_ne hid] using he
  call := by
    intro q q' conn side event r _ _ hcall
    obtain ⟨p, -, -, rfl, -⟩ := call_eq_some hcall
    exact fun _ he => he

theorem keepsEnds_step {event : NetEvent} (h : n.step serde aes event = some n') : n.KeepsEnds n' :=
  respects_keepsEnds.step (fun _ _ _ _ _ _ _ he => he) h

theorem Exhausted.continues (hserde : serde.Inverts) (haes : aes.Ideal) (h : n.Exhausted e)
    (hbefore : (start crypto).Continues serde aes n) (hc : n.Continues serde aes n')
    (hends : n.KeepsEnds n') (hbound : n'.Bounded) : n'.Exhausted e := by
  cases e with
  | socket id => exact hends id h
  | stream conn side r =>
    obtain ⟨s, hs, hclose, hhanded⟩ := h
    obtain ⟨ns, hrun₀, -⟩ := hbefore conn
    obtain ⟨ms, hrun, -⟩ := hc conn
    obtain ⟨s', hs', hid, hmore⟩ := Pair.run_handed hserde haes hrun₀ hrun (hbound conn) hs
    have harrived := Pair.run_arrived hrun side
    have hserves :=
      ((pair_sound hserde haes (hbefore.trans hc) hbound conn).mux side).endpoint.serves r s' hs'
    have hcarried : s.handed = carried s'.streamId ((n'.pair conn).mux side).endpoint.arrived := by
      rw [hid, hhanded]
      exact carried_eq_of_close harrived hclose
    refine ⟨s', hs', hid ▸ harrived.subset hclose, ?_⟩
    have hless := hserves.handed
    rw [← hcarried] at hless
    exact (hless.eq_of_length_le hmore.length_le).trans hcarried

theorem inbound_full (hserde : serde.Inverts) (haes : aes.Ideal)
    (hc : (start crypto).Continues serde aes n) (hbound : n.Bounded) {conn : ℕ} {side : Side}
    {r : StreamRef} {s : VirtualStream} (hs : n.stream conn side r = some s) : [] ∉ s.inbound := by
  obtain ⟨ms, hrun, hms⟩ := hc conn
  have hfull : ∀ m ∈ ms, ∀ side r, m.event ≠ .call side (.pollWrite r []) := by
    intro m hm side r he
    have hempty := hms m hm
    rw [he] at hempty
    cases hempty
  exact (pair_sound hserde haes hc hbound conn).inbound_full (Pair.run_heard hrun side)
    (Pair.run_full hrun hfull side.other) hs

/-- A poll into an empty buffer, or of an end that does not pause, gives nothing only at the end. -/
theorem exhausted_of_read (hserde : serde.Inverts) (haes : aes.Ideal)
    (hc : (start crypto).Continues serde aes n) (hbound : n.Bounded) {cx : TaskContext}
    {buf : ReadBuf} (hpolls : n.Polls e cx buf) (hroom : 0 < buf.remaining)
    (hread : n.pollRead serde aes cx buf e = some (n', [])) : n.Exhausted e := by
  cases e with
  | socket id =>
    simp only [Net.pollRead] at hread
    split_ifs at hread with hready
    have hempty := (Prod.mk.inj (Option.some.inj hread)).2
    refine ⟨hready.resolve_left fun hne => hne hempty, ?_⟩
    exact (List.take_eq_nil_iff.mp hempty).resolve_left (by omega)
  | stream conn side r =>
    obtain ⟨s, hs, hread⟩ := Option.bind_eq_some_iff.mp hread
    obtain ⟨hready, hread⟩ := Option.ite_none_right_eq_some.mp hread
    obtain ⟨next, hcall, he⟩ := Option.map_eq_some_iff.mp hread
    have hgiven := (Prod.mk.inj he).2
    set closed := decide ((n.endpoint conn side).streams.get s.streamId ≠ some r) with hclosed
    have hfilled : (s.pollRead cx closed buf).2.1.filled = buf.filled := by
      obtain ⟨more, hmore⟩ := (s.pollRead_spec cx closed buf).1
      rw [← hmore, List.drop_left] at hgiven
      rw [← hmore, hgiven, List.append_nil]
    obtain ⟨p, endpoint, -, -, hstep, -⟩ := call_eq_some hcall
    obtain ⟨s₀, hlive, -⟩ := Option.map_eq_some_iff.mp hstep
    obtain ⟨hs₀, hdropped⟩ := Endpoint.live_eq_some.mp hlive
    obtain rfl := Option.some.inj (hs.symm.trans hs₀)
    have hend : ¬ s.FalseEnd cx closed buf := by
      rintro ⟨-, hbuffer, hmore, hnext⟩
      have hwaits : n.waiting (.stream conn side r) = s.inbound.flatten := by
        simp [waiting, hs, VirtualStream.waiting, hbuffer]
      have hempty : (cx.budget = true → s.inbound = []) → False := by
        intro hidle
        have hsome : buf.filled ≠ [] := by
          cases hbudget : cx.budget with
          | true => simpa [hbudget, hidle hbudget] using hnext
          | false => simpa [hbudget] using hnext
        rcases hpolls with hnone | ⟨hbudget, hwaiting⟩ | ⟨hended, hwaiting⟩
        · exact hsome hnone
        · simp [hwaits, hidle hbudget] at hwaiting
        · simp only [ended, hs, Option.any_some] at hended
          exact hmore ⟨hended, hwaits.symm.trans hwaiting⟩
      cases hi : s.inbound with
      | nil => exact hempty fun _ => hi
      | cons payload rest =>
        cases hbudget : cx.budget with
        | false => exact hempty fun hb => absurd (hbudget.symm.trans hb) Bool.false_ne_true
        | true =>
          rw [hbudget, hi] at hnext
          apply inbound_full hserde haes hc hbound hs
          rw [hi, hnext]
          exact List.mem_cons_self
    have hlast : closed = true ∧ s.waiting = [] := by
      by_contra hmore
      exact hend ((VirtualStream.ready_empty_iff hroom).mp ⟨hready, hfilled, hmore⟩)
    have hserves : (n.endpoint conn side).Serves r s :=
      ((pair_sound hserde haes hc hbound conn).mux side).endpoint.serves r s hs
    refine ⟨s, hs, ?_, ?_⟩
    · by_contra hopen
      apply of_decide_eq_true hlast.1
      rw [hserves.entry hdropped, if_neg hopen]
    · have hcontent := hserves.content hdropped
      rwa [hlast.2, List.append_nil] at hcontent

/-! ## Tunnels whose pipes do not break off -/

end Net

namespace Pipe

variable {pipe : Pipe} {d d' : Direction} {copy : CopyBuffer}

theorem setCopy_copy_of_ne (h : d' ≠ d) : (pipe.setCopy d copy).copy d' = pipe.copy d' :=
  Function.update_of_ne h _ _

theorem readDone_setCopy (h : copy.readDone = (pipe.copy d).readDone) :
    ((pipe.setCopy d copy).copy d').readDone = (pipe.copy d').readDone := by
  by_cases hd : d' = d
  · rw [hd, setCopy_copy_self, h]
  · rw [setCopy_copy_of_ne hd]

end Pipe

namespace Net

variable {serde : SerdeSlice} {aes : AesGcm} {crypto : ℕ → Side → Option FrameCrypto} {n n' : Net}
  {a b : PipeEnd} {ks js : List ℕ} {f : List UInt8 → List UInt8} {k : ℕ} {pipe : Pipe}

/-- These pipes do not poll an end that pauses into a buffer that holds something, and return only
when both directions have been shut down. -/
def Orderly (ks : List ℕ) (m : Move Net NetEvent) : Prop :=
  match m.event with
  | .read k d cx buf => k ∈ ks → ∀ pipe, m.before.pipes[k]? = some pipe →
      m.before.Polls (pipe.source d) cx buf
  | .leave k => k ∈ ks → ∀ pipe, m.before.pipes[k]? = some pipe → ∀ d, (pipe.copy d).shut = true
  | _ => True

structure Whole (n : Net) (ks : List ℕ) : Prop where
  exhausted : ∀ k ∈ ks, ∀ (pipe : Pipe) (d : Direction), n.pipes[k]? = some pipe →
    (pipe.copy d).readDone = true → n.Exhausted (pipe.source d)
  returned : ∀ k ∈ ks, ∀ pipe : Pipe, n.pipes[k]? = some pipe → pipe.returned = true →
    ∀ d, (pipe.copy d).shut = true

theorem Whole.quiet (h : n.Whole ks) (hpipes : n'.pipes = n.pipes)
    (hends : ∀ e, n.Exhausted e → n'.Exhausted e) : n'.Whole ks := by
  constructor
  · intro k hk pipe d hp hdone
    rw [hpipes] at hp
    exact hends _ (h.exhausted k hk pipe d hp hdone)
  · intro k hk pipe hp
    rw [hpipes] at hp
    exact h.returned k hk pipe hp

theorem Whole.works (h : n.Whole ks) {pipe' : Pipe} (hw : n.Works n' k pipe pipe')
    (hends : ∀ e, n.Exhausted e → n'.Exhausted e)
    (hdone : k ∈ ks → ∀ d, (pipe'.copy d).readDone = true →
      (pipe.copy d).readDone = true ∨ n.Exhausted (pipe.source d))
    (hreturned : k ∈ ks → pipe'.returned = true → ∀ d, (pipe'.copy d).shut = true) :
      n'.Whole ks := by
  constructor
  · intro j hj p d hp hd
    rcases hw.getElem? hp with ⟨rfl, rfl⟩ | ⟨-, hp⟩
    · rw [hw.source]
      apply hends
      rcases hdone hj d hd with hd | he
      · exact h.exhausted j hj pipe d (running_eq_some.mp hw.running).1 hd
      · exact he
    · exact hends _ (h.exhausted j hj p d hp hd)
  · intro j hj p hp
    rcases hw.getElem? hp with ⟨rfl, rfl⟩ | ⟨-, hp⟩
    · exact hreturned hj
    · exact h.returned j hj p hp

theorem Whole.join (h : n.Whole ks) (left right : PipeEnd) (v w : EndView) :
    Whole { n with pipes := n.pipes ++ [.new left right v w] } ks := by
  constructor
  · intro k hk pipe d hp hdone
    rcases getElem?_join hp with hp | ⟨-, rfl⟩
    · exact h.exhausted k hk pipe d hp hdone
    · cases hdone
  · intro k hk pipe hp hreturned
    rcases getElem?_join hp with hp | ⟨-, rfl⟩
    · exact h.returned k hk pipe hp hreturned
    · cases hreturned

theorem Whole.step (h : n.Whole ks) (hcarries : n.Carries) {event : NetEvent}
    (href : ∀ q, n.Continues serde aes q → q.Continues serde aes n' → q.Referenced)
    (hends : ∀ e, n.Exhausted e → n'.Exhausted e)
    (hread : ∀ {e : PipeEnd} {cx : TaskContext} {buf : ReadBuf} {n₁ : Net}, n.Polls e cx buf →
      0 < buf.remaining → n.pollRead serde aes cx buf e = some (n₁, []) → n.Exhausted e)
    (hs : n.step serde aes event = some n') (horderly : Orderly ks ⟨n, event, n'⟩) :
      n'.Whole ks := by
  have href₀ := href n (.of_same rfl) (continues_step hs)
  cases event with
  | mux conn event =>
    simp only [Net.step] at hs
    split_ifs at hs
    obtain ⟨p, -, rfl⟩ := Option.map_eq_some_iff.mp hs
    exact h.quiet rfl hends
  | arrive id bytes =>
    simp only [Net.step] at hs
    split_ifs at hs
    obtain rfl := Option.some.inj hs
    exact h.quiet rfl hends
  | finish id =>
    obtain rfl := Option.some.inj hs
    exact h.quiet rfl hends
  | pipe left right =>
    obtain ⟨v, w, -, -, -, rfl⟩ := step_pipe hs
    exact h.join left right v w
  | drop e => exact h.quiet (touches_dropEnd href₀ (step_drop hs).2).pipes hends
  | read k d cx buf =>
    obtain ⟨pipe, n₁, given, -, hroom, hpoll, hw⟩ := hcarries.read href₀ hs
    obtain ⟨hp, hrunning⟩ := running_eq_some.mp hw.running
    refine h.works hw hends ?_ ?_
    · intro hk d' hd
      by_cases hdir : d' = d
      · subst hdir
        rw [Pipe.setCopy_copy_self] at hd
        rw [of_decide_eq_true hd] at hpoll
        exact .inr (hread (horderly hk pipe hp) hroom hpoll)
      · rw [Pipe.setCopy_copy_of_ne hdir] at hd
        exact .inl hd
    · intro _ hreturned
      exact absurd (hrunning.symm.trans hreturned) Bool.false_ne_true
  | write k d size =>
    obtain ⟨pipe, -, hw⟩ := hcarries.write href₀ hs
    obtain ⟨-, hrunning⟩ := running_eq_some.mp hw.running
    refine h.works hw hends ?_ ?_
    · intro _ d' hd
      refine .inl ((Pipe.readDone_setCopy ?_).symm.trans hd)
      rfl
    · intro _ hreturned
      exact absurd (hrunning.symm.trans hreturned) Bool.false_ne_true
  | shutdown k d =>
    obtain ⟨pipe, -, hw⟩ := hcarries.shutdown href₀ hs
    obtain ⟨-, hrunning⟩ := running_eq_some.mp hw.running
    refine h.works hw hends ?_ ?_
    · intro _ d' hd
      refine .inl ((Pipe.readDone_setCopy ?_).symm.trans hd)
      rfl
    · intro _ hreturned
      exact absurd (hrunning.symm.trans hreturned) Bool.false_ne_true
  | leave k =>
    obtain ⟨pipe, hw⟩ := hcarries.leave href hs
    refine h.works hw hends (fun _ d hd => .inl hd) ?_
    intro hk _
    exact horderly hk pipe (running_eq_some.mp hw.running).1

theorem run_whole (hserde : serde.Inverts) (haes : aes.Ideal) {ms : List (Move Net NetEvent)}
    (hrun : Run (Net.step serde aes) (start crypto) ms n) (hbound : n.Bounded)
    (horderly : ∀ m ∈ ms, Orderly ks m) : n.Whole ks := by
  apply hrun.guarded (C := Orderly ks) (P := fun n => n.Bounded → n.Whole ks) horderly _ _ hbound
  · intro _
    constructor
    · intro k _ pipe d hp
      cases hp
    · intro k _ pipe hp
      cases hp
  · intro ns u event v hrun hu hs hm hb
    have hstep := continues_step hs
    have hb' := hb.of_continues hstep
    have hbefore := run_continues hrun
    refine (hu hb').step (run_carries hserde haes hrun hb') ?_ ?_ ?_ hs hm
    · exact fun q hq hq' => referenced hserde haes (hbefore.trans hq) (hb.of_continues hq')
    · exact fun e he => he.continues hserde haes hbefore hstep (keepsEnds_step hs) hb
    · exact exhausted_of_read hserde haes hbefore hb'

theorem Whole.complete (h : n.Whole ks) (hcarries : n.Carries) (hk : k ∈ ks)
    (hp : n.pipes[k]? = some pipe) {d : Direction} (hshut : n.shut (pipe.target d) = true) :
    n.written (pipe.target d) = pipe.through d (n.taken (pipe.source d)) ∧
      n.Exhausted (pipe.source d) := by
  rw [hcarries.shut_target hp d, Bool.or_eq_true] at hshut
  have hcopy := hshut.elim id fun hreturned => h.returned k hk pipe hp hreturned d
  obtain ⟨hdone, hempty⟩ := hcarries.finished k pipe hp d hcopy
  refine ⟨?_, h.exhausted k hk pipe d hp hdone⟩
  rw [hcarries.written_target hp d, hcarries.taken_source hp d, hempty, List.append_nil,
    pipe.through_taken]

theorem Route.complete (h : n.Route a js f b) (hsub : js ⊆ ks) (hwhole : n.Whole ks)
    (hcarries : n.Carries) (hsound : ∀ conn, (n.pair conn).Sound serde aes (crypto conn))
    (hshut : n.shut b = true) :
    n.written b = f (n.taken a) ∧ n.Exhausted a := by
  induction h with
  | pipe hp hsource =>
    rw [← hsource]
    exact hwhole.complete hcarries (hsub List.mem_cons_self) hp hshut
  | @link js f e k pipe d _ hp hlinked ih =>
    obtain ⟨hwritten, hexhausted⟩ := hwhole.complete hcarries (hsub (by simp)) hp hshut
    obtain ⟨hclosed, htaken⟩ := hlinked.complete hsound hexhausted
    obtain ⟨hbefore, hend⟩ := ih (fun j hj => hsub (List.mem_append_left _ hj)) hclosed
    refine ⟨?_, hend⟩
    rw [hwritten, htaken, hbefore]
    rfl

/-- A tunnel whose pipes do not break off shuts its far end down when everything that went in, to
the last byte, has come out. -/
theorem run_route_complete (hserde : serde.Inverts) (haes : aes.Ideal)
    {ms : List (Move Net NetEvent)} (hrun : Run (Net.step serde aes) (start crypto) ms n)
    (hbound : n.Bounded) (horderly : ∀ m ∈ ms, Orderly ks m) (h : n.Route a ks f b)
    (hshut : n.shut b = true) :
    n.written b = f (n.taken a) ∧ n.Exhausted a :=
  h.complete (List.Subset.refl ks) (run_whole hserde haes hrun hbound horderly)
    (run_carries hserde haes hrun hbound) (pair_sound hserde haes (run_continues hrun) hbound) hshut

/-- Polls with an empty buffer, and no pipe that returns. -/
def tidy : NetEvent → Bool
  | .read _ _ _ buf => buf.filled = []
  | .leave _ => false
  | _ => true

theorem orderly_of_tidy {m : Move Net NetEvent} (h : tidy m.event = true) : Orderly ks m := by
  obtain ⟨before, event, after⟩ := m
  cases event with
  | read k d cx buf => exact fun _ _ _ => .inl (of_decide_eq_true h)
  | leave k => cases h
  | _ => trivial

theorem orderly_visited :
    ∀ m ∈ history (Net.step .plain namedCipher) (start fun _ _ => none) visited, Orderly ks m := by
  intro m hm
  have htidy : visited.all tidy = true := by decide +kernel
  exact orderly_of_tidy (List.all_eq_true.mp htidy _ (event_mem_of_history hm))

/-- A poll of the stream that pauses, into a buffer that still holds the first bytes, ends the copy:
the far end is shut down and what comes later is lost. -/
def cutShort : List NetEvent :=
  visited.take 11 ++ [.arrive 0 [104], .read 0 .forth ⟨true⟩ ⟨2, []⟩, .write 0 .forth 2] ++
    passed 0 .odd ++
    [.read 1 .forth ⟨true⟩ ⟨2, []⟩, .read 1 .forth ⟨true⟩ ⟨2, [104]⟩, .write 1 .forth 2,
      .shutdown 1 .forth,
      .arrive 0 [105], .read 0 .forth ⟨true⟩ ⟨2, []⟩, .write 0 .forth 2] ++ passed 0 .odd

example : let n := outcome (Net.step .plain namedCipher) (start fun _ _ => none) cutShort
    (n.taken (.socket 0), n.written (.stream 1 .even 0), n.shut (.stream 1 .even 0)) =
      ([104, 105], [104], true) := by
  decide +kernel

theorem run_route_complete_of_visited :
    atTarget.written (.socket 1) = id (atTarget.taken (.socket 0)) ∧
      atTarget.Exhausted (.socket 0) := by
  have hshut : atTarget.shut (.socket 1) = true := by decide +kernel
  exact run_route_complete SerdeSlice.plain_inverts namedCipher_ideal run_atTarget bounded_atTarget
    orderly_visited
    route_atTarget hshut

end Net

end NodeAccess.Tunnel
