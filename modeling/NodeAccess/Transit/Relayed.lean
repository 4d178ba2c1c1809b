import NodeAccess.Mux.Handover
import NodeAccess.Transit.Line

/-! # Two muxes with the relay between them

The client's mux and the mux of the server-data socket send their messages to the relay, which
queues them for the other peer. As long as the queues refuse nothing the two muxes cannot tell the
relay from a wire: each run is a run of two muxes that are connected to each other.
-/

namespace NodeAccess.Transit

open Foundation Crypto Relay Mux

/-- `sent` holds what each mux has sent, `forwarded` counts the messages of a mux that `run_peer`
has taken from its socket, and `read` those that a mux has read. -/
structure Relayed where
  world : World
  mux : Side → MuxConnection
  sent : Side → List (List UInt8)
  forwarded : Side → ℕ
  read : Side → ℕ

inductive RelayedEvent where
  | mux (event : PairEvent)
  | relay (event : WorldEvent)
  | forward (side : Side) (nowMs : ℕ) (pace : List Gap)
deriving DecidableEq, Repr

/-- The messages that a mux gets out of its socket: it reads the binary ones. -/
def binaries (frames : List RelayFrame) : List (List UInt8) :=
  frames.filterMap fun
    | .binary bytes => some bytes
    | .text _ => none

namespace Relayed

def start (session : RelaySession) (crypto : Side → Option FrameCrypto) : Relayed :=
  ⟨.init session, fun side => .start side.firstStreamId (crypto side), fun _ => [], fun _ => 0,
    fun _ => 0⟩

def setWorld (r : Relayed) (world : World) : Relayed := { r with world := world }

def setMux (r : Relayed) (side : Side) (m : MuxConnection) : Relayed :=
  { r with mux := Function.update r.mux side m }

/-- What has come out of the socket of a peer. -/
def inbound (r : Relayed) (line : Line) (side : Side) : List (List UInt8) :=
  binaries (frames (r.world.queue (line.peer side).peerId).onWire)

/-- The frames that the session has had from the two peers. -/
def passed (r : Relayed) (side : Side) : List RelayFrame :=
  ((r.sent side).take (r.forwarded side)).map .binary

/-- The two muxes with all that is under way between them. -/
def pair (r : Relayed) : Pair := ⟨r.mux, fun side => (r.sent side).drop (r.read side.other)⟩

variable (line : Line) (session : RelaySession) (serde : SerdeSlice) (aes : AesGcm)

def stepMux (r : Relayed) : PairEvent → Option Relayed
  | .call side event => ((r.mux side).call event).map (r.setMux side)
  | .writeLoop side => ((r.mux side).writeLoop serde aes).map fun w =>
      { r.setMux side w.1 with sent := Function.update r.sent side (r.sent side ++ w.2.toList) }
  | .writerEnd side => some (r.setMux side (r.mux side).stopWriter)
  | .readLoop side =>
    ((r.inbound line side)[r.read side]?).bind fun message =>
      if (r.mux side).readerOpen then
        some { r.setMux side ((r.mux side).readLoop serde aes message) with
          read := Function.update r.read side (r.read side + 1) }
      else none
  | .readerEnd side => some (r.setMux side { r.mux side with readerOpen := false })

/-- The frames of the two peers are what their muxes have sent. -/
def step (r : Relayed) : RelayedEvent → Option Relayed
  | .mux event => r.stepMux line serde aes event
  | .relay event =>
    if (event.frameFrom line.client.kind).isSome || (event.frameFrom line.data.kind).isSome then
      none
    else (r.world.step session event).map r.setWorld
  | .forward side nowMs pace =>
    ((r.sent side)[r.forwarded side]?).bind fun message =>
      (r.world.step session (.session (.frame (line.peer side) (.binary message) nowMs) pace)).map
        fun world =>
        { r.setWorld world with forwarded := Function.update r.forwarded side (r.forwarded side + 1)
          }

end Relayed

def RelayedEvent.pairEvent : RelayedEvent → Option PairEvent
  | .mux event => some event
  | .relay _ | .forward _ _ _ => none

/-- No other peer takes a place, and a mux reads from a queue that has refused nothing. -/
structure Undisturbed (line : Line) (m : Move Relayed RelayedEvent) : Prop where
  keeps : ∀ event, m.event = .relay event → line.Keeps m.before.passed m.before.world event
  room : ∀ side, m.event = .mux (.readLoop side) →
    (m.before.world.queue (line.peer side).peerId).chan.refused = false

/-! ## The invariant of the relayed connection -/

theorem binaries_map (messages : List (List UInt8)) :
    binaries (messages.map .binary) = messages := by
  induction messages with
  | nil => rfl
  | cons message messages ih =>
    rw [List.map_cons, binaries, List.filterMap_cons]
    exact congrArg (message :: ·) ih

theorem binaries_mono {l l' : List RelayFrame} (h : l <+: l') : binaries l <+: binaries l' :=
  h.filterMap _

namespace Relayed

variable {line : Line} {session : RelaySession} {serde : SerdeSlice} {aes : AesGcm}
  {crypto : Side → Option FrameCrypto} {r r' : Relayed}

/-- The session hands on what the muxes send, and no mux has read more than that. -/
structure Sound (line : Line) (session : RelaySession) (r : Relayed) : Prop where
  settled : r.world.Settled session
  hands : line.Hands r.passed r.world
  forwarded : ∀ side, r.forwarded side ≤ (r.sent side).length
  read : ∀ side, r.read side ≤ (r.sent side.other).length

theorem sound_start (crypto : Side → Option FrameCrypto) :
    (start session crypto).Sound line session where
  settled := World.settled_init
  hands := Line.hands_init line session
  forwarded _ := le_rfl
  read _ := le_rfl

theorem Sound.inbound (h : r.Sound line session) (side : Side)
    (hroom : (r.world.queue (line.peer side).peerId).chan.refused = false) :
    r.inbound line side <+: r.sent side.other := by
  have hwire := binaries_mono (h.hands.onWire h.settled side hroom)
  rw [passed, binaries_map] at hwire
  exact hwire.trans (List.take_prefix _ _)

theorem Sound.next (h : r.Sound line session) {side : Side}
    (hroom : (r.world.queue (line.peer side).peerId).chan.refused = false) {message : List UInt8}
    (hread : (r.inbound line side)[r.read side]? = some message) :
    (r.sent side.other)[r.read side]? = some message := by
  obtain ⟨rest, hsent⟩ := h.inbound side hroom
  rw [← hsent, List.getElem?_append_left (List.getElem?_eq_some_iff.mp hread).1, hread]

theorem passed_write (side : Side) (messages : List (List UInt8)) (m : Side → MuxConnection)
    (hle : r.forwarded side ≤ (r.sent side).length) :
    ({ r with
        mux := m
        sent := Function.update r.sent side (r.sent side ++ messages) } : Relayed).passed =
      r.passed := by
  funext other
  by_cases hother : other = side
  · subst hother
    simp only [passed, Function.update_self, List.take_append_of_le_length hle]
  · simp only [passed, Function.update_of_ne hother]

theorem Sound.write (h : r.Sound line session) (side : Side) (messages : List (List UInt8))
    (m : Side → MuxConnection) :
    ({ r with
        mux := m
        sent := Function.update r.sent side (r.sent side ++ messages) } : Relayed).Sound line
      session := by
  have hlength : ∀ other, (r.sent other).length ≤
      (Function.update r.sent side (r.sent side ++ messages) other).length := by
    intro other
    by_cases hother : other = side
    · subst hother
      rw [Function.update_self, List.length_append]
      exact Nat.le_add_right _ _
    · rw [Function.update_of_ne hother]
  constructor
  case settled => exact h.settled
  case hands =>
    rw [passed_write side messages m (h.forwarded side)]
    exact h.hands
  case forwarded => exact fun other => (h.forwarded other).trans (hlength other)
  case read => exact fun other => (h.read other).trans (hlength other.other)

theorem record_forward (line : Line) (r : Relayed) (side : Side) (nowMs : ℕ) (pace : List Gap)
    {message : List UInt8} (hnext : (r.sent side)[r.forwarded side]? = some message)
    (world : World) :
    line.record r.passed (.session (.frame (line.peer side) (.binary message) nowMs) pace) =
      ({ r.setWorld world with
        forwarded :=
          Function.update r.forwarded side (r.forwarded side + 1) } : Relayed).passed := by
  funext other
  by_cases hother : other = side
  · subst hother
    simp [Line.record, WorldEvent.frameFrom, SessionEvent.frameFrom, passed, setWorld,
      List.take_add_one, hnext]
  · have hkind : (line.peer side).kind ≠ (line.peer other).kind := by
      rcases side.eq_or_eq_other other with rfl | rfl
      · exact absurd rfl hother
      · exact line.kind_ne side
    simp [Line.record, WorldEvent.frameFrom, SessionEvent.frameFrom, passed, setWorld,
      Function.update_of_ne hother, hkind]

theorem Sound.step (h : r.Sound line session) {event : RelayedEvent}
    (hs : r.step line session serde aes event = some r') (hu : Undisturbed line ⟨r, event, r'⟩) :
    r'.Sound line session := by
  cases event with
  | mux event =>
    cases event with
    | call side event =>
      obtain ⟨m, -, rfl⟩ := Option.map_eq_some_iff.mp hs
      exact ⟨h.settled, h.hands, h.forwarded, h.read⟩
    | writeLoop side =>
      obtain ⟨w, -, rfl⟩ := Option.map_eq_some_iff.mp hs
      exact h.write side _ _
    | writerEnd side =>
      obtain rfl := Option.some.inj hs
      exact ⟨h.settled, h.hands, h.forwarded, h.read⟩
    | readLoop side =>
      obtain ⟨message, hread, hs⟩ := Option.bind_eq_some_iff.mp hs
      obtain ⟨-, hs⟩ := Option.ite_none_right_eq_some.mp hs
      obtain rfl := Option.some.inj hs
      refine ⟨h.settled, h.hands, h.forwarded, ?_⟩
      intro other
      by_cases hother : other = side
      · subst hother
        dsimp only
        rw [Function.update_self]
        exact (List.getElem?_eq_some_iff.mp (h.next (hu.room other rfl) hread)).1
      · dsimp only
        rw [Function.update_of_ne hother]
        exact h.read other
    | readerEnd side =>
      obtain rfl := Option.some.inj hs
      exact ⟨h.settled, h.hands, h.forwarded, h.read⟩
  | relay event =>
    obtain ⟨hquiet, hs⟩ := Option.ite_none_left_eq_some.mp hs
    obtain ⟨world, hstep, rfl⟩ := Option.map_eq_some_iff.mp hs
    have hrecord : line.record r.passed event = r.passed := by
      simp only [Bool.or_eq_true, not_or, Option.not_isSome_iff_eq_none] at hquiet
      funext side
      cases side with
      | odd => rw [Line.record, Line.peer, hquiet.1, Option.toList_none, List.append_nil]
      | even => rw [Line.record, Line.peer, hquiet.2, Option.toList_none, List.append_nil]
    have hhands := h.hands.step h.settled (hu.keeps event rfl) hstep
    rw [hrecord] at hhands
    exact ⟨h.settled.step hstep, hhands, h.forwarded, h.read⟩
  | forward side nowMs pace =>
    obtain ⟨message, hnext, hs⟩ := Option.bind_eq_some_iff.mp hs
    obtain ⟨world, hstep, rfl⟩ := Option.map_eq_some_iff.mp hs
    have hkeeps :
        line.Keeps r.passed r.world
          (.session (.frame (line.peer side) (.binary message) nowMs) pace) := by
      constructor
      · intro other pace' he
        cases he
      · intro pace' he
        cases he
    have hhands := h.hands.step h.settled hkeeps hstep
    rw [record_forward line r side nowMs pace hnext world] at hhands
    refine ⟨h.settled.step hstep, hhands, ?_, h.read⟩
    intro other
    by_cases hother : other = side
    · subst hother
      dsimp only
      rw [Function.update_self]
      exact (List.getElem?_eq_some_iff.mp hnext).1
    · dsimp only
      rw [Function.update_of_ne hother]
      exact h.forwarded other

/-! ## The relay as a wire -/

theorem Sound.pair_step (h : r.Sound line session) {event : PairEvent}
    (hs : r.step line session serde aes (.mux event) = some r')
    (hu : Undisturbed line ⟨r, .mux event, r'⟩) :
    r.pair.step serde aes event = some r'.pair := by
  cases event with
  | call side event =>
    obtain ⟨m, hm, rfl⟩ := Option.map_eq_some_iff.mp hs
    exact Option.map_eq_some_iff.mpr ⟨m, hm, rfl⟩
  | writeLoop side =>
    obtain ⟨w, hw, rfl⟩ := Option.map_eq_some_iff.mp hs
    refine Option.map_eq_some_iff.mpr ⟨w, hw, ?_⟩
    have hread := h.read side.other
    rw [side.other_other] at hread
    simp only [pair, Pair.setWire, Pair.setMux, Pair.mk.injEq]
    refine ⟨rfl, ?_⟩
    funext other
    by_cases hother : other = side
    · subst hother
      rw [Function.update_self, Function.update_self]
      exact (List.drop_append_of_le_length hread).symm
    · rw [Function.update_of_ne hother, Function.update_of_ne hother]
      rfl
  | writerEnd side =>
    obtain rfl := Option.some.inj hs
    rfl
  | readLoop side =>
    obtain ⟨message, hread, hs⟩ := Option.bind_eq_some_iff.mp hs
    obtain ⟨hopen, hs⟩ := Option.ite_none_right_eq_some.mp hs
    obtain rfl := Option.some.inj hs
    have hnext := h.next (hu.room side rfl) hread
    have hwire : r.pair.wire side.other =
        message :: (r.sent side.other).drop (r.read side + 1) := by
      obtain ⟨hlt, hget⟩ := List.getElem?_eq_some_iff.mp hnext
      change (r.sent side.other).drop (r.read side.other.other) = _
      rw [side.other_other, List.drop_eq_getElem_cons hlt, hget]
    have hreader : (r.pair.mux side).readerOpen = true := hopen
    simp only [Pair.step, hwire, hreader, if_true, Option.some.injEq]
    simp only [pair, Pair.setWire, Pair.setMux, Pair.mk.injEq]
    refine ⟨rfl, ?_⟩
    funext other
    by_cases hother : other = side.other
    · subst hother
      rw [Function.update_self, side.other_other, Function.update_self]
      rfl
    · have hne : other.other ≠ side := by
        rintro rfl
        exact hother other.other_other.symm
      rw [Function.update_of_ne hother, Function.update_of_ne hne]
      rfl
  | readerEnd side =>
    obtain rfl := Option.some.inj hs
    rfl

theorem pair_of_relay {event : RelayedEvent} (hs : r.step line session serde aes event = some r')
    (hnone : event.pairEvent = none) : r'.pair = r.pair := by
  cases event with
  | mux event => cases hnone
  | relay event =>
    obtain ⟨-, hs⟩ := Option.ite_none_left_eq_some.mp hs
    obtain ⟨world, -, rfl⟩ := Option.map_eq_some_iff.mp hs
    rfl
  | forward side nowMs pace =>
    obtain ⟨message, -, hs⟩ := Option.bind_eq_some_iff.mp hs
    obtain ⟨world, -, rfl⟩ := Option.map_eq_some_iff.mp hs
    rfl

/-- The events of the muxes in a run. -/
def pairEvents (ms : List (Move Relayed RelayedEvent)) : List PairEvent :=
  ms.filterMap fun m => m.event.pairEvent

theorem run_pair {ms : List (Move Relayed RelayedEvent)}
    (hrun : Run (step line session serde aes) (start session crypto) ms r) (hu : ∀ m ∈ ms,
      Undisturbed line m) :
    r.Sound line session ∧ ∃ ns, Run (Pair.step serde aes) (Pair.start crypto) ns r.pair ∧
      ns.map Move.event = pairEvents ms := by
  apply hrun.guarded_history (C := fun _ m => Undisturbed line m)
    (P := fun ms r => r.Sound line session ∧
    ∃ ns, Run (Pair.step serde aes) (Pair.start crypto) ns r.pair ∧
      ns.map Move.event = pairEvents ms)
  · rintro ms₁ m ms₂ rfl
    exact hu m (List.mem_append_right _ List.mem_cons_self)
  · exact ⟨sound_start crypto, [], Run.nil, rfl⟩
  · rintro ms q event q' - ⟨hsound, ns, hpair, hevents⟩ hs hm
    refine ⟨hsound.step hs hm, ?_⟩
    cases hevent : event.pairEvent with
    | none =>
      refine ⟨ns, ?_, ?_⟩
      · rw [pair_of_relay hs hevent]
        exact hpair
      · simp [pairEvents, hevents, hevent]
    | some pairEvent =>
      have hmux : event = .mux pairEvent := by
        cases event with
        | mux event => exact congrArg RelayedEvent.mux (Option.some.inj hevent)
        | relay event => cases hevent
        | forward side nowMs pace => cases hevent
      subst hmux
      refine ⟨ns ++ [⟨q.pair, pairEvent, q'.pair⟩], hpair.snoc (hsound.pair_step hs hm), ?_⟩
      simp [pairEvents, hevents, RelayedEvent.pairEvent]

/-- Nothing of what a mux has sent waits in the relay or at the other end. -/
structure Quiet (line : Line) (r : Relayed) (side : Side) : Prop where
  forwarded : (r.sent side).length ≤ r.forwarded side
  drained : line.Drained r.world side.other
  read : (r.inbound line side.other).length ≤ r.read side.other

/-- A check of a move that finds it undisturbed. -/
def tidy (line : Line) (m : Move Relayed RelayedEvent) : Bool :=
  match m.event with
  | .relay event => line.tidy m.before.passed m.before.world event
  | .mux (.readLoop side) => !(m.before.world.queue (line.peer side).peerId).chan.refused
  | _ => true

theorem undisturbed_of_tidy {m : Move Relayed RelayedEvent} (h : tidy line m = true) :
    Undisturbed line m := by
  obtain ⟨before, event, after⟩ := m
  constructor
  · rintro event rfl
    exact Line.keeps_of_tidy h
  · rintro side rfl
    simpa [tidy] using h

def nodeLine : Line := ⟨"c", nodeClient 1 "c", nodeData 2 "c", rfl, rfl⟩

/-- The client opens a stream before the server-data socket has come, and gets an answer over it. -/
def visitedOver : List RelayedEvent :=
  [.relay (.session (.register (nodeClient 1 "c")) []),
    .mux (.call .odd (.openBegin (.visit "web" none))),
    .mux (.call .odd (.openFinish 1 (.visit "web" none))), .mux (.writeLoop .odd),
      .forward .odd 0 [],
    .relay (.session (.register (nodeData 2 "c")) []), .relay (.queue ⟨2⟩ .recv),
      .mux (.readLoop .even),
    .mux (.call .odd (.pollWrite 0 [7, 8])), .mux (.writeLoop .odd), .forward .odd 0 [],
    .mux (.call .even (.pollWrite 0 [9])), .mux (.writeLoop .even), .forward .even 0 [],
      .relay (.queue ⟨1⟩ .recv),
    .mux (.readLoop .odd), .relay (.queue ⟨2⟩ .recv), .mux (.readLoop .even)]

def overRelay :
    Relayed :=
  outcome (step nodeLine nodeSession .plain namedCipher) (start nodeSession fun _ => none)
    visitedOver

def overRelayMoves : List (Move Relayed RelayedEvent) :=
  history (step nodeLine nodeSession .plain namedCipher) (start nodeSession fun _ =>
    none) visitedOver

theorem run_overRelay : Run (step nodeLine nodeSession .plain namedCipher)
    (start nodeSession fun _ => none)
    overRelayMoves overRelay := by
  have hplay : (play (step nodeLine nodeSession .plain namedCipher) (start nodeSession fun _ =>
      none)
      visitedOver).isSome = true := by
    decide +kernel
  exact Run.of_outcome hplay

theorem undisturbed_overRelay : ∀ m ∈ overRelayMoves, Undisturbed nodeLine m := by
  have htidy : overRelayMoves.all (tidy nodeLine) = true := by decide +kernel
  exact fun m hm => undisturbed_of_tidy (List.all_eq_true.mp htidy m hm)

end Relayed

end NodeAccess.Transit
