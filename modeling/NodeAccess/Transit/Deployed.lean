import NodeAccess.Nodes.Visits
import NodeAccess.Transit.Ahead
import NodeAccess.Transit.Relayed

/-! # The nodes with the relay between them

All data connections of a serving node go through its session at the relay, each with a client and a
server-data socket of its own. As long as no other peer takes a place and the queues refuse nothing,
the nodes run as if each two muxes were connected to each other.
-/

namespace NodeAccess.Transit

open Foundation Relay Mux Serve Tunnel Nodes
open Crypto (FrameCrypto AesGcm namedCipher namedCipher_ideal)

/-- The data connections of a session, each with an id of its own. -/
structure DataConnections where
  lines : List Line
  distinct : (lines.map Line.id).Nodup

/-- A wire of the net holds what a mux has sent and `run_peer` has not taken from its socket.
`given` has what `run_peer` has taken, and `read` counts the messages that a mux has read. -/
structure Deployed where
  tools : Tools
  world : World
  given : ℕ × Side → List (List UInt8)
  read : ℕ × Side → ℕ

inductive DeployedEvent where
  | tool (event : ToolEvent)
  | readLoop (conn : ℕ) (side : Side)
  | forward (conn : ℕ) (side : Side) (nowMs : ℕ) (pace : List Gap)
  | relay (event : WorldEvent)
deriving DecidableEq, Repr

namespace DataConnections

/-- A frame of a peer of one of the data connections. -/
def speaks (conns : DataConnections) (event : WorldEvent) : Bool :=
  conns.lines.any fun line => (event.frameFrom line.client.kind).isSome ||
    (event.frameFrom line.data.kind).isSome

end DataConnections

namespace Deployed

def start (session : RelaySession) (crypto : ℕ → Side → Option FrameCrypto)
    (localProviders : Table String TcpMapping) :
    Deployed :=
  ⟨.start crypto localProviders, .init session, fun _ => [], fun _ => 0⟩

def setTools (d : Deployed) (tools : Tools) : Deployed := { d with tools := tools }

def setWorld (d : Deployed) (world : World) : Deployed := { d with world := world }

/-- Another state of the two muxes of a data connection. -/
def setPair (d : Deployed) (conn : ℕ) (pair : Pair) : Deployed :=
  d.setTools (d.tools.setNet (d.tools.net.setPair conn pair))

/-- `run_peer` has taken a message from the socket of a mux. -/
def forwarded (d : Deployed) (conn : ℕ) (side : Side) (message : List UInt8)
    (rest : List (List UInt8)) : Deployed :=
  { d.setPair conn ((d.tools.net.pair conn).setWire side rest) with
    given := Function.update d.given (conn, side) (d.given (conn, side) ++ [message]) }

/-- A mux has read one more message. -/
def heard (d : Deployed) (conn : ℕ) (side : Side) (m : MuxConnection) : Deployed :=
  { d.setPair conn ((d.tools.net.pair conn).setMux side m) with
    read := Function.update d.read (conn, side) (d.read (conn, side) + 1) }

/-- What has come out of the socket of a peer. -/
def inbound (d : Deployed) (line : Line) (side : Side) : List (List UInt8) :=
  binaries (frames (d.world.queue (line.peer side).peerId).onWire)

/-- The frames that the session has had from the two peers of a data connection. -/
def passed (d : Deployed) (conn : ℕ) (side : Side) : List RelayFrame :=
  (d.given (conn, side)).map .binary

/-- What `run_peer` has taken and the other mux has not read. -/
def relayed (d : Deployed) (conn : ℕ) (side : Side) : List (List UInt8) :=
  (d.given (conn, side)).drop (d.read (conn, side.other))

/-- The nodes with all that is under way between their muxes. -/
def direct (d : Deployed) : Tools := d.tools.ahead d.relayed

variable (conns : DataConnections) (session : RelaySession) (serde : SerdeSlice) (aes : AesGcm)
  (mappings : ℕ → List TcpMapping)

/-- The frames of the peers of the data connections are what their muxes have sent. -/
def step (d : Deployed) : DeployedEvent → Option Deployed
  | .tool event =>
    if Tools.reads event then none else (d.tools.step serde aes mappings event).map d.setTools
  | .readLoop conn side =>
    conns.lines[conn]?.bind fun line =>
      ((d.inbound line side)[d.read (conn, side)]?).bind fun message =>
        let m := (d.tools.net.pair conn).mux side
        if m.readerOpen then some (d.heard conn side (m.readLoop serde aes message)) else none
  | .forward conn side nowMs pace =>
    conns.lines[conn]?.bind fun line =>
      match (d.tools.net.pair conn).wire side with
      | message :: rest =>
        (d.world.step session (.session (.frame (line.peer side) (.binary message) nowMs) pace)).map
          (d.forwarded conn side message rest).setWorld
      | [] => none
  | .relay event =>
    if conns.speaks event then none else (d.world.step session event).map d.setWorld

end Deployed

/-- The step of the nodes that an event is. -/
def DeployedEvent.toolEvent : DeployedEvent → Option ToolEvent
  | .tool event => some event
  | .readLoop conn side => some (.net (.mux conn (.readLoop side)))
  | .forward _ _ _ _ | .relay _ => none

/-- No other peer takes a place, and a mux reads from a queue that has refused nothing. -/
structure DataConnections.Undisturbed (conns : DataConnections) (m : Move Deployed DeployedEvent) :
    Prop where
  keeps : ∀ event, m.event = .relay event → ∀ (conn : ℕ) line, conns.lines[conn]? = some line →
    line.Keeps (m.before.passed conn) m.before.world event
  room : ∀ conn side, m.event = .readLoop conn side → ∀ line, conns.lines[conn]? = some line →
    (m.before.world.queue (line.peer side).peerId).chan.refused = false

namespace Line

variable {line line' : Line}

theorem kind_ne_of_id (h : line'.id ≠ line.id) (side side' : Side) :
    (line'.peer side').kind ≠ (line.peer side).kind := by
  cases side <;> cases side' <;>
    simp [peer, line.client_kind, line.data_kind, line'.client_kind, line'.data_kind, h]

theorem record_of_ne (h : line'.id ≠ line.id) (sent : Side → List RelayFrame) (side' : Side)
    (frame : RelayFrame) (nowMs : ℕ) (pace : List Gap) :
    line.record sent (.session (.frame (line'.peer side') frame nowMs) pace) = sent := by
  funext side
  simp [record, WorldEvent.frameFrom, SessionEvent.frameFrom, kind_ne_of_id h side side']

end Line

namespace Deployed

variable {conns : DataConnections} {session : RelaySession} {serde : SerdeSlice} {aes : AesGcm}
  {mappings : ℕ → List TcpMapping} {crypto : ℕ → Side → Option FrameCrypto}
    {locals : Table String TcpMapping}
  {d d' : Deployed} {conn : ℕ} {side : Side} {line : Line}

/-- The session hands on what the muxes send, and no mux has read more than that. -/
structure Sound (conns : DataConnections) (session : RelaySession) (d : Deployed) : Prop where
  settled : d.world.Settled session
  hands : ∀ (conn : ℕ) line, conns.lines[conn]? = some line → line.Hands (d.passed conn) d.world
  read : ∀ conn side, d.read (conn, side) ≤ (d.given (conn, side.other)).length

theorem sound_start : (start session crypto locals).Sound conns session where
  settled := World.settled_init
  hands _ line _ := Line.hands_init line session
  read _ _ := le_rfl

theorem Sound.inbound (h : d.Sound conns session) (hline : conns.lines[conn]? = some line)
    (hroom : (d.world.queue (line.peer side).peerId).chan.refused = false) :
    d.inbound line side <+: d.given (conn, side.other) := by
  have hwire := binaries_mono ((h.hands conn line hline).onWire h.settled side hroom)
  rwa [passed, binaries_map] at hwire

theorem Sound.next (h : d.Sound conns session) (hline : conns.lines[conn]? = some line)
    (hroom : (d.world.queue (line.peer side).peerId).chan.refused = false) {message : List UInt8}
    (hread : (d.inbound line side)[d.read (conn, side)]? = some message) :
    (d.given (conn, side.other))[d.read (conn, side)]? = some message := by
  obtain ⟨rest, hgiven⟩ := h.inbound hline hroom
  rw [← hgiven, List.getElem?_append_left (List.getElem?_eq_some_iff.mp hread).1, hread]

theorem eq_of_id {conn' : ℕ} {line' : Line} (h : conns.lines[conn]? = some line)
    (h' : conns.lines[conn']? = some line') (hid : line'.id = line.id) : conn' = conn := by
  have hlt : conn' < (conns.lines.map Line.id).length := by
    rw [List.length_map]
    exact (List.getElem?_eq_some_iff.mp h').1
  apply (List.getElem?_inj hlt conns.distinct).mp
  rw [List.getElem?_map, List.getElem?_map, h, h', Option.map_some, Option.map_some, hid]

theorem record_forward (hline : conns.lines[conn]? = some line) {conn' : ℕ} {line' : Line}
    (hline' : conns.lines[conn']? = some line') (side : Side) (message : List UInt8)
    (rest : List (List UInt8)) (nowMs : ℕ) (pace : List Gap) :
    line'.record (d.passed conn')
      (.session (.frame (line.peer side) (.binary message) nowMs) pace) =
      (d.forwarded conn side message rest).passed conn' := by
  by_cases hconn : conn' = conn
  · subst hconn
    obtain rfl := Option.some.inj (hline.symm.trans hline')
    funext other
    by_cases hother : other = side
    · subst hother
      simp [Line.record, WorldEvent.frameFrom, SessionEvent.frameFrom, passed, forwarded]
    · have hkind : (line.peer side).kind ≠ (line.peer other).kind := by
        rcases side.eq_or_eq_other other with rfl | rfl
        · exact absurd rfl hother
        · exact line.kind_ne side
      simp [Line.record, WorldEvent.frameFrom, SessionEvent.frameFrom, passed, forwarded, hother,
        hkind]
  · have hid : line.id ≠ line'.id := fun hid => hconn (eq_of_id hline hline' hid.symm)
    rw [Line.record_of_ne hid]
    funext other
    simp [passed, forwarded, hconn, setPair, setTools]

theorem record_of_quiet {event : WorldEvent} (hquiet : conns.speaks event = false)
    (hline : conns.lines[conn]? = some line) (sent : Side → List RelayFrame) :
    line.record sent event = sent := by
  have hnone := List.any_eq_false.mp hquiet line (List.mem_of_getElem? hline)
  simp only [Bool.or_eq_true, not_or, Option.not_isSome_iff_eq_none] at hnone
  funext side
  cases side with
  | odd => rw [Line.record, Line.peer, hnone.1, Option.toList_none, List.append_nil]
  | even => rw [Line.record, Line.peer, hnone.2, Option.toList_none, List.append_nil]

theorem step_forward {nowMs : ℕ} {pace : List Gap}
    (hs : d.step conns session serde aes mappings (.forward conn side nowMs pace) = some d') :
    ∃ line message rest, conns.lines[conn]? = some line ∧
      (d.tools.net.pair conn).wire side = message :: rest ∧
      ∃ world, d.world.step session
        (.session (.frame (line.peer side) (.binary message) nowMs) pace) = some world ∧
        d' = (d.forwarded conn side message rest).setWorld world := by
  obtain ⟨line, hline, hs⟩ := Option.bind_eq_some_iff.mp hs
  cases hwire : (d.tools.net.pair conn).wire side with
  | nil =>
    rw [hwire] at hs
    cases hs
  | cons message rest =>
    rw [hwire] at hs
    obtain ⟨world, hstep, rfl⟩ := Option.map_eq_some_iff.mp hs
    exact ⟨line, message, rest, hline, rfl, world, hstep, rfl⟩

theorem step_readLoop
    (hs : d.step conns session serde aes mappings (.readLoop conn side) = some d') :
    ∃ line message, conns.lines[conn]? = some line ∧
      (d.inbound line side)[d.read (conn, side)]? = some message ∧
      ((d.tools.net.pair conn).mux side).readerOpen = true ∧
      d' = d.heard conn side (((d.tools.net.pair conn).mux side).readLoop serde aes message) := by
  obtain ⟨line, hline, hs⟩ := Option.bind_eq_some_iff.mp hs
  obtain ⟨message, hread, hs⟩ := Option.bind_eq_some_iff.mp hs
  obtain ⟨hopen, hs⟩ := Option.ite_none_right_eq_some.mp hs
  exact ⟨line, message, hline, hread, hopen, (Option.some.inj hs).symm⟩

theorem Sound.step (h : d.Sound conns session) {event : DeployedEvent}
    (hs : d.step conns session serde aes mappings event = some d')
    (hu : conns.Undisturbed ⟨d, event, d'⟩) :
    d'.Sound conns session := by
  cases event with
  | tool event =>
    obtain ⟨-, hs⟩ := Option.ite_none_left_eq_some.mp hs
    obtain ⟨tools, -, rfl⟩ := Option.map_eq_some_iff.mp hs
    exact ⟨h.settled, h.hands, h.read⟩
  | readLoop conn side =>
    obtain ⟨line, message, hline, hread, -, rfl⟩ := step_readLoop hs
    have hlt :=
      (List.getElem?_eq_some_iff.mp (h.next hline (hu.room conn side rfl line hline) hread)).1
    refine ⟨h.settled, h.hands, ?_⟩
    intro conn' side'
    change Function.update d.read (conn, side) _ (conn', side') ≤
      (d.given (conn', side'.other)).length
    by_cases hsame : (conn', side') = (conn, side)
    · rw [hsame, Function.update_self]
      cases hsame
      exact hlt
    · rw [Function.update_of_ne hsame]
      exact h.read conn' side'
  | forward conn side nowMs pace =>
    obtain ⟨line, message, rest, hline, -, world, hstep, rfl⟩ := step_forward hs
    refine ⟨h.settled.step hstep, ?_, ?_⟩
    · intro conn' line' hline'
      have hkeeps :
          line'.Keeps (d.passed conn') d.world
            (.session (.frame (line.peer side) (.binary message) nowMs) pace) := by
        constructor
        · intro other pace' he
          cases he
        · intro pace' he
          cases he
      have hhands := (h.hands conn' line' hline').step h.settled hkeeps hstep
      rw [record_forward hline hline' side message rest nowMs pace] at hhands
      exact hhands
    · intro conn' side'
      refine (h.read conn' side').trans ?_
      change _ ≤ (Function.update d.given (conn, side) _ (conn', side'.other)).length
      by_cases hsame : (conn', side'.other) = (conn, side)
      · rw [hsame, Function.update_self, List.length_append]
        exact Nat.le_add_right _ _
      · rw [Function.update_of_ne hsame]
  | relay event =>
    obtain ⟨hquiet, hs⟩ := Option.ite_none_left_eq_some.mp hs
    obtain ⟨world, hstep, rfl⟩ := Option.map_eq_some_iff.mp hs
    refine ⟨h.settled.step hstep, ?_, h.read⟩
    intro conn line hline
    have hhands :=
      (h.hands conn line hline).step h.settled (hu.keeps event rfl conn line hline) hstep
    rwa [record_of_quiet (Bool.eq_false_of_not_eq_true hquiet) hline] at hhands

/-! ## The relay as a wire -/

theorem direct_tool {event : ToolEvent}
    (hs : d.step conns session serde aes mappings (.tool event) = some d') :
    d.direct.step serde aes mappings event = some d'.direct := by
  obtain ⟨hreads, hs⟩ := Option.ite_none_left_eq_some.mp hs
  obtain ⟨tools, hstep, rfl⟩ := Option.map_eq_some_iff.mp hs
  rw [direct, Tools.step_ahead d.tools (Bool.eq_false_of_not_eq_true hreads), hstep]
  rfl

theorem direct_setPair (d d' : Deployed) (pair : Pair)
    (htools : d'.tools = (d.setPair conn pair).tools)
    (hother : ∀ conn', conn' ≠ conn → d'.relayed conn' = d.relayed conn') :
    d'.direct = d.direct.setNet (d.direct.net.setPair conn (pair.ahead (d'.relayed conn))) := by
  have hnet :
      d'.tools.net.ahead d'.relayed = d.direct.net.setPair conn (pair.ahead (d'.relayed conn)) := by
    rw [htools]
    simp only [Net.ahead, Net.setPair, direct, Tools.ahead, Tools.setNet, setPair, setTools,
      Net.mk.injEq, and_self, and_true]
    funext conn'
    by_cases hconn : conn' = conn
    · subst hconn
      rw [Function.update_self, Function.update_self]
    · rw [Function.update_of_ne hconn, Function.update_of_ne hconn, hother conn' hconn]
  rw [← hnet, direct, Tools.ahead, htools]
  rfl

theorem direct_forwarded (h : d.read (conn, side.other) ≤ (d.given (conn, side)).length)
    {message : List UInt8} {rest : List (List UInt8)}
    (hwire : (d.tools.net.pair conn).wire side = message :: rest) :
    (d.forwarded conn side message rest).direct = d.direct := by
  have hrelayed : ∀ conn' side', (d.forwarded conn side message rest).relayed conn' side' =
      d.relayed conn' side' ++ if (conn', side') = (conn, side) then [message] else [] := by
    intro conn' side'
    by_cases hsame : (conn', side') = (conn, side)
    · cases hsame
      simp [relayed, forwarded, setPair, setTools, List.drop_append_of_le_length h]
    · simp [relayed, forwarded, setPair, setTools, hsame]
  rw [direct_setPair d (d.forwarded conn side message rest) _ rfl]
  · have hpair :
        ((d.tools.net.pair conn).setWire side rest).ahead
          ((d.forwarded conn side message rest).relayed conn) =
        d.direct.net.pair conn := by
      simp only [Pair.ahead, Pair.setWire, direct, Tools.ahead, Tools.setNet, Net.ahead,
        Pair.mk.injEq, true_and]
      funext side'
      rw [hrelayed]
      by_cases hside : side' = side
      · subst hside
        rw [Function.update_self, hwire, if_pos rfl, List.append_assoc, List.singleton_append]
      · rw [Function.update_of_ne hside, if_neg (by simp [hside]), List.append_nil]
    rw [hpair, Net.setPair, Function.update_eq_self]
    rfl
  · intro conn' hconn
    funext side'
    rw [hrelayed, if_neg (by simp [hconn]), List.append_nil]

theorem direct_heard {message : List UInt8}
    (hnext : (d.given (conn, side.other))[d.read (conn, side)]? = some message)
    (hopen : ((d.tools.net.pair conn).mux side).readerOpen = true) :
    d.direct.step serde aes mappings (.net (.mux conn (.readLoop side))) =
      some (d.heard conn side (((d.tools.net.pair conn).mux side).readLoop serde aes
        message)).direct := by
  obtain ⟨hlt, hget⟩ := List.getElem?_eq_some_iff.mp hnext
  generalize hm : ((d.tools.net.pair conn).mux side).readLoop serde aes message = m
  have hrelayed :
      d.relayed conn side.other = message :: (d.heard conn side m).relayed conn side.other := by
    rw [relayed, relayed, side.other_other, List.drop_eq_getElem_cons hlt, hget]
    simp [heard, setPair, setTools]
  have hkept : ∀ conn' side', (conn', side'.other) ≠ (conn, side) →
      (d.heard conn side m).relayed conn' side' = d.relayed conn' side' := by
    intro conn' side' hne
    simp [relayed, heard, setPair, setTools, hne]
  have hstep : (d.direct.net.pair conn).step serde aes (.readLoop side) =
      some (((d.tools.net.pair conn).setMux side m).ahead
        ((d.heard conn side m).relayed conn)) := by
    have hwire : (d.direct.net.pair conn).wire side.other = message ::
        ((d.heard conn side m).relayed conn side.other ++
          (d.tools.net.pair conn).wire side.other) := by
      change d.relayed conn side.other ++ _ = _
      rw [hrelayed, List.cons_append]
    have hreader : ((d.direct.net.pair conn).mux side).readerOpen = true := hopen
    have hmux : ((d.direct.net.pair conn).mux side).readLoop serde aes message = m := hm
    simp only [Pair.step, hwire, hreader, if_true, hmux, Option.some.injEq]
    simp only [Pair.ahead, Pair.setMux, Pair.setWire, Pair.mk.injEq]
    refine ⟨rfl, ?_⟩
    funext side'
    by_cases hside : side' = side.other
    · subst hside
      rw [Function.update_self]
    · have hne : side'.other ≠ side := by
        rintro rfl
        exact hside side'.other_other.symm
      rw [Function.update_of_ne hside, hkept conn side' (by simp [hne])]
      rfl
  rw [direct_setPair d (d.heard conn side m) _ rfl]
  · simp [Tools.step, isWork, Net.step, calledEnd, emptyWrite, hstep]
  · intro conn' hconn
    funext side'
    exact hkept conn' side' (by simp [hconn])

/-- The step of the nodes that a step is, as if their muxes were connected to each other. -/
def directMove (m : Move Deployed DeployedEvent) : Option (Move Tools ToolEvent) :=
  m.event.toolEvent.map fun event => ⟨m.before.direct, event, m.after.direct⟩

/-- A step of the nodes over the relay is a step of nodes that are connected to each other, or
nothing that they see. -/
theorem Sound.direct_step (h : d.Sound conns session) {event : DeployedEvent}
    (hs : d.step conns session serde aes mappings event = some d')
    (hu : conns.Undisturbed ⟨d, event, d'⟩) :
    Run (Tools.step serde aes mappings) d.direct (directMove ⟨d, event, d'⟩).toList d'.direct := by
  cases event with
  | tool event => exact Run.single (direct_tool hs)
  | readLoop conn side =>
    obtain ⟨line, message, hline, hread, hopen, rfl⟩ := step_readLoop hs
    exact Run.single (direct_heard (h.next hline (hu.room conn side rfl line hline) hread) hopen)
  | forward conn side nowMs pace =>
    obtain ⟨line, message, rest, -, hwire, world, -, rfl⟩ := step_forward hs
    have hread := h.read conn side.other
    rw [side.other_other] at hread
    have hdirect : ((d.forwarded conn side message rest).setWorld world).direct = d.direct :=
      direct_forwarded hread hwire
    rw [hdirect]
    exact Run.nil
  | relay event =>
    obtain ⟨-, hs⟩ := Option.ite_none_left_eq_some.mp hs
    obtain ⟨world, -, rfl⟩ := Option.map_eq_some_iff.mp hs
    exact Run.nil

theorem run_direct {ms : List (Move Deployed DeployedEvent)}
    (hrun : Run (step conns session serde aes mappings) (start session crypto locals) ms d)
    (hu : ∀ m ∈ ms, conns.Undisturbed m) :
    d.Sound conns session ∧
      Run (Tools.step serde aes mappings) (Tools.start crypto locals) (ms.filterMap directMove)
        d.direct := by
  apply hrun.guarded_history (C := fun _ m => conns.Undisturbed m)
    (P := fun ms d => d.Sound conns session ∧
    Run (Tools.step serde aes mappings) (Tools.start crypto locals) (ms.filterMap directMove)
      d.direct)
  · rintro ms₁ m ms₂ rfl
    exact hu m (List.mem_append_right _ List.mem_cons_self)
  · exact ⟨sound_start, Run.nil⟩
  · rintro ms q event q' - ⟨hsound, htools⟩ hs hm
    refine ⟨hsound.step hs hm, ?_⟩
    have hlast : [(⟨q, event, q'⟩ : Move Deployed DeployedEvent)].filterMap directMove =
        (directMove ⟨q, event, q'⟩).toList := by
      cases hmove : directMove ⟨q, event, q'⟩ <;> simp [hmove]
    rw [List.filterMap_append, hlast]
    exact htools.trans (hsound.direct_step hs hm)

/-- In every run that no other peer disturbs, the nodes run as if their muxes were connected to each
other. -/
theorem run_asConnected {ms : List (Move Deployed DeployedEvent)}
    (hrun : Run (step conns session serde aes mappings) (start session crypto locals) ms d)
    (hu : ∀ m ∈ ms, conns.Undisturbed m) :
    Run (Tools.step serde aes mappings) (Tools.start crypto locals) (ms.filterMap directMove)
      d.direct :=
  (run_direct hrun hu).2

/-- A run with half as many steps of the nodes as there are ids is bounded. -/
theorem run_bounded {ms : List (Move Deployed DeployedEvent)}
    (hrun : Run (step conns session serde aes mappings) (start session crypto locals) ms d)
    (hu : ∀ m ∈ ms, conns.Undisturbed m) (hlength : ms.length ≤ 2 ^ 30) : d.tools.net.Bounded := by
  have hbound : d.direct.net.Bounded :=
    Tools.run_bounded (run_direct hrun hu).2 ((List.length_filterMap_le _ _).trans hlength)
  exact hbound

/-- Every socket that a node has dialled over the relay serves one local program that
may reach it. -/
theorem run_servesOver (hserde : serde.Inverts) (haes : aes.Ideal)
    {ms : List (Move Deployed DeployedEvent)}
    (hrun : Run (step conns session serde aes mappings) (start session crypto locals) ms d)
    (hu : ∀ m ∈ ms, conns.Undisturbed m) (hbound : d.tools.net.Bounded) {dial : Nodes.Dial} {id : ℕ}
    (h : (dial, id) ∈ d.tools.dialled) :
    ∃ source, d.tools.Serves locals mappings dial id source := by
  have hsound := Tools.run_sound hserde haes (run_direct hrun hu).2 hbound
  obtain ⟨source, hserves⟩ := hsound.serves hserde haes hbound h
  exact ⟨source, hserves.of_ahead⟩

/-! ## Tunnels over the relay -/

/-- All that `run_peer` has taken from the socket of a mux has come to the other end and has been
read. -/
structure Delivered (line : Line) (d : Deployed) (conn : ℕ) (side : Side) : Prop where
  drained : line.Drained d.world side.other
  read : (d.inbound line side.other).length ≤ d.read (conn, side.other)

theorem Sound.delivered (h : d.Sound conns session) (hline : conns.lines[conn]? = some line)
    (hd : d.Delivered line conn side) : d.relayed conn side = [] := by
  have hwire := (h.hands conn line hline).settled h.settled side.other hd.drained
  have hread := hd.read
  rw [side.other_other, passed] at hwire
  rw [Deployed.inbound, hwire, binaries_map] at hread
  exact List.drop_eq_nil_of_le hread

/-- Pipes that poll as the net finds in order, and do not break off. -/
def Orderly (ks : List ℕ) (m : Move Deployed DeployedEvent) : Prop :=
  ∀ event, m.event = .tool (.net event) →
    Net.Orderly ks ⟨m.before.tools.net, event, m.after.tools.net⟩

theorem run_net {ks : List ℕ} {ms : List (Move Deployed DeployedEvent)}
    (hrun : Run (step conns session serde aes mappings) (start session crypto locals) ms d)
    (hu : ∀ m ∈ ms, conns.Undisturbed m) (horderly : ∀ m ∈ ms, Orderly ks m) :
    ∃ ns, Run (Net.step serde aes) (Net.start crypto) ns d.direct.net ∧
      ∀ m ∈ ns, Net.Orderly ks m := by
  have hquiet : ∀ m : Move Net NetEvent, Tools.copies m.event = false → Net.Orderly ks m := by
    rintro ⟨before, event, after⟩ hcopies
    cases event with
    | read k dir cx buf => cases hcopies
    | leave k => cases hcopies
    | _ => trivial
  have hdirect : ∀ m ∈ ms.filterMap directMove, ∀ event, m.event = .net event →
      Net.Orderly ks ⟨m.before.net, event, m.after.net⟩ := by
    intro m hm event hevent
    obtain ⟨⟨before, event₀, after⟩, hmem, hmove⟩ := List.mem_filterMap.mp hm
    obtain ⟨tool, htool, rfl⟩ := Option.map_eq_some_iff.mp hmove
    obtain rfl : tool = .net event := hevent
    cases event₀ with
    | tool event' =>
      obtain rfl := Option.some.inj htool
      exact horderly _ hmem event rfl
    | readLoop conn side =>
      cases htool
      trivial
    | forward conn side nowMs pace => cases htool
    | relay event' => cases htool
  obtain ⟨ns, hnet, -, hns⟩ := Tools.run_works (run_direct hrun hu).2 hdirect hquiet
  exact ⟨ns, hnet, hns⟩

/-- When nothing can move along a tunnel over the relay and the relay has delivered everything, what
came to its near end is out at its far end, which is shut down if nothing more will come. -/
theorem run_settledOver (hserde : serde.Inverts) (haes : aes.Ideal)
    {ms : List (Move Deployed DeployedEvent)}
    (hrun : Run (step conns session serde aes mappings) (start session crypto locals) ms d)
    (hu : ∀ m ∈ ms, conns.Undisturbed m) (hbound : d.tools.net.Bounded) {ks : List ℕ}
    (horderly : ∀ m ∈ ms, Orderly ks m) {a b : PipeEnd} {f : List UInt8 → List UInt8}
    (hroute : d.tools.net.Route a ks f b) (hstill : d.tools.net.Still serde aes ks)
    (hdelivered : ∀ conn, d.tools.net.Uses ks conn → ∃ line, conns.lines[conn]? = some line ∧
      ∀ side, d.Delivered line conn side) : d.tools.net.Settled f a b := by
  obtain ⟨ns, hnet, hns⟩ := run_net hrun hu horderly
  have hempty : ∀ conn, d.tools.net.Uses ks conn → ∀ side, d.relayed conn side = [] := by
    intro conn huses side
    obtain ⟨line, hline, hd⟩ := hdelivered conn huses
    exact (run_direct hrun hu).1.delivered hline (hd side)
  have hpairs := Net.pair_sound hserde haes (Net.run_continues hnet) hbound
  have hsettled := hroute.ahead.settled (List.Subset.refl ks) (hstill.ahead hempty)
    (Net.run_carries hserde haes hnet hbound) (Net.run_whole hserde haes hnet hbound hns) hpairs
  exact ⟨hsettled.written, hsettled.waiting, hsettled.shut⟩

/-! ## A visit over the relay -/

/-- A check of a move that finds it undisturbed. -/
def tidy (conns : DataConnections) (m : Move Deployed DeployedEvent) : Bool :=
  match m.event with
  | .relay event => conns.lines.zipIdx.all fun line =>
      line.1.tidy (m.before.passed line.2) m.before.world event
  | .readLoop conn side => conns.lines[conn]?.all fun line =>
      !(m.before.world.queue (line.peer side).peerId).chan.refused
  | _ => true

theorem undisturbed_of_tidy {m : Move Deployed DeployedEvent} (h : tidy conns m = true) :
    conns.Undisturbed m := by
  obtain ⟨before, event, after⟩ := m
  constructor
  · rintro event rfl conn line hline
    have hmem : (line, conn) ∈ conns.lines.zipIdx := List.mk_mem_zipIdx_iff_getElem?.mpr hline
    exact Line.keeps_of_tidy (List.all_eq_true.mp h _ hmem)
  · rintro conn side rfl line hline
    simpa [tidy, hline] using h

/-- The data connection of the announcing node and that of the visiting one. -/
def twoConnections : DataConnections where
  lines := [⟨"a", nodeClient 1 "a", nodeData 2 "a", rfl, rfl⟩,
    ⟨"b", nodeClient 3 "b", nodeData 4 "b", rfl, rfl⟩]
  distinct := by decide

def socketOf (conn : ℕ) : Side → PeerId
  | .odd => ⟨2 * conn + 1⟩
  | .even => ⟨2 * conn + 2⟩

/-- What the nodes do, with the relay bringing each message before it is read. -/
def brought : ToolEvent → List DeployedEvent
  | .net (.mux conn (.readLoop side)) =>
    [.forward conn side.other 0 [], .relay (.queue (socketOf conn side) .recv), .readLoop conn side]
  | event => [.tool event]

def webVisitedOver : List DeployedEvent :=
  [nodeClient 1 "a", nodeData 2 "a", nodeClient 3 "b", nodeData 4 "b"].map (fun peerMeta =>
    .relay (.session (.register peerMeta) [])) ++ Tools.webVisited.flatMap brought

def webOver : Deployed :=
  outcome (step twoConnections nodeSession .plain namedCipher Tools.webMappings)
    (start nodeSession (fun _ _ => none) ∅) webVisitedOver

def webOverMoves : List (Move Deployed DeployedEvent) :=
  history (step twoConnections nodeSession .plain namedCipher Tools.webMappings)
    (start nodeSession (fun _ _ => none) ∅) webVisitedOver

theorem run_webOver : Run (step twoConnections nodeSession .plain namedCipher Tools.webMappings)
    (start nodeSession (fun _ _ => none) ∅) webOverMoves webOver := by
  have hplay : (play (step twoConnections nodeSession .plain namedCipher Tools.webMappings)
      (start nodeSession (fun _ _ => none) ∅) webVisitedOver).isSome = true := by
    decide +kernel
  exact Run.of_outcome hplay

theorem undisturbed_webOver : ∀ m ∈ webOverMoves, twoConnections.Undisturbed m := by
  have htidy : webOverMoves.all (tidy twoConnections) = true := by decide +kernel
  exact fun m hm => undisturbed_of_tidy (List.all_eq_true.mp htidy m hm)

theorem bounded_webOver : webOver.tools.net.Bounded :=
  run_bounded run_webOver undisturbed_webOver (by decide +kernel)

theorem run_asConnected_of_webVisitedOver :
    Run (Tools.step .plain namedCipher Tools.webMappings) (Tools.start (fun _ _ => none) ∅)
      (webOverMoves.filterMap directMove) webOver.direct :=
  run_asConnected run_webOver undisturbed_webOver

theorem run_servesOver_of_webVisitedOver :
    ∃ source, webOver.tools.Serves ∅ Tools.webMappings Tools.webDial 1 source := by
  have hdialled : (Tools.webDial, 1) ∈ webOver.tools.dialled := by decide +kernel
  exact run_servesOver SerdeSlice.plain_inverts namedCipher_ideal run_webOver undisturbed_webOver
    bounded_webOver hdialled

/-- A check of the connections of some pipes that finds everything delivered. -/
def quiet (conns : DataConnections) (d : Deployed) (ks : List ℕ) : Bool :=
  ks.all fun k => (d.tools.net.pipes[k]?).all fun pipe => [Direction.forth, .back].all fun dir =>
    match pipe.source dir with
    | .socket _ => true
    | .stream conn _ _ => conns.lines[conn]?.any fun line => [Side.odd, .even].all fun side =>
        line.drained d.world side.other && (d.inbound line side.other).length ≤
          d.read (conn, side.other)

theorem delivered_of_quiet {ks : List ℕ} (h : d.quiet conns ks = true)
    (huses : d.tools.net.Uses ks conn) :
    ∃ line, conns.lines[conn]? = some line ∧ ∀ side, d.Delivered line conn side := by
  obtain ⟨k, hk, pipe, hp, dir, side, r, hsource⟩ := huses
  have hpipe := List.all_eq_true.mp h k hk
  rw [hp, Option.all_some] at hpipe
  have hdir := List.all_eq_true.mp hpipe dir (by cases dir <;> simp)
  rw [hsource] at hdir
  obtain ⟨line, hline, hsides⟩ := (Option.any_eq_true _ _).mp hdir
  refine ⟨line, hline, ?_⟩
  intro side'
  have hside := List.all_eq_true.mp hsides side' (by cases side' <;> simp)
  simp only [Bool.and_eq_true, decide_eq_true_eq] at hside
  exact ⟨Line.drained_iff.mp hside.1, hside.2⟩

/-- A step of the net is tidy. -/
def tidyWork (m : Move Deployed DeployedEvent) : Bool :=
  match m.event with
  | .tool (.net event) => Net.tidy event
  | _ => true

theorem orderly_webOver {ks : List ℕ} : ∀ m ∈ webOverMoves, Orderly ks m := by
  have htidy : webOverMoves.all tidyWork = true := by decide +kernel
  intro m hm event hevent
  have h := List.all_eq_true.mp htidy m hm
  rw [tidyWork, hevent] at h
  exact Net.orderly_of_tidy h

theorem route_webOver : webOver.tools.net.Route (.socket 0) [0, 1, 2] id (.socket 1) := by
  have hjoins : (webOver.tools.net.joins 0 .forth (.socket 0) (.stream 1 .odd 0) &&
      webOver.tools.net.joins 1 .forth (.stream 1 .even 0) (.stream 0 .even 0) &&
      webOver.tools.net.joins 2 .forth (.stream 0 .odd 0) (.socket 1)) = true := by
    decide +kernel
  have hids : (webOver.tools.net.stream 1 .odd 0).map VirtualStream.streamId = some 1 ∧
      (webOver.tools.net.stream 1 .even 0).map VirtualStream.streamId = some 1 ∧
      (webOver.tools.net.stream 0 .even 0).map VirtualStream.streamId = some 2 ∧
      (webOver.tools.net.stream 0 .odd 0).map VirtualStream.streamId = some 2 := by
    decide +kernel
  simp only [Bool.and_eq_true] at hjoins
  have hvisitor : webOver.tools.net.Linked (.stream 1 Side.even.other 0) (.stream 1 .even 0) :=
    .of_ids hids.1 hids.2.1
  have hprovider : webOver.tools.net.Linked (.stream 0 Side.odd.other 0) (.stream 0 .odd 0) :=
    .of_ids hids.2.2.1 hids.2.2.2
  exact ((Net.Route.single hjoins.1.1).extend hvisitor hjoins.1.2).extend hprovider hjoins.2

theorem run_settledOver_of_webVisitedOver :
    webOver.tools.net.Settled id (.socket 0) (.socket 1) := by
  have hstuck : webOver.tools.net.stuck .plain namedCipher [0, 1, 2] = true := by decide +kernel
  have hquiet : webOver.quiet twoConnections [0, 1, 2] = true := by decide +kernel
  exact run_settledOver SerdeSlice.plain_inverts namedCipher_ideal run_webOver undisturbed_webOver
    bounded_webOver
    orderly_webOver route_webOver (Net.still_of_stuck hstuck) fun _ huses =>
      delivered_of_quiet hquiet huses

end Deployed

end NodeAccess.Transit
