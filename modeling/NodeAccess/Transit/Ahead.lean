import NodeAccess.Nodes.Visits
import NodeAccess.Tunnel.Progress

/-! # Messages that are ahead on the wires

What the tasks of the nodes do does not depend on the messages that are on the wires between their
muxes, except when a mux reads one. With more messages ahead on the wires they take the same steps.
-/

namespace NodeAccess.Mux.Pair

open Foundation Crypto

/-- The pair with more messages on its wires, before the others. -/
def ahead (p : Pair) (earlier : Side → List (List UInt8)) : Pair :=
  { p with wire := fun side => earlier side ++ p.wire side }

def reads : PairEvent → Bool
  | .readLoop _ => true
  | _ => false

variable {serde : SerdeSlice} {aes : AesGcm}

theorem setMux_ahead (p : Pair) (earlier : Side → List (List UInt8)) (side : Side)
    (m : MuxConnection) :
    (p.ahead earlier).setMux side m = (p.setMux side m).ahead earlier := rfl

theorem setWire_ahead (p : Pair) (earlier : Side → List (List UInt8)) (side : Side)
    (messages : List (List UInt8)) :
    (p.ahead earlier).setWire side (earlier side ++ messages) =
      (p.setWire side messages).ahead earlier := by
  simp only [ahead, setWire, Pair.mk.injEq, true_and]
  funext other
  by_cases hother : other = side
  · subst hother
    rw [Function.update_self, Function.update_self]
  · rw [Function.update_of_ne hother, Function.update_of_ne hother]

theorem step_ahead (p : Pair) (earlier : Side → List (List UInt8)) {event : PairEvent}
    (h : reads event = false) :
    (p.ahead earlier).step serde aes event = (p.step serde aes event).map fun q =>
      q.ahead earlier := by
  cases event with
  | call side event =>
    simp only [step, Option.map_map]
    rfl
  | writeLoop side =>
    simp only [step, Option.map_map]
    change Option.map _ ((p.mux side).writeLoop serde aes) = _
    congr 1
    funext r
    change ((p.ahead earlier).setMux side r.1).setWire side
      ((earlier side ++ p.wire side) ++ r.2.toList) = _
    rw [setMux_ahead, List.append_assoc]
    exact setWire_ahead (p.setMux side r.1) earlier side _
  | readLoop side => cases h
  | _ => rfl

end NodeAccess.Mux.Pair

namespace NodeAccess.Tunnel.Net

open Foundation Crypto Mux

def ahead (n : Net) (earlier : ℕ → Side → List (List UInt8)) : Net :=
  { n with pair := fun conn => (n.pair conn).ahead (earlier conn) }

def reads : NetEvent → Bool
  | .mux _ event => Pair.reads event
  | _ => false

variable {serde : SerdeSlice} {aes : AesGcm} {earlier : ℕ → Side → List (List UInt8)}

theorem setPair_ahead (n : Net) (conn : ℕ) (p : Pair) :
    (n.ahead earlier).setPair conn (p.ahead (earlier conn)) = (n.setPair conn p).ahead earlier := by
  simp only [ahead, setPair, Net.mk.injEq, and_self, and_true]
  funext other
  by_cases hother : other = conn
  · subst hother
    rw [Function.update_self, Function.update_self]
  · rw [Function.update_of_ne hother, Function.update_of_ne hother]

theorem step_setPair_ahead (n : Net) (conn : ℕ) {event : PairEvent} (h : Pair.reads event = false) :
    (((n.ahead earlier).pair conn).step serde aes event).map ((n.ahead earlier).setPair conn) =
      (((n.pair conn).step serde aes event).map (n.setPair conn)).map fun m => m.ahead earlier := by
  change (((n.pair conn).ahead (earlier conn)).step serde aes event).map _ = _
  rw [Pair.step_ahead _ _ h, Option.map_map, Option.map_map]
  congr 1
  funext p
  exact setPair_ahead n conn p

theorem call_ahead (n : Net) (conn : ℕ) (side : Side) (event : StreamEvent) :
    (n.ahead earlier).call serde aes conn side event = (n.call serde aes conn side event).map
      fun m => m.ahead earlier :=
  step_setPair_ahead n conn rfl

theorem pollRead_ahead (n : Net) (cx : TaskContext) (buf : ReadBuf) (e : PipeEnd) :
    (n.ahead earlier).pollRead serde aes cx buf e =
      (n.pollRead serde aes cx buf e).map fun r => (r.1.ahead earlier, r.2) := by
  cases e with
  | socket id =>
    simp only [pollRead, apply_ite (Option.map _), Option.map_none, Option.map_some]
    rfl
  | stream conn side ref =>
    change (n.stream conn side ref).bind _ = ((n.stream conn side ref).bind _).map _
    rw [Option.map_bind]
    congr 1
    funext s
    simp only [Function.comp, call_ahead, apply_ite (Option.map _), Option.map_none, Option.map_map]
    rfl

theorem pollWrite_ahead (n : Net) (bytes : List UInt8) (e : PipeEnd) :
    (n.ahead earlier).pollWrite serde aes bytes e = (n.pollWrite serde aes bytes e).map fun m =>
      m.ahead earlier := by
  cases e with
  | socket id => rfl
  | stream conn side ref =>
    simp only [pollWrite, call_ahead, apply_ite (Option.map _), Option.map_none]
    rfl

theorem pollShutdown_ahead (n : Net) (e : PipeEnd) :
    (n.ahead earlier).pollShutdown serde aes e = (n.pollShutdown serde aes e).map fun m =>
      m.ahead earlier := by
  cases e with
  | socket id => rfl
  | stream conn side ref => exact call_ahead n conn side _

theorem dropEnd_ahead (n : Net) (e : PipeEnd) :
    (n.ahead earlier).dropEnd serde aes e = (n.dropEnd serde aes e).map fun m =>
      m.ahead earlier := by
  cases e with
  | socket id => rfl
  | stream conn side ref => exact call_ahead n conn side _

theorem openView_ahead (n : Net) (e : PipeEnd) : (n.ahead earlier).openView e = n.openView e := by
  cases e <;> rfl

theorem step_ahead (n : Net) {event : NetEvent} (h : reads event = false) :
    (n.ahead earlier).step serde aes event = (n.step serde aes event).map fun m =>
      m.ahead earlier := by
  cases event with
  | mux conn event =>
    simp only [step, apply_ite (Option.map _), Option.map_none, step_setPair_ahead n conn h]
    rfl
  | arrive id bytes =>
    simp only [step, apply_ite (Option.map _), Option.map_none]
    rfl
  | finish id => rfl
  | pipe left right =>
    simp only [step, openView_ahead, Option.map_bind, Function.comp, apply_ite (Option.map _),
      Option.map_none]
    rfl
  | drop e =>
    simp only [step, dropEnd_ahead, apply_ite (Option.map _), Option.map_none]
    rfl
  | read k d cx buf =>
    change (n.running k).bind _ = ((n.running k).bind _).map _
    simp only [Option.map_bind, Function.comp, pollRead_ahead, apply_ite (Option.map _),
      Option.map_none, Option.map_map]
    rfl
  | write k d size =>
    change (n.running k).bind _ = ((n.running k).bind _).map _
    simp only [Option.map_bind, Function.comp, pollWrite_ahead, apply_ite (Option.map _),
      Option.map_none, Option.map_map]
    rfl
  | shutdown k d =>
    change (n.running k).bind _ = ((n.running k).bind _).map _
    simp only [Option.map_bind, Function.comp, pollShutdown_ahead, apply_ite (Option.map _),
      Option.map_none, Option.map_map]
    rfl
  | leave k =>
    change (n.running k).bind _ = ((n.running k).bind _).map _
    simp only [Option.map_bind, Function.comp, dropEnd_ahead, Option.map_map, Option.bind_map]
    rfl

/-! ## Tunnels -/

variable {n : Net} {a b : PipeEnd} {ks : List ℕ} {f : List UInt8 → List UInt8}

theorem Linked.of_ahead (h : (n.ahead earlier).Linked a b) : n.Linked a b := by
  cases h with
  | streams hpeer hown hid => exact .streams hpeer hown hid

theorem Linked.ahead (h : n.Linked a b) : (n.ahead earlier).Linked a b := by
  cases h with
  | streams hpeer hown hid => exact .streams hpeer hown hid

theorem Route.of_ahead (h : (n.ahead earlier).Route a ks f b) : n.Route a ks f b := by
  induction h with
  | pipe hpipes hsource => exact .pipe hpipes hsource
  | link _ hpipes hlinked ih => exact .link ih hpipes hlinked.of_ahead

theorem Route.ahead (h : n.Route a ks f b) : (n.ahead earlier).Route a ks f b := by
  induction h with
  | pipe hpipes hsource => exact .pipe hpipes hsource
  | link _ hpipes hlinked ih => exact .link ih hpipes hlinked.ahead

/-- One of these pipes has a stream of the connection. -/
def Uses (n : Net) (ks : List ℕ) (conn : ℕ) : Prop :=
  ∃ k ∈ ks, ∃ pipe : Pipe, n.pipes[k]? = some pipe ∧ ∃ d side r, pipe.source d = .stream conn side r

theorem step_ahead_eq_none {event : NetEvent} (hreads : reads event = false)
    (h : n.step serde aes event = none) :
    (n.ahead earlier).step serde aes event = none := by
  rw [step_ahead n hreads, h, Option.map_none]

theorem readLoop_ahead_eq_none {conn : ℕ} {side : Side} (hempty : ∀ side, earlier conn side = [])
    (h : n.step serde aes (.mux conn (.readLoop side)) = none) :
    (n.ahead earlier).step serde aes (.mux conn (.readLoop side)) = none := by
  have hpair : (n.ahead earlier).pair conn = n.pair conn := by
    simp only [Net.ahead, Pair.ahead, hempty, List.nil_append]
  simpa [step, calledEnd, emptyWrite, hpair] using h

theorem Still.ahead (h : n.Still serde aes ks)
    (hempty : ∀ conn, n.Uses ks conn → ∀ side, earlier conn side = []) :
    (n.ahead earlier).Still serde aes ks where
  running := h.running
  idle := by
    intro k hk pipe hp d
    have hidle := h.idle k hk pipe hp d
    cases hsource : pipe.source d with
    | socket id => trivial
    | stream conn side r =>
      rw [hsource] at hidle
      intro side'
      obtain ⟨hwriter, hreader, hwrite, hread⟩ := hidle side'
      refine ⟨hwriter, hreader, step_ahead_eq_none rfl hwrite, readLoop_ahead_eq_none ?_ hread⟩
      exact hempty conn ⟨k, hk, pipe, hp, d, side, r, hsource⟩
  read := by
    intro k hk d
    obtain ⟨buf, hroom, hnone⟩ := h.read k hk d
    exact ⟨buf, hroom, step_ahead_eq_none rfl hnone⟩
  write := by
    intro k hk d
    obtain ⟨size, hpos, hnone⟩ := h.write k hk d
    exact ⟨size, hpos, step_ahead_eq_none rfl hnone⟩
  shutdown k hk d := step_ahead_eq_none rfl (h.shutdown k hk d)

end NodeAccess.Tunnel.Net

namespace NodeAccess.Nodes.Tools

open Foundation Crypto Mux Serve Tunnel

def ahead (t : Tools) (earlier : ℕ → Side → List (List UInt8)) : Tools :=
  t.setNet (t.net.ahead earlier)

def reads : ToolEvent → Bool
  | .net event => Net.reads event
  | _ => false

variable {serde : SerdeSlice} {aes : AesGcm} {mappings : ℕ → List TcpMapping}
  {earlier : ℕ → Side → List (List UInt8)}

theorem setNet_ahead (t : Tools) {event : NetEvent} (h : Net.reads event = false) :
    ((t.ahead earlier).net.step serde aes event).map (t.ahead earlier).setNet =
      ((t.net.step serde aes event).map t.setNet).map fun u => u.ahead earlier := by
  change ((t.net.ahead earlier).step serde aes event).map _ = _
  rw [Net.step_ahead _ h, Option.map_map, Option.map_map]
  rfl

theorem giveUp_ahead (t : Tools) (e : PipeEnd) :
    (t.ahead earlier).giveUp serde aes e = (t.giveUp serde aes e).map fun u => u.ahead earlier :=
  setNet_ahead t rfl

theorem callMux_ahead (t : Tools) (conn : ℕ) (side : Side) (event : StreamEvent) :
    (t.ahead earlier).callMux serde aes conn side event =
      (t.callMux serde aes conn side event).map fun u => u.ahead earlier :=
  setNet_ahead t rfl

theorem dispatch_ahead (t : Tools) (conn : ℕ) (side : Side) (request : OpenRequest)
    (ref : StreamRef) :
    (t.ahead earlier).dispatch serde aes mappings conn side request ref =
      (t.dispatch serde aes mappings conn side request ref).map fun u => u.ahead earlier := by
  cases side with
  | even =>
    cases request with
    | providerConnect name => exact giveUp_ahead t _
    | _ => rfl
  | odd =>
    cases request with
    | providerConnect name =>
      simp only [dispatch]
      cases (targets (mappings conn)).get name with
      | none => exact giveUp_ahead t _
      | some addr => rfl
    | _ => exact giveUp_ahead t _

theorem handleControl_ahead (t : Tools) (conn : ℕ) (connectionId : String)
    (message : ControlMessage) :
    (t.ahead earlier).handleControl serde aes conn connectionId message =
      (t.handleControl serde aes conn connectionId message).map fun u => u.ahead earlier := by
  cases message with
  | bind name auth =>
    change (t.node.step _).bind _ = ((t.node.step _).bind _).map _
    rw [Option.map_bind]
    congr 1
    funext node
    exact callMux_ahead { t with node := node } conn .even _
  | _ => rfl

theorem join_ahead (t : Tools) (job : Job) :
    (t.ahead earlier).join serde aes job = (t.join serde aes job).map fun u => u.ahead earlier := by
  change ((t.net.ahead earlier).step serde aes _).map _ = ((t.net.step serde aes _).map _).map _
  rw [Net.step_ahead _ rfl, Option.map_map, Option.map_map]
  rfl

theorem openFinish_ahead (t : Tools) (a : Ask) (streamId : UInt32) :
    (t.ahead earlier).openFinish serde aes a streamId =
      (t.openFinish serde aes a streamId).map fun u => u.ahead earlier := by
  have hcall : ((t.ahead earlier).endJob (.asking a streamId)).callMux serde aes a.conn a.side
      (.openFinish streamId a.request) =
        ((t.endJob (.asking a streamId)).callMux serde aes a.conn a.side
        (.openFinish streamId a.request)).map fun u => u.ahead earlier :=
          callMux_ahead (t.endJob _) a.conn a.side _
  simp only [openFinish, hcall, Option.bind_map, Option.map_bind]
  congr 1
  funext u
  simp only [Function.comp, giveUp_ahead, apply_ite (Option.map _), Option.map_map]
  change (if _ then ((u.net.ahead earlier).step serde aes _).map _ else _) = _
  rw [Net.step_ahead _ rfl, Option.map_map]
  rfl

theorem step_ahead (t : Tools) {event : ToolEvent} (h : reads event = false) :
    (t.ahead earlier).step serde aes mappings event =
      (t.step serde aes mappings event).map fun u => u.ahead earlier := by
  cases event with
  | net event =>
    simp only [step, setNet_ahead t h, apply_ite (Option.map _), Option.map_none]
  | serve event =>
    simp only [step, apply_ite (Option.map _), Option.map_none, Option.map_map]
    rfl
  | sendBind conn =>
    change ((mappings conn)[t.bound conn]?).bind _ = (((mappings conn)[t.bound conn]?).bind _).map _
    rw [Option.map_bind]
    congr 1
    funext mapping
    exact callMux_ahead { t with bound := Function.update t.bound conn (t.bound conn + 1) } conn
      .odd _
  | control conn =>
    change ((t.node.task conn).filter _).bind _ = (((t.node.task conn).filter _).bind _).map _
    rw [Option.map_bind]
    congr 1
    funext task
    change ((((t.net.pair conn).mux .even).control[t.handled conn]?).bind _) =
      ((((t.net.pair conn).mux .even).control[t.handled conn]?).bind _).map _
    rw [Option.map_bind]
    congr 1
    funext message
    exact handleControl_ahead
      { t with handled := Function.update t.handled conn (t.handled conn + 1) } conn
      task.connectionId message
  | incoming conn side =>
    have hdispatch :
        ∀ stream :
          OpenRequest × StreamRef, ((t.ahead earlier).setDispatched conn side).dispatch serde aes
        mappings conn side stream.1 stream.2 =
          ((t.setDispatched conn side).dispatch serde aes mappings conn side stream.1 stream.2).map
            fun u => u.ahead earlier :=
              fun stream => dispatch_ahead (t.setDispatched conn side) conn side _ _
    simp only [step, hdispatch, apply_ite (Option.map _), Option.map_none, Option.map_bind]
    rfl
  | lookUp conn ref name presented =>
    have hnode : (t.ahead earlier).node = t.node := rfl
    simp only [step, hnode, apply_ite (Option.map _), Option.map_none]
    congr 1
    cases t.node.state.handleVisit name presented with
    | rejected _ => exact giveUp_ahead (t.endJob _) _
    | _ => rfl
  | accept conn request =>
    simp only [step, apply_ite (Option.map _), Option.map_none]
    rfl
  | openBegin a =>
    simp only [step, apply_ite (Option.map _), Option.map_none]
    congr 1
    exact callMux_ahead ((t.endJob (.ask a)).addJob _) a.conn a.side _
  | openFinish a streamId =>
    simp only [step, openFinish_ahead, apply_ite (Option.map _), Option.map_none]
    rfl
  | socks conn event =>
    simp only [step, callMux_ahead, apply_ite (Option.map _), Option.map_none]
    rfl
  | connected job =>
    simp only [step, join_ahead, apply_ite (Option.map _), Option.map_none]
    rfl
  | failed job =>
    simp only [step, apply_ite (Option.map _), Option.map_none]
    congr 1
    exact giveUp_ahead (t.endJob job) job.own

theorem Serves.of_ahead {t : Tools} {locals : Table String TcpMapping} {d : Dial} {id source : ℕ}
    (h : (t.ahead earlier).Serves locals mappings d id source) :
    t.Serves locals mappings d id source where
  asked := h.asked
  tunnelled := by
    obtain ⟨ks, hthere, hfrom⟩ := h.tunnelled
    exact ⟨ks, hthere.of_ahead, hfrom.of_ahead⟩
  written := h.written
  answered := h.answered
  only ks f other hother := h.only ks f other hother.ahead
  answersOnly ks f other hother := h.answersOnly ks f other hother.ahead

end NodeAccess.Nodes.Tools
