import NodeAccess.Relay.Forwarding
import NodeAccess.Relay.SlowConsumer
import NodeAccess.Serve.Ownership

/-! # The control loop and the relay

A serving node reads its control channel from the relay and connects again when the channel has
ended. Its tasks then cover the connections that have a client at the relay, apart from those of
which a task has ended since they were announced.
-/

namespace NodeAccess.Serve

open Foundation Relay

/-- `channel` is the control channel that the loop reads, and `heard` counts the texts that it has
read from it. -/
structure ControlLoop where
  world : World
  node : ServeNode
  channel : Option PeerMeta
  heard : ℕ

inductive ControlLoopEvent where
  | relay (event : WorldEvent)
  | connect (control : PeerMeta)
  | hear
  | hangUp
  | task (event : ServeEvent)
deriving DecidableEq, Repr

def isControl : ServeEvent → Bool
  | .control _ => true
  | _ => false

namespace ControlLoop

def start (session : RelaySession) (localProviders : Table String TcpMapping) : ControlLoop :=
  ⟨.init session, .init localProviders, none, 0⟩

/-- The texts that have come out of the socket of a control channel. -/
def inbound (world : World) (control : PeerMeta) : List String :=
  texts (world.queue control.peerId).onWire

/-- The loop takes up the next text when it has started the tasks for the one before, and a text
that does not decode ends it. -/
def step (session : RelaySession) (l : ControlLoop) : ControlLoopEvent → Option ControlLoop
  | .relay event => (l.world.step session event).map fun world => { l with world := world }
  | .connect control => if l.channel = none then some { l with channel := some control, heard := 0 }
      else none
  | .hear =>
    l.channel.bind fun control =>
      ((inbound l.world control)[l.heard]?).bind fun text =>
        (RelayControlEvent.fromStr session.serde text).bind fun event =>
          (l.node.step (.control event)).map fun node =>
            { l with node := node, heard := l.heard + 1 }
  | .hangUp => if l.node.pending = [] then some { l with channel := none } else none
  | .task event => if isControl event then none else (l.node.step event).map fun node =>
      { l with node := node }

/-- The loop comes to the announcement of a connection. -/
def Comes (c : String) (m : Move ControlLoop ControlLoopEvent) : Prop :=
  m.event = .task .start ∧ m.before.node.pending.head? = some c

/-- A task of the connection has ended. -/
def Leaves (c : String) (m : Move ControlLoop ControlLoopEvent) : Prop :=
  ∃ t task, m.event = .task (.cleanup t) ∧ m.before.node.task t = some task ∧ task.connectionId = c

/-- A task of the connection has ended, and the loop has come to no announcement of it since. -/
def EndedSince (c : String) (ms : List (Move ControlLoop ControlLoopEvent)) : Prop :=
  ∃ ms₁ m ms₂, ms = ms₁ ++ m :: ms₂ ∧ Leaves c m ∧ ∀ later ∈ ms₂, ¬ Comes c later

variable {session : RelaySession} {localProviders : Table String TcpMapping} {l l' : ControlLoop}
    {c : String}
  {ms : List (Move ControlLoop ControlLoopEvent)} {control : PeerMeta}

theorem EndedSince.snoc (h : EndedSince c ms) {m : Move ControlLoop ControlLoopEvent}
    (hm : ¬ Comes c m) :
    EndedSince c (ms ++ [m]) := by
  obtain ⟨ms₁, first, ms₂, rfl, hleaves, hlater⟩ := h
  refine ⟨ms₁, first, ms₂ ++ [m], by simp, hleaves, ?_⟩
  intro later hl
  rcases List.mem_append.mp hl with hl | hl
  · exact hlater later hl
  · rwa [List.mem_singleton.mp hl]

theorem endedSince_of_leaves {m : Move ControlLoop ControlLoopEvent} (h : Leaves c m) :
    EndedSince c (ms ++ [m]) :=
  ⟨ms, m, [], rfl, h, List.forall_mem_nil _⟩

/-! ## The relay and the node by themselves -/

theorem step_hear (hs : l.step session .hear = some l') :
    ∃ control text event node, l.channel = some control ∧
      (inbound l.world control)[l.heard]? = some text ∧
      RelayControlEvent.fromStr session.serde text = some event ∧
        l.node.step (.control event) = some node ∧
      l' = { l with node := node, heard := l.heard + 1 } := by
  obtain ⟨control, hchannel, hs⟩ := Option.bind_eq_some_iff.mp hs
  obtain ⟨text, htext, hs⟩ := Option.bind_eq_some_iff.mp hs
  obtain ⟨event, hevent, hs⟩ := Option.bind_eq_some_iff.mp hs
  obtain ⟨node, hstep, rfl⟩ := Option.map_eq_some_iff.mp hs
  exact ⟨control, text, event, node, hchannel, htext, hevent, hstep, rfl⟩

theorem run_parts (hrun : Run (step session) (start session localProviders) ms l) :
    (∃ ns, Run (World.step session) (World.init session) ns l.world) ∧
      ∃ ns, Run ServeNode.step (.init localProviders) ns l.node := by
  apply hrun.invariant (P := fun l =>
    (∃ ns, Run (World.step session) (World.init session) ns l.world) ∧
    ∃ ns, Run ServeNode.step (.init localProviders) ns l.node)
  · exact ⟨⟨[], Run.nil⟩, [], Run.nil⟩
  · rintro l event l' ⟨⟨ns, hworld⟩, ks, hnode⟩ hs
    cases event with
    | relay event =>
      obtain ⟨world, hstep, rfl⟩ := Option.map_eq_some_iff.mp hs
      exact ⟨⟨_, hworld.snoc hstep⟩, ks, hnode⟩
    | connect control =>
      obtain ⟨-, hs⟩ := Option.ite_none_right_eq_some.mp hs
      obtain rfl := Option.some.inj hs
      exact ⟨⟨ns, hworld⟩, ks, hnode⟩
    | hear =>
      obtain ⟨control, text, event, node, -, -, -, hstep, rfl⟩ := step_hear hs
      exact ⟨⟨ns, hworld⟩, _, hnode.snoc hstep⟩
    | hangUp =>
      obtain ⟨-, hs⟩ := Option.ite_none_right_eq_some.mp hs
      obtain rfl := Option.some.inj hs
      exact ⟨⟨ns, hworld⟩, ks, hnode⟩
    | task event =>
      obtain ⟨-, hs⟩ := Option.ite_none_left_eq_some.mp hs
      obtain ⟨node, hstep, rfl⟩ := Option.map_eq_some_iff.mp hs
      exact ⟨⟨ns, hworld⟩, _, hnode.snoc hstep⟩

theorem inbound_step {world world' : World} {event : WorldEvent}
    (hs : world.step session event = some world') (control : PeerMeta) :
    inbound world control <+: inbound world' control := by
  have htaken := World.step_queues (P := fun p q => (world.queue p).chan.taken <+: q.chan.taken)
    (fun p q work h => h.trans (q.work_taken work)) (fun p q gap send h =>
      h.trans (Send.apply_taken gap q send)) hs
    (fun p => List.prefix_rfl) control.peerId
  have hwire : (world.queue control.peerId).onWire <+: (world'.queue control.peerId).onWire :=
    takeWhile_prefix_of_prefix _ htaken
  exact hwire.filterMap _

/-! ## The connections that the node has heard of -/

/-- The loop has heard of a connection, and comes to it, has a task for it or has had one. -/
def Attended (ms : List (Move ControlLoop ControlLoopEvent)) (node : ServeNode) (c : String) :
    Prop :=
  c ∈ node.pending ∨ c ∈ node.state.activeConnections ∨ EndedSince c ms

/-- What the loop has read from its channel is the beginning of what came, and every connection that
has a client by it is attended. -/
def Attends (session : RelaySession) (ms : List (Move ControlLoop ControlLoopEvent))
    (l : ControlLoop) : Prop :=
  ∀ control, l.channel = some control → l.heard ≤ (inbound l.world control).length ∧
    ∃ view, controlView session.serde ∅ ((inbound l.world control).take l.heard) = some view ∧
      ∀ c ∈ view, Attended ms l.node c

theorem Attended.keep {node node' : ServeNode} (h : Attended ms node c)
    {m : Move ControlLoop ControlLoopEvent} (hpending : c ∈ node.pending → c ∈ node'.pending)
    (hactive : c ∈ node.state.activeConnections → c ∈ node'.state.activeConnections)
    (hm : ¬ Comes c m) :
    Attended (ms ++ [m]) node' c := by
  rcases h with h | h | h
  · exact .inl (hpending h)
  · exact .inr (.inl (hactive h))
  · exact .inr (.inr (h.snoc hm))

/-- The loop comes to an announcement. The connection has a task then, a new one or
the one it had. -/
theorem Attended.announcement {node' : ServeNode} (h : Attended ms l.node c)
    (hs : l.node.step .start = some node') (l' : ControlLoop) :
    Attended (ms ++ [⟨l, .task .start, l'⟩]) node' c := by
  obtain ⟨first, rest, hpending, hcases⟩ := ServeNode.step_start hs
  have hactive : ∀ c, c ∈ l.node.state.activeConnections ∨ c = first →
      c ∈ node'.state.activeConnections := by
    rintro c hc
    rcases hcases with ⟨-, rfl⟩ | ⟨hfirst, rfl⟩
    · exact Finset.mem_insert.mpr hc.symm
    · rcases hc with hc | rfl
      · exact hc
      · exact hfirst
  have hrest : node'.pending = rest := by
    rcases hcases with ⟨-, rfl⟩ | ⟨-, rfl⟩ <;> rfl
  by_cases hc : c = first
  · exact .inr (.inl (hactive c (.inr hc)))
  · apply h.keep _ fun hmem => hactive c (.inl hmem)
    · rintro ⟨-, hhead⟩
      rw [hpending, List.head?_cons, Option.some.injEq] at hhead
      exact hc hhead.symm
    · rw [hpending, hrest]
      exact fun hmem => (List.mem_cons.mp hmem).resolve_left hc

theorem Attended.task {node' : ServeNode} (h : Attended ms l.node c) {event : ServeEvent}
    (hs : l.node.step event = some node') (hcontrol : isControl event = false) (l' : ControlLoop) :
    Attended (ms ++ [⟨l, .task event, l'⟩]) node' c := by
  have hquiet :
      event ≠ .start → ¬ Comes c (⟨l, .task event, l'⟩ : Move ControlLoop ControlLoopEvent) := by
    intro hne hcomes
    exact hne (ControlLoopEvent.task.inj hcomes.1)
  cases event with
  | control event => cases hcontrol
  | start => exact h.announcement hs l'
  | opened t =>
    obtain ⟨task, -, -, rfl⟩ := ServeNode.advance_eq hs
    exact h.keep id id (hquiet fun he => by cases he)
  | bind t name auth writerOpen =>
    obtain ⟨task, -, -, rfl⟩ := ServeNode.step_bind hs
    refine h.keep id ?_ (hquiet fun he => by cases he)
    rcases l.node.state.handleBind_cases t task.connectionId name auth with ⟨_, -, -, he⟩ |
      ⟨-, he⟩ <;> rw [he] <;> exact id
  | ended t =>
    obtain ⟨task, -, -, rfl⟩ := ServeNode.advance_eq hs
    exact h.keep id id (hquiet fun he => by cases he)
  | cleanup t =>
    obtain ⟨task, ht, -, rfl⟩ := ServeNode.step_cleanup hs
    by_cases hc : task.connectionId = c
    · exact .inr (.inr (endedSince_of_leaves ⟨t, task, rfl, ht, hc⟩))
    · refine h.keep id ?_ (hquiet fun he => by cases he)
      exact fun hmem => Finset.mem_erase.mpr ⟨fun he => hc he.symm, hmem⟩

theorem attended_control {view : Finset String} (hview : ∀ c ∈ view, Attended ms l.node c)
    {node' : ServeNode} {event : RelayControlEvent} (hs : l.node.step (.control event) = some node')
    {m : Move ControlLoop ControlLoopEvent} (hm : m.event = .hear) :
    ∀ c ∈ event.update view, Attended (ms ++ [m]) node' c := by
  obtain ⟨hpending, rfl⟩ := ServeNode.step_control hs
  have hkept : ∀ c ∈ view, Attended (ms ++ [m]) { l.node with pending := announced event } c := by
    intro c hc
    refine (hview c hc).keep ?_ id ?_
    · rw [hpending]
      exact fun hmem => absurd hmem List.not_mem_nil
    · rintro ⟨he, -⟩
      rw [hm] at he
      cases he
  intro c hc
  cases event with
  | connected connectionId =>
    rcases Finset.mem_insert.mp hc with rfl | hc
    · exact .inl (List.mem_singleton_self c)
    · exact hkept c hc
  | disconnected connectionId => exact hkept c (Finset.mem_of_mem_erase hc)
  | sync connectionIds => exact .inl (List.mem_toFinset.mp hc)
  | pong => exact hkept c hc

theorem attends_step (h : Attends session ms l) {event : ControlLoopEvent}
    (hs : l.step session event = some l') :
    Attends session (ms ++ [⟨l, event, l'⟩]) l' := by
  cases event with
  | relay event =>
    obtain ⟨world, hstep, rfl⟩ := Option.map_eq_some_iff.mp hs
    intro control hchannel
    obtain ⟨hheard, view, hview, hattended⟩ := h control hchannel
    obtain ⟨rest, hrest⟩ := inbound_step hstep control
    refine ⟨?_, view, ?_, ?_⟩
    · rw [← hrest, List.length_append]
      exact hheard.trans (Nat.le_add_right _ _)
    · rw [← hrest, List.take_append_of_le_length hheard]
      exact hview
    · exact fun c hc => (hattended c hc).keep id id fun hcomes => by cases hcomes.1
  | connect control =>
    obtain ⟨-, hs⟩ := Option.ite_none_right_eq_some.mp hs
    obtain rfl := Option.some.inj hs
    intro control' _
    refine ⟨Nat.zero_le _, ∅, rfl, ?_⟩
    intro c hc
    exact absurd hc (Finset.notMem_empty c)
  | hear =>
    obtain ⟨control, text, event, node, hchannel, htext, hevent, hstep, rfl⟩ := step_hear hs
    intro control' hchannel'
    obtain rfl := Option.some.inj (hchannel.symm.trans hchannel')
    obtain ⟨-, view, hview, hattended⟩ := h control hchannel
    refine ⟨(List.getElem?_eq_some_iff.mp htext).1, event.update view, ?_,
      attended_control hattended hstep rfl⟩
    change controlView session.serde ∅ ((inbound l.world control).take (l.heard + 1)) = _
    rw [List.take_add_one, htext, controlView_append, hview]
    simp [controlView, hevent]
  | hangUp =>
    obtain ⟨-, hs⟩ := Option.ite_none_right_eq_some.mp hs
    obtain rfl := Option.some.inj hs
    intro control hchannel
    cases hchannel
  | task event =>
    obtain ⟨hcontrol, hs⟩ := Option.ite_none_left_eq_some.mp hs
    obtain ⟨node, hstep, rfl⟩ := Option.map_eq_some_iff.mp hs
    intro control hchannel
    obtain ⟨hheard, view, hview, hattended⟩ := h control hchannel
    refine ⟨hheard, view, hview, ?_⟩
    exact fun c hc => (hattended c hc).task hstep (Bool.eq_false_of_not_eq_true hcontrol) _

theorem run_attended (hrun : Run (step session) (start session localProviders) ms l) :
    Attends session ms l := by
  apply hrun.history_invariant (P := Attends session)
  · intro control hchannel
    cases hchannel
  · intro ns l event l' _ h hs
    exact attends_step h hs

/-- Every connection that has a client at the relay has a task at the node, unless a task of it has
ended since it was announced: whenever the loop has read its whole control channel. -/
theorem run_attends (hserde : ReadsNotices session.serde)
    (hrun : Run (step session) (start session localProviders) ms l)
    (hchannel : l.channel = some control) (hstored : l.world.state.serverControl = some ⟨control⟩)
    (hdrained : (l.world.queue control.peerId).Drained)
    (hheard : (inbound l.world control).length ≤ l.heard) (hpending : l.node.pending = [])
    (hclient : hasClientSocket l.world.state c = true) :
    (∃ t task, l.node.task t = some task ∧ task.connectionId = c) ∨ EndedSince c ms := by
  obtain ⟨⟨ns, hworld⟩, ks, hnode⟩ := run_parts hrun
  obtain ⟨-, view, hview, hattended⟩ := run_attended hrun control hchannel
  have htracks := (World.run_settled hworld).tracks control.peerId
  have hinbound : inbound l.world control = texts (l.world.queue control.peerId).tried := by
    rw [inbound, hdrained.onWire_eq htracks.coherent, ← texts_filter_not_close,
      htracks.content hdrained.room, texts_filter_not_close]
  rw [List.take_of_length_le hheard, hinbound] at hview
  obtain ⟨view', hview', hmem⟩ := run_view_tried hserde hworld hstored
  obtain rfl := Option.some.inj (hview.symm.trans hview')
  rcases hattended c ((hmem c).mpr hclient) with hc | hc | hc
  · rw [hpending] at hc
    cases hc
  · exact .inl (((ServeNode.run_consistent hnode).active c).mp hc)
  · exact .inr hc

/-- A client comes while the node has no control channel, and the next channel tells of it. -/
def unheard : List ControlLoopEvent :=
  [.relay (.session (.register (nodeClient 1 "a")) []),
    .relay (.session (.register (nodeControl 2)) []),
    .connect (nodeControl 2), .relay (.queue ⟨2⟩ .recv)]

def atNotice : ControlLoop := outcome (step nodeSession) (start nodeSession ∅) unheard

def atAnnouncement : ControlLoop :=
  { atNotice with node := { atNotice.node with pending := ["a"] }, heard := 1 }

def atTask : ControlLoop :=
  { atAnnouncement with
    node := ⟨(ServeState.new ∅ |>.startConnection "a").1, [],
      Function.update (fun _ => none) 0 (some ⟨"a", .opening, []⟩), 1⟩ }

def noticed : List (Move ControlLoop ControlLoopEvent) :=
  history (step nodeSession) (start nodeSession ∅) unheard ++ [⟨atNotice, .hear, atAnnouncement⟩] ++
    [⟨atAnnouncement, .task .start, atTask⟩]

theorem run_noticed : Run (step nodeSession) (start nodeSession ∅) noticed atTask := by
  have hplay :
      (play (step nodeSession) (start nodeSession ∅) unheard).isSome = true := by decide +kernel
  have hchannel : atNotice.channel = some (nodeControl 2) := rfl
  have hheard : atNotice.heard = 0 := rfl
  have hinbound :
      inbound atNotice.world (nodeControl 2) = [nodeSession.serde.toText (syncJson ["a"])] := rfl
  -- the text is decoded by the law of the parser, not by running it
  have hnotice :
      RelayControlEvent.fromStr nodeSession.serde (nodeSession.serde.toText (syncJson ["a"])) =
      some (.sync ["a"]) := fromStr_sync plain_readsNotices ["a"]
  have hhear : atNotice.step nodeSession .hear = some atAnnouncement := by
    rw [step, hchannel, Option.bind_some, hinbound, hheard, List.getElem?_cons_zero,
      Option.bind_some, hnotice]
    rfl
  have hstart : atAnnouncement.step nodeSession (.task .start) = some atTask := rfl
  exact ((Run.of_outcome hplay).snoc hhear).snoc hstart

theorem run_attends_of_noticed :
    (∃ t task, atTask.node.task t = some task ∧ task.connectionId = "a") ∨
      EndedSince "a" noticed := by
  have hdrained : (atTask.world.queue (nodeControl 2).peerId).drained = true := by decide +kernel
  have hclient : hasClientSocket atTask.world.state "a" = true := by decide +kernel
  exact run_attends plain_readsNotices run_noticed rfl rfl (PeerQueue.drained_iff.mp hdrained)
    le_rfl rfl hclient

end ControlLoop

end NodeAccess.Serve
