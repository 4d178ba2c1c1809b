import NodeAccess.Serve.Ownership

/-! # Visits and the providers that they reach

In the three-role system the relay node checks the auth value of a visit against the last
Bind of the name that it has handled. The access node at the other end of the provider's mux
looks the name up in a map that it has made of all its mappings.
-/

namespace NodeAccess.Serve

open Foundation Mux Relay

inductive VisitOutcome where
  | dialLocal (addr : String)
  | openProvider (mux : TaskId)
  | rejected (error : String)
deriving DecidableEq, Repr

/-- What `handle_visit` does with what it has found under the lock. -/
def ServeState.handleVisit (state : ServeState) (name : String) (presented : Option String) :
    VisitOutcome :=
  match state.localProviders.get name, state.providers.get name with
  | some provider, _ =>
    if authMatches provider.auth presented then .dialLocal provider.addr
    else .rejected "visitor auth rejected"
  | none, some provider =>
    if authMatches provider.auth presented then .openProvider provider.mux
    else .rejected "visitor auth rejected"
  | none, none => .rejected "provider not found"

/-- The map that `run_once` makes of the mappings of an access node. -/
def targets (mappings : List TcpMapping) : Table String String :=
  .ofList (mappings.map fun mapping => (mapping.name, mapping.addr))

/-- A visit that has been let in and goes to the access node as a `ProviderConnect`. -/
structure Flight where
  mux : TaskId
  name : String
  presented : Option String
deriving DecidableEq, Repr

structure Dial extends Flight where
  addr : String
deriving DecidableEq, Repr

/-- A relay node with the access nodes of its data connections. `bound` counts the Binds that it
has handled of each of them. -/
structure Deployment extends ServeNode where
  bound : TaskId → ℕ
  flights : List Flight
  dialled : List Dial

inductive DeploymentEvent where
  | serve (event : ServeEvent)
  | bind (task : TaskId) (writerOpen : Bool)
  | visit (name : String) (presented : Option String)
  | connect (flight : Flight)
deriving DecidableEq, Repr

namespace Deployment

def init : Deployment := ⟨.init ∅, fun _ => 0, [], []⟩

/-- An access node sends the Binds of its mappings in their order. It dials no target for a
name that it does not have. -/
def step (mappings : TaskId → List TcpMapping) (d : Deployment) : DeploymentEvent →
    Option Deployment
  | .serve (.bind _ _ _ _) => none
  | .serve event => (d.toServeNode.step event).map fun node => { d with toServeNode := node }
  | .bind t writerOpen =>
    (mappings t)[d.bound t]?.bind fun mapping =>
      (d.toServeNode.step (.bind t mapping.name mapping.auth writerOpen)).map fun node =>
        { d with toServeNode := node, bound := Function.update d.bound t (d.bound t + 1) }
  | .visit name presented =>
    match d.state.handleVisit name presented with
    | .openProvider mux => some { d with flights := d.flights ++ [⟨mux, name, presented⟩] }
    | .dialLocal _ | .rejected _ => some d
  | .connect flight =>
    if flight ∈ d.flights then
      some { d with
        flights := d.flights.erase flight
        dialled := d.dialled ++
          ((targets (mappings flight.mux)).get flight.name).toList.map fun addr => ⟨flight, addr⟩ }
    else none

end Deployment

/-- The access node has a mapping for this dial that admits the visitor. -/
def Allowed (mappings : List TcpMapping) (dial : Dial) : Prop :=
  ∃ mapping ∈ mappings, mapping.name = dial.name ∧ mapping.addr = dial.addr ∧
    authMatches mapping.auth dial.presented = true

/-- Whoever may visit a name through one of its mappings may do so through a mapping that has the
last address of the name. -/
def OneAddress (mappings : List TcpMapping) : Prop :=
  ∀ mapping ∈ mappings, ∃ other ∈ mappings, other.name = mapping.name ∧
    (targets mappings).get mapping.name = some other.addr ∧
    (isPublic other.auth = true ∨ other.auth = mapping.auth)

/-! ## Where an auth value comes from -/

variable {mappings : TaskId → List TcpMapping} {d d' : Deployment}

/-- Every auth value that the relay node checks is that of a mapping of the name. -/
structure Deployment.Sourced (mappings : TaskId → List TcpMapping) (d : Deployment) : Prop where
  locals : ∀ name, d.state.localProviders.get name = none
  provider : ∀ name provider, d.state.providers.get name = some provider →
    ∃ mapping ∈ mappings provider.mux, mapping.name = name ∧ mapping.auth = provider.auth
  flight : ∀ flight ∈ d.flights, ∃ mapping ∈ mappings flight.mux, mapping.name = flight.name ∧
    authMatches mapping.auth flight.presented = true
  dial : ∀ dial ∈ d.dialled, (targets (mappings dial.mux)).get dial.name = some dial.addr ∧
    ∃ mapping ∈ mappings dial.mux, mapping.name = dial.name ∧
      authMatches mapping.auth dial.presented = true

theorem ServeNode.step_providers {node node' : ServeNode} {event : ServeEvent}
    (hs : node.step event = some node')
    (hbind : ∀ t name auth writerOpen, event ≠ .bind t name auth writerOpen) :
    node'.state.localProviders = node.state.localProviders ∧
      ∀ name provider, node'.state.providers.get name = some provider →
        node.state.providers.get name = some provider := by
  cases event with
  | control event =>
    obtain ⟨-, rfl⟩ := step_control hs
    exact ⟨rfl, fun _ _ h => h⟩
  | start =>
    obtain ⟨c, rest, -, ⟨-, rfl⟩ | ⟨-, rfl⟩⟩ := step_start hs <;> exact ⟨rfl, fun _ _ h => h⟩
  | opened t =>
    obtain ⟨task, -, -, rfl⟩ := advance_eq hs
    exact ⟨rfl, fun _ _ h => h⟩
  | bind t name auth writerOpen => exact absurd rfl (hbind t name auth writerOpen)
  | ended t =>
    obtain ⟨task, -, -, rfl⟩ := advance_eq hs
    exact ⟨rfl, fun _ _ h => h⟩
  | cleanup t =>
    obtain ⟨task, -, -, rfl⟩ := step_cleanup hs
    refine ⟨rfl, ?_⟩
    intro name provider hp
    dsimp only at hp
    rw [ServeState.cleanup_providers, Option.filter_eq_some_iff] at hp
    exact hp.1

theorem Deployment.Sourced.step (h : d.Sourced mappings) {event : DeploymentEvent}
    (hs : d.step mappings event = some d') : d'.Sourced mappings := by
  cases event with
  | serve event =>
    by_cases hbind : ∃ t name auth writerOpen, event = .bind t name auth writerOpen
    · obtain ⟨t, name, auth, writerOpen, rfl⟩ := hbind
      cases hs
    · push Not at hbind
      obtain ⟨node, hstep, rfl⟩ : ∃ node, d.toServeNode.step event = some node ∧
          { d with toServeNode := node } = d' := by
        cases event <;> first | exact Option.map_eq_some_iff.mp hs | cases hs
      obtain ⟨hlocal, hkept⟩ := ServeNode.step_providers hstep hbind
      refine ⟨?_, ?_, h.flight, h.dial⟩
      · intro name
        rw [hlocal]
        exact h.locals name
      · intro name provider hp
        exact h.provider name provider (hkept name provider hp)
  | bind t writerOpen =>
    simp only [Deployment.step, Option.bind_eq_some_iff, Option.map_eq_some_iff] at hs
    obtain ⟨mapping, hm, node, hstep, rfl⟩ := hs
    obtain ⟨task, -, -, rfl⟩ := ServeNode.step_bind hstep
    rcases d.state.handleBind_cases t task.connectionId mapping.name mapping.auth with
      ⟨existing, -, -, he⟩ | ⟨-, he⟩
    · refine ⟨?_, ?_, h.flight, h.dial⟩ <;> dsimp only <;> rw [he]
      · exact h.locals
      · exact h.provider
    · refine ⟨?_, ?_, h.flight, h.dial⟩ <;> dsimp only <;> rw [he]
      · exact h.locals
      · intro name provider hp
        rw [Table.get_insert] at hp
        split_ifs at hp with hname
        · cases hp
          exact ⟨mapping, List.mem_of_getElem? hm, hname.symm, rfl⟩
        · exact h.provider name provider hp
  | visit name presented =>
    simp only [Deployment.step, ServeState.handleVisit, h.locals name] at hs
    cases hp : d.state.providers.get name with
    | none =>
      simp only [hp, Option.some.injEq] at hs
      exact hs ▸ h
    | some provider =>
      by_cases hauth : authMatches provider.auth presented = true
      · simp only [hp, hauth, if_true, Option.some.injEq] at hs
        subst hs
        refine ⟨h.locals, h.provider, ?_, h.dial⟩
        intro flight hf
        rcases List.mem_append.mp hf with hf | hf
        · exact h.flight flight hf
        · obtain rfl := List.mem_singleton.mp hf
          obtain ⟨mapping, hm, hname, he⟩ := h.provider name provider hp
          exact ⟨mapping, hm, hname, he ▸ hauth⟩
      · simp only [hp, hauth, Bool.false_eq_true, if_false, Option.some.injEq] at hs
        exact hs ▸ h
  | connect flight =>
    simp only [Deployment.step, Option.ite_none_right_eq_some, Option.some.injEq] at hs
    obtain ⟨hf, rfl⟩ := hs
    refine ⟨h.locals, h.provider, ?_, ?_⟩
    · intro other ho
      exact h.flight other (List.mem_of_mem_erase ho)
    · intro dial hd
      rcases List.mem_append.mp hd with hd | hd
      · exact h.dial dial hd
      · obtain ⟨addr, ha, rfl⟩ := List.mem_map.mp hd
        exact ⟨Option.mem_toList.mp ha, h.flight flight hf⟩

theorem Deployment.run_sourced {ms : List (Move Deployment DeploymentEvent)}
    (hrun : Run (step mappings) init ms d) : d.Sourced mappings := by
  apply hrun.invariant (P := fun d => d.Sourced mappings)
  · constructor
    · intro name
      simp [init, ServeNode.init, ServeState.new]
    · intro name provider hp
      simp [init, ServeNode.init, ServeState.new] at hp
    · intro flight hf
      cases hf
    · intro dial hd
      cases hd
  · exact fun _ _ _ h hs => h.step hs

/-! ## Visits between two Binds -/

/-- A relay node whose only data connection has sent it so many Binds. -/
structure Deployment.Bound (mappings : List TcpMapping) (n : ℕ) (d : Deployment) : Prop where
  bound : d.bound 0 = n
  task : ∃ acks, d.task 0 = some ⟨"c", .running, acks⟩
  locals : ∀ name, d.state.localProviders.get name = none
  own : ∀ name provider, d.state.providers.get name = some provider → provider.connectionId = "c"
  last : ∀ mapping, mappings[n - 1]? = some mapping → 0 < n →
    d.state.providers.get mapping.name = some ⟨"c", 0, mapping.auth⟩
  dialled : d.flights = [] ∧ d.dialled = []

theorem Deployment.run_bound (list : List TcpMapping) (n : ℕ) (hn : n ≤ list.length) :
    ∃ ms d, Run (step fun _ => list) init ms d ∧ d.Bound list n := by
  induction n with
  | zero =>
    have hrun : Run (step fun _ => list) init
        (history (step fun _ => list) init
          [.serve (.control (.connected "c")), .serve .start, .serve (.opened 0)]) _ :=
            Run.of_outcome rfl
    refine ⟨_, _, hrun, rfl, ⟨[], rfl⟩, fun _ => rfl, ?_, ?_, rfl, rfl⟩
    · intro name provider hp
      cases hp
    · intro mapping _ hpos
      cases hpos
  | succ n ih =>
    obtain ⟨ms, d, hrun, h⟩ := ih (Nat.le_of_succ_le hn)
    obtain ⟨acks, ht⟩ := h.task
    have hm : list[n]? = some list[n] := List.getElem?_eq_getElem hn
    generalize list[n] = mapping at hm
    have hbound : d.state.handleBind 0 "c" mapping.name mapping.auth =
        ({ d.state with providers := d.state.providers.insert mapping.name ⟨"c", 0, mapping.auth⟩ },
          .bindAck mapping.name true none) := by
      rcases d.state.handleBind_cases 0 "c" mapping.name mapping.auth with ⟨existing, hx, hne, -⟩ |
        ⟨-, he⟩
      · exact absurd (h.own _ _ hx) hne
      · exact he
    have hs : d.step (fun _ => list) (.bind 0 true) = some { d with
        state := { d.state with providers :=
          d.state.providers.insert mapping.name ⟨"c", 0, mapping.auth⟩ }
        task := Function.update d.task 0
          (some ⟨"c", .running, acks ++ [.bindAck mapping.name true none]⟩)
        bound := Function.update d.bound 0 (n + 1) } := by
      simp [step, h.bound, hm, ServeNode.step, ht, hbound, ServeNode.setTask]
    refine ⟨_, _, hrun.snoc hs, ?_, ⟨acks ++ [.bindAck mapping.name true none], ?_⟩, h.locals, ?_,
      ?_, h.dialled⟩
    · simp
    · simp
    · intro name provider hp
      dsimp only at hp
      rw [Table.get_insert] at hp
      split_ifs at hp
      · cases hp
        rfl
      · exact h.own name provider hp
    · intro other ho _
      rw [Nat.add_sub_cancel, hm, Option.some.injEq] at ho
      subst ho
      exact Table.get_insert_self _ _ _

theorem targets_append (mappings : List TcpMapping) (mapping : TcpMapping) (name : String) :
    (targets (mappings ++ [mapping])).get name =
      if name = mapping.name then some mapping.addr else (targets mappings).get name := by
  rw [targets, List.map_append]
  exact Table.get_ofList_append _ _ _ _

theorem exists_target {mappings : List TcpMapping} {mapping : TcpMapping} (h : mapping ∈ mappings) :
    ∃ addr, (targets mappings).get mapping.name = some addr := by
  induction mappings using List.reverseRecOn with
  | nil => cases h
  | append_singleton mappings last ih =>
    rw [targets_append]
    split_ifs with hname
    · exact ⟨_, rfl⟩
    · apply ih
      rcases List.mem_append.mp h with h | h
      · exact h
      · exact absurd (congrArg TcpMapping.name (List.mem_singleton.mp h)) hname

/-- A visit that presents the auth value of a mapping reaches the target of its name. -/
theorem run_visit {list : List TcpMapping} {mapping : TcpMapping} {addr : String}
    (h : mapping ∈ list) (ha : (targets list).get mapping.name = some addr) :
    ∃ ms d, Run (Deployment.step fun _ => list) .init ms d ∧
      d.dialled = [⟨⟨0, mapping.name, mapping.auth⟩, addr⟩] := by
  obtain ⟨n, hn, he⟩ := List.getElem_of_mem h
  have hm : list[n]? = some mapping := by rw [List.getElem?_eq_getElem hn, he]
  obtain ⟨ms, d, hrun, hd⟩ := Deployment.run_bound list (n + 1) hn
  have hp := hd.last mapping (by simpa using hm) (Nat.succ_pos n)
  have hself : authMatches mapping.auth mapping.auth = true := by
    rw [authMatches_eq, decide_eq_true rfl, Bool.or_true]
  have hvisit : d.step (fun _ => list) (.visit mapping.name mapping.auth) =
      some { d with flights := [⟨0, mapping.name, mapping.auth⟩] } := by
    simp [Deployment.step, ServeState.handleVisit, hd.locals, hp, hself, hd.dialled.1]
  have hconnect :
      Deployment.step (fun _ => list) { d with flights := [⟨0, mapping.name, mapping.auth⟩] }
      (.connect ⟨0, mapping.name, mapping.auth⟩) =
        some { d with flights := [], dialled := [⟨⟨0, mapping.name, mapping.auth⟩, addr⟩] } := by
    simp [Deployment.step, ha, hd.dialled.2]
  exact ⟨_, _, (hrun.snoc hvisit).snoc hconnect, rfl⟩

/-- Every visit that an access node with these mappings dials is allowed by one of them, in every
run, if and only if all that may visit a name may do so at its last address. -/
theorem dials_allowed_iff (list : List TcpMapping) :
    (∀ mappings ms d, Run (Deployment.step mappings) .init ms d →
        ∀ dial ∈ d.dialled, mappings dial.mux = list → Allowed list dial) ↔ OneAddress list := by
  constructor
  · intro hallowed mapping hm
    obtain ⟨addr, ha⟩ := exists_target hm
    obtain ⟨ms, d, hrun, hd⟩ := run_visit hm ha
    obtain ⟨other, ho, hname, haddr, hauth⟩ :=
      hallowed (fun _ => list) ms d hrun ⟨⟨0, mapping.name, mapping.auth⟩, addr⟩ (by simp [hd]) rfl
    refine ⟨other, ho, hname, haddr ▸ ha, ?_⟩
    simpa [authMatches_eq] using hauth
  · rintro hone mappings ms d hrun dial hd rfl
    obtain ⟨ha, mapping, hm, hname, hauth⟩ := (Deployment.run_sourced hrun).dial dial hd
    obtain ⟨other, ho, hname', haddr, hopen⟩ := hone mapping hm
    rw [hname, ha, Option.some.injEq] at haddr
    exact ⟨other, ho, hname'.trans hname, haddr.symm, authMatches_mono_iff.mpr hopen _ hauth⟩

/-- One name for two addresses, each with an auth value of its own. -/
def sharedName : List TcpMapping :=
  [⟨"ssh", "10.0.0.1:22", some "alice"⟩, ⟨"ssh", "10.0.0.2:22", some "bob"⟩]

/-- A visit with the first value, between the two Binds, is dialled to the second address. -/
theorem dial_disallowed_of_sharedName : ∃ ms d,
    Run (Deployment.step fun _ => sharedName) .init ms d ∧ ∃ dial ∈ d.dialled,
      ¬ Allowed sharedName dial := by
  have hfirst : (⟨"ssh", "10.0.0.1:22", some "alice"⟩ : TcpMapping) ∈ sharedName :=
    List.mem_cons_self
  have htarget : (targets sharedName).get "ssh" = some "10.0.0.2:22" := rfl
  obtain ⟨ms, d, hrun, hd⟩ := run_visit hfirst htarget
  refine ⟨ms, d, hrun, _, hd ▸ List.mem_singleton_self _, ?_⟩
  rintro ⟨mapping, hm, -, haddr, hauth⟩
  simp only [sharedName, List.mem_cons, List.not_mem_nil, or_false] at hm
  rcases hm with rfl | rfl
  · revert haddr
    decide
  · revert hauth
    decide

end NodeAccess.Serve
