import NodeAccess.Nodes.Visits
import NodeAccess.Serve.Acknowledgement
import NodeAccess.Serve.Reachability
import NodeAccess.Tunnel.Told

/-! # The answers to the Binds

A node that provides sends a Bind for each of its mappings, and the serving node answers each. What
the answers say comes back in the order of the mappings, and a name whose Bind was answered with ok
leads to this node for as long as the task of its data connection is there.
-/

namespace NodeAccess.Nodes

open Foundation Crypto Mux Serve Tunnel

variable {locals : Table String TcpMapping} {mappings : ℕ → List TcpMapping} {serde : SerdeSlice}
    {aes : AesGcm}
  {crypto : ℕ → Side → Option FrameCrypto} {t t' : Tools}

theorem isPrefix_snoc {α : Type*} {l m : List α} {a : α} (h : l <+: m)
    (ha : m[l.length]? = some a) :
    l ++ [a] <+: m := by
  obtain ⟨rest, rfl⟩ := h
  rw [List.getElem?_append_right le_rfl, Nat.sub_self] at ha
  obtain ⟨rest, rfl⟩ : ∃ more, rest = a :: more := by
    cases rest with
    | nil => cases ha
    | cons b more => exact ⟨more, by rw [← Option.some.inj ha]⟩
  exact ⟨rest, by simp⟩

/-- The Bind that a node sends for a mapping. -/
def bindOf (mapping : TcpMapping) : ControlMessage := .bind mapping.name mapping.auth

namespace Tools

/-- The control messages that an end has sent. -/
def said (t : Tools) (conn : ℕ) (side : Side) : List ControlMessage :=
  controls (t.net.endpoint conn side).sent

/-- A step that has nothing to do with Binds. -/
structure Quiet (t t' : Tools) : Prop where
  net : t.net.Quiet t'.net
  bound : t'.bound = t.bound
  handled : t'.handled = t.handled
  node : t'.node = t.node ∨ ∃ event, isBind event = false ∧ t.node.step event = some t'.node

theorem quiet_callMux {u : Tools} {conn : ℕ} {side : Side} {call : StreamEvent}
    (h : u.callMux serde aes conn side call = some t') (htold : call.told = none)
    (hnet : u.net = t.net) (hbound : u.bound = t.bound) (hhandled : u.handled = t.handled)
    (hnode : u.node = t.node) : t.Quiet t' := by
  obtain ⟨net, hs, rfl⟩ := Option.map_eq_some_iff.mp h
  exact ⟨hnet ▸ Net.quiet_of_call hs htold, hbound, hhandled, .inl hnode⟩

theorem quiet_giveUp {u : Tools} {e : PipeEnd} (h : u.giveUp serde aes e = some t')
    (hnet : u.net = t.net) (hbound : u.bound = t.bound) (hhandled : u.handled = t.handled)
    (hnode : u.node = t.node) : t.Quiet t' := by
  obtain ⟨net, hs, rfl⟩ := Option.map_eq_some_iff.mp h
  exact ⟨hnet ▸ Net.quiet_of_step hs fun _ _ => rfl, hbound, hhandled, .inl hnode⟩

theorem quiet_same (hnet : t'.net = t.net) (hbound : t'.bound = t.bound)
    (hhandled : t'.handled = t.handled) (hnode : t'.node = t.node) : t.Quiet t' :=
  ⟨hnet ▸ Net.quiet_rfl _, hbound, hhandled, .inl hnode⟩

theorem quiet_work {event : NetEvent} {net : Net} (hwork : isWork event = true)
    (hs : t.net.step serde aes event = some net) : t.Quiet (t.setNet net) := by
  refine ⟨Net.quiet_of_step hs ?_, rfl, rfl, .inl rfl⟩
  intro conn side
  cases hcall : Net.calls conn side event with
  | none => rfl
  | some call =>
    cases event with
    | mux conn' event =>
      cases event with
      | call side' event =>
        obtain ⟨-, -, rfl⟩ := calls_call hcall
        cases call with
        | reap i => rfl
        | _ => cases hwork
      | _ =>
        rw [Net.calls] at hcall
        split_ifs at hcall
        cases hcall
    | _ => cases hcall

theorem step_quiet {event : ToolEvent} (h : t.step serde aes mappings event = some t')
    (hbind : ∀ conn, event ≠ .sendBind conn) (hcontrol : ∀ conn, event ≠ .control conn) :
    t.Quiet t' := by
  cases event with
  | net event =>
    obtain ⟨hwork, h⟩ := Option.ite_none_right_eq_some.mp h
    obtain ⟨net, hs, rfl⟩ := Option.map_eq_some_iff.mp h
    exact quiet_work hwork hs
  | serve event =>
    simp only [step] at h
    split_ifs at h with hb
    obtain ⟨node, hs, rfl⟩ := Option.map_eq_some_iff.mp h
    exact ⟨Net.quiet_rfl _, rfl, rfl, .inr ⟨event, Bool.eq_false_of_not_eq_true hb, hs⟩⟩
  | sendBind conn => exact absurd rfl (hbind conn)
  | control conn => exact absurd rfl (hcontrol conn)
  | incoming conn side =>
    obtain ⟨-, h⟩ := Option.ite_none_right_eq_some.mp h
    obtain ⟨⟨request, ref⟩, -, h⟩ := Option.bind_eq_some_iff.mp h
    unfold dispatch at h
    split at h
    · exact Option.some.inj h ▸ quiet_same rfl rfl rfl rfl
    · exact Option.some.inj h ▸ quiet_same rfl rfl rfl rfl
    · split at h
      · exact Option.some.inj h ▸ quiet_same rfl rfl rfl rfl
      · exact quiet_giveUp h rfl rfl rfl rfl
    · exact quiet_giveUp h rfl rfl rfl rfl
  | lookUp conn ref name presented =>
    obtain ⟨-, h⟩ := Option.ite_none_right_eq_some.mp h
    split at h
    · exact Option.some.inj h ▸ quiet_same rfl rfl rfl rfl
    · exact Option.some.inj h ▸ quiet_same rfl rfl rfl rfl
    · exact quiet_giveUp h rfl rfl rfl rfl
  | accept conn request =>
    obtain ⟨-, h⟩ := Option.ite_none_right_eq_some.mp h
    exact Option.some.inj h ▸ quiet_same rfl rfl rfl rfl
  | openBegin a => exact quiet_callMux (Option.ite_none_right_eq_some.mp h).2 rfl rfl rfl rfl rfl
  | openFinish a i =>
    obtain ⟨-, h⟩ := Option.ite_none_right_eq_some.mp h
    obtain ⟨next, hcall, h⟩ := Option.bind_eq_some_iff.mp h
    obtain ⟨n₁, hs, rfl⟩ := Option.map_eq_some_iff.mp hcall
    have hfirst : t.net.Quiet n₁ := Net.quiet_of_call hs rfl
    split_ifs at h
    · obtain ⟨n₂, hpipe, rfl⟩ := Option.map_eq_some_iff.mp h
      exact ⟨hfirst.trans (Net.quiet_of_step hpipe fun _ _ => rfl), rfl, rfl, .inl rfl⟩
    · obtain ⟨n₂, hdrop, rfl⟩ := Option.map_eq_some_iff.mp h
      exact ⟨hfirst.trans (Net.quiet_of_step hdrop fun _ _ => rfl), rfl, rfl, .inl rfl⟩
  | socks conn event =>
    obtain ⟨⟨-, hhandshake⟩, h⟩ := Option.ite_none_right_eq_some.mp h
    refine quiet_callMux h ?_ rfl rfl rfl rfl
    cases event with
    | sendControl message => cases hhandshake
    | _ => rfl
  | connected job =>
    obtain ⟨-, h⟩ := Option.ite_none_right_eq_some.mp h
    obtain ⟨net, hs, rfl⟩ := Option.map_eq_some_iff.mp h
    exact ⟨Net.quiet_of_step hs fun _ _ => rfl, rfl, rfl, .inl rfl⟩
  | failed job => exact quiet_giveUp (Option.ite_none_right_eq_some.mp h).2 rfl rfl rfl rfl

/-- Binds are sent and answered in the order of the mappings, one after the other. -/
structure Answering (locals : Table String TcpMapping) (mappings : ℕ → List TcpMapping)
    (t : Tools) : Prop where
  node : ∃ ks, Run ServeNode.step (.init locals) ks t.node
  asked : ∀ conn, t.said conn .odd <+: (mappings conn).map bindOf
  bound : ∀ conn, (t.net.endpoint conn .odd).writerOpen = true →
    (t.said conn .odd).length = t.bound conn
  answered : ∀ conn, (t.said conn .even).map ackedName <+: (mappings conn).map fun mapping =>
    some mapping.name
  handled : ∀ conn, (t.net.endpoint conn .even).writerOpen = true →
    (t.said conn .even).length = t.handled conn
  acks : ∀ conn task, t.node.task conn = some task → t.said conn .even ⊆ task.acks
  fresh : ∀ conn, t.node.spawned ≤ conn → t.said conn .even = []

theorem answering_start (crypto : ℕ → Side → Option FrameCrypto) :
    (start crypto locals).Answering locals mappings where
  node := ⟨[], Run.nil⟩
  asked _ := List.nil_prefix
  bound _ _ := rfl
  answered _ := List.nil_prefix
  handled _ _ := rfl
  acks _ _ ht := by cases ht
  fresh _ _ := rfl

theorem Answering.quiet (h : t.Answering locals mappings) (hq : t.Quiet t') :
    t'.Answering locals mappings := by
  have hsaid : ∀ conn side, t'.said conn side = t.said conn side := by
    intro conn side
    have hcontrols := (hq.net conn side).controls
    rwa [Option.toList_none, ite_self, List.append_nil] at hcontrols
  obtain ⟨ks, hrun⟩ := h.node
  have hnode :
      (∃ ks, Run ServeNode.step (.init locals) ks t'.node) ∧ t.node.spawned ≤ t'.node.spawned ∧
      ∀ conn task, t'.node.task conn = some task → conn = t.node.spawned ∨
        ∃ old, t.node.task conn = some old ∧ old.acks = task.acks := by
    rcases hq.node with hsame | ⟨event, hbind, hs⟩
    · rw [hsame]
      exact ⟨⟨ks, hrun⟩, le_rfl, fun _ task ht => .inr ⟨task, ht, rfl⟩⟩
    · have hno : ∀ u name auth writerOpen, event ≠ .bind u name auth writerOpen := by
        rintro u name auth writerOpen rfl
        cases hbind
      obtain ⟨hspawned, htasks⟩ := ServeNode.tasks_step hs hno
      refine ⟨⟨_, hrun.snoc hs⟩, hspawned, ?_⟩
      intro conn task ht
      rcases htasks conn task ht with ⟨hnew, -⟩ | ⟨old, hold, -, hacks⟩
      · exact .inl hnew
      · exact .inr ⟨old, hold, hacks⟩
  obtain ⟨hnode, hspawned, htasks⟩ := hnode
  constructor
  case node => exact hnode
  case asked => exact fun conn => hsaid conn .odd ▸ h.asked conn
  case bound =>
    intro conn hw
    rw [hsaid, hq.bound]
    exact h.bound conn ((hq.net conn .odd).writer hw)
  case answered => exact fun conn => hsaid conn .even ▸ h.answered conn
  case handled =>
    intro conn hw
    rw [hsaid, hq.handled]
    exact h.handled conn ((hq.net conn .even).writer hw)
  case acks =>
    intro conn task ht
    rw [hsaid]
    rcases htasks conn task ht with rfl | ⟨old, hold, hacks⟩
    · rw [h.fresh _ le_rfl]
      exact List.nil_subset _
    · exact hacks ▸ h.acks conn old hold
  case fresh =>
    intro conn hle
    rw [hsaid]
    exact h.fresh conn (hspawned.trans hle)

theorem said_sendControl {u : Tools} {conn : ℕ} {side : Side} {message : ControlMessage}
    (h : u.callMux serde aes conn side (.sendControl message) = some t') (hnet : u.net = t.net) :
    (t'.said conn side = t.said conn side ++ if (t.net.endpoint conn side).writerOpen then [message]
      else []) ∧
      (∀ conn' side', conn' ≠ conn ∨ side' ≠ side → t'.said conn' side' = t.said conn' side') ∧
      (∀ conn' side', (t'.net.endpoint conn' side').writerOpen = true →
        (t.net.endpoint conn' side').writerOpen = true) ∧
      t'.node = u.node ∧ t'.bound = u.bound ∧ t'.handled = u.handled := by
  obtain ⟨net, hs, rfl⟩ := Option.map_eq_some_iff.mp h
  rw [hnet] at hs
  refine ⟨?_, ?_, fun conn' side' => (Net.tells_step hs conn' side').writer, rfl, rfl, rfl⟩
  · have hcontrols := (Net.tells_step hs conn side).controls
    rwa [Net.calls, if_pos rfl, PairEvent.calls, if_pos rfl] at hcontrols
  · intro conn' side' hne
    have hcontrols := (Net.tells_step hs conn' side').controls
    have hnone : Net.calls conn' side' (.mux conn (.call side (.sendControl message))) = none := by
      rw [Net.calls, PairEvent.calls]
      split_ifs with hconn hside
      · exact absurd hside.symm (hne.resolve_left (not_not.mpr hconn.symm))
      · rfl
      · rfl
    rwa [hnone, Option.bind_none, Option.toList_none, ite_self, List.append_nil] at hcontrols

theorem Answering.sendBind (h : t.Answering locals mappings) {conn : ℕ}
    (hs : t.step serde aes mappings (.sendBind conn) = some t') : t'.Answering locals mappings := by
  obtain ⟨mapping, hmapping, hs⟩ := Option.bind_eq_some_iff.mp hs
  obtain ⟨hsaid, hothers, hwriter, hnode, hbound, hhandled⟩ := said_sendControl (t := t) hs rfl
  have heven : ∀ conn', t'.said conn' .even = t.said conn' .even :=
    fun conn' => hothers conn' .even (.inr fun he => by cases he)
  constructor
  case node => exact hnode ▸ h.node
  case asked =>
    intro conn'
    by_cases hc : conn' = conn
    · subst hc
      rw [hsaid]
      split_ifs with hw
      · apply isPrefix_snoc (h.asked conn')
        rw [h.bound conn' hw, List.getElem?_map, hmapping]
        rfl
      · rw [List.append_nil]
        exact h.asked conn'
    · rw [hothers conn' .odd (.inl hc)]
      exact h.asked conn'
  case bound =>
    intro conn' hw
    have hw' := hwriter conn' .odd hw
    rw [hbound]
    dsimp only
    by_cases hc : conn' = conn
    · subst hc
      rw [hsaid, if_pos hw', List.length_append, h.bound conn' hw', Function.update_self]
      rfl
    · rw [hothers conn' .odd (.inl hc), h.bound conn' hw', Function.update_of_ne hc]
  case answered => exact fun conn' => heven conn' ▸ h.answered conn'
  case handled =>
    intro conn' hw
    rw [heven, hhandled]
    exact h.handled conn' (hwriter conn' .even hw)
  case acks => exact fun conn' task ht => heven conn' ▸ h.acks conn' task (hnode ▸ ht)
  case fresh => exact fun conn' hle => heven conn' ▸ h.fresh conn' (hnode ▸ hle)

theorem Answering.heard (h : t.Answering locals mappings) (hserde : serde.Inverts)
    (haes : aes.Ideal) {ms : List (Move Net NetEvent)}
    (hrun : Run (Net.step serde aes) (Net.start crypto) ms t.net) (hbound : t.net.Bounded)
    {conn k : ℕ} {message : ControlMessage}
    (hk : (((t.net.pair conn).mux .even).control)[k]? = some message) :
    ∃ mapping, (mappings conn)[k]? = some mapping ∧ message = bindOf mapping := by
  have hbegins := (Net.control_begins hserde haes hrun hbound conn .even).trans (h.asked conn)
  obtain ⟨rest, hrest⟩ := hbegins
  have hmapped : ((mappings conn).map bindOf)[k]? = some message := by
    rw [← hrest, List.getElem?_append_left (List.getElem?_eq_some_iff.mp hk).1, hk]
  rw [List.getElem?_map, Option.map_eq_some_iff] at hmapped
  obtain ⟨mapping, hmapping, rfl⟩ := hmapped
  exact ⟨mapping, hmapping, rfl⟩

theorem Answering.control (h : t.Answering locals mappings) (hserde : serde.Inverts)
    (haes : aes.Ideal) {ms : List (Move Net NetEvent)}
    (hrun : Run (Net.step serde aes) (Net.start crypto) ms t.net) (hbound : t.net.Bounded)
    {conn : ℕ} (hs : t.step serde aes mappings (.control conn) = some t') :
    t'.Answering locals mappings := by
  obtain ⟨task, htask, hs⟩ := Option.bind_eq_some_iff.mp hs
  obtain ⟨message, hmessage, hs⟩ := Option.bind_eq_some_iff.mp hs
  obtain ⟨mapping, hmapping, rfl⟩ := h.heard hserde haes hrun hbound hmessage
  obtain ⟨node, hnode, hs⟩ := Option.bind_eq_some_iff.mp hs
  obtain ⟨hsaid, hothers, hwriter, hsame, hbounds, hhandled⟩ := said_sendControl (t := t) hs rfl
  obtain ⟨data, hdata, -, rfl⟩ := ServeNode.step_bind hnode
  obtain rfl :
    data = task := Option.some.inj (hdata.symm.trans (Option.filter_eq_some_iff.mp htask).1)
  have hodd : ∀ conn', t'.said conn' .odd = t.said conn' .odd :=
    fun conn' => hothers conn' .odd (.inr fun he => by cases he)
  have hname :
      ackedName (t.node.state.handleBind conn data.connectionId mapping.name mapping.auth).2 =
      some mapping.name := by
    rcases t.node.state.handleBind_cases conn data.connectionId mapping.name mapping.auth with
      ⟨-, -, -, he⟩ | ⟨-, he⟩ <;> rw [he] <;> rfl
  constructor
  case node =>
    obtain ⟨ks, hrun⟩ := h.node
    exact hsame ▸ ⟨_, hrun.snoc hnode⟩
  case asked => exact fun conn' => hodd conn' ▸ h.asked conn'
  case bound =>
    intro conn' hw
    rw [hodd, hbounds]
    exact h.bound conn' (hwriter conn' .odd hw)
  case answered =>
    intro conn'
    by_cases hc : conn' = conn
    · subst hc
      rw [hsaid]
      split_ifs with hw
      · rw [List.map_append, List.map_singleton, hname]
        apply isPrefix_snoc (h.answered conn')
        rw [List.length_map, h.handled conn' hw, List.getElem?_map, hmapping]
        rfl
      · rw [List.append_nil]
        exact h.answered conn'
    · rw [hothers conn' .even (.inl hc)]
      exact h.answered conn'
  case handled =>
    intro conn' hw
    have hw' := hwriter conn' .even hw
    rw [hhandled]
    dsimp only
    by_cases hc : conn' = conn
    · subst hc
      rw [hsaid, if_pos hw', List.length_append, h.handled conn' hw', Function.update_self]
      rfl
    · rw [hothers conn' .even (.inl hc), h.handled conn' hw', Function.update_of_ne hc]
  case acks =>
    intro conn' task ht
    rw [hsame] at ht
    dsimp only at ht
    by_cases hc : conn' = conn
    · subst hc
      rw [Function.update_self, Option.some.injEq] at ht
      subst ht
      rw [hsaid]
      apply List.append_subset.mpr
      refine ⟨fun _ hm => List.mem_append_left _ (h.acks conn' data hdata hm), ?_⟩
      split_ifs
      · exact fun _ hm => List.mem_append_right _ hm
      · exact List.nil_subset _
    · rw [Function.update_of_ne hc] at ht
      rw [hothers conn' .even (.inl hc)]
      exact h.acks conn' task ht
  case fresh =>
    intro conn' hle
    rw [hsame] at hle
    obtain ⟨ks, hrun⟩ := h.node
    have hne : conn' ≠ conn := by
      rintro rfl
      rw [(ServeNode.run_consistent hrun).fresh conn' hle] at hdata
      cases hdata
    rw [hothers conn' .even (.inl hne)]
    exact h.fresh conn' hle

theorem run_answering (hserde : serde.Inverts) (haes : aes.Ideal) {ms : List (Move Tools ToolEvent)}
    (hrun : Run (step serde aes mappings) (start crypto locals) ms t) (hbound : t.net.Bounded) :
    t.Answering locals mappings := by
  apply hrun.history_invariant (P := fun _ t => t.net.Bounded → t.Answering locals mappings)
    (fun _ => answering_start crypto) _ hbound
  intro ns u event v hu h hs hb
  have hbefore := hb.of_continues (continues_step hs)
  obtain ⟨ks, hnet⟩ := (run_sound hserde haes hu hbefore).run
  by_cases hbind : ∃ conn, event = .sendBind conn
  · obtain ⟨conn, rfl⟩ := hbind
    exact (h hbefore).sendBind hs
  · by_cases hcontrol : ∃ conn, event = .control conn
    · obtain ⟨conn, rfl⟩ := hcontrol
      exact (h hbefore).control hserde haes hnet hbefore hs
    · push Not at hbind hcontrol
      exact (h hbefore).quiet (step_quiet hs hbind hcontrol)

/-! ## What the providing node hears -/

/-- The answers that a node has heard are those to its Binds, in their order. A name that was
answered with ok leads to the node, unless the serving node has a provider of the name itself. -/
structure Informed (t : Tools) (locals : Table String TcpMapping) (mappings : ℕ → List TcpMapping)
    (conn : ℕ) :
    Prop where
  names : (((t.net.pair conn).mux .odd).control.map ackedName) <+: (mappings conn).map
    fun mapping => some mapping.name
  reaches : ∀ name error, .bindAck name true error ∈ ((t.net.pair conn).mux .odd).control →
    (t.node.task conn).isSome = true → locals.get name = none →
      ∃ mapping ∈ mappings conn, mapping.name = name ∧
        ∀ presented, Reaches t.node.state conn name mapping.auth presented
  whole : t.handled conn = ((t.net.pair conn).mux .even).control.length →
    (∀ side, (t.net.pair conn).Drained side) →
      (((t.net.pair conn).mux .odd).control.map ackedName) =
      ((mappings conn).take (t.bound conn)).map fun mapping => some mapping.name

/-- Every run tells a node what has become of its Binds. -/
theorem run_informed (hserde : serde.Inverts) (haes : aes.Ideal) {ms : List (Move Tools ToolEvent)}
    (hrun : Run (step serde aes mappings) (start crypto locals) ms t) (hbound : t.net.Bounded)
    (conn : ℕ) :
    t.Informed locals mappings conn := by
  have hsound := run_sound hserde haes hrun hbound
  have hanswering := run_answering hserde haes hrun hbound
  obtain ⟨ns, hnet⟩ := hsound.run
  obtain ⟨ks, hnode⟩ := hanswering.node
  have hheard : ((t.net.pair conn).mux .odd).control <+: t.said conn .even :=
    Net.control_begins hserde haes hnet hbound conn .odd
  constructor
  · exact (hheard.map ackedName).trans (hanswering.answered conn)
  · intro name error hack htask hlocal
    obtain ⟨task, htask⟩ := Option.isSome_iff_exists.mp htask
    have hacked := hanswering.acks conn task htask (hheard.subset hack)
    obtain ⟨auth, hp⟩ := ServeNode.run_registers hnode conn task name error htask hacked
    obtain ⟨mapping, hmapping, hname, rfl⟩ := hsound.provider name _ hp
    refine ⟨mapping, hmapping, hname, ?_⟩
    intro presented
    have hvisit : t.node.state.handleVisit name presented =
        if authMatches mapping.auth presented then .openProvider conn
          else .rejected "visitor auth rejected" := by
      rw [ServeState.handleVisit, hsound.localProviders, hlocal, hp]
    rw [Reaches, hvisit]
    by_cases hmatch : authMatches mapping.auth presented = true
    · simp [hmatch]
    · simp [hmatch]
  · intro htaken hdrained
    obtain ⟨ps, hpair, -⟩ := Net.run_continues hnet conn
    have hodd :=
      ((Pair.run_handsOver hserde haes hpair (hbound conn) .odd).drained (hdrained .odd)).1
    have heven :=
      ((Pair.run_handsOver hserde haes hpair (hbound conn) .even).drained (hdrained .even)).1
    have hlength : (t.said conn .even).length = t.bound conn := by
      rw [hanswering.handled conn (hdrained .odd).writer, htaken, heven,
        ← hanswering.bound conn (hdrained .even).writer]
      rfl
    have hanswered := List.prefix_iff_eq_take.mp (hanswering.answered conn)
    rw [List.length_map, hlength, ← List.map_take] at hanswered
    rw [hodd]
    exact hanswered

/-- The node that announces "web" hears that it has the name. -/
theorem run_informed_of_webVisited :
    .bindAck "web" true none ∈ ((atWeb.net.pair 0).mux .odd).control ∧
    atWeb.Informed ∅ webMappings 0 := by
  have hbound : atWeb.net.Bounded := run_bounded run_atWeb (by decide +kernel)
  exact ⟨by decide +kernel, run_informed SerdeSlice.plain_inverts namedCipher_ideal run_atWeb hbound
    0⟩

end Tools

end NodeAccess.Nodes
