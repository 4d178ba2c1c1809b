import NodeAccess.Relay.Admission
import NodeAccess.Relay.Tenure

/-! # The limit on live sockets

`count_live_sockets` counts the handles in the slots, and a peer that has lost its slot
stays live until its `run_peer` unregisters. The live sockets of a session are the
counted ones and these.
-/

namespace NodeAccess.Relay

open Foundation

/-- The peers that have registered and have not reached `unregister`. -/
def Core.live (core : Core) : Set PeerId := {p | ∃ peerMeta, core.phase p = .registered peerMeta}

/-- The live peers that have lost their slot. -/
def Core.lingering (core : Core) : Set PeerId :=
  {p | ∃ peerMeta, core.phase p = .registered peerMeta ∧ ¬ Stored core.state peerMeta}

/-- The handles in all slots. -/
def SessionState.handles (state : SessionState) : List PeerHandle :=
  state.slots ++ state.serverData.values ++
    state.clients.keys.flatMap fun id => (state.connection id).members.values

/-! ## What is counted -/

theorem slotCount_eq (slot : Option PeerHandle) : slotCount slot = slot.toList.length := by
  cases slot <;> rfl

theorem length_handles (state : SessionState) : state.handles.length = countLiveSockets state := by
  have hclients :
      (state.clients.keys.flatMap fun id => (state.connection id).members.values).length =
      state.clients.total Table.len := by
    rw [List.length_flatMap, Table.total, Table.values_eq_map_keys _ ∅, List.map_map]
    rfl
  rw [SessionState.handles, List.length_append, List.length_append, hclients, countLiveSockets]
  simp only [SessionState.slots, slotCount_eq, Table.len, List.length_append]

variable {session : RelaySession} {core core' : Core}

theorem Core.Sound.mem_handles (h : core.Sound session) {handle : PeerHandle} :
    handle ∈ core.state.handles ↔
      core.phase handle.peerMeta.peerId = .registered handle.peerMeta ∧
        Stored core.state handle.peerMeta := by
  have hkeys : ∀ id, handle ∈ (core.state.connection id).members.values →
      id ∈ core.state.clients.keys := by
    intro id hm
    obtain ⟨p, hp⟩ := Table.mem_values.mp hm
    rw [Table.mem_keys]
    by_contra hn
    have hnone : core.state.clients.get id = none := by
      rw [Option.eq_none_iff_forall_ne_some]
      exact fun clients hc => hn ⟨clients, hc⟩
    simp [Connection.members, SessionState.connection, hnone] at hp
  simp only [SessionState.handles, List.mem_append, mem_slots, List.mem_flatMap, Table.mem_values]
  constructor
  · rintro (((hs | hs | hs) | ⟨id, hs⟩) | ⟨id, -, p, hs⟩)
    · have ho := h.v1Server handle hs
      exact ⟨ho.1, by simp only [Stored, pingTarget, ho.2, hs]⟩
    · have ho := h.v1Client handle hs
      exact ⟨ho.1, by simp only [Stored, pingTarget, ho.2, hs]⟩
    · have ho := h.serverControl handle hs
      exact ⟨ho.1, by simp only [Stored, pingTarget, ho.2, hs]⟩
    · have ho := (h.connection id).server handle hs
      exact ⟨ho.1, (stored_data ho.2).mpr hs⟩
    · obtain ⟨rfl, hreg, hk⟩ := (h.connection id).client p handle hs
      exact ⟨hreg, (stored_client hk).mpr hs⟩
  · rintro ⟨-, hstored⟩
    cases hk : handle.peerMeta.kind with
    | v1Server =>
      simp only [Stored, pingTarget, hk] at hstored
      exact .inl (.inl (.inl hstored))
    | v1Client =>
      simp only [Stored, pingTarget, hk] at hstored
      exact .inl (.inl (.inr (.inl hstored)))
    | v2ServerControl =>
      simp only [Stored, pingTarget, hk] at hstored
      exact .inl (.inl (.inr (.inr hstored)))
    | v2ServerData id => exact .inl (.inr ⟨id, (stored_data hk).mp hstored⟩)
    | v2Client id =>
      have hget := (stored_client hk).mp hstored
      exact .inr ⟨id, hkeys id (Table.mem_values.mpr ⟨_, hget⟩), _, hget⟩

theorem Core.Sound.handles_nodup (h : core.Sound session) : core.state.handles.Nodup := by
  have hone : ∀ slot : Option PeerHandle, slot.toList.Nodup := by
    intro slot
    cases slot <;> simp
  have hslots : core.state.slots.Nodup := by
    rw [SessionState.slots, List.nodup_append', List.nodup_append']
    refine ⟨⟨hone _, hone _, ?_⟩, hone _, ?_⟩
    · intro handle hs hc
      have hk := (h.v1Server handle (Option.mem_toList.mp hs)).2
      rw [(h.v1Client handle (Option.mem_toList.mp hc)).2] at hk
      cases hk
    · intro handle hs hc
      have hk := (h.serverControl handle (Option.mem_toList.mp hc)).2
      rcases List.mem_append.mp hs with hs | hs
      · rw [(h.v1Server handle (Option.mem_toList.mp hs)).2] at hk
        cases hk
      · rw [(h.v1Client handle (Option.mem_toList.mp hs)).2] at hk
        cases hk
  have hdata : core.state.serverData.values.Nodup := by
    apply @Table.values_nodup _ _ _ _ fun handle => handle.peerMeta.kind.connectionId.getD ""
    intro id handle hs
    rw [((h.connection id).server handle hs).2]
    rfl
  have hclients : (core.state.clients.keys.flatMap fun id =>
      (core.state.connection id).members.values).Nodup := by
    rw [List.nodup_flatMap]
    constructor
    · intro id _
      apply @Table.values_nodup _ _ _ _ fun handle => handle.peerMeta.peerId
      exact fun p handle hp => ((h.connection id).client p handle hp).1
    · apply core.state.clients.keys_nodup.imp
      intro id id' hne handle hm hm'
      obtain ⟨p, hp⟩ := Table.mem_values.mp hm
      obtain ⟨p', hp'⟩ := Table.mem_values.mp hm'
      have hk := ((h.connection id).client p handle hp).2.2
      rw [((h.connection id').client p' handle hp').2.2] at hk
      exact hne (PeerKind.v2Client.inj hk).symm
  rw [SessionState.handles, List.nodup_append', List.nodup_append']
  refine ⟨⟨hslots, hdata, ?_⟩, hclients, ?_⟩
  · intro handle hs hd
    obtain ⟨id, hd⟩ := Table.mem_values.mp hd
    exact (h.slot_owned hs).2.1 id ((h.connection id).server handle hd).2
  · intro handle hs hc
    obtain ⟨id, -, hc⟩ := List.mem_flatMap.mp hc
    obtain ⟨p, hp⟩ := Table.mem_values.mp hc
    have hk := ((h.connection id).client p handle hp).2.2
    rcases List.mem_append.mp hs with hs | hs
    · exact (h.slot_owned hs).2.2 id hk
    · obtain ⟨id', hd⟩ := Table.mem_values.mp hs
      rw [((h.connection id').server handle hd).2] at hk
      cases hk

theorem Core.Sound.ncard_live (h : core.Sound session) (hfin : core.live.Finite) :
    core.live.ncard = countLiveSockets core.state + core.lingering.ncard := by
  have hnodup : (core.state.handles.map fun handle => handle.peerMeta.peerId).Nodup := by
    apply h.handles_nodup.map_on
    intro handle hm other ho he
    have hreg := (h.mem_handles.mp hm).1
    rw [he, (h.mem_handles.mp ho).1] at hreg
    cases handle
    cases other
    exact congrArg PeerHandle.mk (Phase.registered.inj hreg).symm
  generalize hids : (core.state.handles.map fun handle => handle.peerMeta.peerId) = ids at hnodup
  have hstored : ∀ p, p ∈ ids ↔
      ∃ peerMeta, core.phase p = .registered peerMeta ∧ Stored core.state peerMeta := by
    intro p
    rw [← hids, List.mem_map]
    constructor
    · rintro ⟨handle, hm, rfl⟩
      exact ⟨_, h.mem_handles.mp hm⟩
    · rintro ⟨peerMeta, hreg, hs⟩
      obtain ⟨rfl, -⟩ := h.conforms p peerMeta hreg
      exact ⟨⟨peerMeta⟩, h.mem_handles.mpr ⟨hreg, hs⟩, rfl⟩
  have hsplit : core.live = ↑ids.toFinset ∪ core.lingering := by
    ext p
    simp only [Core.live, Core.lingering, Set.mem_ofPred_eq, Set.mem_union, List.coe_toFinset,
      hstored]
    constructor
    · rintro ⟨peerMeta, hreg⟩
      by_cases hs : Stored core.state peerMeta
      · exact .inl ⟨peerMeta, hreg, hs⟩
      · exact .inr ⟨peerMeta, hreg, hs⟩
    · rintro (⟨peerMeta, hreg, -⟩ | ⟨peerMeta, hreg, -⟩) <;> exact ⟨peerMeta, hreg⟩
  have hdisjoint : Disjoint (↑ids.toFinset : Set PeerId) core.lingering := by
    rw [Set.disjoint_left]
    rintro p hp ⟨peerMeta, hreg, hn⟩
    obtain ⟨other, hreg', hs⟩ := (hstored p).mp (by simpa using hp)
    rw [hreg, Phase.registered.injEq] at hreg'
    exact hn (hreg' ▸ hs)
  have hlingers : core.lingering.Finite := hfin.subset (hsplit ▸ Set.subset_union_right)
  rw [hsplit, Set.ncard_union_eq hdisjoint (Finset.finite_toSet _) hlingers, Set.ncard_coe_finset,
    List.toFinset_card_of_nodup hnodup, ← hids, List.length_map, length_handles]

/-! ## Along a run -/

variable {event : SessionEvent} {sends : List Send}

theorem Core.step_live (hs : core.step session event = some (core', sends)) :
    core'.live ⊆ core.live ∨
      ∃ peerMeta, event = .register peerMeta ∧ core'.phase peerMeta.peerId = .registered peerMeta ∧
        peerMeta.peerId ∉ core.live ∧ core'.live = insert peerMeta.peerId core.live := by
  by_cases hadmits : ∃ peerMeta, event = .register peerMeta ∧
      core'.phase peerMeta.peerId = .registered peerMeta
  · obtain ⟨peerMeta, rfl, hok⟩ := hadmits
    obtain ⟨⟨hfresh, -⟩, -, -, hphase, -⟩ := Core.step_register hs
    refine .inr ⟨peerMeta, rfl, hok, ?_, ?_⟩
    · rintro ⟨other, hreg⟩
      rw [hfresh] at hreg
      cases hreg
    · ext p
      by_cases hp : p = peerMeta.peerId
      · subst hp
        simp [Core.live, hok]
      · simp [Core.live, hphase, hp]
  · left
    rintro p ⟨other, hreg⟩
    rcases Core.step_phase hs p with he | ⟨peerMeta, rfl, rfl, -, hnew⟩ | ⟨peerMeta, -, -, -, hgone⟩
    · exact ⟨other, he ▸ hreg⟩
    · rcases hnew with hok | hgone
      · exact absurd ⟨peerMeta, rfl, hok⟩ hadmits
      · rw [hgone] at hreg
        cases hreg
    · rw [hgone] at hreg
      cases hreg

variable {world world' : World}

theorem World.step_live {event : WorldEvent} (hs : world.step session event = some world') :
    world'.live ⊆ world.live ∨
      ∃ peerMeta, Admits ⟨world, event, world'⟩ peerMeta ∧ peerMeta.peerId ∉ world.live ∧
        world'.live = insert peerMeta.peerId world.live := by
  cases event with
  | queue p work =>
    left
    simp only [Core.live, (World.step_queue hs).2.1, Set.Subset.refl]
  | session event pace =>
    obtain ⟨sends, hstep, -⟩ := World.step_session hs
    rcases Core.step_live hstep with hsub | ⟨peerMeta, rfl, hok, hnew, hlive⟩
    · exact .inl hsub
    · exact .inr ⟨peerMeta, ⟨⟨pace, rfl⟩, hok⟩, hnew, hlive⟩

theorem World.run_finite {ms : List (Move World WorldEvent)}
    (hrun : Run (World.step session) (World.init session) ms world) : world.live.Finite := by
  apply hrun.invariant (P := fun w => w.live.Finite)
  · apply Set.Finite.subset Set.finite_empty
    rintro p ⟨peerMeta, hreg⟩
    cases hreg
  · intro before event after hfin hs
    rcases World.step_live hs with hsub | ⟨peerMeta, -, -, hlive⟩
    · exact hfin.subset hsub
    · rw [hlive]
      exact hfin.insert _

/-- In every run in which the relay admits no peer before every displaced one has unregistered, the
live sockets stay within the limit. -/
theorem live_bounded {ms : List (Move World WorldEvent)}
    (hrun : Run (World.step session) (World.init session) ms world)
    (hleft : ∀ move ∈ ms, ∀ peerMeta, Admits move peerMeta → move.before.lingering = ∅) :
    world.live.ncard ≤ session.limits.maxSocketsPerSession := by
  apply hrun.guarded (P := fun w => w.live.ncard ≤ session.limits.maxSocketsPerSession) hleft
  · have hnobody : (World.init session).live = ∅ := by
      ext p
      simp [Core.live, World.init, Core.init]
    rw [hnobody, Set.ncard_empty]
    exact Nat.zero_le _
  · intro ns before event after hr hle hs hadmits
    have hfin := World.run_finite hr
    rcases World.step_live hs with hsub | ⟨peerMeta, hadmitted, hnew, hlive⟩
    · exact (Set.ncard_le_ncard hsub hfin).trans hle
    · have hcount := (World.run_sound hr).ncard_live hfin
      rw [hadmits peerMeta hadmitted, Set.ncard_empty, Nat.add_zero] at hcount
      have hroom := ((register_isOk _ _ _ _).mp (hadmitted.isOk hs).1).1
      rw [hlive, Set.ncard_insert_of_notMem hnew hfin, hcount]
      exact not_le.mp hroom

/-- A session that may have two sockets. -/
def smallSession : RelaySession := { nodeSession with limits := ⟨8, 2, 256⟩ }

/-- A control channel is replaced and hangs up before the next one comes. -/
def politeControls : List WorldEvent :=
  [.session (.register (nodeControl 1)) [], .session (.register (nodeControl 2)) [],
    .session (.unregister (nodeControl 1)) [], .session (.register (nodeControl 3)) []]

theorem live_bounded_of_politeControls :
    (outcome (World.step smallSession) (World.init smallSession) politeControls).live.ncard ≤
      2 := by
  have hplay : (play (World.step smallSession) (World.init smallSession) politeControls).isSome :=
    rfl
  apply @live_bounded smallSession _ _ (Run.of_outcome hplay)
  intro move hm
  obtain ⟨ns₁, ns₂, hsplit⟩ := List.append_of_mem hm
  refine forall_split_history (C := fun _ move => ∀ peerMeta, Admits move peerMeta →
    move.before.lingering = ∅) hplay ?_ ns₁ move ns₂ hsplit
  intro k hk peerMeta hadmits
  apply Set.eq_empty_of_forall_notMem
  rintro p ⟨other, hreg, hlost⟩
  change k < 4 at hk
  interval_cases k
  · cases hreg
  · change Function.update (fun _ => Phase.fresh) ⟨1⟩ (.registered (nodeControl 1)) p = _ at hreg
    simp only [Function.update_apply] at hreg
    split_ifs at hreg
    cases hreg
    exact hlost rfl
  · obtain ⟨pace, hevent⟩ := hadmits.1
    cases hevent
  · change Function.update (Function.update (Function.update (fun _ => Phase.fresh) ⟨1⟩
      (.registered (nodeControl 1))) ⟨2⟩ (.registered (nodeControl 2))) ⟨1⟩ .gone p = _ at hreg
    simp only [Function.update_apply] at hreg
    split_ifs at hreg
    cases hreg
    exact hlost rfl

/-- Three control channels, each of which replaces the one before. -/
def threeControls : List WorldEvent :=
  [.session (.register (nodeControl 1)) [], .session (.register (nodeControl 2)) [],
    .session (.register (nodeControl 3)) []]

/-- All three registrations are accepted, and nobody has left. -/
theorem live_unbounded_of_threeControls : ∃ ms world,
    Run (World.step smallSession) (World.init smallSession) ms world ∧
      smallSession.limits.maxSocketsPerSession < world.live.ncard := by
  have hrun : Run (World.step smallSession) (World.init smallSession)
      (history (World.step smallSession) (World.init smallSession) threeControls)
      (outcome (World.step smallSession) (World.init smallSession) threeControls) :=
        Run.of_outcome rfl
  refine ⟨_, _, hrun, ?_⟩
  have hlive : ({⟨1⟩, ⟨2⟩, ⟨3⟩} : Set PeerId) ⊆
      (outcome (World.step smallSession) (World.init smallSession) threeControls).live := by
    rintro p (rfl | rfl | rfl)
    · exact ⟨nodeControl 1, rfl⟩
    · exact ⟨nodeControl 2, rfl⟩
    · exact ⟨nodeControl 3, rfl⟩
  have hthree : ({⟨1⟩, ⟨2⟩, ⟨3⟩} : Set PeerId).ncard = 3 := by
    rw [Set.ncard_eq_toFinset_card']
    decide
  have hle := Set.ncard_le_ncard hlive (World.run_finite hrun)
  rw [hthree] at hle
  exact hle

end NodeAccess.Relay
