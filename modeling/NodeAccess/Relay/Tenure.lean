import NodeAccess.Relay.Eviction

/-! # Who came to a session and who went

What a history tells of the peers by their registrations and departures alone: who is
present, and who is the latest of its kind. No slot ever holds anybody else.
-/

namespace NodeAccess.Relay

open Foundation

/-- The registration that this move admits. -/
def Admits (move : Move World WorldEvent) (peerMeta : PeerMeta) : Prop :=
  (∃ pace, move.event = .session (.register peerMeta) pace) ∧
    move.after.phase peerMeta.peerId = .registered peerMeta

def Departs (move : Move World WorldEvent) (peerMeta : PeerMeta) : Prop :=
  ∃ pace, move.event = .session (.unregister peerMeta) pace

/-- The peer was admitted and has not departed. -/
inductive Present (peerMeta : PeerMeta) : List (Move World WorldEvent) → Prop
  | admitted {ns : List (Move World WorldEvent)} {move : Move World WorldEvent} :
      Admits move peerMeta → Present peerMeta (ns ++ [move])
  | kept {ns : List (Move World WorldEvent)} {move : Move World WorldEvent} :
      Present peerMeta ns → ¬ Departs move peerMeta → Present peerMeta (ns ++ [move])

/-- No client of the connection is present. -/
def Deserted (c : String) (ns : List (Move World WorldEvent)) : Prop :=
  ∀ peerMeta, peerMeta.kind = .v2Client c → ¬ Present peerMeta ns

/-- The last client of the connection departs in this move. -/
def LastDeparts (c : String) (ns : List (Move World WorldEvent)) (move : Move World WorldEvent) :
    Prop :=
  (∃ client, client.kind = .v2Client c ∧ Departs move client) ∧ Deserted c (ns ++ [move])

/-- The peer is the latest of its kind to be admitted and has not departed, nor has a server-data
socket lost the last client of its connection. -/
inductive Incumbent (peerMeta : PeerMeta) : List (Move World WorldEvent) → Prop
  | admitted {ns : List (Move World WorldEvent)} {move : Move World WorldEvent} :
      Admits move peerMeta → Incumbent peerMeta (ns ++ [move])
  | kept {ns : List (Move World WorldEvent)} {move : Move World WorldEvent} :
      Incumbent peerMeta ns → ¬ Departs move peerMeta →
      (∀ other, Admits move other → other.kind ≠ peerMeta.kind) →
      (∀ c, peerMeta.kind = .v2ServerData c → ¬ LastDeparts c ns move) →
      Incumbent peerMeta (ns ++ [move])

section History

variable {ns : List (Move World WorldEvent)} {move : Move World WorldEvent} {peerMeta : PeerMeta}

theorem not_present_nil : ¬ Present peerMeta [] := by
  intro h
  generalize hns : ([] : List (Move World WorldEvent)) = ns at h
  cases h <;> simp at hns

theorem not_incumbent_nil : ¬ Incumbent peerMeta [] := by
  intro h
  generalize hns : ([] : List (Move World WorldEvent)) = ns at h
  cases h <;> simp at hns

theorem present_append_singleton :
    Present peerMeta (ns ++ [move]) ↔
      Admits move peerMeta ∨ Present peerMeta ns ∧ ¬ Departs move peerMeta := by
  constructor
  · intro h
    generalize hms : ns ++ [move] = ms at h
    cases h with
    | admitted hadmits =>
      obtain ⟨rfl, rfl⟩ := List.append_inj' hms rfl |>.imp_right List.singleton_inj.mp
      exact .inl hadmits
    | kept hpresent hstays =>
      obtain ⟨rfl, rfl⟩ := List.append_inj' hms rfl |>.imp_right List.singleton_inj.mp
      exact .inr ⟨hpresent, hstays⟩
  · rintro (hadmits | ⟨hpresent, hstays⟩)
    · exact .admitted hadmits
    · exact .kept hpresent hstays

theorem incumbent_append_singleton :
    Incumbent peerMeta (ns ++ [move]) ↔ Admits move peerMeta ∨
      Incumbent peerMeta ns ∧ ¬ Departs move peerMeta ∧
        (∀ other, Admits move other → other.kind ≠ peerMeta.kind) ∧
        ∀ c, peerMeta.kind = .v2ServerData c → ¬ LastDeparts c ns move := by
  constructor
  · intro h
    generalize hms : ns ++ [move] = ms at h
    cases h with
    | admitted hadmits =>
      obtain ⟨rfl, rfl⟩ := List.append_inj' hms rfl |>.imp_right List.singleton_inj.mp
      exact .inl hadmits
    | kept hholds hstays hlatest hclients =>
      obtain ⟨rfl, rfl⟩ := List.append_inj' hms rfl |>.imp_right List.singleton_inj.mp
      exact .inr ⟨hholds, hstays, hlatest, hclients⟩
  · rintro (hadmits | ⟨hholds, hstays, hlatest, hclients⟩)
    · exact .admitted hadmits
    · exact .kept hholds hstays hlatest hclients

end History

/-! ## One step -/

section Step

variable {session : RelaySession} {core core' : Core} {event : SessionEvent} {sends : List Send}
  {peerMeta : PeerMeta}

/-- A peer keeps its slot until it leaves, another of its kind is admitted, or the last client of
its connection leaves. -/
theorem Core.Sound.keeps_stored (h : core.Sound session)
    (hs : core.step session event = some (core', sends))
    (hclient : ∀ c, peerMeta.kind ≠ .v2Client c) (hstored : Stored core.state peerMeta)
    (hstays : event ≠ .unregister peerMeta)
    (hlatest : ∀ other, event = .register other →
      core'.phase other.peerId = .registered other → other.kind ≠ peerMeta.kind)
    (hclients : ∀ c client, peerMeta.kind = .v2ServerData c → event = .unregister client →
      client.kind = .v2Client c →
        ∃ other, other.kind = .v2Client c ∧ core'.phase other.peerId = .registered other) :
    Stored core'.state peerMeta := by
  have hreg := h.registered_of_stored hstored
  rw [stored_iff_slot hclient] at hstored ⊢
  cases Core.slot_step hs peerMeta.kind with
  | same he => exact he.trans hstored
  | taken hk hnew _ _ => exact absurd hk (hlatest _ rfl hnew)
  | @cleared other _ he =>
    rw [he, hstored, clearIfSame_some, if_neg]
    intro hp
    have hother := (Core.step_unregister hs).1
    dsimp only at hp
    rw [← hp, hreg, Phase.registered.injEq] at hother
    exact hstays (congrArg _ hother.symm)
  | @emptied client c hk hother hend _ =>
    obtain ⟨other, hkind, hnew⟩ := hclients c client hk rfl hother
    have hmember := ((h.step hs).connection c).joined _ _ hnew hkind
    rw [hend] at hmember
    cases hmember

theorem Core.Sound.client_left (h : core.Sound session) {client : PeerMeta} {c : String}
    (hs : core.step session (.unregister client) = some (core', sends))
    (hk : client.kind = .v2Client c) (hserver : (core'.state.connection c).server ≠ none) :
    ∃ other, other.kind = .v2Client c ∧ core'.phase other.peerId = .registered other := by
  have hjoined := (h.connection c).joined _ _ (Core.step_unregister hs).1 hk
  have hop : SessionEvent.connectionOp session.limits core.state (.unregister client) =
      some (c, .leave client.peerId) := by
    simp [SessionEvent.connectionOp, hk]
  rcases Core.connection_of_step hs c with ⟨hnone, -⟩ | ⟨op, hop', he⟩
  · exact absurd hop (hnone _)
  · rw [hop] at hop'
    obtain rfl : ConnectionOp.leave client.peerId = op := by simpa using hop'
    have hends : (core.state.connection c).endsWith client.peerId = false := by
      by_contra hends
      apply hserver
      rw [he, Connection.step, if_pos (by simpa using hends)]
    cases hc : (core.state.connection c).clients with
    | none => simp [Connection.members, hc] at hjoined
    | some clients =>
      rw [Connection.endsWith, hc, Option.any_some, decide_eq_false_iff_not,
        Table.len_eq_zero_iff] at hends
      push Not at hends
      obtain ⟨q, hq⟩ := hends
      obtain ⟨other, hother⟩ := Option.ne_none_iff_exists'.mp hq
      have hmember : (core'.state.connection c).members.get q = some other := by
        rw [he, Connection.step, if_neg]
        · simp [Connection.members, hc, hother]
        · simpa [Connection.endsWith, hc, Table.len_eq_zero_iff] using ⟨q, hq⟩
      obtain ⟨rfl, hreg, hkind⟩ := ((h.step hs).connection c).client q other hmember
      exact ⟨other.peerMeta, hkind, hreg⟩

end Step

/-! ## Along a run -/

variable {session : RelaySession} {world : World} {ms : List (Move World WorldEvent)}
  {peerMeta : PeerMeta}

theorem Admits.isOk {move : Move World WorldEvent} (h : Admits move peerMeta)
    (hs : World.step session move.before move.event = some move.after) :
    let r := register session.serde session.limits move.before.state ⟨peerMeta⟩
    r.result.isOk = true ∧ move.after.state = r.state := by
  obtain ⟨⟨pace, hevent⟩, hreg⟩ := h
  rw [hevent] at hs
  obtain ⟨sends, hstep, -⟩ := World.step_session hs
  obtain ⟨-, hstate, -, hphase, -⟩ := Core.step_register hstep
  refine ⟨?_, hstate⟩
  by_contra hn
  rw [hphase, Function.update_self, if_neg hn] at hreg
  cases hreg

theorem Admits.stored {move : Move World WorldEvent} (h : Admits move peerMeta)
    (hs : World.step session move.before move.event = some move.after) :
    Stored move.after.state peerMeta := by
  rw [(h.isOk hs).2]
  exact register_stored (h.isOk hs).1

theorem Departs.gone {move : Move World WorldEvent} (h : Departs move peerMeta)
    (hs : World.step session move.before move.event = some move.after) :
    move.after.phase peerMeta.peerId = .gone := by
  obtain ⟨pace, hevent⟩ := h
  rw [hevent] at hs
  obtain ⟨sends, hstep, -⟩ := World.step_session hs
  rw [(Core.step_unregister hstep).2.1]
  exact Function.update_self _ _ _

theorem run_present_iff (hrun : Run (World.step session) (World.init session) ms world) :
    ∀ peerMeta, Present peerMeta ms ↔ world.phase peerMeta.peerId = .registered peerMeta := by
  apply hrun.history_invariant (P := fun ns w => ∀ peerMeta,
    Present peerMeta ns ↔ w.phase peerMeta.peerId = .registered peerMeta)
  · intro peerMeta
    refine ⟨fun h => absurd h not_present_nil, ?_⟩
    intro hreg
    cases hreg
  · intro ns before event after hr ih hs peerMeta
    rw [present_append_singleton, ih]
    cases event with
    | queue q work =>
      rw [(World.step_queue hs).2.1]
      constructor
      · rintro (⟨⟨pace, hevent⟩, -⟩ | ⟨hreg, -⟩)
        · cases hevent
        · exact hreg
      · intro hreg
        refine .inr ⟨hreg, ?_⟩
        rintro ⟨pace, hevent⟩
        cases hevent
    | session event pace =>
      obtain ⟨sends, hstep, -⟩ := World.step_session hs
      constructor
      · rintro (⟨-, hreg⟩ | ⟨hreg, hstays⟩)
        · exact hreg
        · rcases Core.step_phase hstep peerMeta.peerId with he | ⟨_, -, -, hfresh, -⟩ |
            ⟨other, rfl, -, hother, -⟩
          · exact he ▸ hreg
          · rw [hfresh] at hreg
            cases hreg
          · rw [hreg, Phase.registered.injEq] at hother
            subst hother
            exact absurd ⟨pace, rfl⟩ hstays
      · intro hreg
        rcases Core.step_phase hstep peerMeta.peerId with he | ⟨other, rfl, -, -, hnow⟩ |
          ⟨_, -, -, -, hgone⟩
        · refine .inr ⟨he ▸ hreg, ?_⟩
          intro hdeparts
          rw [hdeparts.gone hs] at hreg
          cases hreg
        · rw [hreg, Phase.registered.injEq] at hnow
          rcases hnow with rfl | hgone
          · exact .inl ⟨⟨pace, rfl⟩, hreg⟩
          · cases hgone
        · rw [hgone] at hreg
          cases hreg

theorem run_incumbent_iff (hrun : Run (World.step session) (World.init session) ms world) :
    ∀ peerMeta, (∀ c, peerMeta.kind ≠ .v2Client c) →
      (Incumbent peerMeta ms ↔ Stored world.state peerMeta) := by
  apply hrun.history_invariant (P := fun ns w => ∀ peerMeta, (∀ c, peerMeta.kind ≠ .v2Client c) →
    (Incumbent peerMeta ns ↔ Stored w.state peerMeta))
  · intro peerMeta _
    refine ⟨fun h => absurd h not_incumbent_nil, ?_⟩
    intro hstored
    have hsound : (World.init session).Sound session := World.run_sound Run.nil
    cases hsound.registered_of_stored hstored
  · intro ns before event after hr ih hs peerMeta hclient
    have hsound := World.run_sound hr
    rw [incumbent_append_singleton, ih peerMeta hclient]
    constructor
    · rintro (hadmits | ⟨hstored, hstays, hlatest, hclients⟩)
      · exact hadmits.stored hs
      · cases event with
        | queue q work => rwa [(World.step_queue hs).2.1]
        | session event pace =>
          obtain ⟨sends, hstep, -⟩ := World.step_session hs
          apply hsound.keeps_stored hstep hclient hstored
          · rintro rfl
            exact hstays ⟨pace, rfl⟩
          · rintro other rfl hnew
            exact hlatest other ⟨⟨pace, rfl⟩, hnew⟩
          · rintro c client hk rfl hkind
            by_contra hnobody
            push Not at hnobody
            refine hclients c hk ⟨⟨client, hkind, pace, rfl⟩, ?_⟩
            intro other hother hpresent
            exact hnobody other hother ((run_present_iff (Run.snoc hr hs) other).mp hpresent)
    · intro hstored
      have hreg := (World.run_sound (Run.snoc hr hs)).registered_of_stored hstored
      rw [or_iff_not_imp_left]
      intro hnew
      refine ⟨?_, ?_, ?_, ?_⟩
      · cases event with
        | queue q work => rwa [(World.step_queue hs).2.1] at hstored
        | session event pace =>
          obtain ⟨sends, hstep, -⟩ := World.step_session hs
          refine (hsound.stored_or_registers hstep hstored).resolve_right ?_
          rintro rfl
          exact hnew ⟨⟨pace, rfl⟩, hreg⟩
      · intro hdeparts
        rw [hdeparts.gone hs] at hreg
        cases hreg
      · intro other hadmits hk
        have hother := hadmits.stored hs
        rw [stored_iff_slot (by rwa [hk]), hk, (stored_iff_slot hclient).mp hstored,
          Option.some.injEq, PeerHandle.mk.injEq] at hother
        exact hnew (hother ▸ hadmits)
      · rintro c hk ⟨⟨client, hkind, pace, hevent⟩, hdeserted⟩
        obtain rfl : event = .session (.unregister client) pace := hevent
        obtain ⟨sends, hstep, -⟩ := World.step_session hs
        obtain ⟨other, hother, hregistered⟩ :=
          hsound.client_left hstep hkind (by simp [(stored_data hk).mp hstored])
        exact hdeserted other hother ((run_present_iff (Run.snoc hr hs) other).mpr hregistered)

theorem run_incumbent_of_slot (hrun : Run (World.step session) (World.init session) ms world)
    {kind : PeerKind} {handle : PeerHandle} (hslot : world.state.slot kind = some handle) :
    Incumbent handle.peerMeta ms ∧ handle.peerMeta.kind = kind := by
  obtain ⟨-, rfl⟩ := (World.run_sound hrun).slot hslot
  have hclient : ∀ c, handle.peerMeta.kind ≠ .v2Client c := by
    intro c hk
    rw [hk] at hslot
    cases hslot
  exact ⟨(run_incumbent_iff hrun _ hclient).mpr ((stored_iff_slot hclient).mpr hslot), rfl⟩

end NodeAccess.Relay
