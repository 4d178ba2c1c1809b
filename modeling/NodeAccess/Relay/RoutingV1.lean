import NodeAccess.Relay.Routing

/-! # Routing of frames in a v1 session

A v1 session has one slot for the server and one for the client. A frame goes to the peer in the
other slot, and to no one if that slot is empty: nothing waits. A peer that has been replaced still
sends.
-/

namespace NodeAccess.Relay

open Foundation

def ConnectionRole.other : ConnectionRole → ConnectionRole
  | .server => .client
  | .client => .server

/-- The kind of a v1 peer. -/
def kindV1 : ConnectionRole → PeerKind
  | .server => .v1Server
  | .client => .v1Client

def SessionState.slotV1 (state : SessionState) : ConnectionRole → Option PeerHandle
  | .server => state.v1Server
  | .client => state.v1Client

variable {session : RelaySession} {core core' : Core} {event : SessionEvent} {sends : List Send}
  {peerMeta : PeerMeta} {role : ConnectionRole}

/-! ## One event -/

theorem exists_role {kind : PeerKind} (h : kind.version = .v1) : ∃ role, kind = kindV1 role := by
  cases kind with
  | v1Server => exact ⟨.server, rfl⟩
  | v1Client => exact ⟨.client, rfl⟩
  | _ => cases h

theorem PeerMeta.Conforms.v1 {key : SessionKey} (h : peerMeta.Conforms key)
    (hkey : key.version = .v1) :
    peerMeta.version = .v1 ∧ ∃ role, peerMeta.kind = kindV1 role :=
  ⟨h.2.1.trans hkey, exists_role (h.2.2.trans hkey)⟩

theorem kindV1_injective : Function.Injective kindV1 := by
  intro role role' h
  cases role <;> cases role' <;> first | rfl | cases h

theorem Core.Sound.slotV1_owned (h : core.Sound session) (role : ConnectionRole) :
    Owned core.phase (kindV1 role) (core.state.slotV1 role) := by
  cases role with
  | server => exact h.v1Server
  | client => exact h.v1Client

theorem Core.Sound.no_control (h : core.Sound session) (hkey : session.key.version = .v1) :
    core.state.serverControl = none := by
  rw [Option.eq_none_iff_forall_ne_some]
  intro handle hs
  obtain ⟨hregistered, hkind⟩ := h.serverControl handle hs
  obtain ⟨-, role, hrole⟩ := (h.conforms _ _ hregistered).2.v1 hkey
  rw [hkind] at hrole
  cases role <;> cases hrole

theorem handleFrame_v1 (serde : SerdeJson) (state : SessionState)
    (hversion : peerMeta.version = .v1) (hkind : peerMeta.kind = kindV1 role) (frame : RelayFrame)
    (nowMs : ℕ) :
    handleFrame serde state peerMeta frame nowMs =
      (state, (state.slotV1 role.other).toList.map fun target => forwardFrame target frame) := by
  cases role with
  | server =>
    rw [kindV1] at hkind
    simp only [handleFrame, hversion, hkind]
    rfl
  | client =>
    rw [kindV1] at hkind
    simp only [handleFrame, hversion, hkind]
    rfl

theorem Core.Sound.frames_of_quiet (h : core.Sound session) (hkey : session.key.version = .v1)
    (hs : core.step session event = some (core', sends))
    (hquiet : ∀ other frame nowMs, event ≠ .frame other frame nowMs) (p : PeerId) :
    frames (messagesTo p sends) = [] := by
  apply frames_messagesTo_eq_nil
  intro send hm _
  cases event with
  | register other =>
    obtain ⟨⟨-, hconforms, -⟩, -, rfl, -⟩ := Core.step_register hs
    obtain ⟨-, role, hkind⟩ := hconforms.v1 hkey
    cases role with
    | server =>
      rw [kindV1] at hkind
      simp only [Relay.register, hkind] at hm
      split_ifs at hm
      · cases hm
      · obtain ⟨handle, -, rfl⟩ := List.mem_map.mp hm
        rfl
    | client =>
      rw [kindV1] at hkind
      simp only [Relay.register, hkind] at hm
      split_ifs at hm
      · cases hm
      · obtain ⟨handle, -, rfl⟩ := List.mem_map.mp hm
        rfl
  | frame other frame nowMs => exact absurd rfl (hquiet other frame nowMs)
  | ping other payload =>
    obtain ⟨-, -, rfl⟩ := Core.step_ping hs
    obtain ⟨handle, -, rfl⟩ := List.mem_map.mp hm
    rfl
  | unregister other =>
    obtain ⟨hregistered, -, rfl⟩ := Core.step_unregister hs
    obtain ⟨-, role, hkind⟩ := (h.conforms _ _ hregistered).2.v1 hkey
    cases role with
    | server =>
      rw [kindV1] at hkind
      simp only [Relay.unregister, hkind] at hm
      cases hm
    | client =>
      rw [kindV1] at hkind
      simp only [Relay.unregister, hkind] at hm
      cases hm
  | nudge peerId =>
    obtain ⟨id, stage, -, -, rfl⟩ := Core.step_nudge hs
    have hnone := h.no_control hkey
    cases stage with
    | sync =>
      simp only [nudgeOrResetControl, notifyControlLocked, hnone] at hm
      cases hm
    | reset =>
      simp only [nudgeOrResetControl, hnone] at hm
      cases hm
    | _ => cases hm

theorem Core.Sound.step_frames_v1 (h : core.Sound session) (hkey : session.key.version = .v1)
    (hs : core.step session event = some (core', sends)) (hcame : core.Came peerMeta)
    (hkind : peerMeta.kind = kindV1 role) :
    frames (messagesTo peerMeta.peerId sends) =
      if core.state.slotV1 role = some ⟨peerMeta⟩ then (event.frameFrom (kindV1 role.other)).toList
        else [] := by
  by_cases hframe : ∃ other frame nowMs, event = .frame other frame nowMs
  · obtain ⟨other, frame, nowMs, rfl⟩ := hframe
    obtain ⟨hregistered, -, rfl⟩ := Core.step_frame hs
    obtain ⟨hversion, sender, hsender⟩ := (h.conforms _ _ hregistered).2.v1 hkey
    rw [handleFrame_v1 session.serde core.state hversion hsender]
    have hfrom : ((SessionEvent.frame other frame nowMs).frameFrom (kindV1 role.other)).toList =
        if sender = role.other then [frame] else [] := by
      by_cases hrole : sender = role.other
      · simp [SessionEvent.frameFrom, hsender, hrole]
      · have hne : kindV1 sender ≠ kindV1 role.other := fun he => hrole (kindV1_injective he)
        simp [SessionEvent.frameFrom, hsender, hne, hrole]
    rw [hfrom]
    cases hslot : core.state.slotV1 sender.other with
    | none =>
      have hnil : ¬ (core.state.slotV1 role = some ⟨peerMeta⟩ ∧ sender = role.other) := by
        rintro ⟨hstored, rfl⟩
        cases role <;> rw [ConnectionRole.other, ConnectionRole.other, hstored] at hslot <;>
          cases hslot
      split_ifs with hstored hrole
      · exact absurd ⟨hstored, hrole⟩ hnil
      · rfl
      · rfl
    | some handle =>
      by_cases hsame : handle.peerMeta.peerId = peerMeta.peerId
      · obtain ⟨rfl, hown⟩ := (h.slotV1_owned sender.other).eq_of_came hcame hslot hsame
        have hroles : sender.other = role := kindV1_injective (hown.symm.trans hkind)
        have hrole : sender = role.other := by
          rw [← hroles]
          cases sender <;> rfl
        rw [hroles] at hslot
        rw [if_pos hslot, if_pos hrole]
        simp [messagesTo, frames, forwardFrame, Send.target, Send.message]
      · have hnil : ¬ (core.state.slotV1 role = some ⟨peerMeta⟩ ∧ sender = role.other) := by
          rintro ⟨hstored, rfl⟩
          have hback : role.other.other = role := by cases role <;> rfl
          rw [hback, hstored, Option.some.injEq] at hslot
          exact hsame (hslot ▸ rfl)
        have hmiss : messagesTo peerMeta.peerId [forwardFrame handle frame] = [] := by
          simp [messagesTo, forwardFrame, Send.target, hsame]
        rw [Option.toList_some, List.map_singleton, hmiss]
        split_ifs with hstored hrole
        · exact absurd ⟨hstored, hrole⟩ hnil
        · rfl
        · rfl
  · have hnone : event.frameFrom (kindV1 role.other) = none := by
      cases event with
      | frame other frame nowMs => exact absurd ⟨other, frame, nowMs, rfl⟩ hframe
      | _ => rfl
    rw [hnone, h.frames_of_quiet hkey hs (fun other frame nowMs he =>
      hframe ⟨other, frame, nowMs, he⟩)]
    simp

/-! ## Runs -/

variable {world : World}

/-- Routing of a v1 session. A socket is queued the frames that the other side sends while it has
the slot of its side, and none of before. -/
theorem run_routes_v1 {ms₁ ms₂ : List (Move World WorldEvent)} {move : Move World WorldEvent}
    {pace : List Gap}
    (hrun : Run (World.step session) (World.init session) (ms₁ ++ move :: ms₂) world)
    (hreg : move.event = .session (.register peerMeta) pace)
    (hok : move.after.phase peerMeta.peerId = .registered peerMeta)
    (hkind : peerMeta.kind = kindV1 role)
    (hroom : (world.queue peerMeta.peerId).chan.refused = false) :
    frames (world.queue peerMeta.peerId).chan.queued =
      framesFrom (kindV1 role.other) (ms₂.filter fun later =>
        later.before.state.slotV1 role = some ⟨peerMeta⟩) := by
  obtain ⟨h₁, hs, h₂⟩ := hrun.of_split
  rw [hreg] at hs
  have hbefore := World.run_settled h₁
  obtain ⟨sends, hstep, hqueue⟩ := World.step_session hs
  obtain ⟨⟨hfresh, hconforms, -⟩, -⟩ := Core.step_register hstep
  have hkey : session.key.version = .v1 := by
    rw [← hconforms.2.2, hkind]
    cases role <;> rfl
  have hfollows : Follows session peerMeta move.after := by
    refine ⟨hbefore.step hs, by rw [hok]; simp, ?_⟩
    intro other ho
    rw [hok, Phase.registered.injEq] at ho
    exact ho.symm
  have hfirst : frames (move.after.queue peerMeta.peerId).tried = [] := by
    rw [hqueue, deliver_tried, hbefore.quiet _ hfresh, List.nil_append]
    exact hbefore.sound.frames_of_quiet hkey hstep (fun _ _ _ he => by cases he) _
  rw [← frames_filter_not_close, ((World.run_settled hrun).tracks peerMeta.peerId).content hroom,
    frames_filter_not_close,
    run_frames_tried (fun world => world.state.slotV1 role = some ⟨peerMeta⟩) (kindV1 role.other) h₂
      hfollows
      fun _ _ _ _ hb hstep => hb.1.sound.step_frames_v1 hkey hstep hb.2 hkind, hfirst,
        List.nil_append]

/-- A v1 session, a server that replaces another one, and a client. -/
def legacySession : RelaySession := ⟨⟨"node", .v1⟩, .default, .plain⟩

def legacyServer (uuid : ℕ) : PeerMeta := ⟨⟨uuid⟩, "node", .server, .v1, none, .v1Server⟩

def legacyClient (uuid : ℕ) : PeerMeta := ⟨⟨uuid⟩, "node", .client, .v1, none, .v1Client⟩

def beforeServer : List WorldEvent :=
  [.session (.register (legacyClient 1)) [], .session (.frame (legacyClient 1) (.text "lost") 0) []]

def afterServer : List WorldEvent :=
  [.session (.frame (legacyClient 1) (.text "heard") 0) [],
    .session (.register (legacyServer 3)) [],
    .session (.frame (legacyClient 1) (.text "elsewhere") 0) []]

theorem run_routes_v1_of_replaced :
    frames ((outcome (World.step legacySession)
      (outcome (World.step legacySession) (World.init legacySession)
      (beforeServer ++ [.session (.register (legacyServer 2)) []])) afterServer).queue
        ⟨2⟩).chan.queued = [.text "heard"] := by
  have hplay : (play (World.step legacySession) (World.init legacySession)
      (beforeServer ++ .session (.register (legacyServer 2)) [] :: afterServer)).isSome =
        true := by decide +kernel
  have hrun :=
    Run.of_play_split beforeServer (.session (.register (legacyServer 2)) []) afterServer hplay
  have hkind : (legacyServer 2).kind = kindV1 .server := rfl
  exact (run_routes_v1 hrun rfl rfl hkind rfl).trans rfl

end NodeAccess.Relay
