import NodeAccess.Relay.Tenure

/-! # Peers that were told to close

`run_peer` reads on after the session has sent a Close to its peer. Every peer that lost
its slot was told to close. It stays mute when all who could hear its late frames and pings
have gone before it sends them.
-/

namespace NodeAccess.Relay

open Foundation

/-- The session has tried to send the peer a Close. The closes of the peer's own loop and
the fallback closes do not count. -/
def toldToClose (world : World) (p : PeerId) : Bool :=
  (world.queue p).tried.any OutboundMessage.isClose

def SessionEvent.sender : SessionEvent → Option PeerMeta
  | .frame peerMeta _ _ | .ping peerMeta _ => some peerMeta
  | _ => none

def WorldEvent.sender : WorldEvent → Option PeerMeta
  | .session event _ => event.sender
  | .queue _ _ => none

/-- Nothing stands where the frame or the ping would be routed. -/
def SessionEvent.Unrouted (state : SessionState) : SessionEvent → Prop
  | .frame peerMeta _ _ =>
    match peerMeta.kind with
    | .v1Server => state.v1Client = none
    | .v1Client => state.v1Server = none
    | .v2ServerControl => True
    | .v2ServerData c => hasClientSocket state c = false
    | .v2Client _ => False
  | .ping peerMeta _ =>
    ∀ handle, pingTarget state peerMeta = some handle →
      handle.peerMeta.peerId = peerMeta.peerId
  | _ => True

/-- After these moves nobody is left to hear the frame or the ping: no peer of the other v1 role,
no client of the connection, no successor in the sender's own slot. -/
def SessionEvent.Unheard (ns : List (Move World WorldEvent)) : SessionEvent → Prop
  | .frame peerMeta _ _ =>
    match peerMeta.kind with
    | .v1Server => ∀ other, Incumbent other ns → other.kind ≠ .v1Client
    | .v1Client => ∀ other, Incumbent other ns → other.kind ≠ .v1Server
    | .v2ServerControl => True
    | .v2ServerData c => Deserted c ns
    | .v2Client _ => False
  | .ping peerMeta _ => (∀ c, peerMeta.kind ≠ .v2Client c) →
    ∀ other, Incumbent other ns → other.kind = peerMeta.kind → other = peerMeta
  | _ => True

def WorldEvent.Unheard (ns : List (Move World WorldEvent)) : WorldEvent → Prop
  | .session event _ => event.Unheard ns
  | .queue _ _ => True

/-- The move sends nothing to other peers and leaves the pending frames as they are. -/
structure Silent (move : Move World WorldEvent) (peerMeta : PeerMeta) : Prop where
  others : ∀ p, p ≠ peerMeta.peerId → (move.after.queue p).tried = (move.before.queue p).tried
  pending : move.after.state.pending = move.before.state.pending

/-! ## Unrouted events -/

section Step

variable {session : RelaySession} {core core' : Core} {event : SessionEvent} {sends : List Send}
  {peerMeta : PeerMeta}

theorem values_eq_nil {κ ν : Type*} {t : Table κ ν} (h : t.len = 0) : t.values = [] :=
  List.length_eq_zero_iff.mp h

theorem handleFrame_unrouted {state : SessionState} {frame : RelayFrame} {nowMs : ℕ}
    (h : SessionEvent.Unrouted state (.frame peerMeta frame nowMs)) :
    (handleFrame session.serde state peerMeta frame nowMs).1 = state ∧
      ∀ send ∈ (handleFrame session.serde state peerMeta frame nowMs).2,
        send.target = peerMeta.peerId := by
  simp only [SessionEvent.Unrouted] at h
  simp only [handleFrame]
  cases hv : peerMeta.version with
  | v1 => cases hk : peerMeta.kind <;> cases frame <;> simp_all
  | v2 =>
    cases hk : peerMeta.kind with
    | v1Server => simp
    | v1Client => simp
    | v2ServerControl =>
      cases frame with
      | binary bytes => simp
      | text text =>
        simp only
        split_ifs
        · cases hc : state.serverControl with
          | none => simp
          | some control =>
            by_cases hp : control.peerMeta.peerId = peerMeta.peerId
            · simp [hp, Send.target]
            · simp [hp]
        · simp
    | v2ServerData c =>
      simp only [hk] at h
      have hnil := values_eq_nil (hasClientSocket_eq_false.mp h)
      simp only [SessionState.connection, Connection.members] at hnil
      simp [hnil]
    | v2Client c => simp only [hk] at h

theorem Core.step_unrouted (hs : core.step session event = some (core', sends))
    (hsender : event.sender = some peerMeta) (h : event.Unrouted core.state) :
    core'.state = core.state ∧ ∀ send ∈ sends, send.target = peerMeta.peerId := by
  cases event with
  | frame other frame nowMs =>
    obtain rfl : other = peerMeta := by simpa [SessionEvent.sender] using hsender
    rcases Core.step_frame hs with ⟨-, rfl, rfl⟩
    exact handleFrame_unrouted h
  | ping other payload =>
    obtain rfl : other = peerMeta := by simpa [SessionEvent.sender] using hsender
    rcases Core.step_ping hs with ⟨-, rfl, rfl⟩
    refine ⟨rfl, ?_⟩
    intro send hm
    simp only [handlePing, List.mem_map, Option.mem_toList] at hm
    rcases hm with ⟨handle, hh, rfl⟩
    exact h handle hh
  | register other => cases hsender
  | unregister other => cases hsender
  | nudge p => cases hsender

/-! ## Who loses a slot is told to close -/

theorem mem_messagesTo_close {p : PeerId} {handle : PeerHandle} {code : ℕ} {reason : String}
    (h : .closeHandle handle code reason ∈ sends) (hp : handle.peerMeta.peerId = p) :
    OutboundMessage.close code reason ∈ messagesTo p sends := by
  rw [messagesTo, List.mem_map]
  exact ⟨_, List.mem_filter.mpr ⟨h, decide_eq_true hp⟩, rfl⟩

theorem Core.Sound.evicted_told (h : core.Sound session)
    (hs : core.step session event = some (core', sends))
    (hreg' : core'.phase peerMeta.peerId = .registered peerMeta)
    (hstored : Stored core.state peerMeta) (hstored' : ¬ Stored core'.state peerMeta) :
    ∃ message ∈ messagesTo peerMeta.peerId sends, message.isClose = true := by
  by_cases hclient : ∃ c, peerMeta.kind = .v2Client c
  · obtain ⟨c, hk⟩ := hclient
    exact absurd ((h.step hs).stored_of_client hk hreg') hstored'
  · push Not at hclient
    rw [stored_iff_slot hclient] at hstored hstored'
    cases Core.slot_step hs peerMeta.kind with
    | same he => exact absurd (he.trans hstored) hstored'
    | taken _ _ _ hclose => exact ⟨_, mem_messagesTo_close (hclose _ hstored) rfl, rfl⟩
    | @cleared other _ he =>
      rw [he, hstored, clearIfSame_some] at hstored'
      split_ifs at hstored' with hp
      · rw [(Core.step_unregister hs).2.1] at hreg'
        dsimp only at hreg' hp
        rw [hp, Function.update_self] at hreg'
        cases hreg'
      · exact absurd rfl hstored'
    | emptied _ _ _ hclose => exact ⟨_, mem_messagesTo_close (hclose _ hstored) rfl, rfl⟩

end Step

/-! ## Runs -/

variable {session : RelaySession} {world : World}

theorem toldToClose_append {p : PeerId} {world' : World} {messages : List OutboundMessage}
    (h : (world'.queue p).tried = (world.queue p).tried ++ messages) :
    toldToClose world' p = (toldToClose world p || messages.any OutboundMessage.isClose) := by
  rw [toldToClose, h, List.any_append]
  rfl

theorem run_stored_or_told {ms : List (Move World WorldEvent)}
    (hrun : Run (World.step session) (World.init session) ms world) {peerMeta : PeerMeta}
    (hreg : world.phase peerMeta.peerId = .registered peerMeta) :
    Stored world.state peerMeta ∨ toldToClose world peerMeta.peerId = true := by
  revert hreg
  apply hrun.history_invariant (P := fun _ world =>
    world.phase peerMeta.peerId = .registered peerMeta →
      Stored world.state peerMeta ∨ toldToClose world peerMeta.peerId = true)
  · intro hreg
    cases hreg
  · intro ns before event after hr ih hs hreg
    have hsound := World.run_sound hr
    cases event with
    | queue p work =>
      have hq := World.step_queue hs
      rw [hq.2.1] at hreg ⊢
      rw [toldToClose, hq.2.2]
      exact ih hreg
    | session event pace =>
      rcases World.step_session hs with ⟨sends, hstep, hqueue⟩
      have htold : toldToClose after peerMeta.peerId = (toldToClose before peerMeta.peerId ||
          (messagesTo peerMeta.peerId sends).any OutboundMessage.isClose) :=
        toldToClose_append (by rw [hqueue, deliver_tried])
      rw [htold, Bool.or_eq_true]
      rcases Core.step_phase hstep peerMeta.peerId with he | ⟨other, rfl, hid, -, hacc⟩ |
        ⟨_, -, -, -, hgone⟩
      · rcases ih (he ▸ hreg) with hb | hb
        · by_cases ha : Stored after.state peerMeta
          · exact .inl ha
          · right
            right
            rw [List.any_eq_true]
            exact hsound.evicted_told hstep hreg hb ha
        · exact .inr (.inl hb)
      · left
        have hphase := (Core.step_register hstep).2.2.2.1
        rcases hacc with hacc | hacc
        · rw [hreg, Phase.registered.injEq] at hacc
          obtain rfl := hacc
          rw [(Core.step_register hstep).2.1]
          apply register_stored
          by_contra hn
          rw [hphase, Function.update_self, if_neg hn] at hreg
          cases hreg
        · rw [hreg] at hacc
          cases hacc
      · rw [hreg] at hgone
        cases hgone

/-- The move is a frame or a ping of a peer that was told to close. -/
def closedSender (move : Move World WorldEvent) : Bool :=
  move.event.sender.any fun peerMeta => toldToClose move.before peerMeta.peerId

theorem registered_of_sender {before after : World} {event : SessionEvent} {pace : List Gap}
    {peerMeta : PeerMeta} (hs : before.step session (.session event pace) = some after)
    (hsender : event.sender = some peerMeta) :
    before.phase peerMeta.peerId = .registered peerMeta := by
  rcases World.step_session hs with ⟨sends, hstep, -⟩
  cases event with
  | frame other frame nowMs =>
    obtain rfl : other = peerMeta := by simpa [SessionEvent.sender] using hsender
    exact (Core.step_frame hstep).1
  | ping other payload =>
    obtain rfl : other = peerMeta := by simpa [SessionEvent.sender] using hsender
    exact (Core.step_ping hstep).1
  | register other => cases hsender
  | unregister other => cases hsender
  | nudge p => cases hsender

theorem silent_of_unrouted {before after : World} {event : SessionEvent} {pace : List Gap}
    {peerMeta : PeerMeta} (hs : before.step session (.session event pace) = some after)
    (hsender : event.sender = some peerMeta) (h : event.Unrouted before.state) :
    Silent ⟨before, .session event pace, after⟩ peerMeta := by
  rcases World.step_session hs with ⟨sends, hstep, hqueue⟩
  have hstep' := Core.step_unrouted hstep hsender h
  refine ⟨?_, congrArg SessionState.pending hstep'.1⟩
  intro p hp
  dsimp only
  rw [hqueue, deliver_of_ne]
  intro send hm ht
  exact hp (ht ▸ hstep'.2 send hm)

theorem unrouted_of_unheard {ns : List (Move World WorldEvent)} {event : SessionEvent}
    (hrun : Run (World.step session) (World.init session) ns world) (h : event.Unheard ns) :
    event.Unrouted world.state := by
  have hsound := World.run_sound hrun
  have hempty : ∀ kind, (∀ other, Incumbent other ns → other.kind ≠ kind) →
      world.state.slot kind = none := by
    intro kind hnobody
    rw [Option.eq_none_iff_forall_ne_some]
    intro handle hslot
    obtain ⟨hincumbent, hk⟩ := run_incumbent_of_slot hrun hslot
    exact hnobody _ hincumbent hk
  cases event with
  | frame peerMeta frame nowMs =>
    simp only [SessionEvent.Unheard] at h
    simp only [SessionEvent.Unrouted]
    cases hk : peerMeta.kind with
    | v1Server =>
      simp only [hk] at h
      exact hempty .v1Client h
    | v1Client =>
      simp only [hk] at h
      exact hempty .v1Server h
    | v2ServerControl => trivial
    | v2ServerData c =>
      simp only [hk] at h
      change hasClientSocket world.state c = false
      rw [hasClientSocket_eq_false, Table.len_eq_zero_iff]
      intro p
      rw [Option.eq_none_iff_forall_ne_some]
      intro handle hmember
      obtain ⟨rfl, hreg, hkind⟩ := (hsound.connection c).client p handle hmember
      exact h _ hkind ((run_present_iff hrun _).mpr hreg)
    | v2Client c => simp only [hk] at h
  | ping peerMeta payload =>
    intro handle htarget
    by_cases hclient : ∃ c, peerMeta.kind = .v2Client c
    · obtain ⟨c, hk⟩ := hclient
      have hmember : (world.state.connection c).members.get peerMeta.peerId = some handle := by
        cases hc : world.state.clients.get c <;>
          simp_all [pingTarget, SessionState.connection, Connection.members]
      exact ((hsound.connection c).client _ handle hmember).1
    · push Not at hclient
      rw [pingTarget_eq_slot hclient] at htarget
      obtain ⟨hincumbent, hk⟩ := run_incumbent_of_slot hrun htarget
      exact congrArg PeerMeta.peerId (h hclient _ hincumbent hk)
  | _ => trivial

theorem frameFrom_of_unheard {ns : List (Move World WorldEvent)} {event : WorldEvent} {c : String}
    (h : event.Unheard ns) : event.frameFrom (.v2Client c) = none := by
  cases event with
  | queue p work => rfl
  | session event pace =>
    cases event with
    | frame peerMeta frame nowMs =>
      change (if peerMeta.kind = .v2Client c then some frame else none) = none
      rw [if_neg]
      intro hk
      simp only [WorldEvent.Unheard, SessionEvent.Unheard, hk] at h
    | _ => rfl

/-- In every run in which the peers that were told to close send only what nobody is left to hear,
they and the peers that lost their slot are mute, and only frames of other clients wait for a
server-data socket. -/
theorem closed_peers_mute {ms : List (Move World WorldEvent)}
    (hrun : Run (World.step session) (World.init session) ms world)
    (hlate : ∀ ns₁ move ns₂, ms = ns₁ ++ move :: ns₂ → closedSender move = true →
      move.event.Unheard ns₁) :
    (∀ move ∈ ms, ∀ peerMeta, move.event.sender = some peerMeta →
        toldToClose move.before peerMeta.peerId = true ∨ ¬ Stored move.before.state peerMeta →
        Silent move peerMeta) ∧
      ∀ c, world.state.waiting c = (framesFrom (.v2Client c)
        ((sinceReset c ms).filter fun move => !closedSender move)).rtake pendingFrameLimit := by
  constructor
  · rintro ⟨before, event, after⟩ hm peerMeta hsender htold
    obtain ⟨ms₁, ms₂, rfl⟩ := List.append_of_mem hm
    obtain ⟨h₁, hs, -⟩ := hrun.of_split
    cases event with
    | queue p work => cases hsender
    | session event pace =>
      have htold' : toldToClose before peerMeta.peerId = true := by
        rcases htold with ht | hn
        · exact ht
        · exact (run_stored_or_told h₁ (registered_of_sender hs hsender)).resolve_left hn
      have hclosed : closedSender ⟨before, .session event pace, after⟩ = true := by
        rw [closedSender, hsender]
        exact htold'
      exact silent_of_unrouted hs hsender (unrouted_of_unheard h₁ (hlate ms₁ _ ms₂ rfl hclosed))
  · intro c
    rw [run_waiting hrun c]
    congr 1
    rw [framesFrom, framesFrom, List.filterMap_filter]
    apply List.filterMap_congr
    intro move hm
    have hmem : move ∈ ms := (List.rtakeWhile_suffix _ _).subset hm
    cases hc : closedSender move with
    | false => rfl
    | true =>
      obtain ⟨ns₁, ns₂, hsplit⟩ := List.append_of_mem hmem
      exact frameFrom_of_unheard (hlate ns₁ move ns₂ hsplit hc)

/-- A server-data socket is replaced, the client leaves, and the old socket talks on. -/
def lateSocket : List WorldEvent :=
  [.session (.register (nodeClient 1 "c")) [], .session (.register (nodeData 2 "c")) [],
    .session (.register (nodeData 3 "c")) [], .session (.unregister (nodeClient 1 "c")) [],
    .session (.frame (nodeData 2 "c") (.text "late") 0) [], .session (.ping (nodeData 2 "c") []) []]

theorem closed_peers_mute_of_lateSocket :
    Silent ⟨outcome (World.step nodeSession) (World.init nodeSession) (lateSocket.take 4),
        .session (.frame (nodeData 2 "c") (.text "late") 0) [],
        outcome (World.step nodeSession) (World.init nodeSession) (lateSocket.take 5)⟩
      (nodeData 2 "c") ∧
    Silent ⟨outcome (World.step nodeSession) (World.init nodeSession) (lateSocket.take 5),
        .session (.ping (nodeData 2 "c") []) [],
        outcome (World.step nodeSession) (World.init nodeSession) (lateSocket.take 6)⟩
      (nodeData 2 "c") := by
  have hplay : (play (World.step nodeSession) (World.init nodeSession) lateSocket).isSome := rfl
  have hmute := (@closed_peers_mute nodeSession _ _ (Run.of_outcome hplay) ?_).1
  · exact ⟨hmute _ (mem_history hplay (k := 4) (by decide)) _ rfl (.inl rfl),
      hmute _ (mem_history hplay (k := 5) (by decide)) _ rfl (.inl rfl)⟩
  · apply forall_split_history hplay
      (C := fun ns move => closedSender move = true → move.event.Unheard ns)
    intro k hk _
    have hrun := Run.of_outcome (play_take hplay k)
    change k < 6 at hk
    interval_cases k
    · exact trivial
    · exact trivial
    · exact trivial
    · exact trivial
    · intro peerMeta hkind hpresent
      rw [run_present_iff hrun] at hpresent
      change Function.update
        (Function.update (Function.update (Function.update (fun _ => Phase.fresh)
        ⟨1⟩ (.registered (nodeClient 1 "c"))) ⟨2⟩ (.registered (nodeData 2 "c")))
        ⟨3⟩ (.registered (nodeData 3 "c"))) ⟨1⟩ .gone peerMeta.peerId = _ at hpresent
      simp only [Function.update_apply] at hpresent
      split_ifs at hpresent <;> cases hpresent <;> cases hkind
    · intro hclient other hincumbent hkind
      have hclient' : ∀ c, other.kind ≠ .v2Client c := by
        rw [hkind]
        exact hclient
      rw [run_incumbent_iff hrun other hclient', stored_iff_slot hclient', hkind] at hincumbent
      cases hincumbent

/-- A client that a departed server-data socket has closed sends one more frame, and the
next server-data socket receives it. -/
theorem closed_client_is_heard :
    toldToClose (outcome (World.step nodeSession) (World.init nodeSession)
        [.session (.register (nodeClient 1 "c")) [], .session (.register (nodeData 2 "c")) [],
          .session (.unregister (nodeData 2 "c")) []]) ⟨1⟩ = true ∧
      frames ((outcome (World.step nodeSession) (World.init nodeSession)
        [.session (.register (nodeClient 1 "c")) [], .session (.register (nodeData 2 "c")) [],
          .session (.unregister (nodeData 2 "c")) [],
          .session (.frame (nodeClient 1 "c") (.text "late") 0) [],
          .session (.register (nodeData 3 "c")) []]).queue ⟨3⟩).chan.queued = [.text "late"] :=
  ⟨rfl, rfl⟩

end NodeAccess.Relay
