import NodeAccess.Relay.Routing

/-! # What a socket gets, whatever the relay drops

Full queues, bounded buffers and departed peers make the relay lose frames. What is left
is in order: the frames that a socket has got are a subsequence of the frames that the
other side of its connection has sent.
-/

namespace NodeAccess.Relay

open Foundation

def PeerQueue.Forwards (q : PeerQueue) : Prop := (frames q.chan.queued).Sublist (frames q.tried)

theorem frames_trySend (chan : Channel OutboundMessage) (message : OutboundMessage) :
    (frames (chan.trySend message).1.queued).Sublist (frames chan.queued ++ frames [message]) := by
  rcases chan.trySend_cases message with ⟨-, he⟩ | ⟨-, -, he⟩ | ⟨-, -, he⟩ <;> rw [he]
  · exact List.sublist_append_left _ _
  · rw [← frames_append]
  · exact List.sublist_append_left _ _

theorem frames_trySend_close (chan : Channel OutboundMessage) (code : ℕ) (reason : String) :
    (frames (chan.trySend (.close code reason)).1.queued).Sublist (frames chan.queued) := by
  have h := frames_trySend chan (.close code reason)
  rwa [show frames [OutboundMessage.close code reason] = [] from rfl, List.append_nil] at h

theorem PeerQueue.Forwards.work {q : PeerQueue} (h : q.Forwards) (work : QueueWork) :
    (q.work work).Forwards := by
  cases work with
  | recv => simpa [PeerQueue.Forwards, PeerQueue.work, PeerQueue.recv] using h
  | ownClose code reason => exact (frames_trySend_close q.chan code reason).trans h
  | stop => exact h

theorem PeerQueue.Forwards.works {q : PeerQueue} (h : q.Forwards) (works : List QueueWork) :
    (q.works works).Forwards :=
  PeerQueue.works_induction (fun _ work hq => hq.work work) h works

theorem PeerQueue.Forwards.tryMessage {q : PeerQueue} (h : q.Forwards) (message : OutboundMessage) :
    (q.tryMessage message).Forwards := by
  have hsent := (frames_trySend q.chan message).trans (h.append_right (frames [message]))
  rwa [← frames_append] at hsent

theorem PeerQueue.Forwards.apply {q : PeerQueue} (h : q.Forwards) (gap : Gap) (send : Send) :
    (send.apply gap q).Forwards := by
  have hq := h.works gap.before
  cases send with
  | sendOrClose handle message =>
    have hsent := hq.tryMessage message
    simp only [Send.apply]
    split_ifs
    · exact (frames_trySend_close _ 1013 "Slow consumer").trans (hsent.works gap.between)
    · exact hsent
  | closeHandle handle code reason =>
    have hclosed := (frames_trySend_close (q.works gap.before).chan code reason).trans hq
    change (frames _).Sublist (frames ((q.works gap.before).tried ++ [.close code reason]))
    rw [frames_append]
    exact hclosed.trans (List.sublist_append_left _ _)

theorem PeerQueue.work_taken (q : PeerQueue) (work : QueueWork) :
    q.chan.taken <+: (q.work work).chan.taken := by
  cases work with
  | recv => exact q.chan.taken_prefix_recv
  | ownClose code reason => simp [PeerQueue.work, PeerQueue.tryOwnClose]
  | stop => exact List.prefix_rfl

theorem PeerQueue.works_taken (q : PeerQueue) (works : List QueueWork) :
    q.chan.taken <+: (q.works works).chan.taken :=
  PeerQueue.works_induction (P := fun r => q.chan.taken <+: r.chan.taken)
    (fun r work hr => hr.trans (r.work_taken work)) List.prefix_rfl works

theorem Send.apply_taken (gap : Gap) (q : PeerQueue) (send : Send) :
    q.chan.taken <+: (send.apply gap q).chan.taken := by
  have hbefore := q.works_taken gap.before
  cases send with
  | sendOrClose handle message =>
    simp only [Send.apply]
    generalize q.works gap.before = w at hbefore ⊢
    have hsent : q.chan.taken <+: (w.tryMessage message).chan.taken := by
      simpa [PeerQueue.tryMessage] using hbefore
    split_ifs
    · have hbetween := hsent.trans ((w.tryMessage message).works_taken gap.between)
      simpa [PeerQueue.tryFallback] using hbetween
    · exact hsent
  | closeHandle handle code reason => simpa [Send.apply, PeerQueue.tryClose] using hbefore

/-! ## Worlds -/

variable {session : RelaySession} {world world' : World}

theorem World.step_queues {P : PeerId → PeerQueue → Prop}
    (hwork : ∀ p q work, P p q → P p (q.work work))
    (happly : ∀ p q gap send, P p q → P p (Send.apply gap q send)) {event : WorldEvent}
    (hs : world.step session event = some world') (h : ∀ p, P p (world.queue p)) :
    ∀ p, P p (world'.queue p) := by
  cases event with
  | queue q work =>
    simp only [World.step, Option.ite_none_left_eq_some, Option.some.injEq] at hs
    obtain ⟨-, rfl⟩ := hs
    intro p
    dsimp only
    by_cases hp : p = q
    · rw [hp, Function.update_self]
      exact hwork q _ work (h q)
    · rw [Function.update_of_ne hp]
      exact h p
  | session event pace =>
    obtain ⟨sends, -, hqueue⟩ := World.step_session hs
    rw [hqueue]
    clear hqueue hs
    generalize world.queue = queue at h
    induction sends generalizing pace queue with
    | nil => exact h
    | cons send sends ih =>
      apply ih
      intro p
      by_cases hp : p = send.target
      · rw [hp, Function.update_self]
        exact happly _ _ _ send (h _)
      · rw [Function.update_of_ne hp]
        exact h p

theorem World.run_forwards {ms : List (Move World WorldEvent)}
    (hrun : Run (World.step session) (World.init session) ms world) (p : PeerId) :
    (world.queue p).Forwards := by
  revert p
  apply hrun.invariant (P := fun w => ∀ p, (w.queue p).Forwards)
  · intro p
    exact List.Sublist.refl _
  · intro before event after h hs
    exact World.step_queues (P := fun _ q => q.Forwards) (fun _ _ work hq => hq.work work)
      (fun _ _ gap send hq => hq.apply gap send) hs h

theorem World.step_taken {event : WorldEvent} (hs : world.step session event = some world')
    (p : PeerId) : (world.queue p).chan.taken <+: (world'.queue p).chan.taken := by
  revert p
  exact World.step_queues (P := fun p q => (world.queue p).chan.taken <+: q.chan.taken)
    (fun _ q work hq => hq.trans (q.work_taken work))
    (fun _ q gap send hq => hq.trans (Send.apply_taken gap q send)) hs fun _ => List.prefix_rfl

/-- The kind of the sockets whose frames go to a socket of a connection. -/
def PeerKind.opposite : PeerKind → PeerKind
  | .v2Client c => .v2ServerData c
  | .v2ServerData c => .v2Client c
  | kind => kind

theorem framesFrom_sublist {kind : PeerKind} {ms ms' : List (Move World WorldEvent)}
    (h : ms.Sublist ms') : (framesFrom kind ms).Sublist (framesFrom kind ms') :=
  h.filterMap _

/-- The frames that a socket of a connection has got are some of those that the other side of
the connection has sent, in order. -/
theorem run_taken {ms₁ ms₂ : List (Move World WorldEvent)} {move : Move World WorldEvent}
    {pace : List Gap} {peerMeta : PeerMeta}
    (hrun : Run (World.step session) (World.init session) (ms₁ ++ move :: ms₂) world)
    (hreg : move.event = .session (.register peerMeta) pace)
    (hok : move.after.phase peerMeta.peerId = .registered peerMeta) {c : String}
    (hkind : peerMeta.kind = .v2Client c ∨ peerMeta.kind = .v2ServerData c) :
    (frames (world.queue peerMeta.peerId).chan.taken).Sublist
      (framesFrom peerMeta.kind.opposite (ms₁ ++ move :: ms₂)) := by
  have hqueued := (World.run_settled hrun).tracks peerMeta.peerId |>.coherent.taken_prefix
  have htaken : (frames (world.queue peerMeta.peerId).chan.taken).Sublist
      (frames (world.queue peerMeta.peerId).tried) :=
    (hqueued.sublist.filterMap _).trans (World.run_forwards hrun peerMeta.peerId)
  obtain ⟨hdata, hclient⟩ := run_tried hrun hreg hok
  have hlater : ms₂.Sublist (move :: ms₂) := List.sublist_cons_self _ _
  apply htaken.trans
  rcases hkind with hkind | hkind
  · rw [hkind, hclient c hkind]
    apply framesFrom_sublist
    exact List.filter_sublist.trans (hlater.trans (List.sublist_append_right _ _))
  · rw [hkind, hdata c hkind]
    rw [framesFrom_append]
    apply List.Sublist.append
    · have hsince : (sinceReset c ms₁).Sublist ms₁ := List.rtakeWhile_suffix _ _ |>.sublist
      rw [List.rtake]
      exact (List.drop_sublist _ _).trans (framesFrom_sublist hsince)
    · exact framesFrom_sublist (List.filter_sublist.trans hlater)

end NodeAccess.Relay
