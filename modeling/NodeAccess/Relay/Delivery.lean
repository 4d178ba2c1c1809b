import NodeAccess.Relay.Representation

/-! # What reaches the queue of one peer

The messages that an event sends to a peer are appended to what the session tried to
send it, whatever the pace. As long as the queue has refused nothing, these messages,
closes apart, are the ones it let in.
-/

namespace NodeAccess.Relay

open Foundation

def Send.message : Send → OutboundMessage
  | .sendOrClose _ message => message
  | .closeHandle _ code reason => .close code reason

def messagesTo (p : PeerId) (sends : List Send) : List OutboundMessage :=
  (sends.filter fun send => send.target = p).map Send.message

theorem messagesTo_append (p : PeerId) (s t : List Send) :
    messagesTo p (s ++ t) = messagesTo p s ++ messagesTo p t := by
  simp [messagesTo]

theorem messagesTo_eq_nil {p : PeerId} {sends : List Send} (h : ∀ send ∈ sends, send.target ≠ p) :
    messagesTo p sends = [] := by
  rw [messagesTo, List.map_eq_nil_iff, List.filter_eq_nil_iff]
  intro send hs
  simpa using h send hs

/-! ## The queue through one send -/

theorem PeerQueue.works_induction {P : PeerQueue → Prop} (hstep : ∀ q work, P q → P (q.work work))
    {q : PeerQueue} (h : P q) (works : List QueueWork) : P (q.works works) := by
  induction works generalizing q with
  | nil => exact h
  | cons work works ih => exact ih (hstep q work h)

theorem PeerQueue.works_tried (q : PeerQueue) (works : List QueueWork) :
    (q.works works).tried = q.tried := by
  apply PeerQueue.works_induction (P := fun r => r.tried = q.tried) _ rfl
  intro r work hr
  cases work <;> exact hr

theorem Send.apply_tried (gap : Gap) (q : PeerQueue) (send : Send) :
    (send.apply gap q).tried = q.tried ++ [send.message] := by
  cases send with
  | sendOrClose handle message =>
    simp only [Send.apply]
    split_ifs <;> simp [PeerQueue.tryFallback, PeerQueue.works_tried, PeerQueue.tryMessage,
      Send.message]
  | closeHandle handle code reason =>
    simp [Send.apply, PeerQueue.tryClose, PeerQueue.works_tried, Send.message]

theorem PeerQueue.work_capacity (q : PeerQueue) (work : QueueWork) :
    (q.work work).chan.capacity = q.chan.capacity := by
  cases work <;> simp [PeerQueue.work, PeerQueue.recv, PeerQueue.tryOwnClose, PeerQueue.stop,
    Channel.close]

theorem PeerQueue.works_capacity (q : PeerQueue) (works : List QueueWork) :
    (q.works works).chan.capacity = q.chan.capacity := by
  apply PeerQueue.works_induction (P := fun r => r.chan.capacity = q.chan.capacity) _ rfl
  intro r work hr
  rw [PeerQueue.work_capacity, hr]

theorem Send.apply_capacity (gap : Gap) (q : PeerQueue) (send : Send) :
    (send.apply gap q).chan.capacity = q.chan.capacity := by
  cases send with
  | sendOrClose handle message =>
    simp only [Send.apply]
    split_ifs <;> simp [PeerQueue.tryFallback, PeerQueue.tryMessage, PeerQueue.works_capacity]
  | closeHandle handle code reason =>
    simp [Send.apply, PeerQueue.tryClose, PeerQueue.works_capacity]

/-- Outside the session's lock no fallback is owed, and a queue that has refused nothing
holds what was sent, up to the closes that the peer's own loop added. -/
structure PeerQueue.Tracks (q : PeerQueue) : Prop where
  settled : q.owed = false
  coherent : q.chan.Coherent
  content : q.chan.refused = false →
    q.chan.queued.filter (fun m => !m.isClose) = q.tried.filter fun m => !m.isClose

theorem PeerQueue.tracks_new (capacity : ℕ) : (PeerQueue.new capacity).Tracks :=
  ⟨rfl, Channel.coherent_new capacity, fun _ => rfl⟩

theorem PeerQueue.Tracks.work {q : PeerQueue} (h : q.Tracks) (work : QueueWork) :
    (q.work work).Tracks := by
  cases work with
  | recv =>
    refine ⟨h.settled, h.coherent.recv, ?_⟩
    simpa [PeerQueue.work, PeerQueue.recv] using h.content
  | ownClose code reason =>
    refine ⟨h.settled, h.coherent.trySend _, ?_⟩
    intro hr
    have hs := Channel.refused_of_trySend hr
    change (q.chan.trySend (.close code reason)).1.queued.filter _ = q.tried.filter _
    rw [hs.2.1, List.filter_append, h.content hs.1]
    simp [OutboundMessage.isClose]
  | stop => exact ⟨h.settled, h.coherent.close, h.content⟩

theorem PeerQueue.Tracks.works {q : PeerQueue} (h : q.Tracks) (works : List QueueWork) :
    (q.works works).Tracks :=
  PeerQueue.works_induction (fun _ work hq => hq.work work) h works

theorem PeerQueue.works_refused {q : PeerQueue} (works : List QueueWork)
    (h : q.chan.refused = true) : (q.works works).chan.refused = true := by
  apply PeerQueue.works_induction (P := fun r => r.chan.refused = true) _ h
  intro r work hr
  cases work with
  | recv => simpa [PeerQueue.work, PeerQueue.recv] using hr
  | ownClose code reason => exact Channel.refused_mono _ hr
  | stop => exact hr

theorem PeerQueue.Tracks.apply {q : PeerQueue} (h : q.Tracks) (gap : Gap) (send : Send) :
    (send.apply gap q).Tracks := by
  have hq := h.works gap.before
  cases send with
  | sendOrClose handle message =>
    simp only [Send.apply]
    generalize q.works gap.before = w at hq ⊢
    split_ifs with howed
    · have hrefused : (w.tryMessage message).chan.refused = true := by
        cases hr : (w.tryMessage message).chan.refused with
        | true => rfl
        | false =>
          have hs := Channel.refused_of_trySend hr
          simp [PeerQueue.tryMessage, hs.2.2] at howed
      have hcoherent : ((w.tryMessage message).works gap.between).chan.Coherent := by
        apply PeerQueue.works_induction (P := fun r => r.chan.Coherent) _
          (hq.coherent.trySend message)
        intro r work hr
        cases work with
        | recv => exact hr.recv
        | ownClose code reason => exact hr.trySend _
        | stop => exact hr.close
      refine ⟨rfl, hcoherent.trySend _, ?_⟩
      intro hr
      have hlate := Channel.refused_mono PeerQueue.slowConsumer
        (PeerQueue.works_refused gap.between hrefused)
      exact absurd (hlate.symm.trans hr) (by decide)
    · refine ⟨by simpa using howed, hq.coherent.trySend message, ?_⟩
      intro hr
      have hs := Channel.refused_of_trySend hr
      change (w.chan.trySend message).1.queued.filter _ = (w.tried ++ [message]).filter _
      rw [hs.2.1, List.filter_append, List.filter_append, hq.content hs.1]
  | closeHandle handle code reason =>
    refine ⟨hq.settled, hq.coherent.trySend _, ?_⟩
    intro hr
    have hs := Channel.refused_of_trySend hr
    change ((q.works gap.before).chan.trySend (OutboundMessage.close code reason)).1.queued.filter
      _ =
      ((q.works gap.before).tried ++ [OutboundMessage.close code reason]).filter _
    rw [hs.2.1, List.filter_append, List.filter_append, hq.content hs.1]

/-! ## The queue through one event -/

theorem deliver_tried (sends : List Send) (pace : List Gap) (queue : PeerId → PeerQueue)
    (p : PeerId) :
    (deliver sends pace queue p).tried = (queue p).tried ++ messagesTo p sends := by
  induction sends generalizing pace queue with
  | nil => simp [deliver, messagesTo]
  | cons send sends ih =>
    rw [deliver, ih]
    by_cases h : send.target = p
    · subst h
      simp [Send.apply_tried, messagesTo]
    · simp [Function.update_of_ne (Ne.symm h), messagesTo, h]

theorem deliver_tracks {queue : PeerId → PeerQueue} (h : ∀ p, (queue p).Tracks)
    (sends : List Send) (pace : List Gap) (p : PeerId) : (deliver sends pace queue p).Tracks := by
  induction sends generalizing pace queue with
  | nil => exact h p
  | cons send sends ih =>
    rw [deliver]
    apply ih
    intro q
    by_cases hq : q = send.target
    · subst hq
      rw [Function.update_self]
      exact (h _).apply _ send
    · rw [Function.update_of_ne hq]
      exact h q

theorem deliver_capacity (sends : List Send) (pace : List Gap) (queue : PeerId → PeerQueue)
    (p : PeerId) : (deliver sends pace queue p).chan.capacity = (queue p).chan.capacity := by
  induction sends generalizing pace queue with
  | nil => rfl
  | cons send sends ih =>
    rw [deliver, ih]
    by_cases h : p = send.target
    · subst h
      rw [Function.update_self, Send.apply_capacity]
    · rw [Function.update_of_ne h]

theorem deliver_of_ne {sends : List Send} {p : PeerId} (h : ∀ send ∈ sends, send.target ≠ p)
    (pace : List Gap) (queue : PeerId → PeerQueue) : deliver sends pace queue p = queue p := by
  induction sends generalizing pace queue with
  | nil => rfl
  | cons send sends ih =>
    rw [deliver, ih fun s hs => h s (List.mem_cons_of_mem _ hs),
      Function.update_of_ne (h send (by simp)).symm]

/-! ## Who is sent something -/

theorem Connection.sends_target {k : Connection} {op : ConnectionOp} {send : Send}
    (h : send ∈ k.sends op) :
    (∃ handle, k.server = some handle ∧ send.target = handle.peerMeta.peerId) ∨
      (∃ p handle, k.members.get p = some handle ∧ send.target = handle.peerMeta.peerId) ∨
      ∃ handle, op = .attach handle ∧ send.target = handle.peerMeta.peerId := by
  cases op with
  | attach handle =>
    rcases List.mem_append.mp h with h | h
    · simp only [closeReplaced, List.mem_map, Option.mem_toList] at h
      rcases h with ⟨server, hs, rfl⟩
      exact .inl ⟨server, hs, rfl⟩
    · rcases List.mem_map.mp h with ⟨frame, -, rfl⟩
      exact .inr (.inr ⟨handle, rfl, rfl⟩)
  | clientFrame frame =>
    simp only [Connection.sends, List.mem_map, Option.mem_toList] at h
    rcases h with ⟨server, hs, rfl⟩
    exact .inl ⟨server, hs, rfl⟩
  | serverFrame frame =>
    simp only [Connection.sends, List.mem_map, Table.mem_values] at h
    rcases h with ⟨client, ⟨p, hp⟩, rfl⟩
    exact .inr (.inl ⟨p, client, hp, rfl⟩)
  | pingServer payload =>
    simp only [Connection.sends, List.mem_map, Option.mem_toList] at h
    rcases h with ⟨server, hs, rfl⟩
    exact .inl ⟨server, hs, rfl⟩
  | pingClient p payload =>
    simp only [Connection.sends, List.mem_map, Option.mem_toList] at h
    rcases h with ⟨client, hp, rfl⟩
    exact .inr (.inl ⟨p, client, hp, rfl⟩)
  | leave p =>
    simp only [Connection.sends] at h
    split_ifs at h
    · simp only [List.mem_map, Option.mem_toList] at h
      rcases h with ⟨server, hs, rfl⟩
      exact .inl ⟨server, hs, rfl⟩
    · cases h
  | detach p =>
    simp only [Connection.sends, List.mem_map, Table.mem_values] at h
    rcases h with ⟨client, ⟨q, hq⟩, rfl⟩
    exact .inr (.inl ⟨q, client, hq, rfl⟩)
  | join handle => cases h
  | refuse => cases h

variable {session : RelaySession} {core core' : Core} {event : SessionEvent} {sends : List Send}

theorem Core.step_phase (hs : core.step session event = some (core', sends)) (p : PeerId) :
    core'.phase p = core.phase p ∨
      (∃ peerMeta, event = .register peerMeta ∧ p = peerMeta.peerId ∧ core.phase p = .fresh ∧
        (core'.phase p = .registered peerMeta ∨ core'.phase p = .gone)) ∨
      (∃ peerMeta, event = .unregister peerMeta ∧ p = peerMeta.peerId ∧
        core.phase p = .registered peerMeta ∧ core'.phase p = .gone) := by
  cases event with
  | register peerMeta =>
    rcases Core.step_register hs with ⟨⟨hfresh, -, -⟩, -, -, hphase, -⟩
    rw [hphase]
    by_cases hp : p = peerMeta.peerId
    · subst hp
      refine .inr (.inl ⟨peerMeta, rfl, rfl, hfresh, ?_⟩)
      rw [Function.update_self]
      split_ifs
      · exact .inl rfl
      · exact .inr rfl
    · exact .inl (Function.update_of_ne hp _ _)
  | frame peerMeta frame nowMs =>
    rcases Core.step_frame hs with ⟨-, rfl, -⟩
    exact .inl rfl
  | ping peerMeta payload =>
    rcases Core.step_ping hs with ⟨-, rfl, -⟩
    exact .inl rfl
  | unregister peerMeta =>
    rcases Core.step_unregister hs with ⟨hp, rfl, -⟩
    by_cases he : p = peerMeta.peerId
    · subst he
      exact .inr (.inr ⟨peerMeta, rfl, rfl, hp, Function.update_self _ _ _⟩)
    · exact .inl (Function.update_of_ne he _ _)
  | nudge peerId =>
    rcases Core.step_nudge hs with ⟨id, stage, -, rfl, -⟩
    exact .inl rfl

theorem Core.step_not_fresh (hs : core.step session event = some (core', sends)) {p : PeerId}
    (hp : core.phase p ≠ .fresh) : core'.phase p ≠ .fresh := by
  rcases Core.step_phase hs p with h | ⟨_, -, -, h, -⟩ | ⟨_, -, -, -, h⟩
  · rwa [h]
  · exact absurd h hp
  · simp [h]

theorem Core.positive_of_step (hs : core.step session event = some (core', sends)) {p : PeerId}
    (hp : core.phase p = .fresh) (hp' : core'.phase p ≠ .fresh) :
    0 < session.limits.maxOutboundQueueMessages := by
  rcases Core.step_phase hs p with he | ⟨peerMeta, rfl, -⟩ | ⟨_, -, -, hr, -⟩
  · exact absurd (he ▸ hp) hp'
  · exact (Core.step_register hs).1.2.2
  · rw [hp] at hr
    cases hr

theorem Core.Sound.slot_owned (h : core.Sound session) {handle : PeerHandle}
    (hm : handle ∈ core.state.slots) :
    core.phase handle.peerMeta.peerId = .registered handle.peerMeta ∧
      (∀ id, handle.peerMeta.kind ≠ .v2ServerData id) ∧
        ∀ id, handle.peerMeta.kind ≠ .v2Client id := by
  rcases mem_slots.mp hm with hs | hs | hs
  · have ho := h.v1Server handle hs
    simp [ho.1, ho.2]
  · have ho := h.v1Client handle hs
    simp [ho.1, ho.2]
  · have ho := h.serverControl handle hs
    simp [ho.1, ho.2]

theorem Core.Sound.target_not_fresh (h : core.Sound session)
    (hs : core.step session event = some (core', sends)) (h' : core'.Sound session) :
    ∀ send ∈ sends, core'.phase send.target ≠ .fresh := by
  rcases Core.step_sends hs with ⟨rest, rfl, hrest⟩
  intro send hm
  rcases List.mem_append.mp hm with hm | hm
  · cases hop : event.connectionOp session.limits core.state with
    | none => simp [hop, SessionState.opSends] at hm
    | some touched =>
      rw [hop] at hm
      have hk := h.connection touched.1
      rcases Connection.sends_target hm with ⟨handle, hh, ht⟩ | ⟨p, handle, hh, ht⟩ |
        ⟨handle, hh, ht⟩
      · apply Core.step_not_fresh hs
        rw [ht, (hk.server handle hh).1]
        simp
      · have hc := hk.client p handle hh
        apply Core.step_not_fresh hs
        rw [ht, hc.1, hc.2.1]
        simp
      · rw [show touched = (touched.1, .attach handle) from Prod.ext rfl hh] at hop
        have ho := SessionEvent.origin_of_connectionOp hop
        rw [ho.1] at hs
        have hphase := (Core.step_register hs).2.2.2.1
        rw [hphase, ht, Function.update_self]
        split_ifs <;> simp
  · rcases hrest send hm with ⟨handle, hh, ht⟩
    rw [ht]
    rcases List.mem_append.mp hh with hh | hh
    · apply Core.step_not_fresh hs
      simp [(h.slot_owned hh).1]
    · simp [(h'.slot_owned hh).1]

/-! ## The invariant of the peers' queues -/

structure World.Settled (session : RelaySession) (world : World) : Prop where
  sound : world.toCore.Sound session
  tracks : ∀ p, (world.queue p).Tracks
  quiet : ∀ p, world.phase p = .fresh → (world.queue p).tried = []
  capacity : ∀ p, (world.queue p).chan.capacity = session.limits.maxOutboundQueueMessages
  positive : ∀ p, world.phase p ≠ .fresh → 0 < session.limits.maxOutboundQueueMessages

theorem World.settled_init : (World.init session).Settled session where
  sound := Core.sound_init session
  tracks := fun _ => PeerQueue.tracks_new _
  quiet := fun _ _ => rfl
  capacity := fun _ => rfl
  positive := fun _ hp => absurd rfl hp

theorem World.Settled.step {world world' : World} {event : WorldEvent}
    (h : world.Settled session) (hs : world.step session event = some world') :
    world'.Settled session := by
  have hsound := World.sound_step h.sound hs
  cases event with
  | session event pace =>
    simp only [World.step, Option.map_eq_some_iff] at hs
    rcases hs with ⟨⟨core', sends⟩, hr, rfl⟩
    refine ⟨hsound, deliver_tracks h.tracks sends pace, ?_,
      fun p => (deliver_capacity sends pace world.queue p).trans (h.capacity p), ?_⟩
    swap
    · intro p hp
      by_cases hbefore : world.phase p = .fresh
      · exact Core.positive_of_step hr hbefore hp
      · exact h.positive p hbefore
    intro p hp
    have hne : ∀ send ∈ sends, send.target ≠ p := by
      rintro send hm rfl
      exact h.sound.target_not_fresh hr hsound send hm hp
    have hbefore : world.phase p = .fresh := by
      by_contra hn
      exact Core.step_not_fresh hr hn hp
    change (deliver sends pace world.queue p).tried = []
    rw [deliver_of_ne hne, h.quiet p hbefore]
  | queue peerId work =>
    simp only [World.step, Option.ite_none_left_eq_some, Option.some.injEq] at hs
    rcases hs with ⟨hp, rfl⟩
    refine ⟨hsound, ?_, ?_, ?_, h.positive⟩
    · intro q
      by_cases hq : q = peerId
      · subst hq
        simpa using (h.tracks q).work work
      · simpa [Function.update_of_ne hq] using h.tracks q
    · intro q hfresh
      by_cases hq : q = peerId
      · subst hq
        exact absurd hfresh hp
      · simpa [Function.update_of_ne hq] using h.quiet q hfresh
    · intro q
      by_cases hq : q = peerId
      · subst hq
        simpa using (PeerQueue.work_capacity _ work).trans (h.capacity q)
      · simpa [Function.update_of_ne hq] using h.capacity q

theorem World.run_settled {world : World} {ms : List (Move World WorldEvent)}
    (hrun : Run (World.step session) (World.init session) ms world) : world.Settled session :=
  hrun.invariant World.settled_init fun _ _ _ h hs => World.Settled.step h hs

end NodeAccess.Relay
