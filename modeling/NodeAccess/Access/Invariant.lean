import NodeAccess.Access.System

/-! # The invariant of the system

As long as every visitor has a connection id of its own, each mux is sound and the frames
that it hears are frames of the one mux at the other side of its connection, though the
relay may lose some.
-/

namespace NodeAccess.Access

open Foundation Crypto Mux Relay

variable {session : RelaySession} {serde : SerdeSlice} {aes : AesGcm}
  {sha256 : List UInt8 → List UInt8}

/-- Messages that are read as frames, out of the messages that were written for frames: the
frames read are some of the frames written, in order. -/
theorem sublist_of_reads {crypto other : Option FrameCrypto} {read written : List (List UInt8)}
    {frames frames' : List MuxFrame} (h : read.Sublist written)
    (hread : List.Forall₂ (fun message frame => readFrame serde aes other message = .ok frame)
      read frames)
    (hwritten : List.Forall₂ (fun message frame =>
      ∀ other, Reads serde aes crypto other message frame) written frames') :
    frames.Sublist frames' := by
  induction h generalizing frames frames' with
  | slnil =>
    cases hread
    cases hwritten
    exact List.Sublist.refl _
  | cons message _ ih =>
    cases hwritten with
    | cons _ hrest => exact (ih hread hrest).cons _
  | cons_cons message _ ih =>
    cases hread with
    | cons hok hread =>
      cases hwritten with
      | cons hreads hrest =>
        obtain rfl := (hreads other).faithful _ hok
        exact (ih hread hrest).cons_cons _

/-- What is known of a socket: its mux is sound, the relay has read its messages in order, and
what the mux has heard are messages of the other side. -/
structure Socket.Sound (serde : SerdeSlice) (aes : AesGcm) (ms : List (Move World WorldEvent))
    (world : World) (k : Socket) : Prop where
  connection : k.peerMeta.kind.connection.isSome
  known : world.phase k.peerMeta.peerId ≠ .fresh
  mux : k.mux.Sound (firstStreamId k.peerMeta.kind) k.crypto
  wrote : List.Forall₂ (fun message frame => ∀ other, Reads serde aes k.crypto other message frame)
    (k.relayed ++ k.uplink) k.mux.wrote
  relayed : framesFrom k.peerMeta.kind ms = k.relayed.map .binary
  registered : k.mux.readerOpen = true → ∃ ms₁ move ms₂ pace, ms = ms₁ ++ move :: ms₂ ∧
    move.event = .session (.register k.peerMeta) pace ∧
    move.after.phase k.peerMeta.peerId = .registered k.peerMeta
  read : ∃ messages,
    List.Forall₂ (fun message frame => readFrame serde aes k.crypto message = .ok frame) messages
      k.mux.endpoint.arrived ∧
    (messages.map RelayFrame.binary).Sublist
      (frames ((world.queue k.peerMeta.peerId).chan.taken.take k.heard)) ∧
    (messages.map RelayFrame.binary).Sublist (framesFrom k.peerMeta.kind.opposite ms)

structure System.Sound (session : RelaySession) (serde : SerdeSlice) (aes : AesGcm)
    (ms : List (Move World WorldEvent)) (s : System) : Prop where
  run : Run (World.step session) (World.init session) ms s.world
  id : ∀ p k, s.socket p = some k → k.peerMeta.peerId = p
  inUse : ∀ p k, s.socket p = some k → k.peerMeta.kind ∈ s.inUse
  unique : ∀ p q k l, s.socket p = some k → s.socket q = some l →
    k.peerMeta.kind = l.peerMeta.kind → p = q
  silent : ∀ kind, kind.connection.isSome → (∀ p k, s.socket p = some k → k.peerMeta.kind ≠ kind) →
    framesFrom kind ms = []
  socket : ∀ p k, s.socket p = some k → k.Sound serde aes ms s.world

theorem System.sound_init : (System.init session).Sound session serde aes [] where
  run := Run.nil
  id := by
    intro p k hk
    cases hk
  inUse := by
    intro p k hk
    cases hk
  unique := by
    intro p q k l hk
    cases hk
  silent := by
    intro kind _ _
    rfl
  socket := by
    intro p k hk
    cases hk

section Socket

variable {ms : List (Move World WorldEvent)} {world world' : World} {k : Socket}

theorem Socket.Sound.relay_message (h : k.Sound serde aes ms world) {event : WorldEvent}
    (hs : world.step session event = some world') {uplink relayed : List (List UInt8)}
    (hmessages : relayed ++ uplink = k.relayed ++ k.uplink)
    (hrelayed : relayed.map RelayFrame.binary =
      k.relayed.map RelayFrame.binary ++ (event.frameFrom k.peerMeta.kind).toList) :
    Socket.Sound serde aes (ms ++ [⟨world, event, world'⟩]) world'
      { k with uplink := uplink, relayed := relayed } := by
  have hphase : world'.phase k.peerMeta.peerId ≠ .fresh := by
    cases event with
    | queue p work =>
      rw [(World.step_queue hs).2.1]
      exact h.known
    | session event pace =>
      obtain ⟨sends, hstep, -⟩ := World.step_session hs
      exact Core.step_not_fresh hstep h.known
  have hfrom :
      ∀ kind, (framesFrom kind ms).Sublist (framesFrom kind (ms ++ [⟨world, event, world'⟩])) :=
    fun kind => framesFrom_sublist (List.sublist_append_left _ _)
  constructor
  case connection => exact h.connection
  case known => exact hphase
  case mux => exact h.mux
  case wrote =>
    dsimp only
    rw [hmessages]
    exact h.wrote
  case relayed => rw [framesFrom_append, framesFrom_singleton, h.relayed, hrelayed]
  case registered =>
    intro hr
    obtain ⟨ms₁, move, ms₂, pace, rfl, hreg, hok⟩ := h.registered hr
    exact ⟨ms₁, move, ms₂ ++ [⟨world, event, world'⟩], pace, by simp, hreg, hok⟩
  case read =>
    obtain ⟨messages, hread, htaken, hsent⟩ := h.read
    obtain ⟨more, hmore⟩ := World.step_taken hs k.peerMeta.peerId
    refine ⟨messages, hread, ?_, hsent.trans (hfrom _)⟩
    apply htaken.trans
    rw [← hmore, List.take_append]
    exact (List.sublist_append_left _ _).filterMap _

theorem Socket.Sound.relay (h : k.Sound serde aes ms world) {event : WorldEvent}
    (hs : world.step session event = some world')
    (hframe : event.frameFrom k.peerMeta.kind = none) :
    k.Sound serde aes (ms ++ [⟨world, event, world'⟩]) world' :=
  h.relay_message hs rfl (by rw [hframe, Option.toList_none, List.append_nil])

theorem Socket.Sound.quiet (h : k.Sound serde aes ms world) {m : MuxConnection}
    {more : List (List UInt8)} (hmux : m.Sound (firstStreamId k.peerMeta.kind) k.crypto)
    (hwrote : List.Forall₂ (fun message frame => ∀ other,
      Reads serde aes k.crypto other message frame)
      (k.relayed ++ (k.uplink ++ more)) m.wrote)
    (harrived : m.endpoint.arrived = k.mux.endpoint.arrived)
    (hreader : m.readerOpen = true → k.mux.readerOpen = true) :
    Socket.Sound serde aes ms world { k with mux := m, uplink := k.uplink ++ more } := by
  refine ⟨h.connection, h.known, hmux, hwrote, h.relayed, fun hr => h.registered (hreader hr), ?_⟩
  dsimp only
  rw [harrived]
  exact h.read

theorem Socket.Sound.next (h : k.Sound serde aes ms world)
    (hrun : Run (World.step session) (World.init session) ms world) (hr : k.mux.readerOpen = true)
    {bytes : List UInt8}
    (hm : (world.queue k.peerMeta.peerId).chan.taken[k.heard]? = some (.binary bytes))
    {messages : List (List UInt8)}
    (htaken : (messages.map RelayFrame.binary).Sublist
      (frames ((world.queue k.peerMeta.peerId).chan.taken.take k.heard))) :
    ((messages ++ [bytes]).map RelayFrame.binary).Sublist
        (frames ((world.queue k.peerMeta.peerId).chan.taken.take (k.heard + 1))) ∧
      ((messages ++ [bytes]).map RelayFrame.binary).Sublist
        (framesFrom k.peerMeta.kind.opposite ms) := by
  obtain ⟨ms₁, move, ms₂, pace, rfl, hreg, hok⟩ := h.registered hr
  have hkind : ∃ c, k.peerMeta.kind = .v2Client c ∨ k.peerMeta.kind = .v2ServerData c := by
    have hc := h.connection
    cases hk : k.peerMeta.kind with
    | v2Client c => exact ⟨c, .inl rfl⟩
    | v2ServerData c => exact ⟨c, .inr rfl⟩
    | _ => rw [hk] at hc; cases hc
  obtain ⟨c, hkind⟩ := hkind
  have hall := run_taken hrun hreg hok hkind
  generalize (world.queue k.peerMeta.peerId).chan.taken = taken at *
  have hnow :
      ((messages ++ [bytes]).map RelayFrame.binary).Sublist
        (frames (taken.take (k.heard + 1))) := by
    rw [List.take_add_one, hm, frames_append, List.map_append]
    exact htaken.append (List.Sublist.refl _)
  exact ⟨hnow, (hnow.trans ((List.take_sublist _ _).filterMap _)).trans hall⟩

end Socket

namespace System

variable {ms : List (Move World WorldEvent)} {s s' : System} {p : PeerId} {k : Socket}

theorem Sound.written (h : s.Sound session serde aes ms) {kind : PeerKind}
    (hkind : kind.connection.isSome) {other : Option FrameCrypto} {messages : List (List UInt8)}
    {frames : List MuxFrame}
    (hread : List.Forall₂ (fun message frame => readFrame serde aes other message = .ok frame)
      messages frames)
    (hsent : (messages.map RelayFrame.binary).Sublist (framesFrom kind ms)) :
    (∃ q l, s.socket q = some l ∧ l.peerMeta.kind = kind ∧ frames.Sublist l.mux.wrote) ∨
      frames = [] := by
  by_cases hex : ∃ q l, s.socket q = some l ∧ l.peerMeta.kind = kind
  · obtain ⟨q, l, hl, rfl⟩ := hex
    have hsound := h.socket q l hl
    rw [hsound.relayed] at hsent
    have hinj : Function.Injective RelayFrame.binary := fun _ _ he => RelayFrame.binary.inj he
    obtain ⟨messages', hmessages, he⟩ := List.sublist_map_iff.mp hsent
    obtain rfl := List.map_injective_iff.mpr hinj he
    have huplink := hmessages.trans (List.sublist_append_left l.relayed l.uplink)
    exact .inl ⟨q, l, hl, rfl, sublist_of_reads huplink hread hsound.wrote⟩
  · have hsilent := h.silent kind hkind fun q l hl he => hex ⟨q, l, hl, he⟩
    rw [hsilent] at hsent
    obtain rfl : messages = [] := by simpa using List.eq_nil_of_sublist_nil hsent
    cases hread
    exact .inr rfl

theorem Sound.heard (h : s.Sound session serde aes ms) (hk : s.socket p = some k) :
    (∃ q l, s.socket q = some l ∧ l.peerMeta.kind = k.peerMeta.kind.opposite ∧
        k.mux.endpoint.arrived.Sublist l.mux.endpoint.sent) ∨ k.mux.endpoint.arrived = [] := by
  have hsound := h.socket p k hk
  obtain ⟨messages, hread, -, hsent⟩ := hsound.read
  have hkind : k.peerMeta.kind.opposite.connection.isSome := by
    rw [connection_opposite]
    exact hsound.connection
  refine (h.written hkind hread hsent).imp_left ?_
  rintro ⟨q, l, hl, he, hsub⟩
  exact ⟨q, l, hl, he, hsub.trans (h.socket q l hl).mux.wrote.sublist⟩

theorem Sound.accepts_next (h : s.Sound session serde aes ms) (hk : s.socket p = some k)
    (hr : k.mux.readerOpen = true) {bytes : List UInt8}
    (hm : (s.world.queue p).chan.taken[k.heard]? = some (.binary bytes)) (frame : MuxFrame)
    (hread : readFrame serde aes k.mux.crypto bytes = .ok frame) :
    Endpoint.Accepts (firstStreamId k.peerMeta.kind) k.mux.endpoint frame := by
  have hsound := h.socket p k hk
  obtain rfl := h.id p k hk
  obtain ⟨messages, hok, htaken, -⟩ := hsound.read
  have hnext := (hsound.next h.run hr hm htaken).2
  rw [← readFrame_base, hsound.mux.cipher, readFrame_base] at hread
  have hall := List.rel_append hok (List.Forall₂.cons hread List.Forall₂.nil)
  have hkind : k.peerMeta.kind.opposite.connection.isSome := by
    rw [connection_opposite]
    exact hsound.connection
  obtain ⟨q, l, hl, he, hwritten⟩ | hnil := h.written hkind hall hnext
  · have hother := h.socket q l hl
    have hback : l.mux.endpoint.arrived.Sublist k.mux.endpoint.sent := by
      obtain ⟨q', l', hl', he', hsub⟩ | hnil := h.heard hl
      · rw [he, opposite_opposite] at he'
        obtain rfl := h.unique _ _ _ _ hl' hk he'
        obtain rfl := Option.some.inj (hl'.symm.trans hk)
        exact hsub
      · rw [hnil]
        exact List.nil_sublist _
    have hmux := hother.mux.endpoint
    rw [he] at hmux
    exact hmux.accepts (own_opposite hsound.connection) (hwritten.trans hother.mux.wrote.sublist)
      hback
  · simp at hnil

/-! ## Steps of the system -/

theorem Sound.update (h : s.Sound session serde aes ms) (hk : s.socket p = some k) {k' : Socket}
    {ms' : List (Move World WorldEvent)} {world' : World}
    (hrun : Run (World.step session) (World.init session) ms' world')
    (hmeta : k'.peerMeta = k.peerMeta) (hk' : k'.Sound serde aes ms' world')
    (hothers : ∀ q l, q ≠ p → s.socket q = some l → l.Sound serde aes ms' world')
    (hsilent : ∀ kind, kind ≠ k.peerMeta.kind → framesFrom kind ms = [] →
      framesFrom kind ms' = []) :
    Sound session serde aes ms' ({ s with world := world' }.setSocket p k') := by
  have hold : ∀ q l, Function.update s.socket p (some k') q = some l →
      ∃ l₀, s.socket q = some l₀ ∧ l₀.peerMeta = l.peerMeta :=
    fun q l hl => exists_of_update_some hk hmeta hl
  constructor
  case run => exact hrun
  case id =>
    intro q l hl
    obtain ⟨l₀, h₀, he⟩ := hold q l hl
    rw [← he]
    exact h.id q l₀ h₀
  case inUse =>
    intro q l hl
    obtain ⟨l₀, h₀, he⟩ := hold q l hl
    rw [← he]
    exact h.inUse q l₀ h₀
  case unique =>
    intro q r l m hl hm he
    obtain ⟨l₀, h₀, hel⟩ := hold q l hl
    obtain ⟨m₀, g₀, hem⟩ := hold r m hm
    rw [← hel, ← hem] at he
    exact h.unique q r l₀ m₀ h₀ g₀ he
  case silent =>
    intro kind hkind hnone
    have hne : kind ≠ k.peerMeta.kind := by
      rintro rfl
      exact hnone p k' (Function.update_self _ _ _) (by rw [hmeta])
    apply hsilent kind hne
    apply h.silent kind hkind
    rintro q l hl rfl
    by_cases hq : q = p
    · subst hq
      obtain rfl := Option.some.inj (hk.symm.trans hl)
      exact hne rfl
    · exact hnone q l ((Function.update_of_ne hq _ _).trans hl) rfl
  case socket =>
    intro q l hl
    rcases update_some_cases hl with ⟨-, rfl⟩ | ⟨hq, hl⟩
    · exact hk'
    · exact hothers q l hq hl

theorem Sound.setSocket (h : s.Sound session serde aes ms) (hk : s.socket p = some k) {k' : Socket}
    (hk' : k'.Sound serde aes ms s.world) (hmeta : k'.peerMeta = k.peerMeta) :
    (s.setSocket p k').Sound session serde aes ms :=
  h.update hk h.run hmeta hk' (fun q l _ hl => h.socket q l hl) fun _ _ hnil => hnil

theorem Sound.relay (h : s.Sound session serde aes ms) {event : WorldEvent} {world : World}
    (hs : s.world.step session event = some world)
    (hframe : ∀ kind, kind.connection.isSome → event.frameFrom kind = none) :
    Sound session serde aes (ms ++ [⟨s.world, event, world⟩]) { s with world := world } where
  run := Run.snoc h.run hs
  id := h.id
  inUse := h.inUse
  unique := h.unique
  silent := by
    intro kind hkind hnone
    rw [framesFrom_append, framesFrom_singleton, h.silent kind hkind hnone]
    simp [hframe kind hkind]
  socket := by
    intro q l hl
    have hsound := h.socket q l hl
    exact hsound.relay hs (hframe _ hsound.connection)

theorem Sound.forward (h : s.Sound session serde aes ms) (hk : s.socket p = some k)
    {bytes : List UInt8} {rest : List (List UInt8)} (huplink : k.uplink = bytes :: rest) {nowMs : ℕ}
    {pace : List Gap} {world : World}
    (hs : s.world.step session (.session (.frame k.peerMeta (.binary bytes) nowMs) pace) =
      some world) :
    ∃ ms', Sound session serde aes ms' ({ s with world := world }.setSocket p
      { k with uplink := rest, relayed := k.relayed ++ [bytes] }) := by
  generalize hevent :
    WorldEvent.session (.frame k.peerMeta (.binary bytes) nowMs) pace = event at hs
  have hown : event.frameFrom k.peerMeta.kind = some (.binary bytes) := by
    rw [← hevent]
    exact if_pos rfl
  have hother : ∀ kind, kind ≠ k.peerMeta.kind → event.frameFrom kind = none := by
    intro kind hne
    rw [← hevent]
    exact if_neg hne.symm
  have hk' : Socket.Sound serde aes (ms ++ [⟨s.world, event, world⟩]) world
      { k with uplink := rest, relayed := k.relayed ++ [bytes] } := by
    apply (h.socket p k hk).relay_message hs
    · rw [huplink, List.append_assoc]
      rfl
    · rw [hown, List.map_append]
      rfl
  have hothers : ∀ q l, q ≠ p → s.socket q = some l →
      l.Sound serde aes (ms ++ [⟨s.world, event, world⟩]) world := by
    intro q l hq hl
    apply (h.socket q l hl).relay hs
    apply hother
    intro he
    exact hq (h.unique q p l k hl hk he)
  refine ⟨_, h.update hk (Run.snoc h.run hs) rfl hk' hothers ?_⟩
  intro kind hne hnil
  rw [framesFrom_append, framesFrom_singleton, hnil]
  simp [hother kind hne]

theorem Sound.connect (h : s.Sound session serde aes ms) {peerMeta : PeerMeta}
    (hc : peerMeta.kind.connection.isSome) (hnew : peerMeta.kind ∉ s.inUse)
    {crypto : Option FrameCrypto} {pace : List Gap}
    (hs : s.connect session peerMeta (firstStreamId peerMeta.kind) crypto pace = some s') :
    ∃ ms', s'.Sound session serde aes ms' := by
  obtain ⟨world, hstep, rfl⟩ := Option.map_eq_some_iff.mp hs
  generalize hevent : WorldEvent.session (.register peerMeta) pace = event at hstep
  have hquiet : ∀ kind, event.frameFrom kind = none := by
    intro kind
    rw [← hevent]
    rfl
  have hunused : ∀ q l, s.socket q = some l → l.peerMeta.kind ≠ peerMeta.kind := by
    intro q l hl he
    exact hnew (he ▸ h.inUse q l hl)
  have hrelay := h.relay hstep fun kind _ => hquiet kind
  have hreg := hstep
  rw [← hevent] at hreg
  obtain ⟨sends, hcore, -⟩ := World.step_session hreg
  have hfresh := (Core.step_register hcore).1.1
  have hnone : s.socket peerMeta.peerId = none := by
    rw [Option.eq_none_iff_forall_ne_some]
    intro k hk
    apply (h.socket _ k hk).known
    rw [h.id _ k hk, hfresh]
  have hphase : world.phase peerMeta.peerId ≠ .fresh := by
    rw [(Core.step_register hcore).2.2.2.1, Function.update_self]
    split_ifs <;> simp
  have hsilent := hrelay.silent peerMeta.kind hc hunused
  have hnew' : Socket.Sound serde aes (ms ++ [⟨s.world, event, world⟩]) world
      (.new peerMeta (firstStreamId peerMeta.kind) crypto
        (world.phase peerMeta.peerId = Phase.registered peerMeta)) := by
    have hstart := MuxConnection.sound_start (firstStreamId peerMeta.kind) crypto
    refine ⟨hc, hphase, ?_, .nil, hsilent, ?_, [], .nil, List.nil_sublist _, List.nil_sublist _⟩
    · exact ⟨hstart.endpoint, hstart.wrote, hstart.pending, hstart.stopped, hstart.cipher⟩
    · intro hr
      exact ⟨ms, _, [], pace, rfl, hevent.symm, of_decide_eq_true hr⟩
  generalize hk : Socket.new peerMeta (firstStreamId peerMeta.kind) crypto
    (world.phase peerMeta.peerId = Phase.registered peerMeta) = k at hnew' ⊢
  have hmeta : k.peerMeta = peerMeta := by rw [← hk]; rfl
  have hold : ∀ q l, Function.update s.socket peerMeta.peerId (some k) q = some l →
      (q = peerMeta.peerId ∧ l = k) ∨ (q ≠ peerMeta.peerId ∧ s.socket q = some l) :=
    fun q l hl => update_some_cases hl
  refine ⟨ms ++ [⟨s.world, event, world⟩], hrelay.run, ?_, ?_, ?_, ?_, ?_⟩
  · intro q l hl
    rcases hold q l hl with ⟨rfl, rfl⟩ | ⟨-, hl⟩
    · rw [hmeta]
    · exact h.id q l hl
  · intro q l hl
    rcases hold q l hl with ⟨-, rfl⟩ | ⟨-, hl⟩
    · rw [hmeta]
      exact List.mem_append_right _ List.mem_cons_self
    · exact List.mem_append_left _ (h.inUse q l hl)
  · intro q r l m hl hm he
    rcases hold q l hl with ⟨hq, rfl⟩ | ⟨-, hq⟩ <;> rcases hold r m hm with ⟨hr, rfl⟩ | ⟨-, hr⟩
    · rw [hq, hr]
    · exact absurd (he.symm.trans (by rw [hmeta])) (hunused r m hr)
    · exact absurd (he.trans (by rw [hmeta])) (hunused q l hq)
    · exact h.unique q r l m hq hr he
  · intro kind hkind hno
    apply hrelay.silent kind hkind
    intro q l hl
    have hq : q ≠ peerMeta.peerId := by
      rintro rfl
      rw [hnone] at hl
      cases hl
    exact hno q l ((Function.update_of_ne hq _ _).trans hl)
  · intro q l hl
    rcases hold q l hl with ⟨-, rfl⟩ | ⟨-, hl⟩
    · exact hnew'
    · exact hrelay.socket q l hl

theorem Sound.stepMux (h : s.Sound session serde aes ms)
    {f : MuxConnection → Option (MuxConnection × Option (List UInt8))}
    (hs : s.stepMux p f = some s')
    (hf : ∀ k m message, s.socket p = some k → f k.mux = some (m, message) →
      m.Sound (firstStreamId k.peerMeta.kind) k.crypto ∧
        m.endpoint.arrived = k.mux.endpoint.arrived ∧
        (m.readerOpen = true → k.mux.readerOpen = true) ∧
        match message with
        | none => m.wrote = k.mux.wrote
        | some bytes => ∃ frame, m.wrote = k.mux.wrote ++ [frame] ∧
            ∀ other, Reads serde aes k.crypto other bytes frame) :
    s'.Sound session serde aes ms := by
  obtain ⟨k, hk, hs⟩ := Option.bind_eq_some_iff.mp hs
  obtain ⟨⟨m, message⟩, hm, rfl⟩ := Option.map_eq_some_iff.mp hs
  obtain ⟨hmux, harrived, hreader, hmessage⟩ := hf k m message hk hm
  have hsound := h.socket p k hk
  have hwritten :
      List.Forall₂ (fun message frame => ∀ other, Reads serde aes k.crypto other message frame)
      (k.relayed ++ (k.uplink ++ message.toList)) m.wrote := by
    rw [← List.append_assoc]
    cases message with
    | none =>
      rw [hmessage, Option.toList_none, List.append_nil]
      exact hsound.wrote
    | some bytes =>
      obtain ⟨frame, hwrote, hreads⟩ := hmessage
      rw [hwrote]
      exact List.rel_append hsound.wrote (.cons hreads .nil)
  exact h.setSocket hk (hsound.quiet hmux hwritten harrived hreader) rfl

theorem Sound.readLoop (h : s.Sound session serde aes ms) (hk : s.socket p = some k)
    (hr : k.mux.readerOpen = true) {message : OutboundMessage}
    (hm : (s.world.queue p).chan.taken[k.heard]? = some message) :
    (s.setSocket p { k with mux := k.read serde aes message, heard := k.heard + 1 }).Sound session
      serde aes ms := by
  have hsound := h.socket p k hk
  obtain rfl := h.id p k hk
  refine h.setSocket hk ?_ rfl
  have hskip : ∀ m : MuxConnection, m.Sound (firstStreamId k.peerMeta.kind) k.crypto →
      m.wrote = k.mux.wrote → m.endpoint.arrived = k.mux.endpoint.arrived →
      Socket.Sound serde aes ms s.world { k with mux := m, heard := k.heard + 1 } := by
    intro m hmux hwrote harrived
    obtain ⟨messages, hread, htaken, hsent⟩ := hsound.read
    refine ⟨hsound.connection, hsound.known, hmux, ?_, hsound.relayed,
      fun _ => hsound.registered hr, messages, ?_, ?_, hsent⟩
    · dsimp only
      rw [hwrote]
      exact hsound.wrote
    · dsimp only
      rw [harrived]
      exact hread
    · exact htaken.trans ((List.take_sublist_take_left (Nat.le_succ _)).filterMap _)
  cases message with
  | text text => exact hskip k.mux hsound.mux rfl rfl
  | pong payload => exact hskip k.mux hsound.mux rfl rfl
  | close code reason =>
    have hmux := hsound.mux
    exact hskip _ ⟨hmux.endpoint, hmux.wrote, hmux.pending, hmux.stopped, hmux.cipher⟩ rfl rfl
  | binary bytes =>
    have hmux := hsound.mux.readLoop fun frame => h.accepts_next hk hr hm frame
    obtain ⟨-, -, hwrote, hturn⟩ := MuxConnection.readLoop_spec serde aes k.mux bytes
    rcases hturn with ⟨frame, hread, he, -⟩ | ⟨-, he, -⟩
    · rw [← readFrame_base, hsound.mux.cipher, readFrame_base] at hread
      obtain ⟨messages, hok, htaken, -⟩ := hsound.read
      obtain ⟨htaken', hsent'⟩ := hsound.next h.run hr hm htaken
      refine ⟨hsound.connection, hsound.known, hmux, ?_, hsound.relayed,
        fun _ => hsound.registered hr, messages ++ [bytes], ?_, htaken', hsent'⟩
      · dsimp only [Socket.read]
        rw [hwrote]
        exact hsound.wrote
      · dsimp only [Socket.read]
        rw [he, (k.mux.endpoint.receive_histories frame).2.1]
        exact List.rel_append hok (.cons hread .nil)
    · exact hskip _ hmux hwrote (congrArg Endpoint.arrived he)

theorem frameFrom_relayWork {event : WorldEvent} (hwork : isRelayWork event = true)
    {kind : PeerKind} (hc : kind.connection.isSome) : event.frameFrom kind = none := by
  cases event with
  | queue p work => rfl
  | session event pace =>
    cases event with
    | frame peerMeta frame nowMs =>
      apply if_neg
      rintro rfl
      simp only [isRelayWork, decide_eq_true_eq] at hwork
      rw [hwork] at hc
      cases hc
    | _ => rfl

theorem Sound.step (h : s.Sound session serde aes ms) (hserde : serde.Inverts) (haes : aes.Ideal)
    {event : SystemEvent} (hs : s.step session serde aes sha256 event = some s')
    (hcopes : s.copes event = true) : ∃ ms', s'.Sound session serde aes ms' := by
  cases event with
  | visit config visitor peerUuid connectionUuid pace =>
    obtain ⟨peerMeta, hmeta, hs⟩ := Option.bind_eq_some_iff.mp hs
    obtain ⟨c, hkind⟩ := connectData_client hmeta
    have hfirst : (1 : UInt32) = firstStreamId peerMeta.kind := by rw [hkind]; rfl
    rw [hfirst] at hs
    apply h.connect (by rw [hkind]; rfl) _ hs
    simpa [copes, hmeta] using hcopes
  | serve config connectionId peerUuid pace =>
    obtain ⟨peerMeta, hmeta, hs⟩ := Option.bind_eq_some_iff.mp hs
    obtain ⟨hc, hs⟩ := Option.ite_none_right_eq_some.mp hs
    have hfirst : (2 : UInt32) = firstStreamId peerMeta.kind := by
      rcases connectData_server hmeta with hkind | ⟨c, hkind⟩ <;> rw [hkind] <;> rfl
    rw [hfirst] at hs
    apply h.connect hc _ hs
    simpa [copes, hmeta] using hcopes
  | relay event =>
    obtain ⟨hwork, hs⟩ := Option.ite_none_right_eq_some.mp hs
    obtain ⟨world, hstep, rfl⟩ := Option.map_eq_some_iff.mp hs
    exact ⟨_, h.relay hstep fun kind hc => frameFrom_relayWork hwork hc⟩
  | forward p nowMs pace =>
    obtain ⟨k, hk, hs⟩ := Option.bind_eq_some_iff.mp hs
    cases huplink : k.uplink with
    | nil => simp [huplink] at hs
    | cons bytes rest =>
      rw [huplink] at hs
      obtain ⟨world, hstep, rfl⟩ := Option.map_eq_some_iff.mp hs
      exact h.forward hk huplink hstep
  | call p event =>
    rw [System.step] at hs
    refine ⟨ms, h.stepMux hs ?_⟩
    intro k m message hk hf
    obtain ⟨m', hcall, he⟩ := Option.map_eq_some_iff.mp hf
    obtain ⟨rfl, rfl⟩ := Prod.mk.inj he
    obtain ⟨hc, endpoint, hstep, rfl⟩ := MuxConnection.call_eq_some hcall
    have hbound : ∀ request, event = .openBegin request → k.mux.endpoint.opened < 2 ^ 31 := by
      rintro request rfl
      simpa [copes, hk] using hcopes
    exact ⟨(h.socket p k hk).mux.call hcall hbound, (Endpoint.grows_step hstep hc).arrived,
      fun hr => hr, rfl⟩
  | writeLoop p =>
    rw [System.step] at hs
    refine ⟨ms, h.stepMux hs ?_⟩
    intro k m message hk hf
    obtain ⟨hmux, hreader, hmessage⟩ := (h.socket p k hk).mux.writeLoop hserde haes hf
    obtain ⟨⟨writerOpen, he⟩, -⟩ := MuxConnection.writeLoop_endpoint hf
    refine ⟨hmux, by rw [he], fun hr => hreader ▸ hr, ?_⟩
    cases message <;> exact hmessage
  | writerEnd p =>
    rw [System.step] at hs
    refine ⟨ms, h.stepMux hs ?_⟩
    intro k m message hk hf
    obtain ⟨rfl, rfl⟩ := Prod.mk.inj (Option.some.inj hf)
    exact ⟨(h.socket p k hk).mux.stopWriter, rfl, fun hr => hr, rfl⟩
  | readLoop p =>
    obtain ⟨k, hk, hs⟩ := Option.bind_eq_some_iff.mp hs
    obtain ⟨hr, hs⟩ := Option.ite_none_right_eq_some.mp hs
    obtain ⟨message, hm, rfl⟩ := Option.map_eq_some_iff.mp hs
    exact ⟨ms, h.readLoop hk hr hm⟩
  | readerEnd p =>
    rw [System.step] at hs
    refine ⟨ms, h.stepMux hs ?_⟩
    intro k m message hk hf
    obtain ⟨rfl, rfl⟩ := Prod.mk.inj (Option.some.inj hf)
    have hmux := (h.socket p k hk).mux
    exact ⟨⟨hmux.endpoint, hmux.wrote, hmux.pending, hmux.stopped, hmux.cipher⟩, rfl,
      (fun hr => absurd hr Bool.false_ne_true), rfl⟩

theorem run_sound (hserde : serde.Inverts) (haes : aes.Ideal)
    {moves : List (Move System SystemEvent)}
    (hrun : Run (System.step session serde aes sha256) (System.init session) moves s)
    (hcopes : ∀ move ∈ moves, move.before.copes move.event = true) :
    ∃ ms, s.Sound session serde aes ms := by
  have hinv := hrun.history_invariant (P := fun moves s =>
    (∀ move ∈ moves, move.before.copes move.event = true) → ∃ ms, s.Sound session serde aes ms)
    (fun _ => ⟨[], sound_init⟩)
  apply hinv _ hcopes
  intro moves s event s' _ ih hs hall
  obtain ⟨ms, h⟩ := ih fun move hm => hall move (List.mem_append_left _ hm)
  exact h.step hserde haes hs (hall _ (List.mem_append_right _ List.mem_cons_self))

end System

end NodeAccess.Access
