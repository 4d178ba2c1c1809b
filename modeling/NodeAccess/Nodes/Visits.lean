import NodeAccess.Nodes.Invariant
import NodeAccess.Tunnel.Apart

/-! # Visits from end to end

Every socket that a node has dialled serves one local program, whose node has asked for the name
with an auth value that was checked. The two are joined by a tunnel in each direction, and neither
is joined to any other socket.
-/

namespace NodeAccess.Nodes

open Foundation Crypto Mux Serve Tunnel

variable {locals : Table String TcpMapping} {mappings : ℕ → List TcpMapping} {serde : SerdeSlice}
    {aes : AesGcm}
  {crypto : ℕ → Side → Option FrameCrypto} {t t' : Tools}

/-! ## Runs -/

namespace Tools

/-- The events of the pipes that bring bytes in or return. -/
def copies : NetEvent → Bool
  | .read _ _ _ _ | .leave _ => true
  | _ => false

/-- A run of the net that takes no more than some steps, each of which meets a condition. -/
def Works (serde : SerdeSlice) (aes : AesGcm) (C : Move Net NetEvent → Prop) (size : ℕ)
    (n n' : Net) : Prop :=
  ∃ ms, Run (Net.step serde aes) n ms n' ∧ ms.length ≤ size ∧ ∀ m ∈ ms, C m

variable {C : Move Net NetEvent → Prop}

theorem works_same {u : Tools} (size : ℕ) (hu : u.net = t.net) :
    Works serde aes C size t.net u.net :=
  ⟨[], hu ▸ Run.nil, Nat.zero_le _, List.forall_mem_nil _⟩

theorem works_step {n n' : Net} {event : NetEvent} (h : n.step serde aes event = some n')
    (hc : C ⟨n, event, n'⟩) :
    Works serde aes C 1 n n' :=
  ⟨_, Run.single h, le_rfl, List.forall_mem_singleton.mpr hc⟩

theorem Works.trans {i j : ℕ} {n n' n'' : Net} (h : Works serde aes C i n n')
    (h' : Works serde aes C j n' n'') :
    Works serde aes C (i + j) n n'' := by
  obtain ⟨ms, hrun, hlength, hms⟩ := h
  obtain ⟨ms', hrun', hlength', hms'⟩ := h'
  refine ⟨ms ++ ms', hrun.trans hrun', ?_, List.forall_mem_append.mpr ⟨hms, hms'⟩⟩
  rw [List.length_append]
  exact Nat.add_le_add hlength hlength'

theorem Works.mono {i j : ℕ} {n n' : Net} (h : Works serde aes C i n n') (hle : i ≤ j) :
    Works serde aes C j n n' := by
  obtain ⟨ms, hrun, hlength, hms⟩ := h
  exact ⟨ms, hrun, hlength.trans hle, hms⟩

theorem works_callMux {u : Tools} {conn : ℕ} {side : Side} {event : StreamEvent}
    (hc : ∀ m, copies m.event = false → C m) (h : u.callMux serde aes conn side event = some t')
    (hu : u.net = t.net) : Works serde aes C 1 t.net t'.net := by
  obtain ⟨net, hs, rfl⟩ := Option.map_eq_some_iff.mp h
  exact hu ▸ works_step hs (hc _ rfl)

theorem works_giveUp {u : Tools} {e : PipeEnd} (hc : ∀ m, copies m.event = false → C m)
    (h : u.giveUp serde aes e = some t') (hu : u.net = t.net) :
    Works serde aes C 1 t.net t'.net := by
  obtain ⟨net, hs, rfl⟩ := Option.map_eq_some_iff.mp h
  exact hu ▸ works_step hs (hc _ rfl)

theorem step_works {event : ToolEvent} (h : t.step serde aes mappings event = some t')
    (hnet : ∀ e, event = .net e → C ⟨t.net, e, t'.net⟩) (hc : ∀ m, copies m.event = false → C m) :
    Works serde aes C 2 t.net t'.net := by
  have hone : ∀ {n : Net}, Works serde aes C 1 t.net n → Works serde aes C 2 t.net n :=
    fun hn => hn.mono one_le_two
  cases event with
  | net event =>
    obtain ⟨-, h⟩ := Option.ite_none_right_eq_some.mp h
    obtain ⟨net, hs, rfl⟩ := Option.map_eq_some_iff.mp h
    exact hone (works_step hs (hnet event rfl))
  | serve event =>
    simp only [step] at h
    split_ifs at h
    obtain ⟨node, -, rfl⟩ := Option.map_eq_some_iff.mp h
    exact works_same 2 rfl
  | sendBind conn =>
    obtain ⟨mapping, -, h⟩ := Option.bind_eq_some_iff.mp h
    exact hone (works_callMux hc h rfl)
  | control conn =>
    obtain ⟨task, -, h⟩ := Option.bind_eq_some_iff.mp h
    obtain ⟨message, -, h⟩ := Option.bind_eq_some_iff.mp h
    cases message with
    | bind name auth =>
      obtain ⟨node, -, h⟩ := Option.bind_eq_some_iff.mp h
      exact hone (works_callMux hc h rfl)
    | bindAck name ok error => exact Option.some.inj h ▸ works_same 2 rfl
    | info text => exact Option.some.inj h ▸ works_same 2 rfl
  | incoming conn side =>
    obtain ⟨-, h⟩ := Option.ite_none_right_eq_some.mp h
    obtain ⟨⟨request, ref⟩, -, h⟩ := Option.bind_eq_some_iff.mp h
    unfold dispatch at h
    split at h
    · exact Option.some.inj h ▸ works_same 2 rfl
    · exact Option.some.inj h ▸ works_same 2 rfl
    · split at h
      · exact Option.some.inj h ▸ works_same 2 rfl
      · exact hone (works_giveUp hc h rfl)
    · exact hone (works_giveUp hc h rfl)
  | lookUp conn ref name presented =>
    obtain ⟨-, h⟩ := Option.ite_none_right_eq_some.mp h
    split at h
    · exact Option.some.inj h ▸ works_same 2 rfl
    · exact Option.some.inj h ▸ works_same 2 rfl
    · exact hone (works_giveUp hc h rfl)
  | accept conn request =>
    obtain ⟨-, h⟩ := Option.ite_none_right_eq_some.mp h
    exact Option.some.inj h ▸ works_same 2 rfl
  | openBegin a => exact hone (works_callMux hc (Option.ite_none_right_eq_some.mp h).2 rfl)
  | openFinish a i =>
    obtain ⟨-, h⟩ := Option.ite_none_right_eq_some.mp h
    obtain ⟨next, hcall, h⟩ := Option.bind_eq_some_iff.mp h
    have hfirst : Works serde aes C 1 t.net next.net := works_callMux hc hcall rfl
    refine hfirst.trans (j := 1) ?_
    split_ifs at h
    · obtain ⟨net, hs, rfl⟩ := Option.map_eq_some_iff.mp h
      exact works_step hs (hc _ rfl)
    · exact works_giveUp hc h rfl
  | socks conn event => exact hone (works_callMux hc (Option.ite_none_right_eq_some.mp h).2 rfl)
  | connected job =>
    obtain ⟨-, h⟩ := Option.ite_none_right_eq_some.mp h
    obtain ⟨net, hs, rfl⟩ := Option.map_eq_some_iff.mp h
    exact hone (works_step hs (hc _ rfl))
  | failed job => exact hone (works_giveUp hc (Option.ite_none_right_eq_some.mp h).2 rfl)

theorem continues_step {event : ToolEvent} (h : t.step serde aes mappings event = some t') :
    t.net.Continues serde aes t'.net := by
  have hany : ∀ m : Move Net NetEvent, copies m.event = false → True := fun _ _ => trivial
  obtain ⟨ms, hrun, -⟩ := step_works h (fun _ _ => trivial) hany
  exact Net.run_continues hrun

/-- Steps of the pipes that the net finds in order, whatever the other tasks do. -/
theorem run_works {ms : List (Move Tools ToolEvent)}
    (hrun : Run (step serde aes mappings) (start crypto locals) ms t)
    (hnet : ∀ m ∈ ms, ∀ e, m.event = .net e → C ⟨m.before.net, e, m.after.net⟩)
    (hc : ∀ m, copies m.event = false → C m) :
    Works serde aes C (2 * ms.length) (Net.start crypto) t.net := by
  apply hrun.guarded_history (C := fun _ m => ∀ e, m.event = .net e →
    C ⟨m.before.net, e, m.after.net⟩)
    (P := fun ms t => Works serde aes C (2 * ms.length) (Net.start crypto) t.net)
  · rintro ms₁ m ms₂ rfl
    exact hnet m (List.mem_append_right _ List.mem_cons_self)
  · exact ⟨[], Run.nil, Nat.zero_le _, List.forall_mem_nil _⟩
  · intro ns u event v _ hu hs hm
    rw [List.length_append, List.length_singleton, Nat.mul_succ]
    exact hu.trans (step_works hs hm hc)

theorem run_bounded {ms : List (Move Tools ToolEvent)}
    (hrun : Run (step serde aes mappings) (start crypto locals) ms t)
    (hlength : ms.length ≤ 2 ^ 30) : t.net.Bounded := by
  have hany : ∀ m : Move Net NetEvent, copies m.event = false → True := fun _ _ => trivial
  obtain ⟨ns, hnet, hle, -⟩ := run_works hrun (fun _ _ _ _ => trivial) hany
  exact Net.run_bounded hnet (by omega)

theorem run_sound (hserde : serde.Inverts) (haes : aes.Ideal) {ms : List (Move Tools ToolEvent)}
    (hrun : Run (step serde aes mappings) (start crypto locals) ms t) (hbound : t.net.Bounded) :
    Sound locals mappings serde aes crypto t := by
  apply hrun.history_invariant (P := fun _ t => t.net.Bounded →
    Sound locals mappings serde aes crypto t)
    (fun _ => sound_start crypto) _ hbound
  intro ns u event v _ hu hs hb
  exact (hu (hb.of_continues (continues_step hs))).step hserde haes hs hb

end Tools

/-! ## Tunnels in both directions -/

/-- A tunnel in each direction that hands on what it takes in. -/
def Tunnelled (n : Net) (a b : PipeEnd) : Prop :=
  ∃ ks, n.Route a ks id b ∧ n.Route b ks.reverse id a

theorem tunnelled_of_joined {n : Net} {a b : PipeEnd} (h : Joined n a b) : Tunnelled n a b := by
  obtain ⟨k, hforth, hback⟩ := h
  exact ⟨[k], .single hforth, .single hback⟩

theorem Tunnelled.extend {n : Net} {a b e e' : PipeEnd} (h : Tunnelled n a e)
    (hforth : n.Linked e e') (hback : n.Linked e' e) (hj : Joined n e' b) : Tunnelled n a b := by
  obtain ⟨ks, hthere, hfrom⟩ := h
  obtain ⟨k, hkforth, hkback⟩ := hj
  refine ⟨ks ++ [k], hthere.extend hforth hkforth, ?_⟩
  rw [List.reverse_append, List.reverse_singleton, List.singleton_append]
  exact Net.Route.prepend hkback hback hfrom

/-! ## Visits -/

/-- The node that dials, be it the serving node or the one of a connection, has the address for the
name, and lets those in who present the auth value. -/
def Permits (locals : Table String TcpMapping) (mappings : ℕ → List TcpMapping) (d : Dial)
    (presented : Option String) : Prop :=
  (∃ conn ref provider, d.own = .stream conn .even ref ∧ locals.get d.name = some provider ∧
      authMatches provider.auth presented = true ∧ d.addr = provider.addr) ∨
    ∃ conn ref, d.own = .stream conn .odd ref ∧ (targets (mappings conn)).get d.name = some d.addr ∧
      ∃ mapping ∈ mappings conn, mapping.name = d.name ∧ authMatches mapping.auth presented = true

theorem Sound.asker (h : Sound locals mappings serde aes crypto t) (hserde : serde.Inverts)
    (haes : aes.Ideal) (hbound : t.net.Bounded) {conn : ℕ} {ref : StreamRef} {request : OpenRequest}
    (hh : Handed t.net conn .even request ref) :
    ∃ source r, (⟨.socket source, conn, .odd, request⟩, r) ∈ t.asked ∧
      t.net.Linked (.stream conn .odd r) (.stream conn .even ref) ∧
      t.net.Linked (.stream conn .even ref) (.stream conn .odd r) ∧
      Joined t.net (.socket source) (.stream conn .odd r) := by
  obtain ⟨ms, hrun⟩ := h.run
  obtain ⟨s, hs, hopen⟩ := Net.open_heard hserde haes hrun hbound hh
  obtain ⟨own, r, hasked, hid⟩ := h.opens conn .odd s.streamId _ hopen
  obtain ⟨⟨source, rfl⟩, hjoined⟩ := h.asked _ r hasked
  have hown : (t.net.stream conn .even ref).map VirtualStream.streamId = some s.streamId := by
    rw [hs, Option.map_some]
  have hforth : t.net.Linked (.stream conn Side.even.other r) (.stream conn .even ref) :=
    .of_ids hid hown
  have hback : t.net.Linked (.stream conn Side.odd.other ref) (.stream conn .odd r) :=
    .of_ids hown hid
  exact ⟨source, r, hasked, hforth, hback, hjoined⟩

theorem Sound.dial (h : Sound locals mappings serde aes crypto t) (hserde : serde.Inverts)
    (haes : aes.Ideal) (hbound : t.net.Bounded) {d : Dial} {id : ℕ} (hd : (d, id) ∈ t.dialled) :
    ∃ source conn r presented, (⟨.socket source, conn, .odd, .visit d.name presented⟩, r) ∈
      t.asked ∧
      Permits locals mappings d presented ∧ Tunnelled t.net (.socket source) (.socket id) := by
  obtain ⟨ms, hrun⟩ := h.run
  obtain ⟨hjustified, hjoined⟩ := h.dialled d id hd
  rcases hjustified with ⟨visitor, ref, presented, provider, hown, hh, hlocal, hauth, haddr⟩ |
    ⟨conn, ref, hown, hh, htarget⟩
  · rw [hown] at hjoined
    obtain ⟨source, r, hasked, hforth, hback, hsource⟩ := h.asker hserde haes hbound hh
    exact ⟨source, visitor, r, presented, hasked,
      .inl ⟨visitor, ref, provider, hown, hlocal, hauth, haddr⟩,
      (tunnelled_of_joined hsource).extend hforth hback hjoined⟩
  · rw [hown] at hjoined
    obtain ⟨s, hs, hopen⟩ := Net.open_heard hserde haes hrun hbound hh
    obtain ⟨own, r', hasked', hid⟩ := h.opens conn .even s.streamId _ hopen
    obtain ⟨⟨name, hrequest, visitor, ref', presented, hvisitor, hvisit, hmapping⟩, hmiddle⟩ :=
      h.asked _ r' hasked'
    cases hrequest
    dsimp only at hvisitor hmiddle
    rw [hvisitor] at hmiddle
    have hprovider : (t.net.stream conn .odd ref).map VirtualStream.streamId = some s.streamId := by
      rw [hs, Option.map_some]
    obtain ⟨source, r, hasked, hforth, hback, hsource⟩ := h.asker hserde haes hbound hvisit
    refine ⟨source, visitor, r, presented, hasked, .inr ⟨conn, ref, hown, htarget, hmapping⟩, ?_⟩
    have hnear := (tunnelled_of_joined hsource).extend hforth hback hmiddle
    have hthere : t.net.Linked (.stream conn Side.odd.other r') (.stream conn .odd ref) :=
      .of_ids hid hprovider
    have hfrom : t.net.Linked (.stream conn Side.even.other ref) (.stream conn .even r') :=
      .of_ids hprovider hid
    exact hnear.extend hthere hfrom hjoined

namespace Tools

/-- A dialled socket serves the local program that has asked for its name. Each has the other's
bytes, and no tunnel from either goes to another socket. -/
structure Serves (t : Tools) (locals : Table String TcpMapping) (mappings : ℕ → List TcpMapping)
    (d : Dial) (id source : ℕ) : Prop where
  asked : ∃ conn r presented, (⟨.socket source, conn, .odd, .visit d.name presented⟩, r) ∈ t.asked ∧
    Permits locals mappings d presented
  tunnelled : Tunnelled t.net (.socket source) (.socket id)
  written : t.net.written (.socket id) <+: t.net.taken (.socket source)
  answered : t.net.written (.socket source) <+: t.net.taken (.socket id)
  only : ∀ ks f other, t.net.Route (.socket source) ks f (.socket other) → other = id
  answersOnly : ∀ ks f other, t.net.Route (.socket id) ks f (.socket other) → other = source

end Tools

theorem Sound.serves (h : Sound locals mappings serde aes crypto t) (hserde : serde.Inverts)
    (haes : aes.Ideal) (hbound : t.net.Bounded) {d : Dial} {id : ℕ} (hd : (d, id) ∈ t.dialled) :
    ∃ source, t.Serves locals mappings d id source := by
  obtain ⟨source, conn, r, presented, hasked, hpermits, htunnel⟩ := h.dial hserde haes hbound hd
  obtain ⟨ns, hnet⟩ := h.run
  have hpairs := Net.pair_sound hserde haes (Net.run_continues hnet) hbound
  have hcarries := Net.run_carries hserde haes hnet hbound
  obtain ⟨ks, hthere, hfrom⟩ := htunnel
  refine ⟨source, ⟨⟨conn, r, presented, hasked, hpermits⟩, ⟨ks, hthere, hfrom⟩, ?_, ?_, ?_, ?_⟩⟩
  · exact hthere.begins hpairs hcarries
  · exact hfrom.begins hpairs hcarries
  · intro js f other hother
    exact hother.unique hthere hcarries hpairs
  · intro js f other hother
    exact hother.unique hfrom hcarries hpairs

namespace Tools

/-- Every socket that a node has dialled serves one local program that may reach it. -/
theorem run_serves (hserde : serde.Inverts) (haes : aes.Ideal) {ms : List (Move Tools ToolEvent)}
    (hrun : Run (step serde aes mappings) (start crypto locals) ms t) (hbound : t.net.Bounded)
    {d : Dial} {id : ℕ} (h : (d, id) ∈ t.dialled) :
    ∃ source, t.Serves locals mappings d id source :=
  (run_sound hserde haes hrun hbound).serves hserde haes hbound h

def webMappings (conn : ℕ) : List TcpMapping :=
  if conn = 0 then [⟨"web", "127.0.0.1:80", some "token"⟩] else []

def webVisit : Ask := ⟨.socket 0, 1, .odd, .visit "web" (some "token")⟩

def webProvider : Ask := ⟨.stream 1 .even 0, 0, .even, .providerConnect "web"⟩

def webDial : Dial := ⟨.stream 0 .odd 0, "web", "127.0.0.1:80"⟩

/-- One node announces a program, and a program of another node sends it two bytes. -/
def webVisited : List ToolEvent := List.flatten
  [[.serve (.control (.connected "a")), .serve .start, .serve (.opened 0), .sendBind 0],
    (Net.passed 0 .odd).map .net,
    [.control 0, .serve (.control (.connected "b")), .serve .start, .serve (.opened 1),
      .accept 1 webVisit.request, .openBegin webVisit, .openFinish webVisit 1],
    (Net.passed 1 .odd).map .net,
    [.incoming 1 .even, .lookUp 1 0 "web" (some "token"), .openBegin webProvider,
      .openFinish webProvider 2],
    (Net.passed 0 .even ++ Net.passed 0 .even).map .net,
      [.incoming 0 .odd, .connected (.dial webDial)],
    (NetEvent.arrive 0 [104, 105] :: (Net.copied 0 2).take 2 ++ Net.passed 1 .odd ++
      (Net.copied 1 2).take 2 ++
      Net.passed 0 .even ++ (Net.copied 2 2).take 2).map .net]

def atWeb : Tools :=
  outcome (step .plain namedCipher webMappings) (start (fun _ _ => none) ∅) webVisited

theorem run_atWeb : Run (step .plain namedCipher webMappings) (start (fun _ _ => none) ∅)
    (history (step .plain namedCipher webMappings) (start (fun _ _ => none) ∅) webVisited)
      atWeb := by
  have hplay :
      (play (step .plain namedCipher webMappings) (start (fun _ _ => none) ∅) webVisited).isSome =
        true := by
    decide +kernel
  exact Run.of_outcome hplay

theorem run_serves_of_webVisited : ∃ source, atWeb.Serves ∅ webMappings webDial 1 source := by
  have hbound : atWeb.net.Bounded := run_bounded run_atWeb (by decide +kernel)
  have hdialled : (webDial, 1) ∈ atWeb.dialled := by decide +kernel
  exact run_serves SerdeSlice.plain_inverts namedCipher_ideal run_atWeb hbound hdialled

end Tools

end NodeAccess.Nodes
