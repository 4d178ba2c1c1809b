import NodeAccess.Nodes.Visits

/-! # SOCKS tunnels from end to end

`serve_socks5` reads a request from its stream, answers it and joins the stream to the socket that
it has dialled. From then on the local program and the target have each other's bytes: the target
gets what the program sends after the request, and the program gets the answers and then what the
target sends.
-/

namespace NodeAccess.Tunnel.Net

open Foundation Crypto Mux

variable {serde : SerdeSlice} {aes : AesGcm} {n n' : Net} {event : NetEvent}

theorem Steady.pipe_cases (h : n.Steady serde aes n') (hs : n.step serde aes event = some n')
    {k : ℕ} {pipe' : Pipe} (hk : n'.pipes[k]? = some pipe') :
    (∃ pipe, n.pipes[k]? = some pipe ∧ pipe'.source = pipe.source ∧ pipe'.earlier = pipe.earlier) ∨
      ∃ left right v w, event = .pipe left right ∧ n.view left = some v ∧ n.view right = some w ∧
        pipe' = .new left right v w := by
  rcases h.step_cases hs with ⟨left, right, v, w, he, hv, hw, rfl⟩ | ⟨j, p, p', hw⟩ | ⟨hpipes, -⟩
  · dsimp only at hk
    by_cases hlt : k < n.pipes.length
    · rw [List.getElem?_append_left hlt] at hk
      exact .inl ⟨pipe', hk, rfl, rfl⟩
    · rw [List.getElem?_append_right (Nat.le_of_not_lt hlt)] at hk
      have hnew : pipe' ∈ [Pipe.new left right v w] := List.mem_of_getElem? hk
      exact .inr ⟨left, right, v, w, he, (openView_eq_some.mp hv).1, (openView_eq_some.mp hw).1,
        List.mem_singleton.mp hnew⟩
  · have hj := (running_eq_some.mp hw.running).1
    rw [hw.pipes, List.getElem?_set] at hk
    split_ifs at hk with hjk
    · obtain rfl := Option.some.inj hk
      exact .inl ⟨p, hjk ▸ hj, hw.source, hw.earlier⟩
    · exact .inl ⟨pipe', hk, rfl, rfl⟩
  · exact .inl ⟨pipe', hpipes ▸ hk, rfl, rfl⟩

end NodeAccess.Tunnel.Net

namespace NodeAccess.Nodes

open Foundation Crypto Mux Serve Tunnel

variable {locals : Table String TcpMapping} {mappings : ℕ → List TcpMapping} {serde : SerdeSlice}
    {aes : AesGcm}
  {crypto : ℕ → Side → Option FrameCrypto} {t t' : Tools}

namespace Tools

theorem step_noPipe {event : ToolEvent} (h : t.step serde aes mappings event = some t')
    (hfinish : ∀ a i, event ≠ .openFinish a i) (hjoin : ∀ job, event ≠ .connected job) :
    t'.asked = t.asked ∧
      (t'.net = t.net ∨
        ∃ e, (∀ left right, e ≠ .pipe left right) ∧ t.net.step serde aes e = some t'.net) := by
  have hcall : ∀ {u : Tools} {conn side call}, u.callMux serde aes conn side call = some t' →
      u.net = t.net →
      u.asked = t.asked → t'.asked = t.asked ∧ (t'.net = t.net ∨
        ∃ e, (∀ left right, e ≠ .pipe left right) ∧ t.net.step serde aes e = some t'.net) := by
    intro u conn side call hc hnet hasked
    obtain ⟨net, hs, rfl⟩ := Option.map_eq_some_iff.mp hc
    exact ⟨hasked, .inr ⟨_, (fun _ _ he => by cases he), hnet ▸ hs⟩⟩
  have hdrop : ∀ {u : Tools} {e}, u.giveUp serde aes e = some t' → u.net = t.net →
      u.asked = t.asked → t'.asked = t.asked ∧ (t'.net = t.net ∨
        ∃ e, (∀ left right, e ≠ .pipe left right) ∧ t.net.step serde aes e = some t'.net) := by
    intro u e hc hnet hasked
    obtain ⟨net, hs, rfl⟩ := Option.map_eq_some_iff.mp hc
    exact ⟨hasked, .inr ⟨_, (fun _ _ he => by cases he), hnet ▸ hs⟩⟩
  cases event with
  | net event =>
    obtain ⟨hwork, h⟩ := Option.ite_none_right_eq_some.mp h
    obtain ⟨net, hs, rfl⟩ := Option.map_eq_some_iff.mp h
    refine ⟨rfl, .inr ⟨event, ?_, hs⟩⟩
    rintro left right rfl
    cases hwork
  | serve event =>
    simp only [step] at h
    split_ifs at h
    obtain ⟨node, -, rfl⟩ := Option.map_eq_some_iff.mp h
    exact ⟨rfl, .inl rfl⟩
  | sendBind conn =>
    obtain ⟨mapping, -, h⟩ := Option.bind_eq_some_iff.mp h
    exact hcall h rfl rfl
  | control conn =>
    obtain ⟨task, -, h⟩ := Option.bind_eq_some_iff.mp h
    obtain ⟨message, -, h⟩ := Option.bind_eq_some_iff.mp h
    cases message with
    | bind name auth =>
      obtain ⟨node, -, h⟩ := Option.bind_eq_some_iff.mp h
      exact hcall h rfl rfl
    | bindAck name ok error => exact Option.some.inj h ▸ ⟨rfl, .inl rfl⟩
    | info text => exact Option.some.inj h ▸ ⟨rfl, .inl rfl⟩
  | incoming conn side =>
    obtain ⟨-, h⟩ := Option.ite_none_right_eq_some.mp h
    obtain ⟨⟨request, ref⟩, -, h⟩ := Option.bind_eq_some_iff.mp h
    unfold dispatch at h
    split at h
    · exact Option.some.inj h ▸ ⟨rfl, .inl rfl⟩
    · exact Option.some.inj h ▸ ⟨rfl, .inl rfl⟩
    · split at h
      · exact Option.some.inj h ▸ ⟨rfl, .inl rfl⟩
      · exact hdrop h rfl rfl
    · exact hdrop h rfl rfl
  | lookUp conn ref name presented =>
    obtain ⟨-, h⟩ := Option.ite_none_right_eq_some.mp h
    split at h
    · exact Option.some.inj h ▸ ⟨rfl, .inl rfl⟩
    · exact Option.some.inj h ▸ ⟨rfl, .inl rfl⟩
    · exact hdrop h rfl rfl
  | accept conn request =>
    obtain ⟨-, h⟩ := Option.ite_none_right_eq_some.mp h
    exact Option.some.inj h ▸ ⟨rfl, .inl rfl⟩
  | openBegin a => exact hcall (Option.ite_none_right_eq_some.mp h).2 rfl rfl
  | openFinish a i => exact absurd rfl (hfinish a i)
  | socks conn event => exact hcall (Option.ite_none_right_eq_some.mp h).2 rfl rfl
  | connected job => exact absurd rfl (hjoin job)
  | failed job => exact hdrop (Option.ite_none_right_eq_some.mp h).2 rfl rfl

/-- The pipe of a task that asked for a stream, or one to a socket that no one had used. -/
def Made (t : Tools) (pipe : Pipe) : Prop :=
  (∃ a r, (a, r) ∈ t.asked ∧ pipe.source .forth = a.own) ∨
    ∃ id, pipe.source .back = .socket id ∧ (pipe.earlier .back).taken = [] ∧
      (pipe.earlier .back).written = []

theorem Made.keep {pipe pipe' : Pipe} (h : t.Made pipe) (hasked : t.asked <+: t'.asked)
    (hsource : pipe'.source = pipe.source) (hearlier : pipe'.earlier = pipe.earlier) :
    t'.Made pipe' := by
  rw [Made, hsource, hearlier]
  rcases h with ⟨a, r, ha, hown⟩ | hsocket
  · exact .inl ⟨a, r, hasked.subset ha, hown⟩
  · exact .inr hsocket

def AllMade (t : Tools) : Prop := ∀ (k : ℕ) (pipe : Pipe), t.net.pipes[k]? = some pipe → t.Made pipe

theorem AllMade.net (h : t.AllMade) (hsteady : t.net.Steady serde aes t'.net) {e : NetEvent}
    (hs : t.net.step serde aes e = some t'.net) (he : ∀ left right, e ≠ .pipe left right)
    (hasked : t'.asked = t.asked) : t'.AllMade := by
  intro k pipe hk
  rcases hsteady.pipe_cases hs hk with ⟨old, hold, hsource, hearlier⟩ | ⟨left, right, v, w, rfl, -⟩
  · exact (h k old hold).keep (hasked ▸ List.prefix_rfl) hsource hearlier
  · exact absurd rfl (he left right)

theorem AllMade.openFinish (h : t.AllMade) (hserde : serde.Inverts) (haes : aes.Ideal)
    {ms : List (Move Net NetEvent)} (hrun : Run (Net.step serde aes) (Net.start crypto) ms t.net)
    {a : Ask} {i : UInt32} (hs : t.openFinish serde aes a i = some t') (hbound : t'.net.Bounded) :
    t'.AllMade := by
  obtain ⟨next, hcall, hs⟩ := Option.bind_eq_some_iff.mp hs
  obtain ⟨n₁, hopen, rfl⟩ := Option.map_eq_some_iff.mp hcall
  have hmiddle : n₁.Bounded → ((t.endJob (.asking a i)).setNet n₁).AllMade := fun hb =>
    h.net (Net.steady hserde haes hrun hopen hb) hopen (fun _ _ he => by cases he) rfl
  have hrun₁ := hrun.snoc hopen
  split_ifs at hs
  · obtain ⟨n₂, hpipe, rfl⟩ := Option.map_eq_some_iff.mp hs
    have hb := hbound.of_continues (Net.continues_step hpipe)
    intro k pipe hk
    rcases (Net.steady hserde haes hrun₁ hpipe hbound).pipe_cases hpipe hk with
      ⟨old, hold, hsource, hearlier⟩ | ⟨left, right, v, w, he, -, -, rfl⟩
    · exact (hmiddle hb k old hold).keep (List.prefix_append _ _) hsource hearlier
    · cases he
      exact .inl ⟨a, _, List.mem_append_right _ List.mem_cons_self, rfl⟩
  · obtain ⟨n₂, hdrop, rfl⟩ := Option.map_eq_some_iff.mp hs
    have hb := hbound.of_continues (Net.continues_step hdrop)
    exact (hmiddle hb).net (Net.steady hserde haes hrun₁ hdrop hbound) hdrop
      (fun _ _ he => by cases he) rfl

theorem AllMade.join (h : t.AllMade) (hserde : serde.Inverts) (haes : aes.Ideal)
    (hsound : Sound locals mappings serde aes crypto t) {job : Job}
    (hs : t.join serde aes job = some t') (hbound : t'.net.Bounded) : t'.AllMade := by
  obtain ⟨ms, hrun⟩ := hsound.run
  obtain ⟨n₁, hpipe, rfl⟩ := Option.map_eq_some_iff.mp hs
  obtain ⟨-, -, -, -, ⟨-, -, hfresh⟩, -⟩ := Net.step_pipe hpipe
  intro k pipe hk
  rcases (Net.steady hserde haes hrun hpipe hbound).pipe_cases hpipe hk with
    ⟨old, hold, hsource, hearlier⟩ | ⟨left, right, v, w, he, -, hview, rfl⟩
  · exact (h k old hold).keep List.prefix_rfl hsource hearlier
  · cases he
    obtain ⟨htaken, hwritten⟩ := hsound.untouched_socket hfresh w hview
    exact .inr ⟨t.sockets, rfl, htaken, hwritten⟩

theorem run_allMade (hserde : serde.Inverts) (haes : aes.Ideal) {ms : List (Move Tools ToolEvent)}
    (hrun : Run (step serde aes mappings) (start crypto locals) ms t) (hbound : t.net.Bounded) :
    t.AllMade := by
  apply hrun.history_invariant (P := fun _ t => t.net.Bounded → t.AllMade) _ _ hbound
  · intro _ k pipe hk
    cases hk
  · intro ns u event v hu h hs hb
    have hbefore := hb.of_continues (continues_step hs)
    have hsound := run_sound hserde haes hu hbefore
    have hall := h hbefore
    obtain ⟨ks, hnet⟩ := hsound.run
    by_cases hfinish : ∃ a i, event = .openFinish a i
    · obtain ⟨a, i, rfl⟩ := hfinish
      exact hall.openFinish hserde haes hnet (Option.ite_none_right_eq_some.mp hs).2 hb
    · by_cases hjoin : ∃ job, event = .connected job
      · obtain ⟨job, rfl⟩ := hjoin
        exact hall.join hserde haes hsound (Option.ite_none_right_eq_some.mp hs).2 hb
      · push Not at hfinish hjoin
        obtain ⟨hasked, hsame | ⟨e, he, hstep⟩⟩ := step_noPipe hs hfinish hjoin
        · intro k pipe hk
          exact (hall k pipe (hsame ▸ hk)).keep (hasked ▸ List.prefix_rfl) rfl rfl
        · exact hall.net (Net.steady hserde haes hnet hstep hb) hstep he hasked

/-- The pipe of a SOCKS stream joins a local program to a socket. Apart from the request and its
answers each has the other's bytes, and no tunnel from either goes to another socket. -/
structure Proxies (t : Tools) (conn : ℕ) (pipe : Pipe) (source id : ℕ) : Prop where
  asked : ∃ r, (⟨.socket source, conn, .odd, .socks⟩, r) ∈ t.asked
  target : pipe.target .forth = .socket id
  request : (pipe.earlier .forth).taken <+: t.net.taken (.socket source)
  written :
    t.net.written (.socket id) <+:
      (t.net.taken (.socket source)).drop (pipe.earlier .forth).taken.length
  answered :
    t.net.written (.socket source) <+: (pipe.earlier .forth).written ++ t.net.taken (.socket id)
  only : ∀ ks f other, t.net.Route (.socket source) ks f (.socket other) → other = id
  answersOnly : ∀ ks f other, t.net.Route (.socket id) ks f (.socket other) → other = source

theorem made_socks (hserde : serde.Inverts) (haes : aes.Ideal)
    (hsound : Sound locals mappings serde aes crypto t) (hbound : t.net.Bounded) {pipe : Pipe}
    {conn : ℕ} {ref : StreamRef} (hmade : t.Made pipe)
    (hend : pipe.source .forth = .stream conn .even ref) (hh : Handed t.net conn .even .socks ref) :
    ∃ id, pipe.source .back = .socket id ∧ (pipe.earlier .back).taken = [] ∧
      (pipe.earlier .back).written = [] := by
  refine hmade.resolve_left ?_
  rintro ⟨a, r, ha, hown⟩
  have hjustified := (hsound.asked a r ha).1
  rw [hend] at hown
  unfold Ask.Justified at hjustified
  cases hside : a.side with
  | odd =>
    simp only [hside] at hjustified
    obtain ⟨id, hid⟩ := hjustified
    rw [← hown] at hid
    cases hid
  | even =>
    simp only [hside] at hjustified
    obtain ⟨name, -, visitor, ref', presented, hvisit, hh', -⟩ := hjustified
    rw [← hown] at hvisit
    cases hvisit
    obtain ⟨ms, hrun⟩ := hsound.run
    cases Net.request_unique hserde haes hrun hbound hh hh'

/-- Every pipe that `serve_socks5` makes is transparent after the request. -/
theorem run_proxies (hserde : serde.Inverts) (haes : aes.Ideal) {ms : List (Move Tools ToolEvent)}
    (hrun : Run (step serde aes mappings) (start crypto locals) ms t) (hbound : t.net.Bounded)
    {k : ℕ} {pipe : Pipe} {conn : ℕ} {ref : StreamRef} (hk : t.net.pipes[k]? = some pipe)
    (hend : pipe.source .forth = .stream conn .even ref) (hh : Handed t.net conn .even .socks ref) :
    ∃ source id, t.Proxies conn pipe source id := by
  have hsound := run_sound hserde haes hrun hbound
  obtain ⟨far, hback, htaken, hwritten⟩ :=
    made_socks hserde haes hsound hbound (run_allMade hserde haes hrun hbound k pipe hk) hend hh
  obtain ⟨source, r, hasked, hforth, hfrom, k₀, hjoins, hjoinsBack⟩ :=
    hsound.asker hserde haes hbound hh
  obtain ⟨ns, hnet⟩ := hsound.run
  have hpairs := Net.pair_sound hserde haes (Net.run_continues hnet) hbound
  have hcarries := Net.run_carries hserde haes hnet hbound
  have htarget : pipe.target .forth = .socket far := hback
  have hthere :
      t.net.Route (.socket source) ([k₀] ++ [k]) (pipe.through .forth ∘ id) (.socket far) :=
    htarget ▸ .link (.single hjoins) hk (hend ▸ hforth)
  obtain ⟨pipe₀, hk₀, hsource₀, htarget₀, hthrough₀⟩ := Net.exists_of_joins hjoinsBack
  have hnear : t.net.Route (.socket far) [k] (pipe.through .back) (.stream conn .even ref) :=
    hend ▸ .pipe hk hback
  have hreturn : t.net.Route (.socket far) ([k] ++ [k₀]) (pipe.through .back) (.socket source) := by
    have hlast := Net.Route.link hnear hk₀ (hsource₀ ▸ hfrom)
    rwa [hthrough₀, htarget₀, Function.id_comp] at hlast
  refine ⟨source, far, ⟨r, hasked⟩, htarget, ?_, ?_, ?_, ?_, ?_⟩
  · have hsent : t.net.written (.stream conn .odd r) <+: t.net.taken (.socket source) :=
      (Net.Route.single hjoins).begins hpairs hcarries
    have hread := hcarries.taken_source hk .forth
    rw [hend] at hread
    have hbegin : (pipe.earlier .forth).taken <+: t.net.taken (.stream conn .even ref) := by
      rw [hread]
      exact List.prefix_append _ _
    exact hbegin.trans ((hforth.begins hpairs).trans hsent)
  · have hwritten' := hthere.begins hpairs hcarries
    rwa [Function.comp_id, Pipe.through, Direction.flip, hwritten, List.nil_append] at hwritten'
  · have hanswered := hreturn.begins hpairs hcarries
    rwa [Pipe.through, Direction.flip, htaken, List.length_nil, List.drop_zero] at hanswered
  · exact fun ks f other hother => hother.unique hthere hcarries hpairs
  · exact fun ks f other hother => hother.unique hreturn hcarries hpairs

def socksAsk : Ask := ⟨.socket 0, 0, .odd, .socks⟩

/-- A program asks for port 80 of 127.0.0.1, and sends two bytes when it has the answer. -/
def socksVisited : List ToolEvent := List.flatten
  [[.serve (.control (.connected "a")), .serve .start, .serve (.opened 0), .accept 0 .socks,
    .openBegin socksAsk,
      .openFinish socksAsk 1],
    (Net.passed 0 .odd ++ NetEvent.arrive 0 [5, 1, 0, 5, 1, 0, 1, 127, 0, 0, 1, 0, 80] ::
      (Net.copied 0 13).take 2 ++
      Net.passed 0 .odd).map .net,
    [.incoming 0 .even, .socks 0 (.pollRead 0 ⟨true⟩ ⟨2, []⟩),
      .socks 0 (.pollRead 0 ⟨true⟩ ⟨1, []⟩), .socks 0 (.pollWrite 0 [5, 0]),
      .socks 0 (.pollRead 0 ⟨true⟩ ⟨4, []⟩), .socks 0 (.pollRead 0 ⟨true⟩ ⟨4, []⟩),
        .socks 0 (.pollRead 0 ⟨true⟩ ⟨2, []⟩),
      .socks 0 (.pollWrite 0 [5, 0, 0, 1, 0, 0, 0, 0, 0, 0]), .connected (.socks 0 0)],
    (Net.passed 0 .even ++ [NetEvent.read 0 .back ⟨true⟩ ⟨2, []⟩, .write 0 .back 2] ++
      NetEvent.arrive 0 [104, 105] :: (Net.copied 0 2).take 2 ++ Net.passed 0 .odd ++
        (Net.copied 1 2).take 2).map .net]

def atSocks : Tools :=
  outcome (step .plain namedCipher fun _ => []) (start (fun _ _ => none) ∅) socksVisited

theorem run_atSocks : Run (step .plain namedCipher fun _ => []) (start (fun _ _ => none) ∅)
    (history (step .plain namedCipher fun _ => []) (start (fun _ _ => none) ∅) socksVisited)
      atSocks := by
  have hplay :
      (play (step .plain namedCipher fun _ => []) (start (fun _ _ => none) ∅) socksVisited).isSome =
        true := by
    decide +kernel
  exact Run.of_outcome hplay

theorem run_proxies_of_socksVisited : atSocks.net.written (.socket 1) = [104, 105] ∧
    ∃ pipe source far, atSocks.net.pipes[1]? = some pipe ∧ atSocks.Proxies 0 pipe source far := by
  have hbound : atSocks.net.Bounded := run_bounded run_atSocks (by decide +kernel)
  have hwritten : atSocks.net.written (.socket 1) = [104, 105] := by decide +kernel
  have hpipe :
      (atSocks.net.pipes[1]?).any (fun pipe => pipe.source .forth = .stream 0 .even 0) = true := by
    decide +kernel
  have hhanded : (.socks, 0) ∈ ((atSocks.net.pair 0).mux .even).incoming := by decide +kernel
  obtain ⟨pipe, hk, hend⟩ := (Option.any_eq_true _ _).mp hpipe
  obtain ⟨source, far, hproxies⟩ :=
    run_proxies SerdeSlice.plain_inverts namedCipher_ideal run_atSocks hbound hk
    (of_decide_eq_true hend) hhanded
  exact ⟨hwritten, pipe, source, far, hk, hproxies⟩

end Tools

end NodeAccess.Nodes
