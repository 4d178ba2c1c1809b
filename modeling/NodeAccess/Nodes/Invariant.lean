import NodeAccess.Nodes.Tasks
import NodeAccess.Tunnel.Untouched

/-! # What the tasks stand on

Every task of the nodes has a reason in what its node has heard, and every pipe that a task has made
joins its end to the stream or the socket that it was for. The auth value of a visit has been
checked before a task of the visit asks for a stream or dials.
-/

namespace NodeAccess.Nodes

open Foundation Crypto Mux Serve Tunnel

section Reasons

variable (locals : Table String TcpMapping) (mappings : ℕ → List TcpMapping)

/-- The streams that a mux has handed over. -/
def Handed (n : Net) (conn : ℕ) (side : Side) (request : OpenRequest) (ref : StreamRef) : Prop :=
  (request, ref) ∈ ((n.pair conn).mux side).incoming

/-- A visit that came over a stream and has a mapping of the connection that admits it. -/
def Admits (n : Net) (own : PipeEnd) (name : String) (conn : ℕ) : Prop :=
  ∃ visitor ref presented, own = .stream visitor .even ref ∧
    Handed n visitor .even (.visit name presented) ref ∧
    ∃ mapping ∈ mappings conn, mapping.name = name ∧ authMatches mapping.auth presented = true

/-- A visit to a provider of the serving node itself. -/
def AdmitsLocal (n : Net) (d : Dial) : Prop :=
  ∃ visitor ref presented provider, d.own = .stream visitor .even ref ∧
    Handed n visitor .even (.visit d.name presented) ref ∧ locals.get d.name = some provider ∧
    authMatches provider.auth presented = true ∧ d.addr = provider.addr

/-- A stream to a provider that the node at the odd end of the connection has. -/
def Provides (n : Net) (d : Dial) : Prop :=
  ∃ conn ref, d.own = .stream conn .odd ref ∧ Handed n conn .odd (.providerConnect d.name) ref ∧
    (targets (mappings conn)).get d.name = some d.addr

def Ask.Justified (n : Net) (a : Ask) : Prop :=
  match a.side with
  | .odd => ∃ id, a.own = .socket id
  | .even => ∃ name, a.request = .providerConnect name ∧ Admits mappings n a.own name a.conn

def Dial.Justified (n : Net) (d : Dial) : Prop := AdmitsLocal locals n d ∨ Provides mappings n d

def Job.Justified (n : Net) : Job → Prop
  | .visit conn ref name presented => Handed n conn .even (.visit name presented) ref
  | .socks conn ref => Handed n conn .even .socks ref
  | .ask a | .asking a _ => a.Justified mappings n
  | .dial d => d.Justified locals mappings n

/-- A pipe of two ends that no one had used. -/
def Joined (n : Net) (a b : PipeEnd) : Prop :=
  ∃ k, n.joins k .forth a b = true ∧ n.joins k .back b a = true

/-- `serve_socks5` reads a request from a stream before it makes a pipe. -/
def Handshakes (n : Net) (e : PipeEnd) : Prop :=
  ∃ conn ref, e = .stream conn .even ref ∧ Handed n conn .even .socks ref

structure Standing (serde : SerdeSlice) (aes : AesGcm) (crypto : ℕ → Side → Option FrameCrypto)
    (t : Tools) : Prop where
  run : ∃ ms, Run (Net.step serde aes) (Net.start crypto) ms t.net
  localProviders : t.node.state.localProviders = locals
  provider : ∀ name provider, t.node.state.providers.get name = some provider →
    ∃ mapping ∈ mappings provider.mux, mapping.name = name ∧ mapping.auth = provider.auth
  binds : ∀ conn message, .control message ∈ (t.net.endpoint conn .odd).sent →
    ∃ mapping ∈ mappings conn, message = .bind mapping.name mapping.auth
  untouched : ∀ e, t.net.piped e = false → t.net.Untouched e ∨ Handshakes t.net e
  jobs : ∀ job ∈ t.jobs, job.Justified locals mappings t.net
  asked : ∀ a ref, (a, ref) ∈ t.asked → a.Justified mappings t.net ∧
    Joined t.net a.own (.stream a.conn a.side ref)
  dialled : ∀ d id, (d, id) ∈ t.dialled → d.Justified locals mappings t.net ∧
    Joined t.net d.own (.socket id)

/-- Every stream that a node has opened was asked for by a task. -/
structure Sound (serde : SerdeSlice) (aes : AesGcm) (crypto : ℕ → Side → Option FrameCrypto)
    (t : Tools) : Prop
    extends Standing locals mappings serde aes crypto t where
  opens : ∀ conn side i request, .openStream i request ∈ (t.net.endpoint conn side).sent →
    ∃ own ref, (⟨own, conn, side, request⟩, ref) ∈ t.asked ∧
      (t.net.stream conn side ref).map VirtualStream.streamId = some i

end Reasons

/-! ## Reasons stay -/

variable {locals : Table String TcpMapping} {mappings : ℕ → List TcpMapping} {serde : SerdeSlice}
    {aes : AesGcm}
  {crypto : ℕ → Side → Option FrameCrypto} {n n' : Net} {t t' : Tools}

/-- The muxes have handed over what they had, and the pipes keep their ends. -/
structure Extends (n n' : Net) : Prop where
  incoming : ∀ conn side, ((n.pair conn).mux side).incoming <+: ((n'.pair conn).mux side).incoming
  pipes : n.KeepsPipes n'

theorem Extends.trans {n'' : Net} (h : Extends n n') (h' : Extends n' n'') : Extends n n'' where
  incoming conn side := (h.incoming conn side).trans (h'.incoming conn side)
  pipes k pipe hk := by
    obtain ⟨pipe', hk', hsource, hearlier⟩ := h.pipes k pipe hk
    obtain ⟨pipe'', hk'', hsource', hearlier'⟩ := h'.pipes k pipe' hk'
    exact ⟨pipe'', hk'', hsource'.trans hsource, hearlier'.trans hearlier⟩

theorem Extends.handed (h : Extends n n') {conn : ℕ} {side : Side} {request : OpenRequest}
    {ref : StreamRef} (hh : Handed n conn side request ref) : Handed n' conn side request ref :=
  (h.incoming conn side).subset hh

theorem Extends.ask (h : Extends n n') {a : Ask} (ha : a.Justified mappings n) :
    a.Justified mappings n' := by
  unfold Ask.Justified at ha ⊢
  cases hside : a.side with
  | odd => simpa only [hside] using ha
  | even =>
    simp only [hside] at ha ⊢
    obtain ⟨name, hrequest, visitor, ref, presented, hown, hh, hmapping⟩ := ha
    exact ⟨name, hrequest, visitor, ref, presented, hown, h.handed hh, hmapping⟩

theorem Extends.dial (h : Extends n n') {d : Dial} (hd : d.Justified locals mappings n) :
    d.Justified locals mappings n' := by
  rcases hd with ⟨visitor, ref, presented, provider, hown, hh, hrest⟩ |
    ⟨conn, ref, hown, hh, htarget⟩
  · exact .inl ⟨visitor, ref, presented, provider, hown, h.handed hh, hrest⟩
  · exact .inr ⟨conn, ref, hown, h.handed hh, htarget⟩

theorem Extends.job (h : Extends n n') {job : Job} (hj : job.Justified locals mappings n) :
    job.Justified locals mappings n' := by
  cases job with
  | visit conn ref name presented => exact h.handed hj
  | socks conn ref => exact h.handed hj
  | ask a => exact h.ask hj
  | asking a i => exact h.ask hj
  | dial d => exact h.dial hj

theorem Extends.joined (h : Extends n n') {a b : PipeEnd} (hj : Joined n a b) : Joined n' a b := by
  obtain ⟨k, hforth, hback⟩ := hj
  exact ⟨k, h.pipes.joins hforth, h.pipes.joins hback⟩

theorem Extends.handshakes (h : Extends n n') {e : PipeEnd} (he : Handshakes n e) :
    Handshakes n' e := by
  obtain ⟨conn, ref, rfl, hh⟩ := he
  exact ⟨conn, ref, rfl, h.handed hh⟩

/-! ## Steps of the net -/

theorem sound_start (crypto : ℕ → Side → Option FrameCrypto) :
    Sound locals mappings serde aes crypto (.start crypto locals) where
  run := ⟨[], Run.nil⟩
  localProviders := rfl
  provider name provider hp := by cases hp
  binds conn message hm := by cases hm
  untouched e _ := by
    refine .inl ?_
    intro v hv
    cases e with
    | socket id => exact Option.some.inj hv ▸ ⟨rfl, rfl⟩
    | stream conn side ref => cases hv
  jobs job hj := by cases hj
  asked a ref ha := by cases ha
  dialled d id hd := by cases hd
  opens conn side i request hm := by cases hm

/-- A step of the net that a node may take. -/
structure Allowed (mappings : ℕ → List TcpMapping) (n n' : Net) (event : NetEvent) : Prop where
  control : ∀ conn message, Net.calls conn .odd event = some (.sendControl message) →
    ∃ mapping ∈ mappings conn, message = .bind mapping.name mapping.auth
  works : ∀ e, event.works = some e → n'.piped e = false → n.Untouched e → n'.Untouched e ∨
    Handshakes n' e

theorem extends_step (hserde : serde.Inverts) (haes : aes.Ideal) {ms : List (Move Net NetEvent)}
    (hrun : Run (Net.step serde aes) (Net.start crypto) ms n) {event : NetEvent}
    (hs : n.step serde aes event = some n') (hbound : n'.Bounded) : Extends n n' :=
  ⟨Net.incoming_step hs, (Net.steady hserde haes hrun hs hbound).keepsPipes hs⟩

theorem Standing.net (h : Standing locals mappings serde aes crypto t) (hserde : serde.Inverts)
    (haes : aes.Ideal) {event : NetEvent} {net : Net} (hs : t.net.step serde aes event = some net)
    (hbound : net.Bounded) (hallowed : Allowed mappings t.net net event) :
    Standing locals mappings serde aes crypto (t.setNet net) := by
  obtain ⟨ms, hrun⟩ := h.run
  have hsteady := Net.steady hserde haes hrun hs hbound
  have hextends := extends_step hserde haes hrun hs hbound
  constructor
  case run => exact ⟨_, hrun.snoc hs⟩
  case localProviders => exact h.localProviders
  case provider => exact h.provider
  case binds =>
    intro conn message hm
    rcases (Net.said_step hs conn .odd).control message hm with hm | hcall
    · exact h.binds conn message hm
    · exact hallowed.control conn message hcall
  case untouched =>
    intro e hfree
    have hfree' : t.net.piped e = false :=
      Bool.eq_false_of_not_eq_true fun hp =>
        Bool.false_ne_true (hfree.symm.trans (hextends.pipes.piped hp))
    rcases h.untouched e hfree' with hu | hh
    · by_cases hworks : event.works = some e
      · exact hallowed.works e hworks hfree hu
      · exact .inl (hu.step hsteady hs hfree hworks)
    · exact .inr (hextends.handshakes hh)
  case jobs => exact fun job hj => hextends.job (h.jobs job hj)
  case asked =>
    intro a ref ha
    exact ⟨hextends.ask (h.asked a ref ha).1, hextends.joined (h.asked a ref ha).2⟩
  case dialled =>
    intro d id hd
    exact ⟨hextends.dial (h.dialled d id hd).1, hextends.joined (h.dialled d id hd).2⟩

theorem Sound.net (h : Sound locals mappings serde aes crypto t) (hserde : serde.Inverts)
    (haes : aes.Ideal) {event : NetEvent} {net : Net} (hs : t.net.step serde aes event = some net)
    (hbound : net.Bounded) (hallowed : Allowed mappings t.net net event)
    (hopens : ∀ conn side i request, Net.calls conn side event ≠ some (.openFinish i request)) :
    Sound locals mappings serde aes crypto (t.setNet net) := by
  refine ⟨h.toStanding.net hserde haes hs hbound hallowed, ?_⟩
  intro conn side i request hm
  obtain ⟨ms, hrun⟩ := h.run
  rcases (Net.said_step hs conn side).opens i request hm with hm | hcall
  · obtain ⟨own, ref, ha, hid⟩ := h.opens conn side i request hm
    exact ⟨own, ref, ha, Net.stream_kept hserde haes hrun hs hbound hid⟩
  · exact absurd hcall (hopens conn side i request)

/-! ## Steps of the tasks -/

theorem Standing.update (h : Standing locals mappings serde aes crypto t) (hnet : t'.net = t.net)
    (hnode : t'.node = t.node) (hasked : t'.asked = t.asked) (hdialled : t'.dialled = t.dialled)
    (hjobs : ∀ job ∈ t'.jobs, job ∈ t.jobs ∨ job.Justified locals mappings t.net) :
    Standing locals mappings serde aes crypto t' := by
  constructor
  case run => exact hnet ▸ h.run
  case localProviders => exact hnode ▸ h.localProviders
  case provider => exact hnode ▸ h.provider
  case binds => exact hnet ▸ h.binds
  case untouched => exact hnet ▸ h.untouched
  case jobs =>
    intro job hj
    rw [hnet]
    exact (hjobs job hj).elim (h.jobs job) id
  case asked =>
    rw [hnet, hasked]
    exact h.asked
  case dialled =>
    rw [hnet, hdialled]
    exact h.dialled

theorem Sound.update (h : Sound locals mappings serde aes crypto t) (hnet : t'.net = t.net)
    (hnode : t'.node = t.node) (hasked : t'.asked = t.asked) (hdialled : t'.dialled = t.dialled)
    (hjobs : ∀ job ∈ t'.jobs, job ∈ t.jobs ∨ job.Justified locals mappings t.net) :
    Sound locals mappings serde aes crypto t' := by
  refine ⟨h.toStanding.update hnet hnode hasked hdialled hjobs, ?_⟩
  rw [hnet, hasked]
  exact h.opens

theorem Sound.addJob (h : Sound locals mappings serde aes crypto t) {job : Job}
    (hj : job.Justified locals mappings t.net) :
    Sound locals mappings serde aes crypto (t.addJob job) := by
  refine h.update rfl rfl rfl rfl ?_
  intro other hm
  rcases List.mem_append.mp hm with hm | hm
  · exact .inl hm
  · exact .inr (List.mem_singleton.mp hm ▸ hj)

theorem Sound.endJob (h : Sound locals mappings serde aes crypto t) (job : Job) :
    Sound locals mappings serde aes crypto (t.endJob job) :=
  h.update rfl rfl rfl rfl fun _ hm => .inl (List.mem_of_mem_erase hm)

theorem Sound.giveUp (h : Sound locals mappings serde aes crypto t) (hserde : serde.Inverts)
    (haes : aes.Ideal) {e : PipeEnd} (hs : t.giveUp serde aes e = some t')
    (hbound : t'.net.Bounded) :
    Sound locals mappings serde aes crypto t' := by
  obtain ⟨net, hdrop, rfl⟩ := Option.map_eq_some_iff.mp hs
  refine h.net hserde haes hdrop hbound ⟨?_, ?_⟩ ?_
  · intro conn message hc
    cases hc
  · intro e' _ _ hu
    obtain ⟨ms, hrun⟩ := h.run
    exact .inl (hu.drop (Net.steady hserde haes hrun hdrop hbound) hdrop)
  · intro conn side i request hc
    cases hc

theorem calls_call {conn conn' : ℕ} {side side' : Side} {event call : StreamEvent}
    (h : Net.calls conn' side' (.mux conn (.call side event)) = some call) :
    conn' = conn ∧ side' = side ∧ call = event := by
  rw [Net.calls, PairEvent.calls] at h
  split_ifs at h with hconn hside
  exact ⟨hconn.symm, hside.symm, (Option.some.inj h).symm⟩

theorem Sound.callMux (h : Sound locals mappings serde aes crypto t) (hserde : serde.Inverts)
    (haes : aes.Ideal) {conn : ℕ} {side : Side} {event : StreamEvent}
    (hs : t.callMux serde aes conn side event = some t') (hbound : t'.net.Bounded)
    (hopen : ∀ i request, event ≠ .openFinish i request)
    (hcontrol : ∀ message, side = .odd → event = .sendControl message →
      ∃ mapping ∈ mappings conn, message = .bind mapping.name mapping.auth)
    (hworks : ∀ ref, event.target = some ref → Handshakes t.net (.stream conn side ref)) :
    Sound locals mappings serde aes crypto t' := by
  obtain ⟨net, hcall, rfl⟩ := Option.map_eq_some_iff.mp hs
  obtain ⟨ms, hrun⟩ := h.run
  refine h.net hserde haes hcall hbound ⟨?_, ?_⟩ ?_
  · intro conn' message hc
    obtain ⟨rfl, hside, he⟩ := calls_call hc
    exact hcontrol message hside.symm he.symm
  · intro e he _ _
    obtain ⟨ref, ht, rfl⟩ := Option.map_eq_some_iff.mp he
    exact .inr ((extends_step hserde haes hrun hcall hbound).handshakes (hworks ref ht))
  · intro conn' side' i request hc
    exact hopen i request (calls_call hc).2.2.symm

/-! ## Pipes of the tasks -/

theorem joined_of_pipe {left right : PipeEnd} (hs : n.step serde aes (.pipe left right) = some n')
    (hleft : n.Untouched left) (hright : n.Untouched right) : Joined n' left right := by
  obtain ⟨v, w, hv, hw, -, rfl⟩ := Net.step_pipe hs
  have hfreshLeft := hleft v (Net.openView_eq_some.mp hv).1
  have hfreshRight := hright w (Net.openView_eq_some.mp hw).1
  refine ⟨n.pipes.length, ?_, ?_⟩
  · simp [Net.joins, Pipe.new, Pipe.target, Direction.flip, hfreshLeft.1, hfreshRight.2]
  · simp [Net.joins, Pipe.new, Pipe.target, Direction.flip, hfreshLeft.2, hfreshRight.1]

theorem Standing.untouched_of_visit (h : Standing locals mappings serde aes crypto t)
    (hserde : serde.Inverts) (haes : aes.Ideal) (hbound : t.net.Bounded) {conn : ℕ}
    {ref : StreamRef} {name : String} {presented : Option String}
    (hh : Handed t.net conn .even (.visit name presented) ref)
    (hfree : t.net.piped (.stream conn .even ref) = false) :
    t.net.Untouched (.stream conn .even ref) := by
  obtain ⟨ms, hrun⟩ := h.run
  refine (h.untouched _ hfree).resolve_right ?_
  rintro ⟨conn', ref', he, hsocks⟩
  cases he
  cases Net.request_unique hserde haes hrun hbound hh hsocks

theorem Standing.untouched_socket (h : Standing locals mappings serde aes crypto t) {id : ℕ}
    (hfree : t.net.piped (.socket id) = false) : t.net.Untouched (.socket id) := by
  refine (h.untouched _ hfree).resolve_right ?_
  rintro ⟨conn, ref, he, -⟩
  cases he

theorem Standing.untouched_odd (h : Standing locals mappings serde aes crypto t) {conn : ℕ}
    {ref : StreamRef} (hfree : t.net.piped (.stream conn .odd ref) = false) :
    t.net.Untouched (.stream conn .odd ref) := by
  refine (h.untouched _ hfree).resolve_right ?_
  rintro ⟨conn', ref', he, -⟩
  cases he

theorem Standing.untouched_ask (h : Standing locals mappings serde aes crypto t)
    (hserde : serde.Inverts) (haes : aes.Ideal) (hbound : t.net.Bounded) {a : Ask}
    (ha : a.Justified mappings t.net) (hfree : t.net.piped a.own = false) :
    t.net.Untouched a.own := by
  unfold Ask.Justified at ha
  cases hside : a.side with
  | odd =>
    simp only [hside] at ha
    obtain ⟨id, hown⟩ := ha
    rw [hown] at hfree ⊢
    exact h.untouched_socket hfree
  | even =>
    simp only [hside] at ha
    obtain ⟨name, -, visitor, ref, presented, hown, hh, -⟩ := ha
    rw [hown] at hfree ⊢
    exact h.untouched_of_visit hserde haes hbound hh hfree

theorem Standing.untouched_dial (h : Standing locals mappings serde aes crypto t)
    (hserde : serde.Inverts) (haes : aes.Ideal) (hbound : t.net.Bounded) {d : Dial}
    (hd : d.Justified locals mappings t.net) (hfree : t.net.piped d.own = false) :
    t.net.Untouched d.own := by
  rcases hd with ⟨visitor, ref, presented, provider, hown, hh, -⟩ | ⟨conn, ref, hown, -⟩
  · rw [hown] at hfree ⊢
    exact h.untouched_of_visit hserde haes hbound hh hfree
  · rw [hown] at hfree ⊢
    exact h.untouched_odd hfree

theorem allowed_pipe (mappings : ℕ → List TcpMapping) (n n' : Net) (left right : PipeEnd) :
    Allowed mappings n n' (.pipe left right) := by
  constructor
  · intro conn message hc
    cases hc
  · intro e he
    cases he

theorem Sound.join (h : Sound locals mappings serde aes crypto t) (hserde : serde.Inverts)
    (haes : aes.Ideal) {job : Job} (hj : job ∈ t.jobs) (hs : t.join serde aes job = some t')
    (hbound : t'.net.Bounded) :
    Sound locals mappings serde aes crypto t' := by
  obtain ⟨net, hpipe, rfl⟩ := Option.map_eq_some_iff.mp hs
  obtain ⟨ms, hrun⟩ := h.run
  obtain ⟨v, w, -, -, ⟨-, hfreshOwn, hfreshSocket⟩, -⟩ := Net.step_pipe hpipe
  have hnet : Sound locals mappings serde aes crypto ((t.endJob job).setNet net) := by
    refine (h.endJob job).net hserde haes hpipe hbound (allowed_pipe _ _ _ _ _) ?_
    intro conn side i request hc
    cases hc
  refine ⟨⟨hnet.run, hnet.localProviders, hnet.provider, hnet.binds, hnet.untouched, hnet.jobs,
    hnet.asked, ?_⟩, hnet.opens⟩
  intro d id hd
  rcases List.mem_append.mp hd with hd | hd
  · exact hnet.dialled d id hd
  · obtain ⟨d', hd', he⟩ := List.mem_map.mp hd
    obtain ⟨rfl, rfl⟩ := Prod.mk.inj he
    have hjob : job = .dial d' := by
      cases job with
      | dial d₀ =>
        obtain rfl := Option.some.inj (Option.mem_toList.mp hd')
        rfl
      | _ => cases Option.mem_toList.mp hd'
    subst hjob
    have hjustified : d'.Justified locals mappings t.net := h.jobs _ hj
    have hbefore := hbound.of_continues (Net.continues_step hpipe)
    have hextends := extends_step hserde haes hrun hpipe hbound
    refine ⟨hextends.dial hjustified, joined_of_pipe hpipe ?_ ?_⟩
    · exact h.untouched_dial hserde haes hbefore hjustified hfreshOwn
    · exact h.untouched_socket hfreshSocket

theorem stream_of_openFinish {conn : ℕ} {side : Side} {i : UInt32} {request : OpenRequest}
    (hs : n.step serde aes (.mux conn (.call side (.openFinish i request))) = some n')
    (hw : (n.endpoint conn side).writerOpen = true) :
    n'.stream conn side (n.endpoint conn side).created = some (.new i) := by
  simp only [Net.step] at hs
  split_ifs at hs
  obtain ⟨p, endpoint, -, rfl, hstep, hend⟩ := Net.call_eq_some hs
  rw [Net.stream, hend]
  obtain ⟨-, hstep⟩ := Option.ite_none_right_eq_some.mp hstep
  rw [← Option.some.inj hstep, Endpoint.openFinish, if_pos hw]
  exact Function.update_self _ _ _

theorem opens_of_openFinish {conn conn' : ℕ} {side side' : Side} {i j : UInt32}
    {request request' : OpenRequest}
    (hs : n.step serde aes (.mux conn (.call side (.openFinish i request))) = some n')
    (hm : .openStream j request' ∈ (n'.endpoint conn' side').sent) :
    .openStream j request' ∈ (n.endpoint conn' side').sent ∨
      (conn' = conn ∧ side' = side ∧ j = i ∧ request' = request) ∧
        (n.endpoint conn side).writerOpen = true := by
  rcases (Net.said_step hs conn' side').opens j request' hm with hm | hcall
  · exact .inl hm
  · obtain ⟨rfl, rfl, he⟩ := calls_call hcall
    cases he
    by_cases hw : (n.endpoint conn' side').writerOpen = true
    · exact .inr ⟨⟨rfl, rfl, rfl, rfl⟩, hw⟩
    · simp only [Net.step] at hs
      split_ifs at hs
      obtain ⟨p, endpoint, -, rfl, hstep, hend⟩ := Net.call_eq_some hs
      obtain ⟨-, hstep⟩ := Option.ite_none_right_eq_some.mp hstep
      rw [hend, ← Option.some.inj hstep, Endpoint.openFinish, if_neg hw] at hm
      exact .inl hm

theorem Sound.openFinish (h : Sound locals mappings serde aes crypto t) (hserde : serde.Inverts)
    (haes : aes.Ideal) {a : Ask} {i : UInt32} (hj : .asking a i ∈ t.jobs)
    (hs : t.openFinish serde aes a i = some t') (hbound : t'.net.Bounded) :
    Sound locals mappings serde aes crypto t' := by
  obtain ⟨next, hcall, hs⟩ := Option.bind_eq_some_iff.mp hs
  obtain ⟨n₁, hfinish, rfl⟩ := Option.map_eq_some_iff.mp hcall
  obtain ⟨ms, hrun⟩ := h.run
  have hstanding :
      n₁.Bounded → Standing locals mappings serde aes crypto
        ((t.endJob (.asking a i)).setNet n₁) := by
    intro hb
    refine (h.endJob _).toStanding.net hserde haes hfinish hb ⟨?_, ?_⟩
    · intro conn message hc
      cases (calls_call hc).2.2
    · intro e he
      cases he
  have hopened :
      n₁.Bounded → ∀ {conn side j request},
        .openStream j request ∈ (t.net.endpoint conn side).sent →
      ∃ own ref, (⟨own, conn, side, request⟩, ref) ∈ t.asked ∧
        (n₁.stream conn side ref).map VirtualStream.streamId = some j := by
    intro hb conn side j request hm
    obtain ⟨own, ref, ha, hid⟩ := h.opens conn side j request hm
    exact ⟨own, ref, ha, Net.stream_kept hserde haes hrun hfinish hb hid⟩
  split_ifs at hs with hw
  · obtain ⟨n₂, hpipe, rfl⟩ := Option.map_eq_some_iff.mp hs
    have hb : n₁.Bounded := hbound.of_continues (Net.continues_step hpipe)
    have hlast := (hstanding hb).net hserde haes hpipe hbound (allowed_pipe _ _ _ _ _)
    have hrun₁ := hrun.snoc hfinish
    obtain ⟨v, w, -, -, ⟨-, hfreshOwn, -⟩, -⟩ := Net.step_pipe hpipe
    have hextends := extends_step hserde haes hrun hfinish hb
    have hown := (hstanding hb).untouched_ask hserde haes hb (hextends.ask (h.jobs _ hj)) hfreshOwn
    have hnew : n₁.stream a.conn a.side (t.net.endpoint a.conn a.side).created = some (.new i) :=
      stream_of_openFinish hfinish hw
    have hstream : n₁.Untouched (.stream a.conn a.side (t.net.endpoint a.conn a.side).created) := by
      intro v' hv'
      rw [Net.view, hnew, Option.map_some, Option.some.injEq] at hv'
      exact hv' ▸ ⟨rfl, rfl⟩
    refine ⟨⟨hlast.run, hlast.localProviders, hlast.provider, hlast.binds, hlast.untouched,
      hlast.jobs, ?_, hlast.dialled⟩, ?_⟩
    · intro a' ref ha
      rcases List.mem_append.mp ha with ha | ha
      · exact hlast.asked a' ref ha
      · obtain ⟨rfl, rfl⟩ := Prod.mk.inj (List.mem_singleton.mp ha)
        refine ⟨?_, joined_of_pipe hpipe hown hstream⟩
        exact (extends_step hserde haes hrun₁ hpipe hbound).ask (hextends.ask (h.jobs _ hj))
    · intro conn side j request hm
      have hm₁ : .openStream j request ∈ (n₁.endpoint conn side).sent :=
        ((Net.said_step hpipe conn side).opens j request hm).resolve_right fun hc => by cases hc
      rcases opens_of_openFinish hfinish hm₁ with hm₀ | ⟨⟨rfl, rfl, rfl, rfl⟩, -⟩
      · obtain ⟨own, ref, ha, hid⟩ := hopened hb hm₀
        exact ⟨own, ref, List.mem_append_left _ ha,
          Net.stream_kept hserde haes hrun₁ hpipe hbound hid⟩
      · refine ⟨a.own, _, List.mem_append_right _ List.mem_cons_self, ?_⟩
        apply Net.stream_kept hserde haes hrun₁ hpipe hbound
        rw [hnew, Option.map_some]
        rfl
  · have hb : n₁.Bounded := by
      obtain ⟨net, hdrop, rfl⟩ := Option.map_eq_some_iff.mp hs
      exact hbound.of_continues (Net.continues_step hdrop)
    have hnext : Sound locals mappings serde aes crypto ((t.endJob (.asking a i)).setNet n₁) := by
      refine ⟨hstanding hb, ?_⟩
      intro conn side j request hm
      exact hopened hb ((opens_of_openFinish hfinish hm).resolve_right fun hc => hw hc.2)
    exact hnext.giveUp hserde haes hs hbound

/-! ## Steps of the nodes -/

theorem Sound.setNode (h : Sound locals mappings serde aes crypto t) {node : ServeNode}
    (hlocals : node.state.localProviders = t.node.state.localProviders)
    (hprovider : ∀ name provider, node.state.providers.get name = some provider →
      t.node.state.providers.get name = some provider ∨
        ∃ mapping ∈ mappings provider.mux, mapping.name = name ∧ mapping.auth = provider.auth) :
    Sound locals mappings serde aes crypto { t with node := node } := by
  refine ⟨⟨h.run, hlocals.trans h.localProviders, ?_, h.binds, h.untouched, h.jobs, h.asked,
    h.dialled⟩, h.opens⟩
  intro name provider hp
  exact (hprovider name provider hp).elim (h.provider name provider) id

theorem providers_of_bind {node node' : ServeNode} {task : TaskId} {name : String}
    {auth : Option String} {writerOpen : Bool}
    (hs : node.step (.bind task name auth writerOpen) = some node') :
    node'.state.localProviders = node.state.localProviders ∧
      ∀ name' provider, node'.state.providers.get name' = some provider →
        node.state.providers.get name' = some provider ∨ name' = name ∧ provider.mux = task ∧
          provider.auth = auth := by
  obtain ⟨data, -, -, rfl⟩ := ServeNode.step_bind hs
  obtain ⟨existing, -, -, hbound⟩ | ⟨-, hbound⟩ :=
    ServeState.handleBind_cases node.state task data.connectionId name auth
  · dsimp only
    rw [hbound]
    exact ⟨rfl, fun _ _ hp => .inl hp⟩
  · dsimp only
    rw [hbound]
    refine ⟨rfl, ?_⟩
    intro name' provider hp
    rw [Table.get_insert] at hp
    split_ifs at hp with hname
    · exact .inr ⟨hname, Option.some.inj hp ▸ ⟨rfl, rfl⟩⟩
    · exact .inl hp

theorem Sound.handleControl (h : Sound locals mappings serde aes crypto t) (hserde : serde.Inverts)
    (haes : aes.Ideal) {conn : ℕ} {connectionId : String} {message : ControlMessage}
    (hheard : message ∈ ((t.net.pair conn).mux .even).control)
    (hs : t.handleControl serde aes conn connectionId message = some t') (hbound : t'.net.Bounded) :
    Sound locals mappings serde aes crypto t' := by
  cases message with
  | bind name auth =>
    obtain ⟨node, hnode, hs⟩ := Option.bind_eq_some_iff.mp hs
    obtain ⟨hlocals, hproviders⟩ := providers_of_bind hnode
    obtain ⟨ms, hrun⟩ := h.run
    have hbefore : t.net.Bounded := by
      obtain ⟨net, hcall, rfl⟩ := Option.map_eq_some_iff.mp hs
      exact hbound.of_continues (Net.continues_step hcall)
    obtain ⟨mapping, hmapping, he⟩ :=
      h.binds conn _ (Net.control_heard hserde haes hrun hbefore hheard)
    cases he
    have hregistered : Sound locals mappings serde aes crypto { t with node := node } := by
      refine h.setNode hlocals ?_
      intro name provider hp
      rcases hproviders name provider hp with hp | ⟨rfl, rfl, hauth⟩
      · exact .inl hp
      · exact .inr ⟨mapping, hmapping, rfl, hauth.symm⟩
    refine hregistered.callMux hserde haes hs hbound ?_ ?_ ?_
    · intro i request he
      cases he
    · intro message hside
      cases hside
    · intro ref ht
      cases ht
  | bindAck name ok error => exact Option.some.inj hs ▸ h
  | info text => exact Option.some.inj hs ▸ h

theorem Sound.dispatch (h : Sound locals mappings serde aes crypto t) (hserde : serde.Inverts)
    (haes : aes.Ideal) {conn : ℕ} {side : Side} {request : OpenRequest} {ref : StreamRef}
    (hh : Handed t.net conn side request ref)
    (hs : t.dispatch serde aes mappings conn side request ref = some t') (hbound : t'.net.Bounded) :
    Sound locals mappings serde aes crypto t' := by
  cases side with
  | even =>
    cases request with
    | visit name auth =>
      obtain rfl := Option.some.inj hs
      exact h.addJob hh
    | socks =>
      obtain rfl := Option.some.inj hs
      exact h.addJob hh
    | providerConnect name => exact h.giveUp hserde haes hs hbound
  | odd =>
    cases request with
    | providerConnect name =>
      simp only [Tools.dispatch] at hs
      cases htarget : (targets (mappings conn)).get name with
      | some addr =>
        rw [htarget] at hs
        obtain rfl := Option.some.inj hs
        exact h.addJob (.inr ⟨conn, ref, rfl, hh, htarget⟩)
      | none =>
        rw [htarget] at hs
        exact h.giveUp hserde haes hs hbound
    | visit name auth => exact h.giveUp hserde haes hs hbound
    | socks => exact h.giveUp hserde haes hs hbound

theorem Sound.lookUp (h : Sound locals mappings serde aes crypto t) (hserde : serde.Inverts)
    (haes : aes.Ideal) {conn : ℕ} {ref : StreamRef} {name : String} {presented : Option String}
    (hs : t.step serde aes mappings (.lookUp conn ref name presented) = some t')
    (hbound : t'.net.Bounded) :
    Sound locals mappings serde aes crypto t' := by
  simp only [Tools.step] at hs
  split_ifs at hs with hj
  have hh : Handed t.net conn .even (.visit name presented) ref := h.jobs _ hj
  have hended := h.endJob (.visit conn ref name presented)
  unfold ServeState.handleVisit at hs
  rw [h.localProviders] at hs
  cases hlocal : locals.get name with
  | some provider =>
    by_cases hauth : authMatches provider.auth presented = true
    · rw [hlocal] at hs
      simp only [hauth, if_true] at hs
      obtain rfl := Option.some.inj hs
      exact hended.addJob (.inl ⟨conn, ref, presented, provider, rfl, hh, hlocal, hauth, rfl⟩)
    · simp only [hlocal, hauth] at hs
      exact hended.giveUp hserde haes hs hbound
  | none =>
    cases hprovider : t.node.state.providers.get name with
    | some provider =>
      by_cases hauth : authMatches provider.auth presented = true
      · simp only [hlocal, hprovider, hauth, if_true] at hs
        obtain rfl := Option.some.inj hs
        obtain ⟨mapping, hmapping, hname, hsame⟩ := h.provider name provider hprovider
        exact hended.addJob ⟨name, rfl, conn, ref, presented, rfl, hh, mapping, hmapping, hname,
          hsame ▸ hauth⟩
      · simp only [hlocal, hprovider, hauth] at hs
        exact hended.giveUp hserde haes hs hbound
    | none =>
      simp only [hlocal, hprovider] at hs
      exact hended.giveUp hserde haes hs hbound

theorem Sound.work (h : Sound locals mappings serde aes crypto t) (hserde : serde.Inverts)
    (haes : aes.Ideal) {event : NetEvent} (hwork : isWork event = true) {net : Net}
    (hs : t.net.step serde aes event = some net) (hbound : net.Bounded) :
    Sound locals mappings serde aes crypto (t.setNet net) := by
  have hcalls : ∀ conn side call, Net.calls conn side event = some call → ∃ i, call = .reap i := by
    intro conn side call hc
    cases event with
    | mux conn' event =>
      cases event with
      | call side' event =>
        obtain ⟨-, -, rfl⟩ := calls_call hc
        cases call with
        | reap i => exact ⟨i, rfl⟩
        | _ => cases hwork
      | _ =>
        rw [Net.calls] at hc
        split_ifs at hc
        cases hc
    | _ => cases hc
  have hworks : event.works = none := by
    cases event with
    | mux conn event =>
      cases event with
      | call side event =>
        cases event with
        | reap i => rfl
        | _ => cases hwork
      | _ => rfl
    | drop e => cases hwork
    | _ => rfl
  refine h.net hserde haes hs hbound ⟨?_, ?_⟩ ?_
  · intro conn message hc
    obtain ⟨i, he⟩ := hcalls conn .odd _ hc
    cases he
  · intro e he
    rw [hworks] at he
    cases he
  · intro conn side i request hc
    obtain ⟨j, he⟩ := hcalls conn side _ hc
    cases he

theorem Sound.step (h : Sound locals mappings serde aes crypto t) (hserde : serde.Inverts)
    (haes : aes.Ideal) {event : ToolEvent} (hs : t.step serde aes mappings event = some t')
    (hbound : t'.net.Bounded) :
    Sound locals mappings serde aes crypto t' := by
  cases event with
  | net event =>
    obtain ⟨hwork, hs⟩ := Option.ite_none_right_eq_some.mp hs
    obtain ⟨net, hstep, rfl⟩ := Option.map_eq_some_iff.mp hs
    exact h.work hserde haes hwork hstep hbound
  | serve event =>
    simp only [Tools.step] at hs
    split_ifs at hs with hbind
    obtain ⟨node, hstep, rfl⟩ := Option.map_eq_some_iff.mp hs
    have hproviders := ServeNode.step_providers hstep fun t name auth writerOpen he =>
        hbind (he ▸ rfl)
    exact h.setNode hproviders.1 fun name provider hp => .inl (hproviders.2 name provider hp)
  | sendBind conn =>
    obtain ⟨mapping, hmapping, hs⟩ := Option.bind_eq_some_iff.mp hs
    have hcounted : Sound locals mappings serde aes crypto
        { t with bound := Function.update t.bound conn (t.bound conn + 1) } :=
      h.update rfl rfl rfl rfl fun _ hm => .inl hm
    refine hcounted.callMux hserde haes hs hbound ?_ ?_ ?_
    · intro i request he
      cases he
    · intro message _ he
      cases he
      exact ⟨mapping, List.mem_of_getElem? hmapping, rfl⟩
    · intro ref ht
      cases ht
  | control conn =>
    obtain ⟨task, -, hs⟩ := Option.bind_eq_some_iff.mp hs
    obtain ⟨message, hmessage, hs⟩ := Option.bind_eq_some_iff.mp hs
    have hcounted : Sound locals mappings serde aes crypto
        { t with handled := Function.update t.handled conn (t.handled conn + 1) } :=
      h.update rfl rfl rfl rfl fun _ hm => .inl hm
    exact hcounted.handleControl hserde haes (List.mem_of_getElem? hmessage) hs hbound
  | incoming conn side =>
    obtain ⟨-, hs⟩ := Option.ite_none_right_eq_some.mp hs
    obtain ⟨⟨request, ref⟩, hstream, hs⟩ := Option.bind_eq_some_iff.mp hs
    have hcounted : Sound locals mappings serde aes crypto (t.setDispatched conn side) :=
      h.update rfl rfl rfl rfl fun _ hm => .inl hm
    exact hcounted.dispatch hserde haes (List.mem_of_getElem? hstream) hs hbound
  | lookUp conn ref name presented => exact h.lookUp hserde haes hs hbound
  | accept conn request =>
    obtain ⟨-, hs⟩ := Option.ite_none_right_eq_some.mp hs
    obtain rfl := Option.some.inj hs
    have hjob :
        Job.Justified locals mappings t.net (.ask ⟨.socket t.sockets, conn, .odd, request⟩) :=
      ⟨t.sockets, rfl⟩
    exact (h.addJob hjob).update rfl rfl rfl rfl fun _ hm => .inl hm
  | openBegin a =>
    obtain ⟨hj, hs⟩ := Option.ite_none_right_eq_some.mp hs
    have hjob : a.Justified mappings t.net := h.jobs _ hj
    have hasking : Job.Justified locals mappings t.net
        (.asking a (t.net.endpoint a.conn a.side).nextStreamId) := hjob
    refine ((h.endJob (.ask a)).addJob hasking).callMux hserde haes hs hbound ?_ ?_ ?_
    · intro i request he
      cases he
    · intro message _ he
      cases he
    · intro ref ht
      cases ht
  | openFinish a i =>
    obtain ⟨hj, hs⟩ := Option.ite_none_right_eq_some.mp hs
    exact h.openFinish hserde haes hj hs hbound
  | socks conn event =>
    obtain ⟨⟨hjob, hhandshake⟩, hs⟩ := Option.ite_none_right_eq_some.mp hs
    refine h.callMux hserde haes hs hbound ?_ ?_ ?_
    · rintro i request rfl
      cases hhandshake
    · rintro message hside
      cases hside
    · intro ref ht
      rw [ht, Option.any_some] at hjob
      exact ⟨conn, ref, rfl, h.jobs _ (of_decide_eq_true hjob)⟩
  | connected job =>
    obtain ⟨⟨hj, -⟩, hs⟩ := Option.ite_none_right_eq_some.mp hs
    exact h.join hserde haes hj hs hbound
  | failed job =>
    obtain ⟨-, hs⟩ := Option.ite_none_right_eq_some.mp hs
    exact (h.endJob job).giveUp hserde haes hs hbound

end NodeAccess.Nodes
