import NodeAccess.Access.Invariant

/-! # Isolation of the visitors' streams

The streams of a mux are fed, and ended, by the streams with the same ids of the one mux
that it hears. Two visitors of one process and one node ask for the same connection id, and
then their streams are mixed.
-/

namespace NodeAccess.Access

open Foundation Crypto Mux Relay
open Serve (VisitorMapping)

variable {session : RelaySession} {serde : SerdeSlice} {aes : AesGcm}
  {sha256 : List UInt8 → List UInt8}

namespace System

variable {ms : List (Move World WorldEvent)} {s : System} {p : PeerId} {k : Socket}

/-- The mux of the other side of the connection, and the only one that is heard. -/
def Feeds (s : System) (l k : Socket) : Prop :=
  (∃ q, s.socket q = some l) ∧ l.peerMeta.kind = k.peerMeta.kind.opposite ∧
    k.mux.endpoint.arrived.Sublist l.mux.endpoint.sent

/-- The id's Open was sent by the first mux and came to the second. -/
def Opened (i : UInt32) (opener acceptor : Endpoint) : Prop :=
  Endpoint.OpenIn i opener.sent ∧ Endpoint.OpenIn i acceptor.arrived

/-- A stream of the mux that feeds this one: one of the two was accepted for the Open of the
other. -/
def PeerStream (s : System) (k : Socket) (st st' : VirtualStream) : Prop :=
  ∃ l r', s.Feeds l k ∧ l.mux.endpoint.stream r' = some st' ∧ st'.streamId = st.streamId ∧
    (Own (firstStreamId k.peerMeta.kind) st.streamId →
      Opened st.streamId k.mux.endpoint l.mux.endpoint) ∧
    (¬ Own (firstStreamId k.peerMeta.kind) st.streamId →
      Opened st.streamId l.mux.endpoint k.mux.endpoint)

/-- What a stream may rely on: no other stream of its mux has its id, what it hands out was
written to its one peer, and nothing but a Close of the peer ends it. -/
structure StreamIsolated (s : System) (k : Socket) (r : StreamRef) (st : VirtualStream) : Prop where
  unique : ∀ r' st', k.mux.endpoint.stream r' = some st' → st'.streamId = st.streamId → r' = r
  peerUnique : ∀ st₁ st₂, s.PeerStream k st st₁ → s.PeerStream k st st₂ → st₁ = st₂
  accepted : ¬ Own (firstStreamId k.peerMeta.kind) st.streamId → ∃ st', s.PeerStream k st st'
  handed : st.handed = [] ∨ ∃ st', s.PeerStream k st st' ∧
    st.handed.Sublist (st'.written ++ st'.late)
  entry : st.dropped = false → k.mux.endpoint.streams.get st.streamId = some r ∨
    ∃ st', s.PeerStream k st st' ∧ st'.sentClose = true

def Isolated (s : System) : Prop :=
  ∀ p k, s.socket p = some k → ∀ r st, k.mux.endpoint.stream r = some st → s.StreamIsolated k r st

variable {r : StreamRef} {st : VirtualStream}

theorem Sound.exists_peerStream (h : s.Sound session serde aes ms) (hk : s.socket p = some k)
    (hst : k.mux.endpoint.stream r = some st) {frame : MuxFrame}
    (hf : frame ∈ k.mux.endpoint.arrived) (hid : frame.streamId = some st.streamId) :
    ∃ l r' st', s.Feeds l k ∧ l.mux.endpoint.Sound (firstStreamId l.peerMeta.kind) ∧
      l.mux.endpoint.stream r' = some st' ∧ st'.streamId = st.streamId ∧ s.PeerStream k st st' := by
  have hsound := h.socket p k hk
  rcases h.heard hk with ⟨q, l, hl, hkind, hsub⟩ | hnil
  · have hother := (h.socket q l hl).mux.endpoint
    obtain ⟨r', st', hst', he⟩ := hother.sentBy frame (hsub.subset hf) _ hid
    have hfeeds : s.Feeds l k := ⟨⟨q, hl⟩, hkind, hsub⟩
    refine ⟨l, r', st', hfeeds, hother, hst', he, l, r', hfeeds, hst', he, ?_⟩
    have hown := own_opposite hsound.connection st.streamId
    rw [← hkind, ← he] at hown
    constructor
    · intro ho
      have hforeign := hother.foreign r' st' hst' fun hn => hown.mp hn (he ▸ ho)
      exact ⟨hsound.mux.endpoint.own r st hst ho, he ▸ hforeign⟩
    · intro ho
      have hopen := hother.own r' st' hst' (hown.mpr (he ▸ ho))
      exact ⟨he ▸ hopen, hsound.mux.endpoint.foreign r st hst ho⟩
  · rw [hnil] at hf
    cases hf

theorem Sound.streamIsolated (h : s.Sound session serde aes ms) (hk : s.socket p = some k)
    (hst : k.mux.endpoint.stream r = some st) : s.StreamIsolated k r st := by
  have hend := (h.socket p k hk).mux.endpoint
  have hserves := hend.serves r st hst
  constructor
  · intro r' st' hst' hid
    exact hend.unique r' r st' st hst' hst hid
  · rintro st₁ st₂ ⟨l₁, r₁, ⟨⟨q₁, h₁⟩, k₁, -⟩, s₁, e₁, -⟩ ⟨l₂, r₂, ⟨⟨q₂, h₂⟩, k₂, -⟩, s₂, e₂, -⟩
    obtain rfl := h.unique q₁ q₂ l₁ l₂ h₁ h₂ (k₁.trans k₂.symm)
    obtain rfl := Option.some.inj (h₁.symm.trans h₂)
    obtain rfl := (h.socket q₁ l₁ h₁).mux.endpoint.unique r₁ r₂ st₁ st₂ s₁ s₂ (e₁.trans e₂.symm)
    exact Option.some.inj (s₁.symm.trans s₂)
  · intro hforeign
    obtain ⟨request, hm⟩ := hend.foreign r st hst hforeign
    obtain ⟨l, r', st', -, -, -, -, hpeer⟩ := h.exists_peerStream hk hst hm rfl
    exact ⟨st', hpeer⟩
  · by_cases hquiet : ∀ f ∈ k.mux.endpoint.arrived, f.streamId = some st.streamId → f.isOpen = true
    · have hnothing := hserves.handed
      rw [carried_eq_nil hquiet] at hnothing
      exact .inl (List.prefix_nil.mp hnothing)
    · push Not at hquiet
      obtain ⟨f, hf, hid, -⟩ := hquiet
      obtain ⟨l, r', st', hfeeds, hother, hst', he, hpeer⟩ := h.exists_peerStream hk hst hf hid
      refine .inr ⟨st', hpeer, ?_⟩
      rw [(hother.serves r' st' hst').accepted, he]
      exact (hserves.handed.trans carried_prefix_carriedAll).sublist.trans
        (carriedAll_sublist hfeeds.2.2)
  · intro hd
    by_cases hclose : .close st.streamId ∈ k.mux.endpoint.arrived
    · obtain ⟨l, r', st', hfeeds, hother, hst', he, hpeer⟩ := h.exists_peerStream hk hst hclose rfl
      refine .inr ⟨st', hpeer, ?_⟩
      by_contra hn
      apply (hother.serves r' st' hst').unclosed (Bool.eq_false_of_not_eq_true hn)
      rw [he]
      exact hfeeds.2.2.subset hclose
    · exact .inl ((hserves.entry hd).trans (if_neg hclose))

/-- In every run in which no two sockets of one side share a connection id and no mux runs out of
stream ids, the streams of each visitor are its own. -/
theorem run_isolated (hserde : serde.Inverts) (haes : aes.Ideal)
    {moves : List (Move System SystemEvent)}
    (hrun : Run (System.step session serde aes sha256) (System.init session) moves s)
    (hcopes : ∀ move ∈ moves, move.before.copes move.event = true) : s.Isolated := by
  obtain ⟨ms, h⟩ := run_sound hserde haes hrun hcopes
  intro p k hk r st hst
  exact h.streamIsolated hk hst

/-! ## Two visitors of one node -/

def ofNode (name : String) : RuntimeConfig := ⟨none, name, none⟩

def visitorOf (service : String) : VisitorMapping := ⟨"node", service, "127.0.0.1:2222", none⟩

/-- The next message of one mux goes through the relay to another. -/
def carry (p q : ℕ) : List SystemEvent :=
  [.writeLoop ⟨p⟩, .forward ⟨p⟩ 0 [], .relay (.queue ⟨q⟩ .recv), .readLoop ⟨q⟩]

/-- A visitor opens its first stream. -/
def opens (p : ℕ) (visitor : VisitorMapping) : List SystemEvent :=
  [.call ⟨p⟩ (.openBegin (visitRequest visitor)), .call ⟨p⟩ (.openFinish 1 (visitRequest visitor))]

def streamAt (s : System) (p : ℕ) (r : StreamRef) : Option VirtualStream :=
  (s.socket ⟨p⟩).bind fun k => k.mux.endpoint.stream r

def entryAt (s : System) (p : ℕ) (i : UInt32) : Option StreamRef :=
  (s.socket ⟨p⟩).bind fun k => k.mux.endpoint.streams.get i

def sentAt (s : System) (p : ℕ) : Option (List MuxFrame) :=
  (s.socket ⟨p⟩).map fun k => k.mux.endpoint.sent

def run (events : List SystemEvent) : System :=
  outcome (System.step nodeSession .plain namedCipher id) (System.init nodeSession) events

/-- The visitors of two processes use a service each. The one of `a` writes and is answered. -/
def twoProcesses : List SystemEvent :=
  [.relay (.session (.register (nodeControl 0)) []),
    .visit (ofNode "a") (visitorOf "ssh") 1 0 [], .serve (ofNode "node") "access-a-to-node" 3 [],
    .visit (ofNode "b") (visitorOf "web") 2 0 [], .serve (ofNode "node") "access-b-to-node" 4 []] ++
  opens 1 (visitorOf "ssh") ++ carry 1 3 ++ opens 2 (visitorOf "web") ++ carry 2 4 ++
  .call ⟨1⟩ (.pollWrite 0 [7]) :: carry 1 3 ++
  [.call ⟨3⟩ (.pollRead 0 ⟨true⟩ ⟨4, []⟩), .call ⟨3⟩ (.pollWrite 0 [8])] ++ carry 3 1 ++
  [.call ⟨1⟩ (.pollRead 0 ⟨true⟩ ⟨4, []⟩)]

theorem run_isolated_of_twoProcesses : (run twoProcesses).Isolated ∧
    ((run twoProcesses).streamAt 3 0).map VirtualStream.handed = some [7] ∧
    ((run twoProcesses).streamAt 1 0).map VirtualStream.handed = some [8] := by
  have hplay : (play (System.step nodeSession .plain namedCipher id) (System.init nodeSession)
      twoProcesses).isSome = true := by
    decide +kernel
  have hcopes : ∀ move ∈ history (System.step nodeSession .plain namedCipher id)
      (System.init nodeSession) twoProcesses, move.before.copes move.event = true := by
    decide +kernel
  refine ⟨run_isolated SerdeSlice.plain_inverts namedCipher_ideal (Run.of_outcome hplay) hcopes, ?_⟩
  decide +kernel

theorem not_isolated {r r' : StreamRef} (hne : r ≠ r') {i : UInt32} {p : ℕ}
    (hr : (s.streamAt p r).map VirtualStream.streamId = some i)
    (hr' : (s.streamAt p r').map VirtualStream.streamId = some i) : ¬ s.Isolated := by
  intro h
  obtain ⟨st, hst, hid⟩ := Option.map_eq_some_iff.mp hr
  obtain ⟨st', hst', hid'⟩ := Option.map_eq_some_iff.mp hr'
  obtain ⟨k, hk, hst⟩ := Option.bind_eq_some_iff.mp hst
  rw [streamAt, hk, Option.bind_some] at hst'
  exact hne ((h _ k hk r' st' hst').unique r st hst (hid.trans hid'.symm))

/-- Two mappings of the process `laptop` lead to one node. The first visitor has opened a
stream. -/
def sshOpened : List SystemEvent :=
  [.relay (.session (.register (nodeControl 0)) []),
    .visit (ofNode "laptop") (visitorOf "ssh") 1 0 [],
    .visit (ofNode "laptop") (visitorOf "web") 2 0 [],
    .serve (ofNode "node") "access-laptop-to-node" 3 []] ++ opens 1 (visitorOf "ssh") ++ carry 1 3

def webOpened : List SystemEvent := sshOpened ++ opens 2 (visitorOf "web") ++ carry 2 3

/-- The first visitor writes, and the second visitor's stream is read at the node. -/
def sshWritten : List SystemEvent :=
  webOpened ++ .call ⟨1⟩ (.pollWrite 0 [7]) :: carry 1 3 ++ [.call ⟨3⟩ (.pollRead 1 ⟨true⟩ ⟨4, []⟩)]

/-- The second visitor's Open replaces the stream of the first at the node, which has not been
closed, and the byte of the first visitor comes out of the stream of the second. -/
theorem streams_mixed_of_sshWritten :
    (∃ moves, Run (System.step nodeSession .plain namedCipher id) (System.init nodeSession) moves
      (run sshWritten)) ∧
    ¬ (run sshWritten).Isolated ∧
    ((run sshOpened).entryAt 3 1 = some 0 ∧ (run sshOpened).streamAt 3 1 = none) ∧
    ((run webOpened).entryAt 3 1 = some 1 ∧ ((run webOpened).streamAt 3 0).map
      VirtualStream.dropped = some false) ∧
    ((run sshWritten).sentAt 1 = some [.openStream 1 (.visit "ssh" none), .data 1 [7]] ∧
      (run sshWritten).sentAt 2 = some [.openStream 1 (.visit "web" none)] ∧
      ((run sshWritten).streamAt 3 1).map VirtualStream.handed = some [7]) := by
  have hplay : (play (System.step nodeSession .plain namedCipher id) (System.init nodeSession)
      sshWritten).isSome = true := by
    decide +kernel
  have hmixed : ¬ (run sshWritten).Isolated := by
    apply @not_isolated _ 0 1 Nat.zero_ne_one 1 3
    · decide +kernel
    · decide +kernel
  refine ⟨⟨_, Run.of_outcome hplay⟩, hmixed, ?_⟩
  decide +kernel

end System

end NodeAccess.Access
