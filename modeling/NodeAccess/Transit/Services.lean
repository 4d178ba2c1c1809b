import NodeAccess.Nodes.Answers
import NodeAccess.Nodes.Proxied
import NodeAccess.Transit.Deployed

/-! # Binds and SOCKS over the relay

What a node hears about its Binds and what a SOCKS tunnel hands on does not depend on what waits at
the relay, except that an answer may be there.
-/

namespace NodeAccess.Nodes.Tools

open Foundation Crypto Mux Serve Tunnel

theorem Proxies.of_ahead {earlier : ℕ → Side → List (List UInt8)} {t : Tools} {conn source id : ℕ}
    {pipe : Pipe} (h : (t.ahead earlier).Proxies conn pipe source id) :
    t.Proxies conn pipe source id where
  asked := h.asked
  target := h.target
  request := h.request
  written := h.written
  answered := h.answered
  only ks f other hother := h.only ks f other hother.ahead
  answersOnly ks f other hother := h.answersOnly ks f other hother.ahead

end NodeAccess.Nodes.Tools

namespace NodeAccess.Transit.Deployed

open Foundation Relay Mux Serve Tunnel Nodes
open Crypto (FrameCrypto AesGcm namedCipher namedCipher_ideal)

variable {conns : DataConnections} {session : RelaySession} {serde : SerdeSlice} {aes : AesGcm}
  {mappings : ℕ → List TcpMapping} {locals : Table String TcpMapping} {crypto : ℕ → Side →
    Option FrameCrypto}
  {d : Deployed} {conn : ℕ}

/-- Every pipe that `serve_socks5` makes is transparent after the request, over the relay too. -/
theorem run_proxiesOver (hserde : serde.Inverts) (haes : aes.Ideal)
    {ms : List (Move Deployed DeployedEvent)}
    (hrun : Run (step conns session serde aes mappings) (start session crypto locals) ms d)
    (hu : ∀ m ∈ ms, conns.Undisturbed m) (hbound : d.tools.net.Bounded) {k : ℕ} {pipe : Pipe}
    {ref : StreamRef} (hk : d.tools.net.pipes[k]? = some pipe)
    (hend : pipe.source .forth = .stream conn .even ref)
    (hh : Handed d.tools.net conn .even .socks ref) :
    ∃ source id, d.tools.Proxies conn pipe source id := by
  have hdirect := run_asConnected hrun hu
  obtain ⟨source, id, hproxies⟩ := Tools.run_proxies hserde haes hdirect hbound hk hend hh
  exact ⟨source, id, hproxies.of_ahead⟩

def socksVisitedOver : List DeployedEvent :=
  [nodeClient 1 "a", nodeData 2 "a"].map
    (fun peerMeta => .relay (.session (.register peerMeta) [])) ++
    Tools.socksVisited.flatMap brought

def socksOver : Deployed :=
  outcome (step twoConnections nodeSession .plain namedCipher fun _ => [])
    (start nodeSession (fun _ _ => none) ∅)
    socksVisitedOver

def socksOverMoves : List (Move Deployed DeployedEvent) :=
  history (step twoConnections nodeSession .plain namedCipher fun _ => [])
    (start nodeSession (fun _ _ => none) ∅)
    socksVisitedOver

theorem run_socksOver : Run (step twoConnections nodeSession .plain namedCipher fun _ => [])
    (start nodeSession (fun _ _ => none) ∅) socksOverMoves socksOver := by
  have hplay : (play (step twoConnections nodeSession .plain namedCipher fun _ => [])
      (start nodeSession (fun _ _ => none) ∅) socksVisitedOver).isSome = true := by
    decide +kernel
  exact Run.of_outcome hplay

theorem run_proxiesOver_of_socksVisitedOver : socksOver.tools.net.written (.socket 1) = [104, 105] ∧
    ∃ pipe source far, socksOver.tools.net.pipes[1]? = some pipe ∧
      socksOver.tools.Proxies 0 pipe source far := by
  have htidy : socksOverMoves.all (tidy twoConnections) = true := by decide +kernel
  have hu : ∀ m ∈ socksOverMoves, twoConnections.Undisturbed m :=
    fun m hm => undisturbed_of_tidy (List.all_eq_true.mp htidy m hm)
  have hbound : socksOver.tools.net.Bounded := run_bounded run_socksOver hu (by decide +kernel)
  have hwritten : socksOver.tools.net.written (.socket 1) = [104, 105] := by decide +kernel
  have hpipe :
      (socksOver.tools.net.pipes[1]?).any (fun pipe => pipe.source .forth = .stream 0 .even 0) =
        true := by
    decide +kernel
  have hhanded :
      (.socks, 0) ∈ ((socksOver.tools.net.pair 0).mux .even).incoming := by decide +kernel
  obtain ⟨pipe, hk, hend⟩ := (Option.any_eq_true _ _).mp hpipe
  obtain ⟨source, far, hproxies⟩ :=
    run_proxiesOver SerdeSlice.plain_inverts namedCipher_ideal run_socksOver hu hbound hk
    (of_decide_eq_true hend) hhanded
  exact ⟨hwritten, pipe, source, far, hk, hproxies⟩

/-- What a providing node hears over the relay about its Binds. All Binds that it has sent are
answered when the relay has delivered everything. -/
structure Informed (conns : DataConnections) (d : Deployed) (locals : Table String TcpMapping)
    (mappings : ℕ → List TcpMapping) (conn : ℕ) : Prop where
  names : (((d.tools.net.pair conn).mux .odd).control.map ackedName) <+:
    (mappings conn).map fun mapping => some mapping.name
  reaches : ∀ name error, .bindAck name true error ∈ ((d.tools.net.pair conn).mux .odd).control →
    (d.tools.node.task conn).isSome = true → locals.get name = none →
      ∃ mapping ∈ mappings conn, mapping.name = name ∧
        ∀ presented, Reaches d.tools.node.state conn name mapping.auth presented
  whole : ∀ line, conns.lines[conn]? = some line → (∀ side, d.Delivered line conn side) →
    d.tools.handled conn = ((d.tools.net.pair conn).mux .even).control.length →
    (∀ side, (d.tools.net.pair conn).Drained side) →
      (((d.tools.net.pair conn).mux .odd).control.map ackedName) =
        ((mappings conn).take (d.tools.bound conn)).map fun mapping => some mapping.name

end NodeAccess.Transit.Deployed
