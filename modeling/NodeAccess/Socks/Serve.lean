import NodeAccess.Foundation.Bytes
import NodeAccess.Socks.ExactRead

/-! # The SOCKS5 server

The handshake is a chain of exact reads: greeting, methods, request, address and port. The target
that it dials is a text, an address in its usual notation and a port.
-/

namespace NodeAccess.Socks

open Foundation Mux

/-! ## Addresses as texts -/

def ipv4ToString (octets : List UInt8) : String := String.intercalate "." (octets.map toString)

/-- The 16-bit groups of an address. -/
def segments : List UInt8 → List ℕ
  | high :: low :: rest => fromBeBytes [high, low] :: segments rest
  | _ => []

structure Span where
  start : ℕ
  len : ℕ
deriving DecidableEq, Repr

/-- The longest run of zero groups, the first of them if there are several. -/
def longestZeroes (i : ℕ) (current longest : Span) : List ℕ → Span
  | [] => longest
  | segment :: rest =>
    if segment = 0 then
      let current : Span := if current.len = 0 then ⟨i, 1⟩ else ⟨current.start, current.len + 1⟩
      longestZeroes (i + 1) current (if longest.len < current.len then current else longest) rest
    else longestZeroes (i + 1) ⟨0, 0⟩ longest rest

def fmtSubslice (chunk : List ℕ) : String :=
  String.intercalate ":" (chunk.map fun segment => String.ofList (Nat.toDigits 16 segment))

def ipv6ToString (octets : List UInt8) : String :=
  if octets.take 12 = [0, 0, 0, 0, 0, 0, 0, 0, 0, 0, 0xff, 0xff] then
    "::ffff:" ++ ipv4ToString (octets.drop 12)
  else
    let segments := segments octets
    let zeroes := longestZeroes 0 ⟨0, 0⟩ ⟨0, 0⟩ segments
    if 1 < zeroes.len then
      fmtSubslice (segments.take zeroes.start) ++ "::" ++
        fmtSubslice (segments.drop (zeroes.start + zeroes.len))
    else fmtSubslice segments

example :
    ipv6ToString [0x20, 0x01, 0x0d, 0xb8, 0, 0, 0, 0, 0, 0, 0, 0, 0, 0, 0, 0x1f] =
      "2001:db8::1f" := by
  decide +kernel

/-! ## The handshake -/

def sendReply (code : UInt8) (next : Task) : Task :=
  .writeAll [0x05, code, 0x00, 0x01, 0, 0, 0, 0, 0, 0] next

/-- The port, the connection and the copy. -/
def connectRemote (host : String) : Task :=
  .readExact 2 fun portBytes =>
  let port := fromBeBytes portBytes
  let target := host ++ ":" ++ toString port
  .connect target fun connected =>
  if connected then sendReply 0x00 .copyBidirectional
  else sendReply 0x05 (.finished (.error ("failed to connect " ++ target)))

def readHost (atyp : UInt8) : Task :=
  if atyp = 0x01 then
    .readExact 4 fun addr => connectRemote (ipv4ToString addr)
  else if atyp = 0x03 then
    .readExact 1 fun len =>
    .readExact (len.getD 0 0).toNat fun name =>
    match fromUtf8 name with
    | some host => connectRemote host
    | none => .finished (.error "domain name is not utf-8")
  else if atyp = 0x04 then
    .readExact 16 fun addr => connectRemote (ipv6ToString addr)
  else sendReply 0x08 (.finished (.error ("unsupported socks address type " ++ toString atyp)))

def serveSocks5 : Task :=
  .readExact 2 fun head =>
  if head.getD 0 0 ≠ 0x05 then
    .finished (.error ("unsupported socks version " ++ toString (head.getD 0 0)))
  else
    .readExact (head.getD 1 0).toNat fun _methods =>
    .writeAll [0x05, 0x00] <|
    .readExact 4 fun req =>
    if req.getD 0 0 ≠ 0x05 then
      .finished (.error ("unsupported socks request version " ++ toString (req.getD 0 0)))
    else if req.getD 1 0 ≠ 0x01 then
      sendReply 0x07 (.finished (.error "only socks CONNECT is supported"))
    else readHost (req.getD 3 0)

/-! ## Fragmentation -/

/-- In a fed run the server shows nothing but what it shows when the whole stream is there before
the first poll, and it can read on, fed, until it has shown all of it. -/
theorem served_as_whole {dial : String → Bool} {payloads : List (List UInt8)}
    (hnonempty : ∀ payload ∈ payloads, payload ≠ []) {ms : List (Move Tunnel TunnelEvent)}
    {t : Tunnel} (hrun : Run (Tunnel.step dial) (Tunnel.init dial serveSocks5 payloads) ms t)
    (hfed : ∀ m ∈ ms, Fed m) :
    (∃ ms' r, Run (Tunnel.step dial) (Tunnel.whole dial serveSocks5 payloads.flatten) ms' r ∧
      r.Complete) ∧
    (∀ ms' r, Run (Tunnel.step dial) (Tunnel.whole dial serveSocks5 payloads.flatten) ms' r →
      r.Complete → t.observed.Within r.observed ∧ (t.Complete → t.observed = r.observed)) ∧
    ∃ ms' t', Run (Tunnel.step dial) t ms' t' ∧ (∀ m ∈ ms', Fed m) ∧ t'.Complete := by
  have hsound := Tunnel.sound_of_fed hnonempty hrun hfed
  have hreads : (serveSocks5.settle dial).1 ≠ .copyBidirectional := fun h => by cases h
  have hwhole : Tunnel.Sound dial (serveSocks5.runOn dial payloads.flatten)
      (Tunnel.whole dial serveSocks5 payloads.flatten) := Tunnel.sound_of_whole hreads .nil
  refine ⟨?_, ?_, hsound.completes⟩
  · obtain ⟨ms', r, hr, -, hcomplete⟩ := hwhole.completes
    exact ⟨ms', r, hr, hcomplete⟩
  · intro ms' r hr hcomplete
    have hreference := (Tunnel.sound_of_whole hreads hr).observed_eq hcomplete
    rw [hreference]
    exact ⟨hsound.within, hsound.observed_eq⟩

/-- A request for port 80 of the host "a", with one byte for it. -/
def splitGreeting : List (List UInt8) :=
  [[0x05], [0x01, 0x00, 0x05, 0x01, 0x00, 0x03], [0x01, 0x61, 0x00, 0x50, 0x68]]

/-- The second frame is there before the first poll, which has no budget, and the third comes after
an empty poll. -/
def latePolls : List TunnelEvent :=
  [.arrive, .arrive, .poll ⟨false⟩, .poll ⟨true⟩, .poll ⟨true⟩, .poll ⟨true⟩, .poll ⟨true⟩,
    .poll ⟨true⟩, .arrive, .poll ⟨true⟩, .poll ⟨true⟩, .poll ⟨true⟩, .pollCopy ⟨true⟩ ⟨8192, []⟩]

def splitGreetingObserved : Observed :=
  ⟨[[0x05, 0x00], [0x05, 0x00, 0x00, 0x01, 0, 0, 0, 0, 0, 0]], ["a:80"], [0x68]⟩

theorem served_as_whole_of_latePolls :
    let t := outcome (Tunnel.step fun _ => true) (.init (fun _ => true) serveSocks5 splitGreeting)
        latePolls
    t.observed = splitGreetingObserved ∧
      ∀ ms' r, Run (Tunnel.step fun _ => true)
        (.whole (fun _ => true) serveSocks5 splitGreeting.flatten) ms' r →
        r.Complete → t.observed = r.observed := by
  have hplay : (play (Tunnel.step fun _ => true) (.init (fun _ => true) serveSocks5 splitGreeting)
      latePolls).isSome = true := by decide +kernel
  have hfed :
      ∀ m ∈ history (Tunnel.step fun _ => true) (.init (fun _ => true) serveSocks5 splitGreeting)
      latePolls, Fed m := by decide +kernel
  have hserved := (served_as_whole (by decide) (Run.of_outcome hplay) hfed).2.1
  constructor
  · decide +kernel
  · intro ms' r hr hcomplete
    apply (hserved ms' r hr hcomplete).2
    exact Or.inr (by decide +kernel)

/-- The task polls again before the second frame is there, takes the half of the greeting for the
end of the stream, and gives up. -/
theorem given_up_of_earlyPoll :
    ¬ ∀ (dial : String → Bool) (payloads : List (List UInt8)),
      (∀ payload ∈ payloads, payload ≠ []) →
      ∀ ms t, Run (Tunnel.step dial) (Tunnel.init dial serveSocks5 payloads) ms t → t.Complete →
      ∀ ms' r, Run (Tunnel.step dial) (Tunnel.whole dial serveSocks5 payloads.flatten) ms' r →
        r.Complete →
        t.observed = r.observed := by
  intro h
  have hplay : (play (Tunnel.step fun _ => true) (.init (fun _ => true) serveSocks5 splitGreeting)
      [.arrive, .poll ⟨true⟩, .poll ⟨true⟩]).isSome = true := by decide +kernel
  have hwhole :
      (play (Tunnel.step fun _ => true) (.whole (fun _ => true) serveSocks5 splitGreeting.flatten)
      [.poll ⟨true⟩, .poll ⟨true⟩, .poll ⟨true⟩, .poll ⟨true⟩, .poll ⟨true⟩, .poll ⟨true⟩,
        .pollCopy ⟨true⟩ ⟨8192, []⟩]).isSome = true := by decide +kernel
  have hobserved := h (fun _ => true) splitGreeting (by decide) _ _ (Run.of_outcome hplay)
    (Or.inl ⟨.error "early eof", rfl⟩) _ _ (Run.of_outcome hwhole) (Or.inr (by decide +kernel))
  revert hobserved
  decide +kernel

end NodeAccess.Socks
