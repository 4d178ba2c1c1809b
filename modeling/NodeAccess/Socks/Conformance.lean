import NodeAccess.Socks.Serve

/-! # The SOCKS5 handshake on the wire

A client sends a greeting that offers methods and then a request. What the server shows on a stream
that begins with both is compared with the protocol.
-/

namespace NodeAccess.Socks

open Foundation

/-! ## What a client sends -/

structure Greeting where
  methods : List UInt8
  short : methods.length < 256

def Greeting.encode (greeting : Greeting) : List UInt8 :=
  0x05 :: UInt8.ofNat greeting.methods.length :: greeting.methods

/-- An address of a type that the protocol has, or another address type. -/
inductive Address where
  | ipv4 (octets : Vector UInt8 4)
  | domain (name : List UInt8) (short : name.length < 256)
  | ipv6 (octets : Vector UInt8 16)
  | other (atyp : UInt8) (unknown : atyp ≠ 0x01 ∧ atyp ≠ 0x03 ∧ atyp ≠ 0x04)

def Address.atyp : Address → UInt8
  | .ipv4 _ => 0x01
  | .domain _ _ => 0x03
  | .ipv6 _ => 0x04
  | .other atyp _ => atyp

/-- The address and the port. Nothing is known of what follows an unknown type. -/
def Address.encode (port : UInt16) : Address → List UInt8
  | .ipv4 octets => octets.toList ++ toBeBytes 2 port.toNat
  | .domain name _ => UInt8.ofNat name.length :: (name ++ toBeBytes 2 port.toNat)
  | .ipv6 octets => octets.toList ++ toBeBytes 2 port.toNat
  | .other _ _ => []

/-- The address in its usual notation, if it can be decoded. -/
def Address.host : Address → Option String
  | .ipv4 octets => some (ipv4ToString octets.toList)
  | .domain name _ => fromUtf8 name
  | .ipv6 octets => some (ipv6ToString octets.toList)
  | .other _ _ => none

structure Request where
  command : UInt8
  reserved : UInt8
  address : Address
  port : UInt16

namespace Request

def encode (request : Request) : List UInt8 :=
  [0x05, request.command, request.reserved, request.address.atyp] ++
    request.address.encode request.port

/-- What a CONNECT request asks the server to dial. -/
def target (request : Request) : Option String :=
  if request.command = 0x01 then
    request.address.host.map fun host => host ++ ":" ++ toString request.port.toNat
  else none

end Request

def requestReply (code : UInt8) : List UInt8 := [0x05, code, 0x00, 0x01, 0, 0, 0, 0, 0, 0]

/-! ## What the protocol asks for -/

/-- A target has been dialled with success. -/
def Observed.Connected (dial : String → Bool) (o : Observed) : Prop :=
  ∃ target ∈ o.dialled, dial target = true

structure Conforms (dial : String → Bool) (greeting : Greeting) (request : Request)
    (rest : List UInt8) (o : Observed) : Prop where
  replies : ∃ method codes, o.replies = [0x05, method] :: codes.map requestReply ∧
    (method = 0x00 → 0x00 ∈ greeting.methods ∧
      ∃ code, codes = [code] ∧ (code = 0x00 ↔ o.Connected dial))
  dialled : ∀ target ∈ o.dialled, request.target = some target
  relayed : o.Connected dial → o.forwarded = rest
  refused : ¬ o.Connected dial → o.forwarded = []

/-! ## What the server shows -/

/-- The part of the exchange that follows the method reply. -/
def served (dial : String → Bool) (request : Request) (rest : List UInt8) : Observed :=
  if request.command ≠ 0x01 then ⟨[requestReply 0x07], [], []⟩
  else
    match request.target, request.address with
    | some target, _ =>
      if dial target then ⟨[requestReply 0x00], [target], rest⟩
        else ⟨[requestReply 0x05], [target], []⟩
    | none, .other _ _ => ⟨[requestReply 0x08], [], []⟩
    | none, _ => .none

variable {dial : String → Bool}

theorem runOn_readExact {part : List UInt8} {n : ℕ} (h : part.length = n) (next : List UInt8 → Task)
    (bytes : List UInt8) :
    (Task.readExact n next).runOn dial (part ++ bytes) = (next part).runOn dial bytes := by
  rw [Task.runOn, if_pos (by rw [List.length_append]; omega), List.take_left' h, List.drop_left' h]

theorem runOn_sendReply (code : UInt8) (next : Task) (bytes : List UInt8) :
    (sendReply code next).runOn dial bytes =
      Observed.append ⟨[requestReply code], [], []⟩ (next.runOn dial bytes) := rfl

theorem runOn_connectRemote (host : String) (port : UInt16) (rest : List UInt8) :
    (connectRemote host).runOn dial (toBeBytes 2 port.toNat ++ rest) =
      if dial (host ++ ":" ++ toString port.toNat) then
        ⟨[requestReply 0x00], [host ++ ":" ++ toString port.toNat], rest⟩
      else ⟨[requestReply 0x05], [host ++ ":" ++ toString port.toNat], []⟩ := by
  have hport : fromBeBytes (toBeBytes 2 port.toNat) = port.toNat :=
    fromBeBytes_toBeBytes port.toNat_lt
  rw [connectRemote, runOn_readExact (length_toBeBytes 2 _)]
  simp only [hport, Task.runOn]
  split_ifs
  · rfl
  · rfl

theorem toNat_ofNat_length {l : List UInt8} (h : l.length < 256) :
    (UInt8.ofNat l.length).toNat = l.length :=
  UInt8.toNat_ofNat_of_lt' h

theorem runOn_readHost {request : Request} (hcommand : request.command = 0x01) (rest : List UInt8) :
    (readHost request.address.atyp).runOn dial (request.address.encode request.port ++ rest) =
      served dial request rest := by
  have htarget : request.target =
      request.address.host.map fun host => host ++ ":" ++ toString request.port.toNat :=
        if_pos hcommand
  simp only [served, hcommand, ne_eq, not_true_eq_false, if_false, htarget]
  cases request.address with
  | ipv4 octets =>
    change (Task.readExact 4 fun addr => connectRemote (ipv4ToString addr)).runOn dial
      (octets.toList ++ toBeBytes 2 request.port.toNat ++ rest) = _
    rw [List.append_assoc, runOn_readExact octets.length_toList, runOn_connectRemote]
    rfl
  | domain name short =>
    have hlen : (([UInt8.ofNat name.length] : List UInt8).getD 0 0).toNat = name.length :=
      toNat_ofNat_length short
    change (readHost 0x03).runOn dial
        ([UInt8.ofNat name.length] ++ (name ++ toBeBytes 2 request.port.toNat ++ rest)) = _
    rw [readHost, if_neg (by decide), if_pos rfl]
    have hone : ([UInt8.ofNat name.length] : List UInt8).length = 1 := rfl
    rw [runOn_readExact hone, hlen, List.append_assoc, runOn_readExact rfl, Address.host]
    cases fromUtf8 name with
    | none => rfl
    | some host => exact runOn_connectRemote host request.port rest
  | ipv6 octets =>
    change (Task.readExact 16 fun addr => connectRemote (ipv6ToString addr)).runOn dial
      (octets.toList ++ toBeBytes 2 request.port.toNat ++ rest) = _
    rw [List.append_assoc, runOn_readExact octets.length_toList, runOn_connectRemote]
    rfl
  | other atyp unknown =>
    rw [Address.atyp, readHost, if_neg unknown.1, if_neg unknown.2.1, if_neg unknown.2.2,
      runOn_sendReply, Task.runOn, Observed.append_none]
    rfl

theorem runOn_serveSocks5 (greeting : Greeting) (request : Request) (rest : List UInt8) :
    serveSocks5.runOn dial (greeting.encode ++ request.encode ++ rest) =
      Observed.append ⟨[[0x05, 0x00]], [], []⟩ (served dial request rest) := by
  have hlen : (([0x05, UInt8.ofNat greeting.methods.length] : List UInt8).getD 1 0).toNat =
      greeting.methods.length := toNat_ofNat_length greeting.short
  have hbytes : greeting.encode ++ request.encode ++ rest =
      [0x05, UInt8.ofNat greeting.methods.length] ++ (greeting.methods ++
        ([0x05, request.command, request.reserved, request.address.atyp] ++
          (request.address.encode request.port ++ rest))) := by
    simp [Greeting.encode, Request.encode]
  have hhead : ([0x05, UInt8.ofNat greeting.methods.length] : List UInt8).length = 2 := rfl
  have hreq : [0x05, request.command, request.reserved, request.address.atyp].length = 4 := rfl
  rw [hbytes, serveSocks5, runOn_readExact hhead, if_neg (by simp), hlen, runOn_readExact rfl,
    Task.runOn, runOn_readExact hreq, if_neg (by simp)]
  congr 1
  by_cases hcommand : request.command = 0x01
  · rw [if_neg (by simpa using hcommand)]
    exact runOn_readHost hcommand rest
  · rw [if_pos (by simpa using hcommand), runOn_sendReply, served, if_pos hcommand]
    rfl

/-! ## When the exchange conforms -/

/-- Unless its command is another one, the request does not name a host in other
bytes than UTF-8. -/
def Request.Decodable (request : Request) : Prop :=
  request.command = 0x01 → ∀ name short, request.address = .domain name short → fromUtf8 name ≠ none

theorem served_cases (dial : String → Bool) (request : Request) (rest : List UInt8) :
    (∃ target, request.target = some target ∧ dial target = true ∧
        served dial request rest = ⟨[requestReply 0x00], [target], rest⟩) ∨
      (∃ target, request.target = some target ∧ dial target = false ∧
        served dial request rest = ⟨[requestReply 0x05], [target], []⟩) ∨
      (∃ code, code ≠ 0x00 ∧ request.Decodable ∧
        served dial request rest = ⟨[requestReply code], [], []⟩) ∨
      (¬ request.Decodable ∧ served dial request rest = .none) := by
  by_cases hcommand : request.command = 0x01
  · have htarget : request.target =
        request.address.host.map fun host => host ++ ":" ++ toString request.port.toNat :=
          if_pos hcommand
    have hdial : ∀ target, request.target = some target → served dial request rest =
        if dial target then ⟨[requestReply 0x00], [target], rest⟩
        else ⟨[requestReply 0x05], [target], []⟩ := by
      intro target ht
      simp only [served, hcommand, ne_eq, not_true_eq_false, if_false, ht]
    cases ht : request.target with
    | some target =>
      rw [hdial target ht]
      cases hd : dial target with
      | true => exact .inl ⟨target, rfl, hd, rfl⟩
      | false => exact .inr (.inl ⟨target, rfl, hd, rfl⟩)
    | none =>
      right
      right
      rw [ht] at htarget
      simp only [served, hcommand, ne_eq, not_true_eq_false, if_false, ht]
      cases ha : request.address with
      | ipv4 octets => simp [ha, Address.host] at htarget
      | ipv6 octets => simp [ha, Address.host] at htarget
      | other atyp unknown =>
        left
        refine ⟨0x08, by decide, ?_, rfl⟩
        intro _ name short hd
        rw [ha] at hd
        cases hd
      | domain name short =>
        right
        refine ⟨?_, rfl⟩
        intro hdecodable
        apply hdecodable hcommand name short ha
        simpa [ha, Address.host] using htarget.symm
  · right
    right
    left
    refine ⟨0x07, by decide, fun h => absurd h hcommand, ?_⟩
    rw [served, if_pos hcommand]

theorem Request.decodable_of_target {request : Request} {target : String}
    (h : request.target = some target) : request.Decodable := by
  intro hcommand name short ha hnone
  rw [Request.target, if_pos hcommand, ha, Address.host, hnone] at h
  cases h

theorem Conforms.offered {greeting : Greeting} {request : Request} {rest : List UInt8}
    {o : Observed} (h : Conforms dial greeting request rest (.append ⟨[[0x05, 0x00]], [], []⟩ o)) :
    0x00 ∈ greeting.methods ∧ o.replies ≠ [] := by
  obtain ⟨method, codes, hreplies, hselected⟩ := h.replies
  change [0x05, 0x00] :: o.replies = _ at hreplies
  rw [List.cons.injEq] at hreplies
  obtain ⟨hmethod, hcodes⟩ := hreplies
  simp only [List.cons.injEq, and_true, true_and] at hmethod
  obtain ⟨hoffered, code, rfl, -⟩ := hselected hmethod.symm
  refine ⟨hoffered, ?_⟩
  rw [hcodes]
  exact List.cons_ne_nil _ _

theorem conforms_of_reply {greeting : Greeting} {request : Request} {rest : List UInt8}
    {o : Observed} {code : UInt8} (hoffered : 0x00 ∈ greeting.methods)
    (hreplies : o.replies = [requestReply code]) (hcode : code = 0x00 ↔ o.Connected dial)
    (hdialled : ∀ target ∈ o.dialled, request.target = some target)
    (hrelayed : o.Connected dial → o.forwarded = rest)
    (hrefused : ¬ o.Connected dial → o.forwarded = []) :
    Conforms dial greeting request rest (.append ⟨[[0x05, 0x00]], [], []⟩ o) where
  replies := by
    refine ⟨0x00, [code], ?_, fun _ => ⟨hoffered, code, rfl, hcode⟩⟩
    rw [Observed.append, hreplies]
    rfl
  dialled := hdialled
  relayed := hrelayed
  refused := hrefused

theorem connected_iff {o : Observed} {target : String} (h : o.dialled = [target]) :
    o.Connected dial ↔ dial target = true := by
  simp [Observed.Connected, h]

theorem not_connected {o : Observed} (h : o.dialled = []) : ¬ o.Connected dial := by
  simp [Observed.Connected, h]

/-- The exchange is as the protocol asks when the greeting offers the method that the server always
selects, and the request names no host that the server cannot decode. -/
theorem conforms_iff (dial : String → Bool) (greeting : Greeting) (request : Request)
    (rest : List UInt8) :
    Conforms dial greeting request rest
        (serveSocks5.runOn dial (greeting.encode ++ request.encode ++ rest)) ↔
      0x00 ∈ greeting.methods ∧ request.Decodable := by
  rw [runOn_serveSocks5]
  rcases served_cases dial request rest with ⟨target, ht, hd, hs⟩ | ⟨target, ht, hd, hs⟩ |
    ⟨code, hcode, hdecodable, hs⟩ | ⟨hundecodable, hs⟩ <;> rw [hs]
  · constructor
    · intro h
      exact ⟨h.offered.1, Request.decodable_of_target ht⟩
    · rintro ⟨hoffered, -⟩
      have hconnected : Observed.Connected dial ⟨[requestReply 0x00], [target], rest⟩ :=
        (connected_iff rfl).mpr hd
      apply conforms_of_reply hoffered rfl
      · exact ⟨fun _ => hconnected, fun _ => rfl⟩
      · simp [ht]
      · exact fun _ => rfl
      · exact fun h => absurd hconnected h
  · constructor
    · intro h
      exact ⟨h.offered.1, Request.decodable_of_target ht⟩
    · rintro ⟨hoffered, -⟩
      have hrefused : ¬ Observed.Connected dial ⟨[requestReply 0x05], [target], []⟩ := by
        rw [connected_iff rfl, hd]
        exact Bool.false_ne_true
      apply conforms_of_reply hoffered rfl
      · exact ⟨fun h => absurd h (by decide), fun h => absurd h hrefused⟩
      · simp [ht]
      · exact fun h => absurd h hrefused
      · exact fun _ => rfl
  · constructor
    · intro h
      exact ⟨h.offered.1, hdecodable⟩
    · rintro ⟨hoffered, -⟩
      have hrefused : ¬ Observed.Connected dial ⟨[requestReply code], [], []⟩ := not_connected rfl
      apply conforms_of_reply hoffered rfl
      · exact ⟨fun h => absurd h hcode, fun h => absurd h hrefused⟩
      · simp
      · exact fun h => absurd h hrefused
      · exact fun _ => rfl
  · constructor
    · intro h
      exact absurd rfl h.offered.2
    · rintro ⟨-, hdecodable⟩
      exact absurd hdecodable hundecodable

/-- A greeting that offers a user name and password only. -/
def passwordGreeting : Greeting := ⟨[0x02], by decide⟩

def openGreeting : Greeting := ⟨[0x00], by decide⟩

/-- A CONNECT request for a host whose name is the one byte ff. -/
def undecodableRequest : Request := ⟨0x01, 0x00, .domain [0xff] (by decide), 80⟩

/-- The method is selected without an offer, and the undecodable name gets no reply. -/
theorem not_conforms_of_passwordGreeting_and_of_undecodable :
    (¬ ∀ (dial : String → Bool) (greeting : Greeting) (request : Request) (rest : List UInt8),
      request.Decodable → Conforms dial greeting request rest
        (serveSocks5.runOn dial (greeting.encode ++ request.encode ++ rest))) ∧
    ¬ ∀ (dial : String → Bool) (greeting : Greeting) (request : Request) (rest : List UInt8),
      0x00 ∈ greeting.methods → Conforms dial greeting request rest
        (serveSocks5.runOn dial (greeting.encode ++ request.encode ++ rest)) := by
  constructor
  · intro h
    have hconforms := h (fun _ => true) passwordGreeting ⟨0x02, 0x00, .ipv4 #v[127, 0, 0, 1], 80⟩ []
      (fun hcommand => absurd hcommand (by decide))
    rw [runOn_serveSocks5] at hconforms
    exact absurd hconforms.offered.1 (by decide)
  · intro h
    have hconforms := h (fun _ => true) openGreeting undecodableRequest [] (by decide)
    rw [runOn_serveSocks5] at hconforms
    exact absurd (by decide +kernel) hconforms.offered.2

end NodeAccess.Socks
