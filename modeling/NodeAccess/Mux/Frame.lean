import NodeAccess.Crypto.FrameCrypto

/-! # Frames of the stream multiplexer

A frame is one binary websocket message: a type byte, a stream id and a payload. With a
secret the message is sealed and wrapped once more. What `write_loop` makes of a frame,
`read_loop` turns back into that frame.
-/

namespace NodeAccess.Mux

open Foundation Crypto FrameCrypto

inductive OpenRequest where
  | socks
  | visit (name : String) (auth : Option String)
  | providerConnect (name : String)
deriving DecidableEq, Repr

inductive ControlMessage where
  | bind (name : String) (auth : Option String)
  | bindAck (name : String) (ok : Bool) (error : Option String)
  | info (message : String)
deriving DecidableEq, Repr

inductive MuxFrame where
  | openStream (streamId : UInt32) (request : OpenRequest)
  | data (streamId : UInt32) (payload : List UInt8)
  | close (streamId : UInt32)
  | control (message : ControlMessage)
deriving DecidableEq, Repr

def frameOpen : UInt8 := 1

def frameData : UInt8 := 2

def frameClose : UInt8 := 3

def frameControl : UInt8 := 4

def frameEncrypted : UInt8 := 0xE1

/-- `serde_json::to_vec` and `from_slice` on the two types that travel as JSON. -/
structure SerdeSlice where
  requestToVec : OpenRequest → Except String (List UInt8)
  requestFromSlice : List UInt8 → Except String OpenRequest
  controlToVec : ControlMessage → Except String (List UInt8)
  controlFromSlice : List UInt8 → Except String ControlMessage

/-- Both types can be written, and are read back as they were. -/
structure SerdeSlice.Inverts (serde : SerdeSlice) : Prop where
  request : ∀ request, ∃ bytes, serde.requestToVec request = .ok bytes ∧
    serde.requestFromSlice bytes = .ok request
  control : ∀ message, ∃ bytes, serde.controlToVec message = .ok bytes ∧
    serde.controlFromSlice bytes = .ok message

variable (serde : SerdeSlice) (aes : AesGcm)

def frameHeader (kind : UInt8) (streamId : UInt32) : List UInt8 :=
  kind :: toBeBytes 4 streamId.toNat

def encodeFrame : MuxFrame → Except String (List UInt8)
  | .openStream streamId request => do
    let payload ← serde.requestToVec request
    return frameHeader frameOpen streamId ++ payload
  | .data streamId payload => .ok (frameHeader frameData streamId ++ payload)
  | .close streamId => .ok (frameHeader frameClose streamId)
  | .control message => do
    let payload ← serde.controlToVec message
    return frameHeader frameControl 0 ++ payload

def decodeFrame (bytes : List UInt8) : Except String MuxFrame :=
  if bytes.length < 5 then .error "frame too short"
  else
    let kind := bytes.headD 0
    let streamId := UInt32.ofNat (fromBeBytes ((bytes.drop 1).take 4))
    let payload := bytes.drop 5
    if kind = frameOpen then
      match serde.requestFromSlice payload with
      | .ok request => .ok (.openStream streamId request)
      | .error _ => .error "invalid open frame"
    else if kind = frameData then .ok (.data streamId payload)
    else if kind = frameClose then .ok (.close streamId)
    else if kind = frameControl then
      match serde.controlFromSlice payload with
      | .ok message => .ok (.control message)
      | .error _ => .error "invalid control frame"
    else .error ("unknown frame type " ++ toString kind.toNat)

/-- What one turn of `write_loop` does with a frame. -/
inductive WriteStep where
  | skip
  | stop
  | send (message : List UInt8)
deriving DecidableEq, Repr

def wrapSealed (counter : UInt64) (ciphertext : List UInt8) : List UInt8 :=
  frameEncrypted :: (toBeBytes 8 counter.toNat ++ ciphertext)

/-- A frame that cannot be encoded is skipped; one that cannot be sealed ends the loop. -/
def writeFrame (crypto : Option FrameCrypto) (frame : MuxFrame) : Option FrameCrypto × WriteStep :=
  match encodeFrame serde frame with
  | .error _ => (crypto, .skip)
  | .ok bytes =>
    match crypto with
    | none => (none, .send bytes)
    | some cipher =>
      let r := cipher.sealFrame aes bytes
      (some r.1, match r.2 with
        | some (counter, ciphertext) => .send (wrapSealed counter ciphertext)
        | none => .stop)

/-- What `read_loop` makes of a binary message; an error ends the loop. -/
def readFrame (crypto : Option FrameCrypto) (bytes : List UInt8) : Except String MuxFrame :=
  match crypto with
  | none => decodeFrame serde bytes
  | some cipher =>
    if bytes.head? ≠ some frameEncrypted ∨ bytes.length < 9 then
      .error "received unencrypted frame while --secret is configured"
    else
      match cipher.openFrame aes (UInt64.ofNat (fromBeBytes ((bytes.drop 1).take 8)))
        (bytes.drop 9) with
      | some plaintext => decodeFrame serde plaintext
      | none => .error "failed to decrypt mux frame"

/-- The cipher of a sender and the one of its receiver. -/
def Matched : Option FrameCrypto → Option FrameCrypto → Prop
  | none, none => True
  | some crypto, some other => crypto.Opposite other
  | _, _ => False

variable {serde aes}

theorem decodeFrame_header (kind : UInt8) (streamId : UInt32) (payload : List UInt8) :
    let bytes := frameHeader kind streamId ++ payload
    ¬ bytes.length < 5 ∧ bytes.headD 0 = kind ∧
      UInt32.ofNat (fromBeBytes ((bytes.drop 1).take 4)) = streamId ∧ bytes.drop 5 = payload := by
  have hlen := length_toBeBytes 4 streamId.toNat
  have hid : streamId.toNat < 256 ^ 4 := by simpa using streamId.toNat_lt
  refine ⟨?_, rfl, ?_, ?_⟩
  · simp [frameHeader]
  · change UInt32.ofNat (fromBeBytes ((toBeBytes 4 streamId.toNat ++ payload).take 4)) = streamId
    rw [List.take_append_of_le_length hlen.ge, List.take_of_length_le hlen.le,
      fromBeBytes_toBeBytes hid]
    exact UInt32.ofNat_toNat
  · exact List.drop_left' (by simp [frameHeader])

theorem decodeFrame_encodeFrame (hserde : serde.Inverts) (frame : MuxFrame) :
    ∃ bytes, encodeFrame serde frame = .ok bytes ∧ decodeFrame serde bytes = .ok frame := by
  cases frame with
  | openStream streamId request =>
    obtain ⟨payload, hto, hfrom⟩ := hserde.request request
    obtain ⟨hlen, hkind, hid, hrest⟩ := decodeFrame_header frameOpen streamId payload
    refine ⟨_, by rw [encodeFrame, hto]; rfl, ?_⟩
    rw [decodeFrame, if_neg hlen, hkind, hid, hrest, if_pos rfl, hfrom]
  | data streamId payload =>
    obtain ⟨hlen, hkind, hid, hrest⟩ := decodeFrame_header frameData streamId payload
    refine ⟨_, rfl, ?_⟩
    rw [decodeFrame, if_neg hlen, hkind, hid, hrest]
    rfl
  | close streamId =>
    obtain ⟨hlen, hkind, hid, -⟩ := decodeFrame_header frameClose streamId []
    rw [List.append_nil] at hlen hkind hid
    refine ⟨_, rfl, ?_⟩
    rw [decodeFrame, if_neg hlen, hkind, hid]
    rfl
  | control message =>
    obtain ⟨payload, hto, hfrom⟩ := hserde.control message
    obtain ⟨hlen, hkind, -, hrest⟩ := decodeFrame_header frameControl 0 payload
    refine ⟨_, by rw [encodeFrame, hto]; rfl, ?_⟩
    rw [decodeFrame, if_neg hlen, hkind, hrest]
    simp [frameControl, frameOpen, frameData, frameClose, hfrom]

theorem wrapSealed_parts (counter : UInt64) (ciphertext : List UInt8) :
    let bytes := wrapSealed counter ciphertext
    ¬ (bytes.head? ≠ some frameEncrypted ∨ bytes.length < 9) ∧
      UInt64.ofNat (fromBeBytes ((bytes.drop 1).take 8)) = counter ∧ bytes.drop 9 = ciphertext := by
  have hlen := length_toBeBytes 8 counter.toNat
  have hcounter : counter.toNat < 256 ^ 8 := by simpa using counter.toNat_lt
  refine ⟨?_, ?_, ?_⟩
  · simp [wrapSealed]
  · change UInt64.ofNat (fromBeBytes ((toBeBytes 8 counter.toNat ++ ciphertext).take 8)) = counter
    rw [List.take_append_of_le_length hlen.ge, List.take_of_length_le hlen.le,
      fromBeBytes_toBeBytes hcounter]
    exact UInt64.ofNat_toNat
  · exact List.drop_left' hlen

theorem writeFrame_ne_skip (hserde : serde.Inverts) (crypto : Option FrameCrypto)
    (frame : MuxFrame) :
    (writeFrame serde aes crypto frame).2 ≠ .skip := by
  obtain ⟨bytes, hencode, -⟩ := decodeFrame_encodeFrame hserde frame
  cases crypto with
  | none => simp [writeFrame, hencode]
  | some cipher =>
    simp only [writeFrame, hencode]
    cases (cipher.sealFrame aes bytes).2 <;> simp

theorem readFrame_writeFrame (hserde : serde.Inverts) (haes : aes.Inverts)
    {crypto other : Option FrameCrypto} (hmatch : Matched crypto other) {frame : MuxFrame}
    {message : List UInt8} (hm : (writeFrame serde aes crypto frame).2 = .send message) :
    readFrame serde aes other message = .ok frame := by
  obtain ⟨bytes, hencode, hdecode⟩ := decodeFrame_encodeFrame hserde frame
  cases crypto with
  | none =>
    cases other with
    | some cipher => cases hmatch
    | none =>
      obtain rfl : bytes = message := by simpa [writeFrame, hencode] using hm
      exact hdecode
  | some cipher =>
    cases other with
    | none => cases hmatch
    | some cipher' =>
      have hopposite : cipher.Opposite cipher' := hmatch
      simp only [writeFrame, hencode] at hm
      cases hs : (cipher.sealFrame aes bytes).2 with
      | none => simp [hs] at hm
      | some sealed =>
        obtain ⟨counter, ciphertext⟩ := sealed
        obtain rfl : wrapSealed counter ciphertext = message := by simpa [hs] using hm
        obtain ⟨hhead, hcounter, hrest⟩ := wrapSealed_parts counter ciphertext
        rw [readFrame, if_neg hhead, hcounter, hrest, openFrame_of_opposite haes hs hopposite]
        exact hdecode

/-! ## Ends with different settings -/

/-- A message that is read as the frame, or, where the secrets differ, not at all. -/
structure Reads (serde : SerdeSlice) (aes : AesGcm) (crypto other : Option FrameCrypto)
    (message : List UInt8) (frame : MuxFrame) : Prop where
  reads : Matched crypto other → readFrame serde aes other message = .ok frame
  faithful : ∀ g, readFrame serde aes other message = .ok g → g = frame

theorem encodeFrame_head (frame : MuxFrame) {bytes : List UInt8}
    (h : encodeFrame serde frame = .ok bytes) :
    bytes.head? ≠ some frameEncrypted := by
  cases frame with
  | openStream streamId request =>
    cases hp : serde.requestToVec request with
    | error e => simp [encodeFrame, hp, bind, Except.bind] at h
    | ok payload =>
      obtain rfl : frameHeader frameOpen streamId ++ payload = bytes := by
        simpa [encodeFrame, hp, bind, Except.bind, pure, Except.pure] using h
      simp [frameHeader, frameOpen, frameEncrypted]
  | data streamId payload =>
    obtain rfl := Except.ok.inj h
    simp [frameHeader, frameData, frameEncrypted]
  | close streamId =>
    obtain rfl := Except.ok.inj h
    simp [frameHeader, frameClose, frameEncrypted]
  | control message =>
    cases hp : serde.controlToVec message with
    | error e => simp [encodeFrame, hp, bind, Except.bind] at h
    | ok payload =>
      obtain rfl : frameHeader frameControl 0 ++ payload = bytes := by
        simpa [encodeFrame, hp, bind, Except.bind, pure, Except.pure] using h
      simp [frameHeader, frameControl, frameEncrypted]

theorem decodeFrame_wrapSealed (counter : UInt64) (ciphertext : List UInt8) (g : MuxFrame) :
    decodeFrame serde (wrapSealed counter ciphertext) ≠ .ok g := by
  have hlen : ¬ (wrapSealed counter ciphertext).length < 5 := by
    simp [wrapSealed]
    omega
  have hkind : (wrapSealed counter ciphertext).headD 0 = frameEncrypted := rfl
  rw [decodeFrame, if_neg hlen, hkind]
  simp [frameEncrypted, frameOpen, frameData, frameClose, frameControl]

theorem rejects_writeFrame (hserde : serde.Inverts) (haes : aes.Ideal)
    {crypto other : Option FrameCrypto} (hmatch : ¬ Matched crypto other) {frame : MuxFrame}
    {message : List UInt8} (hm : (writeFrame serde aes crypto frame).2 = .send message)
    (g : MuxFrame) : readFrame serde aes other message ≠ .ok g := by
  obtain ⟨bytes, hencode, -⟩ := decodeFrame_encodeFrame hserde frame
  cases crypto with
  | none =>
    cases other with
    | none => exact absurd trivial hmatch
    | some cipher' =>
      simp only [writeFrame, hencode, WriteStep.send.injEq] at hm
      subst hm
      rw [readFrame, if_pos (.inl (encodeFrame_head frame hencode))]
      simp
  | some cipher =>
    simp only [writeFrame, hencode] at hm
    cases hs : (cipher.sealFrame aes bytes).2 with
    | none => simp [hs] at hm
    | some sealed =>
      obtain ⟨counter, ciphertext⟩ := sealed
      obtain rfl : wrapSealed counter ciphertext = message := by simpa [hs] using hm
      cases other with
      | none => exact decodeFrame_wrapSealed counter ciphertext g
      | some cipher' =>
        have hopposite : ¬ (cipher'.key = cipher.key ∧ cipher'.inboundDir = cipher.outboundDir) :=
          fun h => hmatch ⟨h.1, h.2⟩
        obtain ⟨hhead, hcounter, hrest⟩ := wrapSealed_parts counter ciphertext
        rw [readFrame, if_neg hhead, hcounter, hrest, openFrame_sealFrame haes hs, if_neg hopposite]
        simp

theorem reads_writeFrame (hserde : serde.Inverts) (haes : aes.Ideal)
    {crypto : Option FrameCrypto} {frame : MuxFrame} {message : List UInt8}
    (hm : (writeFrame serde aes crypto frame).2 = .send message) (other : Option FrameCrypto) :
    Reads serde aes crypto other message frame := by
  have hmatched : Matched crypto other → readFrame serde aes other message = .ok frame := fun h =>
    readFrame_writeFrame hserde haes.inverts h hm
  refine ⟨hmatched, ?_⟩
  intro g hg
  by_cases hmatch : Matched crypto other
  · rw [hmatched hmatch] at hg
    exact (Except.ok.inj hg).symm
  · exact absurd hg (rejects_writeFrame hserde haes hmatch hm g)

/-! ## The counter of the sender -/

/-- The cipher apart from what it has sent. -/
def base (crypto : Option FrameCrypto) : Option FrameCrypto :=
  crypto.map fun cipher => { cipher with outboundCounter := 0 }

theorem readFrame_base (crypto : Option FrameCrypto) :
    readFrame serde aes (base crypto) = readFrame serde aes crypto := by
  cases crypto <;> rfl

theorem base_writeFrame (crypto : Option FrameCrypto) (frame : MuxFrame) :
    base (writeFrame serde aes crypto frame).1 = base crypto := by
  unfold writeFrame
  cases encodeFrame serde frame with
  | error e => rfl
  | ok bytes => cases crypto <;> rfl

theorem matched_base {crypto other : Option FrameCrypto} :
    Matched (base crypto) other ↔ Matched crypto other := by
  cases crypto with
  | none => rfl
  | some cipher =>
    cases other with
    | none => rfl
    | some cipher' => exact ⟨fun h => ⟨h.key, h.direction⟩, fun h => ⟨h.key, h.direction⟩⟩

theorem Reads.of_base {crypto crypto' other : Option FrameCrypto} {message : List UInt8}
    {frame : MuxFrame} (h : Reads serde aes crypto' other message frame)
    (hbase : base crypto' = base crypto) : Reads serde aes crypto other message frame := by
  refine ⟨fun hm => h.reads ?_, h.faithful⟩
  rw [← matched_base, hbase, matched_base]
  exact hm

end NodeAccess.Mux
