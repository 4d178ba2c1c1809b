import NodeAccess.Foundation.Slice
import NodeAccess.Mux.Loops
import NodeAccess.Mux.Messages

/-! # The wire format

What `write_loop` makes of a queue of frames, a `read_loop` with the matching cipher turns
back into those frames, and one with other settings accepts no message of it. Whatever
bytes come, the parsing of a message stays within it.
-/

namespace NodeAccess.Mux

open Foundation Crypto FrameCrypto

variable (serde : SerdeSlice) (aes : AesGcm)

/-- `write_loop` on a queue of frames: the messages that it sends, and the frame that could
not be sealed and ended it. -/
def writeLoop (crypto : Option FrameCrypto) : List MuxFrame → List (List UInt8) × Option MuxFrame
  | [] => ([], none)
  | frame :: frames =>
    let r := writeFrame serde aes crypto frame
    match r.2 with
    | .skip => writeLoop r.1 frames
    | .stop => ([], some frame)
    | .send message => (message :: (writeLoop r.1 frames).1, (writeLoop r.1 frames).2)

/-- `read_loop` on the messages that come: the frames that it takes in, and the error that
ended it. -/
def readLoop (crypto : Option FrameCrypto) : List (List UInt8) → List MuxFrame × Option String
  | [] => ([], none)
  | message :: messages =>
    match readFrame serde aes crypto message with
    | .error e => ([], some e)
    | .ok frame => (frame :: (readLoop crypto messages).1, (readLoop crypto messages).2)

/-- The cipher gives no ciphertext for the frame. -/
def Refused (crypto : Option FrameCrypto) (frame : MuxFrame) : Prop :=
  ∃ cipher ∈ crypto, ∃ bytes counter, encodeFrame serde frame = .ok bytes ∧
    aes.encrypt cipher.key (makeNonce cipher.outboundDir counter) bytes = none

/-- What is sent is read back as the frames up to the first one that the cipher refuses. -/
structure ReadBack (crypto other : Option FrameCrypto) (frames : List MuxFrame) : Prop where
  sent : ∃ sent unsent, frames = sent ++ unsent ∧
    readLoop serde aes other (writeLoop serde aes crypto frames).1 = (sent, none) ∧
    ∀ frame ∈ unsent.head?, Refused serde aes crypto frame
  all : (∀ frame ∈ frames, ¬ Refused serde aes crypto frame) →
    readLoop serde aes other (writeLoop serde aes crypto frames).1 = (frames, none)

/-- No message of the frames is accepted. -/
def Rejected (crypto other : Option FrameCrypto) (frames : List MuxFrame) : Prop :=
  ∀ message ∈ (writeLoop serde aes crypto frames).1, ∀ frame,
    readFrame serde aes other message ≠ .ok frame

/-! ## Parsing with checked indices -/

open Slice

def decodeFrameIndexed (bytes : List UInt8) : Option (Except String MuxFrame) :=
  if bytes.length < 5 then some (.error "frame too short")
  else do
    let kind ← index bytes 0
    let idBytes ← (range bytes 1 5).bind (toArray 4)
    let streamId := UInt32.ofNat (fromBeBytes idBytes)
    let payload ← rangeFrom bytes 5
    if kind = frameOpen then
      match serde.requestFromSlice payload with
      | .ok request => some (.ok (.openStream streamId request))
      | .error _ => some (.error "invalid open frame")
    else if kind = frameData then some (.ok (.data streamId payload))
    else if kind = frameClose then some (.ok (.close streamId))
    else if kind = frameControl then
      match serde.controlFromSlice payload with
      | .ok message => some (.ok (.control message))
      | .error _ => some (.error "invalid control frame")
    else some (.error ("unknown frame type " ++ toString kind.toNat))

def readFrameIndexed (crypto : Option FrameCrypto) (bytes : List UInt8) :
    Option (Except String MuxFrame) :=
  match crypto with
  | none => decodeFrameIndexed serde bytes
  | some cipher =>
    if bytes.head? ≠ some frameEncrypted ∨ bytes.length < 9 then
      some (.error "received unencrypted frame while --secret is configured")
    else do
      let counterBytes ← (range bytes 1 9).bind (toArray 8)
      let counter := UInt64.ofNat (fromBeBytes counterBytes)
      let ciphertext ← rangeFrom bytes 9
      match cipher.openFrame aes counter ciphertext with
      | some plaintext => decodeFrameIndexed serde plaintext
      | none => some (.error "failed to decrypt mux frame")

theorem decodeFrameIndexed_eq (bytes : List UInt8) :
    decodeFrameIndexed serde bytes = some (decodeFrame serde bytes) := by
  unfold decodeFrameIndexed decodeFrame
  by_cases hshort : bytes.length < 5
  · rw [if_pos hshort, if_pos hshort]
  · have hkind : index bytes 0 = some (bytes.headD 0) := index_zero (by omega) 0
    have hid : (range bytes 1 5).bind (toArray 4) = some ((bytes.drop 1).take 4) := by
      rw [range_eq_some (by omega) (by omega), Option.bind_some]
      exact toArray_take_drop 1 (by omega : 5 ≤ bytes.length)
    have hpayload : rangeFrom bytes 5 = some (bytes.drop 5) := rangeFrom_eq_some (by omega)
    simp only [if_neg hshort, hkind, hid, hpayload, bind, Option.bind_some]
    split_ifs
    · cases serde.requestFromSlice (bytes.drop 5) <;> rfl
    · rfl
    · rfl
    · cases serde.controlFromSlice (bytes.drop 5) <;> rfl
    · rfl

theorem readFrameIndexed_eq (crypto : Option FrameCrypto) (bytes : List UInt8) :
    readFrameIndexed serde aes crypto bytes = some (readFrame serde aes crypto bytes) := by
  cases crypto with
  | none => exact decodeFrameIndexed_eq serde bytes
  | some cipher =>
    unfold readFrameIndexed readFrame
    by_cases hheader : bytes.head? ≠ some frameEncrypted ∨ bytes.length < 9
    · simp only [if_pos hheader]
    · have hcounter : (range bytes 1 9).bind (toArray 8) = some ((bytes.drop 1).take 8) := by
        rw [range_eq_some (by omega) (by omega), Option.bind_some]
        exact toArray_take_drop 1 (by omega : 9 ≤ bytes.length)
      have hrest : rangeFrom bytes 9 = some (bytes.drop 9) := rangeFrom_eq_some (by omega)
      simp only [if_neg hheader, hcounter, hrest, bind, Option.bind_some]
      cases cipher.openFrame aes (UInt64.ofNat (fromBeBytes ((bytes.drop 1).take 8)))
        (bytes.drop 9) with
      | none => rfl
      | some plaintext => exact decodeFrameIndexed_eq serde plaintext

/-! ## Sequences of frames -/

variable {serde aes} {crypto other : Option FrameCrypto}

theorem readLoop_of_readFrame {messages : List (List UInt8)} {frames : List MuxFrame}
    (h : List.Forall₂ (fun message frame => readFrame serde aes other message = .ok frame)
      messages frames) :
    readLoop serde aes other messages = (frames, none) := by
  induction h with
  | nil => rfl
  | cons hread _ ih => rw [readLoop, hread, ih]

theorem refused_of_stop {frame : MuxFrame} (h : (writeFrame serde aes crypto frame).2 = .stop) :
    Refused serde aes crypto frame := by
  unfold writeFrame at h
  cases hencode : encodeFrame serde frame with
  | error e => simp [hencode] at h
  | ok bytes =>
    cases crypto with
    | none => simp [hencode] at h
    | some cipher =>
      refine ⟨cipher, rfl, bytes, cipher.outboundCounter, hencode, ?_⟩
      cases hencrypt :
        aes.encrypt cipher.key (makeNonce cipher.outboundDir cipher.outboundCounter) bytes with
      | none => rfl
      | some ciphertext => simp [hencode, sealFrame, hencrypt] at h

theorem Refused.of_base {crypto' : Option FrameCrypto} {frame : MuxFrame}
    (h : Refused serde aes crypto' frame) (hbase : base crypto' = base crypto) :
    Refused serde aes crypto frame := by
  obtain ⟨cipher', rfl, bytes, counter, hencode, hencrypt⟩ := h
  cases crypto with
  | none => simp [base] at hbase
  | some cipher =>
    simp only [base, Option.map_some, Option.some.injEq, FrameCrypto.mk.injEq] at hbase
    refine ⟨cipher, rfl, bytes, counter, hencode, ?_⟩
    rw [← hbase.1, ← hbase.2.1]
    exact hencrypt

theorem writeLoop_spec (aes : AesGcm) (hserde : serde.Inverts) (crypto : Option FrameCrypto)
    (frames : List MuxFrame) :
    ∃ sent unsent, frames = sent ++ unsent ∧
      List.Forall₂ (fun message frame => ∃ crypto', base crypto' = base crypto ∧
          (writeFrame serde aes crypto' frame).2 = .send message)
        (writeLoop serde aes crypto frames).1 sent ∧
      ∀ frame ∈ unsent.head?, Refused serde aes crypto frame := by
  induction frames generalizing crypto with
  | nil => exact ⟨[], [], rfl, .nil, by simp⟩
  | cons frame frames ih =>
    have hbase : base (writeFrame serde aes crypto frame).1 = base crypto :=
      base_writeFrame crypto frame
    obtain ⟨sent, unsent, hsplit, hsent, hrefused⟩ := ih (writeFrame serde aes crypto frame).1
    rw [writeLoop]
    cases hturn : (writeFrame serde aes crypto frame).2 with
    | skip => exact absurd hturn (writeFrame_ne_skip hserde crypto frame)
    | stop => exact ⟨[], frame :: frames, rfl, .nil, by simpa using refused_of_stop hturn⟩
    | send message =>
      refine ⟨frame :: sent, unsent, by rw [hsplit, List.cons_append], ?_, ?_⟩
      · apply List.Forall₂.cons ⟨crypto, rfl, hturn⟩
        apply hsent.imp
        rintro message' frame' ⟨crypto', hbase', hwrite⟩
        exact ⟨crypto', hbase'.trans hbase, hwrite⟩
      · intro frame' hframe
        exact (hrefused frame' hframe).of_base hbase

theorem readBack_of_matched (hserde : serde.Inverts) (haes : aes.Inverts)
    (hmatch : Matched crypto other) (frames : List MuxFrame) :
    ReadBack serde aes crypto other frames := by
  obtain ⟨sent, unsent, hsplit, hsent, hrefused⟩ := writeLoop_spec aes hserde crypto frames
  have hread : readLoop serde aes other (writeLoop serde aes crypto frames).1 = (sent, none) := by
    apply readLoop_of_readFrame
    apply hsent.imp
    rintro message frame ⟨crypto', hbase, hwrite⟩
    apply readFrame_writeFrame hserde haes _ hwrite
    rw [← matched_base, hbase, matched_base]
    exact hmatch
  constructor
  · exact ⟨sent, unsent, hsplit, hread, hrefused⟩
  · intro hall
    cases unsent with
    | nil => rw [hread, hsplit, List.append_nil]
    | cons frame rest =>
      have hmem : frame ∈ frames := by simp [hsplit]
      exact absurd (hrefused frame rfl) (hall frame hmem)

theorem rejected_of_not_matched (hserde : serde.Inverts) (haes : aes.Ideal)
    (hmatch : ¬ Matched crypto other) (frames : List MuxFrame) :
    Rejected serde aes crypto other frames := by
  obtain ⟨sent, -, -, hsent, -⟩ := writeLoop_spec aes hserde crypto frames
  have hnone :
      List.Forall₂ (fun message _ => (∀ frame, readFrame serde aes other message ≠ .ok frame) ∧
        True)
      (writeLoop serde aes crypto frames).1 sent := by
    apply hsent.imp
    rintro message frame ⟨crypto', hbase, hwrite⟩
    refine ⟨rejects_writeFrame hserde haes ?_ hwrite, trivial⟩
    rw [← matched_base, hbase, matched_base]
    exact hmatch
  exact ((List.forall₂_and_left _ _).mp hnone).1

/-! ## The loops of a connection -/

namespace MuxConnection

theorem writeLoop_turn {m m' : MuxConnection} {message : Option (List UInt8)}
    (h : m.writeLoop serde aes = some (m', message)) :
    (Mux.writeLoop serde aes m.crypto m.outbound).1 =
      message.toList ++ (Mux.writeLoop serde aes m'.crypto m'.outbound).1 := by
  unfold MuxConnection.writeLoop at h
  cases hqueue : m.outbound with
  | nil => simp [hqueue] at h
  | cons frame rest =>
    simp only [hqueue] at h
    cases hturn : (writeFrame serde aes m.crypto frame).2 with
    | skip | send _ | stop =>
      simp only [hturn, Option.some.injEq, Prod.mk.injEq] at h
      obtain ⟨rfl, rfl⟩ := h
      simp [Mux.writeLoop, hturn, stopWriter]

variable (serde aes)

/-- The turns of `read_loop` on the messages that come. -/
def readAll (m : MuxConnection) (messages : List (List UInt8)) : MuxConnection :=
  messages.foldl (fun m message => if m.readerOpen then m.readLoop serde aes message else m) m

theorem readAll_of_closed {m : MuxConnection} (h : m.readerOpen = false)
    (messages : List (List UInt8)) :
    m.readAll serde aes messages = m := by
  induction messages with
  | nil => rfl
  | cons message messages ih =>
    rw [readAll, List.foldl_cons, if_neg (by simp [h])]
    exact ih

theorem endpoint_readAll {m : MuxConnection} (h : m.readerOpen = true)
    (messages : List (List UInt8)) :
    (m.readAll serde aes messages).endpoint =
      (Mux.readLoop serde aes m.crypto messages).1.foldl Endpoint.receive m.endpoint := by
  induction messages generalizing m with
  | nil => rfl
  | cons message messages ih =>
    obtain ⟨hcrypto, -, -, hread⟩ := readLoop_spec serde aes m message
    rw [readAll, List.foldl_cons, if_pos h, ← readAll, Mux.readLoop]
    rcases hread with ⟨frame, hframe, hendpoint, hopen⟩ | ⟨⟨e, herror⟩, hendpoint, hclosed⟩
    · rw [ih (hopen.trans h), hcrypto, hframe, hendpoint, List.foldl_cons]
    · rw [readAll_of_closed serde aes hclosed, herror, hendpoint, List.foldl_nil]

end MuxConnection

/-! ## Both ends of a secret -/

/-- An end of a connection with a secret, after it has sealed some frames. -/
def sealedEnd (sha256 : List UInt8 → List UInt8) (secret : String) (directions : UInt8 × UInt8)
    (counter : UInt64) : Option FrameCrypto :=
  some { fromSecret sha256 secret directions.1 directions.2 with outboundCounter := counter }

/-- What one end writes, the other end reads, and nobody else. -/
theorem wire_round_trip (hserde : serde.Inverts) (haes : aes.Ideal)
    (sha256 : List UInt8 → List UInt8) (frames : List MuxFrame) :
    (readLoop serde aes none (writeLoop serde aes none frames).1 = (frames, none) ∧
      ∀ cipher, Rejected serde aes none (some cipher) frames) ∧
    (∀ secret directions counter, directions = (0, 1) ∨ directions = (1, 0) →
      let sender := sealedEnd sha256 secret directions counter
      (∀ counter', ReadBack serde aes sender (sealedEnd sha256 secret directions.swap counter')
        frames) ∧
      Rejected serde aes sender none frames ∧
      (∀ secret', sha256 (asBytes secret') ≠ sha256 (asBytes secret) → ∀ directions' counter',
        Rejected serde aes sender (sealedEnd sha256 secret' directions' counter') frames) ∧
      ∀ counter', Rejected serde aes sender (sealedEnd sha256 secret directions counter') frames) ∧
    ∀ bytes, decodeFrameIndexed serde bytes = some (decodeFrame serde bytes) ∧
      ∀ crypto, readFrameIndexed serde aes crypto bytes =
        some (readFrame serde aes crypto bytes) := by
  have hplain : ∀ frame ∈ frames, ¬ Refused serde aes none frame := by
    rintro frame - ⟨cipher, hcipher, -⟩
    cases hcipher
  refine ⟨⟨?_, ?_⟩, ?_, ?_⟩
  · have hmatch : Matched none none := trivial
    exact (readBack_of_matched hserde haes.inverts hmatch frames).all hplain
  · exact fun cipher => rejected_of_not_matched hserde haes id frames
  · intro secret directions counter hdirections
    have hne : directions.2 ≠ directions.1 := by
      rcases hdirections with rfl | rfl <;> decide
    refine ⟨fun counter' => ?_, ?_, ?_, ?_⟩
    · have hmatch : Matched (sealedEnd sha256 secret directions counter)
          (sealedEnd sha256 secret directions.swap counter') := ⟨rfl, rfl⟩
      exact readBack_of_matched hserde haes.inverts hmatch frames
    · exact rejected_of_not_matched hserde haes id frames
    · intro secret' hkey directions' counter'
      apply rejected_of_not_matched hserde haes
      intro hmatch
      exact hkey hmatch.key
    · intro counter'
      apply rejected_of_not_matched hserde haes
      intro hmatch
      exact hne hmatch.direction
  · exact fun bytes => ⟨decodeFrameIndexed_eq serde bytes, fun crypto =>
      readFrameIndexed_eq serde aes crypto bytes⟩

/-- A hash that fills short secrets up to 32 bytes. -/
def paddedHash (bytes : List UInt8) : List UInt8 := (bytes ++ List.replicate 32 0).take 32

theorem namedCipher_seals {cipher : FrameCrypto} (hkey : cipher.key.length = 32)
    (frame : MuxFrame) :
    ¬ Refused serde namedCipher (some cipher) frame := by
  rintro ⟨cipher', hcipher, bytes, counter, -, hencrypt⟩
  obtain rfl := Option.some.inj hcipher
  simp [namedCipher, hkey, length_makeNonce] at hencrypt

def tunnelFrames : List MuxFrame :=
  [.control (.bind "web" none), .openStream 1 .socks, .data 1 [], .data 1 [0xE1, 0], .close 1]

theorem wire_round_trip_of_tunnel :
    readLoop .plain namedCipher (sealedEnd paddedHash "b" (1, 0) 7)
        (writeLoop .plain namedCipher (sealedEnd paddedHash "b" (0, 1) 5) tunnelFrames).1 =
      (tunnelFrames, none) ∧
    Rejected .plain namedCipher (sealedEnd paddedHash "b" (0, 1) 5)
      (sealedEnd paddedHash "c" (1, 0) 0)
      tunnelFrames := by
  obtain ⟨-, hsealed, -⟩ :=
    wire_round_trip SerdeSlice.plain_inverts namedCipher_ideal paddedHash tunnelFrames
  obtain ⟨hread, -, hkey, -⟩ := hsealed "b" (0, 1) 5 (.inl rfl)
  constructor
  · exact (hread 7).all fun frame _ => namedCipher_seals (by decide) frame
  · exact hkey "c" (by decide) (1, 0) 0

end NodeAccess.Mux
