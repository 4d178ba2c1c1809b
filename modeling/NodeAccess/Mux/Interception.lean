import NodeAccess.Mux.Loops
import NodeAccess.Mux.Messages

/-! # A relay that plays with sealed messages

The relay sees every message that a `write_loop` seals, on this connection and on earlier
ones, and hands `read_loop` what it likes. The reader takes the counter from the message and
remembers none of them, so the relay chooses among the sealed frames, but can make none.
-/

namespace NodeAccess.Mux

open Foundation Crypto

/-- A frame as it was sealed by one of the write loops, with the key and the nonce of the seal. -/
structure SealedFrame where
  writer : ℕ
  key : List UInt8
  direction : UInt8
  counter : UInt64
  frame : MuxFrame
  ciphertext : List UInt8
deriving DecidableEq, Repr

def SealedFrame.message (w : SealedFrame) : List UInt8 := wrapSealed w.counter w.ciphertext

/-- `writers` holds the ciphers of the write loops that were ever started; the first one is the
peer's on this connection. -/
structure Interception where
  writers : List FrameCrypto
  recorded : List SealedFrame
  reader : MuxConnection

inductive InterceptionEvent where
  | connect (secret : String) (outboundDir inboundDir : UInt8)
  | write (writer : ℕ) (frame : MuxFrame)
  | hand (message : List UInt8)
deriving DecidableEq, Repr

namespace Interception

variable (serde : SerdeSlice) (aes : AesGcm) (sha256 : List UInt8 → List UInt8)

/-- The two ends of this connection have one secret and opposite directions. -/
def init (secret : String) (outboundDir inboundDir : UInt8) (firstStreamId : UInt32) :
    Interception :=
  ⟨[.fromSecret sha256 secret inboundDir outboundDir], [],
    .start firstStreamId (some (.fromSecret sha256 secret outboundDir inboundDir))⟩

/-- The message holds a ciphertext that was made under the key and the nonce it would be opened
with. -/
def produced (s : Interception) (cipher : FrameCrypto) (message : List UInt8) : Bool :=
  s.recorded.any fun w => w.key = cipher.key ∧ w.direction = cipher.inboundDir ∧
    w.counter = UInt64.ofNat (fromBeBytes ((message.drop 1).take 8)) ∧ w.ciphertext = message.drop 9

/-- A forged message is not opened. -/
def unforged (s : Interception) (message : List UInt8) : Bool :=
  match s.reader.crypto with
  | none => true
  | some cipher =>
    (cipher.openFrame aes (UInt64.ofNat (fromBeBytes ((message.drop 1).take 8)))
      (message.drop 9)).isNone ||
      s.produced cipher message

/-- The relay hands over any message of which the ciphertext, if it is opened, was produced. -/
def step (s : Interception) : InterceptionEvent → Option Interception
  | .connect secret outboundDir inboundDir => some { s with
      writers := s.writers ++ [.fromSecret sha256 secret outboundDir inboundDir] }
  | .write writer frame =>
    s.writers[writer]?.bind fun cipher =>
      match encodeFrame serde frame with
      | .error _ => some s
      | .ok bytes =>
        let r := cipher.sealFrame aes bytes
        some { s with
          writers := s.writers.set writer r.1
          recorded := s.recorded ++ r.2.toList.map fun made =>
            ⟨writer, cipher.key, cipher.outboundDir, made.1, frame, made.2⟩ }
  | .hand message =>
    if s.reader.readerOpen = true ∧ s.unforged aes message = true then
      some { s with reader := s.reader.readLoop serde aes message }
    else none

/-- The frames that the peer has sealed on this connection. -/
def peerFrames (s : Interception) : List MuxFrame :=
  (s.recorded.filter fun w => w.writer = 0).map SealedFrame.frame

/-- The frames that `read_loop` has accepted. -/
def accepted (s : Interception) : List MuxFrame := s.reader.endpoint.arrived

/-- A write loop has sealed this frame for this reader, on whatever connection. -/
def Offers (s : Interception) (cipher : FrameCrypto) (frame : MuxFrame) : Prop :=
  ∃ w ∈ s.recorded, w.frame = frame ∧ w.key = cipher.key ∧ w.direction = cipher.inboundDir

variable {serde aes sha256} {s s' : Interception} {cipher : FrameCrypto}

/-- What a message that was recorded is, and where an accepted frame comes from. -/
structure Sound (serde : SerdeSlice) (aes : AesGcm) (cipher : FrameCrypto) (s : Interception) :
    Prop where
  crypto : s.reader.crypto = some cipher
  recorded : ∀ w ∈ s.recorded, ∃ plaintext, encodeFrame serde w.frame = .ok plaintext ∧
    aes.encrypt w.key (makeNonce w.direction w.counter) plaintext = some w.ciphertext
  accepted : ∀ frame ∈ s.accepted, s.Offers cipher frame

theorem Sound.readFrame_message (h : s.Sound serde aes cipher) (hserde : serde.Inverts)
    (haes : aes.Inverts) {w : SealedFrame} (hw : w ∈ s.recorded) (hkey : w.key = cipher.key)
    (hdir : w.direction = cipher.inboundDir) :
    readFrame serde aes (some cipher) w.message = .ok w.frame := by
  obtain ⟨plaintext, hencode, hencrypt⟩ := h.recorded w hw
  obtain ⟨hhead, hcounter, hrest⟩ := wrapSealed_parts w.counter w.ciphertext
  have hdecode : decodeFrame serde plaintext = .ok w.frame := by
    obtain ⟨bytes, hb, hd⟩ := decodeFrame_encodeFrame hserde w.frame
    rw [hencode, Except.ok.injEq] at hb
    exact hb ▸ hd
  have hopen : cipher.openFrame aes w.counter w.ciphertext = some plaintext := by
    rw [FrameCrypto.openFrame, ← hkey, ← hdir]
    exact haes _ _ _ _ hencrypt
  rw [SealedFrame.message, readFrame, if_neg hhead, hcounter, hrest, hopen]
  exact hdecode

theorem Sound.offers_of_read (h : s.Sound serde aes cipher) (hserde : serde.Inverts)
    (haes : aes.Inverts) {message : List UInt8} {frame : MuxFrame}
    (hu : s.unforged aes message = true)
    (hread : readFrame serde aes (some cipher) message = .ok frame) : s.Offers cipher frame := by
  rw [readFrame] at hread
  split_ifs at hread
  cases hopen : cipher.openFrame aes (UInt64.ofNat (fromBeBytes ((message.drop 1).take 8)))
    (message.drop 9) with
  | none =>
    rw [hopen] at hread
    cases hread
  | some plaintext =>
    simp only [hopen] at hread
    simp only [unforged, h.crypto, hopen, Option.isNone_some, Bool.false_or, produced,
      List.any_eq_true,
      decide_eq_true_eq] at hu
    obtain ⟨w, hw, hkey, hdir, hcounter, hciphertext⟩ := hu
    obtain ⟨bytes, hencode, hencrypt⟩ := h.recorded w hw
    rw [← hcounter, ← hciphertext, FrameCrypto.openFrame, ← hkey, ← hdir, haes _ _ _ _ hencrypt,
      Option.some.injEq] at hopen
    obtain ⟨bytes', hencode', hdecode⟩ := decodeFrame_encodeFrame hserde w.frame
    rw [hencode, Except.ok.injEq] at hencode'
    rw [← hopen, hencode', hdecode, Except.ok.injEq] at hread
    exact ⟨w, hw, hread, hkey, hdir⟩

theorem Sound.step (h : s.Sound serde aes cipher) (hserde : serde.Inverts) (haes : aes.Inverts)
    {event : InterceptionEvent} (hs : s.step serde aes sha256 event = some s') :
    s'.Sound serde aes cipher := by
  cases event with
  | connect secret outboundDir inboundDir =>
    obtain rfl := Option.some.inj hs
    exact ⟨h.crypto, h.recorded, h.accepted⟩
  | write writer frame =>
    obtain ⟨sealer, -, hs⟩ := Option.bind_eq_some_iff.mp hs
    cases hencode : encodeFrame serde frame with
    | error e =>
      simp only [hencode, Option.some.injEq] at hs
      exact hs ▸ h
    | ok bytes =>
      simp only [hencode, Option.some.injEq] at hs
      subst hs
      refine ⟨h.crypto, ?_, ?_⟩
      · intro w hw
        rcases List.mem_append.mp hw with hw | hw
        · exact h.recorded w hw
        · obtain ⟨made, hm, rfl⟩ := List.mem_map.mp hw
          rw [Option.mem_toList] at hm
          obtain ⟨ciphertext, he, rfl⟩ := Option.map_eq_some_iff.mp hm
          exact ⟨bytes, hencode, he⟩
      · intro frame hf
        obtain ⟨w, hw, hrest⟩ := h.accepted frame hf
        exact ⟨w, List.mem_append_left _ hw, hrest⟩
  | hand message =>
    rw [Interception.step, Option.ite_none_right_eq_some, Option.some.injEq] at hs
    obtain ⟨⟨-, hu⟩, rfl⟩ := hs
    obtain ⟨hcrypto, -, -, hread⟩ := MuxConnection.readLoop_spec serde aes s.reader message
    refine ⟨hcrypto.trans h.crypto, h.recorded, ?_⟩
    intro frame hf
    rcases hread with ⟨new, hnew, he, -⟩ | ⟨-, he, -⟩
    · rw [h.crypto] at hnew
      simp only [Interception.accepted, he, (s.reader.endpoint.receive_histories new).2.1] at hf
      rcases List.mem_append.mp hf with hf | hf
      · exact h.accepted frame hf
      · exact List.mem_singleton.mp hf ▸ h.offers_of_read hserde haes hu hnew
    · simp only [Interception.accepted, he] at hf
      exact h.accepted frame hf

/-- The relay can have any sealed frames accepted, in any order and any number of times. -/
theorem Sound.run_hand (h : s.Sound serde aes cipher) (hserde : serde.Inverts) (haes : aes.Inverts)
    (hopen : s.reader.readerOpen = true) (frames : List MuxFrame)
    (hoffers : ∀ frame ∈ frames, s.Offers cipher frame) :
    ∃ ns s', Run (Interception.step serde aes sha256) s ns s' ∧ s'.recorded = s.recorded ∧
      s'.reader.readerOpen = true ∧ s'.accepted = s.accepted ++ frames := by
  induction frames using List.reverseRecOn with
  | nil => exact ⟨[], s, Run.nil, rfl, hopen, by simp⟩
  | append_singleton frames frame ih =>
    obtain ⟨ns, t, hrun, hrecorded, hopen', haccepted⟩ :=
      ih fun f hf => hoffers f (List.mem_append_left _ hf)
    have ht : t.Sound serde aes cipher :=
      hrun.invariant h fun _ _ _ hsound hs => hsound.step hserde haes hs
    obtain ⟨w, hw, rfl, hkey, hdir⟩ := hoffers frame (by simp)
    rw [← hrecorded] at hw
    have hread := ht.readFrame_message hserde haes hw hkey hdir
    have hunforged : t.unforged aes w.message = true := by
      obtain ⟨-, hcounter, hrest⟩ := wrapSealed_parts w.counter w.ciphertext
      have hproduced : t.produced cipher w.message = true := by
        rw [produced, List.any_eq_true]
        exact ⟨w, hw, decide_eq_true ⟨hkey, hdir, hcounter.symm, hrest.symm⟩⟩
      simp [unforged, ht.crypto, hproduced]
    have hs : t.step serde aes sha256 (.hand w.message) =
        some { t with reader := t.reader.readLoop serde aes w.message } :=
          if_pos ⟨hopen', hunforged⟩
    obtain ⟨-, -, -, ⟨new, hnew, he, hr⟩ | ⟨⟨e, herror⟩, -, -⟩⟩ :=
      MuxConnection.readLoop_spec serde aes t.reader w.message
    · rw [ht.crypto, hread, Except.ok.injEq] at hnew
      subst hnew
      refine ⟨_, _, hrun.snoc hs, hrecorded, hr.trans hopen', ?_⟩
      simp only [Interception.accepted, he, (t.reader.endpoint.receive_histories w.frame).2.1]
      rw [← List.append_assoc]
      exact congrArg (fun frames => frames ++ [w.frame]) haccepted
    · rw [ht.crypto, hread] at herror
      cases herror

end Interception

/-- What `read_loop` accepts was sealed for it under the same secret, on this connection or on an
earlier one; and the relay can have it accept any sequence of such frames. -/
theorem accepted_sealed {serde : SerdeSlice} {aes : AesGcm} {sha256 : List UInt8 → List UInt8}
    {secret : String} {outboundDir inboundDir : UInt8} {firstStreamId : UInt32}
    {ms : List (Move Interception InterceptionEvent)} {s : Interception} (hserde : serde.Inverts)
    (haes : aes.Inverts) (hrun : Run (Interception.step serde aes sha256)
      (.init sha256 secret outboundDir inboundDir firstStreamId) ms s) :
    let cipher : FrameCrypto := .fromSecret sha256 secret outboundDir inboundDir
    (∀ frame ∈ s.accepted, s.Offers cipher frame) ∧
      (s.reader.readerOpen = true → ∀ frames, (∀ frame ∈ frames, s.Offers cipher frame) →
        ∃ ns s', Run (Interception.step serde aes sha256) s ns s' ∧ s'.recorded = s.recorded ∧
          s'.accepted = s.accepted ++ frames) := by
  have hsound : s.Sound serde aes (.fromSecret sha256 secret outboundDir inboundDir) := by
    apply hrun.invariant
      (P := Interception.Sound serde aes (.fromSecret sha256 secret outboundDir inboundDir))
    · refine ⟨rfl, ?_, ?_⟩
      · intro w hw
        cases hw
      · intro frame hf
        cases hf
    · exact fun _ _ _ h hs => h.step hserde haes hs
  refine ⟨hsound.accepted, ?_⟩
  intro hopen frames hoffers
  obtain ⟨ns, s', hrun', hrecorded, -, haccepted⟩ :=
    hsound.run_hand hserde haes hopen frames hoffers
  exact ⟨ns, s', hrun', hrecorded, haccepted⟩

def shortHash : List UInt8 → List UInt8 := fun _ => List.replicate 32 0

/-- The peer seals one frame, and the relay hands it over twice. -/
def replayedFrame : List InterceptionEvent :=
  let sealed : SealedFrame :=
    ⟨0, shortHash [], 0, 0, .close 1, shortHash [] ++ makeNonce 0 0 ++ frameHeader frameClose 1⟩
  [.write 0 (.close 1), .hand sealed.message, .hand sealed.message]

theorem accepted_sealed_of_replayedFrame :
    let s := outcome (Interception.step .plain namedCipher shortHash)
      (.init shortHash "secret" 1 0 2) replayedFrame
    ∀ frame ∈ s.accepted, s.Offers (.fromSecret shortHash "secret" 1 0) frame := by
  have hplay : (play (Interception.step .plain namedCipher shortHash)
      (.init shortHash "secret" 1 0 2) replayedFrame).isSome = true := by decide +kernel
  exact (accepted_sealed SerdeSlice.plain_inverts namedCipher_ideal.inverts
    (Run.of_outcome hplay)).1

/-- The reader accepts the frame twice. -/
theorem accepted_twice_of_replayedFrame : ∃ (serde : SerdeSlice) (aes : AesGcm) (ms : _)
    (s : Interception),
    serde.Inverts ∧ aes.Ideal ∧
      Run (Interception.step serde aes shortHash) (.init shortHash "secret" 1 0 2) ms s ∧
      ¬ s.accepted <+: s.peerFrames := by
  have hplay : (play (Interception.step .plain namedCipher shortHash)
      (.init shortHash "secret" 1 0 2) replayedFrame).isSome = true := by decide +kernel
  refine ⟨.plain, namedCipher, _, _, SerdeSlice.plain_inverts, namedCipher_ideal,
    Run.of_outcome hplay, ?_⟩
  decide +kernel

end NodeAccess.Mux
