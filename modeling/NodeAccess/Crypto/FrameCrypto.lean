import NodeAccess.Foundation.Bytes

/-! # Frame encryption

A `FrameCrypto` seals the frames of one direction of a connection with AES-256-GCM.
The key is the hash of the secret; the nonce is made of the direction and of a counter
that starts at zero in every `from_secret`.
-/

namespace NodeAccess.Crypto

open Foundation

/-- The cipher, by key and nonce. -/
structure AesGcm where
  encrypt : List UInt8 → List UInt8 → List UInt8 → Option (List UInt8)
  decrypt : List UInt8 → List UInt8 → List UInt8 → Option (List UInt8)

/-- A ciphertext is decrypted under the key and the nonce that it was made under. -/
def AesGcm.Inverts (aes : AesGcm) : Prop :=
  ∀ key nonce plaintext ciphertext, aes.encrypt key nonce plaintext = some ciphertext →
    aes.decrypt key nonce ciphertext = some plaintext

/-- And under no others, which matters where the ends do not share a secret. -/
def AesGcm.Ideal (aes : AesGcm) : Prop :=
  ∀ key nonce plaintext ciphertext, aes.encrypt key nonce plaintext = some ciphertext →
    ∀ key' nonce', aes.decrypt key' nonce' ciphertext =
      if key' = key ∧ nonce' = nonce then some plaintext else none

theorem AesGcm.Ideal.inverts {aes : AesGcm} (h : aes.Ideal) : aes.Inverts := by
  intro key nonce plaintext ciphertext hencrypt
  rw [h key nonce plaintext ciphertext hencrypt, if_pos ⟨rfl, rfl⟩]

/-- The cipher that changes nothing. -/
def clearCipher : AesGcm :=
  ⟨fun _ _ plaintext => some plaintext, fun _ _ ciphertext => some ciphertext⟩

/-- The cipher that puts the key and the nonce in front, for keys and nonces of the right size. -/
def namedCipher : AesGcm where
  encrypt key nonce plaintext :=
    if key.length = 32 ∧ nonce.length = 12 then some (key ++ nonce ++ plaintext) else none
  decrypt key nonce ciphertext :=
    if ciphertext.take 32 = key ∧ (ciphertext.drop 32).take 12 = nonce then
      some (ciphertext.drop 44)
    else none

theorem namedCipher_ideal : namedCipher.Ideal := by
  intro key nonce plaintext ciphertext h key' nonce'
  simp only [namedCipher, Option.ite_none_right_eq_some, Option.some.injEq] at h
  obtain ⟨⟨hkey, hnonce⟩, rfl⟩ := h
  have htake : (key ++ nonce ++ plaintext).take 32 = key := by
    rw [List.append_assoc, List.take_left' hkey]
  have hnext : ((key ++ nonce ++ plaintext).drop 32).take 12 = nonce := by
    rw [List.append_assoc, List.drop_left' hkey, List.take_left' hnonce]
  have hrest : (key ++ nonce ++ plaintext).drop 44 = plaintext :=
    List.drop_left' (by rw [List.length_append, hkey, hnonce])
  simp only [namedCipher, htake, hnext, hrest, eq_comm]

/-- Clones share the cipher and the counter: they are one instance. -/
structure FrameCrypto where
  key : List UInt8
  outboundDir : UInt8
  inboundDir : UInt8
  outboundCounter : UInt64
deriving DecidableEq, Repr

def makeNonce (direction : UInt8) (counter : UInt64) : List UInt8 :=
  [direction, 0, 0, 0] ++ toBeBytes 8 counter.toNat

theorem length_makeNonce (direction : UInt8) (counter : UInt64) :
    (makeNonce direction counter).length = 12 := by
  simp [makeNonce]

theorem makeNonce_inj {d e : UInt8} {m n : UInt64} : makeNonce d m = makeNonce e n ↔
    d = e ∧ m = n := by
  constructor
  · intro h
    simp only [makeNonce, List.cons_append, List.nil_append, List.cons.injEq, true_and] at h
    have hm : m.toNat < 256 ^ 8 := by simpa using m.toNat_lt
    have hn : n.toNat < 256 ^ 8 := by simpa using n.toNat_lt
    exact ⟨h.1, UInt64.toNat_inj.mp (toBeBytes_injective hm hn h.2)⟩
  · rintro ⟨rfl, rfl⟩
    rfl

namespace FrameCrypto

def fromSecret (sha256 : List UInt8 → List UInt8) (secret : String)
    (outboundDir inboundDir : UInt8) :
    FrameCrypto :=
  ⟨sha256 (asBytes secret), outboundDir, inboundDir, 0⟩

variable (aes : AesGcm)

/-- The counter is consumed even if the encryption fails. -/
def sealFrame (crypto : FrameCrypto) (plaintext : List UInt8) :
    FrameCrypto × Option (UInt64 × List UInt8) :=
  let counter := crypto.outboundCounter
  let nonce := makeNonce crypto.outboundDir counter
  ({ crypto with outboundCounter := counter + 1 },
    (aes.encrypt crypto.key nonce plaintext).map fun ciphertext => (counter, ciphertext))

def openFrame (crypto : FrameCrypto) (counter : UInt64) (ciphertext : List UInt8) :
    Option (List UInt8) :=
  aes.decrypt crypto.key (makeNonce crypto.inboundDir counter) ciphertext

/-- The two ends of a connection: one key, opposite directions. -/
structure Opposite (crypto other : FrameCrypto) : Prop where
  key : other.key = crypto.key
  direction : other.inboundDir = crypto.outboundDir

variable {aes}

theorem openFrame_of_opposite {crypto other : FrameCrypto} (haes : aes.Inverts)
    {plaintext ciphertext : List UInt8} {counter : UInt64}
    (hs : (crypto.sealFrame aes plaintext).2 = some (counter, ciphertext))
    (h : crypto.Opposite other) : other.openFrame aes counter ciphertext = some plaintext := by
  simp only [FrameCrypto.sealFrame, Option.map_eq_some_iff, Prod.mk.injEq] at hs
  obtain ⟨_, he, rfl, rfl⟩ := hs
  rw [openFrame, h.key, h.direction]
  exact haes _ _ _ _ he

theorem openFrame_sealFrame {crypto : FrameCrypto} (haes : aes.Ideal)
    {plaintext ciphertext : List UInt8} {counter : UInt64}
    (hs : (crypto.sealFrame aes plaintext).2 = some (counter, ciphertext)) (other : FrameCrypto) :
    other.openFrame aes counter ciphertext =
      if other.key = crypto.key ∧ other.inboundDir = crypto.outboundDir then some plaintext
        else none := by
  simp only [FrameCrypto.sealFrame, Option.map_eq_some_iff, Prod.mk.injEq] at hs
  obtain ⟨_, he, rfl, rfl⟩ := hs
  rw [openFrame, haes _ _ _ _ he]
  simp [makeNonce_inj]

end FrameCrypto

end NodeAccess.Crypto
