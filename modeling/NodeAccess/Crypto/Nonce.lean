import NodeAccess.Crypto.FrameCrypto
import NodeAccess.Foundation.Transition

/-! # Nonces across instances

Every connection that a tool makes builds its own `FrameCrypto` from the secret. The run
of all tools records each `seal` call; the calls of one instance count up from zero, so
two instances with one key and one outbound direction start with the same nonce.
-/

namespace NodeAccess.Crypto

open Foundation

/-- The places that build a `FrameCrypto`. -/
inductive Site where
  | runRemoteVisitorOnce
  | runServedDataConnection
  | runDataConnection
  | runOnce
deriving DecidableEq, Repr

/-- The outbound and the inbound direction. -/
def Site.directions : Site → UInt8 × UInt8
  | .runRemoteVisitorOnce | .runOnce => (0, 1)
  | .runServedDataConnection | .runDataConnection => (1, 0)

structure SealCall where
  owner : ℕ
  key : List UInt8
  direction : UInt8
  counter : UInt64
deriving DecidableEq, Repr

def SealCall.nonce (call : SealCall) : List UInt8 := makeNonce call.direction call.counter

/-- The instances that were built, the handles that clones share, and the seal calls. -/
structure Tools where
  instances : List FrameCrypto
  handles : List ℕ
  sealed : List SealCall
deriving DecidableEq, Repr

inductive ToolEvent where
  | connect (site : Site) (secret : String)
  | clone (handle : ℕ)
  | sealFrame (handle : ℕ) (plaintext : List UInt8)
deriving DecidableEq, Repr

namespace Tools

def init : Tools := ⟨[], [], []⟩

variable (sha256 : List UInt8 → List UInt8) (aes : AesGcm)

def step (tools : Tools) : ToolEvent → Option Tools
  | .connect site secret => some { tools with
      instances := tools.instances ++
        [.fromSecret sha256 secret site.directions.1 site.directions.2]
      handles := tools.handles ++ [tools.instances.length] }
  | .clone handle => (tools.handles[handle]?).map fun owner =>
      { tools with handles := tools.handles ++ [owner] }
  | .sealFrame handle plaintext => do
      let owner ← tools.handles[handle]?
      let crypto ← tools.instances[owner]?
      return { tools with
        instances := tools.instances.set owner (crypto.sealFrame aes plaintext).1
        sealed := tools.sealed ++
          [⟨owner, crypto.key, crypto.outboundDir, crypto.outboundCounter⟩] }

def callsOf (tools : Tools) (owner : ℕ) : List SealCall :=
  tools.sealed.filter fun call => call.owner = owner

/-- No two seal calls under one key use one nonce. -/
def NoncesUnique (tools : Tools) : Prop :=
  tools.sealed.Pairwise fun call later => call.key = later.key → call.nonce ≠ later.nonce

/-- For each key and outbound direction one instance at most ever seals. -/
def OneSealer (tools : Tools) : Prop :=
  ∀ call ∈ tools.sealed, ∀ other ∈ tools.sealed, call.key = other.key →
    call.direction = other.direction → call.owner = other.owner

/-- Each instance has counted its own calls, under its own key and direction. -/
structure Counted (tools : Tools) : Prop where
  owned : ∀ call ∈ tools.sealed, ∃ crypto, tools.instances[call.owner]? = some crypto ∧
    crypto.key = call.key ∧ crypto.outboundDir = call.direction
  counter : ∀ owner crypto, tools.instances[owner]? = some crypto →
    crypto.outboundCounter = UInt64.ofNat (tools.callsOf owner).length
  counters : ∀ owner, (tools.callsOf owner).map SealCall.counter =
    (List.range (tools.callsOf owner).length).map UInt64.ofNat

theorem counted_init : init.Counted where
  owned := by
    intro call hc
    cases hc
  counter := by
    intro owner crypto hc
    simp [init] at hc
  counters := fun _ => rfl

variable {sha256 aes} {tools tools' : Tools}

theorem callsOf_of_sealed {call : SealCall} (h : tools'.sealed = tools.sealed ++ [call])
    {owner : ℕ} :
    tools'.callsOf owner = tools.callsOf owner ++ if owner = call.owner then [call] else [] := by
  rw [callsOf, h, List.filter_append, callsOf]
  by_cases ho : owner = call.owner
  · simp [ho]
  · simp [ho, Ne.symm ho]

theorem Counted.step {event : ToolEvent} (h : tools.Counted)
    (hs : tools.step sha256 aes event = some tools') : tools'.Counted := by
  cases event with
  | connect site secret =>
    obtain rfl := Option.some.inj hs
    constructor
    · intro call hc
      obtain ⟨crypto, hi, hk⟩ := h.owned call hc
      have hlt := (List.getElem?_eq_some_iff.mp hi).1
      exact ⟨crypto, (List.getElem?_append_left hlt).trans hi, hk⟩
    · intro owner crypto hc
      change (tools.instances ++ _)[owner]? = some crypto at hc
      by_cases ho : owner < tools.instances.length
      · rw [List.getElem?_append_left ho] at hc
        exact h.counter owner crypto hc
      · have hnone : tools.callsOf owner = [] := by
          rw [callsOf, List.filter_eq_nil_iff]
          intro call hcall he
          obtain ⟨_, hi, -⟩ := h.owned call hcall
          have hlt := (List.getElem?_eq_some_iff.mp hi).1
          have howner : call.owner = owner := by simpa using he
          omega
        have hcalls : callsOf { tools with
            instances := tools.instances ++
              [.fromSecret sha256 secret site.directions.1 site.directions.2]
            handles := tools.handles ++ [tools.instances.length] } owner = [] := hnone
        rw [hcalls]
        rw [List.getElem?_append_right (not_lt.mp ho), List.getElem?_singleton] at hc
        split_ifs at hc
        obtain rfl := Option.some.inj hc
        rfl
    · exact h.counters
  | clone handle =>
    simp only [Tools.step, Option.map_eq_some_iff] at hs
    obtain ⟨owner, -, rfl⟩ := hs
    exact ⟨h.owned, h.counter, h.counters⟩
  | sealFrame handle plaintext =>
    simp only [Tools.step, Option.bind_eq_bind, Option.bind_eq_some_iff, Option.pure_def,
      Option.some.injEq] at hs
    obtain ⟨owner, -, crypto, hc, rfl⟩ := hs
    have hlt := (List.getElem?_eq_some_iff.mp hc).1
    have hget : ∀ i, (tools.instances.set owner (crypto.sealFrame aes plaintext).1)[i]? =
        if i = owner then some (crypto.sealFrame aes plaintext).1 else tools.instances[i]? := by
      intro i
      by_cases hi : i = owner
      · subst hi
        simp [hlt]
      · rw [if_neg hi, List.getElem?_set_ne (Ne.symm hi)]
    constructor
    · intro call hcall
      change ∃ next, (tools.instances.set owner _)[call.owner]? = some next ∧ _
      rw [hget]
      rcases List.mem_append.mp hcall with hcall | hcall
      · obtain ⟨old, hi, hk⟩ := h.owned call hcall
        split_ifs with ho
        · rw [ho, hc, Option.some.injEq] at hi
          rw [← hi] at hk
          exact ⟨_, rfl, hk⟩
        · exact ⟨old, hi, hk⟩
      · obtain rfl := List.mem_singleton.mp hcall
        exact ⟨_, if_pos rfl, rfl, rfl⟩
    · intro i next hn
      change (tools.instances.set owner _)[i]? = some next at hn
      rw [hget] at hn
      rw [callsOf_of_sealed rfl]
      split_ifs at hn ⊢ with hi
      · obtain rfl := Option.some.inj hn
        rw [List.length_append, hi]
        change crypto.outboundCounter + 1 = _
        rw [h.counter owner crypto hc, List.length_singleton, UInt64.ofNat_add]
        rfl
      · rw [List.append_nil]
        exact h.counter i next hn
    · intro i
      rw [callsOf_of_sealed rfl]
      split_ifs with hi
      · rw [List.map_append, h.counters i, List.length_append, List.length_singleton,
          List.range_succ, List.map_append, hi]
        simp [h.counter owner crypto hc]
      · simpa using h.counters i

theorem run_counted {ms : List (Move Tools ToolEvent)}
    (hrun : Run (step sha256 aes) init ms tools) : tools.Counted :=
  hrun.invariant counted_init fun _ _ _ h hs => h.step hs

theorem Counted.distinct (h : tools.Counted) {owner : ℕ}
    (hbound : (tools.callsOf owner).length < 2 ^ 64) :
    (tools.callsOf owner).Pairwise fun call later => call.counter ≠ later.counter := by
  rw [← List.pairwise_map (f := SealCall.counter) (R := (· ≠ ·)), h.counters owner]
  apply List.Nodup.map_on _ List.nodup_range
  intro m hm n hn he
  have hmod := congrArg UInt64.toNat he
  rw [UInt64.toNat_ofNat', UInt64.toNat_ofNat', Nat.mod_eq_of_lt, Nat.mod_eq_of_lt] at hmod
  · exact hmod
  · exact (List.mem_range.mp hn).trans hbound
  · exact (List.mem_range.mp hm).trans hbound

theorem Counted.first (h : tools.Counted) {call : SealCall} (hc : call ∈ tools.sealed) :
    ∃ start ∈ tools.sealed, start.owner = call.owner ∧ start.key = call.key ∧
      start.direction = call.direction ∧ start.counter = 0 := by
  have hpos : 0 < (tools.callsOf call.owner).length :=
    List.length_pos_of_mem (List.mem_filter.mpr ⟨hc, by simp⟩)
  have hzero : (0 : UInt64) ∈ (tools.callsOf call.owner).map SealCall.counter := by
    rw [h.counters]
    exact List.mem_map.mpr ⟨0, List.mem_range.mpr hpos, rfl⟩
  obtain ⟨start, hs, hcounter⟩ := List.mem_map.mp hzero
  obtain ⟨hmem, howner⟩ := List.mem_filter.mp hs
  have howner' : start.owner = call.owner := by simpa using howner
  obtain ⟨crypto, hi, hkey, hdir⟩ := h.owned start hmem
  obtain ⟨crypto', hi', hkey', hdir'⟩ := h.owned call hc
  rw [howner', hi', Option.some.injEq] at hi
  subst hi
  exact ⟨start, hmem, howner', hkey.symm.trans hkey', hdir.symm.trans hdir', hcounter⟩

/-- Nonces are unique in exactly the runs in which no two instances with one key seal in one
direction. -/
theorem noncesUnique_iff {ms : List (Move Tools ToolEvent)}
    (hrun : Run (step sha256 aes) init ms tools)
    (hbound : ∀ owner, (tools.callsOf owner).length < 2 ^ 64) :
    tools.NoncesUnique ↔ tools.OneSealer := by
  have hcounted := run_counted hrun
  constructor
  · intro hunique call hc other ho hkey hdir
    by_contra hne
    obtain ⟨start, hs, howner, hskey, hsdir, hzero⟩ := hcounted.first hc
    obtain ⟨start', hs', howner', hskey', hsdir', hzero'⟩ := hcounted.first ho
    have hdistinct : start ≠ start' := by
      rintro rfl
      exact hne (howner.symm.trans howner')
    have hsym : Std.Symm fun call later : SealCall => call.key = later.key →
        call.nonce ≠ later.nonce := ⟨fun _ _ h hk hn => h hk.symm hn.symm⟩
    apply hunique.forall hs hs' hdistinct
    · rw [hskey, hskey', hkey]
    · rw [SealCall.nonce, SealCall.nonce, makeNonce_inj, hsdir, hsdir', hzero, hzero']
      exact ⟨hdir, rfl⟩
  · intro hone
    have hdistinct : tools.sealed.Pairwise fun call later =>
        call.owner = later.owner → call.counter ≠ later.counter := by
      rw [List.pairwise_iff_getElem]
      intro i j hi hj hij ho
      have hp := hcounted.distinct (hbound tools.sealed[i].owner)
      rw [callsOf, List.pairwise_filter, List.pairwise_iff_getElem] at hp
      exact hp i j hi hj hij (by simp) (by simp [ho])
    rw [NoncesUnique]
    apply hdistinct.imp_of_mem
    intro call later hc hl hcounter hkey hnonce
    rw [SealCall.nonce, SealCall.nonce, makeNonce_inj] at hnonce
    exact hcounter (hone call hc later hl hkey hnonce.1) hnonce.2

/-- A stand-in hash and cipher, for runs on fixed inputs. -/
def padKey (bytes : List UInt8) : List UInt8 := (bytes ++ List.replicate 32 0).take 32

/-- The two ends of one connection seal under one key, each with a clone in use. -/
theorem noncesUnique_of_connection :
    (outcome (step padKey clearCipher) init
      [.connect .runRemoteVisitorOnce "secret", .connect .runServedDataConnection "secret",
        .clone 0, .sealFrame 0 [1], .sealFrame 1 [2], .sealFrame 2 [3],
        .sealFrame 1 [4]]).NoncesUnique := by
  apply (noncesUnique_iff (Run.of_outcome rfl) _).mpr
  · unfold OneSealer
    decide
  · intro owner
    exact (List.length_filter_le _ _).trans_lt (by decide)

/-- A visitor that connects again with its secret seals under the nonce it started with before,
whatever the hash and the cipher are. -/
theorem nonce_reused_after_reconnect : ¬ ∃ (sha256 : List UInt8 → List UInt8) (aes : AesGcm),
    ∀ (ms : List (Move Tools ToolEvent)) (tools : Tools), Run (step sha256 aes) init ms tools →
      (∀ owner, (tools.callsOf owner).length < 2 ^ 64) → tools.NoncesUnique := by
  rintro ⟨sha256, aes, h⟩
  have hrun := @Run.of_outcome _ _ (step sha256 aes) init
    [.connect .runRemoteVisitorOnce "secret", .sealFrame 0 [1],
      .connect .runRemoteVisitorOnce "secret", .sealFrame 1 [2]] rfl
  have hunique :=
    h _ _ hrun fun owner => (List.length_filter_le _ _).trans_lt (by decide : 2 < 2 ^ 64)
  exact (List.pairwise_cons.mp hunique).1 _ List.mem_cons_self rfl rfl

end Tools

end NodeAccess.Crypto
