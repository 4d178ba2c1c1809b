import NodeAccess.Tunnel.EndToEnd

/-! # Tunnels from one end

A pipe's end is no other pipe's, and a stream has one peer. So all tunnels from one end go the same
way, and the one that comes to a socket goes no further.
-/

namespace NodeAccess.Tunnel

open Foundation Crypto Mux

namespace Net

variable {serde : SerdeSlice} {aes : AesGcm} {crypto : ℕ → Side → Option FrameCrypto} {n : Net}
  {a b b' e e₁ e₂ : PipeEnd} {ks ks' : List ℕ} {f f' : List UInt8 → List UInt8} {j k : ℕ}
    {p q : Pipe}
  {d d' : Direction}

theorem Linked.unique (h : n.Linked e e₁) (h' : n.Linked e e₂)
    (hsound : ∀ conn, (n.pair conn).Sound serde aes (crypto conn)) : e₁ = e₂ := by
  cases h with
  | @streams conn side r r' s s' hpeer hown hid =>
    generalize he : PipeEnd.stream conn side.other r' = e at h'
    cases h' with
    | @streams conn₂ side₂ r₂ r₂' s₂ s₂' hpeer₂ hown₂ hid₂ =>
      simp only [PipeEnd.stream.injEq] at he
      obtain ⟨rfl, hside, rfl⟩ := he
      obtain rfl : side₂ = side := by rw [← side₂.other_other, ← hside, side.other_other]
      obtain rfl := Option.some.inj (hpeer.symm.trans hpeer₂)
      rw [((hsound conn).mux side₂).endpoint.unique r₂ r s₂ s hown₂ hown (hid₂.symm.trans hid)]

theorem Carries.target_unique (h : n.Carries) (hj : n.pipes[j]? = some p)
    (hk : n.pipes[k]? = some q) (he : p.source d = q.source d') : p.target d = q.target d' := by
  obtain ⟨rfl, rfl⟩ := h.apart j k p q d d' hj hk he
  rw [Option.some.inj (hj.symm.trans hk)]

theorem Route.ne_nil (h : n.Route a ks f b) : ks ≠ [] := by
  cases h with
  | pipe => exact List.cons_ne_nil _ _
  | link => simp

theorem Route.same_end (h : n.Route a ks f b) (h' : n.Route a ks' f' b')
    (hlength : ks.length = ks'.length) (hcarries : n.Carries)
    (hsound : ∀ conn, (n.pair conn).Sound serde aes (crypto conn)) : b = b' := by
  induction h generalizing ks' f' b' with
  | @pipe k p d hp hsource =>
    cases h' with
    | @pipe k' q d' hq hsource' => exact hcarries.target_unique hp hq (hsource.trans hsource'.symm)
    | @link ks' f' e k' q d' before hq hlinked =>
      have hpos := List.length_pos_iff.mpr before.ne_nil
      simp only [List.length_append, List.length_singleton] at hlength
      omega
  | @link ks f e k p d before hp hlinked ih =>
    cases h' with
    | @pipe k' q d' hq hsource' =>
      have hpos := List.length_pos_iff.mpr before.ne_nil
      simp only [List.length_append, List.length_singleton] at hlength
      omega
    | @link ks' f' e' k' q d' before' hq hlinked' =>
      simp only [List.length_append, List.length_singleton, Nat.add_right_cancel_iff] at hlength
      obtain rfl := ih before' hlength
      exact hcarries.target_unique hp hq (hlinked.unique hlinked' hsound)

theorem Route.upto (h : n.Route a ks f b) {m : ℕ} (hpos : 0 < m) (hlt : m < ks.length) :
    ∃ ks' f' e e', ks'.length = m ∧ n.Route a ks' f' e ∧ n.Linked e e' := by
  induction h with
  | pipe hp hsource =>
    simp only [List.length_singleton] at hlt
    omega
  | @link ks f e k p d before hp hlinked ih =>
    simp only [List.length_append, List.length_singleton] at hlt
    by_cases hm : m < ks.length
    · exact ih hm
    · exact ⟨ks, f, e, _, by omega, before, hlinked⟩

theorem Route.length_le {i : ℕ} (h : n.Route a ks f (.socket i)) (h' : n.Route a ks' f' b)
    (hcarries : n.Carries) (hsound : ∀ conn, (n.pair conn).Sound serde aes (crypto conn)) :
    ks'.length ≤ ks.length := by
  by_contra hlt
  obtain ⟨js, g, e, e', hlength, hroute, hlinked⟩ :=
    h'.upto (List.length_pos_iff.mpr h.ne_nil) (Nat.lt_of_not_le hlt)
  obtain rfl := h.same_end hroute hlength.symm hcarries hsound
  cases hlinked

theorem Route.unique {i j : ℕ} (h : n.Route a ks f (.socket i)) (h' : n.Route a ks' f' (.socket j))
    (hcarries : n.Carries) (hsound : ∀ conn, (n.pair conn).Sound serde aes (crypto conn)) :
    i = j := by
  have hlength := Nat.le_antisymm (h'.length_le h hcarries hsound) (h.length_le h' hcarries hsound)
  exact PipeEnd.socket.inj (h.same_end h' hlength hcarries hsound)

end Net

end NodeAccess.Tunnel
