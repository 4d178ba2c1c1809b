import Mathlib.Data.List.AList
import Mathlib.Tactic

/-! # Finite tables

Hash maps with distinct keys, as association lists. The counting lemmas say how
the size of a table and a sum over its values change when one key is inserted
or removed. Where the keys are unbounded and nothing is counted, a function to
`Option` is a table of slots that are overwritten.
-/

namespace NodeAccess.Foundation

def Table (κ ν : Type*) := AList fun _ : κ => ν

namespace Table

variable {κ ν : Type*}

instance : EmptyCollection (Table κ ν) := ⟨(∅ : AList fun _ : κ => ν)⟩

instance : Inhabited (Table κ ν) := ⟨∅⟩

def entries (t : Table κ ν) : List (Sigma fun _ : κ => ν) := AList.entries t

def values (t : Table κ ν) : List ν := t.entries.map (·.2)

def keys (t : Table κ ν) : List κ := AList.keys t

def len (t : Table κ ν) : ℕ := t.values.length

/-- Sum of a weight over the stored values. -/
def total (f : ν → ℕ) (t : Table κ ν) : ℕ := (t.values.map f).sum

@[simp] theorem len_empty : len (∅ : Table κ ν) = 0 := rfl

@[simp] theorem total_empty (f : ν → ℕ) : total f (∅ : Table κ ν) = 0 := rfl

theorem len_eq_total (t : Table κ ν) : t.len = t.total fun _ => 1 := by
  simp [len, total]

theorem keys_nodup (t : Table κ ν) : t.keys.Nodup := AList.nodupKeys t

variable [DecidableEq κ]

def get (t : Table κ ν) (k : κ) : Option ν := AList.lookup k t

def insert (t : Table κ ν) (k : κ) (v : ν) : Table κ ν := AList.insert k v t

def remove (t : Table κ ν) (k : κ) : Table κ ν := AList.erase k t

def containsKey (t : Table κ ν) (k : κ) : Bool := (t.get k).isSome

/-- The table after `entry(k).or_insert(v)`. -/
def orInsert (t : Table κ ν) (k : κ) (v : ν) : Table κ ν :=
  if t.containsKey k then t else t.insert k v

/-- The table after `retain`. -/
def retain (t : Table κ ν) (keep : κ → ν → Bool) : Table κ ν :=
  ⟨t.entries.filter fun e => keep e.1 e.2, (AList.nodupKeys t).sublist List.filter_sublist⟩

/-- The table that `collect` makes of a list: a later entry replaces an earlier one of its key. -/
def ofList (entries : List (κ × ν)) : Table κ ν := entries.foldl (fun t e => t.insert e.1 e.2) ∅

@[simp] theorem get_empty (k : κ) : (∅ : Table κ ν).get k = none := AList.lookup_empty k

@[simp] theorem get_insert_self (t : Table κ ν) (k : κ) (v : ν) : (t.insert k v).get k = some v :=
  AList.lookup_insert t

theorem get_insert_of_ne {t : Table κ ν} {k j : κ} {v : ν} (h : j ≠ k) :
    (t.insert k v).get j = t.get j := AList.lookup_insert_ne h

theorem get_insert (t : Table κ ν) (k j : κ) (v : ν) :
    (t.insert k v).get j = if j = k then some v else t.get j := by
  by_cases h : j = k
  · subst h; simp
  · rw [if_neg h, get_insert_of_ne h]

@[simp] theorem get_remove_self (t : Table κ ν) (k : κ) : (t.remove k).get k = none :=
  AList.lookup_erase k t

theorem get_remove_of_ne {t : Table κ ν} {k j : κ} (h : j ≠ k) : (t.remove k).get j = t.get j :=
  AList.lookup_erase_ne h

theorem get_remove (t : Table κ ν) (k j : κ) :
    (t.remove k).get j = if j = k then none else t.get j := by
  by_cases h : j = k
  · subst h; simp
  · rw [if_neg h, get_remove_of_ne h]

theorem get_orInsert_self (t : Table κ ν) (k : κ) (v : ν) :
    (t.orInsert k v).get k = some ((t.get k).getD v) := by
  cases h : t.get k <;> simp [orInsert, containsKey, h]

theorem get_orInsert_of_ne {t : Table κ ν} {k j : κ} {v : ν} (h : j ≠ k) :
    (t.orInsert k v).get j = t.get j := by
  unfold orInsert
  split
  · rfl
  · exact get_insert_of_ne h

theorem orInsert_eq_self_iff {t : Table κ ν} {k : κ} {v : ν} :
    t.orInsert k v = t ↔ t.containsKey k = true := by
  constructor
  · intro h
    have hget := get_orInsert_self t k v
    rw [h] at hget
    rw [containsKey, hget, Option.isSome_some]
  · intro h
    rw [orInsert, if_pos h]

theorem mem_entries {t : Table κ ν} {k : κ} {v : ν} :
    (⟨k, v⟩ : Sigma fun _ : κ => ν) ∈ t.entries ↔ t.get k = some v :=
  (AList.mem_lookup_iff (β := fun _ => ν) (s := t)).symm

theorem get_retain (t : Table κ ν) (keep : κ → ν → Bool) (k : κ) :
    (t.retain keep).get k = (t.get k).filter (keep k) := by
  ext v
  rw [← mem_entries, Option.filter_eq_some_iff, ← mem_entries]
  exact List.mem_filter

theorem get_ofList_append (entries : List (κ × ν)) (k j : κ) (v : ν) :
    (ofList (entries ++ [(k, v)])).get j = if j = k then some v else (ofList entries).get j := by
  rw [ofList, List.foldl_append]
  exact get_insert _ k j v

theorem mem_values {t : Table κ ν} {v : ν} : v ∈ t.values ↔ ∃ k, t.get k = some v := by
  simp only [values, List.mem_map, Sigma.exists, mem_entries]
  constructor
  · rintro ⟨k, w, h, rfl⟩
    exact ⟨k, h⟩
  · rintro ⟨k, h⟩
    exact ⟨k, v, h, rfl⟩

theorem mem_keys {t : Table κ ν} {k : κ} : k ∈ t.keys ↔ ∃ v, t.get k = some v := by
  rw [← Option.isSome_iff_exists]
  exact AList.lookup_isSome.symm

theorem eq_empty_of_get {t : Table κ ν} (h : ∀ k, t.get k = none) : t = ∅ := by
  apply AList.ext
  change t.entries = []
  rw [List.eq_nil_iff_forall_not_mem]
  rintro ⟨k, v⟩ hm
  rw [mem_entries, h k] at hm
  cases hm

theorem remove_of_get_eq_none {t : Table κ ν} {k : κ} (h : t.get k = none) : t.remove k = t := by
  apply AList.ext
  exact List.kerase_of_notMem_keys (AList.lookup_eq_none.mp h)

theorem remove_insert (t : Table κ ν) (k : κ) (v : ν) : (t.insert k v).remove k = t.remove k := by
  apply AList.ext
  exact List.kerase_cons_eq (s := (⟨k, v⟩ : Sigma fun _ : κ => ν)) rfl

/-- The entries of a table, with the one under `k` in front. -/
theorem entries_perm_of_get {t : Table κ ν} {k : κ} {v : ν} (h : t.get k = some v) :
    t.entries.Perm ((⟨k, v⟩ : Sigma fun _ : κ => ν) :: (t.remove k).entries) := by
  have hk : k ∈ t.entries.keys := AList.lookup_isSome.mp (Option.isSome_iff_exists.mpr ⟨v, h⟩)
  obtain ⟨w, l₁, l₂, hn, hl, he⟩ := List.exists_of_kerase hk
  have hw : w = v := by
    have hm : (⟨k, w⟩ : Sigma fun _ : κ => ν) ∈ t.entries := by simp [hl]
    rw [mem_entries, h] at hm
    exact (Option.some.inj hm).symm
  subst hw
  rw [show (t.remove k).entries = l₁ ++ l₂ from he, hl]
  exact List.perm_middle

/-- In a table whose keys can be read off its values, one value at most has a given key. -/
theorem filter_values {t : Table κ ν} {key : ν → κ} (h : ∀ k v, t.get k = some v → key v = k)
    (k : κ) : (t.values.filter fun v => key v = k) = (t.get k).toList := by
  cases hg : t.get k with
  | none =>
    rw [Option.toList_none, List.filter_eq_nil_iff]
    intro v hv
    rcases mem_values.mp hv with ⟨j, hj⟩
    have hne : j ≠ k := by
      rintro rfl
      rw [hg] at hj
      cases hj
    simpa [h j v hj] using hne
  | some v =>
    have hrest : ((t.remove k).values.filter fun w => key w = k) = [] := by
      rw [List.filter_eq_nil_iff]
      intro w hw
      rcases mem_values.mp hw with ⟨j, hj⟩
      rw [get_remove] at hj
      split_ifs at hj with hjk
      simpa [h j w hj] using hjk
    have hp := (entries_perm_of_get hg).map (·.2)
    rw [List.map_cons] at hp
    change t.values.Perm (v :: (t.remove k).values) at hp
    have hf := hp.filter fun w => decide (key w = k)
    rw [List.filter_cons_of_pos (by simp [h k v hg]), hrest] at hf
    exact hf.eq_singleton

theorem total_of_get {t : Table κ ν} {k : κ} {v : ν} (f : ν → ℕ) (h : t.get k = some v) :
    t.total f = f v + (t.remove k).total f := by
  have hp := ((entries_perm_of_get h).map (·.2)).map f
  simpa [total, values] using hp.sum_eq

/-- Inserting a key replaces the weight of the value that was stored under it. -/
theorem total_insert (f : ν → ℕ) (t : Table κ ν) (k : κ) (v : ν) :
    (t.insert k v).total f = f v + (t.remove k).total f := by
  rw [total_of_get f (get_insert_self t k v), remove_insert]

theorem total_insert_of_get {t : Table κ ν} {k : κ} {w : ν} (f : ν → ℕ) (v : ν)
    (h : t.get k = some w) : (t.insert k v).total f + f w = f v + t.total f := by
  rw [total_insert, total_of_get f h]
  omega

theorem total_insert_of_get_eq_none {t : Table κ ν} {k : κ} (f : ν → ℕ) (v : ν)
    (h : t.get k = none) : (t.insert k v).total f = f v + t.total f := by
  rw [total_insert, remove_of_get_eq_none h]

theorem total_remove_le (f : ν → ℕ) (t : Table κ ν) (k : κ) :
    (t.remove k).total f ≤ t.total f := by
  cases h : t.get k with
  | none => rw [remove_of_get_eq_none h]
  | some v =>
    rw [total_of_get f h]
    omega

theorem len_insert_of_get {t : Table κ ν} {k : κ} {w : ν} (v : ν) (h : t.get k = some w) :
    (t.insert k v).len = t.len := by
  have ht := total_insert_of_get (fun _ => 1) v h
  simp only [← len_eq_total] at ht
  omega

theorem len_insert_of_get_eq_none {t : Table κ ν} {k : κ} (v : ν) (h : t.get k = none) :
    (t.insert k v).len = t.len + 1 := by
  rw [len_eq_total, total_insert_of_get_eq_none _ v h, ← len_eq_total]
  omega

theorem len_remove_of_get {t : Table κ ν} {k : κ} {v : ν} (h : t.get k = some v) :
    (t.remove k).len + 1 = t.len := by
  rw [len_eq_total t, total_of_get _ h, ← len_eq_total]
  omega

theorem len_eq_zero_iff {t : Table κ ν} : t.len = 0 ↔ ∀ k, t.get k = none := by
  rw [len, List.length_eq_zero_iff, List.eq_nil_iff_forall_not_mem]
  constructor
  · intro h k
    cases hk : t.get k with
    | none => rfl
    | some v => exact absurd (mem_values.mpr ⟨k, hk⟩) (h v)
  · intro h v hv
    obtain ⟨k, hk⟩ := mem_values.mp hv
    rw [h k] at hk
    cases hk

/-- The values in the order of the keys. -/
theorem values_eq_map_keys (t : Table κ ν) (d : ν) :
    t.values = t.keys.map fun k => (t.get k).getD d := by
  change t.entries.map (·.2) = (t.entries.map Sigma.fst).map _
  rw [List.map_map]
  apply List.map_congr_left
  rintro ⟨k, v⟩ hm
  simp [mem_entries.mp hm]

/-- In a table whose keys can be read off its values, every value is stored once. -/
theorem values_nodup {t : Table κ ν} {key : ν → κ} (h : ∀ k v, t.get k = some v → key v = k) :
    t.values.Nodup := by
  have hkeys : t.values.map key = t.keys := by
    change (t.entries.map (·.2)).map key = t.entries.map Sigma.fst
    rw [List.map_map]
    apply List.map_congr_left
    rintro ⟨k, v⟩ hm
    exact h k v (mem_entries.mp hm)
  apply List.Nodup.of_map key
  rw [hkeys]
  exact t.keys_nodup

end Table

section Slots

variable {α β γ : Type*} [DecidableEq α] {f : α → Option β} {key : β → γ} {a x : α} {b b' y : β}

/-- What a slot holds after one was overwritten. -/
theorem update_some_cases (h : Function.update f a (some b) x = some y) :
    (x = a ∧ y = b) ∨ (x ≠ a ∧ f x = some y) := by
  by_cases hx : x = a
  · rw [hx, Function.update_self, Option.some.injEq] at h
    exact .inl ⟨hx, h.symm⟩
  · rw [Function.update_of_ne hx] at h
    exact .inr ⟨hx, h⟩

/-- Overwriting a value by one of the same key, a key that is found was found before. -/
theorem exists_of_update_some (ha : f a = some b) (hkey : key b' = key b)
    (h : Function.update f a (some b') x = some y) : ∃ old, f x = some old ∧ key old = key y := by
  rcases update_some_cases h with ⟨rfl, rfl⟩ | ⟨-, hx⟩
  · exact ⟨b, ha, hkey.symm⟩
  · exact ⟨y, hx, rfl⟩

/-- And a key that was found before is still found. -/
theorem exists_update_some (ha : f a = some b) (hkey : key b' = key b) (h : f x = some y) :
    ∃ next, Function.update f a (some b') x = some next ∧ key next = key y := by
  by_cases hx : x = a
  · obtain rfl : b = y := Option.some.inj (ha.symm.trans (hx ▸ h))
    exact ⟨b', hx ▸ Function.update_self _ _ _, hkey⟩
  · exact ⟨y, (Function.update_of_ne hx _ _).trans h, rfl⟩

end Slots

end NodeAccess.Foundation
