import ObjectModel.Table

/-!
What each change of a table does to its two views: the descriptor under a key, and the order of the
keys.
-/

namespace ObjectModel.Table

theorem lookup_cons {α : Type} (k : String) (e : α) (rest : List (String × α)) (key : String) :
    ((k, e) :: rest).lookup key = if key = k then some e else rest.lookup key := by
  rw [List.lookup_cons]
  by_cases h : key = k
  · simp [h]
  · rw [beq_eq_false_iff_ne.2 h, if_neg h]

theorem lookup_filter_ne {α : Type} (entries : List (String × α)) (key j : String) :
    (entries.filter (·.1 != key)).lookup j = if j = key then none else entries.lookup j := by
  induction entries with
  | nil => simp
  | cons entry rest ih =>
    obtain ⟨k, e⟩ := entry
    rw [List.filter_cons, lookup_cons]
    by_cases hk : k = key
    · rw [if_neg (by simp [hk]), ih]
      by_cases hj : j = key
      · rw [if_pos hj, if_pos hj]
      · rw [if_neg hj, if_neg hj, if_neg (hk ▸ hj)]
    · rw [if_pos (by simp [hk]), lookup_cons, ih]
      by_cases hj : j = k
      · rw [if_pos hj, if_neg (hj ▸ hk), if_pos hj]
      · rw [if_neg hj, if_neg hj]

theorem lookup_putEntry (key : String) (d : Descriptor) (entries : List (String × Descriptor))
    (j : String) :
    (putEntry key d entries).lookup j = if j = key then some d else entries.lookup j := by
  induction entries with
  | nil => rw [putEntry, lookup_cons]
  | cons entry rest ih =>
    obtain ⟨k, e⟩ := entry
    rw [putEntry, lookup_cons]
    by_cases hk : k = key
    · subst hk
      rw [if_pos rfl, lookup_cons]
      by_cases hj : j = k <;> simp [hj]
    · rw [if_neg hk, lookup_cons, ih]
      by_cases hj : j = k
      · rw [if_pos hj, if_neg (hj ▸ hk), if_pos hj]
      · rw [if_neg hj, if_neg hj]

theorem lookup_put (t : Table) (key : String) (d : Descriptor) (j : String) :
    (t.put key d).lookup j = if j = key then some d else t.lookup j := by
  apply lookup_putEntry

theorem lookup_remove (t : Table) (key j : String) :
    (t.remove key).lookup j = if j = key then none else t.lookup j :=
  lookup_filter_ne t.entries key j

theorem lookup_freeze (t : Table) (key : String) :
    t.freeze.lookup key = (t.lookup key).map Descriptor.freeze := by
  simp only [lookup, freeze]
  induction t.entries with
  | nil => rfl
  | cons entry rest ih =>
    obtain ⟨k, e⟩ := entry
    rw [List.map_cons, lookup_cons, lookup_cons, ih]
    by_cases hk : key = k
    · rw [if_pos hk, if_pos hk]
      rfl
    · rw [if_neg hk, if_neg hk]

@[simp]
theorem lookup_preventExtensions (t : Table) (key : String) :
    t.preventExtensions.lookup key = t.lookup key :=
  rfl

theorem lookup_isSome_iff (t : Table) (key : String) : (t.lookup key).isSome ↔ key ∈ t.keys := by
  simp only [lookup, keys]
  induction t.entries with
  | nil => simp
  | cons entry rest ih =>
    obtain ⟨k, e⟩ := entry
    rw [lookup_cons, List.map_cons, List.mem_cons, ← ih]
    by_cases hk : key = k
    · simp [hk]
    · simp [hk]

theorem lookup_eq_none_iff (t : Table) (key : String) : t.lookup key = none ↔ key ∉ t.keys := by
  rw [← lookup_isSome_iff, Option.not_isSome_iff_eq_none]

theorem exists_lookup_of_mem {t : Table} {key : String} (hkey : key ∈ t.keys) :
    ∃ d, t.lookup key = some d :=
  Option.isSome_iff_exists.1 ((t.lookup_isSome_iff key).2 hkey)

theorem lookup_eq_some_iff (t : Table) (key : String) (d : Descriptor) :
    t.lookup key = some d ↔ (key, d) ∈ t.entries := by
  obtain ⟨entries, extensible, hnodup⟩ := t
  simp only [lookup]
  induction entries with
  | nil => simp
  | cons entry rest ih =>
    obtain ⟨k, e⟩ := entry
    rw [List.map_cons, List.nodup_cons] at hnodup
    rw [lookup_cons, List.mem_cons, Prod.mk.injEq]
    by_cases hk : key = k
    · -- the key of the first entry is not there a second time
      subst hk
      have habsent : (key, d) ∉ rest := fun hmem => hnodup.1 (List.mem_map.2 ⟨_, hmem, rfl⟩)
      simp [habsent, eq_comm]
    · simp [hk, ih hnodup.2]

theorem keys_put (t : Table) (key : String) (d : Descriptor) :
    (t.put key d).keys = if key ∈ t.keys then t.keys else t.keys ++ [key] := by
  apply keys_putEntry

theorem keys_remove (t : Table) (key : String) :
    (t.remove key).keys = t.keys.filter (· != key) := by
  simp only [keys, remove, List.filter_map]
  rfl

@[simp]
theorem keys_freeze (t : Table) : t.freeze.keys = t.keys := by
  simp only [keys, freeze, List.map_map]
  rfl

@[simp]
theorem keys_preventExtensions (t : Table) : t.preventExtensions.keys = t.keys :=
  rfl

end ObjectModel.Table
