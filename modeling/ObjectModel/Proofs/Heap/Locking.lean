import ObjectModel.Proofs.Heap.Commuting
import ObjectModel.Proofs.Heap.Frozen

/-!
Freezing as a sequence of smaller changes: one property after the other is put back locked, and then
the table is closed. What is frozen stays frozen, and to freeze it again changes nothing.
-/

namespace ObjectModel

@[simp]
theorem Descriptor.freeze_freeze (d : Descriptor) : d.freeze.freeze = d.freeze := by
  obtain ⟨slot, enumerable, configurable⟩ := d
  cases slot <;> rfl

namespace Table

variable {t : Table} {key : String} {keys : List String} {d : Descriptor}

@[simp]
theorem freeze_freeze (t : Table) : t.freeze.freeze = t.freeze := by
  refine ext_of_entries ?_ rfl
  simp only [freeze, List.map_map]
  exact List.map_congr_left fun entry _ => by simp

def lockAll (t : Table) (keys : List String) : Table where
  entries := t.entries.map fun entry =>
    if entry.1 ∈ keys then (entry.1, entry.2.freeze) else entry
  extensible := t.extensible
  nodup := by
    have hkeys : Prod.fst ∘ (fun entry : String × Descriptor =>
        if entry.1 ∈ keys then (entry.1, entry.2.freeze) else entry) = Prod.fst := by
      funext entry
      rw [Function.comp_apply]
      split <;> rfl
    rw [List.map_map, hkeys]
    exact t.nodup

theorem lockAll_nil (t : Table) : t.lockAll [] = t := by
  refine ext_of_entries ?_ rfl
  simp [lockAll]

theorem lookup_lockAll_of_not_mem (hd : t.lookup key = some d) (hkey : key ∉ keys) :
    (t.lockAll keys).lookup key = some d := by
  rw [lookup_eq_some_iff] at hd ⊢
  exact List.mem_map.2 ⟨_, hd, if_neg hkey⟩

theorem putEntry_eq_map {entries : List (String × Descriptor)}
    (hnodup : (entries.map Prod.fst).Nodup) (hd : (key, d) ∈ entries) (d' : Descriptor) :
    putEntry key d' entries =
      entries.map fun entry => if entry.1 = key then (key, d') else entry := by
  induction entries with
  | nil => cases hd
  | cons entry rest ih =>
    rw [List.map_cons, List.nodup_cons] at hnodup
    rw [putEntry, List.map_cons]
    by_cases hkey : entry.1 = key
    · have habsent : ∀ other ∈ rest, other.1 ≠ key := by
        rintro other hother rfl
        exact hnodup.1 (hkey ▸ List.mem_map_of_mem hother)
      rw [if_pos hkey, if_pos hkey, List.map_congr_left fun other hother =>
        if_neg (habsent other hother), List.map_id']
    · have hrest : (key, d) ∈ rest := by
        refine (List.mem_cons.1 hd).resolve_left ?_
        rintro rfl
        exact hkey rfl
      rw [if_neg hkey, if_neg hkey, ih hnodup.2 hrest]

theorem lockAll_cons (hd : t.lookup key = some d) (hkeys : key ∉ keys) :
    (t.put key d.freeze).lockAll keys = t.lockAll (key :: keys) := by
  refine ext_of_entries ?_ rfl
  have hmem := (t.lookup_eq_some_iff key d).1 hd
  simp only [lockAll, put, putEntry_eq_map t.nodup hmem, List.map_map]
  refine List.map_congr_left fun entry hentry => ?_
  rw [Function.comp_apply]
  by_cases hkey : entry.1 = key
  · -- there is only one entry under the key
    have hlookup : t.lookup key = some entry.2 :=
      (t.lookup_eq_some_iff key entry.2).2 (hkey ▸ hentry)
    rw [hd] at hlookup
    cases hlookup
    simp [hkey, hkeys]
  · simp [hkey]

theorem preventExtensions_lockAll (hkeys : ∀ key ∈ t.keys, key ∈ keys) :
    (t.lockAll keys).preventExtensions = t.freeze := by
  refine ext_of_entries ?_ rfl
  refine List.map_congr_left fun entry hentry => ?_
  rw [if_pos (hkeys _ (List.mem_map_of_mem hentry))]

theorem Frozen.removable (ht : t.Frozen) (key : String) : t.removable key = false := by
  rw [Table.removable]
  split
  · next d hd => exact (ht.properties key d hd).configurable
  · rfl

end Table

namespace Heap

variable {h : Heap} {o : ObjectId}

theorem freeze_freeze (h : Heap) (o : ObjectId) :
    (h.apply (.freeze o)).apply (.freeze o) = h.apply (.freeze o) := by
  simp only [apply, updateTable_updateTable]
  exact h.updateTable_congr o (Table.freeze_freeze _)

theorem preventExtensions_lockAll {keys : List String}
    (hkeys : ∀ key ∈ (h.table o).keys, key ∈ keys) :
    (h.updateTable o (·.lockAll keys)).apply (.preventExtensions o) = h.apply (.freeze o) := by
  simp only [apply, updateTable_updateTable]
  exact h.updateTable_congr o (Table.preventExtensions_lockAll hkeys)

theorem lockAll_nil (h : Heap) (o : ObjectId) : h.updateTable o (·.lockAll []) = h := by
  have hid : (fun t : Table => t.lockAll []) = id := funext Table.lockAll_nil
  rw [hid, updateTable_id]

theorem define_lockAll {key : String} {keys : List String} {d : Descriptor}
    (hd : (h.table o).lookup key = some d) (hkey : key ∉ keys) :
    (h.apply (.define o key d.freeze)).updateTable o (·.lockAll keys) =
      h.updateTable o (·.lockAll (key :: keys)) := by
  simp only [apply, updateTable_updateTable]
  exact h.updateTable_congr o (Table.lockAll_cons hd hkey)

theorem Admits.frozen {events : List Event} (hadmits : h.Admits events)
    (hfrozen : (h.table o).Frozen) : ((events.foldl after h).table o).Frozen := by
  have hkeys := keys_eq_of_frozen hadmits.keepsLocks hadmits.keepsShapes hfrozen
  refine ⟨(hadmits.keepsShapes o hfrozen.extensible).1, fun key d' hd' => ?_⟩
  have hkey : key ∈ (h.table o).keys := by
    rw [← hkeys, ← Table.lookup_isSome_iff, hd']
    rfl
  obtain ⟨d, hd⟩ := Table.exists_lookup_of_mem hkey
  obtain ⟨d'', hd'', hto⟩ := hadmits.keepsFrozen hfrozen hd
  cases hd'.symm.trans hd''
  exact hto.frozen

end Heap

end ObjectModel
