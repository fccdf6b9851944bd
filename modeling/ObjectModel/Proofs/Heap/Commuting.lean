import ObjectModel.Proofs.Heap.Shadowing
import ObjectModel.Proofs.Heap.Splicing

/-!
Definitions in either order. Those on different records commute, and on one record those under
different keys do, unless both keys are new: then the keys are in the order of the definitions.
-/

namespace ObjectModel

namespace Table

variable {j k : String}

theorem ext_of_entries {t t' : Table} (hentries : t.entries = t'.entries)
    (hextensible : t.extensible = t'.extensible) : t = t' := by
  cases t
  cases t'
  cases hentries
  cases hextensible
  rfl

theorem putEntry_comm (hne : j ≠ k) (d e : Descriptor) {entries : List (String × Descriptor)}
    (hold : j ∈ entries.map Prod.fst ∨ k ∈ entries.map Prod.fst) :
    putEntry k e (putEntry j d entries) = putEntry j d (putEntry k e entries) := by
  induction entries with
  | nil => simp at hold
  | cons entry rest ih =>
    by_cases hj : entry.1 = j
    · have hk : entry.1 ≠ k := hj ▸ hne
      rw [putEntry, if_pos hj, putEntry, if_neg hne, putEntry, if_neg hk, putEntry, if_pos hj]
    · by_cases hk : entry.1 = k
      · rw [putEntry, if_neg hj, putEntry, if_pos hk, putEntry, if_pos hk, putEntry,
          if_neg hne.symm]
      · rw [List.map_cons, List.mem_cons, List.mem_cons, or_iff_right (Ne.symm hj),
          or_iff_right (Ne.symm hk)] at hold
        rw [putEntry, if_neg hj, putEntry, if_neg hk, putEntry, if_neg hk, putEntry, if_neg hj,
          ih hold]

theorem put_comm (t : Table) (hne : j ≠ k) (d e : Descriptor) (hold : j ∈ t.keys ∨ k ∈ t.keys) :
    (t.put j d).put k e = (t.put k e).put j d :=
  ext_of_entries (putEntry_comm hne d e hold) rfl

end Table

namespace Heap

variable {h : Heap} {o p : ObjectId} {j k key : String}

theorem updateTable_updateTable (h : Heap) (o : ObjectId) (f g : Table → Table) :
    (h.updateTable o f).updateTable o g = h.updateTable o (g ∘ f) := by
  simp only [updateTable]
  congr 1
  apply Array.ext
  · simp
  · intro i _ _
    by_cases hi : o = i <;> simp [Array.getElem_modify, hi]

theorem updateTable_id (h : Heap) (o : ObjectId) : h.updateTable o id = h := by
  obtain ⟨records, epoch⟩ := h
  simp only [updateTable, mk.injEq, and_true]
  apply Array.ext
  · simp
  · intro i _ _
    by_cases hi : o = i <;> simp [Array.getElem_modify, hi]

theorem updateTable_comm (h : Heap) (hne : o ≠ p) (f g : Table → Table) :
    (h.updateTable o f).updateTable p g = (h.updateTable p g).updateTable o f := by
  simp only [updateTable]
  congr 1
  apply Array.ext
  · simp
  · intro i _ _
    by_cases ho : o = i
    · subst ho
      simp [Array.getElem_modify, hne.symm]
    · by_cases hp : p = i <;> simp [Array.getElem_modify, ho, hp]

theorem updateTable_congr (h : Heap) (o : ObjectId) {f g : Table → Table}
    (hfg : f (h.table o) = g (h.table o)) : h.updateTable o f = h.updateTable o g := by
  simp only [updateTable]
  congr 1
  apply Array.ext
  · simp
  · intro i hi _
    by_cases ho : o = i
    · subst ho
      have hlt : o < h.records.size := by simpa using hi
      have htable : h.table o = h.records[o].table := by
        rw [table, Array.getElem?_eq_getElem hlt]
        rfl
      rw [htable] at hfg
      simp [Array.getElem_modify, hfg]
    · simp [Array.getElem_modify, ho]

theorem apply_define_comm (h : Heap) (hapart : o ≠ p ∨ j ≠ k) (d e : Descriptor)
    (hold : o = p → j ∈ (h.table o).keys ∨ k ∈ (h.table o).keys) :
    (h.apply (.define o j d)).apply (.define p k e) =
      (h.apply (.define p k e)).apply (.define o j d) := by
  by_cases hop : o = p
  · subst hop
    simp only [apply, updateTable_updateTable]
    apply updateTable_congr
    exact Table.put_comm _ (hapart.resolve_left fun hne => hne rfl) d e (hold rfl)
  · exact h.updateTable_comm hop (·.put j d) (·.put k e)

theorem Ascent.firstOwner_of_exposes {start : Option ObjectId} {os : List ObjectId}
    (ha : h.Ascent start os) (hos : h.Exposes key o os) :
    h.firstOwner key os = h.findProperty (some o) key := by
  induction ha with
  | top => exact absurd hos (h.not_exposes_nil key o)
  | @step x rest hlt hrest ih =>
    by_cases hx : x = o
    · subst hx
      rw [findProperty_eq_firstOwner, (Ascent.step hlt hrest).chain_eq]
    · obtain ⟨hlookup, hos⟩ := (exposes_cons_of_ne hx rest).1 hos
      rw [← ih hos, firstOwner, List.findSome?_cons, hlookup]
      rfl

theorem Settled.search_eq_of_exposes (hset : h.Settled) (hp : p < h.size)
    (hos : h.Exposes key o (h.chain (some p))) :
    h.findProperty (some p) key = h.findProperty (some o) key ∧
      h.strayEnd? (some p) = h.strayEnd? (some o) := by
  obtain ⟨os, ha⟩ := hset p hp
  rw [ha.chain_eq] at hos
  rw [findProperty_eq_firstOwner h (some p), ha.chain_eq]
  exact ⟨ha.firstOwner_of_exposes hos, ha.strayEnd?_eq hos.1⟩

end Heap

end ObjectModel
