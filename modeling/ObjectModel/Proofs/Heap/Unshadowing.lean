import ObjectModel.Proofs.Heap.Shadowing
import ObjectModel.Proofs.Heap.Splicing

/-!
What it does to the searches along the chains when an own property goes. Those that ended at its
record go on above it, and nothing else is found differently.
-/

namespace ObjectModel.Heap

variable {h : Heap} {start : Option ObjectId} {before after os : List ObjectId} {o x : ObjectId}
  {key j : String} {d : Descriptor}

theorem Ascent.of_append (ha : h.Ascent start (before ++ o :: after)) :
    h.Ascent (h.prototype o) after := by
  induction before generalizing start with
  | nil =>
    cases ha with
    | step hlt hrest => exact hrest
  | cons y rest ih =>
    cases ha with
    | step hlt hrest => exact ih hrest

theorem Settled.exists_before (hset : h.Settled) (hx : x < h.size)
    (hfound : h.findProperty (some x) key = some (o, d)) :
    ∃ before, h.chain (some x) = before ++ o :: h.chain (h.prototype o) ∧
      (∀ y ∈ before, (h.table y).lookup key = none) ∧ o ∉ h.chain (h.prototype o) := by
  obtain ⟨os, ha⟩ := hset x hx
  rw [findProperty_eq_firstOwner, ha.chain_eq] at hfound
  obtain ⟨before, after, rfl, hbefore, -⟩ := firstOwner_eq_some_iff.1 hfound
  have hnodup := (List.nodup_append.1 ha.nodup).2.1
  rw [ha.chain_eq, ha.of_append.chain_eq]
  exact ⟨before, rfl, hbefore, (List.nodup_cons.1 hnodup).1⟩

section Removal

variable (ho : o < h.size)
include ho

theorem lookup_remove (key : String) (x : ObjectId) (j : String) :
    ((h.apply (.remove o key)).table x).lookup j =
      if x = o ∧ j = key then none else (h.table x).lookup j := by
  rw [apply, table_updateTable]
  by_cases hx : o = x
  · subst hx
    rw [if_pos ⟨rfl, ho⟩, Table.lookup_remove]
    simp
  · rw [if_neg (not_and_of_not_left _ hx), if_neg (not_and_of_not_left _ (Ne.symm hx))]

theorem firstOwner_remove_of_not_owner (hos : j = key → ∀ d, h.firstOwner key os ≠ some (o, d)) :
    (h.apply (.remove o key)).firstOwner j os = h.firstOwner j os := by
  induction os with
  | nil => rfl
  | cons x rest ih =>
    rw [firstOwner, firstOwner, List.findSome?_cons, List.findSome?_cons, lookup_remove ho]
    cases hlookup : (h.table x).lookup j with
    | some e =>
      have hx : ¬ (x = o ∧ j = key) := by
        rintro ⟨rfl, rfl⟩
        refine hos rfl e ?_
        rw [firstOwner, List.findSome?_cons, hlookup, Option.map_some]
      rw [if_neg hx]
      rfl
    | none =>
      rw [ite_self]
      apply ih
      rintro rfl d hrest
      refine hos rfl d ?_
      rw [firstOwner, List.findSome?_cons, hlookup]
      exact hrest

theorem firstOwner_remove_of_owner (hbefore : ∀ y ∈ before, (h.table y).lookup key = none)
    (after : List ObjectId) :
    (h.apply (.remove o key)).firstOwner key (before ++ o :: after) =
      (h.apply (.remove o key)).firstOwner key after := by
  induction before with
  | nil =>
    rw [List.nil_append, firstOwner, List.findSome?_cons, lookup_remove ho, if_pos ⟨rfl, rfl⟩]
    rfl
  | cons y rest ih =>
    rw [List.forall_mem_cons] at hbefore
    rw [List.cons_append, firstOwner, List.findSome?_cons, lookup_remove ho, hbefore.1, ite_self]
    exact ih hbefore.2

theorem findProperty_remove_of_not_owner
    (hstart : j = key → ∀ d, h.findProperty start key ≠ some (o, d)) :
    (h.apply (.remove o key)).findProperty start j = h.findProperty start j := by
  simp only [findProperty_eq_firstOwner] at hstart ⊢
  rw [apply, chain_updateTable]
  exact firstOwner_remove_of_not_owner ho hstart

theorem Settled.findProperty_remove_of_owner (hset : h.Settled) (hx : x < h.size)
    (hfound : h.findProperty (some x) key = some (o, d)) :
    (h.apply (.remove o key)).findProperty (some x) key =
        (h.apply (.remove o key)).findProperty (h.prototype o) key ∧
      (h.apply (.remove o key)).findProperty (h.prototype o) key =
        h.findProperty (h.prototype o) key := by
  obtain ⟨before, hchain, hbefore, habove⟩ := hset.exists_before hx hfound
  constructor
  · rw [findProperty_eq_firstOwner, findProperty_eq_firstOwner, apply, chain_updateTable,
      chain_updateTable, hchain]
    exact firstOwner_remove_of_owner ho hbefore _
  · apply findProperty_remove_of_not_owner ho
    rintro - d' hfound'
    rw [findProperty_eq_firstOwner, firstOwner_eq_some_iff] at hfound'
    obtain ⟨before', after', hchain', -, -⟩ := hfound'
    rw [hchain'] at habove
    exact habove (List.mem_append_right _ List.mem_cons_self)

end Removal

end ObjectModel.Heap
