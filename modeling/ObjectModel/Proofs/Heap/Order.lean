import ObjectModel.Proofs.Heap.Settled

/-!
The order of inheritance. The chain of a record that is met on the way up is what is left of the
way, so being above is a strict order, and whatever is above one record is in a row.
-/

namespace ObjectModel.Heap

theorem object?_object {h : Heap} {o : ObjectId} (ho : o < h.size) :
    h.object? (.object o) = some o :=
  if_pos ho

theorem strayEnd?_ne_object (h : Heap) (start : Option ObjectId) (a : ObjectId) :
    h.strayEnd? start ≠ some (.object a) := by
  intro hend
  obtain ⟨_, x, _, -, hx, -⟩ := List.findSome?_eq_some_iff.1 hend
  unfold strayLink? at hx
  split at hx
  · cases hx
  · cases hx
  · next hobject _ => exact hobject a (Option.some.inj hx)

variable {h : Heap} {start : Option ObjectId} {os : List ObjectId} {a b c o : ObjectId}

theorem Ascent.chain_suffix (ha : h.Ascent start os) {x : ObjectId} (hx : x ∈ os) :
    h.chain (some x) <:+ os := by
  induction ha with
  | top => cases hx
  | step hlt hrest ih =>
    cases hx with
    | head => exact (Ascent.step hlt hrest).chain_eq ▸ List.suffix_rfl
    | tail _ hx => exact (ih hx).trans (List.suffix_cons _ _)

namespace Settled

variable (hset : h.Settled)
include hset

theorem nodup_chain (ho : o < h.size) : (h.chain (some o)).Nodup := by
  obtain ⟨os, ha⟩ := hset o ho
  rw [ha.chain_eq]
  exact ha.nodup

theorem lt_size_of_mem_chain (ho : o < h.size) (ha : a ∈ h.chain (some o)) : a < h.size := by
  obtain ⟨os, has⟩ := hset o ho
  rw [has.chain_eq] at ha
  exact has.lt_size ha

theorem chain_eq_cons (ho : o < h.size) :
    h.chain (some o) = o :: h.chain (h.prototype o) := by
  obtain ⟨os, ha⟩ := hset o ho
  rw [ha.chain_eq]
  cases ha with
  | step hlt hrest => rw [hrest.chain_eq]

theorem mem_chain_self (ho : o < h.size) : o ∈ h.chain (some o) := by
  rw [hset.chain_eq_cons ho]
  exact List.mem_cons_self

theorem chain_suffix (ho : o < h.size) (ha : a ∈ h.chain (some o)) :
    h.chain (some a) <:+ h.chain (some o) := by
  obtain ⟨os, has⟩ := hset o ho
  rw [has.chain_eq] at ha ⊢
  exact has.chain_suffix ha

theorem isPrototypeOf_iff (ho : o < h.size) :
    h.isPrototypeOf a o = true ↔ a ∈ (h.chain (some o)).tail := by
  rw [isPrototypeOf, reaches_eq_contains, List.contains_iff_mem, hset.chain_eq_cons ho,
    List.tail_cons]

theorem not_mem_tail_self (ho : o < h.size) : o ∉ (h.chain (some o)).tail := by
  have hnodup := hset.nodup_chain ho
  rw [hset.chain_eq_cons ho, List.nodup_cons] at hnodup
  rw [hset.chain_eq_cons ho]
  exact hnodup.1

theorem mem_tail_trans (hc : c < h.size) (hab : a ∈ (h.chain (some b)).tail)
    (hbc : b ∈ (h.chain (some c)).tail) : a ∈ (h.chain (some c)).tail := by
  obtain ⟨os, has⟩ := hset c hc
  rw [has.chain_eq] at hbc ⊢
  cases has with
  | step hlt hrest => exact (hrest.chain_suffix hbc).subset (List.mem_of_mem_tail hab)

theorem mem_tail_of_mem_of_ne (ho : o < h.size) (ha : a ∈ h.chain (some o)) (hne : a ≠ o) :
    a ∈ (h.chain (some o)).tail := by
  rw [hset.chain_eq_cons ho] at ha ⊢
  exact List.mem_of_ne_of_mem hne ha

theorem mem_tail_or_mem_tail (ho : o < h.size) (ha : a ∈ (h.chain (some o)).tail)
    (hb : b ∈ (h.chain (some o)).tail) (hne : a ≠ b) :
    a ∈ (h.chain (some b)).tail ∨ b ∈ (h.chain (some a)).tail := by
  have ha := List.mem_of_mem_tail ha
  have hb := List.mem_of_mem_tail hb
  have halt := hset.lt_size_of_mem_chain ho ha
  have hblt := hset.lt_size_of_mem_chain ho hb
  -- both chains are what is left of one chain, so one of them goes on with the other
  obtain hsuffix | hsuffix := List.suffix_or_suffix_of_suffix (hset.chain_suffix ho ha)
    (hset.chain_suffix ho hb)
  · exact .inl (hset.mem_tail_of_mem_of_ne hblt (hsuffix.subset (hset.mem_chain_self halt)) hne)
  · exact .inr (hset.mem_tail_of_mem_of_ne halt (hsuffix.subset (hset.mem_chain_self hblt))
      hne.symm)

end Settled

theorem firstOwner_eq_some_iff {key : String} {x : ObjectId} {d : Descriptor} :
    h.firstOwner key os = some (x, d) ↔
      ∃ before after, os = before ++ x :: after ∧
        (∀ y ∈ before, (h.table y).lookup key = none) ∧ (h.table x).lookup key = some d := by
  rw [firstOwner, List.findSome?_eq_some_iff]
  constructor
  · rintro ⟨before, y, after, hos, hy, hbefore⟩
    obtain ⟨e, he, heq⟩ := Option.map_eq_some_iff.1 hy
    cases heq
    exact ⟨before, after, hos, fun z hz => Option.map_eq_none_iff.1 (hbefore z hz), he⟩
  · rintro ⟨before, after, hos, hbefore, hd⟩
    refine ⟨before, x, after, hos, ?_, fun z hz => ?_⟩
    · rw [hd, Option.map_some]
    · rw [hbefore z hz, Option.map_none]

theorem lookup_of_findProperty {start : Option ObjectId} {key : String} {d : Descriptor}
    (hfound : h.findProperty start key = some (o, d)) : (h.table o).lookup key = some d := by
  rw [findProperty_eq_firstOwner, firstOwner_eq_some_iff] at hfound
  obtain ⟨_, _, -, -, hd⟩ := hfound
  exact hd

theorem exists_strayLink?_of_strayEnd? {start : Option ObjectId} {v : Value}
    (hend : h.strayEnd? start = some v) : ∃ o, h.strayLink? o = some v := by
  obtain ⟨_, o, _, _, ho, _⟩ := List.findSome?_eq_some_iff.1 hend
  exact ⟨o, ho⟩

theorem firstOwner_isSome_iff {key : String} :
    (h.firstOwner key os).isSome ↔ ∃ x ∈ os, (h.table x).contains key = true := by
  simp [firstOwner, List.findSome?_isSome_iff, Table.contains]

end ObjectModel.Heap
