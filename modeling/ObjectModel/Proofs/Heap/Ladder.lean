import Mathlib.Data.Nat.Init
import ObjectModel.Proofs.Heap.Order

/-!
Records that are linked in a row, each to one that is older. Which of them is on the chain of which
is a matter of their places in the row.
-/

namespace ObjectModel.Heap

structure Ladder (h : Heap) (height : Nat) (rung : Nat → ObjectId) : Prop where
  lt_size : ∀ i ≤ height, rung i < h.size
  lt_succ : ∀ i < height, rung i < rung (i + 1)
  link_succ : ∀ i < height, h.link (rung (i + 1)) = .object (rung i)
  base : ∀ x ∈ h.chain (some (rung 0)), x ≤ rung 0

variable {h : Heap} {height : Nat} {rung : Nat → ObjectId} {i j : Nat}

theorem Ladder.lt_of_lt (hl : h.Ladder height rung) (hij : i < j) (hj : j ≤ height) :
    rung i < rung j := by
  induction j, hij using Nat.le_induction with
  | base => exact hl.lt_succ i hj
  | succ j _ ih => exact Nat.lt_trans (ih (Nat.le_of_succ_le hj)) (hl.lt_succ j hj)

theorem Ladder.chain_succ (hl : h.Ladder height rung) (hset : h.Settled) (hi : i < height) :
    h.chain (some (rung (i + 1))) = rung (i + 1) :: h.chain (some (rung i)) := by
  rw [hset.chain_eq_cons (hl.lt_size (i + 1) hi), prototype, hl.link_succ i hi]

theorem Ladder.le_of_mem_chain (hl : h.Ladder height rung) (hset : h.Settled) (hi : i ≤ height)
    {x : ObjectId} (hx : x ∈ h.chain (some (rung i))) : x ≤ rung i := by
  induction i with
  | zero => exact hl.base x hx
  | succ i ih =>
    rw [hl.chain_succ hset hi, List.mem_cons] at hx
    obtain rfl | hx := hx
    · exact Nat.le_refl _
    · exact Nat.le_trans (ih (Nat.le_of_succ_le hi) hx) (Nat.le_of_lt (hl.lt_succ i hi))

theorem Ladder.mem_chain_iff (hl : h.Ladder height rung) (hset : h.Settled) (hi : i ≤ height)
    (hj : j ≤ height) : rung j ∈ h.chain (some (rung i)) ↔ j ≤ i := by
  constructor
  · intro hmem
    by_contra hij
    exact Nat.not_lt.2 (hl.le_of_mem_chain hset hi hmem) (hl.lt_of_lt (Nat.not_le.1 hij) hj)
  · intro hij
    induction i, hij using Nat.le_induction with
    | base => exact hset.mem_chain_self (hl.lt_size j hj)
    | succ i _ ih =>
      rw [hl.chain_succ hset hi]
      exact List.mem_cons_of_mem _ (ih (Nat.le_of_succ_le hi))

theorem Ladder.mem_tail_iff (hl : h.Ladder height rung) (hset : h.Settled) (hi : i ≤ height)
    (hj : j ≤ height) : rung j ∈ (h.chain (some (rung i))).tail ↔ j < i := by
  constructor
  · intro hmem
    have hle := (hl.mem_chain_iff hset hi hj).1 (List.mem_of_mem_tail hmem)
    refine Nat.lt_of_le_of_ne hle ?_
    rintro rfl
    exact hset.not_mem_tail_self (hl.lt_size j hj) hmem
  · intro hji
    refine hset.mem_tail_of_mem_of_ne (hl.lt_size i hi) ?_ (Nat.ne_of_lt (hl.lt_of_lt hji hi))
    exact (hl.mem_chain_iff hset hi hj).2 (Nat.le_of_lt hji)

end ObjectModel.Heap
