import ObjectModel.Proofs.Heap.Insertion
import ObjectModel.Proofs.Script.Closed

/-!
Own keys in runs. They stand in the order of the moments at which they came, each counted from the
last time that it came anew.
-/

namespace ObjectModel.Script.Program

variable {p : Program} {o : ObjectId} {key : String} {n i j : Nat}

def keysAt (p : Program) (o : ObjectId) (n : Nat) : List String :=
  ((p.heapAt n).table o).keys

/-- At the moment `i` the key was not there, and from the next one to the moment `n` it was. -/
structure AddedAt (p : Program) (o : ObjectId) (key : String) (n i : Nat) : Prop where
  lt : i < n
  new : key ∉ p.keysAt o i
  stays : ∀ j, i < j → j ≤ n → key ∈ p.keysAt o j

theorem keysStep_keysAt (p : Program) (o : ObjectId) (n : Nat) :
    ∃ removes, Table.KeysStep removes (p.keysAt o n) (p.keysAt o (n + 1)) := by
  cases hevent : p.events[n]? with
  | some event =>
    rw [keysAt, keysAt, heapAt_succ hevent]
    exact ⟨_, Heap.keysStep_after _ event o⟩
  | none =>
    exact ⟨False, .kept (by rw [keysAt, heapAt_succ_of_none hevent, keysAt])⟩

theorem AddedAt.mem (h : p.AddedAt o key n i) : key ∈ p.keysAt o n :=
  h.stays n h.lt (Nat.le_refl n)

theorem AddedAt.unique (h : p.AddedAt o key n i) (h' : p.AddedAt o key n j) : i = j := by
  rcases Nat.lt_trichotomy i j with hlt | heq | hgt
  · exact absurd (h.stays j hlt (Nat.le_of_lt h'.lt)) h'.new
  · exact heq
  · exact absurd (h'.stays i hgt (Nat.le_of_lt h.lt)) h.new

theorem addedAt_succ_of_mem (hkey : key ∈ p.keysAt o n) (hkey' : key ∈ p.keysAt o (n + 1)) :
    p.AddedAt o key (n + 1) i ↔ p.AddedAt o key n i := by
  constructor
  · intro h
    have hne : i ≠ n := by
      rintro rfl
      exact h.new hkey
    have hlt := h.lt
    exact ⟨by omega, h.new, fun j hj hjn => h.stays j hj (by omega)⟩
  · intro h
    refine ⟨Nat.lt_succ_of_lt h.lt, h.new, fun j hj hjn => ?_⟩
    cases Nat.le_succ_iff.1 hjn with
    | inl hle => exact h.stays j hj hle
    | inr heq => exact heq ▸ hkey'

theorem addedAt_succ_self (hnew : key ∉ p.keysAt o n) (hkey : key ∈ p.keysAt o (n + 1)) :
    p.AddedAt o key (n + 1) n := by
  refine ⟨Nat.lt_succ_self n, hnew, fun j hj hjn => ?_⟩
  obtain rfl : j = n + 1 := by omega
  exact hkey

theorem exists_addedAt (hkey : key ∈ p.keysAt o n) : ∃ i, p.AddedAt o key n i := by
  induction n with
  | zero => cases hkey
  | succ n ih =>
    by_cases hold : key ∈ p.keysAt o n
    · obtain ⟨i, hi⟩ := ih hold
      exact ⟨i, (addedAt_succ_of_mem hold hkey).2 hi⟩
    · exact ⟨n, addedAt_succ_self hold hkey⟩

theorem mem_keysAt_iff : key ∈ p.keysAt o n ↔ ∃! i, p.AddedAt o key n i := by
  constructor
  · intro hkey
    obtain ⟨i, hi⟩ := exists_addedAt hkey
    exact ⟨i, hi, fun _ hj => hj.unique hi⟩
  · rintro ⟨i, hi, -⟩
    exact hi.mem

def Earlier (p : Program) (o : ObjectId) (n : Nat) (a b : String) : Prop :=
  ∀ i j, p.AddedAt o a n i → p.AddedAt o b n j → i < j

theorem Earlier.succ {a b : String} (h : p.Earlier o n a b) (ha : a ∈ p.keysAt o n)
    (hb : b ∈ p.keysAt o n) (ha' : a ∈ p.keysAt o (n + 1)) (hb' : b ∈ p.keysAt o (n + 1)) :
    p.Earlier o (n + 1) a b := by
  intro i j hi hj
  exact h i j ((addedAt_succ_of_mem ha ha').1 hi) ((addedAt_succ_of_mem hb hb').1 hj)

theorem Earlier.of_new {a b : String} (ha : a ∈ p.keysAt o n) (ha' : a ∈ p.keysAt o (n + 1))
    (hb : b ∉ p.keysAt o n) (hb' : b ∈ p.keysAt o (n + 1)) : p.Earlier o (n + 1) a b := by
  intro i j hi hj
  rw [hj.unique (addedAt_succ_self hb hb')]
  exact ((addedAt_succ_of_mem ha ha').1 hi).lt

theorem pairwise_earlier_keysAt (p : Program) (o : ObjectId) (n : Nat) :
    (p.keysAt o n).Pairwise (p.Earlier o n) := by
  induction n with
  | zero => exact .nil
  | succ n ih =>
    -- what is there before and after has come at the same moment, whether seen from `n` or `n + 1`
    have hstays {keys : List String} (hkeys : keys.Sublist (p.keysAt o n))
        (hsub : keys ⊆ p.keysAt o (n + 1)) : keys.Pairwise (p.Earlier o (n + 1)) := by
      refine (ih.sublist hkeys).imp_of_mem ?_
      intro a b ha hb h
      exact h.succ (hkeys.subset ha) (hkeys.subset hb) (hsub ha) (hsub hb)
    obtain ⟨_, hstep⟩ := p.keysStep_keysAt o n
    cases hstep with
    | kept hnext =>
      rw [hnext] at hstays ⊢
      exact hstays (List.Sublist.refl _) (List.Subset.refl _)
    | added key hnew hnext =>
      have hold : p.keysAt o n ⊆ p.keysAt o (n + 1) := by
        rw [hnext]
        exact List.subset_append_left _ _
      have hkey : key ∈ p.keysAt o (n + 1) := by
        rw [hnext]
        exact List.mem_append_right _ (List.mem_singleton_self key)
      have hlast : ∀ a ∈ p.keysAt o n, ∀ b ∈ [key], p.Earlier o (n + 1) a b := by
        intro a ha b hb
        rw [List.mem_singleton.1 hb]
        exact .of_new ha (hold ha) hnew hkey
      rw [hnext]
      exact List.pairwise_append.2
        ⟨hstays (List.Sublist.refl _) hold, List.pairwise_singleton _ _, hlast⟩
    | removed _ key hnext =>
      rw [hnext] at hstays ⊢
      exact hstays List.filter_sublist (List.Subset.refl _)

end ObjectModel.Script.Program
