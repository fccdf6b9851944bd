import ObjectModel.Proofs.Heap.Admissible
import ObjectModel.Proofs.Heap.Walk
import ObjectModel.Proofs.Table

/-!
What one own property does to every search along the chains: it is found where the search comes to
its record at all, and nothing else is found differently.
-/

namespace ObjectModel.Heap

variable {h : Heap} {o : ObjectId} {key : String} {d : Descriptor}

/-- A search for the key along these records comes to `o`: no record strictly before owns it. -/
def Exposes (h : Heap) (key : String) (o : ObjectId) (os : List ObjectId) : Prop :=
  o ∈ os ∧ ∀ x ∈ os.takeWhile (· ≠ o), (h.table x).lookup key = none

instance (h : Heap) (key : String) (o : ObjectId) (os : List ObjectId) :
    Decidable (h.Exposes key o os) :=
  inferInstanceAs (Decidable (_ ∧ _))

theorem not_exposes_nil (h : Heap) (key : String) (o : ObjectId) : ¬ h.Exposes key o [] :=
  fun hexposes => nomatch hexposes.1

theorem exposes_cons_self (h : Heap) (key : String) (o : ObjectId) (os : List ObjectId) :
    h.Exposes key o (o :: os) := by
  simp [Exposes]

theorem exposes_cons_of_ne {x : ObjectId} (hx : x ≠ o) (os : List ObjectId) :
    h.Exposes key o (x :: os) ↔ (h.table x).lookup key = none ∧ h.Exposes key o os := by
  simp [Exposes, hx, Ne.symm hx, and_left_comm]

theorem prototype_updateTable (h : Heap) (o : ObjectId) (f : Table → Table) (x : ObjectId) :
    (h.updateTable o f).prototype x = h.prototype x := by
  rw [prototype, prototype, link_updateTable]

theorem chain_updateTable (h : Heap) (o : ObjectId) (f : Table → Table)
    (start : Option ObjectId) : (h.updateTable o f).chain start = h.chain start := by
  have hgo (steps : Nat) : chain.go (h.updateTable o f) steps start = chain.go h steps start := by
    induction steps generalizing start with
    | zero => cases start <;> rfl
    | succ steps ih =>
      cases start with
      | none => rfl
      | some x => rw [chain.go, chain.go, prototype_updateTable, ih]
  rw [chain, chain, size_updateTable, hgo]

theorem strayEnd?_updateTable (h : Heap) (o : ObjectId) (f : Table → Table)
    (start : Option ObjectId) : (h.updateTable o f).strayEnd? start = h.strayEnd? start := by
  have hstray : (h.updateTable o f).strayLink? = h.strayLink? := by
    funext x
    rw [strayLink?, strayLink?, link_updateTable]
  rw [strayEnd?, strayEnd?, chain_updateTable, hstray]

theorem lookup_define (ho : o < h.size) (key : String) (d : Descriptor) (x : ObjectId)
    (j : String) :
    ((h.apply (.define o key d)).table x).lookup j =
      if x = o ∧ j = key then some d else (h.table x).lookup j := by
  rw [apply, table_updateTable]
  by_cases hx : o = x
  · subst hx
    rw [if_pos ⟨rfl, ho⟩, Table.lookup_put]
    simp
  · rw [if_neg (not_and_of_not_left _ hx), if_neg (not_and_of_not_left _ (Ne.symm hx))]

theorem firstOwner_define_of_exposes (ho : o < h.size) (d : Descriptor) {os : List ObjectId}
    (hos : h.Exposes key o os) : (h.apply (.define o key d)).firstOwner key os = some (o, d) := by
  induction os with
  | nil => exact absurd hos (h.not_exposes_nil key o)
  | cons x rest ih =>
    rw [firstOwner, List.findSome?_cons, lookup_define ho]
    by_cases hx : x = o
    · simp [hx]
    · obtain ⟨hlookup, hrest⟩ := (exposes_cons_of_ne hx rest).1 hos
      rw [if_neg (not_and_of_not_left _ hx), hlookup]
      exact ih hrest

theorem firstOwner_define_of_not_exposes (ho : o < h.size) (d : Descriptor) {j : String}
    {os : List ObjectId} (hos : ¬ (j = key ∧ h.Exposes key o os)) :
    (h.apply (.define o key d)).firstOwner j os = h.firstOwner j os := by
  induction os with
  | nil => rfl
  | cons x rest ih =>
    rw [firstOwner, firstOwner, List.findSome?_cons, List.findSome?_cons, lookup_define ho]
    have hx : ¬ (x = o ∧ j = key) := by
      rintro ⟨rfl, hj⟩
      exact hos ⟨hj, h.exposes_cons_self key x rest⟩
    rw [if_neg hx]
    cases hlookup : (h.table x).lookup j with
    | some e => rfl
    | none =>
      apply ih
      rintro ⟨rfl, hrest⟩
      have hne : x ≠ o := fun hxo => hx ⟨hxo, rfl⟩
      exact hos ⟨rfl, (exposes_cons_of_ne hne rest).2 ⟨hlookup, hrest⟩⟩

theorem findProperty_define_of_exposes (ho : o < h.size) (d : Descriptor)
    {start : Option ObjectId} (hstart : h.Exposes key o (h.chain start)) :
    (h.apply (.define o key d)).findProperty start key = some (o, d) := by
  rw [findProperty_eq_firstOwner, apply, chain_updateTable]
  exact firstOwner_define_of_exposes ho d hstart

theorem findProperty_define_of_not_exposes (ho : o < h.size) (d : Descriptor) {j : String}
    {start : Option ObjectId} (hstart : ¬ (j = key ∧ h.Exposes key o (h.chain start))) :
    (h.apply (.define o key d)).findProperty start j = h.findProperty start j := by
  rw [findProperty_eq_firstOwner, findProperty_eq_firstOwner, apply, chain_updateTable]
  exact firstOwner_define_of_not_exposes ho d hstart

end ObjectModel.Heap
