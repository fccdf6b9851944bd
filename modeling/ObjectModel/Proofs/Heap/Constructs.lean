import ObjectModel.Proofs.Heap.Holding
import ObjectModel.Proofs.Heap.Order
import ObjectModel.Proofs.Heap.Shadowing
import ObjectModel.Realm.Construction

/-!
The heap after a constructor was created: two new records with their properties, and every older one
as it was.
-/

namespace ObjectModel.Heap

def construct (h : Heap) (link parent : Option ObjectId) (c : Constructor) : Heap :=
  let constructor := h.size
  let prototype := h.size + 1
  ((((h.apply (.allocate (.ofLink link) (some c) true)).apply
    (.allocate (.ofLink parent) none true)).apply
    (.define prototype "constructor" (Realm.hidden (.object constructor) true true))).apply
    (.define constructor "prototype" (Realm.hidden (.object prototype) true false))).apply
    (.define constructor "name" (Realm.hidden c.name false true))

structure Constructs (h h' : Heap) (o : ObjectId) (link parent : Option ObjectId) : Prop where
  object : o = h.size
  size_eq : h'.size = h.size + 2
  lt_of_link : ∀ l ∈ link, l < o
  lt_of_parent : ∀ p ∈ parent, p < o + 1
  link_object : h'.link o = .ofLink link
  link_prototype : h'.link (o + 1) = .ofLink parent
  link_of_lt : ∀ x < h.size, h'.link x = h.link x
  constructor? : ∃ c, h'.constructor? o = some c
  holds : h'.Holds o "prototype" (.object (o + 1))

variable {h h' : Heap} {o : ObjectId} {link parent : Option ObjectId}

theorem prototype_of_link (hlink : h.link o = .ofLink link) : h.prototype o = link := by
  rw [prototype, hlink]
  cases link <;> rfl

theorem table_of_size_le (ho : h.size ≤ o) : h.table o = .empty := by
  rw [table, Array.getElem?_eq_none ho]
  rfl

theorem lt_size_of_lookup {key : String} {d : Descriptor}
    (hd : (h.table o).lookup key = some d) : o < h.size := by
  refine Nat.lt_of_not_le fun hsize => ?_
  rw [table_of_size_le hsize] at hd
  cases hd

@[simp]
theorem size_define (h : Heap) (o : ObjectId) (key : String) (d : Descriptor) :
    (h.apply (.define o key d)).size = h.size :=
  size_updateTable h o _

@[simp]
theorem link_define (h : Heap) (o : ObjectId) (key : String) (d : Descriptor) (x : ObjectId) :
    (h.apply (.define o key d)).link x = h.link x :=
  link_updateTable h o _ x

@[simp]
theorem constructor?_define (h : Heap) (o : ObjectId) (key : String) (d : Descriptor)
    (x : ObjectId) : (h.apply (.define o key d)).constructor? x = h.constructor? x :=
  constructor?_updateTable h o _ x

@[simp]
theorem extensible_define (h : Heap) (o : ObjectId) (key : String) (d : Descriptor)
    (x : ObjectId) :
    ((h.apply (.define o key d)).table x).extensible = (h.table x).extensible := by
  rw [apply, table_updateTable]
  split <;> rfl

section Construct

variable (h link parent) (c : Constructor)

theorem link_construct (x : ObjectId) : (h.construct link parent c).link x =
    if x = h.size + 1 then .ofLink parent else if x = h.size then .ofLink link else h.link x := by
  simp only [construct, link_define, link_allocate, size_allocate]

theorem constructor?_construct (x : ObjectId) : (h.construct link parent c).constructor? x =
    if x = h.size + 1 then none else if x = h.size then some c else h.constructor? x := by
  simp only [construct, constructor?_define, constructor?_allocate, size_allocate]

theorem lookup_prototype_construct :
    ((h.construct link parent c).table h.size).lookup "prototype" =
      some (Realm.hidden (.object (h.size + 1)) true false) := by
  have hlt : h.size < h.size + 1 + 1 := Nat.lt_succ_of_lt (Nat.lt_succ_self _)
  rw [construct, lookup_define (by simp only [size_define, size_allocate, hlt]),
    if_neg (by simp), lookup_define (by simp only [size_define, size_allocate, hlt]),
    if_pos ⟨rfl, rfl⟩]

end Construct

theorem constructs_construct (c : Constructor) (hlink : ∀ l ∈ link, l < h.size)
    (hparent : ∀ p ∈ parent, p < h.size + 1) :
    h.Constructs (h.construct link parent c) h.size link parent := by
  have hne : h.size ≠ h.size + 1 := Nat.ne_of_lt (Nat.lt_succ_self _)
  constructor
  · rfl
  · simp only [construct, size_define, size_allocate]
  · exact hlink
  · exact hparent
  · rw [link_construct, if_neg hne, if_pos rfl]
  · rw [link_construct, if_pos rfl]
  · intro x hx
    rw [link_construct, if_neg (Nat.ne_of_lt (Nat.lt_succ_of_lt hx)), if_neg (Nat.ne_of_lt hx)]
  · refine ⟨c, ?_⟩
    rw [constructor?_construct, if_neg hne, if_pos rfl]
  · exact ⟨_, lookup_prototype_construct h link parent c, rfl, rfl⟩

namespace Constructs

variable (hmade : h.Constructs h' o link parent)
include hmade

theorem succ_lt_size : o + 1 < h'.size := by
  rw [hmade.size_eq, hmade.object]
  exact Nat.lt_succ_self _

theorem chain_of_lt (hset : h.Settled) {x : ObjectId} (hx : x < h.size) :
    h'.chain (some x) = h.chain (some x) :=
  (hset.chain_eq (by rw [hmade.size_eq]; omega) hmade.link_of_lt hx).1

theorem lt_of_mem_chain (hset : h.Settled) {x y : ObjectId} (hx : x < h.size)
    (hy : y ∈ h'.chain (some x)) : y < o := by
  rw [hmade.chain_of_lt hset hx] at hy
  rw [hmade.object]
  exact hset.lt_size_of_mem_chain hx hy

theorem le_of_mem_chain (hset : h.Settled) (hset' : h'.Settled) {x : ObjectId}
    (hx : x ∈ h'.chain (some o)) : x ≤ o := by
  rw [hset'.chain_eq_cons (Nat.lt_of_succ_lt hmade.succ_lt_size),
    prototype_of_link hmade.link_object, List.mem_cons] at hx
  obtain rfl | hx := hx
  · exact Nat.le_refl _
  · cases hlink : link with
    | none =>
      rw [hlink, chain_none] at hx
      cases hx
    | some l =>
      rw [hlink] at hx
      have hl : l < h.size := hmade.object ▸ hmade.lt_of_link l hlink
      exact Nat.le_of_lt (hmade.lt_of_mem_chain hset hl hx)

theorem le_succ_of_mem_chain (hset : h.Settled) (hset' : h'.Settled) {x : ObjectId}
    (hx : x ∈ h'.chain (some (o + 1))) : x ≤ o + 1 := by
  rw [hset'.chain_eq_cons hmade.succ_lt_size, prototype_of_link hmade.link_prototype,
    List.mem_cons] at hx
  obtain rfl | hx := hx
  · exact Nat.le_refl _
  · cases hparent : parent with
    | none =>
      rw [hparent, chain_none] at hx
      cases hx
    | some p =>
      rw [hparent] at hx
      obtain hp | rfl := Nat.lt_succ_iff_lt_or_eq.1 (hmade.lt_of_parent p hparent)
      · have hp : p < h.size := hmade.object ▸ hp
        exact Nat.le_succ_of_le (Nat.le_of_lt (hmade.lt_of_mem_chain hset hp hx))
      · exact Nat.le_succ_of_le (hmade.le_of_mem_chain hset hset' hx)

end Constructs

end ObjectModel.Heap
