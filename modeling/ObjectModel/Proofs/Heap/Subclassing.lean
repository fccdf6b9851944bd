import ObjectModel.Proofs.Heap.Closed
import ObjectModel.Proofs.Heap.Constructs
import ObjectModel.Proofs.Heap.Extension

/-!
New constructors that are relinked. As nothing leads to them, they may be linked to whatever was
there before, and are then as if they had been made with these links.
-/

namespace ObjectModel.Heap

variable {h h' : Heap} {o : ObjectId} {link parent : Option ObjectId} {c : Constructor}

def constructorTable (o : ObjectId) (c : Constructor) : Table :=
  (Table.empty.put "prototype" (Realm.hidden (.object (o + 1)) true false)).put "name"
    (Realm.hidden c.name false true)

def prototypeTable (o : ObjectId) : Table :=
  Table.empty.put "constructor" (Realm.hidden (.object o) true true)

theorem construct_eq_extend (h : Heap) (link parent : Option ObjectId) (c : Constructor) :
    h.construct link parent c = h.extend [
      { link := .ofLink link, table := constructorTable h.size c, constructor? := some c },
      { link := .ofLink parent, table := prototypeTable h.size }] := by
  let bare : Record := { link := .ofLink link, constructor? := some c }
  let named : Record := { bare with
    table := Table.empty.put "prototype" (Realm.hidden (.object (h.size + 1)) true false) }
  let prototype : Record := { link := .ofLink parent }
  let owned : Record := { prototype with table := prototypeTable h.size }
  have hallocate : (h.apply (.allocate (.ofLink link) (some c) true)).apply
      (.allocate (.ofLink parent) none true) = h.extend [bare, prototype] := by
    have hfirst := apply_allocate_extend h [] (.ofLink link) (some c) true
    rw [extend_nil] at hfirst
    rw [hfirst, apply_allocate_extend]
    rfl
  have hconstructor : (h.extend [bare, prototype]).apply (.define (h.size + 1) "constructor"
      (Realm.hidden (.object h.size) true true)) = h.extend [bare, owned] :=
    apply_define_extend h [bare] [] prototype _
  have hprototype : (h.extend [bare, owned]).apply (.define h.size "prototype"
      (Realm.hidden (.object (h.size + 1)) true false)) = h.extend [named, owned] :=
    apply_define_extend h [] [owned] bare _
  have hname : (h.extend [named, owned]).apply (.define h.size "name"
      (Realm.hidden c.name false true)) = h.extend [
        { named with table := constructorTable h.size c }, owned] :=
    apply_define_extend h [] [owned] named _
  rw [construct, hallocate, hconstructor, hprototype, hname]

theorem relink_construct (h : Heap) (link parent : Option ObjectId) (c : Constructor)
    (link' : Option ObjectId) :
    (h.construct link parent c).apply (.relink h.size link') =
      ({ h with epoch := h.epoch + 1 } : Heap).construct link' parent c := by
  rw [construct_eq_extend, construct_eq_extend]
  exact apply_relink_extend h [] _ _ link'

theorem relink_construct_succ (h : Heap) (link parent : Option ObjectId) (c : Constructor)
    (parent' : Option ObjectId) :
    (h.construct link parent c).apply (.relink (h.size + 1) parent') =
      ({ h with epoch := h.epoch + 1 } : Heap).construct link parent' c := by
  rw [construct_eq_extend, construct_eq_extend]
  exact apply_relink_extend h [_] [] _ parent'

theorem construct_epoch (h : Heap) (link parent : Option ObjectId) (c : Constructor) (epoch : Nat) :
    ({ h with epoch := epoch } : Heap).construct link parent c =
      { h.construct link parent c with epoch := epoch } := by
  rw [construct_eq_extend, construct_eq_extend]
  rfl

theorem size_construct (h : Heap) (link parent : Option ObjectId) (c : Constructor) :
    (h.construct link parent c).size = h.size + 2 := by
  rw [construct_eq_extend, size_extend]
  rfl

theorem link_construct_of_lt (ho : o < h.size) :
    (h.construct link parent c).link o = h.link o := by
  rw [link_construct, if_neg (Nat.ne_of_lt (Nat.lt_succ_of_lt ho)), if_neg (Nat.ne_of_lt ho)]

theorem constructor?_construct_of_lt (ho : o < h.size) :
    (h.construct link parent c).constructor? o = h.constructor? o := by
  rw [constructor?_construct, if_neg (Nat.ne_of_lt (Nat.lt_succ_of_lt ho)),
    if_neg (Nat.ne_of_lt ho)]

theorem constructor?_construct_self (h : Heap) (link parent : Option ObjectId) (c : Constructor) :
    (h.construct link parent c).constructor? h.size = some c := by
  rw [constructor?_construct, if_neg (Nat.ne_of_lt (Nat.lt_succ_self _)), if_pos rfl]

theorem table_construct_of_lt (ho : o < h.size) :
    (h.construct link parent c).table o = h.table o := by
  rw [construct_eq_extend, table_extend_of_lt ho]

theorem extensible_construct (h : Heap) (link parent : Option ObjectId) (c : Constructor) :
    ((h.construct link parent c).table h.size).extensible = true ∧
      ((h.construct link parent c).table (h.size + 1)).extensible = true := by
  rw [construct_eq_extend]
  constructor
  · exact congrArg Table.extensible (table_extend h [] _ _)
  · exact congrArg Table.extensible (table_extend h [_] [] _)

theorem table_construct_congr (h : Heap) (link parent link' parent' : Option ObjectId)
    (c : Constructor) (o : ObjectId) :
    (h.construct link parent c).table o = (h.construct link' parent' c).table o := by
  have hdefine (h : Heap) (x : ObjectId) (key : String) (d : Descriptor) :
      (h.apply (.define x key d)).table o =
        if x = o ∧ o < h.size then (h.table o).put key d else h.table o :=
    table_updateTable h x _ o
  simp only [construct, hdefine, size_define, size_allocate, table_allocate]

theorem Settled.apart (hset : h.Settled) (hsize : h.size ≤ h'.size)
    (hlink : ∀ x < h.size, h'.link x = h.link x) (start : Option ObjectId)
    (hstart : ∀ p ∈ start, p < h.size) (ho : h.size ≤ o) :
    h'.reaches start o = false ∧ h'.strayEnd? start = h.strayEnd? start := by
  obtain ⟨os, ha⟩ := hset.ascent hstart
  obtain ⟨hchain, hend⟩ := ha.chain_congr hsize fun x hx => hlink x (ha.lt_size hx)
  refine ⟨?_, hend⟩
  rw [reaches_eq_contains, hchain, ha.chain_eq, List.contains_eq_mem, decide_eq_false_iff_not]
  exact fun hmem => absurd (ha.lt_size hmem) (Nat.not_lt.2 ho)

theorem Closed.constructionPrototype_eq (hc : h.Closed) (hsize : h.size ≤ h'.size)
    (htable : h'.table o = h.table o) :
    h'.constructionPrototype o = h.constructionPrototype o := by
  rw [constructionPrototype, constructionPrototype, htable]
  split
  · next v writable enumerable configurable hd =>
    have hv : v.Within h.size := (Descriptor.within_value.1 (hc.table hd)).1
    cases v with
    | object q => rw [object?_object hv, object?_object (Nat.lt_of_lt_of_le hv hsize)]
    | _ => rfl
  · rfl

theorem constructionPrototype_construct (h : Heap) (link parent : Option ObjectId)
    (c : Constructor) :
    (h.construct link parent c).constructionPrototype h.size = some (h.size + 1) := by
  rw [constructionPrototype, lookup_prototype_construct]
  exact object?_object (by rw [size_construct]; exact Nat.lt_succ_self _)

end ObjectModel.Heap
