import ObjectModel.Proofs.Heap.Splicing
import ObjectModel.Proofs.Heap.Walk

/-!
Heaps with more records after their own. What was there before is as it was, and so are the chains
from it.
-/

namespace ObjectModel.Heap

variable {h : Heap} {records before after : List Record} {record : Record} {o x : ObjectId}
  {start : Option ObjectId} {os : List ObjectId} {key : String}

def extend (h : Heap) (records : List Record) : Heap :=
  { h with records := h.records ++ records.toArray }

@[simp]
theorem size_extend (h : Heap) (records : List Record) :
    (h.extend records).size = h.size + records.length := by
  simp [extend, size]

@[simp]
theorem extend_nil (h : Heap) : h.extend [] = h := by
  simp [extend]

theorem objectCount_extend (h : Heap) (hcounted : ∀ record ∈ records, record.counted = true) :
    (h.extend records).objectCount = h.objectCount + records.length := by
  have hall : records.countP (·.counted) = records.length := List.countP_eq_length.2 hcounted
  simp only [objectCount, extend, Array.countP_append, List.countP_toArray, hall]

theorem getElem?_extend_of_lt (hx : x < h.size) : (h.extend records).records[x]? = h.records[x]? :=
  Array.getElem?_append_left hx

theorem getElem?_extend (h : Heap) (before after : List Record) (record : Record) :
    (h.extend (before ++ record :: after)).records[h.size + before.length]? = some record := by
  show (h.records ++ (before ++ record :: after).toArray)[h.records.size + before.length]? = _
  rw [Array.getElem?_append_right (Nat.le_add_right _ _), Nat.add_sub_cancel_left,
    List.getElem?_toArray, List.getElem?_append_right (Nat.le_refl _), Nat.sub_self,
    List.getElem?_cons_zero]

theorem link_extend_of_lt (hx : x < h.size) : (h.extend records).link x = h.link x := by
  rw [link, link, getElem?_extend_of_lt hx]

theorem table_extend_of_lt (hx : x < h.size) : (h.extend records).table x = h.table x := by
  rw [table, table, getElem?_extend_of_lt hx]

theorem link_extend (h : Heap) (before after : List Record) (record : Record) :
    (h.extend (before ++ record :: after)).link (h.size + before.length) = record.link := by
  rw [link, getElem?_extend]
  rfl

theorem table_extend (h : Heap) (before after : List Record) (record : Record) :
    (h.extend (before ++ record :: after)).table (h.size + before.length) = record.table := by
  rw [table, getElem?_extend]
  rfl

theorem exists_mem_of_size_le (hle : h.size ≤ x) (hlt : x < (h.extend records).size) :
    ∃ record ∈ records, (h.extend records).records[x]? = some record := by
  have hx : x - h.size < records.length := by
    rw [size_extend] at hlt
    exact Nat.sub_lt_left_of_lt_add hle hlt
  refine ⟨records[x - h.size], List.getElem_mem hx, ?_⟩
  rw [extend, Array.getElem?_append_right hle, List.getElem?_toArray]
  exact List.getElem?_eq_getElem hx

theorem apply_allocate_extend (h : Heap) (records : List Record) (link : Value)
    (c? : Option Constructor) (counted : Bool) :
    (h.extend records).apply (.allocate link c? counted) =
      h.extend (records ++ [{ link, constructor? := c?, counted }]) := by
  rw [apply, extend, extend]
  congr 1
  rw [Array.push_eq_append, Array.append_assoc]
  simp

theorem modify_append_cons (before after : List Record) (record : Record) (f : Record → Record) :
    (before ++ record :: after).modify before.length f = before ++ f record :: after := by
  induction before with
  | nil => exact List.modify_zero_cons f record after
  | cons first rest ih =>
    rw [List.cons_append, List.length_cons, List.modify_succ_cons, ih, List.cons_append]

theorem apply_define_extend (h : Heap) (before after : List Record) (record : Record)
    (d : Descriptor) :
    (h.extend (before ++ record :: after)).apply (.define (h.size + before.length) key d) =
      h.extend (before ++ { record with table := record.table.put key d } :: after) := by
  rw [apply, updateTable, extend, extend]
  congr 1
  apply Array.toList_inj.1
  have hlength : h.size + before.length = (h.records.toList ++ before).length := by
    rw [List.length_append]
    rfl
  rw [Array.toList_modify, Array.toList_append, Array.toList_append, List.toList_toArray,
    List.toList_toArray, ← List.append_assoc, ← List.append_assoc, hlength, modify_append_cons]

theorem apply_relink_extend (h : Heap) (before after : List Record) (record : Record)
    (prototype : Option ObjectId) :
    (h.extend (before ++ record :: after)).apply (.relink (h.size + before.length) prototype) =
      ({ h with epoch := h.epoch + 1 } : Heap).extend
        (before ++ { record with link := .ofLink prototype } :: after) := by
  rw [apply, extend, extend]
  congr 1
  apply Array.toList_inj.1
  have hlength : h.size + before.length = (h.records.toList ++ before).length := by
    rw [List.length_append]
    rfl
  rw [Array.toList_modify, Array.toList_append, Array.toList_append, List.toList_toArray,
    List.toList_toArray, ← List.append_assoc, ← List.append_assoc, hlength, modify_append_cons]

theorem Ascent.extend (ha : h.Ascent start os) (records : List Record) :
    (h.extend records).Ascent start os := by
  apply ha.congr
  · rw [size_extend]
    exact Nat.le_add_right _ _
  · exact fun x hx => link_extend_of_lt (ha.lt_size hx)

theorem strayEnd?_extend (ha : h.Ascent start os) (records : List Record) :
    (h.extend records).strayEnd? start = h.strayEnd? start := by
  refine (ha.chain_congr ?_ fun x hx => link_extend_of_lt (ha.lt_size hx)).2
  rw [size_extend]
  exact Nat.le_add_right _ _

theorem findProperty_extend (ha : h.Ascent start os) (records : List Record) (key : String) :
    (h.extend records).findProperty start key = h.findProperty start key := by
  rw [findProperty_eq_firstOwner, findProperty_eq_firstOwner, (ha.extend records).chain_eq,
    ha.chain_eq]
  have hlt : ∀ x ∈ os, x < h.size := fun x hx => ha.lt_size hx
  clear ha
  induction os with
  | nil => rfl
  | cons x rest ih =>
    rw [List.forall_mem_cons] at hlt
    rw [firstOwner, firstOwner, List.findSome?_cons, List.findSome?_cons,
      table_extend_of_lt hlt.1, ← firstOwner, ← firstOwner, ih hlt.2]

theorem prototype_added (hlink : record.link = .ofLink start) :
    (h.extend (before ++ record :: after)).prototype (h.size + before.length) = start := by
  rw [prototype, link_extend, hlink]
  cases start <;> rfl

theorem strayLink?_added (hlink : record.link = .ofLink start) :
    (h.extend (before ++ record :: after)).strayLink? (h.size + before.length) = none := by
  rw [strayLink?, link_extend, hlink]
  cases start <;> rfl

section Added

variable (ha : h.Ascent start os) (hlink : record.link = .ofLink start)
include ha hlink

theorem ascent_added :
    (h.extend (before ++ record :: after)).Ascent (some (h.size + before.length))
      ((h.size + before.length) :: os) := by
  refine .step ?_ ?_
  · rw [size_extend, List.length_append]
    exact Nat.add_lt_add_left (Nat.lt_add_of_pos_right (Nat.succ_pos _)) _
  · rw [prototype_added hlink]
    exact ha.extend _

theorem strayEnd?_added :
    (h.extend (before ++ record :: after)).strayEnd? (some (h.size + before.length)) =
      h.strayEnd? start := by
  rw [← strayEnd?_extend ha (before ++ record :: after), strayEnd?, strayEnd?,
    (ascent_added ha hlink).chain_eq, (ha.extend _).chain_eq, List.findSome?_cons,
    strayLink?_added hlink]

theorem findProperty_added (hnew : record.table.lookup key = none) :
    (h.extend (before ++ record :: after)).findProperty (some (h.size + before.length)) key =
      h.findProperty start key := by
  rw [← findProperty_extend ha (before ++ record :: after), findProperty_eq_firstOwner,
    findProperty_eq_firstOwner, (ascent_added ha hlink).chain_eq, (ha.extend _).chain_eq,
    firstOwner, List.findSome?_cons, table_extend, hnew]
  rfl

end Added

end ObjectModel.Heap
