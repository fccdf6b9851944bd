import ObjectModel.Heap.Trace
import ObjectModel.Pool.Content

/-!
What is made sure of before a heap is changed, and what each change leaves as it was. A history in
which every event is admitted by the heap it meets is all that the laws of heaps need to know of the
computations behind it.
-/

namespace ObjectModel

structure Heap.AdmitsRelink (h : Heap) (o : ObjectId) (prototype : Option ObjectId) : Prop where
  object : o < h.size
  target : ∀ p ∈ prototype, p < h.size
  changes : .ofLink prototype ≠ h.link o
  extensible : (h.table o).extensible = true
  acyclic : h.reaches prototype o = false
  ends : h.strayEnd? prototype = none

/-- What has to hold before a change; the link of a record made by hand may be any value. -/
def Change.Admissible (h : Heap) : Change → Prop
  | allocate link _ counted => counted = true → link = .none ∨ (h.object? link).isSome
  | define o key d => ∃ p : Pool, (h.table o).refusal? p.equal key d = none
  | remove o key => (h.table o).removable key = true
  | preventExtensions _ | freeze _ => True
  | relink o prototype => h.AdmitsRelink o prototype

def Event.Admissible (h : Heap) : Event → Prop
  | changed change => change.Admissible h
  | logged _ | condoned _ => True

/-- The event belongs to a relinking: it changes a link, or it tells that a link has changed. -/
def Event.Relinks : Event → Prop
  | changed (.relink ..) | logged (.relinked ..) => True
  | _ => False

def Event.Removes : Event → Prop
  | changed (.remove ..) => True
  | _ => False

namespace Heap

theorem object?_eq_some {h : Heap} {v : Value} {o : ObjectId} (h' : h.object? v = some o) :
    v = .object o ∧ o < h.size := by
  unfold object? at h'
  split at h'
  · split at h'
    · next hlt =>
      cases h'
      exact ⟨rfl, hlt⟩
    · cases h'
  · cases h'

theorem object?_ofLink {h : Heap} {link : Option ObjectId} (hlt : ∀ p ∈ link, p < h.size) :
    Value.ofLink link = .none ∨ (h.object? (.ofLink link)).isSome := by
  cases link with
  | none => exact .inl rfl
  | some p =>
    refine .inr ?_
    rw [Value.ofLink, object?, if_pos (hlt p rfl)]
    rfl

theorem constructionPrototype_lt {h : Heap} {o p : ObjectId}
    (hp : p ∈ h.constructionPrototype o) : p < h.size := by
  unfold constructionPrototype at hp
  split at hp
  · exact (object?_eq_some hp).2
  · cases hp

@[simp]
theorem size_updateTable (h : Heap) (o : ObjectId) (f : Table → Table) :
    (h.updateTable o f).size = h.size := by
  simp [size, updateTable]

@[simp]
theorem link_updateTable (h : Heap) (o : ObjectId) (f : Table → Table) (x : ObjectId) :
    (h.updateTable o f).link x = h.link x := by
  simp only [link, updateTable, Array.getElem?_modify]
  split
  · cases h.records[x]? <;> rfl
  · rfl

theorem table_updateTable (h : Heap) (o : ObjectId) (f : Table → Table) (x : ObjectId) :
    (h.updateTable o f).table x = if o = x ∧ x < h.size then f (h.table x) else h.table x := by
  simp only [table, updateTable, size, Array.getElem?_modify]
  by_cases hx : x < h.records.size
  · by_cases ho : o = x <;> simp [hx, ho]
  · by_cases ho : o = x <;> simp [hx, ho]

@[simp]
theorem size_allocate (h : Heap) (link : Value) (c : Option Constructor) (counted : Bool) :
    (h.apply (.allocate link c counted)).size = h.size + 1 := by
  simp [size, apply]

theorem link_allocate (h : Heap) (link : Value) (c : Option Constructor) (counted : Bool)
    (x : ObjectId) :
    (h.apply (.allocate link c counted)).link x = if x = h.size then link else h.link x := by
  simp only [Heap.link, apply, Array.getElem?_push, size]
  by_cases hx : x = h.records.size <;> simp [hx]

@[simp]
theorem table_allocate (h : Heap) (link : Value) (c : Option Constructor) (counted : Bool)
    (x : ObjectId) : (h.apply (.allocate link c counted)).table x = h.table x := by
  simp only [table, apply, Array.getElem?_push]
  split
  · next hx => simp [hx]
  · rfl

@[simp]
theorem size_relink (h : Heap) (o : ObjectId) (prototype : Option ObjectId) :
    (h.apply (.relink o prototype)).size = h.size := by
  simp [size, apply]

theorem link_relink (h : Heap) (o : ObjectId) (prototype : Option ObjectId) (x : ObjectId) :
    (h.apply (.relink o prototype)).link x =
      if o = x ∧ x < h.size then .ofLink prototype else h.link x := by
  simp only [link, apply, Array.getElem?_modify, size]
  by_cases hx : x < h.records.size
  · by_cases ho : o = x <;> simp [hx, ho]
  · by_cases ho : o = x <;> simp [hx, ho]

@[simp]
theorem table_relink (h : Heap) (o : ObjectId) (prototype : Option ObjectId) (x : ObjectId) :
    (h.apply (.relink o prototype)).table x = h.table x := by
  simp only [table, apply, Array.getElem?_modify]
  split
  · cases h.records[x]? <;> rfl
  · rfl

theorem size_le_after (h : Heap) (event : Event) : h.size ≤ (h.after event).size := by
  cases event with
  | logged => exact Nat.le_refl _
  | condoned => exact Nat.le_refl _
  | changed change =>
    cases change with
    | allocate link c counted => exact Nat.le_of_lt (by simp [after])
    | relink o prototype => exact Nat.le_of_eq (size_relink h o prototype).symm
    | define o key d => exact Nat.le_of_eq (size_updateTable h o _).symm
    | remove o key => exact Nat.le_of_eq (size_updateTable h o _).symm
    | preventExtensions o => exact Nat.le_of_eq (size_updateTable h o _).symm
    | freeze o => exact Nat.le_of_eq (size_updateTable h o _).symm

theorem size_le_foldl (h : Heap) (events : List Event) : h.size ≤ (events.foldl after h).size := by
  induction events generalizing h with
  | nil => exact Nat.le_refl _
  | cons event rest ih => exact Nat.le_trans (size_le_after h event) (ih _)

def Admits (h : Heap) : List Event → Prop
  | [] => True
  | event :: rest => event.Admissible h ∧ (h.after event).Admits rest

theorem admits_append {h : Heap} {first second : List Event} :
    h.Admits (first ++ second) ↔
      h.Admits first ∧ (first.foldl after h).Admits second := by
  induction first generalizing h with
  | nil => simp [Admits]
  | cons event rest ih => simp only [List.cons_append, Admits, List.foldl_cons, ih, and_assoc]

def Each (P : Heap → Event → Prop) (h : Heap) : List Event → Prop
  | [] => True
  | event :: rest => P h event ∧ (h.after event).Each P rest

theorem each_append {P : Heap → Event → Prop} {h : Heap} {first second : List Event} :
    h.Each P (first ++ second) ↔ h.Each P first ∧ (first.foldl after h).Each P second := by
  induction first generalizing h with
  | nil => simp [Each]
  | cons event rest ih => simp only [List.cons_append, Each, List.foldl_cons, ih, and_assoc]

theorem Each.imp {P Q : Heap → Event → Prop} (hPQ : ∀ {h event}, P h event → Q h event) {h : Heap}
    {events : List Event} (heach : h.Each P events) : h.Each Q events := by
  induction events generalizing h with
  | nil => trivial
  | cons event rest ih => exact ⟨hPQ heach.1, ih heach.2⟩

theorem Admits.rel {R : Heap → Heap → Prop} (refl : ∀ h, R h h)
    (trans : ∀ {h h' h''}, R h h' → R h' h'' → R h h'')
    (step : ∀ {h change}, change.Admissible h → R h (h.apply change))
    {h : Heap} {events : List Event} (hadmits : h.Admits events) :
    R h (events.foldl after h) := by
  induction events generalizing h with
  | nil => exact refl h
  | cons event rest ih =>
    obtain ⟨hevent, hrest⟩ := hadmits
    rw [List.foldl_cons]
    refine trans ?_ (ih hrest)
    cases event with
    | changed change => exact step hevent
    | logged => exact refl h
    | condoned => exact refl h

end Heap

end ObjectModel
