import ObjectModel.Pool.Basic
import ObjectModel.Proofs.Heap.Settled
import ObjectModel.Proofs.Table

/-!
Closed heaps: whatever a record holds names no record but those of the heap. A change that brings in
nothing else keeps a heap so.
-/

namespace ObjectModel

variable {n n' : Nat}

structure Heap.Closed (h : Heap) : Prop where
  link : ∀ o, (h.link o).Within h.size
  table : ∀ {o key d}, (h.table o).lookup key = some d → d.Within h.size
  constructor? : ∀ {o c}, h.constructor? o = some c → c.Within h.size

structure Pool.Within (n : Nat) (p : Pool) : Prop where
  list : ∀ {id v}, v ∈ p.list id → v.Within n
  dict : ∀ {id entry}, entry ∈ p.dict id → entry.1.Within n ∧ entry.2.Within n
  descriptor? : ∀ {id d}, p.descriptor? id = some d → d.Within n

def Change.Within (n : Nat) : Change → Prop
  | allocate link c? _ => link.Within n ∧ ∀ c ∈ c?, c.Within n
  | define _ _ d => d.Within n
  | relink _ prototype => ∀ p ∈ prototype, p < n
  | remove .. | preventExtensions _ | freeze _ => True

def Event.Within (h : Heap) : Event → Prop
  | changed change => change.Within h.size
  | _ => True

theorem Event.Within.linked {h : Heap} {event : Event} (hevent : event.Within h) :
    event.LinkedWithin h := by
  cases event with
  | changed change =>
    cases change with
    | allocate link c? counted => exact hevent.1
    | _ => trivial
  | _ => trivial

namespace Heap

variable {h : Heap}

@[simp]
theorem constructor?_updateTable (h : Heap) (o : ObjectId) (f : Table → Table) (x : ObjectId) :
    (h.updateTable o f).constructor? x = h.constructor? x := by
  simp only [constructor?, updateTable, Array.getElem?_modify]
  split
  · cases h.records[x]? <;> rfl
  · rfl

@[simp]
theorem constructor?_relink (h : Heap) (o : ObjectId) (prototype : Option ObjectId)
    (x : ObjectId) : (h.apply (.relink o prototype)).constructor? x = h.constructor? x := by
  simp only [constructor?, apply, Array.getElem?_modify]
  split
  · cases h.records[x]? <;> rfl
  · rfl

theorem constructor?_allocate (h : Heap) (link : Value) (c? : Option Constructor)
    (counted : Bool) (x : ObjectId) :
    (h.apply (.allocate link c? counted)).constructor? x =
      if x = h.size then c? else h.constructor? x := by
  simp only [constructor?, apply, Array.getElem?_push, size]
  by_cases hx : x = h.records.size <;> simp [hx]

theorem closed_empty : ({} : Heap).Closed :=
  ⟨fun _ => trivial, nofun, nofun⟩

theorem Closed.allocate (hc : h.Closed) {link : Value} {c? : Option Constructor} (counted : Bool)
    (hlink : link.Within h.size) (hconstructor : ∀ c ∈ c?, c.Within h.size) :
    (h.apply (.allocate link c? counted)).Closed := by
  have hle : h.size ≤ (h.apply (.allocate link c? counted)).size := by simp
  constructor
  · intro o
    rw [link_allocate]
    split
    · exact hlink.mono hle
    · exact (hc.link o).mono hle
  · intro o key d hd
    rw [table_allocate] at hd
    exact (hc.table hd).mono hle
  · intro o c hconstructor?
    rw [constructor?_allocate] at hconstructor?
    split at hconstructor?
    · exact (hconstructor c hconstructor?).mono hle
    · exact (hc.constructor? hconstructor?).mono hle

theorem Closed.updateTable (hc : h.Closed) (o : ObjectId) (f : Table → Table)
    (hf : ∀ {key d}, (f (h.table o)).lookup key = some d → d.Within h.size) :
    (h.updateTable o f).Closed := by
  constructor
  · intro x
    rw [link_updateTable, size_updateTable]
    exact hc.link x
  · intro x key d hd
    rw [table_updateTable] at hd
    rw [size_updateTable]
    split at hd
    · next hx =>
      rw [← hx.1] at hd
      exact hf hd
    · exact hc.table hd
  · intro x c hx
    rw [constructor?_updateTable] at hx
    rw [size_updateTable]
    exact hc.constructor? hx

theorem Closed.relink (hc : h.Closed) (o : ObjectId) {prototype : Option ObjectId}
    (hlt : ∀ p ∈ prototype, p < h.size) : (h.apply (.relink o prototype)).Closed := by
  constructor
  · intro x
    rw [link_relink, size_relink]
    split
    · exact Value.within_ofLink hlt
    · exact hc.link x
  · intro x key d hd
    rw [table_relink] at hd
    rw [size_relink]
    exact hc.table hd
  · intro x c hx
    rw [constructor?_relink] at hx
    rw [size_relink]
    exact hc.constructor? hx

theorem Closed.apply (hc : h.Closed) {change : Change} (hchange : change.Within h.size) :
    (h.apply change).Closed := by
  cases change with
  | allocate link c? counted => exact hc.allocate counted hchange.1 hchange.2
  | relink o prototype => exact hc.relink o hchange
  | define o key d =>
    refine hc.updateTable o (·.put key d) fun {j d'} hd' => ?_
    rw [Table.lookup_put] at hd'
    split at hd'
    · cases hd'
      exact hchange
    · exact hc.table hd'
  | remove o key =>
    refine hc.updateTable o (·.remove key) fun {j d'} hd' => ?_
    rw [Table.lookup_remove] at hd'
    split at hd'
    · cases hd'
    · exact hc.table hd'
  | preventExtensions o => exact hc.updateTable o _ hc.table
  | freeze o =>
    refine hc.updateTable o Table.freeze fun {j d'} hd' => ?_
    rw [Table.lookup_freeze, Option.map_eq_some_iff] at hd'
    obtain ⟨d, hd, rfl⟩ := hd'
    exact (hc.table hd).freeze

theorem Closed.foldl (hc : h.Closed) {events : List Event} (hevents : h.Each Event.Within events) :
    (events.foldl after h).Closed := by
  induction events generalizing h with
  | nil => exact hc
  | cons event rest ih =>
    refine ih ?_ hevents.2
    cases event with
    | changed change => exact hc.apply hevents.1
    | _ => exact hc

end Heap

theorem Pool.Within.mono {p : Pool} (hp : p.Within n) (hle : n ≤ n') : p.Within n' := by
  constructor
  · exact fun hv => (hp.list hv).mono hle
  · intro id entry hentry
    exact ⟨(hp.dict hentry).1.mono hle, (hp.dict hentry).2.mono hle⟩
  · exact fun hd => (hp.descriptor? hd).mono hle

theorem Pool.within_empty : ({} : Pool).Within n :=
  ⟨nofun, nofun, nofun⟩

end ObjectModel
