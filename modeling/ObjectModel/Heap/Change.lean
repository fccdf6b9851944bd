import ObjectModel.Heap.Basic

/-!
The changes that a heap can undergo. Every step of a computation changes the heap by one of these
or not at all.
-/

namespace ObjectModel

inductive Change
  /-- A new record, with no properties. -/
  | allocate (link : Value) (constructor? : Option Constructor) (counted : Bool)
  | define (o : ObjectId) (key : String) (d : Descriptor)
  | remove (o : ObjectId) (key : String)
  | preventExtensions (o : ObjectId)
  | freeze (o : ObjectId)
  | relink (o : ObjectId) (prototype : Option ObjectId)

namespace Heap

def updateTable (h : Heap) (o : ObjectId) (f : Table → Table) : Heap :=
  { h with records := h.records.modify o fun r => { r with table := f r.table } }

def apply (h : Heap) : Change → Heap
  | .allocate link constructor? counted =>
    { h with records := h.records.push { link, constructor?, counted } }
  | .define o key d => h.updateTable o (·.put key d)
  | .remove o key => h.updateTable o (·.remove key)
  | .preventExtensions o => h.updateTable o Table.preventExtensions
  | .freeze o => h.updateTable o Table.freeze
  | .relink o prototype =>
    { records := h.records.modify o fun r => { r with link := .ofLink prototype }
      epoch := h.epoch + 1 }

end Heap

end ObjectModel
