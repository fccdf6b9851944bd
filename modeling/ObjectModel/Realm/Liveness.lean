import ObjectModel.Realm.Basic

/-!
Which records are in use. What is kept somewhere keeps in turn what it refers to, and a record that
nothing kept leads to is given back; only the others are counted.
-/

namespace ObjectModel

namespace Heap

def contents (h : Heap) (o : ObjectId) : List Value :=
  h.link o :: (h.table o).entries.flatMap (·.2.fields) ++
    match h.constructor? o with
    | some c => [c.name, .ofOption c.initializer]
    | none => []

def counted (h : Heap) (o : ObjectId) : Bool :=
  h.records[o]?.any (·.counted)

end Heap

/--
Those of `remaining` that `pending` leads to, where each value leads to its `contents`. Every step
takes one of them away, so that there need be no more steps than there are values.
-/
def gather (contents : Value → List Value) : Nat → List Value → List Value → List Value
  | 0, _, _ => []
  | steps + 1, remaining, pending =>
    match pending.find? remaining.contains with
    | none => []
    | some v => v :: gather contents steps (remaining.erase v) (contents v ++ pending)

namespace Realm

variable {σ : Type}

def contents (r : Realm σ) : Value → List Value
  | .object o => r.heap.contents o
  | .list id => r.pool.list id
  | .dict id => (r.pool.dict id).flatMap fun (key, v) => [key, v]
  | .descriptor id => ((r.pool.descriptor? id).map (·.fields)).getD []
  | _ => []

def holders (r : Realm σ) : List Value :=
  (List.range r.heap.size).map .object ++ (List.range r.pool.lists.size).map .list ++
    (List.range r.pool.dicts.size).map .dict ++
    (List.range r.pool.descriptors.size).map .descriptor

def inUse (r : Realm σ) (held : List Value) : List Value :=
  gather r.contents r.holders.length r.holders held

/-- The number of records that the realm allocated and that are still in use. -/
def objectCount (r : Realm σ) : Nat :=
  match r.held? with
  | none => r.heap.objectCount
  | some held =>
    let alive := r.inUse held
    (List.range r.heap.size).countP fun o => r.heap.counted o && alive.contains (.object o)

end Realm

end ObjectModel
