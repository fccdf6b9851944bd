import ObjectModel.Realm.Basic

/-!
Allocation and prototype links. A link changes only by `relink`, which admits no cycle.
-/

namespace ObjectModel.Realm

variable {σ : Type}

def allocate (link : Value) (constructor? : Option Constructor := none)
    (counted : Bool := true) : RealmM σ ObjectId := do
  commit (.allocate link constructor? counted)
  return (← readHeap).size - 1

def createObject (prototype : Value) : RealmM σ ObjectId := do
  allocate (.ofLink (← requirePrototype prototype))

def bareObject (link : Value) : RealmM σ ObjectId :=
  allocate link none false

def getPrototype (obj : Value) : RealmM σ Value := do
  let o ← assumeObject obj
  return (← readHeap).link o

/-- Relinks an object; the link that it has already is always admitted. -/
def relink (o : ObjectId) (prototype : Option ObjectId) : RealmM σ Unit := do
  let h ← readHeap
  if .ofLink prototype = h.link o then
    return ()
  else if !(h.table o).extensible then
    fail .linkFixed
  else
    let shown ← display (.object o)
    if h.reaches prototype o then
      log (.cycleRejected shown)
      fail .cycle
    else
      requireEnd prototype
      commit (.relink o prototype)
      log (.relinked shown (← display (.ofLink prototype)) (← readHeap).epoch)

def setPrototype (obj prototype : Value) : RealmM σ Unit := do
  let o ← requireObject obj
  relink o (← requirePrototype prototype)

def isAbove (ancestor : Value) (o : ObjectId) : RealmM σ Bool := do
  let h ← readHeap
  if (h.object? ancestor).any (h.isPrototypeOf · o) || h.strayEnd? (some o) = some ancestor then
    return true
  else
    requireEnd (some o)
    return false

def isPrototypeOf (ancestor obj : Value) : RealmM σ Bool := do
  match ← object? obj with
  | some o => isAbove ancestor o
  | none => return false

end ObjectModel.Realm
