import ObjectModel.Realm.Basic

/-!
Own properties: what can be done to the table of one object without regard to its ancestors.
-/

namespace ObjectModel.Realm

variable {σ : Type}

def define (o : ObjectId) (key : String) (d : Descriptor) : RealmM σ Unit := do
  let equal := (← get).pool.equal
  refuse ((← tableOf o).refusal? equal key d)
  commit (.define o key d)
  modifyPool (·.uninstall o key)

def install (o : ObjectId) (key : String) (descriptor : Value) : RealmM σ Unit := do
  let (id, d) ← requireDescriptor descriptor
  define o key d
  modifyPool (·.install o key id)

def remove (o : ObjectId) (key : String) : RealmM σ Bool := do
  if (← tableOf o).removable key then
    commit (.remove o key)
    modifyPool (·.uninstall o key)
    return true
  else
    return false

def inherits (o : ObjectId) (key : String) : RealmM σ Bool := do
  if (← readHeap).ownedAbove o key then
    return true
  else
    requireEnd (some o)
    return false

/-- Removes an own property; a key that only an ancestor owns is left alone and reported as gone. -/
def removeOwn (o : ObjectId) (key : String) : RealmM σ Bool := do
  if (← tableOf o).contains key then
    remove o key
  else
    inherits o key

def lookup (o : ObjectId) (key : String) : RealmM σ Value := do
  match (← tableOf o).lookup key with
  | some d => describe o key d
  | none => return .none

def newKeyList (keys : List String) : RealmM σ Value :=
  newList (keys.map .str)

def defineOwn (obj key descriptor : Value) : RealmM σ Unit := do
  let o ← requireObject obj
  let key ← requireKey key
  install o key descriptor
  log (.definedOwn (← display obj) key (← display descriptor))

def deleteOwn (obj key : Value) : RealmM σ Bool := do
  let o ← requireObject obj
  removeOwn o (← requireKey key)

def hasOwn (obj key : Value) : RealmM σ Bool := do
  let o ← requireObject obj
  let key ← requireKey key
  return (← tableOf o).contains key

def readOwn (obj key : Value) : RealmM σ Value := do
  let o ← requireObject obj
  lookup o (← requireKey key)

def ownKeys (obj : Value) : RealmM σ (List String) := do
  return (← tableOf (← requireObject obj)).keys

def enumerableKeys (obj : Value) : RealmM σ (List String) := do
  return (← tableOf (← requireObject obj)).enumerableKeys

def isExtensible (obj : Value) : RealmM σ Bool := do
  return (← tableOf (← requireObject obj)).extensible

def preventExtensions (obj : Value) : RealmM σ Unit := do
  commit (.preventExtensions (← requireObject obj))

def freeze (obj : Value) : RealmM σ Unit := do
  let o ← requireObject obj
  commit (.freeze o)
  modifyPool (·.uninstallAll o)

end ObjectModel.Realm
