import ObjectModel.Realm.Own

/-!
Reading and writing properties along the chain. The nearest holder of a key decides: a value is read
from wherever it is, accessors run against the receiver, and any other assignment lands on the
receiver itself.
-/

namespace ObjectModel.Realm

variable {σ : Type}

def receiverOr (receiver obj : Value) : Value :=
  match receiver with
  | .none => obj
  | receiver => receiver

def read (call : Caller σ) (start : ObjectId) (key : String) (receiver : Value) :
    RealmM σ Value := do
  match ← find (some start) key with
  | none => return .undefined
  | some (_, d) =>
    match d.slot with
    | .value v _ => return v
    | .accessor none _ => return .undefined
    | .accessor (some getter) _ => callValue call getter receiver []

def getProperty (call : Caller σ) (obj key receiver : Value) : RealmM σ Value := do
  let o ← requireObject obj
  let key ← requireKey key
  read call o key (receiverOr receiver obj)

def superGet (call : Caller σ) (home key receiver : Value) : RealmM σ Value := do
  let o ← requireObject home "home object"
  match (← readHeap).link o with
  | .none => do
    let _ ← requireKey key
    return .undefined
  | parent => getProperty call parent key receiver

def hasProperty (obj key : Value) : RealmM σ Bool := do
  let o ← requireObject obj
  let key ← requireKey key
  return (← find (some o) key).isSome

def callMethod (call : Caller σ) (obj key receiver : Value) (args : List Value) :
    RealmM σ Value := do
  let receiver := receiverOr receiver obj
  match ← getProperty call obj key receiver with
  | .function name => call name receiver args
  | _ => fail (.notFunction (← requireKey key))

def writeOwn (receiver : Value) (key : String) (v : Value) : RealmM σ (Option ModelError) := do
  match ← object? receiver with
  | none => return some (.badReceiver key (← display receiver))
  | some o =>
    let table ← tableOf o
    match table.lookup key with
    | none =>
      if table.extensible then
        define o key (.ofValue v)
        return none
      else
        return some (.notExtensible key)
    | some { slot := .value _ writable, enumerable, configurable } =>
      if writable.holds then
        define o key { slot := .value v writable, enumerable, configurable }
        return none
      else
        return some (.readOnly key)
    | some { slot := .accessor .., .. } => return some (.readOnly key)

def write (call : Caller σ) (start : ObjectId) (key : String) (v receiver : Value) :
    RealmM σ (Option ModelError) := do
  match ← find (some start) key with
  | some (_, { slot := .accessor _ none, .. }) => return some (.noSetter key)
  | some (_, { slot := .accessor _ (some setter), .. }) => do
    let _ ← callValue call setter receiver [v]
    return none
  | _ => writeOwn receiver key v

def assign (call : Caller σ) (obj key v receiver : Value) : RealmM σ (Option ModelError) := do
  let o ← requireObject obj
  let key ← requireKey key
  write call o key v (receiverOr receiver obj)

def superAssign (call : Caller σ) (home key v receiver : Value) :
    RealmM σ (Option ModelError) := do
  let o ← requireObject home "home object"
  match (← readHeap).link o with
  | .none => writeOwn receiver (← requireKey key) v
  | parent => assign call parent key v receiver

def settle (strict : Bool) : Option ModelError → RealmM σ Bool
  | none => return true
  | some error => do
    if strict then
      fail error
    else
      log (.writeDropped error.message)
      return false

def setProperty (call : Caller σ) (obj key v receiver : Value) (strict : Bool) :
    RealmM σ Bool := do
  settle strict (← assign call obj key v receiver)

def superSetProperty (call : Caller σ) (home key v receiver : Value) (strict : Bool) :
    RealmM σ Bool := do
  settle strict (← superAssign call home key v receiver)

def delete (obj key : Value) : RealmM σ (Except ModelError Bool) := do
  let o ← requireObject obj
  let key ← requireKey key
  match (← tableOf o).lookup key with
  | some { configurable := ⟨_, false⟩, .. } => return .error (.undeletable key)
  | _ => return .ok (← removeOwn o key)

def settleDeletion (strict : Bool) : Except ModelError Bool → RealmM σ Bool
  | .ok gone => return gone
  | .error error => if strict then fail error else return false

def deleteProperty (obj key : Value) (strict : Bool) : RealmM σ Bool := do
  settleDeletion strict (← delete obj key)

end ObjectModel.Realm
