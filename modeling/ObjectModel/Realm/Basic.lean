import ObjectModel.Display
import ObjectModel.Heap.Trace

/-!
A realm: a heap with all that surrounds it, and the computations that run in one. Every event of a
computation goes through `Realm.emit`, so the trace tells each state of the heap that there was.
-/

namespace ObjectModel

structure Realm (σ : Type) where
  heap : Heap := {}
  pool : Pool := {}
  trace : Array Event := #[]
  /-- Whether refused assignments and deletions are errors; any value may be put here. -/
  strict : Value := .bool false
  threadSafe : Bool := true
  /-- What is kept outside the heap and the pool; `none` if that is every record there ever was. -/
  held? : Option (List Value) := none
  client : σ

/-- Computations in a realm. One that fails keeps what it did before. -/
abbrev RealmM (σ : Type) :=
  EStateM Failure (Realm σ)

abbrev Caller (σ : Type) :=
  String → Value → List Value → RealmM σ Value

namespace Realm

variable {σ : Type}

def emit (event : Event) : RealmM σ Unit :=
  modify fun r => { r with heap := r.heap.after event, trace := r.trace.push event }

def commit (change : Change) : RealmM σ Unit :=
  emit (.changed change)

def log (entry : LogEntry) : RealmM σ Unit :=
  emit (.logged entry)

def fail {α : Type} (error : ModelError) : RealmM σ α :=
  throw (.model error)

def refuse : Option ModelError → RealmM σ Unit
  | some error => fail error
  | none => pure ()

def modifyPool (f : Pool → Pool) : RealmM σ Unit :=
  modify fun r => { r with pool := f r.pool }

def newList (items : List Value) : RealmM σ Value := do
  modifyPool (·.addList items)
  return .list ((← get).pool.lists.size - 1)

def newFloat (x : Binary64) : RealmM σ Value := do
  modifyPool Pool.addFloat
  return .float x (← get).pool.floats

def newDict : RealmM σ Nat := do
  modifyPool (·.addDict [])
  return (← get).pool.dicts.size - 1

def fillDict (id : Nat) (entries : List (Value × Value)) : RealmM σ Unit :=
  modifyPool (·.fillDict id entries)

def newDescriptor (d : Descriptor) : RealmM σ Nat := do
  modifyPool (·.addDescriptor d)
  return (← get).pool.descriptors.size - 1

def describe (o : ObjectId) (key : String) (d : Descriptor) : RealmM σ Value := do
  match (← get).pool.installed? o key with
  | some id => return .descriptor id
  | none => do
    let id ← newDescriptor d
    modifyPool (·.install o key id)
    return .descriptor id

def readHeap : RealmM σ Heap := do
  return (← get).heap

def tableOf (o : ObjectId) : RealmM σ Table := do
  return (← readHeap).table o

/-- Fails if the chain from `start` comes to a value that is neither an object nor `none`. -/
def requireEnd (start : Option ObjectId) : RealmM σ Unit := do
  match (← readHeap).strayEnd? start with
  | some _ => throw .notRecord
  | none => return ()

def find (start : Option ObjectId) (key : String) : RealmM σ (Option (ObjectId × Descriptor)) := do
  match (← readHeap).findProperty start key with
  | some found => return some found
  | none => do
    requireEnd start
    return none

def truthy (v : Value) : RealmM σ Bool := do
  return (← get).pool.truthy v

def display (v : Value) : RealmM σ String := do
  let r ← get
  return Display.value r.heap r.pool v

def object? (v : Value) : RealmM σ (Option ObjectId) := do
  return (← readHeap).object? v

def requireObject (v : Value) (what : String := "value") : RealmM σ ObjectId := do
  match ← object? v with
  | some o => return o
  | none => fail (.notObject what (← display v))

def requirePrototype (v : Value) : RealmM σ (Option ObjectId) := do
  match v, ← object? v with
  | .none, _ => return none
  | _, some o => return some o
  | v, none => fail (.badPrototype (← display v))

def constructor? (v : Value) : RealmM σ (Option (ObjectId × Constructor)) := do
  let h ← readHeap
  return do
    let o ← h.object? v
    return (o, ← h.constructor? o)

def requireConstructor (v : Value) : RealmM σ (ObjectId × Constructor) := do
  match ← constructor? v with
  | some found => return found
  | none => fail (.notConstructor (← display v))

def requireKey (v : Value) : RealmM σ String := do
  match v.key? with
  | some key => return key
  | none => fail (.invalidKey (← display v))

def requireDescriptor (v : Value) : RealmM σ (Nat × Descriptor) := do
  let pool := (← get).pool
  let found := match v with
    | .descriptor id => (pool.descriptor? id).map (id, ·)
    | _ => none
  match found with
  | some found => return found
  | none => fail (.notDescriptor (← display v))

/-- The record that a value is, where nothing checks that it is one. -/
def assumeObject (v : Value) : RealmM σ ObjectId := do
  match ← object? v with
  | some o => return o
  | none => throw .notRecord

def assumeLink (v : Value) : RealmM σ (Option ObjectId) := do
  match v with
  | .none => return none
  | v => return some (← assumeObject v)

def callValue (call : Caller σ) (f this : Value) (args : List Value) : RealmM σ Value :=
  match f with
  | .function name => call name this args
  | _ => throw .notCallable

end Realm

end ObjectModel
