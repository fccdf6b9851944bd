import ObjectModel.Realm.Links
import ObjectModel.Realm.Own

/-!
Constructors. An instance is allocated with the link that its constructor's `prototype` property
gives at that moment, and then initialized; a constructor's own link serves static lookups.
-/

namespace ObjectModel.Realm

variable {σ : Type}

def hidden (v : Value) (writable configurable : Bool) : Descriptor where
  slot := .value v writable
  enumerable := false
  configurable := configurable

def requireStaticLink (v : Value) : RealmM σ (Option ObjectId) := do
  match v with
  | .none => return none
  | v => return some (← requireConstructor v).1

def createConstructor (name initializer staticLink prototypeParent : Value) :
    RealmM σ ObjectId := do
  let link ← requireStaticLink staticLink
  let constructor ← allocate (.ofLink link) (some { name, initializer := initializer.toOption })
  let prototype ← createObject prototypeParent
  define prototype "constructor" (hidden (.object constructor) true true)
  define constructor "prototype" (hidden (.object prototype) true false)
  define constructor "name" (hidden name false true)
  log (.createdConstructor (← display (.object constructor)))
  return constructor

def bareConstructor (name initializer link : Value) : RealmM σ ObjectId :=
  allocate link (some { name, initializer := initializer.toOption }) false

def extend (sup name initializer : Value) : RealmM σ ObjectId := do
  let (o, _) ← requireConstructor sup
  createConstructor name initializer sup (.ofLink ((← readHeap).constructionPrototype o))

def runInitializer (call : Caller σ) (c : Constructor) (this : Value) (args : List Value) :
    RealmM σ Unit := do
  match c.initializer with
  | some initializer => do
    let _ ← callValue call initializer this args
  | none => return ()

def runInitializerOf (call : Caller σ) (constructor this : Value) (args : List Value) :
    RealmM σ Unit := do
  match ← constructor? constructor with
  | some (_, c) => runInitializer call c this args
  | none => throw .notRecord

def invoke (call : Caller σ) (constructor : Value) (args : List Value) : RealmM σ ObjectId := do
  let (o, c) ← requireConstructor constructor
  let created ← allocate (.ofLink ((← readHeap).constructionPrototype o))
  runInitializer call c (.object created) args
  log (.invoked (← display constructor))
  return created

def linkStatic (sub sup : Value) : RealmM σ Unit := do
  let (o, _) ← requireConstructor sub
  relink o (← requireStaticLink sup)

def linkInstancePrototype (sub sup : Value) : RealmM σ Unit := do
  let (o, _) ← requireConstructor sub
  match (← readHeap).constructionPrototype o with
  | none => fail (.noConstructionPrototype (← display sub))
  | some prototype => do
    let (o, _) ← requireConstructor sup
    relink prototype ((← readHeap).constructionPrototype o)

def instanceOf (obj constructor : Value) : RealmM σ Bool := do
  let (o, _) ← requireConstructor constructor
  match ← object? obj with
  | none => return false
  | some obj =>
    match (← readHeap).constructionPrototype o with
    | none => fail (.noInstances (← display constructor))
    | some prototype => isAbove (.object prototype) obj

end ObjectModel.Realm
