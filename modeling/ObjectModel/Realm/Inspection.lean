import ObjectModel.Realm.Links
import ObjectModel.Realm.Liveness
import ObjectModel.Realm.Own

/-!
Reports on objects, constructors and the realm, as lists of values.
-/

namespace ObjectModel.Realm

variable {σ : Type}

def plain : Value → RealmM σ String
  | .str text => return text
  | v => display v

def messageOf (v : Value) : RealmM σ String := do
  if ← truthy v then
    plain v
  else
    return ""

def describeRealm : RealmM σ Value := do
  let r ← get
  let mode := if r.pool.truthy r.strict then "strict" else "sloppy"
  newList [r.strict, .bool r.threadSafe,
    .str s!"Realm({mode}, objects={r.objectCount})"]

def describeConstructor (constructor : Value) : RealmM σ Value := do
  match ← constructor? constructor with
  | none => throw .notRecord
  | some (o, c) =>
    let h ← readHeap
    newList [c.name, h.link o, .ofLink (h.constructionPrototype o),
      .ofOption c.initializer]

def describeChain (obj : Value) : RealmM σ Value := do
  let start ← assumeLink obj
  requireEnd start
  newList (((← readHeap).chain start).map .object)

def describeProperty (obj : Value) (key : String) : RealmM σ Value := do
  let start ← assumeLink obj
  match ← find start key with
  | some (holder, d) => newList [.object holder, ← describe holder key d]
  | none => newList [.none, .none]

def describeTable (o : ObjectId) : RealmM σ Value := do
  let r ← get
  let t := r.heap.table o
  newList [.int t.entries.length, ← newKeyList t.keys, ← newKeyList t.keys,
    ← newKeyList t.enumerableKeys, .bool t.extensible, .str (Display.table r.heap r.pool t)]

def dump (obj : Value) : RealmM σ Value := do
  let o ← requireObject obj
  let h ← readHeap
  let properties ← (h.table o).keys.mapM fun key => do newList [.str key, ← lookup o key]
  newList [h.link o, .bool (h.table o).extensible, ← newList properties]

def describeError (kind : ErrorKind) (message name : Option Value) : RealmM σ Value := do
  if name.isSome ∧ kind ≠ .model then throw .badOperands
  let message := message.getD (.str kind.defaultMessage)
  let name := name.getD (.str kind.name)
  newList [.str kind.className, name, message,
    .str (errorText (← plain name) (← messageOf message)), .bool true]

end ObjectModel.Realm
