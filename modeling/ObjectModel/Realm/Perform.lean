import ObjectModel.Realm.Access
import ObjectModel.Realm.Construction
import ObjectModel.Realm.Conversion
import ObjectModel.Realm.Inspection
import ObjectModel.Operation

/-!
What each operation does in a realm, and its result.
-/

namespace ObjectModel

namespace Value

def add? : Value → Value → Option Value
  | int a, int b => some (int (a + b))
  | str a, str b => some (str (a ++ b))
  | _, _ => Option.none

def isNaN : Value → Bool
  | float x _ => x.isNaN
  | _ => false

def isNegativeZero : Value → Bool
  | float x _ => x.isNegativeZero
  | _ => false

end Value

namespace Realm

variable {σ : Type}

def kindOf (v : Value) : RealmM σ ErrorKind := do
  match v with
  | .str text =>
    match ErrorKind.ofClassName? text with
    | some kind => return kind
    | none => throw .notRecord
  | _ => throw .notRecord

def raise (kind : Value) (message : Option Value) : RealmM σ Value := do
  if kind = .none ∨ kind = .str userErrorName then
    throw (.user ((← message.mapM plain).getD ""))
  else
    let kind ← kindOf kind
    fail (.raised kind ((← message.mapM messageOf).getD kind.defaultMessage))

def flag : Option Value → RealmM σ Bool
  | some v => truthy v
  | none => return false

def assumeKey : Value → RealmM σ String
  | .str key => return key
  | _ => throw .notRecord

/-- Performs an operation. An absent operand stands for its default. -/
def perform (call : Caller σ) : Operation Value → RealmM σ Value
  | .createObject prototype => return .object (← createObject (.ofOption prototype))
  | .createConstructor name initializer staticLink prototypeParent =>
    return .object (← createConstructor (name.getD (.str "")) (.ofOption initializer)
      (.ofOption staticLink) (.ofOption prototypeParent))
  | .extend sup name initializer =>
    return .object (← extend sup (name.getD (.str "")) (.ofOption initializer))
  | .invoke constructor args => return .object (← invoke call constructor args)
  | .getPrototype obj => getPrototype obj
  | .setPrototype obj prototype => do
    setPrototype obj prototype
    return .none
  | .linkStatic sub sup => do
    linkStatic sub sup
    return .none
  | .linkInstancePrototype sub sup => do
    linkInstancePrototype sub sup
    return .none
  | .isPrototypeOf ancestor obj => return .bool (← isPrototypeOf ancestor obj)
  | .instanceOf obj constructor => return .bool (← instanceOf obj constructor)
  | .get obj key receiver => getProperty call obj key (.ofOption receiver)
  | .set obj key value receiver =>
    return .bool (← setByPolicy call obj key value (.ofOption receiver))
  | .delete obj key => return .bool (← deleteByPolicy obj key)
  | .has obj key => return .bool (← hasProperty obj key)
  | .superGet home key receiver => superGet call home key receiver
  | .superSet home key value receiver =>
    return .bool (← superSetByPolicy call home key value receiver)
  | .callMethod obj key receiver args => callMethod call obj key (.ofOption receiver) args
  | .defineOwn obj key descriptor => do
    defineOwn obj key descriptor
    return .none
  | .deleteOwn obj key => return .bool (← deleteOwn obj key)
  | .hasOwn obj key => return .bool (← hasOwn obj key)
  | .readOwn obj key => readOwn obj key
  | .ownKeys obj => do newKeyList (← ownKeys obj)
  | .enumerableKeys obj => do newKeyList (← enumerableKeys obj)
  | .preventExtensions obj => do
    preventExtensions obj
    return .none
  | .isExtensible obj => return .bool (← isExtensible obj)
  | .freeze obj => do
    freeze obj
    return .none
  | .snapshot value => snapshot call value
  | .build value prototype => build call value (.ofOption prototype)
  | .epoch => return .int (← readHeap).epoch
  | .objectCount => return .int (← get).objectCount
  | .describeRealm => describeRealm
  | .setStrict value => do
    modify fun r => { r with strict := value }
    return .none
  | .bareObject prototype => return .object (← bareObject (.ofOption prototype))
  | .bareConstructor name initializer staticLink =>
    return .object (← bareConstructor (name.getD (.str "")) (.ofOption initializer)
      (.ofOption staticLink))
  | .runInitializer constructor this args => do
    runInitializerOf call constructor this args
    return .none
  | .describeConstructor constructor => describeConstructor constructor
  | .chain obj => describeChain obj
  | .findProperty obj key => do describeProperty obj (← assumeKey key)
  | .setProperty obj key value receiver strict =>
    return .bool (← setProperty call obj key value (.ofOption receiver) (← flag strict))
  | .superSetProperty home key value receiver strict =>
    return .bool (← superSetProperty call home key value receiver (← flag strict))
  | .deleteProperty obj key strict =>
    return .bool (← deleteProperty obj key (← flag strict))
  | .table obj => do describeTable (← assumeObject obj)
  | .tableContains obj key => do
    return .bool ((← tableOf (← assumeObject obj)).contains (← assumeKey key))
  | .tableLookup obj key => do lookup (← assumeObject obj) (← assumeKey key)
  | .tableRemove obj key => do return .bool (← remove (← assumeObject obj) (← assumeKey key))
  | .tableDefine obj key descriptor => do
    install (← assumeObject obj) (← assumeKey key) descriptor
    return .none
  | .dump obj => dump obj
  | .sameValue a b => return .bool (a.same b)
  | .toPropertyKey key => return .str (← requireKey key)
  | .isNaN value => return .bool value.isNaN
  | .isNegativeZero value => return .bool value.isNegativeZero
  | .describeUndefined =>
    newList [.str "undefined", .str "undefined", .bool false, .bool true, .bool true, .bool true]
  | .describeError kind message name => do describeError (← kindOf kind) message name
  | .raise kind message => raise (.ofOption kind) message
  | .display value => return .str (← display value)
  | .add a b =>
    match a.add? b with
    | some sum => return sum
    | none => throw .badOperands

end Realm

end ObjectModel
