/-!
The operations that a program can ask for, with operands of any type: expressions before they are
evaluated, values after.
-/

namespace ObjectModel

/-- An operation; the order of its operands is the order in which they are evaluated. -/
inductive Operation (α : Type)
  -- objects, constructors and links
  | createObject (prototype : Option α)
  | createConstructor (name initializer staticLink prototypeParent : Option α)
  | extend (sup : α) (name initializer : Option α)
  | invoke (constructor : α) (args : List α)
  | getPrototype (obj : α)
  | setPrototype (obj prototype : α)
  | linkStatic (sub sup : α)
  | linkInstancePrototype (sub sup : α)
  | isPrototypeOf (ancestor obj : α)
  | instanceOf (obj constructor : α)
  -- properties along the chain
  | get (obj key : α) (receiver : Option α)
  | set (obj key value : α) (receiver : Option α)
  | delete (obj key : α)
  | has (obj key : α)
  | superGet (home key receiver : α)
  | superSet (home key value receiver : α)
  | callMethod (obj key : α) (receiver : Option α) (args : List α)
  -- own properties
  | defineOwn (obj key descriptor : α)
  | deleteOwn (obj key : α)
  | hasOwn (obj key : α)
  | readOwn (obj key : α)
  | ownKeys (obj : α)
  | enumerableKeys (obj : α)
  | preventExtensions (obj : α)
  | isExtensible (obj : α)
  | freeze (obj : α)
  -- conversion
  | snapshot (value : α)
  | build (value : α) (prototype : Option α)
  -- the realm itself
  | epoch
  | objectCount
  | describeRealm
  | setStrict (value : α)
  -- below the policy of the realm
  | bareObject (prototype : Option α)
  | bareConstructor (name initializer staticLink : Option α)
  | runInitializer (constructor this : α) (args : List α)
  | describeConstructor (constructor : α)
  | chain (obj : α)
  | findProperty (obj key : α)
  | setProperty (obj key value : α) (receiver strict : Option α)
  | superSetProperty (home key value receiver : α) (strict : Option α)
  | deleteProperty (obj key : α) (strict : Option α)
  | table (obj : α)
  | tableContains (obj key : α)
  | tableLookup (obj key : α)
  | tableRemove (obj key : α)
  | tableDefine (obj key descriptor : α)
  | dump (obj : α)
  -- values and errors
  | sameValue (a b : α)
  | toPropertyKey (key : α)
  | isNaN (value : α)
  | isNegativeZero (value : α)
  | describeUndefined
  | describeError (kind : α) (message name : Option α)
  | raise (kind message : Option α)
  | display (value : α)
  | add (a b : α)

namespace Operation

variable {α β : Type} {m : Type → Type} [Monad m]

def mapM (f : α → m β) : Operation α → m (Operation β)
  | createObject prototype => return createObject (← prototype.mapM f)
  | createConstructor name initializer staticLink prototypeParent =>
    return createConstructor (← name.mapM f) (← initializer.mapM f) (← staticLink.mapM f)
      (← prototypeParent.mapM f)
  | extend sup name initializer =>
    return extend (← f sup) (← name.mapM f) (← initializer.mapM f)
  | invoke constructor args => return invoke (← f constructor) (← args.mapM f)
  | getPrototype obj => return getPrototype (← f obj)
  | setPrototype obj prototype => return setPrototype (← f obj) (← f prototype)
  | linkStatic sub sup => return linkStatic (← f sub) (← f sup)
  | linkInstancePrototype sub sup => return linkInstancePrototype (← f sub) (← f sup)
  | isPrototypeOf ancestor obj => return isPrototypeOf (← f ancestor) (← f obj)
  | instanceOf obj constructor => return instanceOf (← f obj) (← f constructor)
  | get obj key receiver => return get (← f obj) (← f key) (← receiver.mapM f)
  | set obj key value receiver =>
    return set (← f obj) (← f key) (← f value) (← receiver.mapM f)
  | delete obj key => return delete (← f obj) (← f key)
  | has obj key => return has (← f obj) (← f key)
  | superGet home key receiver => return superGet (← f home) (← f key) (← f receiver)
  | superSet home key value receiver =>
    return superSet (← f home) (← f key) (← f value) (← f receiver)
  | callMethod obj key receiver args =>
    return callMethod (← f obj) (← f key) (← receiver.mapM f) (← args.mapM f)
  | defineOwn obj key descriptor => return defineOwn (← f obj) (← f key) (← f descriptor)
  | deleteOwn obj key => return deleteOwn (← f obj) (← f key)
  | hasOwn obj key => return hasOwn (← f obj) (← f key)
  | readOwn obj key => return readOwn (← f obj) (← f key)
  | ownKeys obj => return ownKeys (← f obj)
  | enumerableKeys obj => return enumerableKeys (← f obj)
  | preventExtensions obj => return preventExtensions (← f obj)
  | isExtensible obj => return isExtensible (← f obj)
  | freeze obj => return freeze (← f obj)
  | snapshot value => return snapshot (← f value)
  | build value prototype => return build (← f value) (← prototype.mapM f)
  | epoch => return epoch
  | objectCount => return objectCount
  | describeRealm => return describeRealm
  | setStrict value => return setStrict (← f value)
  | bareObject prototype => return bareObject (← prototype.mapM f)
  | bareConstructor name initializer staticLink =>
    return bareConstructor (← name.mapM f) (← initializer.mapM f) (← staticLink.mapM f)
  | runInitializer constructor this args =>
    return runInitializer (← f constructor) (← f this) (← args.mapM f)
  | describeConstructor constructor => return describeConstructor (← f constructor)
  | chain obj => return chain (← f obj)
  | findProperty obj key => return findProperty (← f obj) (← f key)
  | setProperty obj key value receiver strict =>
    return setProperty (← f obj) (← f key) (← f value) (← receiver.mapM f) (← strict.mapM f)
  | superSetProperty home key value receiver strict =>
    return superSetProperty (← f home) (← f key) (← f value) (← f receiver) (← strict.mapM f)
  | deleteProperty obj key strict =>
    return deleteProperty (← f obj) (← f key) (← strict.mapM f)
  | table obj => return table (← f obj)
  | tableContains obj key => return tableContains (← f obj) (← f key)
  | tableLookup obj key => return tableLookup (← f obj) (← f key)
  | tableRemove obj key => return tableRemove (← f obj) (← f key)
  | tableDefine obj key descriptor => return tableDefine (← f obj) (← f key) (← f descriptor)
  | dump obj => return dump (← f obj)
  | sameValue a b => return sameValue (← f a) (← f b)
  | toPropertyKey key => return toPropertyKey (← f key)
  | isNaN value => return isNaN (← f value)
  | isNegativeZero value => return isNegativeZero (← f value)
  | describeUndefined => return describeUndefined
  | describeError kind message name =>
    return describeError (← f kind) (← message.mapM f) (← name.mapM f)
  | raise kind message => return raise (← kind.mapM f) (← message.mapM f)
  | display value => return display (← f value)
  | add a b => return add (← f a) (← f b)

end Operation

end ObjectModel
