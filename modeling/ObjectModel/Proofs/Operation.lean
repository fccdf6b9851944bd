import ObjectModel.Error
import ObjectModel.Operation

/-!
The operands of operations, and what kind of operation each one is.
-/

namespace ObjectModel.Operation

def neutral {α : Type} : Operation α → Bool
  | describeRealm | setStrict _ => false
  | _ => true

def operands {α : Type} : Operation α → List α
  | epoch | objectCount | describeRealm | describeUndefined => []
  | getPrototype a | ownKeys a | enumerableKeys a | preventExtensions a | isExtensible a
  | freeze a | snapshot a | setStrict a | describeConstructor a | chain a | table a | dump a
  | toPropertyKey a | isNaN a | isNegativeZero a | display a => [a]
  | setPrototype a b | linkStatic a b | linkInstancePrototype a b | isPrototypeOf a b
  | instanceOf a b | delete a b | has a b | deleteOwn a b | hasOwn a b | readOwn a b
  | findProperty a b | tableContains a b | tableLookup a b | tableRemove a b | sameValue a b
  | add a b => [a, b]
  | superGet a b c | defineOwn a b c | tableDefine a b c => [a, b, c]
  | superSet a b c d => [a, b, c, d]
  | createObject a? | bareObject a? => a?.toList
  | build a b? => a :: b?.toList
  | get a b c? | deleteProperty a b c? => a :: b :: c?.toList
  | set a b c d? => a :: b :: c :: d?.toList
  | superSetProperty a b c d e? => a :: b :: c :: d :: e?.toList
  | setProperty a b c d? e? => a :: b :: c :: d?.toList ++ e?.toList
  | extend a b? c? | describeError a b? c? => a :: b?.toList ++ c?.toList
  | raise a? b? => a?.toList ++ b?.toList
  | bareConstructor a? b? c? => a?.toList ++ b?.toList ++ c?.toList
  | createConstructor a? b? c? d? => a?.toList ++ b?.toList ++ c?.toList ++ d?.toList
  | invoke a args => a :: args
  | runInitializer a b args => a :: b :: args
  | callMethod a b c? args => a :: b :: c?.toList ++ args

def isMethod {α : Type} : Operation α → Bool
  | createObject _ | createConstructor .. | extend .. | invoke .. | getPrototype _ | setPrototype ..
  | linkStatic .. | linkInstancePrototype .. | isPrototypeOf .. | instanceOf .. | get .. | set ..
  | delete .. | has .. | superGet .. | superSet .. | callMethod .. | defineOwn .. | deleteOwn ..
  | hasOwn .. | readOwn .. | ownKeys _ | enumerableKeys _ | preventExtensions _ | isExtensible _
  | freeze _ | snapshot _ | build .. | epoch | objectCount => true
  | _ => false

def relinks {α : Type} : Operation α → Bool
  | setPrototype .. | linkStatic .. | linkInstancePrototype .. => true
  | _ => false

def removes {α : Type} : Operation α → Bool
  | delete .. | deleteOwn .. | deleteProperty .. | tableRemove .. => true
  | _ => false

def writes {α : Type} : Operation α → Bool
  | set .. | superSet .. | defineOwn .. | preventExtensions _ | freeze _ | build ..
  | setProperty .. | superSetProperty .. | tableDefine .. => true
  | _ => false

def Allocates {α : Type} : Operation α → Prop
  | createObject _ | createConstructor .. | extend .. | invoke .. | build .. => True
  | _ => False

/-- The operation may fail this way though none of its steps gives a reason. -/
def FailsBeyond {α : Type} : Operation α → Failure → Prop
  | getPrototype _, failure => failure = .notRecord
  | snapshot _, failure | build .., failure => failure = .exhausted
  | op, _ => op.isMethod = false

end ObjectModel.Operation
