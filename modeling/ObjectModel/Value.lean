import ObjectModel.Number.Written

/-!
The values that programs compute with. Lists, dicts, descriptors and objects are named by numbers,
so that they compare by identity. Floats have numbers too: equality of values is identity, and what
compares floats by value says so.
-/

namespace ObjectModel

abbrev ObjectId := Nat

inductive Value
  | none
  | undefined
  | bool (b : Bool)
  | int (n : Int)
  | float (x : Binary64) (id : Nat)
  | str (text : String)
  | function (name : String)
  | list (id : Nat)
  | dict (id : Nat)
  | descriptor (id : Nat)
  | object (id : ObjectId)
deriving DecidableEq, Inhabited

def Binary64.sameAsInt (x : Binary64) (n : Int) : Bool :=
  x.toInt? == some n && !x.isNegativeZero

def Binary64.key (x : Binary64) : String :=
  match x with
  | .nan => "NaN"
  | .infinity negative => if negative then "-Infinity" else "Infinity"
  | .finite .. =>
    match x.toInt? with
    | some n => toString n
    | none => x.written

namespace Value

def ofOption : Option Value → Value
  | some v => v
  | Option.none => none

def toOption : Value → Option Value
  | none => Option.none
  | v => some v

def ofLink : Option ObjectId → Value
  | some o => object o
  | Option.none => none

def numeric : Value → Value
  | bool b => int (if b then 1 else 0)
  | v => v

/--
Whether two values are one and the same: NaN is, zeros of different sign are not, and numbers of
both types compare by value. All else compares by identity.
-/
def same : Value → Value → Bool
  | int n, float x _ => x.sameAsInt n
  | float x _, int n => x.sameAsInt n
  | float x _, float y _ => x == y
  | a, b => a == b

def key? : Value → Option String
  | str text => some text
  | bool b => some (if b then "true" else "false")
  | int n => some (toString n)
  | float x _ => some x.key
  | undefined => some "undefined"
  | _ => Option.none

end Value

end ObjectModel
