import ObjectModel.Value

/-!
Property descriptors, and which descriptors may take the place of which.
-/

namespace ObjectModel

structure Flag where
  value : Value
  holds : Bool
deriving DecidableEq, Inhabited

namespace Flag

def ofBool (b : Bool) : Flag where
  value := .bool b
  holds := b

instance : Coe Bool Flag := ⟨ofBool⟩

def same (equal : Value → Value → Bool) (a b : Flag) : Bool :=
  a.holds == b.holds && equal a.value b.value

end Flag

inductive Slot
  | value (value : Value) (writable : Flag)
  | accessor (get set : Option Value)
deriving DecidableEq, Inhabited

structure Descriptor where
  slot : Slot
  enumerable : Flag := Flag.ofBool true
  configurable : Flag := Flag.ofBool true
deriving DecidableEq, Inhabited

inductive Conflict
  | configurable
  | enumerable
  | kind
  | writable
  | value
  | functions
deriving DecidableEq, Repr

namespace Descriptor

def ofValue (value : Value) : Descriptor where
  slot := .value value true

/--
The conflict between a descriptor and the one that is to replace it. A configurable descriptor
admits every successor; a locked one admits only a change of the value, and only while writable.
Values given for flags are compared by `equal`.
-/
def conflict? (equal : Value → Value → Bool) (current new : Descriptor) : Option Conflict :=
  if current.configurable.holds then
    none
  else if new.configurable.holds then
    some .configurable
  else if !new.enumerable.same equal current.enumerable then
    some .enumerable
  else
    match current.slot, new.slot with
    | .value old writable, .value value stillWritable =>
      if writable.holds then none
      else if stillWritable.holds then some .writable
      else if value.same old then none
      else some .value
    | .accessor get set, .accessor get' set' =>
      if get' = get ∧ set' = set then none else some .functions
    | _, _ => some .kind

def fields (d : Descriptor) : List Value :=
  (match d.slot with
    | .value value writable => [value, writable.value]
    | .accessor get set => [.ofOption get, .ofOption set]) ++
  [d.enumerable.value, d.configurable.value]

def freeze (d : Descriptor) : Descriptor where
  slot :=
    match d.slot with
    | .value value _ => .value value false
    | .accessor get set => .accessor get set
  enumerable := d.enumerable
  configurable := false

end Descriptor

end ObjectModel
