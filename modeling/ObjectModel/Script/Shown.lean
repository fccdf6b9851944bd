import ObjectModel.Realm.Basic

/-!
Values as an answer shows them: records and dicts by number, everything else in full. Records are
numbered across a whole program, dicts within one answer, both in the order of their appearance.
-/

namespace ObjectModel.Script

inductive Shown
  | none
  | undefined
  | bool (b : Bool)
  | int (n : Int)
  | float (text : String)
  | str (text : String)
  | function (name : String)
  | list (items : List Shown)
  | object (number : Nat)
  | constructor (number : Nat)
  | dict (number : Nat) (entries : List (Shown × Shown))
  /-- A dict that the same answer shows already. -/
  | dictAgain (number : Nat)
  | valueDescriptor (value writable enumerable configurable : Shown)
  | accessor (get set enumerable configurable : Shown)
deriving Inhabited

structure Numbering where
  objects : Array ObjectId := #[]
  dicts : Array Nat := #[]
deriving Inhabited

def numberObject (o : ObjectId) : StateM Numbering Nat := do
  let n ← get
  match n.objects.idxOf? o with
  | some number => return number
  | none => do
    let number := n.objects.size
    set { n with objects := n.objects.push o }
    return number

def present (heap : Heap) (pool : Pool) (v : Value) : StateM Numbering Shown :=
  go (pool.size + 1) v
where
  go : Nat → Value → StateM Numbering Shown
    | 0, _ => return .none
    | depth + 1, v =>
      match v with
      | .none => return .none
      | .undefined => return .undefined
      | .bool b => return .bool b
      | .int n => return .int n
      | .float x _ => return .float x.written
      | .str text => return .str text
      | .function name => return .function name
      | .list id => return .list (← (pool.list id).mapM (go depth))
      | .dict id => do
        let n ← get
        match n.dicts.idxOf? id with
        | some number => return .dictAgain number
        | none => do
          let number := n.dicts.size
          set { n with dicts := n.dicts.push id }
          let entries ← (pool.dict id).mapM fun (key, value) => do
            let key ← go depth key
            return (key, ← go depth value)
          return .dict number entries
      | .descriptor id =>
        match pool.descriptor? id with
        | none => return .none
        | some d =>
          match d.slot with
          | .value value writable =>
            return .valueDescriptor (← go depth value) (← go depth writable.value)
              (← go depth d.enumerable.value) (← go depth d.configurable.value)
          | .accessor get set =>
            return .accessor (← go depth (.ofOption get)) (← go depth (.ofOption set))
              (← go depth d.enumerable.value) (← go depth d.configurable.value)
      | .object o => do
        let number ← numberObject o
        return if (heap.constructor? o).isSome then .constructor number else .object number

end ObjectModel.Script
