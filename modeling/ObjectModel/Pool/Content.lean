import ObjectModel.Pool.Basic

/-!
What the content of a pool decides about values: whether one counts as true, whether two are equal,
and what can be a key of a dict.
-/

namespace ObjectModel.Pool

def truthy (p : Pool) : Value → Bool
  | .none | .undefined => false
  | .bool b => b
  | .int n => n != 0
  | .float x _ => !x.isZero
  | .str text => text != ""
  | .list id => !(p.list id).isEmpty
  | .dict id => !(p.dict id).isEmpty
  | _ => true

def flag (p : Pool) (v : Value) : Flag where
  value := v
  holds := p.truthy v

def equalItems (equal : Value → Value → Bool) (a b : List Value) : Bool :=
  a.length == b.length && (a.zip b).all fun (v, v') => equal v v'

def equalEntries (equal : Value → Value → Bool) (a b : List (Value × Value)) : Bool :=
  a.length == b.length && a.all fun (key, value) =>
    b.any fun (key', value') => equal key key' && equal value value'

def equalDescriptors (equal : Value → Value → Bool) (a b : Descriptor) : Bool :=
  match a.slot, b.slot with
  | .value .., .value .. | .accessor .., .accessor .. => equalItems equal a.fields b.fields
  | _, _ => false

/--
Whether two values have equal content: numbers of all types compare by value, and so do booleans,
as zero and one, while NaN equals nothing; lists, dicts and descriptors compare by what is in them,
where what is identical counts as equal, be it NaN. All else compares by identity. No comparison
that comes to an end goes deeper than the pool is large; one that does not, of dicts that contain
themselves, is taken to find a difference.
-/
def equal (p : Pool) (a b : Value) : Bool :=
  go (p.size + 1) a b
where
  go : Nat → Value → Value → Bool
    | 0, _, _ => false
    | depth + 1, a, b =>
      let inside (a b : Value) : Bool := a == b || go depth a b
      match a.numeric, b.numeric with
      | .int m, .int n => m == n
      | .int n, .float x _ => x.toInt? == some n
      | .float x _, .int n => x.toInt? == some n
      | .float x _, .float y _ => !x.isNaN && (x == y || (x.isZero && y.isZero))
      | .list i, .list j => i == j || equalItems inside (p.list i) (p.list j)
      | .dict i, .dict j => i == j || equalEntries inside (p.dict i) (p.dict j)
      | .descriptor i, .descriptor j =>
        match p.descriptor? i, p.descriptor? j with
        | some d, some d' => i == j || equalDescriptors inside d d'
        | _, _ => i == j
      | a, b => a == b

def isDictKey (p : Pool) (v : Value) : Bool :=
  go (p.size + 1) v
where
  go : Nat → Value → Bool
    | 0, _ => false
    | _ + 1, .list _ | _ + 1, .dict _ => false
    | depth + 1, .descriptor id =>
      match p.descriptor? id with
      | some d => d.fields.all (go depth)
      | none => true
    | _ + 1, _ => true

def insertEntry (p : Pool) (key value : Value) : List (Value × Value) → List (Value × Value)
  | [] => [(key, value)]
  | (key', value') :: rest =>
    if key == key' || p.equal key key' then
      (key', value) :: rest
    else
      (key', value') :: p.insertEntry key value rest

def dictOf (p : Pool) (pairs : List (Value × Value)) : List (Value × Value) :=
  pairs.foldl (fun entries (key, value) => p.insertEntry key value entries) []

end ObjectModel.Pool
