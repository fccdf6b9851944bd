import ObjectModel.Realm.Links
import ObjectModel.Realm.Policy

/-!
Conversion between records and dicts: a snapshot of what is reachable from a value through
enumerable properties, and records built from nested dicts.
-/

namespace ObjectModel.Realm

variable {σ : Type}

/--
How far a snapshot follows records that its getters make while it is taken, which may go on without
end. No record that was there before is followed twice, and nothing bounds how deep these are
nested, as the stack of an interpreter would; nor does anything bound how deep `build` goes.
-/
def snapshotSlack : Nat := 20000

abbrev Seen :=
  List (ObjectId × Value)

def snapshotProperties (call : Caller σ) (convert : Value → Seen → RealmM σ (Value × Seen))
    (o : ObjectId) : List String → Seen → RealmM σ (List (Value × Value) × Seen)
  | [], seen => return ([], seen)
  | key :: keys, seen => do
    let v ← read call o key (.object o)
    let (converted, seen) ← convert v seen
    let (entries, seen) ← snapshotProperties call convert o keys seen
    return ((.str key, converted) :: entries, seen)

/--
A record becomes a dict of its enumerable own properties, the same one wherever the record is met
again; `undefined` becomes `none`, and everything else stays as it is. A record is known again by its
number, which no other record is ever given, not even where the first is out of use.
-/
def snapshot (call : Caller σ) (v : Value) : RealmM σ Value := do
  let (converted, _) ← go ((← readHeap).size + snapshotSlack) v []
  return converted
where
  go : Nat → Value → Seen → RealmM σ (Value × Seen)
    | 0, _, _ => throw .exhausted
    | _ + 1, .undefined, seen => return (.none, seen)
    | depth + 1, v, seen => do
      match ← object? v with
      | none => return (v, seen)
      | some o =>
        match seen.lookup o with
        | some dict => return (dict, seen)
        | none => do
          let id ← newDict
          let keys := (← tableOf o).enumerableKeys
          let (entries, seen) ← snapshotProperties call (go depth) o keys ((o, .dict id) :: seen)
          fillDict id entries
          return (.dict id, seen)

/--
A dict becomes a new record, linked to `prototype`, to which its entries are assigned one by one,
each once its value is converted; `none` becomes `undefined`, and everything else stays as it is.
A dict that contains itself has no record.
-/
def build (call : Caller σ) (v prototype : Value) : RealmM σ Value := do
  go ((← get).pool.dicts.size + 1) v
where
  go : Nat → Value → RealmM σ Value
    | 0, _ => throw .exhausted
    | depth + 1, v =>
      match v with
      | .dict id => do
        let o ← createObject prototype
        ((← get).pool.dict id).forM fun (key, v) => do
          let converted ← go depth v
          let _ ← setByPolicy call (.object o) key converted .none
        return .object o
      | .none => return .undefined
      | v => return v

end ObjectModel.Realm
