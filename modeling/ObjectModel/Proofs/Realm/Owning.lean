import ObjectModel.Proofs.Realm.Picturing
import ObjectModel.Proofs.Steps.Conversion
import ObjectModel.Proofs.Steps.Laws

/-!
Where the entries of snapshots come from. The keys of a record are listed before its getters run, so
a getter can take from it what is still to be read. Unless one does, every entry comes from what the
record has of its own.
-/

namespace ObjectModel

def Event.removes (o : ObjectId) (key : String) : Event → Bool
  | changed (.remove x k) => x == o && k == key
  | _ => false

namespace Heap

variable {h : Heap} {o : ObjectId} {key : String}

theorem contains_after {event : Event} (hown : (h.table o).contains key = true)
    (hkept : event.removes o key = false) : ((h.after event).table o).contains key = true := by
  have hupdate (x : ObjectId) (f : Table → Table)
      (hf : x = o → (f (h.table o)).contains key = true) :
      ((h.updateTable x f).table o).contains key = true := by
    rw [table_updateTable]
    split
    · next hx => exact hf hx.1
    · exact hown
  cases event with
  | logged => exact hown
  | condoned => exact hown
  | changed change =>
    cases change with
    | allocate => rwa [after, table_allocate]
    | relink => rwa [after, table_relink]
    | preventExtensions x => exact hupdate x _ fun _ => hown
    | define x k d =>
      refine hupdate x _ fun _ => ?_
      rw [Table.contains, Table.lookup_put]
      split
      · rfl
      · exact hown
    | freeze x =>
      refine hupdate x _ fun _ => ?_
      rwa [Table.contains, Table.lookup_freeze, Option.isSome_map]
    | remove x k =>
      refine hupdate x _ fun hx => ?_
      have hkey : key ≠ k := by
        rintro rfl
        simp [Event.removes, hx] at hkept
      rw [Table.contains, Table.lookup_remove, if_neg hkey]
      exact hown

theorem contains_foldl {events : List Event} (hown : (h.table o).contains key = true)
    (hkept : events.any (·.removes o key) = false) :
    ((events.foldl after h).table o).contains key = true := by
  induction events generalizing h with
  | nil => exact hown
  | cons event rest ih =>
    rw [List.any_cons, Bool.or_eq_false_iff] at hkept
    exact ih (contains_after hown hkept.1) hkept.2

end Heap

namespace Realm

variable {σ : Type} {call : Caller σ} {r r' : Realm σ} {o : ObjectId} {key : String} {n : Nat}

def removedSince (r : Realm σ) (n : Nat) (o : ObjectId) (key : String) : Bool :=
  (r.trace.toList.drop n).any (·.removes o key)

def Keeps (r : Realm σ) (n : Nat) (o : ObjectId) (key : String) : Prop :=
  n ≤ r.trace.size ∧ (r.removedSince n o key = false → (r.heap.table o).contains key = true)

theorem Keeps.follows (hkeeps : r.Keeps n o key) (hfollows : r.Follows r') : r'.Keeps n o key := by
  obtain ⟨hn, howned⟩ := hkeeps
  obtain ⟨events, htrace, hheap, -⟩ := hfollows
  have hsize : r'.trace.size = r.trace.size + events.length := by
    rw [← Array.length_toList, htrace, List.length_append, Array.length_toList]
  refine ⟨by omega, fun hremoved => ?_⟩
  have hdrop : r'.trace.toList.drop n = r.trace.toList.drop n ++ events := by
    rw [htrace, List.drop_append_of_le_length (by rwa [Array.length_toList])]
  rw [removedSince, hdrop, List.any_append, Bool.or_eq_false_iff] at hremoved
  rw [hheap]
  exact Heap.contains_foldl (howned hremoved.1) hremoved.2

def readOwned (call : Caller σ) (o : ObjectId) (key : String) : RealmM σ Value := do
  match (← tableOf o).lookup key with
  | none => throw (.unbound key)
  | some d =>
    match d.slot with
    | .value v _ => return v
    | .accessor none _ => return .undefined
    | .accessor (some getter) _ => callValue call getter (.object o) []

/-- As `readOwned`, except for what was taken from the record by one of the events from the `n`-th
on: that is looked for along the chain. -/
def readKept (call : Caller σ) (n : Nat) (o : ObjectId) (key : String) : RealmM σ Value := do
  if (← get).removedSince n o key then
    read call o key (.object o)
  else
    readOwned call o key

theorem read_eq_readOwned (hown : (r.heap.table o).contains key = true) :
    read call o key (.object o) r = readOwned call o key r := by
  obtain ⟨d, hd⟩ := Option.isSome_iff_exists.1 hown
  have ho : o < r.heap.size := by
    by_contra hge
    simp [Heap.table, Array.getElem?_eq_none (Nat.le_of_not_lt hge), Table.lookup, Table.empty]
      at hd
  obtain ⟨slot, enumerable, configurable⟩ := d
  rcases slot with _ | ⟨_ | getter, set⟩ <;>
    simp only [read, readOwned, bind_run, find_run, Heap.findProperty_of_lookup ho hd, tableOf_run,
      hd]

theorem read_eq_readKept (hkeeps : r.Keeps n o key) :
    read call o key (.object o) r = readKept call n o key r := by
  simp only [readKept, bind_run, get_run]
  cases hremoved : r.removedSince n o key with
  | true => rfl
  | false => exact read_eq_readOwned (hkeeps.2 hremoved)

def snapshotPropertiesBy (get : ObjectId → String → RealmM σ Value)
    (convert : Value → Seen → RealmM σ (Value × Seen)) (o : ObjectId) :
    List String → Seen → RealmM σ (List (Value × Value) × Seen)
  | [], seen => return ([], seen)
  | key :: keys, seen => do
    let v ← get o key
    let (converted, seen) ← convert v seen
    let (entries, seen) ← snapshotPropertiesBy get convert o keys seen
    return ((.str key, converted) :: entries, seen)

def snapshotBy (get : ObjectId → String → RealmM σ Value) (v : Value) : RealmM σ Value := do
  let (converted, _) ← go ((← readHeap).size + snapshotSlack) v []
  return converted
where
  go : Nat → Value → Seen → RealmM σ (Value × Seen)
    | 0, _, _ => throw .exhausted
    | _ + 1, .undefined, seen => return (.none, seen)
    | depth + 1, v, seen => do
      match ← object? v with
      | none => return (v, seen)
      | some o =>
        match seen.lookup o with
        | some dict => return (dict, seen)
        | none => do
          let id ← newDict
          let keys := (← tableOf o).enumerableKeys
          let (entries, seen) ← snapshotPropertiesBy get (go depth) o keys ((o, .dict id) :: seen)
          fillDict id entries
          return (.dict id, seen)

section Composed

variable {aware : Prop} (hcall : ComposedCaller aware call)
include hcall

theorem snapshotProperties_eq_by {convert convert' : Value → Seen → RealmM σ (Value × Seen)}
    (hfollows : ∀ v seen (r : Realm σ), r.Follows (ending (convert v seen r)))
    (hconvert : ∀ v seen r, n ≤ r.trace.size → convert v seen r = convert' v seen r)
    {keys : List String} (hkeys : ∀ key ∈ keys, r.Keeps n o key) (seen : Seen) :
    snapshotProperties call convert o keys seen r =
      snapshotPropertiesBy (readKept call n) convert' o keys seen r := by
  induction keys generalizing seen r with
  | nil => rfl
  | cons key keys ih =>
    rw [List.forall_mem_cons] at hkeys
    have hread : r.Follows (ending (read call o key (.object o) r)) :=
      (steps_read (T := { call, aware }) o key nofun).follows id hcall
    rw [read_eq_readKept hkeys.1] at hread
    rw [snapshotProperties, snapshotPropertiesBy]
    simp only [bind_run, read_eq_readKept hkeys.1]
    cases hr₁ : readKept call n o key r with
    | error => rfl
    | ok v r₁ =>
      rw [hr₁] at hread
      have hkey : r₁.Keeps n o key := hkeys.1.follows hread
      have hconverted := hfollows v seen r₁
      simp only [← hconvert v seen r₁ hkey.1]
      cases hr₂ : convert v seen r₁ with
      | error => rfl
      | ok converted r₂ =>
        rw [hr₂] at hconverted
        have hrest : ∀ key ∈ keys, r₂.Keeps n o key := fun key hkey =>
          ((hkeys.2 key hkey).follows hread).follows hconverted
        simp only [ih hrest]

theorem snapshot_go_follows (depth : Nat) (v : Value) (seen : Seen) (r : Realm σ) :
    r.Follows (ending (snapshot.go call depth v seen r)) := by
  have hsteps : Steps { call, aware } _ (snapshot.go call depth v seen) r :=
    steps_snapshot_go trivial trivial depth False.elim
  exact hsteps.follows id hcall

theorem snapshot_go_eq_by (depth : Nat) (v : Value) (seen : Seen) (hn : n ≤ r.trace.size) :
    snapshot.go call depth v seen r = snapshotBy.go (readKept call n) depth v seen r := by
  induction depth generalizing v seen r with
  | zero => rfl
  | succ depth ih =>
    by_cases hv : v = .undefined
    · subst hv
      rfl
    rw [snapshot.go.eq_3 _ _ _ _ hv, snapshotBy.go.eq_3 _ _ _ _ hv, bind_run, bind_run, object?_run]
    cases r.heap.object? v with
    | none => rfl
    | some o =>
      dsimp only
      cases seen.lookup o with
      | some dict => rfl
      | none =>
        -- all keys are the record's own at the time when they are listed
        have hkeys : ∀ key ∈ (r.heap.table o).enumerableKeys,
            (r.withPool (r.pool.addDict [])).Keeps n o key := by
          intro key hkey
          obtain ⟨d, hd, -⟩ := Table.exists_of_mem_enumerableKeys hkey
          refine ⟨hn, fun _ => ?_⟩
          show ((r.heap.table o).lookup key).isSome = true
          rw [hd]
          rfl
        dsimp only
        rw [bind_ok (newDict_run r), bind_ok (newDict_run r), bind_ok (tableOf_run o _),
          bind_ok (tableOf_run o _), bind_run, bind_run]
        rw [show (r.withPool (r.pool.addDict [])).heap = r.heap from rfl,
          snapshotProperties_eq_by hcall (snapshot_go_follows hcall depth)
            (fun v seen r hr => ih v seen hr) hkeys]

theorem snapshot_eq_snapshotBy (v : Value) (r : Realm σ) :
    snapshot call v r = snapshotBy (readKept call r.trace.size) v r := by
  rw [snapshot, snapshotBy, bind_ok (readHeap_run r), bind_ok (readHeap_run r), bind_run, bind_run,
    snapshot_go_eq_by hcall _ _ _ (Nat.le_refl _)]

end Composed

end Realm

end ObjectModel
