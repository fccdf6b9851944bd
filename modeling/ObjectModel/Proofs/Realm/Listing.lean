import ObjectModel.Proofs.Heap.Insertion
import ObjectModel.Proofs.Heap.Order
import ObjectModel.Proofs.Realm.Noting
import ObjectModel.Proofs.Realm.Searching
import ObjectModel.Proofs.Steps.Operations
import ObjectModel.Proofs.Table

/-!
The own keys of records in realms. All that a realm answers about those of a record is about one
list of them: what it tells of the keys, of the table, and of each single key. And only what removes
a property moves the keys in this list; whatever else happens, new ones come after them.
-/

namespace ObjectModel

namespace Table

theorem contains_eq_decide (t : Table) (key : String) :
    t.contains key = decide (key ∈ t.keys) := by
  rw [contains, Bool.eq_iff_iff, lookup_isSome_iff, decide_eq_true_iff]

theorem enumerableKeys_eq_filter (t : Table) :
    t.enumerableKeys = t.keys.filter fun key => (t.lookup key).any (·.enumerable.holds) := by
  rw [enumerableKeys, keys, List.filter_map]
  congr 1
  refine List.filter_congr fun entry hentry => ?_
  obtain ⟨key, d⟩ := entry
  have hlookup : t.lookup key = some d := (t.lookup_eq_some_iff key d).2 hentry
  simp [hlookup]

end Table

namespace Pool

def IsListOf (p : Pool) (v : Value) (keys : List String) : Prop :=
  ∃ id, id < p.lists.size ∧ v = .list id ∧ p.list id = keys.map .str

theorem list_addList_self (p : Pool) (items : List Value) :
    (p.addList items).list p.lists.size = items := by
  simp [list, addList]

theorem isListOf_addList_self (p : Pool) (keys : List String) :
    (p.addList (keys.map .str)).IsListOf (.list p.lists.size) keys := by
  refine ⟨_, ?_, rfl, p.list_addList_self _⟩
  rw [addList, Array.size_push]
  exact Nat.lt_succ_self _

theorem IsListOf.addList {p : Pool} {v : Value} {keys : List String} (h : p.IsListOf v keys)
    (items : List Value) : (p.addList items).IsListOf v keys := by
  obtain ⟨id, hid, rfl, hkeys⟩ := h
  refine ⟨id, ?_, rfl, ?_⟩
  · rw [Pool.addList, Array.size_push]
    exact Nat.lt_succ_of_lt hid
  · rw [← hkeys, list, Pool.addList, Array.getElem?_push_lt hid, list,
      Array.getElem?_eq_getElem hid]

end Pool

namespace Realm

variable {σ : Type} {r : Realm σ} {o : ObjectId} {key : String} {call : Caller σ}

def yielded? : EStateM.Result Failure (Realm σ) Value → Option Descriptor
  | .ok v r => (r.pool.descriptorOf? v).map Prod.snd
  | .error _ _ => none

/-- What the realm answers about the own keys of a record is this list of them. -/
structure Lists (call : Caller σ) (r : Realm σ) (o : ObjectId) (keys : List String) : Prop where
  nodup : keys.Nodup
  ownKeys : ∃ v r', perform call (.ownKeys (.object o)) r = .ok v r' ∧ r'.heap = r.heap ∧
    r'.pool.IsListOf v keys
  enumerableKeys : ∃ v r', perform call (.enumerableKeys (.object o)) r = .ok v r' ∧
    r'.heap = r.heap ∧ r'.pool.IsListOf v (keys.filter fun key =>
      (yielded? (perform call (.readOwn (.object o) (.str key)) r)).any (·.enumerable.holds))
  /-- The table tells its length, what it iterates over, its keys and those that are enumerable. -/
  table : ∃ id r' iterated told enumerated extensible text,
    perform call (.table (.object o)) r = .ok (.list id) r' ∧ r'.heap = r.heap ∧
    r'.pool.list id = [.int keys.length, iterated, told, enumerated, extensible, text] ∧
    r'.pool.IsListOf iterated keys ∧ r'.pool.IsListOf told keys ∧
    r'.pool.IsListOf enumerated (keys.filter fun key =>
      (yielded? (perform call (.tableLookup (.object o) (.str key)) r)).any (·.enumerable.holds))
  contains : ∀ key, perform call (.tableContains (.object o) (.str key)) r =
    .ok (.bool (key ∈ keys)) r
  hasOwn : ∀ v key, v.key? = some key →
    perform call (.hasOwn (.object o) v) r = .ok (.bool (key ∈ keys)) r
  lookup : ∀ key,
    yielded? (perform call (.tableLookup (.object o) (.str key)) r) = (r.heap.table o).lookup key
  lookup_isSome_iff : ∀ key,
    (yielded? (perform call (.tableLookup (.object o) (.str key)) r)).isSome ↔ key ∈ keys
  lookup_eq_none_iff : ∀ key,
    perform call (.tableLookup (.object o) (.str key)) r = .ok .none r ↔ key ∉ keys
  readOwn : ∀ v key, v.key? = some key → perform call (.readOwn (.object o) v) r =
    perform call (.tableLookup (.object o) (.str key)) r

theorem exists_describe (hr : r.Noted) {d : Descriptor}
    (hd : (r.heap.table o).lookup key = some d) :
    ∃ id r', describe o key d r = .ok (.descriptor id) r' ∧ r'.heap = r.heap ∧
      r'.pool.descriptor? id = some d := by
  simp only [describe, bind_run, get_run]
  cases hid : r.pool.installed? o key with
  | some id =>
    obtain ⟨d', hd', hlookup⟩ := hr o key id hid
    cases hd.symm.trans hlookup
    exact ⟨id, r, rfl, rfl, hd'⟩
  | none =>
    simp only [bind_run, newDescriptor_run]
    exact ⟨_, _, rfl, rfl, Pool.descriptor?_addDescriptor_self _ _⟩

theorem yielded?_lookup (hr : r.Noted) (o : ObjectId) (key : String) :
    yielded? (lookup o key r) = (r.heap.table o).lookup key := by
  rw [lookup_run]
  cases hd : (r.heap.table o).lookup key with
  | none => rfl
  | some d =>
    obtain ⟨id, r', hrun, -, hdescriptor⟩ := exists_describe hr hd
    dsimp only
    rw [hrun, yielded?, Pool.descriptorOf?, hdescriptor]
    rfl

theorem lookup_eq_ok_none_iff (hr : r.Noted) (o : ObjectId) (key : String) :
    lookup o key r = .ok .none r ↔ key ∉ (r.heap.table o).keys := by
  rw [← Table.lookup_eq_none_iff, lookup_run]
  cases hd : (r.heap.table o).lookup key with
  | none => exact iff_of_true rfl rfl
  | some d =>
    obtain ⟨id, r', hrun, -, -⟩ := exists_describe hr hd
    dsimp only
    rw [hrun]
    exact iff_of_false nofun nofun

section Operations

variable (call : Caller σ) (ho : o < r.heap.size)
include ho

theorem perform_ownKeys :
    perform call (.ownKeys (.object o)) r = newKeyList (r.heap.table o).keys r := by
  simp only [perform, Realm.ownKeys, bind_run, requireObject_run, Heap.object?_object ho,
    tableOf_run, pure_run]

theorem perform_enumerableKeys :
    perform call (.enumerableKeys (.object o)) r =
      newKeyList (r.heap.table o).enumerableKeys r := by
  simp only [perform, Realm.enumerableKeys, bind_run, requireObject_run, Heap.object?_object ho,
    tableOf_run, pure_run]

theorem perform_table : perform call (.table (.object o)) r = describeTable o r := by
  simp only [perform, bind_run, assumeObject_run, Heap.object?_object ho]

theorem perform_tableLookup (key : String) :
    perform call (.tableLookup (.object o) (.str key)) r = lookup o key r := by
  simp only [perform, bind_run, assumeObject_run, Heap.object?_object ho, assumeKey, pure_run]

theorem perform_tableContains (key : String) :
    perform call (.tableContains (.object o) (.str key)) r =
      .ok (.bool ((r.heap.table o).contains key)) r := by
  simp only [perform, bind_run, assumeObject_run, Heap.object?_object ho, assumeKey, pure_run,
    tableOf_run]

theorem perform_hasOwn {v : Value} (hkey : v.key? = some key) :
    perform call (.hasOwn (.object o) v) r = .ok (.bool ((r.heap.table o).contains key)) r := by
  simp only [perform, bind_run, hasOwn_run ho hkey, pure_run]

theorem perform_readOwn {v : Value} (hkey : v.key? = some key) :
    perform call (.readOwn (.object o) v) r = lookup o key r := by
  simp only [perform, Realm.readOwn, bind_run, requireObject_run, Heap.object?_object ho,
    requireKey_run, hkey]

end Operations

theorem newKeyList_run (keys : List String) (r : Realm σ) :
    newKeyList keys r = .ok (.list r.pool.lists.size)
      { r with pool := r.pool.addList (keys.map .str) } :=
  newList_run _ r

theorem exists_newKeyList (keys : List String) (r : Realm σ) :
    ∃ v r', newKeyList keys r = .ok v r' ∧ r'.heap = r.heap ∧ r'.pool.IsListOf v keys :=
  ⟨_, _, newKeyList_run keys r, rfl, r.pool.isListOf_addList_self keys⟩

theorem exists_describeTable (o : ObjectId) (r : Realm σ) :
    ∃ id r' iterated told enumerated extensible text,
      describeTable o r = .ok (.list id) r' ∧ r'.heap = r.heap ∧
      r'.pool.list id = [.int (r.heap.table o).keys.length, iterated, told, enumerated,
        extensible, text] ∧
      r'.pool.IsListOf iterated (r.heap.table o).keys ∧
      r'.pool.IsListOf told (r.heap.table o).keys ∧
      r'.pool.IsListOf enumerated (r.heap.table o).enumerableKeys := by
  have hlength : (r.heap.table o).keys.length = (r.heap.table o).entries.length :=
    List.length_map _
  rw [hlength]
  simp only [describeTable, bind_run, get_run, newKeyList_run, newList_run]
  refine ⟨_, _, _, _, _, _, _, rfl, rfl, Pool.list_addList_self _ _, ?_, ?_, ?_⟩
  · exact (((Pool.isListOf_addList_self _ _).addList _).addList _).addList _
  · exact ((Pool.isListOf_addList_self _ _).addList _).addList _
  · exact (Pool.isListOf_addList_self _ _).addList _

theorem lists_keys (call : Caller σ) (hr : r.Noted) (ho : o < r.heap.size) :
    r.Lists call o (r.heap.table o).keys := by
  have hread (key : String) : yielded? (perform call (.readOwn (.object o) (.str key)) r) =
      (r.heap.table o).lookup key := by
    rw [perform_readOwn call ho rfl, yielded?_lookup hr]
  have hlookup (key : String) : yielded? (perform call (.tableLookup (.object o) (.str key)) r) =
      (r.heap.table o).lookup key := by
    rw [perform_tableLookup call ho, yielded?_lookup hr]
  constructor
  case nodup => exact (r.heap.table o).nodup
  case ownKeys =>
    rw [perform_ownKeys call ho]
    exact exists_newKeyList _ r
  case enumerableKeys =>
    simp only [hread, ← Table.enumerableKeys_eq_filter]
    rw [perform_enumerableKeys call ho]
    exact exists_newKeyList _ r
  case table =>
    simp only [hlookup, ← Table.enumerableKeys_eq_filter]
    rw [perform_table call ho]
    exact exists_describeTable o r
  case contains =>
    intro key
    rw [perform_tableContains call ho, Table.contains_eq_decide]
  case hasOwn =>
    intro v key hkey
    rw [perform_hasOwn call ho hkey, Table.contains_eq_decide]
  case lookup => exact hlookup
  case lookup_isSome_iff =>
    intro key
    rw [hlookup, Table.lookup_isSome_iff]
  case lookup_eq_none_iff =>
    intro key
    rw [perform_tableLookup call ho, lookup_eq_ok_none_iff hr]
  case readOwn =>
    intro v key hkey
    rw [perform_readOwn call ho hkey, perform_tableLookup call ho]

def Appends (r r' : Realm σ) : Prop :=
  ∀ o, (r.heap.table o).keys <+: (r'.heap.table o).keys

theorem appends_perform {call : Caller σ} {op : Operation Value} (hop : op.removes = false)
    (hcall : ∀ name this args (r : Realm σ), r.Appends (ending (call name this args r)))
    (r : Realm σ) : r.Appends (ending (perform call op r)) := by
  let T : Terms σ := { call, permits := (¬ ·.Removes) }
  have hallow : T.Allow op r.heap.size :=
    { aware := .inl trivial
      fails := fun _ _ => trivial
      mints := .inl trivial
      relinks := fun _ => fun _ hrelinks hremoves => hremoves.not_relinks hrelinks
      removes := fun h => by cases hop.symm.trans h
      writes := fun _ => fun _ => Event.Writes.not_removes
      furnishes := fun _ _ _ _ => id }
  have hsteps : Steps T Value.Within (perform call op) r := steps_perform hallow nofun
  apply hsteps.relOfEvents id (R := Appends)
  · exact fun _ _ => List.prefix_refl _
  · exact fun first second o => (first o).trans (second o)
  · exact fun _ _ _ => List.prefix_refl _
  · exact fun _ _ => List.prefix_refl _
  · exact fun _ _ _ => List.prefix_refl _
  · intro r event _ hpermitted o
    refine (r.heap.keysStep_after event o).isPrefix ?_
    by_cases hquiet : event.Quiet
    · exact hquiet.not_removes
    · exact hpermitted hquiet
  · exact hcall

end Realm

end ObjectModel
