import ObjectModel.Proofs.Heap.DataRecords
import ObjectModel.Proofs.Realm.Above

/-!
Records that are built from data. What was in the heap is left alone, each entry is assigned to a
record that does not have its property yet, and so only what the prototype's chain comes to can be
in the way.
-/

namespace ObjectModel

def Heap.StraysFrom (h : Heap) (start : Option ObjectId) (key : String) : Prop :=
  h.findProperty start key = none ∧ (h.strayEnd? start).isSome = true

instance (h : Heap) (start : Option ObjectId) (key : String) : Decidable (h.StraysFrom start key) :=
  inferInstanceAs (Decidable (_ ∧ _))

def Heap.FindsValues (h : Heap) (start : Option ObjectId) (key : String) : Prop :=
  ∀ found ∈ h.findProperty start key, found.2.value?.isSome = true

instance (h : Heap) (start : Option ObjectId) (key : String) :
    Decidable (h.FindsValues start key) :=
  inferInstanceAs (Decidable (∀ found ∈ h.findProperty start key, found.2.value?.isSome = true))

namespace Realm

variable {σ α : Type} {call : Caller σ} {r r' r'' : Realm σ} {o : ObjectId} {k : String}
  {key v : Value}

theorem write_of_straysFrom (hstray : r.heap.StraysFrom (some o) k) (receiver : Value) :
    write call o k v receiver r = .error .notRecord r := by
  obtain ⟨hnone, hend⟩ := hstray
  obtain ⟨stray, hend⟩ := Option.isSome_iff_exists.1 hend
  rw [write_run, hnone, hend]

theorem write_of_findsValues (hvalues : r.heap.FindsValues (some o) k)
    (hstray : ¬ r.heap.StraysFrom (some o) k) (receiver : Value) :
    write call o k v receiver r = writeOwn receiver k v r := by
  rw [write_run]
  cases hfound : r.heap.findProperty (some o) k with
  | none =>
    cases hend : r.heap.strayEnd? (some o) with
    | none => rfl
    | some stray => exact absurd ⟨hfound, by rw [hend]; rfl⟩ hstray
  | some found =>
    have hvalue := hvalues found hfound
    obtain ⟨holder, slot, enumerable, configurable⟩ := found
    cases slot with
    | value => rfl
    | accessor => cases hvalue

def added (r : Realm σ) (o : ObjectId) (k : String) (v : Value) : Realm σ :=
  { r.committed (.define o k (.ofValue v)) with pool := r.pool.uninstall o k }

theorem writeOwn_of_new (ho : o < r.heap.size) (hnew : (r.heap.table o).lookup k = none)
    (hroom : (r.heap.table o).extensible = true) :
    writeOwn (.object o) k v r = .ok none (r.added o k v) := by
  rw [writeOwn_run, Heap.object?_object ho]
  simp only [Table.unassignable?, Table.assigned, hnew, hroom, if_true]
  have hdefine : define o k (.ofValue v) r = .ok () (r.added o k v) := by
    rw [define_run]
    simp only [Table.refusal?, hnew, hroom, if_true]
    rfl
  exact bind_ok hdefine

theorem setByPolicy_of_straysFrom (ho : o < r.heap.size) (hkey : key.key? = some k)
    (hstray : r.heap.StraysFrom (some o) k) :
    setByPolicy call (.object o) key v .none r = .error .notRecord r := by
  refine bind_error ?_
  rw [assign_run ho]
  exact (bind_ok (by rw [requireKey_run, hkey])).trans (write_of_straysFrom hstray _)

theorem setByPolicy_of_new (ho : o < r.heap.size) (hkey : key.key? = some k)
    (hvalues : r.heap.FindsValues (some o) k) (hstray : ¬ r.heap.StraysFrom (some o) k)
    (hnew : (r.heap.table o).lookup k = none) (hroom : (r.heap.table o).extensible = true) :
    setByPolicy call (.object o) key v .none r = .ok true (r.added o k v) := by
  have hassign : assign call (.object o) key v .none r = .ok none (r.added o k v) := by
    rw [assign_run ho]
    refine (bind_ok (by rw [requireKey_run, hkey])).trans ?_
    exact (write_of_findsValues hvalues hstray _).trans (writeOwn_of_new ho hnew hroom)
  exact (bind_ok hassign).trans ((settling_settleByPolicy r).done _)

structure Built (r r' : Realm σ) : Prop where
  rest : r' = { r with
    heap := r'.heap
    trace := r'.trace
    pool := { r.pool with installed := r'.pool.installed } }
  trace : ∃ changes : List Change, r'.trace.toList = r.trace.toList ++ changes.map .changed

theorem Built.refl (r : Realm σ) : r.Built r :=
  ⟨rfl, [], (List.append_nil _).symm⟩

theorem Built.trans (hfirst : r.Built r') (hsecond : r'.Built r'') : r.Built r'' := by
  obtain ⟨hrest, changes, htrace⟩ := hfirst
  obtain ⟨hrest', changes', htrace'⟩ := hsecond
  refine ⟨?_, changes ++ changes', ?_⟩
  · rw [hrest', hrest]
  · rw [htrace', htrace, List.map_append, List.append_assoc]

theorem Built.dicts_eq (hbuilt : r.Built r') : r'.pool.dicts = r.pool.dicts := by
  rw [hbuilt.rest]

theorem built_committed (r : Realm σ) (change : Change) : r.Built (r.committed change) :=
  ⟨rfl, [change], by simp [committed]⟩

theorem built_added (r : Realm σ) (o : ObjectId) (k : String) (v : Value) :
    r.Built (r.added o k v) :=
  ⟨rfl, [.define o k (.ofValue v)], by simp [added, committed]⟩

/--
How it ends to build from data with these keys. It comes to `a` and the heap `h'` unless some key
strays in the heap `h` that it began with.
-/
inductive Building (h : Heap) (prototype : Option ObjectId) (keys : List String) (r : Realm σ)
    (a : α) (h' : Heap) : EStateM.Result Failure (Realm σ) α → Prop
  | built {r' : Realm σ} (hkeys : ∀ k ∈ keys, ¬ h.StraysFrom prototype k) (hbuilt : r.Built r')
    (hheap : r'.heap = h') : Building h prototype keys r a h' (.ok a r')
  | strayed {r' : Realm σ} (hkeys : ∃ k ∈ keys, h.StraysFrom prototype k) :
    Building h prototype keys r a h' (.error .notRecord r')

theorem Building.bind {β : Type} {h h₁ h₂ : Heap} {prototype : Option ObjectId}
    {keys : List String} {a : α} {b : β} {m : RealmM σ α} {f : α → RealmM σ β}
    (hm : Building h prototype keys r a h₁ (m r)) (keys' : List String)
    (hf : ∀ r₁, r.Built r₁ → r₁.heap = h₁ → Building h prototype keys' r₁ b h₂ (f a r₁)) :
    Building h prototype (keys ++ keys') r b h₂ ((m >>= f) r) := by
  generalize hrun : m r = result at hm
  cases hm with
  | strayed hkeys =>
    obtain ⟨k, hk, hstray⟩ := hkeys
    rw [bind_error hrun]
    exact .strayed ⟨k, List.mem_append_left _ hk, hstray⟩
  | @built r₁ hkeys hbuilt hheap =>
    rw [bind_ok hrun]
    have hrest := hf r₁ hbuilt hheap
    generalize f a r₁ = result' at hrest
    cases hrest with
    | strayed hkeys' =>
      obtain ⟨k, hk, hstray⟩ := hkeys'
      exact .strayed ⟨k, List.mem_append_right _ hk, hstray⟩
    | built hkeys' hbuilt' hheap' =>
      exact .built (List.forall_mem_append.2 ⟨hkeys, hkeys'⟩) (hbuilt.trans hbuilt') hheap'

theorem Building.congr_keys {h h' : Heap} {prototype : Option ObjectId} {keys keys' : List String}
    {a : α} {result : EStateM.Result Failure (Realm σ) α}
    (hbuilding : Building h prototype keys r a h' result) (hkeys : ∀ k, k ∈ keys' ↔ k ∈ keys) :
    Building h prototype keys' r a h' result := by
  cases hbuilding with
  | built hnone hbuilt hheap => exact .built (fun k hk => hnone k ((hkeys k).1 hk)) hbuilt hheap
  | strayed hstray =>
    obtain ⟨k, hk, hstray⟩ := hstray
    exact .strayed ⟨k, (hkeys k).2 hk, hstray⟩

def storeEntry (call : Caller σ) (convert : Value → RealmM σ Value) (o : ObjectId) :
    Value × Value → RealmM σ Unit :=
  fun (key, v) => do
    let converted ← convert v
    let _ ← setByPolicy call (.object o) key converted .none

theorem forM_storeEntry_cons (call : Caller σ) (convert : Value → RealmM σ Value) (o : ObjectId)
    (key v : Value) (pairs : List (Value × Value)) :
    ((key, v) :: pairs).forM (storeEntry call convert o) = (do
      let converted ← convert v
      let _ ← setByPolicy call (.object o) key converted .none
      pairs.forM (storeEntry call convert o)) := by
  show (storeEntry call convert o (key, v) >>= fun _ => pairs.forM (storeEntry call convert o)) = _
  simp only [storeEntry, bind_assoc, pure_bind]

theorem build_go_leaf (call : Caller σ) (prototype : Value) (depth : Nat) (hv : v.IsLeaf)
    (r : Realm σ) : build.go call prototype (depth + 1) v r = .ok v.stored r := by
  cases v with
  | dict => exact hv.elim
  | object => exact hv.elim
  | _ => rfl

theorem build_go_dict (call : Caller σ) (prototype : Value) (depth id : Nat) :
    build.go call prototype (depth + 1) (.dict id) = (do
      let o ← createObject prototype
      ((← get).pool.dict id).forM (storeEntry call (build.go call prototype depth) o)
      return .object o) :=
  rfl

section Data

variable {h : Heap} {prototype : Option ObjectId} {os : List ObjectId} {pool : Pool}
  (call : Caller σ) (ha : h.Ascent prototype os)
include ha

theorem building_setByPolicy {before after : List Record} {record : Record}
    (hr : r.heap = h.extend (before ++ record :: after)) (hlink : record.link = .ofLink prototype)
    (hkey : key.key? = some k) (hvalues : h.FindsValues prototype k)
    (hnew : record.table.lookup k = none) (hroom : record.table.extensible = true) :
    Building h prototype [k] r true
      (h.extend (before ++ { record with table := record.table.put k (.ofValue v) } :: after))
      (setByPolicy call (.object (h.size + before.length)) key v .none r) := by
  have ho : h.size + before.length < r.heap.size := by
    rw [hr]
    exact (Heap.ascent_added ha hlink).lt_size List.mem_cons_self
  have hfound : r.heap.findProperty (some (h.size + before.length)) k =
      h.findProperty prototype k := by
    rw [hr]
    exact Heap.findProperty_added ha hlink hnew
  have hstrays : r.heap.StraysFrom (some (h.size + before.length)) k ↔
      h.StraysFrom prototype k := by
    rw [Heap.StraysFrom, Heap.StraysFrom, hfound, hr, Heap.strayEnd?_added ha hlink]
  by_cases hstray : h.StraysFrom prototype k
  · rw [setByPolicy_of_straysFrom ho hkey (hstrays.2 hstray)]
    exact .strayed ⟨k, List.mem_singleton_self k, hstray⟩
  · rw [setByPolicy_of_new ho hkey (by rwa [Heap.FindsValues, hfound])
      (fun h => hstray (hstrays.1 h)) (by rw [hr, Heap.table_extend, hnew])
      (by rw [hr, Heap.table_extend, hroom])]
    refine .built (List.forall_mem_singleton.2 hstray) (built_added _ _ _ _) ?_
    rw [added, committed, hr]
    exact Heap.apply_define_extend h before after record _

theorem building_createObject {records : List Record} (hr : r.heap = h.extend records) :
    Building h prototype [] r (h.size + records.length)
      (h.extend (records ++ [{ link := .ofLink prototype }]))
      (createObject (.ofLink prototype) r) := by
  have hlink : r.heap.asLink? (.ofLink prototype) = some prototype := by
    refine Heap.asLink?_ofLink fun q hq => ?_
    rw [hr, Heap.size_extend]
    cases ha with
    | top => cases hq
    | step hlt _ =>
      cases hq
      exact Nat.lt_add_right _ hlt
  rw [createObject_run, hlink, ← Heap.size_extend, ← hr]
  refine .built (List.forall_mem_nil _) (built_committed r _) ?_
  rw [committed, hr]
  exact Heap.apply_allocate_extend h records _ _ _

mutual

theorem building_data (d : Data) {depth : Nat} {records : List Record} {r : Realm σ} {v : Value}
    (hdepth : d.height ≤ depth) (hproper : d.Proper)
    (hvalues : ∀ k ∈ d.keys, h.FindsValues prototype k) (hholds : pool.Holds v d)
    (hdicts : r.pool.dicts = pool.dicts) (hr : r.heap = h.extend records) :
    Building h prototype d.keys r (d.value r.heap.size)
      (h.extend (records ++ d.records (.ofLink prototype) r.heap.size))
      (build.go call (.ofLink prototype) depth v r) := by
  cases d with
  | leaf v' =>
    cases hholds with
    | leaf hv =>
      obtain ⟨depth, rfl⟩ := Nat.exists_eq_succ_of_ne_zero (Nat.ne_of_gt hdepth)
      rw [build_go_leaf call _ _ hv, Data.records, List.append_nil]
      exact .built (List.forall_mem_nil _) (.refl r) hr
  | dict entries =>
    cases hholds with
    | @dict id _ hentries =>
      obtain ⟨depth, rfl⟩ := Nat.exists_eq_succ_of_ne_zero
        (Nat.ne_of_gt (Nat.lt_of_lt_of_le (Nat.succ_pos _) hdepth))
      rw [Data.Proper] at hproper
      have hsize : r.heap.size = h.size + records.length := by rw [hr, Heap.size_extend]
      have hcreate := building_createObject ha hr
      rw [Nat.succ_eq_add_one, build_go_dict]
      refine hcreate.bind entries.keys fun r₁ hbuilt hr₁ => ?_
      have hsize₁ : r₁.heap.size = h.size + records.length + 1 := by
        rw [hr₁, Heap.size_extend, List.length_append]
        rfl
      have hdicts₁ : r₁.pool.dicts = pool.dicts := hbuilt.dicts_eq.trans hdicts
      have hstore := building_entries entries (Nat.le_of_succ_le_succ hdepth) hproper.2
        (.of_empty hproper.1) rfl hvalues hentries hdicts₁ hr₁
      have hpairs : r₁.pool.dict id = pool.dict id := by rw [Pool.dict, hdicts₁, Pool.dict]
      rw [hsize₁] at hstore
      rw [hsize, bind_run, get_run]
      dsimp only
      rw [hpairs]
      refine (hstore.bind [] fun r₂ _ hr₂ => ?_).congr_keys ?_
      · exact .built (List.forall_mem_nil _) (.refl r₂) hr₂
      · intro k
        rw [List.append_nil]

theorem building_entries (entries : Entries) {depth : Nat} {pairs : List (Value × Value)}
    {r : Realm σ} {before after : List Record} {table : Table} (hdepth : entries.height ≤ depth)
    (hproper : entries.Proper) (hfits : entries.Fits table) (hroom : table.extensible = true)
    (hvalues : ∀ k ∈ entries.keys, h.FindsValues prototype k)
    (hholds : pool.HoldsAll pairs entries) (hdicts : r.pool.dicts = pool.dicts)
    (hr : r.heap = h.extend (before ++ { link := .ofLink prototype, table } :: after)) :
    Building h prototype entries.keys r ()
      (h.extend (before ++
        { link := .ofLink prototype, table := entries.fill r.heap.size table } ::
          (after ++ entries.records (.ofLink prototype) r.heap.size)))
      (pairs.forM (storeEntry call (build.go call (.ofLink prototype) depth)
        (h.size + before.length)) r) := by
  cases entries with
  | nil =>
    cases hholds
    rw [Entries.fill, Entries.records, List.append_nil]
    exact .built (List.forall_mem_nil _) (.refl r) hr
  | cons key d rest =>
    cases hholds with
    | @cons _ v _ pairs _ hd hrest =>
      rw [Entries.height] at hdepth
      rw [Entries.Proper] at hproper
      rw [Entries.keys, List.forall_mem_cons, List.forall_mem_append] at hvalues
      have hkey : key.key? = some key.name := Value.key?_eq_name hproper.1
      have hnew : table.lookup key.name = none :=
        (table.lookup_eq_none_iff _).2 (hfits.new key.name List.mem_cons_self)
      have hfirst := building_data d (Nat.le_trans (Nat.le_max_left _ _) hdepth) hproper.2.1
        hvalues.2.1 hd hdicts hr
      rw [forM_storeEntry_cons]
      -- what is in the value comes after the record, which only then gets the property
      refine (hfirst.bind ([key.name] ++ rest.keys) fun r₁ hbuilt₁ hr₁ => ?_).congr_keys ?_
      · rw [List.append_assoc, List.cons_append] at hr₁
        refine (building_setByPolicy call ha hr₁ rfl hkey hvalues.1 hnew hroom).bind
          rest.keys fun r₂ hbuilt₂ hr₂ => ?_
        have hlast := building_entries rest (Nat.le_trans (Nat.le_max_right _ _) hdepth)
          hproper.2.2 (hfits.rest _) hroom hvalues.2.2 hrest
          (hbuilt₂.dicts_eq.trans (hbuilt₁.dicts_eq.trans hdicts)) hr₂
        have hsize : r₂.heap.size = r.heap.size + d.dicts := by
          rw [hr₂, hr]
          simp
          omega
        rw [hsize, List.append_assoc] at hlast
        exact hlast
      · intro k
        simp only [Entries.keys, List.mem_cons, List.mem_append, List.singleton_append]
        tauto

end

end Data

theorem build_run (call : Caller σ) (v prototype : Value) (r : Realm σ) :
    build call v prototype r = build.go call prototype (r.pool.dicts.size + 1) v r :=
  rfl

theorem building_build (call : Caller σ) {prototype : Option ObjectId} {os : List ObjectId}
    (ha : r.heap.Ascent prototype os) {d : Data} (hproper : d.Proper)
    (hvalues : ∀ k ∈ d.keys, r.heap.FindsValues prototype k) (hholds : r.pool.Holds v d) :
    Building r.heap prototype d.keys r (d.value r.heap.size)
      (r.heap.extend (d.records (.ofLink prototype) r.heap.size))
      (build call v (.ofLink prototype) r) := by
  rw [build_run]
  exact building_data call ha d hholds.height_le hproper hvalues hholds rfl
    r.heap.extend_nil.symm

end Realm

end ObjectModel
