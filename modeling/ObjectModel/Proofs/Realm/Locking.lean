import ObjectModel.Proofs.Heap.Locking
import ObjectModel.Proofs.Realm.Commuting

/-!
To freeze a record is to define each of its properties again as it is, but locked, and then to close
it. From then on no value comes to be at the record except through a setter, and nothing goes.
-/

namespace ObjectModel

theorem Descriptor.conflict?_freeze (p : Pool) (d : Descriptor) :
    d.conflict? p.equal d.freeze = if d.Stuck then some .enumerable else none := by
  cases hc : d.configurable.holds with
  | false =>
    cases hnan : d.enumerable.value.isNaN with
    | true => simp [conflict?, Stuck, freeze, Flag.ofBool, Flag.same, Pool.equal_self, hc, hnan]
    | false =>
      cases hs : d.slot <;>
        simp [conflict?, Stuck, freeze, Flag.ofBool, Flag.same, Pool.equal_self, Value.same_refl,
          hc, hnan, hs]
  | true => simp [conflict?, Stuck, hc]

namespace Realm

variable {σ : Type} {call : Caller σ} {r r' : Realm σ} {o x home : ObjectId} {k : String}
  {key v receiver : Value} {strict : Bool} {keys : List String}

def lock (o : ObjectId) (k : String) : RealmM σ Unit := do
  match (← tableOf o).lookup k with
  | some d => install o k (.descriptor (← newDescriptor d.freeze))
  | none => pure ()

theorem descriptorOf?_addDescriptor (p : Pool) (d : Descriptor) :
    (p.addDescriptor d).descriptorOf? (.descriptor p.descriptors.size) =
      some (p.descriptors.size, d) := by
  simp [Pool.descriptorOf?, Pool.descriptor?, Pool.addDescriptor]

theorem lock_run {d : Descriptor} (hd : (r.heap.table o).lookup k = some d) :
    lock o k r = (define o k d.freeze >>= fun _ =>
      modifyPool (·.install o k r.pool.descriptors.size))
      { r with pool := r.pool.addDescriptor d.freeze } := by
  rw [lock, bind_run, tableOf_run]
  dsimp only
  rw [hd]
  dsimp only
  rw [bind_run, newDescriptor_run]
  dsimp only
  rw [install_run, descriptorOf?_addDescriptor]

theorem exists_lock {d : Descriptor} (hd : (r.heap.table o).lookup k = some d)
    (hstuck : ¬ d.Stuck) :
    ∃ r', lock o k r = .ok () r' ∧ r'.heap = r.heap.apply (.define o k d.freeze) := by
  rw [lock_run hd, bind_run, define_run, Table.refusal?, hd]
  dsimp only
  rw [Descriptor.conflict?_freeze, if_neg hstuck]
  exact ⟨_, rfl, rfl⟩

theorem exists_lock_of_stuck {d : Descriptor} (hd : (r.heap.table o).lookup k = some d)
    (hstuck : d.Stuck) :
    ∃ r', lock o k r = .error (.model (.conflict k .enumerable)) r' ∧ r'.heap = r.heap := by
  rw [lock_run hd, bind_run, define_run, Table.refusal?, hd]
  dsimp only
  rw [Descriptor.conflict?_freeze, if_pos hstuck]
  exact ⟨_, rfl, rfl⟩

theorem exists_forM_lock (ho : o < r.heap.size) (hnodup : keys.Nodup)
    (hown : ∀ k ∈ keys, k ∈ (r.heap.table o).keys ∧ ¬ (r.heap.table o).StuckAt k) :
    ∃ r', keys.forM (lock o) r = .ok () r' ∧ r'.heap = r.heap.updateTable o (·.lockAll keys) := by
  induction keys generalizing r with
  | nil =>
    exact ⟨r, rfl, (r.heap.lockAll_nil o).symm⟩
  | cons k rest ih =>
    obtain ⟨hk, hrest⟩ := List.nodup_cons.1 hnodup
    obtain ⟨⟨hmem, hstuck⟩, hown⟩ := List.forall_mem_cons.1 hown
    obtain ⟨d, hd⟩ := Table.exists_lookup_of_mem hmem
    obtain ⟨r₁, hrun₁, hheap₁⟩ := exists_lock hd fun h => hstuck ⟨d, hd, h⟩
    have hlookup (j : String) (hj : j ∈ rest) :
        (r₁.heap.table o).lookup j = (r.heap.table o).lookup j := by
      have hne : j ≠ k := fun heq => hk (heq ▸ hj)
      rw [hheap₁, Heap.lookup_define ho, if_neg fun h => hne h.2]
    have hown₁ (j : String) (hj : j ∈ rest) :
        j ∈ (r₁.heap.table o).keys ∧ ¬ (r₁.heap.table o).StuckAt j := by
      rw [← Table.lookup_isSome_iff, Table.StuckAt, hlookup j hj, Table.lookup_isSome_iff]
      exact hown j hj
    have ho₁ : o < r₁.heap.size := by
      rw [hheap₁, Heap.size_define]
      exact ho
    obtain ⟨r₂, hrun₂, hheap₂⟩ := ih ho₁ hrest hown₁
    refine ⟨r₂, (bind_ok hrun₁).trans hrun₂, ?_⟩
    rw [hheap₂, hheap₁, Heap.define_lockAll hd hk]

theorem exists_forM_lock_of_stuck (ho : o < r.heap.size) (hnodup : keys.Nodup)
    (hown : ∀ k ∈ keys, k ∈ (r.heap.table o).keys)
    (hstuck : ∃ k ∈ keys, (r.heap.table o).StuckAt k) :
    ∃ before k after r', keys = before ++ k :: after ∧ (r.heap.table o).StuckAt k ∧
      keys.forM (lock o) r = .error (.model (.conflict k .enumerable)) r' ∧
      r'.heap = r.heap.updateTable o (·.lockAll before) := by
  have hfind : (keys.find? fun k => decide ((r.heap.table o).StuckAt k)).isSome = true := by
    simpa using hstuck
  -- the first stuck key is refused, when those before it are locked already
  obtain ⟨k, hk⟩ := Option.isSome_iff_exists.1 hfind
  obtain ⟨hat, before, after, rfl, hbefore⟩ := List.find?_eq_some_iff_append.1 hk
  have hbefore (j : String) (hj : j ∈ before) :
      j ∈ (r.heap.table o).keys ∧ ¬ (r.heap.table o).StuckAt j :=
    ⟨hown j (List.mem_append_left _ hj), by simpa using hbefore j hj⟩
  obtain ⟨hnodup, -, hapart⟩ := List.nodup_append.1 hnodup
  obtain ⟨r₁, hrun₁, hheap₁⟩ := exists_forM_lock ho hnodup hbefore
  obtain ⟨d, hd, hd'⟩ : (r.heap.table o).StuckAt k := of_decide_eq_true hat
  have hlookup : (r₁.heap.table o).lookup k = some d := by
    rw [hheap₁, Heap.table_updateTable, if_pos ⟨rfl, ho⟩]
    exact Table.lookup_lockAll_of_not_mem hd fun hmem => hapart k hmem k List.mem_cons_self rfl
  obtain ⟨r₂, hrun₂, hheap₂⟩ := exists_lock_of_stuck hlookup hd'
  refine ⟨before, k, after, r₂, rfl, ⟨d, hd, hd'⟩, ?_, hheap₂.trans hheap₁⟩
  have happend : (before ++ k :: after).forM (lock o) =
      (before.forM (lock o) >>= fun _ => (k :: after).forM (lock o) : RealmM σ Unit) :=
    List.forM_append
  rw [happend, bind_ok hrun₁]
  exact bind_error hrun₂

theorem preventExtensions_run (ho : o < r.heap.size) :
    preventExtensions (.object o) r = commit (.preventExtensions o) r := by
  rw [preventExtensions, bind_run, requireObject_run, Heap.object?_object ho]

theorem exists_freeze (ho : o < r.heap.size) :
    ∃ r', freeze (.object o) r = .ok () r' ∧ r'.heap = r.heap.apply (.freeze o) := by
  rw [freeze, bind_run, requireObject_run, Heap.object?_object ho]
  exact ⟨_, rfl, rfl⟩

structure Dismisses (r : Realm σ) (strays : Prop) (failure : Failure) (strict : Bool)
    (m : RealmM σ Bool) : Prop where
  stray : strays → m r = .error failure r
  dropped : ¬ strays → strict = false → ∃ r', m r = .ok false r' ∧ r'.heap = r.heap
  raised : ¬ strays → strict = true → ∃ error : ModelError, m r = .error (.model error) r ∧
    (error.kind = .readOnly ∨ error.kind = .notExtensible)

theorem Dismisses.of_refused {m : RealmM σ (Option ModelError)}
    {settle : Option ModelError → RealmM σ Bool} (hsettle : Settling strict settle r)
    {strays : Prop} {failure : Failure} (hstray : strays → m r = .error failure r)
    (hrefused : ¬ strays → ∃ error : ModelError, m r = .ok (some error) r ∧
      (error.kind = .readOnly ∨ error.kind = .notExtensible)) :
    r.Dismisses strays failure strict (m >>= settle) := by
  constructor
  · exact fun h => bind_error (hstray h)
  · intro h hstrict
    obtain ⟨error, hm, -⟩ := hrefused h
    rw [bind_ok hm]
    exact hsettle.dropped error hstrict
  · intro h hstrict
    obtain ⟨error, hm, hkind⟩ := hrefused h
    rw [bind_ok hm]
    exact ⟨error, hsettle.raised error hstrict, hkind⟩

section Frozen

variable (hfrozen : (r.heap.table o).Frozen) (ho : o < r.heap.size)
include hfrozen ho

theorem exists_writeOwn_of_frozen (k : String) (v : Value) :
    ∃ error : ModelError, writeOwn (.object o) k v r = .ok (some error) r ∧
      (error.kind = .readOnly ∨ error.kind = .notExtensible) := by
  have hrefused : ∃ error : ModelError, (r.heap.table o).unassignable? k = some error ∧
      (error.kind = .readOnly ∨ error.kind = .notExtensible) := by
    rw [Table.unassignable?]
    split
    · exact ⟨_, if_neg (by rw [hfrozen.extensible]; exact Bool.false_ne_true), .inr rfl⟩
    · next old writable enumerable configurable hd =>
      have hwritable : writable.holds = false := (hfrozen.properties k _ hd).slot
      exact ⟨_, if_neg (by rw [hwritable]; exact Bool.false_ne_true), .inl rfl⟩
    · exact ⟨_, rfl, .inl rfl⟩
  obtain ⟨error, hrefused, hkind⟩ := hrefused
  refine ⟨error, ?_, hkind⟩
  rw [writeOwn_run, Heap.object?_object ho]
  dsimp only
  rw [hrefused]

theorem exists_assign_of_frozen (call : Caller σ) (v : Value) (hx : x < r.heap.size)
    (hkey : key.key? = some k)
    (hsetter : r.heap.setter? (some x) k = none)
    (htarget : receiverOr receiver (.object x) = .object o) :
    (r.heap.Strays x k → assign call (.object x) key v receiver r = .error .notRecord r) ∧
      (¬ r.heap.Strays x k → ∃ error : ModelError,
        assign call (.object x) key v receiver r = .ok (some error) r ∧
          (error.kind = .readOnly ∨ error.kind = .notExtensible)) := by
  rw [assign_eq_passage hx hkey hsetter, htarget]
  constructor
  · intro hstray
    rw [Heap.passage_of_strays hstray]
  · intro hstray
    obtain hfree | hhindered := Heap.passage_of_not_strays hstray
    · rw [hfree]
      exact exists_writeOwn_of_frozen hfrozen ho k v
    · rw [hhindered]
      exact ⟨_, rfl, .inl rfl⟩

theorem deleteOwn_of_frozen (hkey : key.key? = some k) (hmem : k ∈ (r.heap.table o).keys) :
    deleteOwn (.object o) key r = .ok false r := by
  have hcontains : (r.heap.table o).contains k = true := (Table.lookup_isSome_iff _ _).2 hmem
  simp only [deleteOwn, bind_run, requireObject_run, Heap.object?_object ho, requireKey_run, hkey,
    removeOwn, tableOf_run, hcontains, if_true, remove, hfrozen.removable]
  rfl

end Frozen

theorem assigningAbove_of_superReceiver (hset : r.heap.Settled) (hhome : home < r.heap.size)
    (hkey : key.key? = some k) (hsetter : r.heap.setter? (r.heap.prototype home) k = none)
    (htarget : r.heap.superReceiver home receiver = .object o) :
    r.AssigningAbove home k v (.object o) (superAssign call (.object home) key v receiver r) := by
  by_cases hreceiver : receiver = .none
  · subst hreceiver
    cases hp : r.heap.prototype home with
    | some p =>
      obtain rfl : p = o := by
        rw [Heap.superReceiver, Heap.link_of_prototype hp] at htarget
        exact Value.object.inj htarget
      rw [hp] at hsetter
      rw [superAssign_none hhome hp]
      refine assigningAbove_assign hset hhome hp hkey hsetter ?_
      rintro ⟨⟩
    | none =>
      -- what is no record can be the receiver only if it is given as one
      rw [Heap.superReceiver] at htarget
      rw [Heap.prototype] at hp
      cases hl : r.heap.link home with
      | object p =>
        rw [hl] at hp
        cases hp
      | _ =>
        rw [hl] at htarget
        cases htarget
  · have htarget : receiver = .object o := by
      rw [← htarget, Heap.superReceiver]
      split
      · rfl
      · rw [receiverOr_of_ne hreceiver]
    rw [← htarget]
    exact assigningAbove_superAssign hset hhome hkey hsetter (.inl hreceiver)

theorem exists_superAssign_of_frozen (call : Caller σ) (v : Value) (hset : r.heap.Settled)
    (hfrozen : (r.heap.table o).Frozen) (ho : o < r.heap.size) (hhome : home < r.heap.size)
    (hkey : key.key? = some k) (hsetter : r.heap.setter? (r.heap.prototype home) k = none)
    (htarget : r.heap.superReceiver home receiver = .object o) :
    (r.heap.StraysAbove home k →
        superAssign call (.object home) key v receiver r = .error (r.strayFailure home) r) ∧
      (¬ r.heap.StraysAbove home k → ∃ error : ModelError,
        superAssign call (.object home) key v receiver r = .ok (some error) r ∧
          (error.kind = .readOnly ∨ error.kind = .notExtensible)) := by
  have hassign : r.AssigningAbove home k v (.object o)
      (superAssign call (.object home) key v receiver r) :=
    assigningAbove_of_superReceiver hset hhome hkey hsetter htarget
  generalize superAssign call (.object home) key v receiver r = result at hassign
  cases hassign with
  | stray hstray => exact ⟨fun _ => rfl, absurd hstray⟩
  | unset hstray => exact ⟨fun h => absurd h hstray, fun _ => ⟨_, rfl, .inl rfl⟩⟩
  | own hstray =>
    exact ⟨fun h => absurd h hstray, fun _ => exists_writeOwn_of_frozen hfrozen ho k v⟩

structure Barred (r : Realm σ) (o : ObjectId) : Prop where
  set : ∀ (call : Caller σ) (x : ObjectId) (key : Value) (k : String) (v receiver : Value)
    (strict : Bool), x < r.heap.size → key.key? = some k → r.heap.setter? (some x) k = none →
    receiverOr receiver (.object x) = .object o →
    r.Dismisses (r.heap.Strays x k) .notRecord strict
        (setProperty call (.object x) key v receiver strict) ∧
      r.Dismisses (r.heap.Strays x k) .notRecord (r.pool.truthy r.strict)
        (setByPolicy call (.object x) key v receiver)
  superSet : ∀ (call : Caller σ) (home : ObjectId) (key : Value) (k : String) (v receiver : Value)
    (strict : Bool), home < r.heap.size → key.key? = some k →
    r.heap.setter? (r.heap.prototype home) k = none →
    r.heap.superReceiver home receiver = .object o →
    r.Dismisses (r.heap.StraysAbove home k) (r.strayFailure home) strict
        (superSetProperty call (.object home) key v receiver strict) ∧
      r.Dismisses (r.heap.StraysAbove home k) (r.strayFailure home) (r.pool.truthy r.strict)
        (superSetByPolicy call (.object home) key v receiver)
  deleteOwn : ∀ (key : Value) (k : String), key.key? = some k → k ∈ (r.heap.table o).keys →
    Realm.deleteOwn (.object o) key r = .ok false r

theorem barred_of_frozen (hset : r.heap.Settled) (hfrozen : (r.heap.table o).Frozen)
    (ho : o < r.heap.size) : r.Barred o := by
  constructor
  · intro call x key k v receiver strict hx hkey hsetter htarget
    obtain ⟨hstray, hrefused⟩ :=
      exists_assign_of_frozen hfrozen ho call v hx hkey hsetter htarget
    exact ⟨.of_refused (settling_settle strict r) hstray hrefused,
      .of_refused (settling_settleByPolicy r) hstray hrefused⟩
  · intro call home key k v receiver strict hhome hkey hsetter htarget
    obtain ⟨hstray, hrefused⟩ := exists_superAssign_of_frozen call v hset hfrozen
      ho hhome hkey hsetter htarget
    exact ⟨.of_refused (settling_settle strict r) hstray hrefused,
      .of_refused (settling_settleByPolicy r) hstray hrefused⟩
  · intro key k hkey hmem
    exact deleteOwn_of_frozen hfrozen ho hkey hmem

/--
What freezing a record comes to, by way of its properties. Only a property that is stuck cannot be
defined again as it is.
-/
structure Freezes (r : Realm σ) (o : ObjectId) : Prop where
  accepted : ∀ keys : List String, keys.Nodup →
    (∀ k ∈ keys, k ∈ (r.heap.table o).keys ∧ ¬ (r.heap.table o).StuckAt k) →
    ∃ r', keys.forM (lock o) r = .ok () r' ∧ r'.heap = r.heap.updateTable o (·.lockAll keys)
  stuck : ∀ keys : List String, keys.Nodup → (∀ k ∈ keys, k ∈ (r.heap.table o).keys) →
    (∃ k ∈ keys, (r.heap.table o).StuckAt k) →
    ∃ before k after r', keys = before ++ k :: after ∧ (r.heap.table o).StuckAt k ∧
      keys.forM (lock o) r = .error (.model (.conflict k .enumerable)) r' ∧
      r'.heap = r.heap.updateTable o (·.lockAll before)
  /-- To lock all properties in any order and then to close the record is to freeze it. -/
  locked : ∀ keys : List String, keys.Perm (r.heap.table o).keys →
    (∀ k, ¬ (r.heap.table o).StuckAt k) →
    ∃ r₁ r₂, (do keys.forM (lock o); preventExtensions (.object o)) r = .ok () r₁ ∧
      freeze (.object o) r = .ok () r₂ ∧ r₁.heap = r₂.heap
  again : ∃ r₁ r₂, freeze (.object o) r = .ok () r₁ ∧ freeze (.object o) r₁ = .ok () r₂ ∧
    r₂.heap = r₁.heap
  /-- At once, and however the realm goes on from there. -/
  barred : ∀ r₁, freeze (.object o) r = .ok () r₁ →
    r₁.Barred o ∧ ∀ r₂, r₁.Follows r₂ → r₂.heap.Settled → r₂.Barred o

theorem freezes_of_settled (hset : r.heap.Settled) (ho : o < r.heap.size) : r.Freezes o := by
  obtain ⟨r₁, hrun₁, hheap₁⟩ := exists_freeze ho
  have ho₁ : o < r₁.heap.size := by
    rw [hheap₁, Heap.apply, Heap.size_updateTable]
    exact ho
  constructor
  · exact fun keys hnodup hown => exists_forM_lock ho hnodup hown
  · exact fun keys hnodup hown hstuck => exists_forM_lock_of_stuck ho hnodup hown hstuck
  · intro keys hperm hfree
    have hnodup : keys.Nodup := hperm.nodup_iff.2 (r.heap.table o).nodup
    obtain ⟨r₂, hrun₂, hheap₂⟩ :=
      exists_forM_lock ho hnodup fun k hk => ⟨hperm.subset hk, hfree k⟩
    have ho₂ : o < r₂.heap.size := by
      rw [hheap₂, Heap.size_updateTable]
      exact ho
    refine ⟨_, r₁, (bind_ok hrun₂).trans (preventExtensions_run ho₂), hrun₁, ?_⟩
    rw [hheap₁, ← Heap.preventExtensions_lockAll fun k hk => hperm.symm.subset hk, ← hheap₂]
    rfl
  · obtain ⟨r₂, hrun₂, hheap₂⟩ := exists_freeze ho₁
    refine ⟨r₁, r₂, hrun₁, hrun₂, ?_⟩
    rw [hheap₂, hheap₁, Heap.freeze_freeze]
  · intro r₁' hrun
    cases hrun₁.symm.trans hrun
    have hfrozen₁ : (r₁.heap.table o).Frozen := by
      rw [hheap₁, Heap.table_freeze ho]
      exact Table.frozen_freeze _
    refine ⟨barred_of_frozen (hheap₁ ▸ hset.updateTable o _) hfrozen₁ ho₁, ?_⟩
    rintro r₂ ⟨events, -, hheap₂, hadmits⟩ hset₂
    apply barred_of_frozen hset₂
    · rw [hheap₂]
      exact hadmits.frozen hfrozen₁
    · rw [hheap₂]
      exact ho₁.trans_le (Heap.size_le_foldl _ _)

end Realm

end ObjectModel
