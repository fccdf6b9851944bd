import ObjectModel.Proofs.Realm.Composed
import ObjectModel.Realm.Access
import ObjectModel.Realm.Links

/-!
The checks, searches and writes of a realm as equations: what each comes to, told by the heap and
the pool that it is run with.
-/

namespace ObjectModel

def Pool.descriptorOf? (p : Pool) : Value → Option (Nat × Descriptor)
  | .descriptor id => (p.descriptor? id).map (id, ·)
  | _ => none

namespace Table

def unassignable? (t : Table) (key : String) : Option ModelError :=
  match t.lookup key with
  | none => if t.extensible then none else some (.notExtensible key)
  | some { slot := .value _ writable, .. } =>
    if writable.holds then none else some (.readOnly key)
  | some { slot := .accessor .., .. } => some (.readOnly key)

def assigned (t : Table) (key : String) (v : Value) : Descriptor :=
  match t.lookup key with
  | some { slot := .value _ writable, enumerable, configurable } =>
    { slot := .value v writable, enumerable, configurable }
  | _ => .ofValue v

end Table

namespace Realm

variable {σ α β : Type}

@[simp]
theorem pure_run (a : α) (r : Realm σ) : (pure a : RealmM σ α) r = .ok a r :=
  rfl

@[simp]
theorem bind_run (m : RealmM σ α) (f : α → RealmM σ β) (r : Realm σ) :
    (m >>= f) r =
      match m r with
      | .ok a r' => f a r'
      | .error failure r' => .error failure r' := by
  cases h : m r with
  | ok a r' => exact bind_ok h
  | error failure r' => exact bind_error h

@[simp]
theorem get_run (r : Realm σ) : (get : RealmM σ (Realm σ)) r = .ok r r :=
  rfl

@[simp]
theorem commit_run (change : Change) (r : Realm σ) :
    commit change r =
      .ok () { r with heap := r.heap.apply change, trace := r.trace.push (.changed change) } :=
  rfl

def logged (r : Realm σ) (entry : LogEntry) : Realm σ :=
  { r with trace := r.trace.push (.logged entry) }

@[simp]
theorem readHeap_run (r : Realm σ) : readHeap r = .ok r.heap r :=
  rfl

@[simp]
theorem tableOf_run (o : ObjectId) (r : Realm σ) : tableOf o r = .ok (r.heap.table o) r :=
  rfl

@[simp]
theorem object?_run (v : Value) (r : Realm σ) : object? v r = .ok (r.heap.object? v) r :=
  rfl

theorem find_run (start : Option ObjectId) (key : String) (r : Realm σ) :
    find start key r =
      match r.heap.findProperty start key, r.heap.strayEnd? start with
      | some found, _ => .ok (some found) r
      | none, some _ => .error .notRecord r
      | none, none => .ok none r := by
  simp only [find, bind_run, readHeap_run]
  cases r.heap.findProperty start key with
  | some found => rfl
  | none =>
    simp only [requireEnd, bind_run, readHeap_run]
    cases r.heap.strayEnd? start <;> rfl

theorem requireObject_run (v : Value) (what : String) (r : Realm σ) :
    requireObject v what r =
      match r.heap.object? v with
      | some o => .ok o r
      | none => .error (.model (.notObject what (Display.value r.heap r.pool v))) r := by
  simp only [requireObject, bind_run, object?_run]
  cases r.heap.object? v <;> rfl

theorem assumeObject_run (v : Value) (r : Realm σ) :
    assumeObject v r =
      match r.heap.object? v with
      | some o => .ok o r
      | none => .error .notRecord r := by
  simp only [assumeObject, bind_run, object?_run]
  cases r.heap.object? v <;> rfl

theorem requireKey_run (v : Value) (r : Realm σ) :
    requireKey v r =
      match v.key? with
      | some key => .ok key r
      | none => .error (.model (.invalidKey (Display.value r.heap r.pool v))) r := by
  rw [requireKey]
  cases v.key? <;> rfl

theorem requireDescriptor_run (v : Value) (r : Realm σ) :
    requireDescriptor v r =
      match r.pool.descriptorOf? v with
      | some found => .ok found r
      | none => .error (.model (.notDescriptor (Display.value r.heap r.pool v))) r := by
  cases v with
  | descriptor id =>
    simp only [requireDescriptor, bind_run, get_run, Pool.descriptorOf?]
    cases r.pool.descriptor? id <;> rfl
  | _ => rfl

theorem newList_run (items : List Value) (r : Realm σ) :
    newList items r =
      .ok (.list r.pool.lists.size) { r with pool := r.pool.addList items } := by
  show EStateM.Result.ok (Value.list ((r.pool.lists.push items).size - 1)) _ = _
  rw [Array.size_push, Nat.add_sub_cancel]

theorem newDescriptor_run (d : Descriptor) (r : Realm σ) :
    newDescriptor d r =
      .ok r.pool.descriptors.size { r with pool := r.pool.addDescriptor d } := by
  show EStateM.Result.ok ((r.pool.descriptors.push d).size - 1) _ = _
  rw [Array.size_push, Nat.add_sub_cancel]

theorem define_run (o : ObjectId) (key : String) (d : Descriptor) (r : Realm σ) :
    define o key d r =
      match (r.heap.table o).refusal? r.pool.equal key d with
      | some error => .error (.model error) r
      | none => .ok () { r with
          heap := r.heap.apply (.define o key d)
          trace := r.trace.push (.changed (.define o key d))
          pool := r.pool.uninstall o key } := by
  simp only [define, bind_run, get_run, tableOf_run]
  cases (r.heap.table o).refusal? r.pool.equal key d <;> rfl

theorem install_run (o : ObjectId) (key : String) (descriptor : Value) (r : Realm σ) :
    install o key descriptor r =
      match r.pool.descriptorOf? descriptor with
      | some (id, d) => (define o key d >>= fun _ => modifyPool (·.install o key id)) r
      | none => .error (.model (.notDescriptor (Display.value r.heap r.pool descriptor))) r := by
  rw [install, bind_run, requireDescriptor_run]
  cases r.pool.descriptorOf? descriptor <;> rfl

theorem inherits_run (o : ObjectId) (key : String) (r : Realm σ) :
    inherits o key r =
      if r.heap.ownedAbove o key then .ok true r
      else if (r.heap.strayEnd? (some o)).isSome then .error .notRecord r
      else .ok false r := by
  simp only [inherits, bind_run, readHeap_run]
  split
  · rfl
  · simp only [requireEnd, bind_run, readHeap_run]
    cases r.heap.strayEnd? (some o) <;> rfl

theorem lookup_run (o : ObjectId) (key : String) (r : Realm σ) :
    lookup o key r =
      match (r.heap.table o).lookup key with
      | some d => describe o key d r
      | none => .ok .none r := by
  simp only [lookup, bind_run, tableOf_run]
  cases (r.heap.table o).lookup key <;> rfl

theorem allocate_run (link : Value) (c : Option Constructor) (counted : Bool) (r : Realm σ) :
    allocate link c counted r = .ok r.heap.size { r with
      heap := r.heap.apply (.allocate link c counted)
      trace := r.trace.push (.changed (.allocate link c counted)) } := by
  simp only [allocate, bind_run, commit_run, readHeap_run, pure_run, Heap.size_allocate,
    Nat.add_sub_cancel]

theorem writeOwn_run (receiver : Value) (key : String) (v : Value) (r : Realm σ) :
    writeOwn receiver key v r =
      match r.heap.object? receiver with
      | none => .ok (some (.badReceiver key (Display.value r.heap r.pool receiver))) r
      | some o =>
        match (r.heap.table o).unassignable? key with
        | some error => .ok (some error) r
        | none => (define o key ((r.heap.table o).assigned key v) >>= fun _ => pure none) r := by
  simp only [writeOwn, bind_run, object?_run]
  cases r.heap.object? receiver with
  | none => rfl
  | some o =>
    simp only [bind_run, tableOf_run, Table.unassignable?, Table.assigned]
    cases (r.heap.table o).lookup key with
    | none => cases (r.heap.table o).extensible <;> simp
    | some d =>
      obtain ⟨slot, enumerable, configurable⟩ := d
      cases slot with
      | value old writable => cases hw : writable.holds <;> simp [hw]
      | accessor => rfl

theorem write_run (call : Caller σ) (start : ObjectId) (key : String) (v receiver : Value)
    (r : Realm σ) :
    write call start key v receiver r =
      match r.heap.findProperty (some start) key, r.heap.strayEnd? (some start) with
      | some (_, { slot := .accessor _ none, .. }), _ => .ok (some (.noSetter key)) r
      | some (_, { slot := .accessor _ (some setter), .. }), _ =>
        (callValue call setter receiver [v] >>= fun _ => pure none) r
      | none, some _ => .error .notRecord r
      | _, _ => writeOwn receiver key v r := by
  rw [write, bind_run, find_run]
  cases r.heap.findProperty (some start) key with
  | none => cases r.heap.strayEnd? (some start) <;> rfl
  | some found =>
    obtain ⟨o, slot, enumerable, configurable⟩ := found
    cases slot with
    | value => rfl
    | accessor get set => cases set <;> rfl

theorem requireObject_eq_ok {v : Value} {what : String} {r r' : Realm σ} {o : ObjectId}
    (h : requireObject v what r = .ok o r') : r' = r ∧ r.heap.object? v = some o := by
  unfold requireObject at h
  rw [bind_ok (show object? v r = .ok (r.heap.object? v) r from rfl)] at h
  cases ho : r.heap.object? v with
  | none =>
    rw [ho] at h
    cases h
  | some o' =>
    rw [ho] at h
    cases h
    exact ⟨rfl, rfl⟩

theorem requirePrototype_eq_ok {v : Value} {r r' : Realm σ} {prototype : Option ObjectId}
    (h : requirePrototype v r = .ok prototype r') :
    r' = r ∧ ∀ p ∈ prototype, p < r.heap.size := by
  unfold requirePrototype at h
  rw [bind_ok (show object? v r = .ok (r.heap.object? v) r from rfl)] at h
  generalize ho : r.heap.object? v = o? at h
  split at h
  · cases h
    exact ⟨rfl, nofun⟩
  · cases h
    refine ⟨rfl, ?_⟩
    rintro p ⟨⟩
    exact (Heap.object?_eq_some ho).2
  · cases h

theorem requireConstructor_eq_ok {v : Value} {r r' : Realm σ} {found : ObjectId × Constructor}
    (h : requireConstructor v r = .ok found r') :
    r' = r ∧ r.heap.object? v = some found.1 ∧ r.heap.constructor? found.1 = some found.2 := by
  unfold requireConstructor at h
  rw [bind_ok (show constructor? v r = .ok (do
    let o ← r.heap.object? v
    return (o, ← r.heap.constructor? o)) r from rfl)] at h
  cases ho : r.heap.object? v with
  | none =>
    rw [ho] at h
    cases h
  | some o =>
    rw [ho] at h
    cases hc : r.heap.constructor? o with
    | none =>
      rw [Option.bind_eq_bind, Option.bind_some, hc] at h
      cases h
    | some c =>
      rw [Option.bind_eq_bind, Option.bind_some, hc] at h
      cases h
      exact ⟨rfl, rfl, hc⟩

theorem requireEnd_eq_ok {start : Option ObjectId} {r r' : Realm σ}
    (h : requireEnd start r = .ok () r') : r.heap.strayEnd? start = none := by
  rw [requireEnd, bind_ok (readHeap_run r)] at h
  cases hend : r.heap.strayEnd? start with
  | none => rfl
  | some v =>
    rw [hend] at h
    cases h

theorem find_eq_ok_some {start : Option ObjectId} {key : String} {found : ObjectId × Descriptor}
    {r r' : Realm σ} (h : find start key r = .ok (some found) r') :
    r' = r ∧ r.heap.findProperty start key = some found := by
  rw [find_run] at h
  split at h
  · next hfound =>
    cases h
    exact ⟨rfl, hfound⟩
  · cases h
  · cases h

theorem requireDescriptor_eq_ok {v : Value} {found : Nat × Descriptor} {r r' : Realm σ}
    (h : requireDescriptor v r = .ok found r') :
    r' = r ∧ r.pool.descriptor? found.1 = some found.2 := by
  rw [requireDescriptor_run] at h
  split at h
  · next hfound =>
    cases h
    cases v with
    | descriptor id =>
      obtain ⟨d, hd, rfl⟩ := Option.map_eq_some_iff.1 hfound
      exact ⟨rfl, hd⟩
    | _ => cases hfound
  · cases h

theorem assumeObject_eq_ok {v : Value} {o : ObjectId} {r r' : Realm σ}
    (h : assumeObject v r = .ok o r') : r' = r ∧ r.heap.object? v = some o := by
  rw [assumeObject_run] at h
  split at h
  · next ho =>
    cases h
    exact ⟨rfl, ho⟩
  · cases h

theorem define_eq_ok {o : ObjectId} {key : String} {d : Descriptor} {r r' : Realm σ}
    (h : define o key d r = .ok () r') :
    r'.heap = r.heap.apply (.define o key d) ∧
      r'.pool.descriptor? = r.pool.descriptor? := by
  rw [define_run] at h
  split at h
  · cases h
  · cases h
    exact ⟨rfl, rfl⟩

end Realm

end ObjectModel
