import ObjectModel.Proofs.Realm.Constructing
import ObjectModel.Proofs.Realm.Counting

/-!
Assignments that run no setter, from end to end: which of them land, what a landing one does to its
receiver, and that every other one leaves the heap as it was.
-/

namespace ObjectModel

theorem Pool.equal_self (p : Pool) (v : Value) : p.equal v v = !v.isNaN := by
  cases v with
  | float x id => simp [equal, equal.go, Value.numeric, Value.isNaN]
  | descriptor id =>
    simp only [equal, equal.go, Value.numeric, Value.isNaN]
    cases p.descriptor? id <;> simp
  | _ => simp [equal, equal.go, Value.numeric, Value.isNaN]

/--
The property is locked, and its enumerability is given by a NaN: no descriptor can agree with it,
not even one with the same NaN.
-/
def Descriptor.Stuck (d : Descriptor) : Prop :=
  d.configurable.holds = false ∧ d.enumerable.value.isNaN = true

instance (d : Descriptor) : Decidable d.Stuck :=
  inferInstanceAs (Decidable (_ ∧ _))

theorem Descriptor.conflict?_of_writable (p : Pool) (old v : Value)
    {writable enumerable configurable : Flag} (hw : writable.holds = true) :
    conflict? p.equal { slot := .value old writable, enumerable, configurable }
        { slot := .value v writable, enumerable, configurable } =
      if Stuck { slot := .value old writable, enumerable, configurable } then some .enumerable
      else none := by
  cases hc : configurable.holds with
  | true => simp [conflict?, Stuck, hc]
  | false =>
    cases hnan : enumerable.value.isNaN <;>
      simp [conflict?, Stuck, Flag.same, Pool.equal_self, hc, hnan, hw]

namespace Table

variable {t : Table} {key : String}

inductive Takes (t : Table) (key : String) : Prop
  | written {old : Value} {writable enumerable configurable : Flag}
    (hd : t.lookup key = some { slot := .value old writable, enumerable, configurable })
    (hw : writable.holds = true)
  | added (hnew : t.lookup key = none) (hroom : t.extensible = true)

theorem unassignable?_eq_none_iff : t.unassignable? key = none ↔ t.Takes key := by
  constructor
  · intro h
    rw [unassignable?] at h
    split at h
    · next hnew =>
      refine .added hnew ?_
      by_contra hroom
      rw [if_neg hroom] at h
      cases h
    · next old writable enumerable configurable hd =>
      refine .written hd ?_
      by_contra hw
      rw [if_neg hw] at h
      cases h
    · cases h
  · intro h
    cases h with
    | written hd hw => simp only [unassignable?, hd, hw, if_true]
    | added hnew hroom => simp only [unassignable?, hnew, hroom, if_true]

def StuckAt (t : Table) (key : String) : Prop :=
  ∃ d ∈ t.lookup key, d.Stuck

theorem refusal?_assigned (p : Pool) (v : Value) (h : t.Takes key) :
    (t.StuckAt key ∧
        t.refusal? p.equal key (t.assigned key v) = some (.conflict key .enumerable)) ∨
      (¬ t.StuckAt key ∧ t.refusal? p.equal key (t.assigned key v) = none) := by
  cases h with
  | written hd hw =>
    simp only [StuckAt, refusal?, assigned, hd, Descriptor.conflict?_of_writable p _ v hw,
      Option.mem_some_iff, exists_eq_left']
    split
    · next hstuck => exact .inl ⟨hstuck, rfl⟩
    · next hstuck => exact .inr ⟨hstuck, rfl⟩
  | added hnew hroom => simp [StuckAt, refusal?, hnew, hroom]

end Table

namespace Heap

variable {h : Heap} {o x : ObjectId} {key : String} {v : Value}

/-- No accessor stands between a search from `o` and `x`, where there is a place for a value. -/
structure Lands (h : Heap) (o : ObjectId) (key : String) (x : ObjectId) : Prop where
  plain : ∀ found ∈ h.findProperty (some o) key, found.2.value?.isSome = true
  takes : (h.table x).Takes key

def Strays (h : Heap) (o : ObjectId) (key : String) : Prop :=
  h.findProperty (some o) key = none ∧ (h.strayEnd? (some o)).isSome = true

instance (h : Heap) (o : ObjectId) (key : String) : Decidable (h.Strays o key) :=
  inferInstanceAs (Decidable (_ ∧ _))

structure Assigned (h h' : Heap) (x : ObjectId) (key : String) (v : Value) : Prop where
  replaced : ∀ old writable enumerable configurable,
    (h.table x).lookup key = some { slot := .value old writable, enumerable, configurable } →
    (h'.table x).lookup key = some { slot := .value v writable, enumerable, configurable }
  added : (h.table x).lookup key = none → (h'.table x).lookup key = some (.ofValue v)
  holds : ∃ d, (h'.table x).lookup key = some d ∧ d.value? = some v
  keys : (h'.table x).keys =
    if key ∈ (h.table x).keys then (h.table x).keys else (h.table x).keys ++ [key]
  other_key : ∀ j ≠ key, (h'.table x).lookup j = (h.table x).lookup j
  other_record : ∀ y ≠ x, h'.records[y]? = h.records[y]?
  extensible : (h'.table x).extensible = (h.table x).extensible
  link : h'.link x = h.link x
  constructor? : h'.constructor? x = h.constructor? x
  size : h'.size = h.size
  epoch : h'.epoch = h.epoch
  objectCount : h'.objectCount = h.objectCount

theorem findProperty_of_lookup (ho : o < h.size) {d : Descriptor}
    (hd : (h.table o).lookup key = some d) : h.findProperty (some o) key = some (o, d) := by
  obtain ⟨n, hn⟩ := Nat.exists_eq_succ_of_ne_zero (Nat.ne_zero_of_lt ho)
  rw [findProperty, hn, findProperty.go, hd]

theorem assigned_define (hx : x < h.size) (key : String) (v : Value) :
    h.Assigned (h.apply (.define x key ((h.table x).assigned key v))) x key v := by
  have htable : (h.apply (.define x key ((h.table x).assigned key v))).table x =
      (h.table x).put key ((h.table x).assigned key v) := by
    rw [apply, table_updateTable, if_pos ⟨rfl, hx⟩]
  have hlookup (j : String) :
      ((h.apply (.define x key ((h.table x).assigned key v))).table x).lookup j =
        if j = key then some ((h.table x).assigned key v) else (h.table x).lookup j := by
    rw [htable, Table.lookup_put]
  constructor
  · intro old writable enumerable configurable hd
    rw [hlookup, if_pos rfl, Table.assigned, hd]
  · intro hnew
    rw [hlookup, if_pos rfl, Table.assigned, hnew]
  · refine ⟨_, (hlookup key).trans (if_pos rfl), ?_⟩
    rw [Table.assigned]
    split <;> rfl
  · rw [htable, Table.keys_put]
  · intro j hj
    rw [hlookup, if_neg hj]
  · intro y hy
    simp [apply, updateTable, Array.getElem?_modify, Ne.symm hy]
  · exact extensible_define _ _ _ _ _
  · exact link_define _ _ _ _ _
  · exact constructor?_define _ _ _ _ _
  · exact size_define _ _ _ _
  · rfl
  · exact objectCount_updateTable _ _ _

end Heap

namespace Realm

variable {σ : Type} {call : Caller σ} {r : Realm σ} {o x : ObjectId} {k : String}
  {key v receiver target : Value} {strict : Bool}

theorem getProperty_of_holds (ho : o < r.heap.size) (hkey : key.key? = some k)
    {d : Descriptor} (hd : (r.heap.table o).lookup k = some d) (hv : d.value? = some v)
    (receiver : Value) : getProperty call (.object o) key receiver r = .ok v r := by
  simp only [getProperty, bind_run, requireObject_run, Heap.object?_object ho, requireKey_run, hkey,
    read, find_run, Heap.findProperty_of_lookup ho hd]
  obtain ⟨slot, enumerable, configurable⟩ := d
  cases slot with
  | value old writable =>
    cases hv
    rfl
  | accessor => cases hv

inductive Assigning (r : Realm σ) (o : ObjectId) (k : String) (v target : Value) :
    EStateM.Result Failure (Realm σ) (Option ModelError) → Prop
  | stray (hstray : r.heap.Strays o k) : Assigning r o k v target (.error .notRecord r)
  | refused (error : ModelError) (hstray : ¬ r.heap.Strays o k)
    (hland : ∀ x, r.heap.object? target = some x → ¬ r.heap.Lands o k x) :
    Assigning r o k v target (.ok (some error) r)
  | stuck {x : ObjectId} (hstray : ¬ r.heap.Strays o k) (hx : r.heap.object? target = some x)
    (hland : r.heap.Lands o k x) (hstuck : (r.heap.table x).StuckAt k) :
    Assigning r o k v target (.error (.model (.conflict k .enumerable)) r)
  | landed {x : ObjectId} {r' : Realm σ} (hstray : ¬ r.heap.Strays o k)
    (hx : r.heap.object? target = some x) (hland : r.heap.Lands o k x)
    (hstuck : ¬ (r.heap.table x).StuckAt k)
    (hheap : r'.heap = r.heap.apply (.define x k ((r.heap.table x).assigned k v))) :
    Assigning r o k v target (.ok none r')

structure Settling (strict : Bool) (settle : Option ModelError → RealmM σ Bool) (r : Realm σ) :
    Prop where
  done : ∀ r', settle none r' = .ok true r'
  raised : ∀ error, strict = true → settle (some error) r = .error (.model error) r
  dropped : ∀ error, strict = false →
    ∃ r', settle (some error) r = .ok false r' ∧ r'.heap = r.heap

theorem Settling.undone {settle : Option ModelError → RealmM σ Bool}
    (hsettle : Settling strict settle r) (error : ModelError) (r' : Realm σ) :
    settle (some error) r ≠ .ok true r' := by
  cases hstrict : strict with
  | true =>
    rw [hsettle.raised error hstrict]
    rintro ⟨⟩
  | false =>
    obtain ⟨r₁, hdropped, -⟩ := hsettle.dropped error hstrict
    rw [hdropped]
    rintro ⟨⟩

theorem Settling.heap_eq {settle : Option ModelError → RealmM σ Bool}
    (hsettle : Settling strict settle r) (error : ModelError) :
    (ending (settle (some error) r)).heap = r.heap := by
  cases hstrict : strict with
  | true =>
    rw [hsettle.raised error hstrict]
    rfl
  | false =>
    obtain ⟨r₁, hdropped, hheap⟩ := hsettle.dropped error hstrict
    rw [hdropped]
    exact hheap

theorem settling_settle (strict : Bool) (r : Realm σ) : Settling strict (settle strict) r := by
  refine ⟨fun _ => rfl, ?_, ?_⟩
  · rintro error rfl
    rfl
  · rintro error rfl
    exact ⟨_, rfl, rfl⟩

theorem settling_settleByPolicy (r : Realm σ) :
    Settling (r.pool.truthy r.strict) settleByPolicy r := by
  have hrun (error : ModelError) : settleByPolicy (some error) r =
      (condone (r.pool.truthy r.strict) error >>= fun _ =>
        settle (r.pool.truthy r.strict) (some error)) r := rfl
  refine ⟨fun _ => rfl, fun error hstrict => ?_, fun error hstrict => ?_⟩
  · rw [hrun, hstrict]
    rfl
  · rw [hrun, hstrict]
    exact ⟨_, rfl, rfl⟩

/--
What comes of assigning `v` to `k` from `o` on, where `target` is the receiver. It fails in spite of
not being strict only if the search for `k` strays, or if `k` is stuck where the value would land.
-/
structure Assigns (r : Realm σ) (o : ObjectId) (k : String) (v target : Value) (strict : Bool)
    (m : RealmM σ Bool) : Prop where
  succeeds_iff : (∃ r', m r = .ok true r') ↔
    ∃ x, r.heap.object? target = some x ∧ r.heap.Lands o k x ∧ ¬ r.heap.Strays o k ∧
      ¬ (r.heap.table x).StuckAt k
  /-- The value is on the receiver, where it is read back; nothing else has changed. -/
  success : ∀ r', m r = .ok true r' → ∃ x, target = .object x ∧ r.heap.Assigned r'.heap x k v ∧
    ∀ (call : Caller σ) (key receiver : Value), key.key? = some k →
      getProperty call (.object x) key receiver r' = .ok v r'
  otherwise : (¬ ∃ r', m r = .ok true r') → (ending (m r)).heap = r.heap
  lenient : strict = false → ¬ r.heap.Strays o k →
    (∀ x, r.heap.object? target = some x → r.heap.Lands o k x → ¬ (r.heap.table x).StuckAt k) →
    ∃ landed r', m r = .ok landed r'
  stray : r.heap.Strays o k → m r = .error .notRecord r
  stuck : ∀ x, r.heap.object? target = some x → r.heap.Lands o k x → ¬ r.heap.Strays o k →
    (r.heap.table x).StuckAt k → m r = .error (.model (.conflict k .enumerable)) r

theorem Assigns.of_undone {m : RealmM σ Bool} (hundone : ∀ r', m r ≠ .ok true r')
    (hheap : (ending (m r)).heap = r.heap)
    (hland : ∀ x, r.heap.object? target = some x → r.heap.Lands o k x → ¬ r.heap.Strays o k →
      (r.heap.table x).StuckAt k ∧ m r = .error (.model (.conflict k .enumerable)) r)
    (hstray : r.heap.Strays o k → m r = .error .notRecord r)
    (hlenient : strict = false → ¬ r.heap.Strays o k →
      (∀ x, r.heap.object? target = some x → r.heap.Lands o k x → ¬ (r.heap.table x).StuckAt k) →
      ∃ landed r', m r = .ok landed r') : r.Assigns o k v target strict m where
  succeeds_iff := by
    refine iff_of_false (fun ⟨r', h⟩ => hundone r' h) ?_
    rintro ⟨x, hx, hlands, hstrays, hstuck⟩
    exact hstuck (hland x hx hlands hstrays).1
  success r' h := absurd h (hundone r')
  otherwise _ := hheap
  lenient := hlenient
  stray := hstray
  stuck x hx hlands hstrays _ := (hland x hx hlands hstrays).2

theorem Assigning.settled {m : RealmM σ (Option ModelError)}
    {settle : Option ModelError → RealmM σ Bool} (hm : r.Assigning o k v target (m r))
    (hsettle : Settling strict settle r) : r.Assigns o k v target strict (m >>= settle) := by
  generalize hrun : m r = result at hm
  -- only where the assignment has landed is there anything for the heap to differ in
  cases hm with
  | stray hstray =>
    have hfails : (m >>= settle) r = .error .notRecord r := bind_error hrun
    refine .of_undone ?_ ?_ (fun _ _ _ h => absurd hstray h) (fun _ => hfails)
      (fun _ h => absurd hstray h)
    · rw [hfails]
      rintro r' ⟨⟩
    · rw [hfails]
      rfl
  | refused error hstray hland =>
    have hends : (m >>= settle) r = settle (some error) r := bind_ok hrun
    refine .of_undone ?_ ?_ (fun x hx h => absurd h (hland x hx)) (fun h => absurd h hstray)
      fun hstrict _ _ => ?_
    · rw [hends]
      exact hsettle.undone error
    · rw [hends]
      exact hsettle.heap_eq error
    · obtain ⟨r₁, hdropped, -⟩ := hsettle.dropped error hstrict
      exact ⟨false, r₁, hends.trans hdropped⟩
  | @stuck x hstray hx hland hstuck =>
    have hfails : (m >>= settle) r = .error (.model (.conflict k .enumerable)) r := bind_error hrun
    refine .of_undone ?_ ?_ (fun y hy _ _ => ⟨?_, hfails⟩) (fun h => absurd h hstray)
      (fun _ _ h => absurd hstuck (h x hx hland))
    · rw [hfails]
      rintro r' ⟨⟩
    · rw [hfails]
      rfl
    · cases hx.symm.trans hy
      exact hstuck
  | @landed x r' hstray hx hland hstuck hheap =>
    have hdone : (m >>= settle) r = .ok true r' := (bind_ok hrun).trans (hsettle.done r')
    obtain ⟨htarget, hlt⟩ := Heap.object?_eq_some hx
    have hassigned : r.heap.Assigned r'.heap x k v := by
      rw [hheap]
      exact Heap.assigned_define hlt k v
    constructor
    · exact iff_of_true ⟨r', hdone⟩ ⟨x, hx, hland, hstray, hstuck⟩
    · intro r₁ h
      cases hdone.symm.trans h
      refine ⟨x, htarget, hassigned, fun call key receiver hkey => ?_⟩
      obtain ⟨d, hd, hv⟩ := hassigned.holds
      exact getProperty_of_holds (hassigned.size ▸ hlt) hkey hd hv receiver
    · exact fun h => (h ⟨r', hdone⟩).elim
    · exact fun _ _ _ => ⟨true, r', hdone⟩
    · exact fun h => absurd h hstray
    · intro y hy _ _ h
      cases hx.symm.trans hy
      exact absurd h hstuck

end Realm

end ObjectModel
