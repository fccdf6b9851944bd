import ObjectModel.Proofs.Heap.Shadowing
import ObjectModel.Proofs.Realm.Equations
import ObjectModel.Realm.Perform

/-!
Operations that write one own property. Where one of them succeeds and no setter takes the value,
that property is all that it changes of the heap.
-/

namespace ObjectModel

namespace Heap

def setter? (h : Heap) (start : Option ObjectId) (key : String) : Option Value :=
  match h.findProperty start key with
  | some (_, { slot := .accessor _ set, .. }) => set
  | _ => none

def superReceiver (h : Heap) (home : ObjectId) (receiver : Value) : Value :=
  match h.link home with
  | .none => receiver
  | parent => Realm.receiverOr receiver parent

end Heap

/-- What the operation puts under which key of which record, if it succeeds; it runs no setter. -/
inductive Operation.Writes (h : Heap) (p : Pool) :
    Operation Value → ObjectId → String → Descriptor → Prop
  | defineOwn {obj key : Value} {id : Nat} {o : ObjectId} {k : String} {d : Descriptor}
    (ho : h.object? obj = some o) (hkey : key.key? = some k) (hd : p.descriptor? id = some d) :
    Writes h p (.defineOwn obj key (.descriptor id)) o k d
  | tableDefine {obj : Value} {id : Nat} {o : ObjectId} {k : String} {d : Descriptor}
    (ho : h.object? obj = some o) (hd : p.descriptor? id = some d) :
    Writes h p (.tableDefine obj (.str k) (.descriptor id)) o k d
  | set {obj key v : Value} {receiver : Option Value} {o : ObjectId} {k : String}
    (hkey : key.key? = some k) (ho : h.object? (Realm.receiverOr (.ofOption receiver) obj) = some o)
    (hset : h.setter? (h.object? obj) k = none) :
    Writes h p (.set obj key v receiver) o k ((h.table o).assigned k v)
  | setProperty {obj key v : Value} {receiver strict : Option Value} {o : ObjectId} {k : String}
    (hkey : key.key? = some k) (ho : h.object? (Realm.receiverOr (.ofOption receiver) obj) = some o)
    (hset : h.setter? (h.object? obj) k = none) :
    Writes h p (.setProperty obj key v receiver strict) o k ((h.table o).assigned k v)
  | superSet {home key v receiver : Value} {x o : ObjectId} {k : String}
    (hx : h.object? home = some x) (hkey : key.key? = some k)
    (ho : h.object? (h.superReceiver x receiver) = some o)
    (hset : h.setter? (h.prototype x) k = none) :
    Writes h p (.superSet home key v receiver) o k ((h.table o).assigned k v)
  | superSetProperty {home key v receiver : Value} {strict : Option Value} {x o : ObjectId}
    {k : String} (hx : h.object? home = some x) (hkey : key.key? = some k)
    (ho : h.object? (h.superReceiver x receiver) = some o)
    (hset : h.setter? (h.prototype x) k = none) :
    Writes h p (.superSetProperty home key v receiver strict) o k ((h.table o).assigned k v)

theorem Operation.Writes.lt_size {h : Heap} {p : Pool} {op : Operation Value} {o : ObjectId}
    {k : String} {d : Descriptor} (hop : op.Writes h p o k d) : o < h.size := by
  cases hop with
  | defineOwn ho | tableDefine ho | set _ ho | setProperty _ ho | superSet _ _ ho
  | superSetProperty _ _ ho => exact (Heap.object?_eq_some ho).2

namespace Realm

variable {σ : Type} {call : Caller σ} {r r' : Realm σ} {o x : ObjectId} {k : String}
  {d : Descriptor} {obj home key v receiver : Value}

theorem install_eq_ok {id : Nat} (hd : r.pool.descriptor? id = some d)
    (h : install o k (.descriptor id) r = .ok () r') :
    r'.heap = r.heap.apply (.define o k d) := by
  rw [install_run, Pool.descriptorOf?, hd] at h
  obtain ⟨⟨⟩, r₁, hdefine, hinstall⟩ := bind_eq_ok h
  cases hinstall
  show r₁.heap = _
  exact (define_eq_ok hdefine).1

theorem writeOwn_eq_ok (ho : r.heap.object? receiver = some o)
    (h : writeOwn receiver k v r = .ok none r') :
    r'.heap = r.heap.apply (.define o k ((r.heap.table o).assigned k v)) := by
  rw [writeOwn_run, ho] at h
  dsimp only at h
  split at h
  · cases h
  · obtain ⟨⟨⟩, r₁, hdefine, hpure⟩ := bind_eq_ok h
    cases hpure
    exact (define_eq_ok hdefine).1

theorem write_eq_ok {start : ObjectId} (ho : r.heap.object? receiver = some o)
    (hset : r.heap.setter? (some start) k = none)
    (h : write call start k v receiver r = .ok none r') :
    r'.heap = r.heap.apply (.define o k ((r.heap.table o).assigned k v)) := by
  rw [write_run] at h
  rw [Heap.setter?] at hset
  split at h
  · cases h
  · next hfound =>
    rw [hfound] at hset
    cases hset
  · cases h
  · exact writeOwn_eq_ok ho h

theorem assign_eq_ok (hkey : key.key? = some k)
    (ho : r.heap.object? (receiverOr receiver obj) = some o)
    (hset : r.heap.setter? (r.heap.object? obj) k = none)
    (h : assign call obj key v receiver r = .ok none r') :
    r'.heap = r.heap.apply (.define o k ((r.heap.table o).assigned k v)) := by
  simp only [assign, bind_run, requireObject_run, requireKey_run, hkey] at h
  cases hx : r.heap.object? obj with
  | none =>
    rw [hx] at h
    cases h
  | some x =>
    rw [hx] at h hset
    exact write_eq_ok ho hset h

theorem superAssign_eq_ok (hx : r.heap.object? home = some x) (hkey : key.key? = some k)
    (ho : r.heap.object? (r.heap.superReceiver x receiver) = some o)
    (hset : r.heap.setter? (r.heap.prototype x) k = none)
    (h : superAssign call home key v receiver r = .ok none r') :
    r'.heap = r.heap.apply (.define o k ((r.heap.table o).assigned k v)) := by
  simp only [superAssign, bind_run, requireObject_run, hx, readHeap_run] at h
  rw [Heap.superReceiver] at ho
  rw [Heap.prototype] at hset
  cases hlink : r.heap.link x with
  | none =>
    simp only [hlink, bind_run, requireKey_run, hkey] at h ho
    exact writeOwn_eq_ok ho h
  | object p =>
    rw [hlink] at h ho hset
    refine assign_eq_ok hkey ho ?_ h
    rw [Heap.object?]
    split
    · exact hset
    · rw [Heap.setter?, Heap.findProperty_eq_firstOwner, Heap.chain_none]
      rfl
  | _ =>
    rw [hlink] at h
    simp [assign, requireObject_run, Heap.object?] at h

theorem assign_of_settle {m : RealmM σ (Option ModelError)} {strict : Bool}
    (h : (m >>= settle strict) r = .ok true r') : m r = .ok none r' := by
  obtain ⟨refusal, r₁, hm, hsettle⟩ := bind_eq_ok h
  cases refusal with
  | none =>
    cases hsettle
    exact hm
  | some error => cases strict <;> cases hsettle

theorem assign_of_settleByPolicy {m : RealmM σ (Option ModelError)}
    (h : (m >>= settleByPolicy) r = .ok true r') : m r = .ok none r' := by
  obtain ⟨refusal, r₁, hm, hsettle⟩ := bind_eq_ok h
  cases refusal with
  | none =>
    cases hsettle
    exact hm
  | some error =>
    obtain ⟨strict, r₂, hstrict, hrest⟩ := bind_eq_ok hsettle
    cases strict <;> cases hrest

theorem eq_ok_true {m : RealmM σ Bool} {result : Value} (hdone : result ≠ .bool false)
    (h : (m >>= fun b => pure (.bool b)) r = .ok result r') : m r = .ok true r' := by
  obtain ⟨b, r₁, hm, hpure⟩ := bind_eq_ok h
  cases hpure
  cases b with
  | false => exact absurd rfl hdone
  | true => exact hm

theorem flag_run (v? : Option Value) (r : Realm σ) :
    flag v? r = .ok (v?.any r.pool.truthy) r := by
  cases v? <;> rfl

theorem heap_eq_of_writes {op : Operation Value} {result : Value}
    (hop : op.Writes r.heap r.pool o k d) (h : perform call op r = .ok result r')
    (hdone : result ≠ .bool false) : r'.heap = r.heap.apply (.define o k d) := by
  cases hop with
  | defineOwn ho hkey hd =>
    obtain ⟨⟨⟩, r₁, hdefine, hpure⟩ := bind_eq_ok h
    cases hpure
    simp only [defineOwn, bind_run, requireObject_run, ho, requireKey_run, hkey] at hdefine
    split at hdefine
    · next hinstall =>
      have hheap := install_eq_ok hd hinstall
      cases hdefine
      exact hheap
    · cases hdefine
  | tableDefine ho hd =>
    simp only [perform, bind_run, assumeObject_run, ho, assumeKey, pure_run] at h
    split at h
    · next hinstall =>
      cases h
      exact install_eq_ok hd hinstall
    · cases h
  | set hkey ho hset =>
    exact assign_eq_ok hkey ho hset (assign_of_settleByPolicy (eq_ok_true hdone h))
  | setProperty hkey ho hset =>
    obtain ⟨strict, r₁, hflag, hrest⟩ := bind_eq_ok h
    rw [flag_run] at hflag
    cases hflag
    exact assign_eq_ok hkey ho hset (assign_of_settle (eq_ok_true hdone hrest))
  | superSet hx hkey ho hset =>
    exact superAssign_eq_ok hx hkey ho hset (assign_of_settleByPolicy (eq_ok_true hdone h))
  | superSetProperty hx hkey ho hset =>
    obtain ⟨strict, r₁, hflag, hrest⟩ := bind_eq_ok h
    rw [flag_run] at hflag
    cases hflag
    exact superAssign_eq_ok hx hkey ho hset (assign_of_settle (eq_ok_true hdone hrest))

/--
After a write of `d` under `k` in the table of `o`, a search for `k` ends there wherever it comes to
`o` at all. Every other search finds what it found before, and all chains end as they did.
-/
theorem findProperty_of_writes {op : Operation Value} {result : Value}
    (hop : op.Writes r.heap r.pool o k d) (h : perform call op r = .ok result r')
    (hdone : result ≠ .bool false) (x : ObjectId) (j : String) :
    (j = k ∧ r.heap.Exposes k o (r.heap.chain (some x)) →
        r'.heap.findProperty (some x) j = some (o, d)) ∧
      (¬ (j = k ∧ r.heap.Exposes k o (r.heap.chain (some x))) →
        r'.heap.findProperty (some x) j = r.heap.findProperty (some x) j) ∧
      r'.heap.strayEnd? (some x) = r.heap.strayEnd? (some x) := by
  rw [heap_eq_of_writes hop h hdone]
  refine ⟨?_, ?_, Heap.strayEnd?_updateTable _ _ _ _⟩
  · rintro ⟨rfl, hexposes⟩
    exact Heap.findProperty_define_of_exposes hop.lt_size d hexposes
  · exact Heap.findProperty_define_of_not_exposes hop.lt_size d

def branching : Realm Unit :=
  let build : RealmM Unit Unit := do
    let root ← createObject .none
    define root "k" (.ofValue (.int 1))
    let child ← createObject (.object root)
    let _ ← createObject (.object child)
    let _ ← createObject (.object child)
  ending (build { client := () })

theorem findProperty_of_writes_branching :
    ∃ r', perform (fun _ _ _ => throw .exhausted)
        (.superSet (.object 2) (.str "k") (.int 2) (.object 1)) branching = .ok (.bool true) r' ∧
      r'.heap.findProperty (some 3) "k" = some (1, .ofValue (.int 2)) ∧
      r'.heap.findProperty (some 0) "k" = branching.heap.findProperty (some 0) "k" := by
  have hnew : (branching.heap.table 1).assigned "k" (.int 2) = .ofValue (.int 2) := by
    decide +kernel
  have hop : Operation.Writes branching.heap branching.pool
      (.superSet (.object 2) (.str "k") (.int 2) (.object 1)) 1 "k" (.ofValue (.int 2)) :=
    hnew ▸ .superSet (x := 2) (by decide +kernel) rfl (by decide +kernel) (by decide +kernel)
  have hrun : perform (fun _ _ _ => throw .exhausted)
      (.superSet (.object 2) (.str "k") (.int 2) (.object 1)) branching = .ok (.bool true) _ := rfl
  refine ⟨_, hrun, ?_, ?_⟩
  · exact (findProperty_of_writes hop hrun nofun 3 "k").1 (by decide +kernel)
  · exact (findProperty_of_writes hop hrun nofun 0 "k").2.1 (by decide +kernel)

end Realm

end ObjectModel
