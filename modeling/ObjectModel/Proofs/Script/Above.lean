import ObjectModel.Proofs.Realm.Above
import ObjectModel.Proofs.Script.Closed

/-!
Access above records at the moments of runs. For a key that the record does not own it is access to
the record itself, and what is assigned there comes to the receiver that is given or to nothing.
-/

namespace ObjectModel.Script.Program

open Realm

/--
At every moment of a run, reading and assigning above a record is the same as from the record, for a
key that it does not own and a receiver. The two differ only in how they fail at a stray link.
-/
theorem agreesAbove_heapAt (p : Program) (n : Nat) {r : Realm Session} (hr : r.heap = p.heapAt n)
    (call : Caller Session) {o : ObjectId} (ho : o < r.heap.size) {key receiver : Value}
    (hown : ∀ k, key.key? = some k → (r.heap.table o).lookup k = none)
    (hreceiver : receiver ≠ .none) (v : Value) (strict : Bool) :
    r.AgreesAbove call o key v receiver strict := by
  have hset : r.heap.Settled := by
    rw [hr]
    exact p.settled_heapAt n
  exact agreesAbove_of_settled call hset ho hown hreceiver v strict

/--
At every moment of a run, an assignment above a record that runs no setter changes no record but the
receiver that is given for it. Where none is given and the record has a parent, it is the parent
that is assigned to.
-/
theorem assignsAbove_heapAt (p : Program) (n : Nat) {r : Realm Session} (hr : r.heap = p.heapAt n)
    (call : Caller Session) {o : ObjectId} (ho : o < r.heap.size) {key : Value} {k : String}
    (hkey : key.key? = some k) (hsetter : r.heap.setter? (r.heap.prototype o) k = none)
    (v receiver : Value) (strict : Bool) :
    (receiver ≠ .none ∨ r.heap.prototype o = none →
      r.AssignsAbove o k receiver strict
          (superSetProperty call (.object o) key v receiver strict) ∧
        r.AssignsAbove o k receiver (r.pool.truthy r.strict)
          (superSetByPolicy call (.object o) key v receiver)) ∧
    ∀ q, r.heap.prototype o = some q →
      superSetProperty call (.object o) key v .none strict r =
          setProperty call (.object q) key v (.object q) strict r ∧
        superSetByPolicy call (.object o) key v .none r =
          setByPolicy call (.object q) key v (.object q) r := by
  have hset : r.heap.Settled := by
    rw [hr]
    exact p.settled_heapAt n
  constructor
  · intro hreceiver
    have hassign : r.AssigningAbove o k v receiver
        (superAssign call (.object o) key v receiver r) :=
      assigningAbove_superAssign hset ho hkey hsetter hreceiver
    exact ⟨hassign.settled (settling_settle strict r), hassign.settled (settling_settleByPolicy r)⟩
  · intro q hq
    have hassign : superAssign call (.object o) key v .none r =
        assign call (.object q) key v (.object q) r := superAssign_none ho hq
    rw [superSetProperty, setProperty, superSetByPolicy, setByPolicy]
    simp only [bind_run, hassign, and_self]

def descent : Program where
  steps := [
    .bind "top" (.operation (.createObject none)),
    .operation (.defineOwn (.variable "top") (.literal (.str "k"))
      (.valueDescriptor (some (.literal (.int 1))) (some (.literal (.bool false))) none none)),
    .bind "home" (.operation (.createObject (some (.variable "top")))),
    .bind "low" (.operation (.createObject (some (.variable "home")))),
    .bind "stray" (.operation (.bareObject (some (.literal (.int 5)))))]

theorem heap_run_descent :
    let r := descent.run.2
    let call : Caller Session := fun _ _ _ => throw .exhausted
    let r' := ending (superSetProperty call (.object 1) (.str "j") (.int 2) .none false r)
    r.heap.size = 4 ∧ r.heap.prototype 1 = some 0 ∧ r.heap.prototype 3 = none ∧
      r.heap.strayLink? 1 = none ∧ r.heap.strayLink? 3 = some (.int 5) ∧
      r.strayFailure 3 = .model (.notObject "value" "5") ∧
      (r.heap.table 1).lookup "k" = none ∧ (r.heap.table 3).lookup "k" = none ∧
      r.heap.setter? (r.heap.prototype 1) "k" = none ∧
      r.heap.setter? (r.heap.prototype 3) "k" = none ∧
      ¬ r.heap.StraysAbove 1 "k" ∧ r.heap.StraysAbove 3 "k" ∧
      r.heap.setter? (r.heap.prototype 1) "j" = none ∧ (r.heap.table 0).lookup "j" = none ∧
      (r'.heap.table 0).lookup "j" = some (.ofValue (.int 2)) := by
  decide +kernel

theorem agreesAbove_heapAt_descent :
    let r := descent.run.2
    let call : Caller Session := fun _ _ _ => throw .exhausted
    r.heap = descent.heapAt descent.events.length ∧
      superGet call (.object 1) (.str "k") (.object 2) r =
        getProperty call (.object 1) (.str "k") (.object 2) r ∧
      superSetProperty call (.object 1) (.str "k") (.int 2) (.object 2) true r =
        setProperty call (.object 1) (.str "k") (.int 2) (.object 2) true r ∧
      superGet call (.object 3) (.str "k") (.object 2) r =
        .error (.model (.notObject "value" "5")) r ∧
      getProperty call (.object 3) (.str "k") (.object 2) r = .error .notRecord r := by
  obtain ⟨hsize, -, -, hlinked, hstray, hfailure, hhome, hbare, -⟩ := heap_run_descent
  intro r call
  have hsize : r.heap.size = 4 := hsize
  have hr : r.heap = descent.heapAt descent.events.length := (heapAt_length_events descent).symm
  have hagrees (o : ObjectId) (ho : o < 4) (hown : (r.heap.table o).lookup "k" = none) :
      r.AgreesAbove call o (.str "k") (.int 2) (.object 2) true := by
    refine agreesAbove_heapAt descent _ hr call (hsize ▸ ho) ?_ (by decide) _ _
    rintro k ⟨⟩
    exact hown
  have hstray : r.heap.strayLink? 3 ≠ none := by
    rw [hstray]
    nofun
  refine ⟨hr, (hagrees 1 (by decide) hhome).get hlinked, (hagrees 1 (by decide) hhome).set hlinked,
    ?_, ((hagrees 3 (by decide) hbare).stray hstray).1⟩
  rw [((hagrees 3 (by decide) hbare).strayAbove hstray).1, hfailure]

theorem exists_superGet_ne_getProperty :
    ∃ (p : Program) (r : Realm Session) (call : Caller Session) (o : ObjectId)
      (key receiver : Value), r.heap = p.heapAt p.events.length ∧ o < r.heap.size ∧
      (∀ k, key.key? = some k → (r.heap.table o).lookup k = none) ∧ receiver ≠ .none ∧
      superGet call (.object o) key receiver r ≠ getProperty call (.object o) key receiver r := by
  obtain ⟨hsize, -, -, -, hstray, hfailure, -, hbare, -⟩ := heap_run_descent
  let r := descent.run.2
  let call : Caller Session := fun _ _ _ => throw .exhausted
  have ho : 3 < r.heap.size := hsize ▸ by decide
  have hstray : r.heap.strayLink? 3 ≠ none := by
    rw [hstray]
    nofun
  have hown (k : String) (hkey : (Value.str "k").key? = some k) :
      (r.heap.table 3).lookup k = none := by
    cases hkey
    exact hbare
  have hr : r.heap = descent.heapAt descent.events.length := (heapAt_length_events descent).symm
  have hset : r.heap.Settled := hr ▸ descent.settled_heapAt _
  refine ⟨descent, r, call, 3, .str "k", .object 2, hr, ho, hown, by decide, ?_⟩
  have hagrees : r.AgreesAbove call 3 (.str "k") .undefined (.object 2) false :=
    agreesAbove_of_settled call hset ho hown (by decide) _ _
  rw [(hagrees.strayAbove hstray).1, (hagrees.stray hstray).1, hfailure]
  nofun

theorem assignsAbove_heapAt_descent :
    let r := descent.run.2
    let call : Caller Session := fun _ _ _ => throw .exhausted
    r.heap = descent.heapAt descent.events.length ∧
      (∃ r', superSetProperty call (.object 1) (.str "k") (.int 2) (.int 7) false r = .ok false r' ∧
        r'.heap = r.heap) ∧
      (∃ error, superSetProperty call (.object 1) (.str "k") (.int 2) .undefined true r =
        .error (.model error) r ∧ (error.kind = .type ∨ error.kind = .readOnly)) ∧
      (∀ y : ObjectId, y ≠ 2 →
        let r' := ending (superSetByPolicy call (.object 1) (.str "k") (.int 2) (.object 2) r)
        r'.heap.records[y]? = r.heap.records[y]?) ∧
      superSetByPolicy call (.object 3) (.str "k") (.int 2) .none r =
        .error (.model (.notObject "value" "5")) r ∧
      superSetByPolicy call (.object 1) (.str "k") (.int 2) .none r =
        setByPolicy call (.object 0) (.str "k") (.int 2) (.object 0) r := by
  obtain ⟨hsize, hparent, hnone, -, -, hfailure, -, -, hsetter, hsetter', hends, hstrays, -⟩ :=
    heap_run_descent
  intro r call
  have hr : r.heap = descent.heapAt descent.events.length := (heapAt_length_events descent).symm
  have hhome : (1 : ObjectId) < r.heap.size := hsize ▸ by decide
  have hbare : (3 : ObjectId) < r.heap.size := hsize ▸ by decide
  have hkey : (Value.str "k").key? = some "k" := rfl
  have hassigns (receiver : Value) (strict : Bool) :=
    assignsAbove_heapAt descent _ hr call hhome hkey hsetter (.int 2) receiver strict
  obtain ⟨hstray, -⟩ :=
    assignsAbove_heapAt descent _ hr call hbare hkey hsetter' (.int 2) .none false
  refine ⟨hr, ?_, ?_, ?_, ?_, ?_⟩
  · exact ((hassigns (.int 7) false).1 (.inl (by decide))).1.dropped rfl hends rfl
  · exact ((hassigns .undefined true).1 (.inl (by decide))).1.raised rfl hends rfl
  · intro y hy
    obtain ⟨-, hpolicy⟩ := (hassigns (.object 2) true).1 (.inl (by decide))
    have hne : Value.object 2 ≠ .object y := by
      rintro ⟨⟩
      exact hy rfl
    exact hpolicy.other_record y hne
  · rw [← hfailure]
    exact (hstray (.inr hnone)).2.stray hstrays
  · exact ((hassigns .none true).2 0 hparent).2

/-- Without a receiver it is the parent of the record that takes the value. -/
theorem exists_superSetProperty_on_parent :
    ∃ (p : Program) (r : Realm Session) (call : Caller Session) (o q : ObjectId) (k : String)
      (v : Value), r.heap = p.heapAt p.events.length ∧ r.heap.prototype o = some q ∧
      r.heap.setter? (r.heap.prototype o) k = none ∧ (r.heap.table q).lookup k = none ∧
      let r' := ending (superSetProperty call (.object o) (.str k) v .none false r)
      (r'.heap.table q).lookup k = some (.ofValue v) := by
  obtain ⟨-, hparent, -, -, -, -, -, -, -, -, -, -, hsetter, habsent, htaken⟩ := heap_run_descent
  refine ⟨descent, descent.run.2, fun _ _ _ => throw .exhausted, 1, 0, "j", .int 2,
    (heapAt_length_events descent).symm, hparent, hsetter, habsent, ?_⟩
  exact htaken

/-- Without a receiver and a parent nothing takes the value. -/
example :
    let r := descent.run.2
    let call : Caller Session := fun _ _ _ => throw .exhausted
    let set := superSetProperty call (.object 0) (.str "j") (.int 2) .none
    (set false).run' r = some false ∧ (set true).run' r = none := by
  decide +kernel

end ObjectModel.Script.Program
