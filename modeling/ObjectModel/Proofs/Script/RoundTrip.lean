import ObjectModel.Proofs.Realm.Returning
import ObjectModel.Proofs.Script.Closed

/-!
Round trips at the moments of runs: data that records are built from is what a snapshot of the
records is, but for its keys, which become strings, and for `undefined`.
-/

namespace ObjectModel.Script.Program

open Realm

/--
At every moment of a run, records can be built from any data, below any prototype from which no key
of the data leads to an accessor, and their snapshot is the data again. There is a record for each
dict, and nothing else is new. Only a key for which the prototype's chain strays is in the way.
-/
theorem roundTrips_heapAt (p : Program) (n : Nat) {r : Realm Session} (hr : r.heap = p.heapAt n)
    (call : Caller Session) {prototype : Option ObjectId}
    (hprototype : ∀ q ∈ prototype, q < r.heap.size) {v : Value} {d : Data}
    (hholds : r.pool.Holds v d) (hproper : d.Proper)
    (hvalues : ∀ k ∈ d.keys, r.heap.FindsValues prototype k) :
    r.RoundTrips call v d prototype := by
  have hset : r.heap.Settled := by
    rw [hr]
    exact p.settled_heapAt n
  exact roundTrips_of_settled call hset hprototype hholds hproper hvalues

def nesting : Program where
  steps := [
    .bind "top" (.operation (.createObject none)),
    .operation (.defineOwn (.variable "top") (.literal (.str "1"))
      (.valueDescriptor (some (.literal (.str "top"))) (some (.literal (.bool false))) none none)),
    .bind "stray" (.operation (.bareObject (some (.literal (.int 5))))),
    .bind "data" (.dict [
      (.literal (.int 1), .dict [
        (.literal (.bool true), .literal .none),
        (.literal (.str "k"), .literal .undefined)]),
      (.literal (.str "k"), .list [.literal (.int 2)])])]

def nested : Data :=
  .dict (.cons (.int 1)
    (.dict (.cons (.bool true) (.leaf .none) (.cons (.str "k") (.leaf .undefined) .nil)))
    (.cons (.str "k") (.leaf (.list 0)) .nil))

theorem run_nesting :
    let r := nesting.run.2
    r.heap.size = 2 ∧ r.pool.dict 0 = [(.bool true, .none), (.str "k", .undefined)] ∧
      r.pool.dict 1 = [(.int 1, .dict 0), (.str "k", .list 0)] ∧
      nested.keys = ["1", "true", "k", "k"] ∧
      (∀ k ∈ ["1", "true", "k", "k"], r.heap.FindsValues (some 0) k ∧
        ¬ r.heap.StraysFrom (some 0) k ∧ r.heap.FindsValues (some 1) k) ∧
      r.heap.StraysFrom (some 1) "k" ∧
      ∀ x ∈ r.heap.chain (some 1), (r.heap.table x).entries = [] := by
  decide +kernel

theorem holds_nested : nesting.run.2.pool.Holds (.dict 1) nested := by
  obtain ⟨-, hinner, houter, -⟩ := run_nesting
  refine .dict ?_
  rw [houter]
  refine .cons (.dict ?_) (.cons (.leaf trivial) .nil)
  rw [hinner]
  exact .cons (.leaf trivial) (.cons (.leaf trivial) .nil)

theorem proper_nested : nested.Proper :=
  ⟨by decide, rfl, ⟨by decide, rfl, trivial, rfl, trivial, trivial⟩, rfl, trivial, trivial⟩

theorem roundTrips_heapAt_nesting :
    let r := nesting.run.2
    let call : Caller Session := fun _ _ _ => throw .exhausted
    r.heap = nesting.heapAt nesting.events.length ∧
      (∃ r' v r'', build call (.dict 1) (.object 0) r = .ok (.object 2) r' ∧
        r'.heap.objectCount = r.heap.objectCount + 2 ∧ r'.heap.link 3 = .object 0 ∧
        snapshot call (.object 2) r' = .ok v r'' ∧
        r''.pool.Holds v (.dict (.cons (.str "1")
          (.dict (.cons (.str "true") (.leaf .none) (.cons (.str "k") (.leaf .none) .nil)))
          (.cons (.str "k") (.leaf (.list 0)) .nil)))) ∧
      ∃ r', build call (.dict 1) (.object 1) r = .error .notRecord r' := by
  obtain ⟨hsize, -, -, hkeys, hfinds, hstray, -⟩ := run_nesting
  intro r call
  have hsize : r.heap.size = 2 := hsize
  have hr : r.heap = nesting.heapAt nesting.events.length := (heapAt_length_events nesting).symm
  have htrips (q : ObjectId) (hq : q < 2)
      (hvalues : ∀ k ∈ nested.keys, r.heap.FindsValues (some q) k) :
      r.RoundTrips call (.dict 1) nested (some q) := by
    refine roundTrips_heapAt nesting _ hr call ?_ holds_nested proper_nested hvalues
    rintro _ ⟨⟩
    exact hsize ▸ hq
  rw [← hkeys] at hfinds
  refine ⟨hr, ?_, ?_⟩
  · obtain ⟨r', v, r'', hbuild, hbuilt, hsnapshot, -, hreturned⟩ :=
      (htrips 0 (by decide) fun k hk => (hfinds k hk).1).returns fun k hk => (hfinds k hk).2.1
    have hvalue : nested.value r.heap.size = .object 2 := congrArg Value.object hsize
    have hdicts : nested.dicts = 2 := rfl
    have hnormal : nested.normal = .dict (.cons (.str "1")
        (.dict (.cons (.str "true") (.leaf .none) (.cons (.str "k") (.leaf .none) .nil)))
        (.cons (.str "k") (.leaf (.list 0)) .nil)) := rfl
    rw [hvalue] at hbuild hsnapshot
    rw [hnormal] at hreturned
    refine ⟨r', v, r'', hbuild, hbuilt.objectCount, hbuilt.link 3 ?_ ?_, hsnapshot, hreturned⟩
    · rw [hsize]
      decide
    · rw [hbuilt.size, hsize, hdicts]
      decide
  · exact (htrips 1 (by decide) fun k hk => (hfinds k hk).2.2).strays
      ⟨"k", by rw [hkeys]; decide, hstray⟩

theorem exists_build_ne_ok :
    ∃ (p : Program) (r : Realm Session) (call : Caller Session) (q : ObjectId) (v : Value)
      (d : Data), r.heap = p.heapAt p.events.length ∧ q < r.heap.size ∧ r.pool.Holds v d ∧
      d.Proper ∧ (∀ x ∈ r.heap.chain (some q), (r.heap.table x).entries = []) ∧
      ∀ a r', build call v (.object q) r ≠ .ok a r' := by
  obtain ⟨hsize, -, -, hkeys, hfinds, hstray, hempty⟩ := run_nesting
  have hholds := holds_nested
  have hr := heapAt_length_events nesting
  generalize nesting.run.2 = r at *
  have hset : r.heap.Settled := hr ▸ nesting.settled_heapAt _
  have hq : 1 < r.heap.size := hsize ▸ by decide
  have hprototype : ∀ x ∈ some 1, x < r.heap.size := by
    rintro _ ⟨⟩
    exact hq
  rw [← hkeys] at hfinds
  have htrips (call : Caller Session) : r.RoundTrips call (.dict 1) nested (some 1) :=
    roundTrips_of_settled call hset hprototype hholds proper_nested fun k hk => (hfinds k hk).2.2
  refine ⟨nesting, r, fun _ _ _ => throw .exhausted, 1, .dict 1, nested, hr.symm, hq, hholds,
    proper_nested, hempty, fun a r₁ hdone => ?_⟩
  obtain ⟨r', hrun⟩ := (htrips _).strays ⟨"k", by rw [hkeys]; decide, hstray⟩
  exact nomatch hrun.symm.trans hdone

end ObjectModel.Script.Program
