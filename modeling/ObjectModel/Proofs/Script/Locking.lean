import ObjectModel.Proofs.Realm.Locking
import ObjectModel.Proofs.Script.Closed

/-!
Records that are frozen at the moments of runs, at once or property by property.
-/

namespace ObjectModel.Script.Program

open Realm

/--
At every moment of a run to freeze a record is to define its properties again as they are, but
locked, in whatever order, and then to close it; only what is stuck is refused. To freeze it again
changes nothing. From then on whatever is assigned to it without a setter is rejected, and none of
its properties can be deleted.
-/
theorem freezes_heapAt (p : Program) (n : Nat) {r : Realm Session} (hr : r.heap = p.heapAt n)
    {o : ObjectId} (ho : o < r.heap.size) : r.Freezes o := by
  have hset : r.heap.Settled := by
    rw [hr]
    exact p.settled_heapAt n
  exact freezes_of_settled hset ho

def hardening : Program where
  steps := [
    .bind "o" (.operation (.createObject none)),
    .operation (.set (.variable "o") (.literal (.str "a")) (.literal (.int 1)) none),
    .operation (.defineOwn (.variable "o") (.literal (.str "b"))
      (.accessor (some (.literal (.function "f"))) none none none)),
    .operation (.defineOwn (.variable "o") (.literal (.str "c"))
      (.valueDescriptor (some (.literal (.int 3))) (some (.literal (.bool false))) none
        (some (.literal (.bool false))))),
    .bind "low" (.operation (.createObject (some (.variable "o")))),
    .bind "odd" (.operation (.createObject none)),
    .operation (.defineOwn (.variable "odd") (.literal (.str "k"))
      (.valueDescriptor (some (.literal (.int 1))) none (some (.float .nan))
        (some (.literal (.bool false)))))]

theorem heap_run_hardening :
    let r := hardening.run.2
    let frozen := r.heap.apply (.freeze 0)
    r.heap.size = 3 ∧ (r.heap.table 0).keys = ["a", "b", "c"] ∧
      (∀ entry ∈ (r.heap.table 0).entries, ¬ entry.2.Stuck) ∧
      "k" ∈ (r.heap.table 2).keys ∧ (r.heap.table 2).StuckAt "k" ∧
      frozen.size = 3 ∧ frozen.setter? (some 1) "a" = none ∧ ¬ frozen.Strays 1 "a" ∧
      (frozen.table 0).keys = ["a", "b", "c"] := by
  decide +kernel

theorem freezes_heapAt_hardening :
    let r := hardening.run.2
    let call : Caller Session := fun _ _ _ => throw .exhausted
    r.heap = hardening.heapAt hardening.events.length ∧
      ∃ r₁ r₂, freeze (.object 0) r = .ok () r₁ ∧
        (do ["c", "a", "b"].forM (lock 0); preventExtensions (.object 0)) r = .ok () r₂ ∧
        r₂.heap = r₁.heap ∧
        (∃ r₃, setProperty call (.object 1) (.str "a") (.int 5) (.object 0) false r₁ =
          .ok false r₃ ∧ r₃.heap = r₁.heap) ∧
        deleteOwn (.object 0) (.str "c") r₁ = .ok false r₁ := by
  obtain ⟨hsize, hkeys, hfree, -, -, hsize', hsetter, hstray, hkeys'⟩ := heap_run_hardening
  intro r call
  have hr : r.heap = hardening.heapAt hardening.events.length :=
    (heapAt_length_events hardening).symm
  have hfreezes : r.Freezes 0 := freezes_heapAt hardening _ hr (hsize ▸ by decide)
  have hfree (k : String) : ¬ (r.heap.table 0).StuckAt k := by
    rintro ⟨d, hd, hstuck⟩
    exact hfree _ ((Table.lookup_eq_some_iff _ _ _).1 hd) hstuck
  obtain ⟨r₂, r₁, hlocked, hfrozen, hheap⟩ :=
    hfreezes.locked ["c", "a", "b"] (by rw [hkeys]; decide) hfree
  obtain ⟨hbarred, -⟩ := hfreezes.barred r₁ hfrozen
  obtain ⟨r₁', hfrozen', hheap₁⟩ := exists_freeze (r := r) (o := 0) (hsize ▸ by decide)
  cases hfrozen.symm.trans hfrozen'
  refine ⟨hr, r₁, r₂, hfrozen, hlocked, hheap, ?_, ?_⟩
  · obtain ⟨hdismisses, -⟩ := hbarred.set call 1 (.str "a") "a" (.int 5) (.object 0) false
      (by rw [hheap₁, hsize']; decide) rfl (by rw [hheap₁]; exact hsetter) rfl
    exact hdismisses.dropped (by rw [hheap₁]; exact hstray) rfl
  · exact hbarred.deleteOwn (.str "c") "c" rfl (by rw [hheap₁, hkeys']; decide)

theorem exists_lock_ne_ok :
    ∃ (p : Program) (r : Realm Session) (o : ObjectId) (k : String),
      r.heap = p.heapAt p.events.length ∧ o < r.heap.size ∧ k ∈ (r.heap.table o).keys ∧
      ∀ r', lock o k r ≠ .ok () r' := by
  obtain ⟨hsize, -, -, hmem, ⟨d, hd, hstuck⟩, -⟩ := heap_run_hardening
  refine ⟨hardening, hardening.run.2, 2, "k", (heapAt_length_events hardening).symm,
    hsize ▸ by decide, hmem, ?_⟩
  obtain ⟨r', hrun, -⟩ := exists_lock_of_stuck hd hstuck
  intro r'' h
  rw [hrun] at h
  cases h

end ObjectModel.Script.Program
