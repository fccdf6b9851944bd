import ObjectModel.Proofs.Realm.Splicing
import ObjectModel.Proofs.Script.Closed

/-!
Prototypes that are set at the moments of runs. A new link closes no cycle and moves the chains of
all records below it, unless it leads to where a chain strays.
-/

namespace ObjectModel.Script.Program

open Realm

/--
At every moment of a run it is told by the links, the tables and the order of inheritance how it
ends to set a prototype. A link that is there already is passed over; one that is refused leaves
the heap as it was; any other one moves the chains that come to the record, and those alone.
-/
theorem setsPrototype_heapAt (p : Program) (n : Nat) {r : Realm Session} (hr : r.heap = p.heapAt n)
    {o : ObjectId} (ho : o < r.heap.size) {prototype : Option ObjectId}
    (hprototype : ∀ q ∈ prototype, q < r.heap.size) : r.SetsPrototype o prototype := by
  have hset : r.heap.Settled := by
    rw [hr]
    exact p.settled_heapAt n
  exact setsPrototype_of_settled hset ho hprototype

def branches : Program where
  steps := [
    .bind "left" (.operation (.createObject none)),
    .bind "right" (.operation (.createObject none)),
    .bind "child" (.operation (.createObject (some (.variable "left")))),
    .bind "leaf" (.operation (.createObject (some (.variable "child")))),
    .operation (.freeze (.variable "child")),
    .bind "stray" (.operation (.bareObject (some (.literal (.int 5)))))]

theorem heap_run_branches :
    let h := branches.run.2.heap
    h.size = 5 ∧ h.epoch = 0 ∧ h.link 0 = .none ∧ h.link 2 = .object 0 ∧
      (h.table 0).extensible = true ∧ (h.table 2).extensible = false ∧
      h.chain (some 1) = [1] ∧ h.chain (some 3) = [3, 2, 0] ∧ h.chain (some 4) = [4] ∧
      h.strayEnd? (some 1) = none ∧ h.strayEnd? (some 4) = some (.int 5) := by
  decide +kernel

theorem setsPrototype_heapAt_branches :
    let r := branches.run.2
    r.heap = branches.heapAt branches.events.length ∧
      setPrototype (.object 2) (.object 0) r = .ok () r ∧
      setPrototype (.object 2) (.object 1) r = .error (.model .linkFixed) r ∧
      (∃ r', setPrototype (.object 0) (.object 3) r = .error (.model .cycle) r' ∧
        r'.heap = r.heap) ∧
      ∃ r', setPrototype (.object 0) (.object 1) r = .ok () r' ∧
        r'.heap.epoch = 1 ∧ r'.heap.chain (some 3) = [3, 2, 0, 1] ∧
        r'.heap.chain (some 4) = [4] := by
  obtain ⟨hsize, hepoch, hlink₀, hlink₂, hopen, hfixed, hchain₁, hchain₃, hchain₄, hend, -⟩ :=
    heap_run_branches
  intro r
  have hsize : r.heap.size = 5 := hsize
  have hr : r.heap = branches.heapAt branches.events.length :=
    (heapAt_length_events branches).symm
  have hset : r.heap.Settled := hr ▸ branches.settled_heapAt _
  have hsets (o q : ObjectId) (ho : o < 5) (hq : q < 5) : r.SetsPrototype o (some q) := by
    refine setsPrototype_heapAt branches _ hr (hsize ▸ ho) ?_
    rintro _ ⟨⟩
    exact hsize ▸ hq
  have hcloses (o q : ObjectId) (hq : q < 5) :
      o ∈ r.heap.chain (some q) ↔ r.ClosesCycle o (some q) := by
    rw [← List.contains_iff_mem, ← Heap.reaches_eq_contains]
    refine reaches_iff_closesCycle hset ?_
    rintro _ ⟨⟩
    exact hsize ▸ hq
  refine ⟨hr, ?_, ?_, ?_, ?_⟩
  · exact (hsets 2 0 (by decide) (by decide)).linked hlink₂.symm
  · refine (hsets 2 1 (by decide) (by decide)).fixed ?_ hfixed
    rw [hlink₂]
    decide
  · have hup := hsets 0 3 (by decide) (by decide)
    have hcycle : r.ClosesCycle 0 (some 3) := by
      rw [← hcloses 0 3 (by decide), hchain₃]
      decide
    obtain ⟨r', hrun⟩ := (hup.cycle_iff (by rw [hlink₀]; decide) hopen).2 hcycle
    exact ⟨r', hrun, hup.heap_of_error _ _ hrun⟩
  · have hnone : ¬ r.ClosesCycle 0 (some 1) := by
      rw [← hcloses 0 1 (by decide), hchain₁]
      decide
    obtain ⟨r', hrun, hspliced⟩ := (hsets 0 1 (by decide) (by decide)).splices
      (by rw [hlink₀]; decide) hopen hnone hend
    refine ⟨r', hrun, ?_, ?_, ?_⟩
    · rw [hspliced.epoch, hepoch]
    · rw [(hspliced.through 3 (by omega) (by rw [hchain₃]; decide)).1, hchain₃, hchain₁]
      decide
    · rw [(hspliced.apart 4 (by omega) (by rw [hchain₄]; decide)).1, hchain₄]

theorem exists_setPrototype_ne_ok :
    ∃ (p : Program) (r : Realm Session) (o q : ObjectId), r.heap = p.heapAt p.events.length ∧
      o < r.heap.size ∧ q < r.heap.size ∧ r.heap.link o ≠ .object q ∧
      (r.heap.table o).extensible = true ∧ q ≠ o ∧
      isPrototypeOf (.object o) (.object q) r ≠ .ok true r ∧
      ∀ r', setPrototype (.object o) (.object q) r ≠ .ok () r' := by
  obtain ⟨hsize, -, hlink₀, -, hext, -, -, -, hchain₄, -, hstray⟩ := heap_run_branches
  let r := branches.run.2
  have hr : r.heap = branches.heapAt branches.events.length :=
    (heapAt_length_events branches).symm
  have hset : r.heap.Settled := hr ▸ branches.settled_heapAt _
  have ho : 0 < r.heap.size := hsize ▸ by decide
  have hq : 4 < r.heap.size := hsize ▸ by decide
  have hlink : r.heap.link 0 ≠ .object 4 := by
    rw [hlink₀]
    decide
  have habove : isPrototypeOf (.object 0) (.object 4) r ≠ .ok true r := by
    rw [Ne, isPrototypeOf_eq_ok_true_iff hset, hchain₄]
    exact fun h => nomatch h.2
  refine ⟨branches, r, 0, 4, hr, ho, hq, hlink, hext, by decide, habove, ?_⟩
  have hsets : r.SetsPrototype 0 (some 4) := by
    refine setsPrototype_of_settled hset ho ?_
    rintro _ ⟨⟩
    exact hq
  have hopen : ¬ r.ClosesCycle 0 (some 4) := by
    rintro ⟨_, ⟨⟩, hself | hcycle⟩
    · cases hself
    · exact habove hcycle
  have hrun : setPrototype (.object 0) (.object 4) r = .error .notRecord r :=
    hsets.strays hlink.symm hext hopen (by rw [hstray]; nofun)
  intro r' hdone
  rw [hrun] at hdone
  cases hdone

end ObjectModel.Script.Program
