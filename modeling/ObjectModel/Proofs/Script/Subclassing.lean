import ObjectModel.Proofs.Realm.Subclassing
import ObjectModel.Proofs.Script.Closed

/-!
Constructors that are extended at the moments of runs, at once or by links.
-/

namespace ObjectModel.Script.Program

open Realm

/--
At every moment of a run to extend a constructor is the same as to create one and to link it and the
record of its instances, but for the epoch and the log. Only where a chain strays that would be
linked to, the one is possible and the other is not.
-/
theorem subclasses_heapAt (p : Program) (n : Nat) {r : Realm Session} (hr : r.heap = p.heapAt n)
    {sup : ObjectId} {k : Constructor} (hsup : r.heap.constructor? sup = some k)
    (name initializer : Value) : r.Subclasses sup name initializer := by
  have hset : r.heap.Settled := by
    rw [hr]
    exact p.settled_heapAt n
  have hclosed : r.heap.Closed := by
    rw [hr]
    exact p.closed_heapAt n
  exact subclasses_of_settled hset hclosed hsup name initializer

def lineage : Program where
  steps := [
    .bind "A" (.operation (.createConstructor (some (.literal (.str "A"))) none none none)),
    .operation (.freeze (.variable "A")),
    .bind "B" (.operation (.bareConstructor none none none)),
    .bind "stray" (.operation (.bareObject (some (.literal (.int 5))))),
    .bind "C" (.operation (.bareConstructor none none (some (.variable "stray"))))]

theorem heap_run_lineage :
    let h := lineage.run.2.heap
    h.size = 5 ∧ h.epoch = 0 ∧ (h.constructor? 0).isSome = true ∧ (h.constructor? 2).isSome = true ∧
      (h.constructor? 4).isSome = true ∧ h.constructionPrototype 0 = some 1 ∧
      h.constructionPrototype 2 = none ∧ h.strayEnd? (some 0) = none ∧
      h.strayEnd? (some 1) = none ∧ h.strayEnd? (some 2) = none ∧
      h.strayEnd? (some 4) = some (.int 5) := by
  decide +kernel

theorem subclasses_heapAt_lineage :
    let r := lineage.run.2
    r.heap = lineage.heapAt lineage.events.length ∧
      (∃ r₁ r₂, extend (.object 0) (.str "D") .none r = .ok 5 r₁ ∧
        extendByLinks (.object 0) (.str "D") .none r = .ok 5 r₂ ∧ r₁.heap.epoch = 0 ∧
        r₂.heap = { r₁.heap with epoch := 2 }) ∧
      ∃ r₁ r₂, extend (.object 2) (.str "D") .none r = .ok 5 r₁ ∧
        extendByLinks (.object 2) (.str "D") .none r = .ok 5 r₂ ∧ r₁.heap.epoch = 0 ∧
        r₂.heap = { r₁.heap with epoch := 1 } := by
  obtain ⟨hsize, hepoch, hA, hB, -, hprototype, hnone, hend, hend', hbare, -⟩ := heap_run_lineage
  have hr : lineage.run.2.heap = lineage.heapAt lineage.events.length :=
    (heapAt_length_events lineage).symm
  dsimp only
  generalize lineage.run.2 = r at *
  obtain ⟨_, hA⟩ := Option.isSome_iff_exists.1 hA
  obtain ⟨_, hB⟩ := Option.isSome_iff_exists.1 hB
  obtain ⟨r₁, r₂, hextend, hlinks, -, hheap, hepoch₁, hepoch₂, -⟩ :=
    (subclasses_heapAt lineage _ hr hA (.str "D") .none).agrees hend
      (by rw [hprototype]; exact hend')
  obtain ⟨r₃, r₄, hextend', hlinks', -, hheap', hepoch₃, hepoch₄, -⟩ :=
    (subclasses_heapAt lineage _ hr hB (.str "D") .none).agrees hbare
      (by rw [hnone]; exact r.heap.strayEnd?_none)
  rw [hsize] at hextend hlinks hextend' hlinks'
  rw [hprototype, hepoch] at hepoch₂
  rw [hnone, hepoch] at hepoch₄
  rw [hepoch₂] at hheap
  rw [hepoch₄] at hheap'
  exact ⟨hr, ⟨r₁, r₂, hextend, hlinks, hepoch₁.trans hepoch, hheap⟩,
    r₃, r₄, hextend', hlinks', hepoch₃.trans hepoch, hheap'⟩

theorem exists_extendByLinks_ne_ok :
    ∃ (p : Program) (r : Realm Session) (sup : ObjectId),
      r.heap = p.heapAt p.events.length ∧ (r.heap.constructor? sup).isSome = true ∧
      ∀ name initializer, (∃ sub r', extend (.object sup) name initializer r = .ok sub r') ∧
        ∀ sub r', extendByLinks (.object sup) name initializer r ≠ .ok sub r' := by
  obtain ⟨-, -, -, -, hC, -, -, -, -, -, hstray⟩ := heap_run_lineage
  have hr : lineage.run.2.heap = lineage.heapAt lineage.events.length :=
    (heapAt_length_events lineage).symm
  generalize lineage.run.2 = r at *
  refine ⟨lineage, r, 4, hr, hC, fun name initializer => ?_⟩
  obtain ⟨_, hC⟩ := Option.isSome_iff_exists.1 hC
  have hsubclasses : r.Subclasses 4 name initializer :=
    subclasses_of_settled (hr ▸ lineage.settled_heapAt _) (hr ▸ lineage.closed_heapAt _) hC _ _
  obtain ⟨r₁, hextend⟩ := hsubclasses.atOnce
  obtain ⟨r₂, hlinks⟩ := hsubclasses.strays (.inl (by rw [hstray]; nofun))
  refine ⟨⟨_, r₁, hextend⟩, fun sub r' hok => ?_⟩
  rw [hlinks] at hok
  cases hok

end ObjectModel.Script.Program
