import Mathlib.Algebra.BigOperators.Intervals
import ObjectModel.Proofs.Heap.Epoch
import ObjectModel.Proofs.Realm.Numbering
import ObjectModel.Proofs.Script.Closed

/-!
The epoch in runs. It counts the links that change and numbers the lines that tell of them, so
between two moments of the same epoch all chains are as they were.
-/

namespace ObjectModel.Script.Program

open Realm

theorem run_numbered (p : Program) : p.start.Numbered p.run.2 :=
  p.runFrom_rel (R := Numbered) (fun _ => .of_eq rfl rfl) .trans (fun _ => .of_eq rfl rfl)
    Composed.numbered p.steps p.start

theorem admissible_event {p : Program} {n : Nat} {event : Event} (h : p.events[n]? = some event) :
    event.Admissible (p.heapAt n) := by
  obtain ⟨hlt, hevent⟩ := List.getElem?_eq_some_iff.1 h
  have hadmits := p.admits_events
  rw [← List.take_append_drop n p.events, List.drop_eq_getElem_cons hlt, hevent,
    Heap.admits_append] at hadmits
  exact hadmits.2.1

theorem epoch_heapAt_succ (p : Program) (n : Nat) :
    (p.heapAt (n + 1)).epoch =
      (p.heapAt n).epoch + ((p.heapAt n).relinked (p.heapAt (n + 1))).length := by
  cases h : p.events[n]? with
  | some event =>
    rw [heapAt_succ h]
    exact Heap.epoch_after (admissible_event h)
  | none =>
    rw [heapAt_succ_of_none h, Heap.relinked_eq_nil fun _ _ => rfl]
    rfl

/--
Between two moments the epoch grows by the number of times that a link has changed, and where it
stands still, every record that was there has the same chain and the chain ends the same way. The
lines about relinkings are numbered from one on, up to the epoch at the end.
-/
theorem epoch_heapAt (p : Program) {n m : Nat} (hnm : n ≤ m) :
    (p.heapAt n).epoch ≤ (p.heapAt m).epoch ∧
      (p.heapAt m).epoch = (p.heapAt n).epoch +
        ∑ i ∈ Finset.Ico n m, ((p.heapAt i).relinked (p.heapAt (i + 1))).length ∧
      p.events.filterMap Event.relinkEpoch? =
        List.range' 1 (p.heapAt p.events.length).epoch ∧
      ((p.heapAt m).epoch = (p.heapAt n).epoch → ∀ o < (p.heapAt n).size,
        (p.heapAt m).chain (some o) = (p.heapAt n).chain (some o) ∧
          (p.heapAt m).strayEnd? (some o) = (p.heapAt n).strayEnd? (some o)) := by
  have hgrowth : (p.heapAt m).epoch = (p.heapAt n).epoch +
      ∑ i ∈ Finset.Ico n m, ((p.heapAt i).relinked (p.heapAt (i + 1))).length := by
    induction m, hnm using Nat.le_induction with
    | base => rw [Finset.Ico_self, Finset.sum_empty, Nat.add_zero]
    | succ m hnm ih => rw [Finset.sum_Ico_succ_top hnm, epoch_heapAt_succ, ih, Nat.add_assoc]
  refine ⟨by omega, hgrowth, ?_, fun hepoch o ho => ?_⟩
  · obtain ⟨events, k, htrace, hepoch, hnumbers⟩ := p.run_numbered
    have hevents : p.events = events := htrace
    rw [heapAt_length_events, hepoch, hevents, hnumbers]
    show _ = List.range' 1 (0 + k)
    rw [Nat.zero_add]
    rfl
  · obtain ⟨events, hadmits, hm⟩ := p.exists_admits_between hnm
    rw [hm] at hepoch ⊢
    exact (p.settled_heapAt n).chain_eq (Heap.size_le_foldl _ _)
      (fun x hx => hadmits.link_eq hepoch hx) ho

def relinking : Program where
  steps := [
    .bind "a" (.operation (.createObject none)),
    .bind "b" (.operation (.createObject none)),
    .bind "c" (.operation (.createObject (some (.variable "a")))),
    .operation (.setPrototype (.variable "c") (.variable "b")),
    .operation (.setPrototype (.variable "c") (.variable "b")),
    .operation (.setPrototype (.variable "b") (.variable "c")),
    .operation (.createConstructor none none none (some (.variable "c"))),
    .operation (.freeze (.variable "c")),
    .operation (.setPrototype (.variable "c") (.variable "a"))]

theorem epoch_heapAt_relinking :
    (relinking.heapAt 5).epoch = 1 ∧ (relinking.heapAt relinking.events.length).epoch = 1 ∧
      relinking.events.filterMap Event.relinkEpoch? = [1] ∧
      (relinking.heapAt relinking.events.length).chain (some 2) = [2, 1] := by
  have hle : 5 ≤ relinking.events.length := by decide +kernel
  have hfirst : (relinking.heapAt 5).epoch = 1 := by decide +kernel
  have hlast : (relinking.heapAt relinking.events.length).epoch = 1 := by decide +kernel
  have hchain : (relinking.heapAt 5).chain (some 2) = [2, 1] := by decide +kernel
  obtain ⟨-, -, hlines, hsame⟩ := epoch_heapAt relinking hle
  rw [hlast] at hlines
  refine ⟨hfirst, hlast, hlines, ?_⟩
  rw [← hchain]
  exact (hsame (hlast.trans hfirst.symm) 2 (by decide +kernel)).1

end ObjectModel.Script.Program
