import ObjectModel.Proofs.Heap.Acyclic
import ObjectModel.Proofs.Heap.Integrity
import ObjectModel.Proofs.Script.Run

/-!
The laws of all runs. A moment of a run lies between two of its events, which may be in the middle
of a step and of the functions that it calls.
-/

namespace ObjectModel.Script.Program

open Realm

def events (p : Program) : List Event :=
  p.run.2.trace.toList

/-- The heap at a moment of the run, after so many events. -/
def heapAt (p : Program) (n : Nat) : Heap :=
  Heap.replay (p.events.take n)

theorem admits_events (p : Program) : ({} : Heap).Admits p.events := by
  obtain ⟨events, htrace, -, hadmits⟩ := p.run_follows
  have hevents : p.events = events := htrace
  rw [hevents]
  exact hadmits

theorem heapAt_runFrom {p : Program} {first second : List Expr}
    (hsteps : p.steps = first ++ second) :
    p.heapAt (p.runFrom first p.start).2.trace.size = (p.runFrom first p.start).2.heap := by
  obtain ⟨events, htrace, hheap, -⟩ := p.runFrom_follows first p.start
  obtain ⟨later, htrace', -, -⟩ := p.runFrom_follows second (p.runFrom first p.start).2
  have hevents : p.events = (p.runFrom first p.start).2.trace.toList ++ later := by
    rw [Program.events, run, hsteps, runFrom_append, htrace']
  rw [heapAt, hevents, ← Array.length_toList, List.take_left, htrace, hheap]
  rfl

theorem heapAt_length_events (p : Program) : p.heapAt p.events.length = p.run.2.heap := by
  rw [Program.events, Array.length_toList]
  exact heapAt_runFrom (List.append_nil p.steps).symm

theorem heapAt_succ {p : Program} {n : Nat} {event : Event} (h : p.events[n]? = some event) :
    p.heapAt (n + 1) = (p.heapAt n).after event := by
  rw [heapAt, heapAt, List.take_add_one, h, Heap.replay, List.foldl_append]
  rfl

theorem heapAt_succ_of_none {p : Program} {n : Nat} (h : p.events[n]? = none) :
    p.heapAt (n + 1) = p.heapAt n := by
  rw [heapAt, heapAt, List.take_add_one, h, Option.toList_none, List.append_nil]

theorem exists_admits_between (p : Program) {n m : Nat} (hnm : n ≤ m) :
    ∃ events, (p.heapAt n).Admits events ∧ p.heapAt m = events.foldl Heap.after (p.heapAt n) := by
  obtain ⟨later, hlater⟩ := List.take_prefix_take_left (l := p.events) hnm
  have hadmits := p.admits_events
  rw [← List.take_append_drop m p.events, ← hlater, Heap.admits_append, Heap.admits_append]
    at hadmits
  refine ⟨later, hadmits.1.2, ?_⟩
  rw [heapAt, Heap.replay, ← hlater, List.foldl_append]
  rfl

/--
At every moment of a run all chains end and no walk along them is cut short, if the records made by
hand are linked to records or to nothing.
-/
theorem grounded_heapAt {p : Program} (hlinked : ({} : Heap).LinkedByHand p.events) (n : Nat)
    {o : ObjectId} (ho : o < (p.heapAt n).size) : (p.heapAt n).Grounded o := by
  have hadmits := p.admits_events
  rw [← List.take_append_drop n p.events, Heap.admits_append] at hadmits
  have hac : (p.heapAt n).Acyclic := Heap.acyclic_empty.foldl hadmits.1 (hlinked.take n)
  exact hac.grounded ho

def closing : Program where
  steps := [
    .bind "a" (.operation (.bareObject none)),
    .bind "b" (.operation (.createObject (some (.variable "a")))),
    .operation (.defineOwn (.variable "b") (.literal (.str "up"))
      (.accessor (some (.literal (.function "close"))) none none none)),
    .bind "c" (.operation (.bareObject (some (.variable "b")))),
    .operation (.get (.variable "c") (.literal (.str "up")) none),
    .operation (.setPrototype (.variable "c") (.variable "a"))]
  functions := [("close", [.operation (.setPrototype (.variable "a") .this)])]

theorem grounded_heapAt_closing :
    ({} : Heap).LinkedByHand closing.events ∧ 2 < (closing.heapAt 7).size ∧
      (closing.heapAt 7).Grounded 2 :=
  ⟨by decide +kernel, by decide +kernel, grounded_heapAt (by decide +kernel) 7 (by decide +kernel)⟩

/-- A locked property is there at every later moment, and holds what its lock allows. -/
theorem keepsLocks_heapAt (p : Program) {n m : Nat} (hnm : n ≤ m) {o : ObjectId} {key : String}
    {d : Descriptor} (hd : ((p.heapAt n).table o).lookup key = some d)
    (hlock : d.configurable.holds = false) :
    ∃ d', ((p.heapAt m).table o).lookup key = some d' ∧ d.LockedTo d' := by
  obtain ⟨events, hadmits, hm⟩ := p.exists_admits_between hnm
  rw [hm]
  exact hadmits.keepsLocks o key d hd hlock

def rewriting : Program where
  steps := [
    .bind "o" (.operation (.createObject none)),
    .operation (.defineOwn (.variable "o") (.literal (.str "k"))
      (.valueDescriptor (some (.literal (.int 0))) (some (.literal (.bool false))) none
        (some (.literal (.bool false))))),
    .operation (.defineOwn (.variable "o") (.literal (.str "k"))
      (.valueDescriptor (some (.float (.zero false))) (some (.literal (.bool false))) none
        (some (.literal (.bool false))))),
    .operation (.set (.variable "o") (.literal (.str "k")) (.literal (.int 1)) none),
    .operation (.delete (.variable "o") (.literal (.str "k"))),
    .operation (.freeze (.variable "o"))]

theorem keepsLocks_heapAt_rewriting :
    let zero : Descriptor :=
      { slot := .value (.int 0) false, enumerable := true, configurable := false }
    ((rewriting.heapAt 2).table 0).lookup "k" = some zero ∧
      ∃ d', ((rewriting.heapAt rewriting.events.length).table 0).lookup "k" = some d' ∧
        zero.LockedTo d' := by
  have hlookup : ((rewriting.heapAt 2).table 0).lookup "k" =
      some { slot := .value (.int 0) false, enumerable := true, configurable := false } := by
    decide +kernel
  have hle : 2 ≤ rewriting.events.length := by decide +kernel
  exact ⟨hlookup, keepsLocks_heapAt rewriting hle hlookup rfl⟩

/-- A record that takes no properties never takes one again, keeps its link, and only loses keys. -/
theorem keepsShapes_heapAt (p : Program) {n m : Nat} (hnm : n ≤ m) {o : ObjectId}
    (hext : ((p.heapAt n).table o).extensible = false) :
    ((p.heapAt m).table o).extensible = false ∧ (p.heapAt m).link o = (p.heapAt n).link o ∧
      ((p.heapAt m).table o).keys.Sublist ((p.heapAt n).table o).keys := by
  obtain ⟨events, hadmits, hm⟩ := p.exists_admits_between hnm
  rw [hm]
  exact hadmits.keepsShapes o hext

def narrowing : Program where
  steps := [
    .bind "p" (.operation (.createObject none)),
    .bind "o" (.operation (.createObject none)),
    .operation (.set (.variable "o") (.literal (.str "j")) (.literal (.int 1)) none),
    .operation (.set (.variable "o") (.literal (.str "k")) (.literal (.int 2)) none),
    .operation (.preventExtensions (.variable "o")),
    .operation (.setPrototype (.variable "o") (.variable "p")),
    .operation (.delete (.variable "o") (.literal (.str "j"))),
    .operation (.set (.variable "o") (.literal (.str "j")) (.literal (.int 3)) none)]

theorem keepsShapes_heapAt_narrowing :
    ((narrowing.heapAt 5).table 1).extensible = false ∧
      ((narrowing.heapAt 8).table 1).extensible = false ∧
      (narrowing.heapAt 8).link 1 = (narrowing.heapAt 5).link 1 ∧
      ((narrowing.heapAt 8).table 1).keys.Sublist ((narrowing.heapAt 5).table 1).keys := by
  have hext : ((narrowing.heapAt 5).table 1).extensible = false := by decide +kernel
  exact ⟨hext, keepsShapes_heapAt narrowing (by decide) hext⟩

end ObjectModel.Script.Program
