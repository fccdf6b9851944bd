import ObjectModel.Proofs.Realm.Deleting
import ObjectModel.Proofs.Script.Closed

/-!
Own properties that are deleted at the moments of runs. What goes from one record comes to light
above it, for that record and for all below.
-/

namespace ObjectModel.Script.Program

open Realm

/--
At every moment of a run to delete an own property is to remove it if it is loose, and nothing else
if it is not. A removal drops one entry of one table, and only the searches that ended there find
something else: what there is above the record.
-/
theorem deletesOwn_heapAt (p : Program) (n : Nat) {r : Realm Session} (hr : r.heap = p.heapAt n)
    {o : ObjectId} (ho : o < r.heap.size) {key : Value} {k : String} (hkey : key.key? = some k) :
    r.DeletesOwn o key k := by
  have hset : r.heap.Settled := by
    rw [hr]
    exact p.settled_heapAt n
  exact deletesOwn_of_settled hset ho hkey

def shadowing : Program where
  steps := [
    .bind "top" (.operation (.createObject none)),
    .operation (.set (.variable "top") (.literal (.str "k")) (.literal (.int 1)) none),
    .operation (.freeze (.variable "top")),
    .bind "middle" (.operation (.createObject (some (.variable "top")))),
    .operation (.defineOwn (.variable "middle") (.literal (.str "k"))
      (.valueDescriptor (some (.literal (.int 2))) none none none)),
    .operation (.set (.variable "middle") (.literal (.str "j")) (.literal (.int 3)) none),
    .bind "low" (.operation (.createObject (some (.variable "middle")))),
    .bind "stray" (.operation (.bareObject (some (.literal (.int 5)))))]

theorem heap_run_shadowing :
    let h := shadowing.run.2.heap
    h.size = 4 ∧ h.link 1 = .object 0 ∧
      ¬ (h.table 0).Loose "k" ∧ (h.table 1).Loose "k" ∧ ¬ (h.table 3).Loose "k" ∧
      (h.table 0).lookup "k" ≠ none ∧ (h.table 2).lookup "j" = none ∧
      (h.table 1).contains "j" = true ∧ (h.table 3).contains "k" = false ∧
      (h.table 1).keys = ["k", "j"] ∧ h.chain (some 2) = [2, 1, 0] ∧ h.chain (some 3) = [3] ∧
      ¬ h.Strays 0 "k" ∧ h.Strays 3 "k" ∧
      h.findProperty (some 0) "k" = some (0, (Descriptor.ofValue (.int 1)).freeze) ∧
      h.findProperty (some 2) "k" = some (1, .ofValue (.int 2)) := by
  decide +kernel

theorem deletesOwn_heapAt_shadowing :
    let r := shadowing.run.2
    let first := (Descriptor.ofValue (.int 1)).freeze
    r.heap = shadowing.heapAt shadowing.events.length ∧
      deleteOwn (.object 0) (.str "k") r = .ok false r ∧
      deleteOwn (.object 2) (.str "j") r = .ok true r ∧
      deleteOwn (.object 3) (.str "k") r = .error .notRecord r ∧
      ∃ r', deleteOwn (.object 1) (.str "k") r = .ok true r' ∧
        (r'.heap.table 1).keys = ["j"] ∧ find (some 2) "k" r' = .ok (some (0, first)) r' := by
  obtain ⟨hsize, hlink, hlocked, hloose, hbare, hgone, habsent, hown, hnowhere, hkeys, hchain,
    hchain', hends, hstray, hfirst, hsecond⟩ := heap_run_shadowing
  intro r first
  have hsize : r.heap.size = 4 := hsize
  have hr : r.heap = shadowing.heapAt shadowing.events.length :=
    (heapAt_length_events shadowing).symm
  have hdeletes (o : ObjectId) (ho : o < 4) (k : String) : r.DeletesOwn o (.str k) k :=
    deletesOwn_heapAt shadowing _ hr (hsize ▸ ho) rfl
  have hhas (o : ObjectId) (ho : o < 4) (k : String) : r.Searches o
      (hasProperty (.object o) (.str k))
      (∃ x ∈ r.heap.chain (some o), (r.heap.table x).contains k = true) :=
    searches_hasProperty (hsize ▸ ho) rfl
  have hfirst : find (some 0) "k" r = .ok (some (0, first)) r := by
    rw [find_eq_ok_some_iff, ← Heap.findProperty_eq_firstOwner]
    exact hfirst
  have hsecond : find (some 2) "k" r = .ok (some (1, .ofValue (.int 2))) r := by
    rw [find_eq_ok_some_iff, ← Heap.findProperty_eq_firstOwner]
    exact hsecond
  refine ⟨hr, ?_, ?_, ?_, ?_⟩
  · rw [(hdeletes 0 (by decide) "k").otherwise hlocked fun h => hgone h.1, if_neg hends]
  · exact (hdeletes 2 (by decide) "j").inherited habsent
      ((hhas 2 (by decide) "j").found ⟨1, by rw [hchain]; decide, hown⟩)
  · have hhas' : hasProperty (.object 3) (.str "k") r ≠ .ok true r := by
      rw [Ne, (hhas 3 (by decide) "k").holds_iff, hchain']
      simp [hnowhere, r]
    rw [(hdeletes 3 (by decide) "k").otherwise hbare fun h => hhas' h.2, if_pos hstray]
  · obtain ⟨r', hrun, hdropped, hunshadows⟩ := (hdeletes 1 (by decide) "k").removes hloose
    have hsize' : 0 < r'.heap.size := by
      rw [hdropped.size]
      omega
    have habove : findAbove 1 "k" r' = find (some 0) "k" r' := by
      simp only [findAbove, bind_run, readHeap_run, hdropped.link.trans hlink, assumeLink,
        assumeObject_run, Heap.object?_object hsize', pure_run]
    have helsewhere (d : Descriptor) : find (some 0) "k" r ≠ .ok (some (1, d)) r := by
      rw [hfirst]
      intro h
      cases h
    refine ⟨r', hrun, ?_, ?_⟩
    · rw [hdropped.keys, hkeys]
      decide
    · rw [hunshadows.above 2 (by omega) _ hsecond, habove,
        hunshadows.kept 0 (by omega) "k" fun _ => helsewhere]
      exact hfirst

theorem exists_deleteOwn_ne_ok :
    ∃ (p : Program) (r : Realm Session) (o : ObjectId) (k : String),
      r.heap = p.heapAt p.events.length ∧ o < r.heap.size ∧
      ¬ (r.heap.table o).Loose k ∧ hasProperty (.object o) (.str k) r ≠ .ok true r ∧
      ∀ r', deleteOwn (.object o) (.str k) r ≠ .ok false r' := by
  obtain ⟨hsize, -, -, -, hbare, -, -, -, hnowhere, -, -, hchain, -, hstray, -, -⟩ :=
    heap_run_shadowing
  let r := shadowing.run.2
  have ho : 3 < r.heap.size := hsize ▸ by decide
  have hhas : hasProperty (.object 3) (.str "k") r ≠ .ok true r := by
    rw [Ne, (searches_hasProperty ho rfl).holds_iff, hchain]
    simp [hnowhere, r]
  refine ⟨shadowing, r, 3, "k", (heapAt_length_events shadowing).symm, ho, hbare, hhas, ?_⟩
  have hrun : deleteOwn (.object 3) (.str "k") r = .error .notRecord r := by
    rw [deleteOwn_of_neither ho rfl hbare fun h => hhas h.2, if_pos hstray]
  intro r' hdone
  rw [hrun] at hdone
  cases hdone

end ObjectModel.Script.Program
