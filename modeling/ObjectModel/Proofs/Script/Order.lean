import ObjectModel.Proofs.Realm.Searching
import ObjectModel.Proofs.Script.Closed

/-!
Inheritance at the moments of runs, however the records came to be linked: a strict order, with
which every walk along the links agrees.
-/

namespace ObjectModel.Script.Program

open Realm

/--
At every moment of a run a record is above another one if it is further up on its chain, which is a
strict order; and all searches along a chain find what is on it, the nearest first.
-/
theorem walked_heapAt (p : Program) (n : Nat) {r : Realm Session} (hr : r.heap = p.heapAt n) :
    r.Ordered ∧ ∀ o < r.heap.size, r.Walked o := by
  have hset : r.heap.Settled := by
    rw [hr]
    exact p.settled_heapAt n
  exact ⟨ordered_of_settled hset, fun o => walked_of_settled hset⟩

def descending : Program where
  steps := [
    .bind "top" (.operation (.createObject none)),
    .operation (.set (.variable "top") (.literal (.str "k")) (.literal (.int 1)) none),
    .bind "middle" (.operation (.bareObject (some (.variable "top")))),
    .bind "low" (.operation (.createObject (some (.variable "middle")))),
    .operation (.set (.variable "low") (.literal (.str "j")) (.literal (.int 2)) none),
    .bind "stray" (.operation (.bareObject (some (.literal (.int 3))))),
    .bind "below" (.operation (.createObject (some (.variable "stray"))))]

theorem walked_heapAt_descending :
    let r := descending.run.2
    r.heap = descending.heapAt descending.events.length ∧
      isPrototypeOf (.object 0) (.object 2) r = .ok true r ∧
      isPrototypeOf (.object 2) (.object 0) r = .ok false r ∧
      find (some 2) "k" r = .ok (some (0, .ofValue (.int 1))) r ∧
      deleteOwn (.object 2) (.str "k") r = .ok true r ∧
      hasProperty (.object 4) (.str "k") r = .error .notRecord r := by
  intro r
  have hr : r.heap = descending.heapAt descending.events.length :=
    (heapAt_length_events descending).symm
  obtain ⟨-, hwalked⟩ := walked_heapAt descending _ hr
  have hsize : r.heap.size = 5 := by decide +kernel
  have hchain : r.heap.chain (some 2) = [2, 1, 0] := by decide +kernel
  have hend : r.heap.strayEnd? (some 0) = none := by decide +kernel
  have hstray : r.heap.strayEnd? (some 4) = some (.int 3) := by decide +kernel
  have hlow : r.Walked 2 := hwalked 2 (by omega)
  have hown (o : ObjectId) (ho : o < 5) :
      hasOwn (.object o) (.str "k") r = .ok ((r.heap.table o).contains "k") r :=
    hasOwn_run (hsize ▸ ho) rfl
  have hlacks : ∀ o ∈ [2, 1], hasOwn (.object o) (.str "k") r = .ok false r := by
    intro o ho
    have hcontains : ∀ o ∈ [2, 1], o < 5 ∧ (r.heap.table o).contains "k" = false := by
      decide +kernel
    rw [hown o (hcontains o ho).1, (hcontains o ho).2]
  have howns : hasOwn (.object 0) (.str "k") r = .ok true r := by
    rw [hown 0 (by decide)]
    have hcontains : (r.heap.table 0).contains "k" = true := by decide +kernel
    rw [hcontains]
  refine ⟨hr, ?_, ?_, ?_, ?_, ?_⟩
  · exact (hlow.isPrototypeOf 0 (by omega)).found (by rw [hchain]; decide)
  · rw [((hwalked 0 (by omega)).isPrototypeOf 2 (by omega)).missed (by decide +kernel), hend]
  · exact (hlow.find_some (.str "k") "k" rfl 0 _).2 ⟨[2, 1], [], hchain, hlacks, by decide +kernel⟩
  · rw [hlow.deleteOwn (.str "k") (hlacks 2 (by decide))]
    exact (hlow.hasProperty (.str "k") "k" rfl).found ⟨0, by rw [hchain]; decide, howns⟩
  · have hnowhere : ∀ o ∈ r.heap.chain (some 4), o < 5 ∧ (r.heap.table o).contains "k" = false := by
      decide +kernel
    rw [((hwalked 4 (by omega)).hasProperty (.str "k") "k" rfl).missed, hstray]
    rintro ⟨o, ho, htrue⟩
    rw [hown o (hnowhere o ho).1, (hnowhere o ho).2] at htrue
    cases htrue

end ObjectModel.Script.Program
