import ObjectModel.Proofs.Realm.Regrowing
import ObjectModel.Proofs.Script.Closed

/-!
Records that are built from snapshots at the moments of runs: what can be reached is unfolded to a
tree, and nothing is built where something leads back to itself.
-/

namespace ObjectModel.Script.Program

open Realm

/--
At every moment of a run, where what a record leads to shows nothing but records, texts, numbers and
booleans, there is a snapshot of it. Building from the snapshot makes a record for each path from
the record, with the same keys and values, unless something there leads back to itself; then
building runs out of depth. So it rebuilds what was there exactly if different paths lead to
different records.
-/
theorem regrows_heapAt (p : Program) (n : Nat) {r : Realm Session} (hr : r.heap = p.heapAt n)
    (call : Caller Session) {o : ObjectId} (ho : o < r.heap.size)
    (hdata : ∀ x, r.heap.LeadsTo o x → r.heap.ShowsData x) :
    ∃ v r', snapshot call (.object o) r = .ok v r' ∧ r'.heap = r.heap ∧ r'.Regrows call o v := by
  have hclosed : r.heap.Closed := by
    rw [hr]
    exact p.closed_heapAt n
  exact regrows_of_closed call hclosed ho hdata

def meeting : Program where
  steps := [
    .bind "leaf" (.operation (.createObject none)),
    .operation (.set (.variable "leaf") (.literal (.str "name")) (.literal (.str "x")) none),
    .bind "top" (.operation (.createObject none)),
    .operation (.set (.variable "top") (.literal (.str "a")) (.variable "leaf") none),
    .operation (.set (.variable "top") (.literal (.str "n")) (.literal (.int 1)) none),
    .operation (.set (.variable "top") (.literal (.str "b")) (.variable "leaf") none),
    .bind "round" (.operation (.createObject none)),
    .operation (.set (.variable "round") (.literal (.str "self")) (.variable "round") none)]

theorem heap_run_meeting :
    let h := meeting.run.2.heap
    h.size = 3 ∧ (∀ x < 3, h.ShowsData x) ∧
      (∀ x < 2, ∀ key ∈ (h.table x).enumerableKeys, ∀ y ∈ h.object? ((h.table x).held key), y < x) ∧
      (h.table 1).enumerableKeys = ["a", "n", "b"] ∧ (h.table 1).held "n" = .int 1 ∧
      h.follow 1 ["a"] = some 0 ∧ h.follow 1 ["b"] = some 0 ∧ h.shown? 2 "self" = some 2 := by
  decide +kernel

theorem not_circles_meeting : ¬ meeting.run.2.heap.Circles 1 := by
  obtain ⟨-, -, hdown, -⟩ := heap_run_meeting
  refine Heap.not_circles_of_lt fun x hx y hy => ?_
  obtain ⟨key, hkey, hy⟩ := hy
  exact hdown x (Nat.lt_succ_of_le hx) key hkey y hy

theorem circles_meeting : meeting.run.2.heap.Circles 2 := by
  obtain ⟨-, -, -, -, -, -, -, hself⟩ := heap_run_meeting
  exact ⟨2, .refl, .single (Heap.shows_iff.2 ⟨"self", hself⟩)⟩

theorem showsData_meeting (o x : ObjectId) (ho : o < meeting.run.2.heap.size)
    (hx : meeting.run.2.heap.LeadsTo o x) : meeting.run.2.heap.ShowsData x := by
  obtain ⟨hsize, hdata, -⟩ := heap_run_meeting
  exact hdata x (hsize ▸ Heap.lt_size_of_leadsTo ho hx)

theorem regrows_heapAt_meeting :
    let r := meeting.run.2
    let call : Caller Session := fun _ _ _ => throw .exhausted
    r.heap = meeting.heapAt meeting.events.length ∧
      (∃ v r' r'' a b, snapshot call (.object 1) r = .ok v r' ∧
        build call v .none r' = .ok (.object 3) r'' ∧
        (r''.heap.table 3).keys = ["a", "n", "b"] ∧
        (r''.heap.table 3).lookup "n" = some (.ofValue (.int 1)) ∧
        r''.heap.follow 3 ["a"] = some a ∧ r''.heap.follow 3 ["b"] = some b ∧ a ≠ b) ∧
      ∃ v r' r'', snapshot call (.object 2) r = .ok v r' ∧
        build call v .none r' = .error .exhausted r'' := by
  obtain ⟨hsize, -, -, hkeys, hheld, ha, hb, -⟩ := heap_run_meeting
  have hr := (heapAt_length_events meeting).symm
  have hacyclic := not_circles_meeting
  have hcircles := circles_meeting
  have hdata := showsData_meeting
  generalize meeting.run.2 = r at *
  intro r call
  have htop : (1 : ObjectId) < r.heap.size := hsize ▸ by decide
  have hround : (2 : ObjectId) < r.heap.size := hsize ▸ by decide
  refine ⟨hr, ?_, ?_⟩
  · obtain ⟨v, r', hsnapshot, hheap, hregrows⟩ :=
      regrows_heapAt meeting _ hr call htop fun x hx => hdata 1 x htop hx
    obtain ⟨r'', d, hbuild, -, hunfolds⟩ := hregrows.unfolds (by rwa [hheap])
    rw [hheap, hsize] at hbuild
    rw [hheap, hsize] at hunfolds
    have hsome {path : List String} (hpath : r.heap.follow 1 path = some 0) :
        ∃ y, r''.heap.follow 3 path = some y := by
      rw [← Option.isSome_iff_exists, hunfolds.isSome, hpath, Option.isSome_some]
    obtain ⟨a, ha'⟩ := hsome ha
    obtain ⟨b, hb'⟩ := hsome hb
    have hroot := hunfolds.resembles [] 1 3 rfl rfl
    have hscalar := hroot.scalar "n" (by rw [hkeys]; decide) (by rw [hheld]; trivial)
    refine ⟨v, r', r'', a, b, hsnapshot, hbuild, ?_, ?_, ha', hb', ?_⟩
    · rw [hroot.keys, hkeys]
    · rw [hscalar, hheld]
    · rintro rfl
      exact absurd (hunfolds.unshared ["a"] ["b"] a ha' hb') (by decide)
  · obtain ⟨v, r', hsnapshot, hheap, hregrows⟩ :=
      regrows_heapAt meeting _ hr call hround fun x hx => hdata 2 x hround hx
    obtain ⟨r'', hbuild⟩ := hregrows.exhausts (by rwa [hheap])
    exact ⟨v, r', r'', hsnapshot, hbuild⟩

/--
What meets again is built twice, so that paths that led to one record lead to two; and where a
record leads back to itself nothing is built.
-/
theorem exists_not_rebuilds :
    ∃ (p : Program) (r : Realm Session) (call : Caller Session) (met circled : ObjectId),
      r.heap = p.heapAt p.events.length ∧ met < r.heap.size ∧ circled < r.heap.size ∧
      (∀ x < r.heap.size, r.heap.ShowsData x) ∧
      (∃ v r' o' r'', snapshot call (.object met) r = .ok v r' ∧
        build call v .none r' = .ok (.object o') r'' ∧ ¬ r.heap.Rebuilds r''.heap met o') ∧
      ∃ v r' r'', snapshot call (.object circled) r = .ok v r' ∧
        build call v .none r' = .error .exhausted r'' := by
  obtain ⟨hsize, hdata, -, -, -, ha, hb, -⟩ := heap_run_meeting
  have hr := (heapAt_length_events meeting).symm
  have hacyclic := not_circles_meeting
  have hcircles := circles_meeting
  have hled := showsData_meeting
  generalize meeting.run.2 = r at *
  have htop : (1 : ObjectId) < r.heap.size := hsize ▸ by decide
  have hround : (2 : ObjectId) < r.heap.size := hsize ▸ by decide
  have hclosed : r.heap.Closed := hr ▸ meeting.closed_heapAt _
  refine ⟨meeting, r, fun _ _ _ => throw .exhausted, 1, 2, hr, htop, hround, hsize ▸ hdata, ?_, ?_⟩
  · obtain ⟨v, r', hsnapshot, hheap, hregrows⟩ :=
      regrows_of_closed _ hclosed htop fun x hx => hled 1 x htop hx
    obtain ⟨r'', d, hbuild, -, hunfolds⟩ := hregrows.unfolds (by rwa [hheap])
    refine ⟨v, r', _, r'', hsnapshot, hbuild, fun hrebuilds => ?_⟩
    rw [← hheap] at hrebuilds ha hb
    exact absurd (hunfolds.rebuilds_iff.1 hrebuilds ["a"] ["b"] 0 ha hb) (by decide)
  · obtain ⟨v, r', hsnapshot, hheap, hregrows⟩ :=
      regrows_of_closed _ hclosed hround fun x hx => hled 2 x hround hx
    obtain ⟨r'', hbuild⟩ := hregrows.exhausts (by rwa [hheap])
    exact ⟨v, r', r'', hsnapshot, hbuild⟩

end ObjectModel.Script.Program
