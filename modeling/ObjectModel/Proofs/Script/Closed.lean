import ObjectModel.Proofs.Script.History

/-!
Programs name no record that is not there: they can write none down, and whatever they get hold of
is from the closed realm that they run in.
-/

namespace ObjectModel

namespace Script.Program

open Realm

variable {p : Program}

theorem runFrom_closed (p : Program) (steps : List Expr) {r : Realm Session}
    (hr : r.Closed Session.Within) :
    r.Grows (p.runFrom steps r).2 ∧ (p.runFrom steps r).2.Closed Session.Within := by
  induction steps generalizing r with
  | nil => exact ⟨.refl r, hr⟩
  | cons e rest ih =>
    have hfresh : r.fresh.Closed Session.Within :=
      ⟨hr.heap, hr.pool, hr.strict,
        fun n hle => ⟨(hr.client n hle).globals, (hr.client n hle).frame⟩⟩
    have hsteps : Steps (terms True True) Plain (p.outcome e) r.fresh :=
      steps_outcome (fun _ _ _ _ => .inl trivial) (.inl trivial) _
    obtain ⟨hgrows, hclosed, -⟩ := hsteps.closedFrom trivial closedCaller_barred hfresh
    rw [← runStep_snd] at hgrows hclosed
    have hstep : r.Grows (p.runStep e r).2 := .trans (.of_eq rfl rfl) hgrows
    obtain ⟨hgrows', hclosed'⟩ := ih hclosed
    exact ⟨hstep.trans hgrows', hclosed'⟩

theorem closed_start (p : Program) : p.start.Closed Session.Within :=
  ⟨Heap.closed_empty, Pool.within_empty, trivial,
    fun _ _ => ⟨List.forall_mem_nil _, fun _ h => nomatch h⟩⟩

theorem each_within_events (p : Program) : ({} : Heap).Each Event.Within p.events := by
  obtain ⟨events, htrace, -, hwithin⟩ := (p.runFrom_closed p.steps p.closed_start).1
  have hevents : p.events = events := htrace
  rw [hevents]
  exact hwithin

theorem closed_heapAt (p : Program) (n : Nat) : (p.heapAt n).Closed := by
  have hwithin := p.each_within_events
  rw [← List.take_append_drop n p.events, Heap.each_append] at hwithin
  exact Heap.closed_empty.foldl hwithin.1

theorem settled_heapAt (p : Program) (n : Nat) : (p.heapAt n).Settled := by
  have hadmits := p.admits_events
  have hlinked := p.each_within_events.imp Event.Within.linked
  rw [← List.take_append_drop n p.events, Heap.admits_append] at hadmits
  rw [← List.take_append_drop n p.events, Heap.each_append] at hlinked
  exact Heap.settled_empty.foldl hadmits.1 hlinked.1

end Script.Program

end ObjectModel
