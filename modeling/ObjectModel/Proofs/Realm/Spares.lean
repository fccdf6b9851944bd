import ObjectModel.Proofs.Realm.Composed

/-!
Computations that leave old records alone: whatever they change is new, and they announce nothing.
-/

namespace ObjectModel

def LogEntry.announces : LogEntry → Bool
  | relinked .. | definedOwn .. => true
  | _ => false

def Event.Quiet : Event → Prop
  | changed (.allocate ..) | condoned _ => True
  | logged entry => entry.announces = false
  | _ => False

/-- Whatever the event changes comes after the first `n` records, and it announces nothing. -/
def Event.Passes (n : Nat) : Event → Prop
  | changed (.define o _ _) | changed (.remove o _) | changed (.preventExtensions o)
  | changed (.freeze o) => n ≤ o
  | event => event.Quiet

theorem Event.Quiet.passes {event : Event} (h : event.Quiet) (n : Nat) : event.Passes n := by
  cases event with
  | changed change =>
    cases change with
    | allocate => trivial
    | _ => exact h.elim
  | logged => exact h
  | condoned => trivial

theorem Heap.records_updateTable {h : Heap} {o x : ObjectId} {f : Table → Table} (hne : x ≠ o) :
    (h.updateTable o f).records[x]? = h.records[x]? := by
  rw [updateTable, Array.getElem?_modify, if_neg (Ne.symm hne)]

namespace Realm

variable {σ : Type} {n : Nat} {r r' r'' : Realm σ}

/-- The second realm comes from the first without a change to one of the first `n` records. -/
structure Spares (n : Nat) (r r' : Realm σ) : Prop where
  size : r.heap.size ≤ r'.heap.size
  records : ∀ o < n, r'.heap.records[o]? = r.heap.records[o]?
  epoch : r'.heap.epoch = r.heap.epoch
  trace : ∃ events, r'.trace.toList = r.trace.toList ++ events ∧
    ∀ entry, .logged entry ∈ events → entry.announces = false

theorem Spares.of_eq (hheap : r'.heap = r.heap) (htrace : r'.trace = r.trace) : r.Spares n r' := by
  refine ⟨?_, ?_, ?_, [], ?_, nofun⟩
  · exact Nat.le_of_eq (congrArg Heap.size hheap.symm)
  · exact fun _ _ => by rw [hheap]
  · rw [hheap]
  · rw [htrace, List.append_nil]

theorem Spares.refl (r : Realm σ) : r.Spares n r :=
  .of_eq rfl rfl

theorem Spares.trans (first : r.Spares n r') (second : r'.Spares n r'') : r.Spares n r'' := by
  obtain ⟨events, htrace, hevents⟩ := first.trace
  obtain ⟨events', htrace', hevents'⟩ := second.trace
  refine ⟨Nat.le_trans first.size second.size, ?_, second.epoch.trans first.epoch,
    events ++ events', ?_, ?_⟩
  · intro o ho
    rw [second.records o ho, first.records o ho]
  · rw [htrace', htrace, List.append_assoc]
  · intro entry hentry
    rw [List.mem_append] at hentry
    exact hentry.elim (hevents entry) (hevents' entry)

theorem Spares.emit {event : Event} (hn : n ≤ r.heap.size) (hevent : event.Passes n) :
    r.Spares n { r with heap := r.heap.after event, trace := r.trace.push event } := by
  refine ⟨Heap.size_le_after _ _, fun o ho => ?_, ?_, [event], by simp, ?_⟩
  · have hupdated {x : ObjectId} {f : Table → Table} (hx : n ≤ x) :
        (r.heap.updateTable x f).records[o]? = r.heap.records[o]? :=
      Heap.records_updateTable (Nat.ne_of_lt (Nat.lt_of_lt_of_le ho hx))
    cases event with
    | changed change =>
      cases change with
      | allocate =>
        have hlt : o < r.heap.records.size := Nat.lt_of_lt_of_le ho hn
        simp [Heap.after, Heap.apply, Array.getElem?_push, Nat.ne_of_lt hlt]
      | relink => exact hevent.elim
      | define | remove | preventExtensions | freeze => exact hupdated hevent
    | _ => rfl
  · cases event with
    | changed change =>
      cases change with
      | relink => exact hevent.elim
      | _ => rfl
    | _ => rfl
  · intro entry hmem
    obtain rfl := List.mem_singleton.1 hmem
    exact hevent

end Realm

end ObjectModel
