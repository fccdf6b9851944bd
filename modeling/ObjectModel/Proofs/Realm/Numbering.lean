import ObjectModel.Proofs.Realm.Composed

/-!
The lines of the log that tell of relinkings. They are numbered by the epoch that each one begins.
-/

namespace ObjectModel

def Event.relinkEpoch? : Event → Option Nat
  | logged (.relinked _ _ epoch) => some epoch
  | _ => none

namespace Realm

variable {σ α : Type}

/-- Between the two realms the lines about relinkings name the epochs that were begun, in order. -/
def Numbered (r r' : Realm σ) : Prop :=
  ∃ events k, r'.trace.toList = r.trace.toList ++ events ∧ r'.heap.epoch = r.heap.epoch + k ∧
    events.filterMap Event.relinkEpoch? = List.range' (r.heap.epoch + 1) k

theorem Numbered.of_eq {r r' : Realm σ} (hheap : r'.heap = r.heap) (htrace : r'.trace = r.trace) :
    r.Numbered r' :=
  ⟨[], 0, by rw [htrace, List.append_nil], by rw [hheap, Nat.add_zero], rfl⟩

theorem Numbered.trans {r r' r'' : Realm σ} (first : r.Numbered r') (second : r'.Numbered r'') :
    r.Numbered r'' := by
  obtain ⟨events, k, htrace, hepoch, hnumbers⟩ := first
  obtain ⟨events', k', htrace', hepoch', hnumbers'⟩ := second
  refine ⟨events ++ events', k + k', ?_, ?_, ?_⟩
  · rw [htrace', htrace, List.append_assoc]
  · rw [hepoch', hepoch, Nat.add_assoc]
  · rw [List.filterMap_append, hnumbers, hnumbers', hepoch, Nat.add_right_comm,
      List.range'_append_1]

theorem Numbered.emit {r : Realm σ} {event : Event} (h : ¬ event.Relinks) :
    r.Numbered { r with heap := r.heap.after event, trace := r.trace.push event } := by
  refine ⟨[event], 0, by simp, ?_, ?_⟩
  · cases event with
    | changed change =>
      cases change with
      | relink => exact absurd trivial h
      | _ => rfl
    | _ => rfl
  · cases event with
    | logged entry =>
      cases entry with
      | relinked => exact absurd trivial h
      | _ => rfl
    | _ => rfl

theorem Numbered.relink (r : Realm σ) (o : ObjectId) (prototype : Option ObjectId)
    (shown shown' : String) : r.Numbered { r with
      heap := r.heap.apply (.relink o prototype)
      trace := (r.trace.push (.changed (.relink o prototype))).push
        (.logged (.relinked shown shown' (r.heap.epoch + 1))) } :=
  ⟨[.changed (.relink o prototype), .logged (.relinked shown shown' (r.heap.epoch + 1))], 1,
    by simp, rfl, rfl⟩

theorem Composed.numbered {aware : Prop} {m : RealmM σ α} {r : Realm σ} (h : Composed aware m r) :
    r.Numbered (ending (m r)) := by
  apply h.relOfSteps
  · exact fun _ => Numbered.of_eq rfl rfl
  · exact Numbered.trans
  · exact fun _ _ _ => Numbered.of_eq rfl rfl
  · exact fun _ _ => Numbered.of_eq rfl rfl
  · exact fun _ _ => Numbered.of_eq rfl rfl
  · exact fun _ => Numbered.emit
  · exact fun _ _ _ => Numbered.relink _ _ _ _ _

end Realm

end ObjectModel
