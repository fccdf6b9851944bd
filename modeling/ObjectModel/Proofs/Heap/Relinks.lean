import ObjectModel.Proofs.Heap.Admissible

/-!
Where the link of a record comes from: from the last event that has given it one, or else it is the
link that the record was made with.
-/

namespace ObjectModel

def Event.linkFor? (o : ObjectId) : Event → Option (Option ObjectId)
  | changed (.relink x prototype) => if x = o then some prototype else none
  | _ => none

theorem Event.linkFor?_of_not_relinks {event : Event} (h : ¬ event.Relinks) (o : ObjectId) :
    event.linkFor? o = none := by
  cases event with
  | logged | condoned => rfl
  | changed change =>
    cases change with
    | relink => exact absurd trivial h
    | _ => rfl

namespace Heap

variable {h : Heap} {o : ObjectId}

theorem link_after_eq (ho : o < h.size) (event : Event) :
    (h.after event).link o = ((event.linkFor? o).map Value.ofLink).getD (h.link o) := by
  cases event with
  | logged | condoned => rfl
  | changed change =>
    cases change with
    | allocate link c counted =>
      rw [after, link_allocate, if_neg (Nat.ne_of_lt ho)]
      rfl
    | relink x prototype =>
      rw [after, link_relink, Event.linkFor?]
      by_cases hx : x = o
      · rw [if_pos ⟨hx, ho⟩, if_pos hx]
        rfl
      · rw [if_neg (not_and_of_not_left _ hx), if_neg hx]
        rfl
    | define | remove | preventExtensions | freeze => exact link_updateTable _ _ _ _

theorem link_foldl (ho : o < h.size) (events : List Event) :
    (events.foldl after h).link o =
      ((events.filterMap (Event.linkFor? o)).getLast?.map Value.ofLink).getD (h.link o) := by
  induction events generalizing h with
  | nil => rfl
  | cons event rest ih =>
    rw [List.foldl_cons, ih (Nat.lt_of_lt_of_le ho (size_le_after h event)), link_after_eq ho]
    cases hlink : event.linkFor? o with
    | none => rw [List.filterMap_cons_none hlink, Option.map_none, Option.getD_none]
    | some prototype =>
      rw [List.filterMap_cons_some hlink, List.getLast?_cons]
      cases (rest.filterMap (Event.linkFor? o)).getLast? <;> rfl

end Heap

end ObjectModel
