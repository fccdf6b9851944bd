import ObjectModel.Proofs.Heap.Admissible

/-!
The epoch counts the links that change. While it stands still no record changes its link, whatever
else happens to the heap.
-/

namespace ObjectModel.Heap

def relinked (h h' : Heap) : List ObjectId :=
  (List.range h.size).filter fun o => h'.link o ≠ h.link o

variable {h h' : Heap}

theorem relinked_eq_nil (hlink : ∀ x < h.size, h'.link x = h.link x) : h.relinked h' = [] := by
  rw [relinked, List.filter_eq_nil_iff]
  intro x hx
  simpa using hlink x (List.mem_range.1 hx)

theorem relinked_relink {o : ObjectId} {prototype : Option ObjectId}
    (hadm : h.AdmitsRelink o prototype) : h.relinked (h.apply (.relink o prototype)) = [o] := by
  have hmem : ∀ x ∈ List.range h.size,
      decide ((h.apply (.relink o prototype)).link x ≠ h.link x) = decide (x = o) := by
    intro x hx
    rw [link_relink]
    by_cases heq : o = x
    · subst heq
      simp [List.mem_range.1 hx, hadm.changes]
    · simp [heq, Ne.symm heq]
  rw [relinked, List.filter_congr hmem, List.filter_eq, List.nodup_range.count,
    if_pos (List.mem_range.2 hadm.object), List.replicate_one]

theorem epoch_after {event : Event} (hadm : event.Admissible h) :
    (h.after event).epoch = h.epoch + (h.relinked (h.after event)).length := by
  have hsame {h' : Heap} (hepoch : h'.epoch = h.epoch)
      (hlink : ∀ x < h.size, h'.link x = h.link x) :
      h'.epoch = h.epoch + (h.relinked h').length := by
    rw [relinked_eq_nil hlink]
    exact hepoch
  cases event with
  | logged => exact hsame rfl fun _ _ => rfl
  | condoned => exact hsame rfl fun _ _ => rfl
  | changed change =>
    cases change with
    | allocate link c counted =>
      refine hsame rfl fun x hx => ?_
      rw [after, link_allocate, if_neg (Nat.ne_of_lt hx)]
    | define o key d => exact hsame rfl fun _ _ => link_updateTable _ _ _ _
    | remove o key => exact hsame rfl fun _ _ => link_updateTable _ _ _ _
    | preventExtensions o => exact hsame rfl fun _ _ => link_updateTable _ _ _ _
    | freeze o => exact hsame rfl fun _ _ => link_updateTable _ _ _ _
    | relink o prototype =>
      rw [after, relinked_relink hadm]
      rfl

theorem link_after {event : Event} (hadm : event.Admissible h)
    (hepoch : (h.after event).epoch = h.epoch) {x : ObjectId} (hx : x < h.size) :
    (h.after event).link x = h.link x := by
  rw [epoch_after hadm, Nat.add_eq_left, List.length_eq_zero_iff, relinked,
    List.filter_eq_nil_iff] at hepoch
  simpa using hepoch x (List.mem_range.2 hx)

theorem Admits.epoch_le {events : List Event} (hadmits : h.Admits events) :
    h.epoch ≤ (events.foldl after h).epoch := by
  induction events generalizing h with
  | nil => exact Nat.le_refl _
  | cons event rest ih =>
    have hle := ih hadmits.2
    rw [epoch_after hadmits.1] at hle
    rw [List.foldl_cons]
    omega

theorem Admits.link_eq {events : List Event} (hadmits : h.Admits events)
    (hepoch : (events.foldl after h).epoch = h.epoch) {x : ObjectId} (hx : x < h.size) :
    (events.foldl after h).link x = h.link x := by
  induction events generalizing h with
  | nil => rfl
  | cons event rest ih =>
    rw [List.foldl_cons] at hepoch ⊢
    -- the epoch never falls, so it stood still at this event and stands still from it on
    have hle := hadmits.2.epoch_le
    have hfirst : (h.after event).epoch = h.epoch := by
      rw [epoch_after hadmits.1] at hle ⊢
      omega
    rw [ih hadmits.2 (hepoch.trans hfirst.symm) (Nat.lt_of_lt_of_le hx (size_le_after h event)),
      link_after hadmits.1 hfirst hx]

end ObjectModel.Heap
