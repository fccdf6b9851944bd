import ObjectModel.Proofs.Heap.Admissible
import ObjectModel.Proofs.Heap.Ascent
import ObjectModel.Proofs.Value.Within

/-!
No admitted history closes a cycle, as long as no record is linked to one that is not there. The
check for cycles is a bounded walk, so that it finds what it looks for is itself a consequence of
the heap having had no cycle before.
-/

namespace ObjectModel

def Event.LinkedWithin (h : Heap) : Event → Prop
  | changed (.allocate link _ _) => link.Within h.size
  | _ => True

namespace Heap

/-- From every record the way up has an end. -/
def Settled (h : Heap) : Prop :=
  ∀ o < h.size, ∃ os, h.Ascent (some o) os

variable {h : Heap}

theorem Settled.ascent (hset : h.Settled) {start : Option ObjectId}
    (hlt : ∀ p ∈ start, p < h.size) : ∃ os, h.Ascent start os := by
  cases start with
  | none => exact ⟨[], .top⟩
  | some o => exact hset o (hlt o rfl)

theorem Settled.allocate (hset : h.Settled) {link : Value} (c : Option Constructor)
    (counted : Bool) (hlink : link.Within h.size) :
    (h.apply (.allocate link c counted)).Settled := by
  have hold {start : Option ObjectId} {os : List ObjectId} (ha : h.Ascent start os) :
      (h.apply (.allocate link c counted)).Ascent start os := by
    apply ha.congr
    · simp
    · intro x hx
      rw [link_allocate, if_neg (Nat.ne_of_lt (ha.lt_size hx))]
  intro o ho
  rw [size_allocate] at ho
  by_cases hnew : o = h.size
  · have hlt : ∀ p ∈ (h.apply (.allocate link c counted)).prototype o, p < h.size := by
      intro p hp
      rw [prototype, link_allocate, if_pos hnew] at hp
      split at hp
      · cases hp
        exact hlink
      · cases hp
    obtain ⟨os, ha⟩ := hset.ascent hlt
    exact ⟨o :: os, .step (by rw [size_allocate]; exact ho) (hold ha)⟩
  · obtain ⟨os, ha⟩ := hset o (by omega)
    exact ⟨os, hold ha⟩

theorem Settled.updateTable (hset : h.Settled) (o : ObjectId) (f : Table → Table) :
    (h.updateTable o f).Settled := by
  intro x hx
  rw [size_updateTable] at hx
  obtain ⟨os, ha⟩ := hset x hx
  exact ⟨os, ha.congr (by simp) (by simp)⟩

def splice (o : ObjectId) (target : List ObjectId) : List ObjectId → List ObjectId
  | [] => []
  | x :: rest => if x = o then o :: target else x :: splice o target rest

theorem prototype_relink (h : Heap) (o : ObjectId) (prototype : Option ObjectId) (x : ObjectId) :
    (h.apply (.relink o prototype)).prototype x =
      if o = x ∧ x < h.size then prototype else h.prototype x := by
  by_cases hx : o = x ∧ x < h.size
  · rw [Heap.prototype, link_relink, if_pos hx, if_pos hx]
    cases prototype <;> rfl
  · rw [Heap.prototype, link_relink, if_neg hx, if_neg hx]
    rfl

theorem Ascent.relink {o : ObjectId} {prototype : Option ObjectId} {target : List ObjectId}
    (htarget : h.Ascent prototype target) (ho : o ∉ target) {start : Option ObjectId}
    {os : List ObjectId} (ha : h.Ascent start os) :
    (h.apply (.relink o prototype)).Ascent start (splice o target os) := by
  induction ha with
  | top => exact .top
  | @step x rest hlt hrest ih =>
    rw [splice]
    split
    · next hx =>
      subst hx
      refine .step (by simpa using hlt) ?_
      rw [prototype_relink, if_pos ⟨rfl, hlt⟩]
      apply htarget.congr
      · simp
      · intro y hy
        have hne : x ≠ y := fun heq => ho (heq ▸ hy)
        rw [link_relink, if_neg (not_and_of_not_left _ hne)]
    · next hx =>
      refine .step (by simpa using hlt) ?_
      rw [prototype_relink, if_neg (not_and_of_not_left _ (Ne.symm hx))]
      exact ih

theorem Settled.relink (hset : h.Settled) {o : ObjectId} {prototype : Option ObjectId}
    (hadm : h.AdmitsRelink o prototype) : (h.apply (.relink o prototype)).Settled := by
  obtain ⟨target, htarget⟩ := hset.ascent hadm.target
  have ho : o ∉ target := by
    have hreach := hadm.acyclic
    rw [reaches_eq_contains, htarget.chain_eq] at hreach
    simpa using hreach
  intro x hx
  rw [size_relink] at hx
  obtain ⟨os, ha⟩ := hset x hx
  exact ⟨splice o target os, htarget.relink ho ha⟩

theorem Settled.after (hset : h.Settled) {event : Event} (hadm : event.Admissible h)
    (hlinked : event.LinkedWithin h) : (h.after event).Settled := by
  cases event with
  | logged => exact hset
  | condoned => exact hset
  | changed change =>
    cases change with
    | allocate link c counted => exact hset.allocate c counted hlinked
    | define o key d => exact hset.updateTable _ _
    | remove o key => exact hset.updateTable _ _
    | preventExtensions o => exact hset.updateTable _ _
    | freeze o => exact hset.updateTable _ _
    | relink o prototype => exact hset.relink hadm

theorem Settled.foldl (hset : h.Settled) {events : List Event} (hadmits : h.Admits events)
    (hlinked : h.Each Event.LinkedWithin events) : (events.foldl Heap.after h).Settled := by
  induction events generalizing h with
  | nil => exact hset
  | cons event rest ih => exact ih (hset.after hadmits.1 hlinked.1) hadmits.2 hlinked.2

theorem settled_empty : ({} : Heap).Settled := by
  intro o ho
  cases ho

theorem Settled.chain_eq {h' : Heap} (hset : h.Settled) (hsize : h.size ≤ h'.size)
    (hlink : ∀ x < h.size, h'.link x = h.link x) {o : ObjectId} (ho : o < h.size) :
    h'.chain (some o) = h.chain (some o) ∧ h'.strayEnd? (some o) = h.strayEnd? (some o) := by
  obtain ⟨os, ha⟩ := hset o ho
  exact ha.chain_congr hsize fun x hx => hlink x (ha.lt_size hx)

end Heap

end ObjectModel
