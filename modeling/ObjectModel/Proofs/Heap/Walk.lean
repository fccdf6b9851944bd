import ObjectModel.Proofs.Heap.Ascent

/-!
Walks along the links that end at `none`: ways up on which no link strays. The bounded walks of the
heap are the walk itself and searches along it.
-/

namespace ObjectModel.Heap

/-- The walk from a value comes to an end, having met these records in this order. -/
inductive Walk (h : Heap) : Value → List ObjectId → Prop
  | stop : h.Walk .none []
  | next {o : ObjectId} {rest : List ObjectId} (hlt : o < h.size) (hrest : h.Walk (h.link o) rest) :
    h.Walk (.object o) (o :: rest)

variable {h : Heap} {v : Value} {o : ObjectId} {start : Option ObjectId} {os : List ObjectId}

theorem ofLink_prototype (hstray : h.strayLink? o = none) : .ofLink (h.prototype o) = h.link o := by
  unfold strayLink? at hstray
  unfold prototype
  cases hl : h.link o <;> rw [hl] at hstray <;> first | rfl | cases hstray

theorem Walk.strayLink?_eq (hw : h.Walk (h.link o) os) : h.strayLink? o = none := by
  unfold strayLink?
  cases hl : h.link o <;> rw [hl] at hw <;> first | rfl | cases hw

theorem Walk.strayLink?_of_mem (hw : h.Walk v os) {x : ObjectId} (hx : x ∈ os) :
    h.strayLink? x = none := by
  induction hw with
  | stop => cases hx
  | next hlt hrest ih =>
    cases hx with
    | head => exact hrest.strayLink?_eq
    | tail _ hx => exact ih hx

theorem Walk.ascent (hw : h.Walk (.ofLink start) os) : h.Ascent start os := by
  induction os generalizing start with
  | nil =>
    cases start with
    | some => cases hw
    | none => exact .top
  | cons x rest ih =>
    cases start with
    | none => cases hw
    | some o =>
      cases hw with
      | next hlt hrest => exact .step hlt (ih (ofLink_prototype hrest.strayLink?_eq ▸ hrest))

theorem Ascent.walk (ha : h.Ascent start os) (hstray : ∀ x ∈ os, h.strayLink? x = none) :
    h.Walk (.ofLink start) os := by
  induction ha with
  | top => exact .stop
  | @step o rest hlt hrest ih =>
    rw [List.forall_mem_cons] at hstray
    refine .next hlt ?_
    rw [← ofLink_prototype hstray.1]
    exact ih hstray.2

theorem Walk.chain_eq (hw : h.Walk (.ofLink start) os) : h.chain start = os :=
  hw.ascent.chain_eq

theorem Walk.findProperty_eq (hw : h.Walk (.ofLink start) os) (key : String) :
    h.findProperty start key = h.firstOwner key os := by
  rw [findProperty_eq_firstOwner, hw.chain_eq]

theorem Walk.reaches_eq (hw : h.Walk (.ofLink start) os) (ancestor : ObjectId) :
    h.reaches start ancestor = os.contains ancestor := by
  rw [reaches_eq_contains, hw.chain_eq]

theorem Walk.strayEnd?_eq (hw : h.Walk (.ofLink start) os) : h.strayEnd? start = none := by
  rw [strayEnd?, hw.chain_eq, List.findSome?_eq_none_iff]
  intro x hx
  exact hw.strayLink?_of_mem hx

end ObjectModel.Heap
