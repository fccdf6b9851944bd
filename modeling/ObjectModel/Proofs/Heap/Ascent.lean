import Mathlib.Data.List.Perm.Subperm
import ObjectModel.Heap.Basic

/-!
The way up from a record without a bound on its length, as a relation. Where there is one, the
bounded chain of the heap is all of it.
-/

namespace ObjectModel.Heap

def firstOwner (h : Heap) (key : String) (os : List ObjectId) : Option (ObjectId × Descriptor) :=
  os.findSome? fun o => ((h.table o).lookup key).map (o, ·)

inductive Ascent (h : Heap) : Option ObjectId → List ObjectId → Prop
  | top : h.Ascent none []
  | step {o : ObjectId} {rest : List ObjectId} (hlt : o < h.size)
    (hrest : h.Ascent (h.prototype o) rest) : h.Ascent (some o) (o :: rest)

variable {h : Heap} {start : Option ObjectId} {os : List ObjectId}

theorem Ascent.unique {os' : List ObjectId} (ha : h.Ascent start os) (ha' : h.Ascent start os') :
    os = os' := by
  induction ha generalizing os' with
  | top =>
    cases ha'
    rfl
  | step hlt hrest ih =>
    cases ha' with
    | step hlt' hrest' => rw [ih hrest']

theorem Ascent.lt_size (ha : h.Ascent start os) {x : ObjectId} (hx : x ∈ os) : x < h.size := by
  induction ha with
  | top => cases hx
  | step hlt hrest ih =>
    cases hx with
    | head => exact hlt
    | tail _ hx => exact ih hx

theorem Ascent.from_mem (ha : h.Ascent start os) {x : ObjectId} (hx : x ∈ os) :
    ∃ rest, h.Ascent (some x) (x :: rest) ∧ (x :: rest).length ≤ os.length := by
  induction ha with
  | top => cases hx
  | step hlt hrest ih =>
    cases hx with
    | head => exact ⟨_, .step hlt hrest, Nat.le_refl _⟩
    | tail _ hx =>
      obtain ⟨rest, hax, hle⟩ := ih hx
      exact ⟨rest, hax, Nat.le_succ_of_le hle⟩

theorem Ascent.nodup (ha : h.Ascent start os) : os.Nodup := by
  induction ha with
  | top => exact List.nodup_nil
  | @step o rest hlt hrest ih =>
    refine List.nodup_cons.2 ⟨?_, ih⟩
    -- a record met twice would have two ways up of different length
    intro hmem
    obtain ⟨rest', ha', hle⟩ := hrest.from_mem hmem
    have hlen := congrArg List.length (ha'.unique (.step hlt hrest))
    rw [hlen, List.length_cons] at hle
    omega

theorem Ascent.length_le (ha : h.Ascent start os) : os.length ≤ h.size := by
  have hsub : os ⊆ List.range h.size := by
    intro x hx
    exact List.mem_range.2 (ha.lt_size hx)
  simpa using (List.subperm_of_subset ha.nodup hsub).length_le

theorem Ascent.congr {h' : Heap} (ha : h.Ascent start os) (hsize : h.size ≤ h'.size)
    (hlink : ∀ x ∈ os, h'.link x = h.link x) : h'.Ascent start os := by
  induction ha with
  | top => exact .top
  | @step o rest hlt hrest ih =>
    have hprototype : h'.prototype o = h.prototype o := by
      rw [prototype, prototype, hlink o List.mem_cons_self]
    refine .step (Nat.lt_of_lt_of_le hlt hsize) ?_
    rw [hprototype]
    exact ih fun x hx => hlink x (List.mem_cons_of_mem _ hx)

theorem Ascent.chain_go (ha : h.Ascent start os) {steps : Nat} (hsteps : os.length ≤ steps) :
    chain.go h steps start = os := by
  induction ha generalizing steps with
  | top => cases steps <;> rfl
  | step hlt hrest ih =>
    cases steps with
    | zero => cases hsteps
    | succ steps => rw [chain.go, ih (Nat.le_of_succ_le_succ hsteps)]

theorem Ascent.chain_eq (ha : h.Ascent start os) : h.chain start = os :=
  ha.chain_go ha.length_le

theorem chain_none (h : Heap) : h.chain none = [] :=
  Ascent.top.chain_eq

theorem strayEnd?_none (h : Heap) : h.strayEnd? none = none := by
  rw [strayEnd?, chain_none]
  rfl

theorem findProperty_eq_firstOwner (h : Heap) (start : Option ObjectId) (key : String) :
    h.findProperty start key = h.firstOwner key (h.chain start) := by
  rw [findProperty, chain]
  generalize h.size = steps
  induction steps generalizing start with
  | zero => cases start <;> rfl
  | succ steps ih =>
    cases start with
    | none => rfl
    | some o =>
      rw [findProperty.go, chain.go, firstOwner, List.findSome?_cons]
      cases (h.table o).lookup key with
      | some d => rfl
      | none => exact ih _

theorem findProperty_none (h : Heap) (key : String) : h.findProperty none key = none := by
  rw [findProperty_eq_firstOwner, chain_none]
  rfl

theorem ownedAbove_go (h : Heap) (key : String) (steps : Nat) (start : Option ObjectId) :
    ownedAbove.go h key steps start = (findProperty.go h key steps start).isSome := by
  induction steps generalizing start with
  | zero => cases start <;> rfl
  | succ steps ih =>
    cases start with
    | none => rfl
    | some o =>
      rw [ownedAbove.go, findProperty.go, ih, Table.contains]
      cases (h.table o).lookup key <;> rfl

theorem ownedAbove_eq_isSome_findProperty {o : ObjectId} {key : String}
    (hown : (h.table o).lookup key = none) :
    h.ownedAbove o key = (h.findProperty (some o) key).isSome := by
  rw [ownedAbove, ownedAbove_go, findProperty]
  cases h.size with
  | zero => rfl
  | succ n =>
    rw [findProperty.go, hown]
    rfl

theorem reaches_eq_contains (h : Heap) (start : Option ObjectId) (ancestor : ObjectId) :
    h.reaches start ancestor = (h.chain start).contains ancestor := by
  rw [reaches, chain]
  generalize h.size = steps
  induction steps generalizing start with
  | zero => cases start <;> rfl
  | succ steps ih =>
    cases start with
    | none => rfl
    | some o => rw [reaches.go, chain.go, ih, List.contains_cons, Bool.beq_comm]

theorem Ascent.chain_congr {h' : Heap} (ha : h.Ascent start os) (hsize : h.size ≤ h'.size)
    (hlink : ∀ x ∈ os, h'.link x = h.link x) :
    h'.chain start = h.chain start ∧ h'.strayEnd? start = h.strayEnd? start := by
  have ha' : h'.Ascent start os := ha.congr hsize hlink
  refine ⟨by rw [ha'.chain_eq, ha.chain_eq], ?_⟩
  rw [strayEnd?, strayEnd?, ha'.chain_eq, ha.chain_eq]
  have hstray : ∀ x ∈ os, h'.strayLink? x = h.strayLink? x := by
    intro x hx
    rw [strayLink?, strayLink?, hlink x hx]
  clear ha ha' hlink
  induction os with
  | nil => rfl
  | cons x rest ih =>
    rw [List.forall_mem_cons] at hstray
    rw [List.findSome?_cons, List.findSome?_cons, hstray.1, ih hstray.2]

end ObjectModel.Heap
