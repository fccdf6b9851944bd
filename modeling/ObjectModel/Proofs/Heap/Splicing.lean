import ObjectModel.Proofs.Heap.Order

/-!
What a new link does to the chains of a heap. Those that come to its record go on from there along
the new link, and all others are as they were.
-/

namespace ObjectModel.Heap

variable {h : Heap} {start prototype : Option ObjectId} {target os : List ObjectId}
  {o x p : ObjectId}

theorem splice_of_mem (ho : o ∈ os) :
    splice o target os = os.takeWhile (· ≠ o) ++ o :: target := by
  induction os with
  | nil => cases ho
  | cons x rest ih =>
    rw [splice]
    by_cases hx : x = o
    · rw [if_pos hx, List.takeWhile_cons_of_neg (by simpa using hx), List.nil_append]
    · rw [if_neg hx, List.takeWhile_cons_of_pos (by simpa using hx), List.cons_append,
        ih (List.mem_of_ne_of_mem (Ne.symm hx) ho)]

theorem strayLink?_of_prototype (hp : h.prototype x = some p) : h.strayLink? x = none := by
  unfold prototype at hp
  unfold strayLink?
  split at hp
  · next hlink => rw [hlink]
  · cases hp

theorem Ascent.strayEnd?_eq (ha : h.Ascent start os) (hx : x ∈ os) :
    h.strayEnd? start = h.strayEnd? (some x) := by
  induction ha with
  | top => cases hx
  | @step o rest hlt hrest ih =>
    cases hx with
    | head => rfl
    | tail _ hx =>
      have hstray : h.strayLink? o = none := by
        cases hp : h.prototype o with
        | none =>
          rw [hp] at hrest
          cases hrest
          cases hx
        | some p => exact strayLink?_of_prototype hp
      rw [← ih hx, strayEnd?, strayEnd?, (Ascent.step hlt hrest).chain_eq, hrest.chain_eq,
        List.findSome?_cons, hstray]

namespace Settled

variable (hset : h.Settled)
include hset

theorem prototype_lt (ho : o < h.size) (hp : h.prototype o = some p) : p < h.size := by
  obtain ⟨os, ha⟩ := hset o ho
  cases ha with
  | step _ hrest =>
    rw [hp] at hrest
    cases hrest with
    | step hlt _ => exact hlt

theorem strayEnd?_eq (ho : o < h.size) :
    h.strayEnd? (some o) = (h.strayLink? o).or (h.strayEnd? (h.prototype o)) := by
  rw [strayEnd?, hset.chain_eq_cons ho, List.findSome?_cons]
  cases h.strayLink? o <;> rfl

end Settled

structure Spliced (h h' : Heap) (o : ObjectId) (prototype : Option ObjectId) : Prop where
  epoch : h'.epoch = h.epoch + 1
  size : h'.size = h.size
  table : ∀ x, h'.table x = h.table x
  link : ∀ x, h'.link x = if x = o then .ofLink prototype else h.link x
  /-- What comes to `o` goes on along the new link, and comes to an end. -/
  through : ∀ x < h.size, o ∈ h.chain (some x) →
    h'.chain (some x) = (h.chain (some x)).takeWhile (· ≠ o) ++ o :: h.chain prototype ∧
      h'.strayEnd? (some x) = none
  apart : ∀ x < h.size, o ∉ h.chain (some x) →
    h'.chain (some x) = h.chain (some x) ∧ h'.strayEnd? (some x) = h.strayEnd? (some x)

namespace AdmitsRelink

variable (hadm : h.AdmitsRelink o prototype)
include hadm

theorem link_relink (x : ObjectId) :
    (h.apply (.relink o prototype)).link x = if x = o then .ofLink prototype else h.link x := by
  rw [Heap.link_relink]
  refine if_congr ⟨fun hx => hx.1.symm, ?_⟩ rfl rfl
  rintro rfl
  exact ⟨rfl, hadm.object⟩

theorem not_mem_chain : o ∉ h.chain prototype := by
  have hreach := hadm.acyclic
  rw [reaches_eq_contains] at hreach
  simpa using hreach

theorem chain_relink_of_not_mem (ha : h.Ascent start os) (ho : o ∉ os) :
    (h.apply (.relink o prototype)).chain start = h.chain start ∧
      (h.apply (.relink o prototype)).strayEnd? start = h.strayEnd? start := by
  apply ha.chain_congr
  · exact Nat.le_of_eq (size_relink h o prototype).symm
  · intro x hx
    have hne : x ≠ o := fun heq => ho (heq ▸ hx)
    rw [hadm.link_relink, if_neg hne]

variable (hset : h.Settled)
include hset

theorem chain_relink (hx : x < h.size) :
    (h.apply (.relink o prototype)).chain (some x) =
      splice o (h.chain prototype) (h.chain (some x)) := by
  obtain ⟨target, htarget⟩ := hset.ascent hadm.target
  obtain ⟨os, ha⟩ := hset x hx
  have ho := hadm.not_mem_chain
  rw [htarget.chain_eq] at ho ⊢
  rw [ha.chain_eq]
  exact (htarget.relink ho ha).chain_eq

theorem strayEnd?_relink_self : (h.apply (.relink o prototype)).strayEnd? (some o) = none := by
  obtain ⟨target, htarget⟩ := hset.ascent hadm.target
  have hmem := hadm.not_mem_chain
  rw [htarget.chain_eq] at hmem
  have hstray : (h.apply (.relink o prototype)).strayLink? o = none := by
    rw [strayLink?, hadm.link_relink, if_pos rfl]
    cases prototype <;> rfl
  have hprototype : (h.apply (.relink o prototype)).prototype o = prototype := by
    rw [prototype_relink, if_pos ⟨rfl, hadm.object⟩]
  rw [(hset.relink hadm).strayEnd?_eq (by rw [size_relink]; exact hadm.object), hstray, hprototype,
    Option.none_or, (hadm.chain_relink_of_not_mem htarget hmem).2]
  exact hadm.ends

theorem strayEnd?_relink_of_mem (hx : x < h.size) (ho : o ∈ h.chain (some x)) :
    (h.apply (.relink o prototype)).strayEnd? (some x) = none := by
  obtain ⟨os, ha⟩ := (hset.relink hadm) x (by rw [size_relink]; exact hx)
  have hmem : o ∈ os := by
    rw [← ha.chain_eq, hadm.chain_relink hset hx, splice_of_mem ho]
    exact List.mem_append_right _ List.mem_cons_self
  rw [ha.strayEnd?_eq hmem]
  exact hadm.strayEnd?_relink_self hset

theorem spliced : h.Spliced (h.apply (.relink o prototype)) o prototype := by
  constructor
  · rfl
  · exact size_relink h o prototype
  · exact table_relink h o prototype
  · exact hadm.link_relink
  · intro x hx ho
    rw [hadm.chain_relink hset hx, splice_of_mem ho]
    exact ⟨rfl, hadm.strayEnd?_relink_of_mem hset hx ho⟩
  · intro x hx ho
    obtain ⟨os, ha⟩ := hset x hx
    rw [ha.chain_eq] at ho
    exact hadm.chain_relink_of_not_mem ha ho

end AdmitsRelink

end ObjectModel.Heap
