import ObjectModel.Proofs.Descriptor.Lock
import ObjectModel.Proofs.Value.Equality

/-!
Which descriptors may take the place of which, as a relation. What may come of a descriptor in two
steps may come of it in one.
-/

namespace ObjectModel

variable {p : Pool}

theorem Flag.same_trans {a b c : Flag} (hab : a.same p.equal b = true)
    (hbc : b.same p.equal c = true) : a.same p.equal c = true := by
  simp only [Flag.same, Bool.and_eq_true, beq_iff_eq] at hab hbc ⊢
  exact ⟨hab.1.trans hbc.1, Pool.equal_trans hab.2 hbc.2⟩

namespace Descriptor

variable {d d' d'' : Descriptor}

def YieldsTo (p : Pool) (d d' : Descriptor) : Prop :=
  d.conflict? p.equal d' = none

theorem YieldsTo.same_enumerable (hlock : d.configurable.holds = false) (h : d.YieldsTo p d') :
    d'.enumerable.same p.equal d.enumerable = true := by
  unfold YieldsTo conflict? at h
  rw [if_neg (by simp [hlock])] at h
  split at h
  · cases h
  · split at h
    · cases h
    · next hsame => simpa using hsame

theorem yieldsTo_of_lockedTo (hclosed : d'.configurable.holds = false)
    (hsame : d'.enumerable.same p.equal d.enumerable = true) (hslot : d.slot.LockedTo d'.slot) :
    d.YieldsTo p d' := by
  simp only [YieldsTo, conflict?, hclosed, hsame, Bool.false_eq_true, if_false, Bool.not_true]
  split
  · rfl
  · split
    · next old writable new writable' hold hnew =>
      rw [hold, hnew] at hslot
      cases hw : writable.holds with
      | true => rfl
      | false =>
        obtain ⟨hw', hvalue⟩ := hslot hw
        simp [hw', hvalue]
    · next hold hnew =>
      rw [hold, hnew] at hslot
      exact if_pos hslot
    · next hvalue haccessor =>
      cases hold : d.slot with
      | value =>
        cases hnew : d'.slot with
        | value => exact (hvalue _ _ _ _ hold hnew).elim
        | accessor => rw [hold, hnew] at hslot; cases hslot
      | accessor =>
        cases hnew : d'.slot with
        | value => rw [hold, hnew] at hslot; cases hslot
        | accessor => exact (haccessor _ _ _ _ hold hnew).elim

theorem yieldsTo_iff : d.YieldsTo p d' ↔
    d.configurable.holds = true ∨
      (d'.configurable.holds = false ∧ d'.enumerable.same p.equal d.enumerable = true ∧
        d.slot.LockedTo d'.slot) := by
  cases hc : d.configurable.holds with
  | true => simp [YieldsTo, conflict?, hc]
  | false =>
    simp only [Bool.false_eq_true, false_or]
    constructor
    · intro h
      obtain ⟨hclosed, -, hslot⟩ := lockedTo_of_conflict? hc h
      exact ⟨hclosed, h.same_enumerable hc, hslot⟩
    · rintro ⟨hclosed, hsame, hslot⟩
      exact yieldsTo_of_lockedTo hclosed hsame hslot

theorem YieldsTo.trans (h : d.YieldsTo p d') (h' : d'.YieldsTo p d'') : d.YieldsTo p d'' := by
  rw [yieldsTo_iff] at h h' ⊢
  obtain hopen | ⟨hclosed, hsame, hslot⟩ := h
  · exact .inl hopen
  · obtain hopen' | ⟨hclosed', hsame', hslot'⟩ := h'
    · rw [hclosed] at hopen'
      cases hopen'
    · exact .inr ⟨hclosed', Flag.same_trans hsame' hsame, hslot.trans hslot'⟩

end Descriptor

end ObjectModel
