import ObjectModel.Pool.Content
import ObjectModel.Proofs.Value.Sameness

/-!
What may become of a property that is not configurable, as a relation between its descriptors. Each
accepted redefinition and each freeze is in the relation, and it composes.
-/

namespace ObjectModel

namespace Value

def outline : Value → Value
  | bool b => int (if b then 1 else 0)
  | float x _ =>
    match x.toInt? with
    | some n => int n
    | Option.none => float x 0
  | list _ => list 0
  | dict _ => dict 0
  | descriptor _ => descriptor 0
  | v => v

theorem outline_numeric (v : Value) : v.numeric.outline = v.outline := by
  cases v <;> rfl

theorem outline_float_eq_int {x : Binary64} {id : Nat} {n : Int} (h : x.toInt? = some n) :
    (float x id).outline = int n := by
  simp only [outline, h]

end Value

theorem Pool.outline_eq_of_equal {p : Pool} {a b : Value} (h : p.equal a b = true) :
    a.outline = b.outline := by
  rw [← a.outline_numeric, ← b.outline_numeric]
  simp only [equal, equal.go] at h
  split at h
  · next ha hb => rw [ha, hb, beq_iff_eq.1 h]
  · next ha hb => rw [ha, hb, Value.outline_float_eq_int (beq_iff_eq.1 h)]; rfl
  · next ha hb => rw [ha, hb, Value.outline_float_eq_int (beq_iff_eq.1 h)]; rfl
  · next x i y j ha hb =>
    rw [ha, hb]
    simp only [Bool.and_eq_true, Bool.or_eq_true, beq_iff_eq] at h
    obtain ⟨-, rfl | ⟨hx, hy⟩⟩ := h
    · rfl
    · have hzero {z : Binary64} (hz : z.isZero) (id : Nat) :
          (Value.float z id).outline = (Value.int 0).outline :=
        Value.outline_float_eq_int
          (Binary64.toInt?_eq_some_iff.2 (Binary64.rational?_eq_of_isZero hz))
      rw [hzero hx, hzero hy]
  · next ha hb => rw [ha, hb]; rfl
  · next ha hb => rw [ha, hb]; rfl
  · next ha hb => rw [ha, hb]; rfl
  · rw [beq_iff_eq.1 h]

/--
Two flags that count the same and are equal in outline: of lists, dicts and descriptors that are
given for flags only the kind is compared, not the content.
-/
def Flag.Agrees (a b : Flag) : Prop :=
  a.holds = b.holds ∧ a.value.outline = b.value.outline

namespace Flag

theorem Agrees.refl (a : Flag) : a.Agrees a :=
  ⟨rfl, rfl⟩

theorem Agrees.symm {a b : Flag} (h : a.Agrees b) : b.Agrees a :=
  ⟨h.1.symm, h.2.symm⟩

theorem Agrees.trans {a b c : Flag} (hab : a.Agrees b) (hbc : b.Agrees c) : a.Agrees c :=
  ⟨hab.1.trans hbc.1, hab.2.trans hbc.2⟩

theorem agrees_of_same {p : Pool} {a b : Flag} (h : a.same p.equal b = true) : a.Agrees b := by
  simp only [same, Bool.and_eq_true, beq_iff_eq] at h
  exact ⟨h.1, Pool.outline_eq_of_equal h.2⟩

end Flag

def Slot.LockedTo : Slot → Slot → Prop
  | .value old writable, .value new writable' =>
    writable.holds = false → writable'.holds = false ∧ new.same old = true
  | .accessor get set, .accessor get' set' => get' = get ∧ set' = set
  | _, _ => False

/-- The second descriptor is one that a property locked by the first may come to have. -/
structure Descriptor.LockedTo (d d' : Descriptor) : Prop where
  configurable : d'.configurable.holds = false
  enumerable : d.enumerable.Agrees d'.enumerable
  slot : d.slot.LockedTo d'.slot

namespace Slot

theorem LockedTo.refl (s : Slot) : s.LockedTo s := by
  cases s with
  | value v writable =>
    intro h
    exact ⟨h, Value.same_refl v⟩
  | accessor get set => exact ⟨rfl, rfl⟩

theorem LockedTo.trans {a b c : Slot} (hab : a.LockedTo b) (hbc : b.LockedTo c) :
    a.LockedTo c := by
  cases a with
  | value v writable =>
    cases b with
    | accessor => exact hab.elim
    | value v' writable' =>
      cases c with
      | accessor => exact hbc.elim
      | value v'' writable'' =>
        intro h
        obtain ⟨hw', hv'⟩ := hab h
        obtain ⟨hw'', hv''⟩ := hbc hw'
        exact ⟨hw'', Value.same_trans hv'' hv'⟩
  | accessor get set =>
    cases b with
    | value => exact hab.elim
    | accessor get' set' =>
      cases c with
      | value => exact hbc.elim
      | accessor get'' set'' => exact ⟨hbc.1.trans hab.1, hbc.2.trans hab.2⟩

end Slot

namespace Descriptor

theorem LockedTo.refl {d : Descriptor} (h : d.configurable.holds = false) : d.LockedTo d :=
  ⟨h, Flag.Agrees.refl _, Slot.LockedTo.refl _⟩

theorem LockedTo.trans {a b c : Descriptor} (hab : a.LockedTo b) (hbc : b.LockedTo c) :
    a.LockedTo c :=
  ⟨hbc.configurable, hab.enumerable.trans hbc.enumerable, hab.slot.trans hbc.slot⟩

theorem lockedTo_of_conflict? {p : Pool} {d d' : Descriptor} (hlock : d.configurable.holds = false)
    (h : d.conflict? p.equal d' = none) : d.LockedTo d' := by
  unfold conflict? at h
  rw [if_neg (by simp [hlock])] at h
  split at h
  · cases h
  · next hconf =>
    split at h
    · cases h
    · next henum =>
      refine ⟨by simpa using hconf, ?_, ?_⟩
      · exact (Flag.agrees_of_same (by simpa using henum)).symm
      · split at h
        · next old writable new writable' hold hnew =>
          rw [hold, hnew]
          intro hw
          rw [if_neg (by simp [hw])] at h
          split at h
          · cases h
          · next hw' =>
            split at h
            · next hsame => exact ⟨by simpa using hw', hsame⟩
            · cases h
        · next hold hnew =>
          rw [hold, hnew]
          split at h
          · next heq => exact heq
          · cases h
        · cases h

theorem lockedTo_freeze (d : Descriptor) : d.LockedTo d.freeze := by
  refine ⟨rfl, Flag.Agrees.refl _, ?_⟩
  cases hs : d.slot with
  | value v writable =>
    simp only [freeze, hs]
    intro _
    exact ⟨rfl, Value.same_refl v⟩
  | accessor get set =>
    simp only [freeze, hs]
    exact ⟨rfl, rfl⟩

end Descriptor

end ObjectModel
