import ObjectModel.Heap.Basic

/-!
Values that name no record but the first so many, and what is made of such values.
-/

namespace ObjectModel

def Value.Within (n : Nat) : Value → Prop
  | object o => o < n
  | _ => True

variable {n n' : Nat}

theorem Value.Within.mono {v : Value} (hv : v.Within n) (hle : n ≤ n') : v.Within n' := by
  cases v with
  | object o => exact Nat.lt_of_lt_of_le hv hle
  | _ => trivial

theorem Value.within_ofOption {v? : Option Value} (hv : ∀ v ∈ v?, v.Within n) :
    (ofOption v?).Within n := by
  cases v? with
  | none => trivial
  | some v => exact hv v rfl

theorem Value.within_ofLink {link : Option ObjectId} (hlt : ∀ o ∈ link, o < n) :
    (ofLink link).Within n := by
  cases link with
  | none => trivial
  | some o => exact hlt o rfl

theorem Value.within_of_toOption {v : Value} (hv : v.Within n) :
    ∀ v' ∈ v.toOption, v'.Within n := by
  intro v' hv'
  cases v <;> cases hv' <;> exact hv

def Descriptor.Within (n : Nat) (d : Descriptor) : Prop :=
  ∀ v ∈ d.fields, v.Within n

theorem Descriptor.Within.mono {d : Descriptor} (hd : d.Within n) (hle : n ≤ n') : d.Within n' :=
  fun v hv => (hd v hv).mono hle

theorem Descriptor.within_value {v : Value} {writable enumerable configurable : Flag} :
    Within n { slot := .value v writable, enumerable, configurable } ↔
      v.Within n ∧ writable.value.Within n ∧ enumerable.value.Within n ∧
        configurable.value.Within n := by
  simp [Within, fields]

theorem Descriptor.within_accessor {get set : Option Value} {enumerable configurable : Flag} :
    Within n { slot := .accessor get set, enumerable, configurable } ↔
      (Value.ofOption get).Within n ∧ (Value.ofOption set).Within n ∧
        enumerable.value.Within n ∧ configurable.value.Within n := by
  simp [Within, fields]

theorem Descriptor.within_ofValue {v : Value} (hv : v.Within n) : (ofValue v).Within n :=
  within_value.2 ⟨hv, trivial, trivial, trivial⟩

theorem Descriptor.Within.freeze {d : Descriptor} (hd : d.Within n) : d.freeze.Within n := by
  obtain ⟨slot, enumerable, configurable⟩ := d
  cases slot with
  | value v writable =>
    obtain ⟨hv, -, henumerable, -⟩ := within_value.1 hd
    exact within_value.2 ⟨hv, trivial, henumerable, trivial⟩
  | accessor get set =>
    obtain ⟨hget, hset, henumerable, -⟩ := within_accessor.1 hd
    exact within_accessor.2 ⟨hget, hset, henumerable, trivial⟩

structure Constructor.Within (n : Nat) (c : Constructor) : Prop where
  name : c.name.Within n
  initializer : ∀ v ∈ c.initializer, v.Within n

theorem Constructor.Within.mono {c : Constructor} (hc : c.Within n) (hle : n ≤ n') :
    c.Within n' :=
  ⟨hc.name.mono hle, fun v hv => (hc.initializer v hv).mono hle⟩

end ObjectModel
