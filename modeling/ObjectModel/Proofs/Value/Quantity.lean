import Mathlib.Order.WithBot
import ObjectModel.Proofs.Value.Sameness
import ObjectModel.Realm.Perform

/-!
What a number amounts to, exactly and whatever its type. Two numbers are the same if they amount to
the same and neither or both are the negative zero, or if both are NaN.
-/

namespace ObjectModel

abbrev Quantity := WithBot (WithTop ℚ)

namespace Binary64

variable {x y : Binary64} {q : ℚ} {n : Int}

/-- What a number amounts to; NaN amounts to nothing. -/
def quantity? : Binary64 → Option Quantity
  | nan => none
  | infinity negative => some (if negative then ⊥ else ⊤)
  | x => x.rational?.map fun q => ((q : WithTop ℚ) : Quantity)

theorem quantity?_eq_some_rational :
    x.quantity? = some ((q : WithTop ℚ) : Quantity) ↔ x.rational? = some q := by
  cases x with
  | nan => simp [quantity?, rational?]
  | infinity negative => cases negative <;> simp [quantity?, rational?]
  | finite => simp [quantity?, rational?]

theorem toInt?_eq_some_iff_quantity? :
    x.toInt? = some n ↔ x.quantity? = some (((n : ℚ) : WithTop ℚ) : Quantity) := by
  rw [quantity?_eq_some_rational, toInt?_eq_some_iff]

theorem quantity?_eq_none_iff : x.quantity? = none ↔ x.isNaN = true := by
  cases x <;> simp [quantity?, rational?, isNaN]

theorem eq_zero_of_isNegativeZero (h : x.isNegativeZero = true) : x = zero true := by
  cases x with
  | nan => cases h
  | infinity => cases h
  | finite negative m e hc =>
    cases negative with
    | false => cases h
    | true =>
      simp only [isNegativeZero, beq_iff_eq] at h
      subst h
      obtain rfl : e = -1074 := hc.2.2.2.resolve_left (by decide)
      rfl

theorem eq_of_rational? (hx : x.rational? = some q) (hy : y.rational? = some q)
    (hzero : x.isNegativeZero = y.isNegativeZero) : x = y := by
  cases hnegative : x.isNegativeZero with
  | true =>
    rw [hnegative] at hzero
    rw [eq_zero_of_isNegativeZero hnegative, eq_zero_of_isNegativeZero hzero.symm]
  | false => exact rational?_inj hx hy hnegative (hzero.symm.trans hnegative)

theorem eq_of_quantity? (h : x.quantity? = y.quantity?)
    (hzero : x.isNegativeZero = y.isNegativeZero) : x = y := by
  cases hx : x.rational? with
  | some q =>
    have hy := h.symm.trans (quantity?_eq_some_rational.2 hx)
    exact eq_of_rational? hx (quantity?_eq_some_rational.1 hy) hzero
  | none =>
    have hy : y.rational? = none := by
      by_contra hne
      obtain ⟨q, hq⟩ := Option.ne_none_iff_exists'.1 hne
      rw [← quantity?_eq_some_rational, ← h, quantity?_eq_some_rational, hx] at hq
      cases hq
    -- neither of them is finite
    cases x with
    | finite => cases hx
    | nan =>
      cases y with
      | finite => cases hy
      | nan => rfl
      | infinity => cases h
    | infinity negative =>
      cases y with
      | finite => cases hy
      | nan => cases h
      | infinity negative' => cases negative <;> cases negative' <;> simp [quantity?] at h ⊢

theorem isZero_of_isNegativeZero (h : x.isNegativeZero = true) : x.isZero = true := by
  rw [eq_zero_of_isNegativeZero h]
  rfl

theorem rational?_eq_zero_iff : x.rational? = some 0 ↔ x.isZero = true := by
  refine ⟨fun h => ?_, rational?_eq_of_isZero⟩
  cases x with
  | nan => cases h
  | infinity => cases h
  | finite negative m e hc =>
    have hpow : (2 : ℚ) ^ e ≠ 0 := zpow_ne_zero e (by decide)
    cases negative <;> simpa [rational?, isZero, hpow] using h

theorem eq_or_isZero_of_quantity? (h : x.quantity? = y.quantity?) :
    x = y ∨ (x.isZero = true ∧ y.isZero = true) := by
  have hzero : x.isZero = true ↔ y.isZero = true := by
    rw [← rational?_eq_zero_iff, ← rational?_eq_zero_iff, ← quantity?_eq_some_rational,
      ← quantity?_eq_some_rational, h]
  cases hx : x.isNegativeZero with
  | true => exact .inr ⟨isZero_of_isNegativeZero hx, hzero.1 (isZero_of_isNegativeZero hx)⟩
  | false =>
    cases hy : y.isNegativeZero with
    | true => exact .inr ⟨hzero.2 (isZero_of_isNegativeZero hy), isZero_of_isNegativeZero hy⟩
    | false => exact .inl (eq_of_quantity? h (hx.trans hy.symm))

end Binary64

namespace Value

variable {a b : Value}

inductive IsNumber : Value → Prop
  | int (n : Int) : IsNumber (int n)
  | float (x : Binary64) (id : Nat) : IsNumber (float x id)

/-- What a value that is an integer or a float amounts to. -/
def quantity? : Value → Option Quantity
  | int n => some (((n : ℚ) : WithTop ℚ) : Quantity)
  | float x _ => x.quantity?
  | _ => Option.none

def NumericallyEqual (a b : Value) : Prop :=
  ∃ q, a.quantity? = some q ∧ b.quantity? = some q

theorem quantity?_int_inj {n m : Int} : (int n).quantity? = (int m).quantity? ↔ n = m := by
  simp [quantity?]

theorem IsNumber.isNaN_iff (h : a.IsNumber) : a.isNaN = true ↔ a.quantity? = Option.none := by
  cases h with
  | int => simp [isNaN, quantity?]
  | float x => exact Binary64.quantity?_eq_none_iff.symm

theorem IsNumber.quantity?_eq_iff (ha : a.IsNumber) (hb : b.IsNumber) :
    a.quantity? = b.quantity? ↔ a.NumericallyEqual b ∨ (a.isNaN = true ∧ b.isNaN = true) := by
  rw [ha.isNaN_iff, hb.isNaN_iff]
  constructor
  · intro h
    cases hq : b.quantity? with
    | none => exact .inr ⟨h.trans hq, rfl⟩
    | some q => exact .inl ⟨q, h.trans hq, hq⟩
  · rintro (⟨q, hqa, hqb⟩ | ⟨hna, hnb⟩)
    · rw [hqa, hqb]
    · rw [hna, hnb]

theorem sameAsInt_iff {x : Binary64} {n : Int} : x.sameAsInt n = true ↔
    x.quantity? = (int n).quantity? ∧ x.isNegativeZero = false := by
  rw [Binary64.sameAsInt, Bool.and_eq_true, beq_iff_eq, Bool.not_eq_true',
    Binary64.toInt?_eq_some_iff_quantity?, quantity?]

theorem IsNumber.same_iff (ha : a.IsNumber) (hb : b.IsNumber) : a.same b = true ↔
    a.quantity? = b.quantity? ∧ a.isNegativeZero = b.isNegativeZero := by
  cases ha with
  | int n =>
    cases hb with
    | int m => simp [same, isNegativeZero, quantity?_int_inj]
    | float y j =>
      rw [same, sameAsInt_iff, eq_comm (a := y.quantity?), eq_comm (a := y.isNegativeZero)]
      rfl
  | float x i =>
    cases hb with
    | int m =>
      rw [same, sameAsInt_iff]
      rfl
    | float y j =>
      rw [same, beq_iff_eq]
      constructor
      · rintro rfl
        exact ⟨rfl, rfl⟩
      · rintro ⟨hquantity, hzero⟩
        exact Binary64.eq_of_quantity? hquantity hzero

theorem isNegativeZero_of_isNaN (h : a.isNaN = true) : a.isNegativeZero = false := by
  cases a with
  | float x id =>
    cases x with
    | nan => rfl
    | infinity => cases h
    | finite => cases h
  | _ => rfl

theorem IsNumber.same_iff_numericallyEqual (ha : a.IsNumber) (hb : b.IsNumber) :
    a.same b = true ↔
      (a.NumericallyEqual b ∧ a.isNegativeZero = b.isNegativeZero) ∨
        (a.isNaN = true ∧ b.isNaN = true) := by
  rw [ha.same_iff hb, ha.quantity?_eq_iff hb, or_and_right]
  refine or_congr_right (and_iff_left_of_imp ?_)
  rintro ⟨hnan, hnan'⟩
  rw [isNegativeZero_of_isNaN hnan, isNegativeZero_of_isNaN hnan']

theorem same_iff_eq (h : ¬ (a.IsNumber ∧ b.IsNumber)) : a.same b = true ↔ a = b := by
  unfold same
  split
  · next n x i => exact absurd ⟨.int n, .float x i⟩ h
  · next x i n => exact absurd ⟨.float x i, .int n⟩ h
  · next x i y j => exact absurd ⟨.float x i, .float y j⟩ h
  · exact beq_iff_eq

end Value

end ObjectModel
