import Mathlib.Algebra.Order.Field.Power
import Mathlib.Data.Nat.Cast.Field
import Mathlib.Data.Rat.Cast.Order
import Mathlib.Tactic.Linarith
import Mathlib.Tactic.Positivity
import ObjectModel.Value

/-!
Values are the same exactly when one representative stands for both, so sameness is an equivalence.
That needs every rational number to be the value of one float at most, apart from the two zeros.
-/

namespace ObjectModel

theorem scaleUp_div_scaleUp {base : Nat} (hbase : 0 < base) (n d : Nat) (e : Int) :
    (scaleUp base n e : ℚ) / scaleUp base d (-e) = n / d * base ^ e := by
  have hbase : (base : ℚ) ≠ 0 := Nat.cast_ne_zero.2 hbase.ne'
  simp only [scaleUp, Nat.cast_mul, Nat.pow_eq, Nat.cast_pow]
  cases Int.le_total 0 e with
  | inl h =>
    obtain ⟨n, rfl⟩ := Int.eq_ofNat_of_zero_le h
    simp [div_mul_eq_mul_div]
  | inr h =>
    obtain ⟨n, hn⟩ := Int.eq_ofNat_of_zero_le (by omega : 0 ≤ -e)
    obtain rfl : e = -n := by omega
    simp [div_eq_mul_inv, mul_comm, mul_left_comm]

theorem scaleUp_pos {base n : Nat} (hbase : 0 < base) (hn : 0 < n) (e : Int) :
    0 < scaleUp base n e :=
  Nat.mul_pos hn (Nat.pow_pos hbase)

namespace Binary64

def rational? : Binary64 → Option ℚ
  | finite negative m e _ => some ((if negative then -1 else 1) * (m * 2 ^ e))
  | _ => none

theorem abs_signed (negative : Bool) {q : ℚ} (h : 0 ≤ q) :
    |(if negative then -1 else 1) * q| = q := by
  cases negative <;> simp [abs_of_nonneg h]

theorem magnitude_div (m : Nat) (e : Int) :
    ((magnitude m e).1 : ℚ) / (magnitude m e).2 = m * 2 ^ e := by
  have h := scaleUp_div_scaleUp (by decide : 0 < 2) m 1 e
  rw [Nat.cast_one, div_one, Nat.cast_ofNat] at h
  exact h

theorem magnitude_snd_pos (m : Nat) (e : Int) : 0 < (magnitude m e).2 :=
  scaleUp_pos (by decide) Nat.one_pos (-e)

theorem toInt?_eq_some_iff {x : Binary64} {n : Int} :
    x.toInt? = some n ↔ x.rational? = some (n : ℚ) := by
  cases x with
  | nan => simp [toInt?, rational?]
  | infinity => simp [toInt?, rational?]
  | finite negative m e hc =>
    simp only [toInt?, rational?, Option.some.injEq, ← magnitude_div]
    have hpos := magnitude_snd_pos m e
    generalize (magnitude m e).1 = num at *
    generalize (magnitude m e).2 = den at *
    have hden : (den : ℚ) ≠ 0 := by exact_mod_cast hpos.ne'
    constructor
    · intro h
      split at h
      · next hdvd =>
        rw [← Nat.cast_div (Nat.dvd_of_mod_eq_zero hdvd) hden]
        simp only [Option.some.injEq] at h
        rw [← h]
        cases negative
        · simp only [Bool.false_eq_true, if_false, one_mul, Int.cast_natCast]
        · simp only [if_true, neg_one_mul, Int.cast_neg, Int.cast_natCast]
      · cases h
    · intro h
      obtain ⟨k, rfl⟩ : ∃ k : Nat, num = k * den := by
        have habs := congrArg abs h
        rw [abs_signed negative (by positivity), div_eq_iff hden, ← Int.cast_abs,
          Int.abs_eq_natAbs, Int.cast_natCast] at habs
        exact ⟨n.natAbs, by exact_mod_cast habs⟩
      rw [Nat.cast_mul, mul_div_cancel_right₀ _ hden] at h
      rw [if_pos (Nat.mul_mod_left _ _), Nat.mul_div_cancel _ hpos]
      cases negative
      · simp only [Bool.false_eq_true, if_false, one_mul] at h ⊢
        exact congrArg some (by exact_mod_cast h)
      · simp only [if_true, neg_one_mul] at h ⊢
        exact congrArg some (by exact_mod_cast h)

theorem Canonical.unique_of_le {m m' : Nat} {e e' : Int} (hm : Canonical m e)
    (hm' : Canonical m' e') (hle : e ≤ e') (h : (m : ℚ) * 2 ^ e = m' * 2 ^ e') :
    m = m' ∧ e = e' := by
  obtain ⟨hlt, hmin, -, -⟩ := hm
  obtain ⟨-, hmin', -, hnormal⟩ := hm'
  have hm : m = m' * 2 ^ (e' - e).toNat := by
    have hsplit : (2 : ℚ) ^ e' = 2 ^ (e' - e).toNat * 2 ^ e := by
      rw [← zpow_natCast, ← zpow_add₀ (by decide), Int.toNat_of_nonneg (by omega)]
      congr 1
      omega
    rw [hsplit, ← mul_assoc] at h
    have := mul_right_cancel₀ (zpow_ne_zero e (by decide : (2 : ℚ) ≠ 0)) h
    exact_mod_cast this
  cases Int.le_iff_lt_or_eq.1 hle with
  | inl hlt' =>
    -- a greater exponent leaves a normal mantissa no room below the 54th bit
    have hpow : 2 ^ 1 ≤ 2 ^ (e' - e).toNat := Nat.pow_le_pow_right (by decide) (by omega)
    have : m' * 2 ^ 1 ≤ m := hm ▸ Nat.mul_le_mul_left m' hpow
    omega
  | inr heq =>
    subst heq
    simp only [Int.sub_self, Int.toNat_zero, Nat.pow_zero, Nat.mul_one] at hm
    exact ⟨hm, rfl⟩

theorem Canonical.unique {m m' : Nat} {e e' : Int} (hm : Canonical m e) (hm' : Canonical m' e')
    (h : (m : ℚ) * 2 ^ e = m' * 2 ^ e') : m = m' ∧ e = e' := by
  cases Int.le_total e e' with
  | inl hle => exact hm.unique_of_le hm' hle h
  | inr hle =>
    obtain ⟨hmantissa, hexponent⟩ := hm'.unique_of_le hm hle h.symm
    exact ⟨hmantissa.symm, hexponent.symm⟩

theorem rational?_inj {x y : Binary64} {q : ℚ} (hx : x.rational? = some q)
    (hy : y.rational? = some q) (hx0 : x.isNegativeZero = false) (hy0 : y.isNegativeZero = false) :
    x = y := by
  cases x with
  | nan => cases hx
  | infinity => cases hx
  | finite negative m e hc =>
    cases y with
    | nan => cases hy
    | infinity => cases hy
    | finite negative' m' e' hc' =>
      simp only [rational?, Option.some.injEq] at hx hy
      have habs := congrArg abs (hx.trans hy.symm)
      rw [abs_signed _ (by positivity), abs_signed _ (by positivity)] at habs
      obtain ⟨rfl, rfl⟩ := hc.unique hc' habs
      have hsign : negative = negative' := by
        by_cases hzero : m = 0
        · subst hzero
          cases negative <;> cases negative' <;> simp [isNegativeZero] at hx0 hy0 ⊢
        · have hpos : (0 : ℚ) < m * 2 ^ e := by positivity
          cases negative <;> cases negative' <;> simp at hx hy <;> first | rfl | linarith
      subst hsign
      rfl

theorem sameAsInt_inj {x y : Binary64} {n : Int}
    (hx : x.sameAsInt n = true) (hy : y.sameAsInt n = true) : x = y := by
  simp only [sameAsInt, Bool.and_eq_true, beq_iff_eq, Bool.not_eq_true'] at hx hy
  exact rational?_inj (toInt?_eq_some_iff.1 hx.1)
    (toInt?_eq_some_iff.1 hy.1) hx.2 hy.2

theorem rational?_eq_of_isZero {x : Binary64} (h : x.isZero = true) : x.rational? = some 0 := by
  cases x with
  | nan => cases h
  | infinity => cases h
  | finite negative m e hc =>
    simp only [isZero, beq_iff_eq] at h
    simp [rational?, h]

end Binary64

namespace Value

def representative : Value → Value
  | float x _ =>
    match x.toInt? with
    | some n => if x.isNegativeZero then .float x 0 else .int n
    | Option.none => .float x 0
  | v => v

theorem representative_float (x : Binary64) (id : Nat) :
    (∃ n, x.sameAsInt n = true ∧ (float x id).representative = int n) ∨
      ((∀ n, x.sameAsInt n = false) ∧ (float x id).representative = float x 0) := by
  simp only [representative, Binary64.sameAsInt]
  cases x.toInt? with
  | none => simp
  | some n => cases x.isNegativeZero <;> simp

theorem representative_float_eq_int {x : Binary64} {id : Nat} {n : Int} :
    (float x id).representative = int n ↔ x.sameAsInt n = true := by
  obtain ⟨k, hk, h⟩ | ⟨hx, h⟩ := representative_float x id
  · rw [h, int.injEq]
    constructor
    · rintro rfl
      exact hk
    · intro hn
      simp only [Binary64.sameAsInt, Bool.and_eq_true, beq_iff_eq] at hk hn
      exact Option.some.inj (hk.1.symm.trans hn.1)
  · simp [h, hx]

theorem representative_float_inj {x y : Binary64} {i j : Nat} :
    (float x i).representative = (float y j).representative ↔ x = y := by
  constructor
  · intro h
    obtain ⟨n, hx, hrx⟩ | ⟨-, hrx⟩ := representative_float x i
    · rw [hrx, eq_comm, representative_float_eq_int] at h
      exact Binary64.sameAsInt_inj hx h
    · obtain ⟨n, -, hry⟩ | ⟨-, hry⟩ := representative_float y j
      · rw [hrx, hry] at h
        cases h
      · rw [hrx, hry, float.injEq] at h
        exact h.1
  · rintro rfl
    rfl

theorem representative_float_ne {x : Binary64} {id : Nat} {v : Value} (hint : ∀ n, v ≠ int n)
    (hfloat : ∀ y j, v ≠ float y j) : (float x id).representative ≠ v := by
  obtain ⟨n, -, h⟩ | ⟨-, h⟩ := representative_float x id
  · rw [h]
    exact (hint n).symm
  · rw [h]
    exact (hfloat x 0).symm

theorem same_iff {a b : Value} : a.same b = true ↔ a.representative = b.representative := by
  cases a with
  | float x i =>
    cases b with
    | float y j =>
      rw [representative_float_inj]
      exact beq_iff_eq
    | int n => exact representative_float_eq_int.symm
    | _ => simp [same, representative_float_ne, representative.eq_2]
  | int n =>
    cases b with
    | float y j => exact representative_float_eq_int.symm.trans eq_comm
    | _ => simp [same, representative]
  | _ =>
    cases b with
    | float y j =>
      simp [same, eq_comm (b := (float y j).representative), representative_float_ne,
        representative.eq_2]
    | _ => simp [same, representative]

theorem same_refl (a : Value) : a.same a = true :=
  same_iff.2 rfl

theorem same_symm {a b : Value} (h : a.same b = true) : b.same a = true :=
  same_iff.2 (same_iff.1 h).symm

theorem same_trans {a b c : Value} (hab : a.same b = true) (hbc : b.same c = true) :
    a.same c = true :=
  same_iff.2 ((same_iff.1 hab).trans (same_iff.1 hbc))

end Value

end ObjectModel
