import ObjectModel.Number.Shortest
import ObjectModel.Proofs.Number.Rounding

/-!
The decimal that is chosen for a binary64 number is read as that number: it was tried before it was
chosen, or it is exact, and to drop zeros at its end leaves its value.
-/

namespace ObjectModel

namespace Decimal

def value (d : Decimal) : ℚ :=
  d.coefficient * 10 ^ d.exponent

variable {d d' : Decimal} {negative : Bool}

theorem value_eq_zero_iff : d.value = 0 ↔ d.coefficient = 0 := by
  have hpow : (10 : ℚ) ^ d.exponent ≠ 0 := zpow_ne_zero _ (by decide)
  simp [value, hpow]

theorem digitCount_pos (n : Nat) : 0 < digitCount n :=
  Nat.length_toDigits_pos

theorem lt_pow_digitCount (n : Nat) : n < 10 ^ digitCount n :=
  (Nat.length_toDigits_le_iff (by decide) (digitCount_pos n)).1 (Nat.le_refl _)

theorem pow_digitCount_sub_one_le {n : Nat} (hn : n ≠ 0) : 10 ^ (digitCount n - 1) ≤ n := by
  by_cases hone : digitCount n - 1 = 0
  · rw [hone]
    omega
  · -- with fewer digits it would be too small to need the last one
    have hiff := Nat.length_toDigits_le_iff (n := n) (by decide : 1 < 10) (Nat.pos_of_ne_zero hone)
    refine Nat.le_of_not_lt fun hlt => ?_
    have hle : digitCount n ≤ digitCount n - 1 := hiff.2 hlt
    omega

theorem digitCount_add_exponent (hd : d.coefficient ≠ 0) :
    (digitCount d.coefficient : Int) + d.exponent = Int.log 10 d.value + 1 := by
  have hten : (10 : ℚ) ≠ 0 := by decide
  have hpos := digitCount_pos d.coefficient
  have hlow := pow_digitCount_sub_one_le hd
  have hhigh := lt_pow_digitCount d.coefficient
  have hlog : Int.log 10 d.value = digitCount d.coefficient - 1 + d.exponent := by
    apply log_eq_of_bounds (by decide)
    · rw [Nat.cast_ofNat, zpow_add₀ hten, value]
      gcongr
      rw [← Nat.cast_pred hpos, zpow_natCast]
      exact_mod_cast hlow
    · rw [Nat.cast_ofNat, show (digitCount d.coefficient : Int) - 1 + d.exponent + 1 =
        digitCount d.coefficient + d.exponent by omega, zpow_add₀ hten, value]
      gcongr
      rw [zpow_natCast]
      exact_mod_cast hhigh
  omega

theorem fraction_eq_value (d : Decimal) :
    (scaleUp 10 d.coefficient d.exponent : ℚ) / scaleUp 10 1 (-d.exponent) = d.value := by
  rw [scaleUp_div_scaleUp (by decide), Nat.cast_one, div_one, value, Nat.cast_ofNat]

theorem toBinary64_congr (h : d.value = d'.value) :
    d.toBinary64 negative = d'.toBinary64 negative := by
  have hzero : d.coefficient = 0 ↔ d'.coefficient = 0 := by
    rw [← value_eq_zero_iff, ← value_eq_zero_iff, h]
  unfold toBinary64
  by_cases hd : d.coefficient = 0
  · simp only [hd, hzero.1 hd, true_or, if_true]
  · have hd' : d'.coefficient ≠ 0 := fun h => hd (hzero.2 h)
    have hround := Binary64.round_congr negative
      (scaleUp_pos (by decide) Nat.one_pos (-d.exponent))
      (scaleUp_pos (by decide) Nat.one_pos (-d'.exponent))
      ((fraction_eq_value d).trans (h.trans (fraction_eq_value d').symm))
    simp only [hd, hd', digitCount_add_exponent hd, digitCount_add_exponent hd', h, hround]

theorem toBinary64_negative {sign : Bool} {m : Nat} {e : Int} {hc : Binary64.Canonical m e}
    (h : d.toBinary64 negative = .finite sign m e hc) (negative' : Bool) :
    d.toBinary64 negative' = .finite negative' m e hc := by
  unfold toBinary64 at h ⊢
  dsimp only at h ⊢
  split at h
  · next hzero =>
    rw [if_pos hzero]
    cases h
    rfl
  · next hzero =>
    rw [if_neg hzero]
    split at h
    · cases h
    · next hlarge =>
      rw [if_neg hlarge]
      exact Binary64.round_negative h negative'

theorem value_stripZeros (d : Decimal) : d.stripZeros.value = d.value := by
  fun_induction stripZeros d with
  | case1 d hzero ih =>
    rw [ih]
    obtain ⟨c, e⟩ := d
    obtain ⟨k, rfl⟩ := Nat.dvd_of_mod_eq_zero hzero.2
    rw [value, value, Nat.mul_div_cancel_left k (by decide), zpow_add_one₀ (by decide)]
    push_cast
    ring
  | case2 d hzero => rfl

end Decimal

namespace Binary64

variable {m : Nat} {e : Int}

theorem value_exactDecimal (m : Nat) (e : Int) : (exactDecimal m e).value = m * 2 ^ e := by
  rw [Decimal.value, exactDecimal]
  simp only [scaleUp, Nat.pow_eq, Nat.cast_mul, Nat.cast_pow, Nat.cast_ofNat]
  cases Int.le_total 0 e with
  | inl h =>
    obtain ⟨n, rfl⟩ := Int.eq_ofNat_of_zero_le h
    simp
  | inr h =>
    obtain ⟨n, hn⟩ := Int.eq_ofNat_of_zero_le (by omega : 0 ≤ -e)
    obtain rfl : e = -n := by omega
    have hfive : (5 : ℚ) ^ n ≠ 0 := by positivity
    have hten : (10 : ℚ) ^ (-n : Int) = (5 ^ n)⁻¹ * 2 ^ (-n : Int) := by
      rw [show (10 : ℚ) = 5 * 2 by norm_num, mul_zpow, zpow_neg, zpow_natCast]
    rw [min_eq_left h, hten, ← mul_assoc]
    simp [hfive]

theorem two_pow_bounds : 2 ^ 1074 ≤ 10 ^ 324 ∧ 2 * leastNormal * 2 ^ 971 < 10 ^ 309 := by
  decide +kernel

theorem log_value_bounds (hc : Canonical m e) (hm : m ≠ 0) :
    -324 ≤ Int.log 10 (m * 2 ^ e : ℚ) ∧ Int.log 10 (m * 2 ^ e : ℚ) < 309 := by
  obtain ⟨hlt, hmin, hmax, -⟩ := hc
  have hone : (1 : ℚ) ≤ m := by exact_mod_cast Nat.pos_of_ne_zero hm
  have hpos : (0 : ℚ) < m * 2 ^ e := by positivity
  have htwo : (1 : ℚ) ≤ 2 := by decide
  constructor
  · rw [← Int.zpow_le_iff_le_log (by decide) hpos]
    calc
      ((10 : Nat) : ℚ) ^ (-324 : Int) ≤ 1 * 2 ^ (-1074 : Int) := by
        rw [zpow_neg, zpow_neg, one_mul]
        exact inv_anti₀ (by positivity) (by exact_mod_cast two_pow_bounds.1)
      _ ≤ m * 2 ^ e := by gcongr
  · rw [← Int.lt_zpow_iff_log_lt (by decide) hpos]
    calc
      (m * 2 ^ e : ℚ) ≤ (2 * leastNormal : Nat) * 2 ^ (971 : Int) := by gcongr
      _ < ((10 : Nat) : ℚ) ^ (309 : Int) := by exact_mod_cast two_pow_bounds.2

theorem toBinary64_of_value {d : Decimal} (hc : Canonical m e) (hm : m ≠ 0)
    (h : d.value = m * 2 ^ e) (negative : Bool) :
    d.toBinary64 negative = .finite negative m e hc := by
  have hd : d.coefficient ≠ 0 := by
    rw [Ne, ← Decimal.value_eq_zero_iff, h]
    have hpow : (2 : ℚ) ^ e ≠ 0 := zpow_ne_zero e (by decide)
    simp [hm, hpow]
  obtain ⟨hlow, hhigh⟩ := log_value_bounds hc hm
  unfold Decimal.toBinary64
  dsimp only
  rw [Decimal.digitCount_add_exponent hd, h, if_neg (by omega), if_neg (by omega)]
  refine round_of_div_eq hc hm (scaleUp_pos (by decide) Nat.one_pos _) ?_
  rw [Decimal.fraction_eq_value, h]

theorem toBinary64_of_readsBack {d : Decimal} (hc : Canonical m e)
    (h : nearestOfLength?.readsBack m e d = true) (negative : Bool) :
    d.toBinary64 negative = .finite negative m e hc := by
  unfold nearestOfLength?.readsBack at h
  split at h
  · next sign m' e' hc' hread =>
    simp only [Bool.and_eq_true, beq_iff_eq] at h
    obtain ⟨rfl, rfl⟩ := h
    exact Decimal.toBinary64_negative hread negative
  · cases h

theorem toBinary64_of_nearestOfLength? {d : Decimal} {length : Nat} (hc : Canonical m e)
    (h : nearestOfLength? m e length = some d) (negative : Bool) :
    d.toBinary64 negative = .finite negative m e hc :=
  toBinary64_of_readsBack hc (List.find?_some h) negative

theorem toBinary64_shortest (hc : Canonical m e) (hm : m ≠ 0) (negative : Bool) :
    (shortest m e).toBinary64 negative = .finite negative m e hc := by
  rw [shortest, Decimal.toBinary64_congr (Decimal.value_stripZeros _)]
  cases hfound : (List.range 17).findSome? fun i => nearestOfLength? m e (i + 1) with
  | none => exact toBinary64_of_value hc hm (value_exactDecimal m e) negative
  | some d =>
    obtain ⟨i, -, hd⟩ := List.exists_of_findSome?_eq_some hfound
    exact toBinary64_of_nearestOfLength? hc hd negative

end Binary64

end ObjectModel
