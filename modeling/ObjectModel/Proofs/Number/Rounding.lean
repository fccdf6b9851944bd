import Mathlib.Data.Int.Log
import Mathlib.Data.Rat.Floor
import Mathlib.Tactic.FieldSimp
import Mathlib.Tactic.NormNum
import ObjectModel.Proofs.Value.Sameness

/-!
Rounding to the nearest binary64 number. What a fraction is rounded to depends on its value alone,
and a fraction that is the value of a binary64 number is rounded to that number.
-/

namespace ObjectModel

theorem log_eq_of_bounds {base : Nat} (hbase : 1 < base) {q : ℚ} {e : Int}
    (hle : (base : ℚ) ^ e ≤ q) (hlt : q < (base : ℚ) ^ (e + 1)) : Int.log base q = e := by
  have hpos : 0 < q := lt_of_lt_of_le (zpow_pos (by exact_mod_cast (by omega : 0 < base)) e) hle
  have hlow := (Int.zpow_le_iff_le_log hbase hpos).1 hle
  have hhigh := (Int.lt_zpow_iff_log_lt hbase hpos).1 hlt
  omega

theorem Nat.two_pow_log2_bounds {n : Nat} (hn : n ≠ 0) :
    (2 : ℚ) ^ (n.log2 : Int) ≤ n ∧ (n : ℚ) < 2 ^ (n.log2 + 1 : Int) := by
  constructor
  · rw [zpow_natCast]
    exact_mod_cast Nat.log2_self_le hn
  · rw [← Nat.cast_succ, zpow_natCast]
    exact_mod_cast Nat.lt_log2_self

namespace Binary64

variable {negative : Bool} {num den num' den' m : Nat} {e : Int}

theorem cast_leastNormal : (leastNormal : ℚ) = 2 ^ (52 : Int) := by
  norm_num [leastNormal]

theorem rescale_div (num den : Nat) (e : Int) :
    ((rescale num den e).1 : ℚ) / (rescale num den e).2 = num / den / 2 ^ e := by
  have h := scaleUp_div_scaleUp (by decide : 0 < 2) num den (-e)
  rw [Int.neg_neg, Nat.cast_ofNat, zpow_neg, ← div_eq_mul_inv] at h
  exact h

theorem rescale_snd_pos (num : Nat) (hden : 0 < den) (e : Int) : 0 < (rescale num den e).2 :=
  scaleUp_pos (by decide) hden e

theorem exponentFor_eq_log (hnum : num ≠ 0) (hden : den ≠ 0) :
    exponentFor num den = max (Int.log 2 (num / den : ℚ) - 52) (-1074) := by
  obtain ⟨hnumle, hnumlt⟩ := Nat.two_pow_log2_bounds hnum
  obtain ⟨hdenle, hdenlt⟩ := Nat.two_pow_log2_bounds hden
  have hden₀ : (0 : ℚ) < den := by exact_mod_cast Nat.pos_of_ne_zero hden
  have htwo : (2 : ℚ) ≠ 0 := by decide
  -- the quotient is within a factor of two of the quotient of the two powers
  have hlow : (2 : ℚ) ^ ((num.log2 : Int) - den.log2 - 1) < num / den := by
    rw [lt_div_iff₀ hden₀]
    refine lt_of_lt_of_le (mul_lt_mul_of_pos_left hdenlt (by positivity)) ?_
    rw [← zpow_add₀ htwo, show (num.log2 : Int) - den.log2 - 1 + (den.log2 + 1) = num.log2 by omega]
    exact hnumle
  have hhigh : (num / den : ℚ) < 2 ^ ((num.log2 : Int) - den.log2 + 1) := by
    rw [div_lt_iff₀ hden₀]
    refine lt_of_lt_of_le hnumlt ?_
    refine le_trans (le_of_eq ?_) (mul_le_mul_of_nonneg_left hdenle (by positivity))
    rw [← zpow_add₀ htwo]
    congr 1
    omega
  have htest : (rescale num den (num.log2 - den.log2 - 52)).1 <
      leastNormal * (rescale num den (num.log2 - den.log2 - 52)).2 ↔
      (num / den : ℚ) < 2 ^ ((num.log2 : Int) - den.log2) := by
    have hpos := rescale_snd_pos num (Nat.pos_of_ne_zero hden) (num.log2 - den.log2 - 52)
    rw [← @Nat.cast_lt ℚ, Nat.cast_mul, ← div_lt_iff₀ (by exact_mod_cast hpos), rescale_div,
      cast_leastNormal, div_lt_iff₀ (by positivity), ← zpow_add₀ htwo]
    congr! 2
    omega
  unfold exponentFor
  dsimp only
  congr 1
  split
  · next h =>
    rw [log_eq_of_bounds (by decide) hlow.le (by simpa using htest.1 h)]
    omega
  · next h =>
    rw [log_eq_of_bounds (by decide) (le_of_not_gt fun hlt => h (htest.2 hlt)) hhigh]

theorem roundHalfEven_mul_right (num den : Nat) {k : Nat} (hk : 0 < k) :
    roundHalfEven (num * k) (den * k) = roundHalfEven num den := by
  have hlt : 2 * (num % den * k) < den * k ↔ 2 * (num % den) < den := by
    rw [← Nat.mul_assoc, Nat.mul_lt_mul_right hk]
  have hgt : den * k < 2 * (num % den * k) ↔ den < 2 * (num % den) := by
    rw [← Nat.mul_assoc, Nat.mul_lt_mul_right hk]
  simp only [roundHalfEven, Nat.mul_div_mul_right _ _ hk, Nat.mul_mod_mul_right, hlt, hgt]

theorem roundHalfEven_congr (hden : 0 < den) (hden' : 0 < den') (h : num * den' = num' * den) :
    roundHalfEven num den = roundHalfEven num' den' := by
  rw [← roundHalfEven_mul_right num den hden', ← roundHalfEven_mul_right num' den' hden, h,
    Nat.mul_comm den]

theorem roundHalfEven_of_eq_mul (hden : 0 < den) (h : num = m * den) :
    roundHalfEven num den = m := by
  subst h
  simp [roundHalfEven, Nat.mul_div_cancel _ hden, hden]

theorem mul_eq_mul_of_div_eq (hden : 0 < den) (hden' : 0 < den')
    (h : (num / den : ℚ) = num' / den') : num * den' = num' * den := by
  rw [div_eq_div_iff (by exact_mod_cast hden.ne') (by exact_mod_cast hden'.ne')] at h
  exact_mod_cast h

theorem round_congr (negative : Bool) (hden : 0 < den) (hden' : 0 < den')
    (h : (num / den : ℚ) = num' / den') :
    round negative num den = round negative num' den' := by
  have hzero : num = 0 ↔ num' = 0 := by
    have hmul := mul_eq_mul_of_div_eq hden hden' h
    constructor
    · rintro rfl
      simpa [hden.ne'] using hmul.symm
    · rintro rfl
      simpa [hden'.ne'] using hmul
  unfold round
  by_cases hnum : num = 0
  · rw [if_pos hnum, if_pos (hzero.1 hnum)]
  · have hnum' : num' ≠ 0 := fun h => hnum (hzero.2 h)
    rw [if_neg hnum, if_neg hnum']
    have hexponent : exponentFor num den = exponentFor num' den' := by
      rw [exponentFor_eq_log hnum hden.ne', exponentFor_eq_log hnum' hden'.ne', h]
    dsimp only
    rw [hexponent]
    congr 1
    refine roundHalfEven_congr (rescale_snd_pos _ hden _) (rescale_snd_pos _ hden' _) ?_
    refine mul_eq_mul_of_div_eq (rescale_snd_pos _ hden _) (rescale_snd_pos _ hden' _) ?_
    rw [rescale_div, rescale_div, h]

theorem exponentFor_of_canonical (hc : Canonical m e) (hm : m ≠ 0) (hnum : num ≠ 0) (hden : den ≠ 0)
    (h : (num / den : ℚ) = m * 2 ^ e) : exponentFor num den = e := by
  obtain ⟨hlt, hmin, -, hnormal⟩ := hc
  have htwo : (2 : ℚ) ≠ 0 := by decide
  have hpos : (0 : ℚ) < m * 2 ^ e := by
    have : (0 : ℚ) < m := by exact_mod_cast Nat.pos_of_ne_zero hm
    positivity
  rw [exponentFor_eq_log hnum hden, h]
  by_cases hle : leastNormal ≤ m
  · have hlog : Int.log 2 (m * 2 ^ e : ℚ) = 52 + e := by
      apply log_eq_of_bounds (by decide)
      · rw [Nat.cast_ofNat, zpow_add₀ htwo, ← cast_leastNormal]
        gcongr
      · rw [Nat.cast_ofNat, show (52 + e + 1 : Int) = 1 + (52 + e) by omega, zpow_add₀ htwo,
          zpow_add₀ htwo, ← cast_leastNormal, ← mul_assoc]
        gcongr
        rw [zpow_one]
        exact_mod_cast hlt
    rw [hlog]
    omega
  · obtain rfl : e = -1074 := hnormal.resolve_left hle
    have hlog : Int.log 2 (m * 2 ^ (-1074 : Int) : ℚ) < 52 + -1074 := by
      rw [← Int.lt_zpow_iff_log_lt (by decide) hpos, Nat.cast_ofNat, zpow_add₀ htwo,
        ← cast_leastNormal]
      gcongr
      exact_mod_cast Nat.lt_of_not_le hle
    omega

theorem round_of_div_eq (hc : Canonical m e) (hm : m ≠ 0) (hden : 0 < den)
    (h : (num / den : ℚ) = m * 2 ^ e) : round negative num den = .finite negative m e hc := by
  have hnum : num ≠ 0 := by
    rintro rfl
    have : (2 : ℚ) ^ e ≠ 0 := zpow_ne_zero e (by decide)
    simp_all
  have hdiv : ((rescale num den e).1 : ℚ) / (rescale num den e).2 = (m : Nat) / (1 : Nat) := by
    rw [rescale_div, h, Nat.cast_one, div_one, mul_div_assoc,
      div_self (zpow_ne_zero e (by decide)), mul_one]
  have hrounded : roundHalfEven (rescale num den e).1 (rescale num den e).2 = m := by
    have hpos := rescale_snd_pos num hden e
    refine roundHalfEven_of_eq_mul hpos ?_
    simpa using mul_eq_mul_of_div_eq hpos Nat.one_pos hdiv
  unfold round
  rw [if_neg hnum, exponentFor_of_canonical hc hm hnum hden.ne' h]
  dsimp only
  rw [hrounded, ofRounded, if_neg (Nat.ne_of_lt hc.1), ofRounded.go, dif_pos hc]

theorem round_negative {sign : Bool} {hc : Canonical m e}
    (h : round negative num den = .finite sign m e hc) (negative' : Bool) :
    round negative' num den = .finite negative' m e hc := by
  have hgo {mantissa : Nat} {exponent : Int}
      (h : ofRounded.go negative mantissa exponent = .finite sign m e hc) :
      ofRounded.go negative' mantissa exponent = .finite negative' m e hc := by
    unfold ofRounded.go at h ⊢
    split at h
    · next hcanonical =>
      cases h
      rw [dif_pos hcanonical]
    · cases h
  unfold round at h ⊢
  by_cases hnum : num = 0
  · rw [if_pos hnum] at h ⊢
    cases h
    rfl
  · rw [if_neg hnum] at h ⊢
    unfold ofRounded at h ⊢
    dsimp only at h ⊢
    split at h
    · next heq =>
      rw [if_pos heq]
      exact hgo h
    · next hne =>
      rw [if_neg hne]
      exact hgo h

end Binary64

end ObjectModel
