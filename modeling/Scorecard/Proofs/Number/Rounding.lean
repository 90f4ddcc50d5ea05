/-
Rounding depends on the value alone.

The program rounds a ratio of two whole numbers with shifts, whole divisions and two
binary logarithms.  The same ratio can be given in many ways: `5/10`, `50/100` and
`1/2` are one number, and a decimal that is read is seldom written with the
coefficient that printed it.  So the rounding is restated over the rationals, as a
logarithm, a quotient and the nearest whole number, and the program's rounding is
proved to be that.

From there three facts follow that reading numbers rests on.  The value of a double
rounds to the parts of that double.  What rounds to a double that is not too large is
below `2 ^ 1024`, and what rounds to one other than zero is not below `2 ^ -1076`.
-/
import Scorecard.Proofs.Number.Bits
import Mathlib.Data.Int.Log
import Mathlib.Algebra.Order.Field.Power
import Mathlib.Algebra.Order.Floor.Semifield
import Mathlib.Data.Rat.Floor
import Mathlib.Tactic.Linarith
import Mathlib.Tactic.FieldSimp

namespace Scorecard.Binary64

/-! ### The nearest whole number -/

/-- The whole number nearest to a rational that is not negative, a tie going to the
even one. -/
def nearestWhole (q : ℚ) : ℕ :=
  if 1 < 2 * (q - ⌊q⌋₊) ∨ (1 = 2 * (q - ⌊q⌋₊) ∧ ⌊q⌋₊ % 2 = 1) then ⌊q⌋₊ + 1 else ⌊q⌋₊

theorem nearestWhole_natCast (n : ℕ) : nearestWhole n = n := by
  unfold nearestWhole
  rw [Nat.floor_natCast, if_neg (by norm_num)]

/-- Less than a half is rounded to zero. -/
theorem nearestWhole_eq_zero {q : ℚ} (h : 2 * q < 1) : nearestWhole q = 0 := by
  have hfloor : ⌊q⌋₊ = 0 := Nat.floor_eq_zero.mpr (by linarith)
  unfold nearestWhole
  rw [hfloor, if_neg]
  push_cast
  rintro (hlt | ⟨-, hodd⟩)
  · linarith
  · omega

/-- The whole quotient and the rest decide as the fraction of the quotient does. -/
private theorem nearestWhole_div (top bottom : ℕ) (hbottom : 0 < bottom) :
    (if bottom < 2 * (top % bottom) ∨ (bottom = 2 * (top % bottom) ∧ top / bottom % 2 = 1) then
      top / bottom + 1 else top / bottom) = nearestWhole (top / bottom) := by
  have hpos : (0 : ℚ) < bottom := by exact_mod_cast hbottom
  have hsplit : (top : ℚ) = bottom * (top / bottom : ℕ) + (top % bottom : ℕ) := by
    exact_mod_cast (Nat.div_add_mod top bottom).symm
  have hrest : (top : ℚ) / bottom - (top / bottom : ℕ) = (top % bottom : ℕ) / bottom := by
    rw [eq_div_iff hpos.ne', sub_mul, div_mul_cancel₀ _ hpos.ne']
    linarith
  have hlt : (1 : ℚ) < 2 * ((top % bottom : ℕ) / bottom) ↔ bottom < 2 * (top % bottom) := by
    rw [← mul_div_assoc, lt_div_iff₀ hpos, one_mul]
    exact_mod_cast Iff.rfl
  have heq : (1 : ℚ) = 2 * ((top % bottom : ℕ) / bottom) ↔ bottom = 2 * (top % bottom) := by
    rw [← mul_div_assoc, eq_div_iff hpos.ne', one_mul]
    exact_mod_cast Iff.rfl
  unfold nearestWhole
  rw [Nat.floor_div_eq_div, hrest]
  simp only [hlt, heq]

theorem roundAt_eq {num den : ℕ} (hden : 0 < den) (exponent : ℤ) :
    roundAt num den exponent = nearestWhole (num / den / 2 ^ exponent) := by
  unfold roundAt
  simp only
  by_cases h : 0 ≤ exponent
  · rw [if_pos h, if_pos h, nearestWhole_div _ _ (by positivity)]
    obtain ⟨n, rfl⟩ := Int.eq_ofNat_of_zero_le h
    rw [Int.toNat_natCast, zpow_natCast, div_div]
    push_cast
    rfl
  · rw [if_neg h, if_neg h, nearestWhole_div _ _ hden]
    obtain ⟨n, rfl⟩ : ∃ n : ℕ, exponent = -n := ⟨(-exponent).toNat, by omega⟩
    rw [neg_neg, Int.toNat_natCast, zpow_neg, zpow_natCast, div_inv_eq_mul, div_mul_eq_mul_div]
    push_cast
    rfl

/-! ### The exponent -/

/-- The exponent at which a rational has a mantissa of 53 bits, or the least one. -/
def rationalExponent (q : ℚ) : ℤ :=
  max leastExponent (Int.log 2 q - 52)

private theorem log_ratio_le {num den : ℕ} (hnum : 0 < num) (hden : 0 < den) :
    Int.log 2 ((num : ℚ) / den) ≤ (num.log2 : ℤ) - den.log2 := by
  have hq : (0 : ℚ) < num / den := by positivity
  have hlt : (num : ℚ) < 2 ^ (num.log2 + 1) := by exact_mod_cast Nat.lt_log2_self
  have hle : (2 : ℚ) ^ den.log2 ≤ den := by exact_mod_cast Nat.log2_self_le hden.ne'
  have hupper : (num : ℚ) / den < (2 : ℕ) ^ ((num.log2 : ℤ) - den.log2 + 1) := by
    rw [show (num.log2 : ℤ) - den.log2 + 1 = ((num.log2 + 1 : ℕ) : ℤ) - (den.log2 : ℤ) by
      push_cast; ring]
    push_cast
    rw [zpow_sub₀ two_ne_zero, zpow_natCast]
    calc (num : ℚ) / den ≤ num / 2 ^ den.log2 := by gcongr
      _ < 2 ^ (num.log2 + 1) / 2 ^ den.log2 := by gcongr
      _ = _ := by norm_cast
  have := (Int.lt_zpow_iff_log_lt one_lt_two hq).mp hupper
  omega

private theorem le_log_ratio {num den : ℕ} (hnum : 0 < num) (hden : 0 < den) :
    (num.log2 : ℤ) - den.log2 - 1 ≤ Int.log 2 ((num : ℚ) / den) := by
  have hq : (0 : ℚ) < num / den := by positivity
  have hlt : (den : ℚ) < 2 ^ (den.log2 + 1) := by exact_mod_cast Nat.lt_log2_self
  have hle : (2 : ℚ) ^ num.log2 ≤ num := by exact_mod_cast Nat.log2_self_le hnum.ne'
  refine (Int.zpow_le_iff_le_log one_lt_two hq).mp ?_
  rw [show (num.log2 : ℤ) - den.log2 - 1 = (num.log2 : ℤ) - ((den.log2 + 1 : ℕ) : ℤ) by
    push_cast; ring]
  push_cast
  rw [zpow_sub₀ two_ne_zero, zpow_natCast]
  calc (2 : ℚ) ^ num.log2 / 2 ^ (den.log2 + 1 : ℤ) = 2 ^ num.log2 / 2 ^ (den.log2 + 1) := by
        norm_cast
    _ ≤ num / 2 ^ (den.log2 + 1) := by gcongr
    _ ≤ num / den := by gcongr

/-- The comparison that settles the open binary place is one of rationals. -/
private theorem below_iff {num den : ℕ} (hden : 0 < den) (scaled : ℤ) :
    (if 0 ≤ scaled then num < den * 2 ^ scaled.toNat else num * 2 ^ (-scaled).toNat < den) ↔
      (num : ℚ) / den < (2 : ℕ) ^ scaled := by
  have hpos : (0 : ℚ) < den := by exact_mod_cast hden
  by_cases h : 0 ≤ scaled
  · obtain ⟨n, rfl⟩ := Int.eq_ofNat_of_zero_le h
    rw [if_pos h, Int.toNat_natCast, zpow_natCast, div_lt_iff₀ hpos, mul_comm]
    exact_mod_cast Iff.rfl
  · obtain ⟨n, rfl⟩ : ∃ n : ℕ, scaled = -n := ⟨(-scaled).toNat, by omega⟩
    rw [if_neg h, neg_neg, Int.toNat_natCast, zpow_neg, zpow_natCast, div_lt_iff₀ hpos,
      inv_mul_eq_div, lt_div_iff₀ (by positivity)]
    exact_mod_cast Iff.rfl

theorem exponentOf_eq {num den : ℕ} (hnum : 0 < num) (hden : 0 < den) :
    exponentOf num den = rationalExponent (num / den) := by
  have hq : (0 : ℚ) < num / den := by positivity
  have hupper := log_ratio_le hnum hden
  have hlower := le_log_ratio hnum hden
  unfold exponentOf rationalExponent
  simp only [sub_add_cancel, below_iff hden, Int.lt_zpow_iff_log_lt one_lt_two hq]
  congr 1
  by_cases h : Int.log 2 ((num : ℚ) / den) < (num.log2 : ℤ) - den.log2
  · rw [if_pos h]
    omega
  · rw [if_neg h]
    omega

/-! ### The parts of the nearest double -/

/-- The mantissa and exponent of the double nearest to a rational above zero, before the
check that the exponent is not too large. -/
def roundRational (q : ℚ) : ℕ × ℤ :=
  if nearestWhole (q / 2 ^ rationalExponent q) = 2 ^ 53 then (2 ^ 52, rationalExponent q + 1)
  else (nearestWhole (q / 2 ^ rationalExponent q), rationalExponent q)

/-- **A ratio is rounded by its value alone.** -/
theorem roundRatio_eq {num den : ℕ} (hnum : 0 < num) (hden : 0 < den) :
    roundRatio num den = roundRational (num / den) := by
  unfold roundRatio roundRational
  simp only [exponentOf_eq hnum hden, roundAt_eq hden]

theorem roundRatio_zero (den : ℕ) : (roundRatio 0 den).1 = 0 := by
  have hzero : roundAt 0 den (exponentOf 0 den) = 0 := by
    unfold roundAt
    simp only [ite_self, Nat.zero_mul, Nat.zero_div, Nat.zero_mod]
    rw [if_neg]
    omega
  unfold roundRatio
  simp only [hzero]
  rfl

/-- The value of a double rounds to its parts. -/
theorem roundRational_value {mantissa : ℕ} {exponent : ℤ} (h : Canonical mantissa exponent)
    (hpos : 0 < mantissa) : roundRational (mantissa * 2 ^ exponent) = (mantissa, exponent) := by
  have hq : (0 : ℚ) < mantissa * 2 ^ exponent := by positivity
  have hlog : Int.log 2 ((mantissa : ℚ) * 2 ^ exponent) < exponent + 53 := by
    refine (Int.lt_zpow_iff_log_lt one_lt_two hq).mp ?_
    have hfits : (mantissa : ℚ) < 2 ^ (53 : ℤ) := by exact_mod_cast h.fits
    push_cast
    rw [zpow_add₀ two_ne_zero, mul_comm]
    gcongr
  have hexponent : rationalExponent (mantissa * 2 ^ exponent) = exponent := by
    unfold rationalExponent
    have hleast := h.least
    rcases h.full with hfull | rfl
    · have : exponent + 52 ≤ Int.log 2 ((mantissa : ℚ) * 2 ^ exponent) := by
        refine (Int.zpow_le_iff_le_log one_lt_two hq).mp ?_
        have : (2 : ℚ) ^ (52 : ℤ) ≤ mantissa := by exact_mod_cast hfull
        push_cast
        rw [zpow_add₀ two_ne_zero, mul_comm]
        gcongr
      omega
    · omega
  have hwhole : nearestWhole ((mantissa : ℚ) * 2 ^ exponent / 2 ^ exponent) = mantissa := by
    rw [mul_div_cancel_right₀ _ (by positivity), nearestWhole_natCast]
  unfold roundRational
  rw [hexponent, hwhole, if_neg (by have := h.fits; omega)]

/-- What rounds to a double that is not too large lies below the first that is. -/
theorem lt_of_roundRational {q : ℚ} (hq : 0 < q) {mantissa : ℕ} {exponent : ℤ}
    (h : roundRational q = (mantissa, exponent)) (hgreatest : exponent ≤ greatestExponent) :
    q < 2 ^ (1024 : ℤ) := by
  have hexponent : rationalExponent q ≤ exponent := by
    unfold roundRational at h
    split at h <;> cases h <;> omega
  have hlog : Int.log 2 q < 1024 := by
    unfold rationalExponent at hexponent
    unfold greatestExponent at hgreatest
    omega
  have hlt := (Int.lt_zpow_iff_log_lt one_lt_two hq).mpr hlog
  rwa [Nat.cast_ofNat] at hlt

/-- What rounds to a double other than zero is not far below the least of them. -/
theorem le_of_roundRational {q : ℚ} (hq : 0 < q) {mantissa : ℕ} {exponent : ℤ}
    (h : roundRational q = (mantissa, exponent)) (hpos : 0 < mantissa) :
    2 ^ (-1076 : ℤ) ≤ q := by
  by_contra hlt
  rw [not_le] at hlt
  have hlog : Int.log 2 q < -1076 := (Int.lt_zpow_iff_log_lt one_lt_two hq).mp (by exact_mod_cast hlt)
  have hexponent : rationalExponent q = -1074 := by
    unfold rationalExponent leastExponent
    omega
  have hunit : (2 : ℚ) ^ (-1074 : ℤ) = 2 * 2 * 2 ^ (-1076 : ℤ) := by
    rw [show (-1074 : ℤ) = 1 + 1 + -1076 by rfl, zpow_add₀ two_ne_zero, zpow_add₀ two_ne_zero,
      zpow_one]
  have hsmall : 2 * (q / 2 ^ (-1074 : ℤ)) < 1 := by
    have hbound : (0 : ℚ) < 2 ^ (-1076 : ℤ) := by positivity
    rw [hunit, ← mul_div_assoc, div_lt_one (by linarith)]
    linarith
  have hzero : nearestWhole (q / 2 ^ (-1074 : ℤ)) = 0 :=
    nearestWhole_eq_zero hsmall
  unfold roundRational at h
  rw [hexponent, hzero, if_neg (by norm_num)] at h
  cases h
  omega

end Scorecard.Binary64
