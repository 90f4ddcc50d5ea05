/-
Where doubles end.

The largest double is `2 ^ 1024 - 2 ^ 971`, and a step further would be `2 ^ 1024`.  What lies
between rounds to one of them, and from halfway on, since a tie goes to the even mantissa, it is
the one that is no double.  So rounding gives an infinity exactly from `2 ^ 1024 - 2 ^ 970` on,
and from there on an integer has no double.
-/
import Scorecard.Proofs.Number.Unsigned

namespace Scorecard.Binary64

/-- The least magnitude that is rounded to an infinity. -/
def overflowBound : ℚ := 2 ^ 1024 - 2 ^ 970

/-- A power of two as a multiple of half the step between the largest doubles. -/
private theorem two_zpow_eq (n : ℤ) (k : ℕ) (h : n = (k + 970 : ℕ)) : (2 : ℚ) ^ n = 2 ^ k * 2 ^ 970 := by
  rw [h, zpow_natCast, pow_add]

theorem overflowBound_eq : overflowBound = (2 ^ 54 - 1) * 2 ^ 970 := by
  rw [overflowBound, sub_mul, one_mul, ← pow_add]

/-! ### Rounding up -/

/-- Below an even number, the last half of a step is rounded up to it. -/
theorem nearestWhole_eq_succ_iff {q : ℚ} {n : ℕ} (hodd : n % 2 = 1) (hq : 0 ≤ q) (hupper : q < n + 1) :
    nearestWhole q = n + 1 ↔ n + 1 / 2 ≤ q := by
  rcases lt_or_ge q n with hbelow | hlower
  · have hle := nearestWhole_le hq hbelow
    constructor
    · intro h
      omega
    · intro h
      linarith
  · have hfloor : ⌊q⌋₊ = n := (Nat.floor_eq_iff hq).mpr ⟨hlower, hupper⟩
    have hcondition : (1 < 2 * (q - n) ∨ 1 = 2 * (q - n) ∧ n % 2 = 1) ↔ n + 1 / 2 ≤ q := by
      rw [and_iff_left hodd, ← le_iff_lt_or_eq]
      constructor <;> intro h <;> linarith
    unfold nearestWhole
    rw [hfloor, if_congr hcondition rfl rfl]
    split <;> simp_all

/-- **What is rounded has too large an exponent exactly from the bound on.** -/
theorem greatestExponent_lt_iff {q : ℚ} (hq : 0 < q) :
    greatestExponent < (roundRational q).2 ↔ overflowBound ≤ q := by
  have hstep : (0 : ℚ) < 2 ^ 970 := by positivity
  have hlower : (2 : ℚ) ^ Int.log 2 q ≤ q := by
    exact_mod_cast Int.zpow_log_le_self one_lt_two hq
  have hupper : q < 2 ^ (Int.log 2 q + 1) := by
    exact_mod_cast Int.lt_zpow_succ_log_self one_lt_two q
  rcases lt_trichotomy (Int.log 2 q) 1023 with hlog | hlog | hlog
  · have hsmall : q < 2 ^ (1023 : ℤ) := hupper.trans_le (zpow_le_zpow_right₀ one_le_two (by omega))
    have hexponent : (roundRational q).2 ≤ 971 := by
      unfold roundRational rationalExponent leastExponent
      split <;> simp only <;> omega
    refine iff_of_false (not_lt.mpr hexponent) (not_le.mpr (hsmall.trans_le ?_))
    rw [overflowBound_eq, two_zpow_eq 1023 53 rfl]
    exact mul_le_mul_of_nonneg_right (by norm_num) hstep.le
  · have hexponent : rationalExponent q = 971 := by
      unfold rationalExponent leastExponent
      omega
    have htop : q / 2 ^ (971 : ℤ) < (2 ^ 53 - 1 : ℕ) + 1 := by
      rw [div_lt_iff₀ (by positivity), two_zpow_eq 971 1 rfl]
      rw [hlog, two_zpow_eq (1023 + 1) 54 rfl] at hupper
      have hwhole : ((2 ^ 53 - 1 : ℕ) + 1 : ℚ) * 2 ^ 1 = 2 ^ 54 := by norm_num
      rwa [← mul_assoc, hwhole]
    have hround : nearestWhole (q / 2 ^ (971 : ℤ)) = 2 ^ 53 ↔ overflowBound ≤ q := by
      rw [show 2 ^ 53 = (2 ^ 53 - 1) + 1 by norm_num,
        nearestWhole_eq_succ_iff (by norm_num) (by positivity) htop, le_div_iff₀ (by positivity),
        overflowBound_eq, two_zpow_eq 971 1 rfl]
      have hhalf : ((2 ^ 53 - 1 : ℕ) + 1 / 2 : ℚ) * 2 ^ 1 = 2 ^ 54 - 1 := by norm_num
      rw [← mul_assoc, hhalf]
    unfold roundRational greatestExponent
    rw [hexponent, ← hround]
    split <;> simp_all
  · have hlarge : (2 : ℚ) ^ (1024 : ℤ) ≤ q := (zpow_le_zpow_right₀ one_le_two (by omega)).trans hlower
    have hexponent : 971 < (roundRational q).2 := by
      unfold roundRational rationalExponent
      split <;> simp only <;> omega
    refine iff_of_true hexponent (le_trans ?_ hlarge)
    rw [overflowBound_eq, two_zpow_eq 1024 54 rfl]
    exact mul_le_mul_of_nonneg_right (by norm_num) hstep.le

/-! ### Infinities -/

theorem isInf_eq_true_iff {x : Float} : x.isInf = true ↔ ∃ negative, decode x = .infinite negative := by
  show x.toModel.unpack.isInf = true ↔ _
  rw [decode_eq_ofUnpacked]
  cases x.toModel.unpack with
  | infinity sign => exact iff_of_true rfl ⟨_, rfl⟩
  | notANumber => exact iff_of_false nofun nofun
  | zero sign => exact iff_of_false nofun nofun
  | finite sign mantissa exponent hpos => exact iff_of_false nofun nofun

/-- Nothing but the bits of an infinity is one, up to there. -/
theorem isInf_withSign {negative : Bool} {bits : ℕ} (h : bits ≤ infinityBits) :
    (withSign negative bits).isInf = true ↔ bits = infinityBits := by
  rw [isInf_eq_true_iff, decode_withSign negative h]
  by_cases htop : bits = infinityBits
  · rw [if_pos htop]
    exact iff_of_true ⟨negative, rfl⟩ htop
  · rw [if_neg htop]
    refine iff_of_false ?_ htop
    split <;> simp

/-- **A ratio is rounded to an infinity exactly from the bound on.** -/
theorem isInf_nearest (negative : Bool) {num den : ℕ} (hden : 0 < den) :
    (nearest negative num den).isInf = true ↔ overflowBound ≤ num / den := by
  have hbound : 0 < overflowBound := by
    rw [overflowBound_eq]
    positivity
  unfold nearest
  split
  · rename_i hzero
    rw [hzero, Nat.cast_zero, zero_div, encode, isInf_withSign (by decide)]
    exact iff_of_false (by decide) (not_le.mpr hbound)
  · rename_i hnum
    have hq : (0 : ℚ) < num / den := by positivity
    have hmantissa := fst_roundRatio_lt num hden
    rw [← greatestExponent_lt_iff hq, ← roundRatio_eq (Nat.pos_of_ne_zero hnum) hden]
    split
    rename_i mantissa exponent hround
    rw [hround] at hmantissa ⊢
    split
    · rename_i hlarge
      rw [encode, isInf_withSign le_rfl]
      exact iff_of_true rfl hlarge
    · rename_i hle
      have hbits := magnitudeBits_lt hmantissa (not_lt.mp hle)
      rw [encode, isInf_withSign hbits.le]
      exact iff_of_false hbits.ne hle

/-- **An integer has no double exactly from the bound on.** -/
theorem ofInt?_eq_none_iff {n : ℤ} : ofInt? n = none ↔ overflowBound ≤ |n| := by
  have habs : ((n.natAbs : ℚ) / (1 : ℕ)) = |n| := by
    rw [Nat.cast_one, div_one, Nat.cast_natAbs]
  rw [← habs, ← isInf_nearest (decide (n < 0)) Nat.one_pos, ofInt?]
  simp

end Scorecard.Binary64
