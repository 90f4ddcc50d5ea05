/-
The order of doubles.

Doubles are compared part by part, the sign first, then the exponents and then the mantissas.  That
is the order of their amounts: the mantissas fill their bits, so of two exponents the greater one
belongs to the greater number.
-/
import Scorecard.Proofs.Number.Exact

namespace Scorecard.Binary64

open Float.Model Float.Model.UnpackedFloat

variable {x y : Float} {m n : ℕ} {e k : ℤ} {p q : ℚ}

/-- Of two canonical pairs the one with the greater exponent is the greater number. -/
theorem lt_of_exponent_lt (hm : Canonical m e) (hn : Canonical n k) (hlt : e < k) :
    (m : ℚ) * 2 ^ e < n * 2 ^ k := by
  have hfull : 2 ^ 52 ≤ n := hn.full.resolve_right fun hleast => by
    have := hm.least
    omega
  obtain ⟨j, rfl⟩ : ∃ j : ℕ, k = e + 1 + j := ⟨(k - (e + 1)).toNat, by omega⟩
  have hpower : (0 : ℚ) < 2 ^ e := by positivity
  have hfits : (m : ℚ) < 2 ^ 53 := by exact_mod_cast hm.fits
  have hstep : (2 : ℚ) ^ 53 ≤ n * 2 ^ (1 + j) := by
    have hpow : 2 ^ 1 ≤ 2 ^ (1 + j) := Nat.pow_le_pow_right two_pos (by omega)
    exact_mod_cast Nat.mul_le_mul hfull hpow
  calc (m : ℚ) * 2 ^ e < 2 ^ 53 * 2 ^ e := by gcongr
    _ ≤ n * 2 ^ (1 + j) * 2 ^ e := by gcongr
    _ = n * 2 ^ (e + 1 + j) := by
      rw [add_assoc, zpow_add₀ two_ne_zero, mul_assoc, mul_comm ((2 : ℚ) ^ (1 + j))]
      norm_cast

/-- Exponents first, mantissas second: this is how the magnitudes compare. -/
theorem compare_canonical (hm : Canonical m e) (hn : Canonical n k) :
    (compare e k).then (compare m n) = compare ((m : ℚ) * 2 ^ e) (n * 2 ^ k) := by
  rcases lt_trichotomy e k with hlt | rfl | hgt
  · rw [compare_lt_iff_lt.mpr hlt, compare_lt_iff_lt.mpr (lt_of_exponent_lt hm hn hlt)]
    rfl
  · have hpower : (0 : ℚ) < 2 ^ e := by positivity
    rw [compare_eq_iff_eq.mpr rfl]
    show compare m n = _
    rcases lt_trichotomy m n with hlt | rfl | hgt
    · rw [compare_lt_iff_lt.mpr hlt, compare_lt_iff_lt.mpr]
      gcongr
    · rw [compare_eq_iff_eq.mpr rfl, compare_eq_iff_eq.mpr rfl]
    · rw [compare_gt_iff_gt.mpr hgt, compare_gt_iff_gt.mpr]
      show (n : ℚ) * _ < m * _
      gcongr
  · rw [compare_gt_iff_gt.mpr hgt, compare_gt_iff_gt.mpr (lt_of_exponent_lt hn hm hgt)]
    rfl

private theorem compare_neg_neg (a b : ℚ) : compare (-a) (-b) = (compare a b).swap := by
  rcases lt_trichotomy a b with h | rfl | h
  · rw [compare_lt_iff_lt.mpr h, compare_gt_iff_gt.mpr (neg_lt_neg h)]
    rfl
  · rw [compare_eq_iff_eq.mpr rfl, compare_eq_iff_eq.mpr rfl]
    rfl
  · rw [compare_gt_iff_gt.mpr h, compare_lt_iff_lt.mpr (neg_lt_neg h)]
    rfl

/-- **Doubles compare as their amounts do.** -/
theorem compare_of_amounts (hx : amount? x = some (.rational p)) (hy : amount? y = some (.rational q)) :
    x.toModel.unpack.compare y.toModel.unpack = some (compare p q) := by
  have hpositive : ∀ (m : ℕ) (e : ℤ), rational false m e = m * 2 ^ e := by simp [rational]
  have hnegative : ∀ (m : ℕ) (e : ℤ), rational true m e = -(m * 2 ^ e) := by simp [rational]
  rcases unpack_of_amount hx with ⟨s, hu, rfl⟩ | ⟨s, m, e, hpos, hu, hm, rfl⟩
  · rcases unpack_of_amount hy with ⟨t, hv, rfl⟩ | ⟨t, n, k, hpos', hv, hn, rfl⟩
    · rw [hu, hv, compare_eq_iff_eq.mpr rfl]
      rfl
    · have hvalue : (0 : ℚ) < n * 2 ^ k := by positivity
      rw [hu, hv]
      cases t with
      | positive =>
          rw [isNegative, hpositive, compare_lt_iff_lt.mpr hvalue]
          rfl
      | negative =>
          rw [isNegative, hnegative, compare_gt_iff_gt.mpr (neg_lt_zero.mpr hvalue)]
          rfl
  · have hvalue : (0 : ℚ) < m * 2 ^ e := by positivity
    rcases unpack_of_amount hy with ⟨t, hv, rfl⟩ | ⟨t, n, k, hpos', hv, hn, rfl⟩
    · rw [hu, hv]
      cases s with
      | positive =>
          rw [isNegative, hpositive, compare_gt_iff_gt.mpr hvalue]
          rfl
      | negative =>
          rw [isNegative, hnegative, compare_lt_iff_lt.mpr (neg_lt_zero.mpr hvalue)]
          rfl
    · have hvalue' : (0 : ℚ) < n * 2 ^ k := by positivity
      rw [hu, hv]
      cases s with
      | positive =>
          cases t with
          | positive =>
              rw [isNegative, hpositive, hpositive, ← compare_canonical hm hn]
              rfl
          | negative =>
              rw [isNegative, isNegative, hpositive, hnegative,
                compare_gt_iff_gt.mpr ((neg_lt_zero.mpr hvalue').trans hvalue)]
              rfl
      | negative =>
          cases t with
          | positive =>
              rw [isNegative, isNegative, hpositive, hnegative,
                compare_lt_iff_lt.mpr ((neg_lt_zero.mpr hvalue).trans hvalue')]
              rfl
          | negative =>
              rw [isNegative, hnegative, hnegative, compare_neg_neg, ← compare_canonical hm hn]
              rfl

theorem le_iff_of_amounts (hx : amount? x = some (.rational p)) (hy : amount? y = some (.rational q)) :
    x ≤ y ↔ p ≤ q := by
  have hle : x ≤ y ↔ (compare p q).isLE = true := by
    show decide (x.toModel.unpack.le y.toModel.unpack = true) = true ↔ _
    rw [decide_eq_true_iff, UnpackedFloat.le, compare_of_amounts hx hy]
    rfl
  exact hle.trans (Ordering.ne_gt_iff_isLE.symm.trans compare_le_iff_le)

end Scorecard.Binary64
