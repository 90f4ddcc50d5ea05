/-
Rounding to whole numbers.

A double is rounded by cutting its mantissa at the binary point.  Computed with doubles instead, in
steps, it is the whole part of the magnitude that is taken away from it, and the rest is compared
with a half.  Both come to the same, since nothing is lost on the way: the whole part is a double,
what remains is a double, and so is the whole part with one added.

In numbers this is the nearest whole number, a half going away from zero.  It is odd and monotone,
and from `2 ^ 52` on, where doubles have no places after the point, it changes nothing.
-/
import Scorecard.Formula.Registry
import Scorecard.Proofs.Number.Order
import Scorecard.Value.Number

namespace Scorecard

/-! ### The whole number -/

/-- The whole number nearest to a rational, a half going away from zero. -/
def halfAway (q : ℚ) : ℤ :=
  if q < 0 then -(⌊|q| + 1 / 2⌋₊ : ℤ) else ⌊|q| + 1 / 2⌋₊

section

variable {p q : ℚ}

theorem halfAway_of_nonneg (h : 0 ≤ q) : halfAway q = ⌊q + 1 / 2⌋₊ := by
  rw [halfAway, if_neg h.not_gt, abs_of_nonneg h]

/-- It is odd. -/
theorem halfAway_neg (q : ℚ) : halfAway (-q) = -halfAway q := by
  unfold halfAway
  rw [abs_neg]
  rcases lt_trichotomy q 0 with h | rfl | h
  · rw [if_pos h, if_neg (neg_nonneg.mpr h.le).not_gt, neg_neg]
  · norm_num
  · rw [if_neg h.not_gt, if_pos (neg_lt_zero.mpr h)]

/-- A magnitude and its whole number lie in one interval of length one. -/
theorem halfAway_bounds (h : 0 ≤ q) :
    0 ≤ halfAway q ∧ (halfAway q : ℚ) ≤ q + 1 / 2 ∧ q + 1 / 2 < halfAway q + 1 := by
  rw [halfAway_of_nonneg h]
  refine ⟨Int.natCast_nonneg _, ?_, ?_⟩
  · exact_mod_cast Nat.floor_le (by linarith : 0 ≤ q + 1 / 2)
  · exact_mod_cast Nat.lt_floor_add_one (q + 1 / 2)

/-- It is not farther away than a half. -/
theorem abs_halfAway_sub_le (q : ℚ) : |(halfAway q : ℚ) - q| ≤ 1 / 2 := by
  rcases le_total 0 q with h | h
  · obtain ⟨-, hle, hlt⟩ := halfAway_bounds h
    rw [abs_le]
    constructor <;> linarith
  · obtain ⟨-, hle, hlt⟩ := halfAway_bounds (neg_nonneg.mpr h)
    rw [halfAway_neg, Int.cast_neg] at hle hlt
    rw [abs_le]
    constructor <;> linarith

/-- A half goes away from zero. -/
theorem abs_lt_abs_halfAway (h : |(halfAway q : ℚ) - q| = 1 / 2) : |q| < |(halfAway q : ℚ)| := by
  rcases le_total 0 q with hq | hq
  · obtain ⟨hnonneg, hle, hlt⟩ := halfAway_bounds hq
    have hcast : (0 : ℚ) ≤ halfAway q := by exact_mod_cast hnonneg
    rw [abs_of_nonneg hq, abs_of_nonneg hcast]
    rcases abs_eq (by norm_num : (0 : ℚ) ≤ 1 / 2) |>.mp h with h | h <;> linarith
  · obtain ⟨hnonneg, hle, hlt⟩ := halfAway_bounds (neg_nonneg.mpr hq)
    rw [halfAway_neg] at hnonneg
    rw [halfAway_neg, Int.cast_neg] at hle hlt
    have hcast : (halfAway q : ℚ) ≤ 0 := by exact_mod_cast Int.neg_nonneg.mp hnonneg
    rw [abs_of_nonpos hq, abs_of_nonpos hcast]
    rcases abs_eq (by norm_num : (0 : ℚ) ≤ 1 / 2) |>.mp h with h | h <;> linarith

private theorem halfAway_mono_of_nonneg (hq : 0 ≤ q) (h : q ≤ p) : halfAway q ≤ halfAway p := by
  rw [halfAway_of_nonneg hq, halfAway_of_nonneg (hq.trans h)]
  have hfloor : ⌊q + 1 / 2⌋₊ ≤ ⌊p + 1 / 2⌋₊ := Nat.floor_le_floor (by linarith)
  exact_mod_cast hfloor

/-- It is monotone. -/
theorem halfAway_mono (h : q ≤ p) : halfAway q ≤ halfAway p := by
  rcases le_total 0 q with hq | hq
  · exact halfAway_mono_of_nonneg hq h
  · have hleft := (halfAway_bounds (neg_nonneg.mpr hq)).1
    rw [halfAway_neg] at hleft
    rcases le_total 0 p with hp | hp
    · have hright := (halfAway_bounds hp).1
      omega
    · have hopposite := halfAway_mono_of_nonneg (neg_nonneg.mpr hp) (neg_le_neg h)
      rw [halfAway_neg, halfAway_neg] at hopposite
      omega

/-- Below a half it is zero. -/
theorem halfAway_eq_zero (h : |q| < 1 / 2) : halfAway q = 0 := by
  have hfloor : ⌊|q| + 1 / 2⌋₊ = 0 := Nat.floor_eq_zero.mpr (by linarith)
  rw [halfAway, hfloor]
  simp

/-- From a half on it has the sign of the number. -/
theorem halfAway_pos (h : 1 / 2 ≤ q) : 0 < halfAway q := by
  obtain ⟨-, -, hlt⟩ := halfAway_bounds (by linarith : 0 ≤ q)
  have hcast : (0 : ℚ) < halfAway q := by linarith
  exact_mod_cast hcast

end

namespace Binary64

variable {x r : Float} {negative : Bool} {m : ℕ} {e : ℤ} {q : ℚ} {n : ℤ}

/-! ### Whole doubles -/

/-- A whole number that is representable has a double, and a ratio of that value is rounded to it. -/
theorem amount?_nearest {num : ℕ} (h : Representable num) (negative : Bool) :
    amount? (nearest negative num 1) = some (.rational (if negative then -(num : ℚ) else num)) := by
  unfold nearest
  by_cases hzero : num = 0
  · rw [if_pos hzero, hzero]
    have hcanonical : Canonical 0 leastExponent := ⟨by norm_num, le_rfl, by decide, .inr rfl⟩
    rw [amount?_of_decode (decode_encode hcanonical)]
    simp
  · rw [if_neg hzero]
    obtain ⟨other, m, e, hcanonical, hvalue⟩ := h
    have hmagnitude : (m : ℚ) * 2 ^ e = num := by
      rw [← abs_rational other, hvalue, Nat.abs_cast]
    have hpos : 0 < m := by
      refine Nat.pos_of_ne_zero fun hm => hzero ?_
      rw [hm, Nat.cast_zero, zero_mul] at hmagnitude
      exact_mod_cast hmagnitude.symm
    have hround : roundRatio num 1 = (m, e) := by
      rw [roundRatio_eq (Nat.pos_of_ne_zero hzero) one_pos, Nat.cast_one, div_one, ← hmagnitude,
        roundRational_value hcanonical hpos]
    rw [hround]
    simp only
    rw [if_neg hcanonical.greatest.not_gt, amount?_of_decode (decode_encode hcanonical), rational,
      ← hmagnitude]
    cases negative <;> simp

theorem ofInt?_of_representable {num : ℕ} (h : Representable num) :
    ∃ x, ofInt? num = some x ∧ amount? x = some (.rational num) := by
  have hamount : amount? (nearest false num 1) = some (.rational num) := by
    simpa using amount?_nearest h false
  have hfinite : (nearest false num 1).isInf = false := by
    rw [Bool.eq_false_iff, ne_eq, isInf_eq_true_iff]
    rintro ⟨negative, hinfinite⟩
    rw [amount?, hinfinite] at hamount
    cases hamount
  refine ⟨nearest false num 1, ?_, hamount⟩
  have hsign : decide ((num : ℤ) < 0) = false := by simp
  rw [ofInt?, hsign, Int.natAbs_natCast]
  simp [hfinite]

theorem representable_natCast {num : ℕ} (h : num < 2 ^ 53) : Representable num := by
  simpa [rational] using representable_of_fits false h (e := 0) (by decide) (by decide)

/-! ### Cutting the mantissa -/

/-- The whole part of the magnitude of a double. -/
def wholePart (mantissa : ℕ) (exponent : ℤ) : ℕ :=
  if 0 ≤ exponent then mantissa * 2 ^ exponent.toNat else mantissa / 2 ^ (-exponent).toNat

theorem wholePart_eq (m : ℕ) (e : ℤ) : wholePart m e = ⌊(m : ℚ) * 2 ^ e⌋₊ := by
  unfold wholePart
  by_cases he : 0 ≤ e
  · obtain ⟨j, rfl⟩ := Int.eq_ofNat_of_zero_le he
    rw [if_pos he, Int.toNat_natCast, zpow_natCast, ← Nat.floor_natCast (R := ℚ) (m * 2 ^ j)]
    push_cast
    rfl
  · obtain ⟨j, rfl⟩ : ∃ j : ℕ, e = -j := ⟨(-e).toNat, by omega⟩
    rw [if_neg he, neg_neg, Int.toNat_natCast, zpow_neg, zpow_natCast, ← div_eq_mul_inv,
      ← Nat.floor_div_eq_div (K := ℚ) m (2 ^ j)]
    push_cast
    rfl

/-- A double with places after the point is below `2 ^ 52`. -/
theorem wholePart_lt (h : Canonical m e) (he : e < 0) : wholePart m e < 2 ^ 52 := by
  obtain ⟨j, rfl⟩ : ∃ j : ℕ, e = -(j + 1 : ℕ) := ⟨(-e - 1).toNat, by omega⟩
  have hfits := h.fits
  rw [wholePart, if_neg he.not_ge, neg_neg, Int.toNat_natCast, Nat.div_lt_iff_lt_mul (by positivity)]
  have hpow : 2 ^ 1 ≤ 2 ^ (j + 1) := Nat.pow_le_pow_right two_pos (by omega)
  omega

/-- What is cut off has the value that it has in the double. -/
theorem sub_wholePart (m : ℕ) {e : ℤ} (he : e < 0) :
    (m : ℚ) * 2 ^ e - wholePart m e = (m % 2 ^ (-e).toNat : ℕ) * 2 ^ e := by
  obtain ⟨j, rfl⟩ : ∃ j : ℕ, e = -j := ⟨(-e).toNat, by omega⟩
  have hsplit : (m : ℚ) = 2 ^ j * (m / 2 ^ j : ℕ) + (m % 2 ^ j : ℕ) := by
    exact_mod_cast (Nat.div_add_mod m (2 ^ j)).symm
  rw [wholePart, if_neg he.not_ge, neg_neg, Int.toNat_natCast, zpow_neg, zpow_natCast]
  nth_rewrite 1 [hsplit]
  field_simp
  ring

/-- A rest in units is at least a half where twice of it is at least a unit. -/
theorem half_le_iff (rest : ℕ) (he : e < 0) : 1 / 2 ≤ (rest : ℚ) * 2 ^ e ↔ 2 ^ (-e).toNat ≤ 2 * rest := by
  obtain ⟨j, rfl⟩ : ∃ j : ℕ, e = -j := ⟨(-e).toNat, by omega⟩
  have hpower : (0 : ℚ) < 2 ^ j := by positivity
  rw [neg_neg, Int.toNat_natCast, zpow_neg, zpow_natCast, ← div_eq_mul_inv, div_le_div_iff₀ two_pos hpower,
    one_mul, mul_comm (rest : ℚ)]
  exact_mod_cast Iff.rfl

/-- The whole number nearest to the magnitude of a double: the whole part, and one more from a half
on. -/
def nearestMagnitude (m : ℕ) (e : ℤ) : ℕ :=
  if 1 / 2 ≤ (m : ℚ) * 2 ^ e - wholePart m e then wholePart m e + 1 else wholePart m e

theorem halfAway_magnitude (m : ℕ) (e : ℤ) : halfAway ((m : ℚ) * 2 ^ e) = nearestMagnitude m e := by
  have hvalue : (0 : ℚ) ≤ m * 2 ^ e := by positivity
  have hlower := Nat.floor_le hvalue
  have hupper := Nat.lt_floor_add_one ((m : ℚ) * 2 ^ e)
  rw [halfAway_of_nonneg hvalue, nearestMagnitude, wholePart_eq, Nat.cast_inj, Nat.floor_eq_iff (by linarith)]
  split
  · push_cast
    constructor <;> linarith
  · constructor <;> linarith

theorem halfAway_rational (negative : Bool) (m : ℕ) (e : ℤ) : (halfAway (rational negative m e) : ℚ) =
    if negative then -(nearestMagnitude m e : ℚ) else nearestMagnitude m e := by
  cases negative with
  | false =>
      have hvalue : rational false m e = m * 2 ^ e := by simp [rational]
      rw [hvalue, halfAway_magnitude]
      simp
  | true =>
      have hvalue : rational true m e = -(m * 2 ^ e) := by simp [rational]
      rw [hvalue, halfAway_neg, halfAway_magnitude]
      simp

/-- Without places after the point the whole part is all there is. -/
theorem wholePart_of_nonneg (m : ℕ) (he : 0 ≤ e) : (wholePart m e : ℚ) = m * 2 ^ e := by
  obtain ⟨j, rfl⟩ := Int.eq_ofNat_of_zero_le he
  rw [wholePart, if_pos he, Int.toNat_natCast, zpow_natCast]
  push_cast
  rfl

theorem nearestMagnitude_of_nonneg (m : ℕ) (he : 0 ≤ e) : nearestMagnitude m e = wholePart m e := by
  rw [nearestMagnitude, wholePart_of_nonneg m he, sub_self, if_neg (by norm_num)]

theorem nearestMagnitude_le (m : ℕ) (e : ℤ) : nearestMagnitude m e ≤ wholePart m e + 1 := by
  unfold nearestMagnitude
  split <;> omega

theorem representable_wholePart (h : Canonical m e) : Representable (wholePart m e) := by
  rcases lt_or_ge e 0 with he | he
  · have hlt := wholePart_lt h he
    exact representable_natCast (by omega)
  · exact ⟨false, m, e, h, by rw [wholePart_of_nonneg m he]; simp [rational]⟩

theorem representable_nearestMagnitude (h : Canonical m e) : Representable (nearestMagnitude m e) := by
  rcases lt_or_ge e 0 with he | he
  · have hlt := wholePart_lt h he
    have hle := nearestMagnitude_le m e
    exact representable_natCast (by omega)
  · rw [nearestMagnitude_of_nonneg m he]
    exact representable_wholePart h

/-! ### Rounding -/

/-- The units decide as the rest does, and a double without places after the point is its own. -/
theorem roundHalfAway_of_decode (h : decode x = .finite negative m e) :
    roundHalfAway x = if 0 ≤ e then x else ofMagnitude negative (nearestMagnitude m e) := by
  unfold roundHalfAway roundWith
  rw [h]
  simp only
  by_cases he : 0 ≤ e
  · rw [if_pos he, if_pos he]
  · have hhalf : 1 / 2 ≤ (m : ℚ) * 2 ^ e - wholePart m e ↔
        2 ^ (-e).toNat ≤ 2 * (m % 2 ^ (-e).toNat) := by
      rw [sub_wholePart m (not_le.mp he), half_le_iff _ (not_le.mp he)]
    rw [if_neg he, if_neg he, nearestMagnitude]
    simp only [hhalf]
    rw [wholePart, if_neg he]

/-- **The amount of a rounded double is the whole number nearest to its amount.** -/
theorem amount?_roundHalfAway (h : amount? x = some (.rational q)) :
    amount? (roundHalfAway x) = some (.rational (halfAway q)) := by
  obtain ⟨negative, m, e, hparts, rfl⟩ := exists_of_amount h
  rw [roundHalfAway_of_decode hparts, halfAway_rational]
  by_cases he : 0 ≤ e
  · rw [if_pos he, h, nearestMagnitude_of_nonneg m he, wholePart_of_nonneg m he, rational]
    cases negative <;> simp
  · rw [if_neg he, ofMagnitude, amount?_nearest (representable_nearestMagnitude (canonical_of_decode hparts))]
    by_cases hzero : nearestMagnitude m e = 0
    · simp [hzero]
    · simp [hzero]

/-- Less than a half becomes positive zero. -/
theorem roundHalfAway_eq_zero (h : amount? x = some (.rational q)) (hq : |q| < 1 / 2) : roundHalfAway x = 0 := by
  obtain ⟨negative, m, e, hparts, rfl⟩ := exists_of_amount h
  have hcanonical := canonical_of_decode hparts
  rw [abs_rational] at hq
  have he : ¬ 0 ≤ e := by
    intro he
    rw [← wholePart_of_nonneg m he] at hq
    have hwhole : wholePart m e = 0 := by
      have hlt : ((wholePart m e : ℕ) : ℚ) < 1 := by linarith
      have hlt : wholePart m e < 1 := by exact_mod_cast hlt
      omega
    have hm : m = 0 := by simpa [wholePart, he] using hwhole
    have hleast := (hm ▸ hcanonical).exponent_of_zero
    unfold leastExponent at hleast
    omega
  have hmagnitude : nearestMagnitude m e = 0 := by
    have hvalue : (0 : ℚ) ≤ m * 2 ^ e := by positivity
    have hzero := halfAway_eq_zero (abs_lt.mpr ⟨by linarith, hq⟩)
    rw [halfAway_magnitude] at hzero
    exact_mod_cast hzero
  rw [roundHalfAway_of_decode hparts, if_neg he, hmagnitude]
  cases negative <;> rfl

/-- From `2 ^ 52` on nothing changes. -/
theorem roundHalfAway_of_large (h : amount? x = some (.rational q)) (hq : 2 ^ 52 ≤ |q|) : roundHalfAway x = x := by
  obtain ⟨negative, m, e, hparts, rfl⟩ := exists_of_amount h
  rw [abs_rational] at hq
  have he : 0 ≤ e := by
    by_contra he
    have hlt := wholePart_lt (canonical_of_decode hparts) (not_le.mp he)
    rw [wholePart_eq, Nat.floor_lt (by positivity)] at hlt
    push_cast at hlt
    linarith
  rw [roundHalfAway_of_decode hparts, if_pos he]

end Binary64

end Scorecard
