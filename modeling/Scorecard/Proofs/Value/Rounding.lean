/-
Rounding in steps of doubles.

The rounding of the library looks at the mantissa.  The usual way does not: it takes the whole part
of the magnitude, subtracts it as a double, compares what remains with a half, and turns the whole
number, or the next one, into a double with the sign of the first.  Each of these steps could lose
something, and a value just below a half would be rounded up, or a large one would change.  None of
them does, because everything in between is a double.  So the steps come to the same, for what is
no number and for infinities as well.
-/
import Scorecard.Proofs.Number.HalfAway

namespace Scorecard

namespace Binary64

open Float.Model Float.Model.UnpackedFloat

variable {x y : Float} {negative : Bool} {m : ℕ} {e : ℤ} {q : ℚ}

/-! ### Magnitude and sign -/

theorem unpack_abs (x : Float) : x.abs.toModel.unpack = x.toModel.unpack.abs := by
  have hpacked : x.abs.toModel.unpack =
      unpack Format.binary64 (pack Format.binary64 x.toModel.unpack.abs) := rfl
  have hsign : x.toModel.unpack.abs = x.toModel.unpack ∨ x.toModel.unpack.abs = (-x).toModel.unpack := by
    rw [unpack_neg]
    cases x.toModel.unpack with
    | notANumber => exact .inl rfl
    | infinity sign => cases sign <;> first | exact .inl rfl | exact .inr rfl
    | zero sign => cases sign <;> first | exact .inl rfl | exact .inr rfl
    | finite sign m e hpos => cases sign <;> first | exact .inl rfl | exact .inr rfl
  rcases hsign with h | h
  · rw [hpacked, h, unpack_pack_unpack]
  · rw [hpacked, h, unpack_pack_unpack]

/-- The parts of the magnitude are those of the double, without the sign. -/
theorem decode_abs (x : Float) : decode x.abs =
    match decode x with
    | .nan => .nan
    | .infinite _ => .infinite false
    | .finite _ mantissa exponent => .finite false mantissa exponent := by
  rw [decode_eq_ofUnpacked, decode_eq_ofUnpacked, unpack_abs]
  cases x.toModel.unpack <;> rfl

/-- The magnitude with the sign of a double. -/
def withSignOf (x magnitude : Float) : Float :=
  match decode x with
  | .finite true _ _ => -magnitude
  | _ => magnitude

theorem amount?_withSignOf (hx : decode x = .finite negative m e) (hy : Binary64.amount? y = some (.rational q)) :
    Binary64.amount? (withSignOf x y) = some (.rational (if negative then -q else q)) := by
  unfold withSignOf
  rw [hx]
  cases negative with
  | false => simpa using hy
  | true => simpa using amount?_neg hy

theorem amount?_half : Binary64.amount? 0.5 = some (.rational (1 / 2)) := by
  have hparts : decode 0.5 = .finite false (2 ^ 52) (-53) := by rfl
  rw [amount?_of_decode hparts, rational]
  norm_num

end Binary64

namespace Value

open Binary64

/-! ### The steps -/

/-- The nearest whole number to a double, a half going away from zero, in steps of doubles. -/
def roundBySteps (x : Float) : Except Fault Float :=
  match decode x.abs with
  | .nan => .error .meaningless
  | .infinite _ => .error .tooLarge
  | .finite _ mantissa exponent => do
    let whole := wholePart mantissa exponent
    let start ← (Value.int whole).toFloat
    let nearest := if 0.5 ≤ x.abs - start then whole + 1 else whole
    if nearest = 0 then .ok 0.0
    else .ok (withSignOf x (← (Value.int nearest).toFloat))

variable {x : Float} {negative : Bool} {m : ℕ} {e : ℤ} {q : ℚ}

theorem toFloat_of_representable {num : ℕ} (h : Representable num) :
    ∃ y, (Value.int num).toFloat = .ok y ∧ Binary64.amount? y = some (.rational num) := by
  obtain ⟨y, hy, hamount⟩ := ofInt?_of_representable h
  exact ⟨y, by rw [toFloat, hy], hamount⟩

/-- What remains of a magnitude without its whole part is a double. -/
theorem representable_rest (h : Canonical m e) : Representable ((m : ℚ) * 2 ^ e - wholePart m e) := by
  rcases lt_or_ge e 0 with he | he
  · have hmod : m % 2 ^ (-e).toNat < 2 ^ 53 := (Nat.mod_le _ _).trans_lt h.fits
    rw [sub_wholePart m he]
    simpa [rational] using representable_of_fits false hmod h.least h.greatest
  · rw [wholePart_of_nonneg m he, sub_self]
    have hzero : Representable (0 : ℕ) := representable_natCast (by norm_num)
    simpa using hzero

/-- The comparison with a half is that of the amounts. -/
theorem half_le_rest (hx : decode x = .finite negative m e) {start : Float}
    (hstart : Binary64.amount? start = some (.rational (wholePart m e))) :
    0.5 ≤ x.abs - start ↔ 1 / 2 ≤ (m : ℚ) * 2 ^ e - wholePart m e := by
  have habs : Binary64.amount? x.abs = some (.rational (m * 2 ^ e)) := by
    have hparts : decode x.abs = .finite false m e := by rw [decode_abs, hx]
    rw [amount?_of_decode hparts]
    simp [rational]
  exact le_iff_of_amounts amount?_half (amount?_sub habs hstart (representable_rest (canonical_of_decode hx)))

theorem abs_lt_half (h : nearestMagnitude m e = 0) : |rational negative m e| < 1 / 2 := by
  rw [abs_rational]
  by_contra hlarge
  have hpos := halfAway_pos (not_lt.mp hlarge)
  rw [halfAway_magnitude, h] at hpos
  simp at hpos

/-- **Nothing is lost in the steps.** -/
theorem roundBySteps_eq (x : Float) : roundBySteps x = roundHalfAway (.float x) := by
  unfold roundBySteps
  rw [decode_abs, roundHalfAway]
  cases hx : decode x with
  | nan => rfl
  | infinite negative => rfl
  | finite negative m e =>
      have hcanonical := canonical_of_decode hx
      obtain ⟨start, hstart, hamount⟩ := toFloat_of_representable (representable_wholePart hcanonical)
      have hnearest : (if 0.5 ≤ x.abs - start then wholePart m e + 1 else wholePart m e) =
          nearestMagnitude m e := if_congr (half_le_rest hx hamount) rfl rfl
      simp only [hstart, bind, Except.bind, hnearest]
      by_cases hzero : nearestMagnitude m e = 0
      · rw [if_pos hzero, roundHalfAway_eq_zero (amount?_of_decode hx) (abs_lt_half hzero)]
        rfl
      · obtain ⟨y, hy, hamount⟩ := toFloat_of_representable (representable_nearestMagnitude hcanonical)
        have hsigned := amount?_withSignOf hx hamount
        rw [← halfAway_rational] at hsigned
        have hne : (halfAway (rational negative m e) : ℚ) ≠ 0 := by
          rw [halfAway_rational]
          cases negative <;> simpa using hzero
        have hsame : withSignOf x y = Binary64.roundHalfAway x :=
          eq_of_amounts hsigned (amount?_roundHalfAway (amount?_of_decode hx)) hne
        rw [if_neg hzero, hy]
        exact congrArg Except.ok hsame

theorem roundHalfAway_of_amount (h : Binary64.amount? x = some (.rational q)) :
    roundHalfAway (.float x) = .ok (Binary64.roundHalfAway x) := by
  obtain ⟨negative, m, e, hx, -⟩ := exists_of_amount h
  rw [roundHalfAway, hx]

/-- From a half on the whole number has the sign of the amount. -/
theorem sign_halfAway (h : 1 / 2 ≤ |q|) : halfAway q ≠ 0 ∧ (halfAway q < 0 ↔ q < 0) := by
  rcases le_abs.mp h with hq | hq
  · have hpos := halfAway_pos hq
    exact ⟨hpos.ne', iff_of_false hpos.not_gt (by linarith)⟩
  · have hpos := halfAway_pos hq
    rw [halfAway_neg] at hpos
    exact ⟨by omega, iff_of_true (by omega) (by linarith)⟩

/--
**Rounding is exact over all doubles.**  Every finite double is rounded, at once and in steps of
doubles alike, to a double that is a whole number: not farther away than a half, beyond the double
if it is exactly a half away, of the same sign if the double is not below a half in magnitude, and
positive zero if it is.  In exact value rounding is odd and monotone, and from `2 ^ 52` on it
returns what it was given.
-/
theorem roundHalfAway_exact {x : Float} (hx : isFinite x = true) :
    ∃ (q : ℚ) (r : Float) (n : ℤ), Binary64.amount? x = some (.rational q) ∧
      (roundHalfAway (.float x) = .ok r ∧ roundBySteps x = .ok r ∧
        ∃ f, Registry.standard.find? "round" = some f ∧ f.rule [x] = .ok r) ∧
      Binary64.amount? r = some (.rational n) ∧
      |(n : ℚ) - q| ≤ 1 / 2 ∧
      (|(n : ℚ) - q| = 1 / 2 → |q| < |(n : ℚ)|) ∧
      (1 / 2 ≤ |q| → n ≠ 0 ∧ (n < 0 ↔ q < 0)) ∧
      (|q| < 1 / 2 → r = 0) ∧
      (2 ^ 52 ≤ |q| → r = x) ∧
      (∃ s, roundHalfAway (.float (-x)) = .ok s ∧ Binary64.amount? s = some (.rational (-n))) ∧
      ∀ (y : Float) (p : ℚ), Binary64.amount? y = some (.rational p) → q ≤ p →
        ∃ (s : Float) (k : ℤ), roundHalfAway (.float y) = .ok s ∧
          Binary64.amount? s = some (.rational k) ∧ n ≤ k := by
  obtain ⟨negative, m, e, hparts⟩ := exists_decode hx
  have hamount := amount?_of_decode hparts
  generalize rational negative m e = q at hamount
  have hround := roundHalfAway_of_amount hamount
  refine ⟨q, Binary64.roundHalfAway x, halfAway q, hamount, ⟨hround, ?_, _, rfl, rfl⟩,
    amount?_roundHalfAway hamount, abs_halfAway_sub_le q, abs_lt_abs_halfAway, sign_halfAway,
    roundHalfAway_eq_zero hamount, roundHalfAway_of_large hamount, ?_, ?_⟩
  · rw [roundBySteps_eq, hround]
  · have hnegated := amount?_neg hamount
    refine ⟨_, roundHalfAway_of_amount hnegated, ?_⟩
    rw [amount?_roundHalfAway hnegated, halfAway_neg, Int.cast_neg]
  · intro y p hy hle
    exact ⟨_, halfAway p, roundHalfAway_of_amount hy, amount?_roundHalfAway hy, halfAway_mono hle⟩

/-- The theorem for the greatest double below a half, which becomes zero although a half added to it
is rounded to one. -/
theorem roundHalfAway_exact_below_half :
    isFinite 0.49999999999999994 = true ∧ roundBySteps 0.49999999999999994 = .ok 0 ∧
      0.49999999999999994 + 0.5 = (1 : Float) := by
  have hparts : decode 0.49999999999999994 = .finite false (2 ^ 53 - 1) (-54) := by rfl
  have hfinite : isFinite 0.49999999999999994 = true := by
    rw [isFinite, hparts]
  obtain ⟨q, r, n, hamount, ⟨-, hsteps, -⟩, -, -, -, -, hsmall, -⟩ := roundHalfAway_exact hfinite
  have hq : q = (2 ^ 53 - 1) / 2 ^ 54 := by
    rw [amount?_of_decode hparts] at hamount
    have hvalue := Amount.rational.inj (Option.some.inj hamount)
    rw [← hvalue, rational]
    norm_num
  have hlt : |q| < 1 / 2 := by
    rw [hq]
    norm_num
  refine ⟨hfinite, ?_, by decide +kernel⟩
  rw [hsteps, hsmall hlt]

end Value

end Scorecard
