/-
Sums and differences that are not rounded.

An operation of doubles computes exactly and rounds at the end, and what a double can be is not
changed by rounding: the mantissa is shifted until its exponent is the one that its value asks for,
and only zeros are shifted out.  So a sum or a difference that is the amount of some double is
computed as it is.
-/
import Scorecard.Proofs.Number.Amounts
import Scorecard.Proofs.Number.Overflow

namespace Scorecard.Binary64

open Float.Model Float.Model.UnpackedFloat

variable {x y : Float} {negative : Bool} {m n : ℕ} {e k : ℤ} {p q r : ℚ}

/-! ### What doubles can be -/

/-- Some finite double is this rational. -/
def Representable (q : ℚ) : Prop :=
  ∃ negative mantissa exponent, Canonical mantissa exponent ∧ rational negative mantissa exponent = q

/-- A mantissa that fits can be shifted until it fills its bits or the exponent is the least. -/
theorem exists_canonical (hfits : m < 2 ^ 53) (hleast : leastExponent ≤ e) (hgreatest : e ≤ greatestExponent) :
    ∃ n k, Canonical n k ∧ (n : ℚ) * 2 ^ k = m * 2 ^ e := by
  obtain ⟨steps, hsteps⟩ : ∃ steps : ℕ, e = leastExponent + steps :=
    ⟨(e - leastExponent).toNat, by omega⟩
  induction steps generalizing m e with
  | zero => exact ⟨m, e, ⟨hfits, hleast, hgreatest, .inr (by simpa using hsteps)⟩, rfl⟩
  | succ steps ih =>
      by_cases hfull : 2 ^ 52 ≤ m
      · exact ⟨m, e, ⟨hfits, hleast, hgreatest, .inl hfull⟩, rfl⟩
      · obtain ⟨n, k, hcanonical, hvalue⟩ :=
          ih (m := 2 * m) (e := e - 1) (by omega) (by omega) (by omega) (by omega)
        refine ⟨n, k, hcanonical, ?_⟩
        rw [hvalue, zpow_sub_one₀ two_ne_zero]
        push_cast
        ring

theorem representable_of_fits (negative : Bool) (hfits : m < 2 ^ 53) (hleast : leastExponent ≤ e)
    (hgreatest : e ≤ greatestExponent) : Representable (rational negative m e) := by
  obtain ⟨n, k, hcanonical, hvalue⟩ := exists_canonical hfits hleast hgreatest
  refine ⟨negative, n, k, hcanonical, ?_⟩
  cases negative
  · simpa [rational] using hvalue
  · simpa [rational] using hvalue

theorem exists_of_amount (h : amount? x = some (.rational q)) :
    ∃ negative mantissa exponent, decode x = .finite negative mantissa exponent ∧
      rational negative mantissa exponent = q := by
  unfold amount? at h
  cases hx : decode x with
  | nan =>
      rw [hx] at h
      cases h
  | infinite negative =>
      rw [hx] at h
      cases h
  | finite negative mantissa exponent =>
      rw [hx] at h
      simp only [Option.some.injEq, Amount.rational.injEq] at h
      exact ⟨_, _, _, rfl, h⟩

theorem amount?_of_decode (h : decode x = .finite negative m e) :
    amount? x = some (.rational (rational negative m e)) := by
  rw [amount?, h]

/-- Other than zero there is one double for each amount. -/
theorem eq_of_amounts (hx : amount? x = some (.rational q)) (hy : amount? y = some (.rational q))
    (hq : q ≠ 0) : x = y := by
  obtain ⟨negative, m, e, hparts, hvalue⟩ := exists_of_amount hx
  obtain ⟨other, n, k, hparts', hvalue'⟩ := exists_of_amount hy
  rcases parts_of_rational (canonical_of_decode hparts) (canonical_of_decode hparts')
      (hvalue.trans hvalue'.symm) with ⟨rfl, -⟩ | ⟨rfl, rfl, rfl⟩
  · rw [rational_zero] at hvalue
    exact absurd hvalue.symm hq
  · rw [← encode_of_decode hparts, ← encode_of_decode hparts']

/-! ### Parts written and read -/

/-- The parts that a double can have are those of the double with these parts. -/
theorem decode_encode (h : Canonical m e) : decode (encode (.finite negative m e)) = .finite negative m e := by
  obtain ⟨hfits, hleast, hgreatest, hfull⟩ := h
  have hlt := magnitudeBits_lt hfits hgreatest
  unfold leastExponent at hleast hfull
  unfold greatestExponent at hgreatest
  rw [encode, decode_withSign negative hlt.le, if_neg hlt.ne, magnitudeBits]
  by_cases hsmall : m < 2 ^ 52
  · obtain rfl : e = -1074 := hfull.resolve_left (by omega)
    rw [if_pos hsmall, if_pos hsmall]
    rfl
  · obtain ⟨fraction, rfl⟩ : ∃ fraction, m = 2 ^ 52 + fraction := ⟨m - 2 ^ 52, by omega⟩
    obtain ⟨biased, hbiased⟩ : ∃ biased : ℕ, e = biased - 1075 := ⟨(e + 1075).toNat, by omega⟩
    have hdivided : (biased * 2 ^ 52 + fraction) / 2 ^ 52 = biased := by omega
    have hrest : (biased * 2 ^ 52 + fraction) % 2 ^ 52 = fraction := by omega
    rw [if_neg hsmall, hbiased, sub_add_cancel, Int.toNat_natCast, Nat.add_sub_cancel_left, hdivided, hrest,
      if_neg (by omega)]

/-- What was unpacked is packed and unpacked as it is. -/
theorem unpack_pack_unpack (x : Float) :
    unpack Format.binary64 (pack Format.binary64 x.toModel.unpack) = x.toModel.unpack := by
  rw [pack_unpack]
  rfl

theorem unpack_pack_of_canonical (sign : UnpackedFloat.Sign) (h : Canonical m e) (hpos : 0 < m) :
    unpack Format.binary64 (pack Format.binary64 (.finite sign m e hpos)) = .finite sign m e hpos := by
  have hparts : decode (encode (.finite (isNegative sign) m e)) = .finite (isNegative sign) m e := decode_encode h
  obtain ⟨found, hsign, ⟨-, hzero⟩ | ⟨hpos', hfinite⟩⟩ := unpack_of_decode hparts
  · omega
  · have hsame : found = sign := by
      cases found <;> cases sign <;> first | rfl | cases hsign
    rw [← hsame, ← hfinite, unpack_pack_unpack]

theorem decode_of_unpack {u : UnpackedFloat} (h : x.toModel.unpack = u) : decode x = ofUnpacked u := by
  rw [decode_eq_ofUnpacked, h]

/-! ### Rounding what needs none -/

/-- Zeros are shifted out without a trace. -/
theorem shiftRight_of_exact (n j : ℕ) :
    (ExtendedMantissa.mk (n * 2 ^ j) false false) >>> j = ExtendedMantissa.mk n false false := by
  induction j generalizing n with
  | zero => simp [HShiftRight.hShiftRight, Nat.repeat]
  | succ j ih =>
      show ExtendedMantissa.shiftRightOne (ExtendedMantissa.mk (n * 2 ^ (j + 1)) false false >>> j) = _
      rw [pow_succ', ← mul_assoc, ih (n * 2)]
      simp [ExtendedMantissa.shiftRightOne]

theorem log2_mul_two_pow (hpos : 0 < n) (j : ℕ) : (n * 2 ^ j).log2 = n.log2 + j := by
  induction j with
  | zero => simp
  | succ j ih =>
      have hne : n * 2 ^ j ≠ 0 := by positivity
      rw [pow_succ', Nat.mul_left_comm, Nat.log2_two_mul hne, ih]
      rfl

theorem totalExponent_mul_two_pow (hpos : 0 < n) (e : ℤ) (j : ℕ) :
    totalExponent (n * 2 ^ j) e = totalExponent n (e + j) := by
  unfold totalExponent
  rw [log2_mul_two_pow hpos]
  push_cast
  ring

/-- The exponent that the value of a double asks for is its own. -/
theorem targetExponent_of_canonical (h : Canonical n k) (hpos : 0 < n) :
    Format.binary64.targetExponent (totalExponent n k) = k := by
  have hfits : n.log2 < 53 := (Nat.log2_lt hpos.ne').mpr h.fits
  have hleast := h.least
  have hdefinition : Format.binary64.targetExponent (totalExponent n k) =
      max ((n.log2 : ℤ) + 1 + k - 53) leastExponent := rfl
  rw [hdefinition]
  rcases h.full with hfull | hfull
  · have hlog : 52 ≤ n.log2 := (Nat.le_log2 hpos.ne').mpr hfull
    omega
  · omega

theorem shiftToTargetExponent_of_canonical (h : Canonical n k) (hpos : 0 < n) {j : ℕ} (he : e + j = k) :
    shiftToTargetExponent Format.binary64 (n * 2 ^ j) e .exact = (ExtendedMantissa.mk n false false, k) := by
  have hshift : (k - e).toNat = j := by omega
  unfold shiftToTargetExponent
  rw [totalExponent_mul_two_pow hpos, he, targetExponent_of_canonical h hpos]
  unfold shiftToExponent
  simp only [hshift, ExtendedMantissa.ofMantissaAndAccuracy, shiftRight_of_exact, he]

theorem roundWithAccuracy_of_canonical (sign : UnpackedFloat.Sign) (h : Canonical n k) (hpos : 0 < n) {j : ℕ}
    (he : e + j = k) :
    roundWithAccuracy Format.binary64 sign (n * 2 ^ j) e .exact = .finite sign n k hpos := by
  have hagain : shiftToTargetExponent Format.binary64 n k .exact = (ExtendedMantissa.mk n false false, k) := by
    simpa using shiftToTargetExponent_of_canonical h hpos (j := 0) (add_zero k)
  have hrounded : (ExtendedMantissa.mk n false false).roundedMantissa = n := rfl
  unfold roundWithAccuracy
  rw [shiftToTargetExponent_of_canonical h hpos he]
  dsimp only
  rw [hrounded, hagain]
  exact dif_neg hpos.ne'

/-- Of two exponents for one value the lower has the greater mantissa. -/
theorem mantissa_of_value {j : ℕ} (h : (m : ℚ) * 2 ^ e = n * 2 ^ k) (he : e + j = k) : m = n * 2 ^ j := by
  rw [← he, zpow_add₀ two_ne_zero, mul_left_comm, mul_comm, mul_right_inj' (by positivity), zpow_natCast] at h
  exact_mod_cast h

/-- **What a double can be is not rounded.** -/
theorem round_of_canonical (sign : UnpackedFloat.Sign) (h : Canonical n k) (hpos : 0 < n)
    (hvalue : (m : ℚ) * 2 ^ e = n * 2 ^ k) :
    UnpackedFloat.round Format.binary64 sign m e = .finite sign n k hpos := by
  unfold UnpackedFloat.round decreaseExponent
  rcases le_total e k with hle | hle
  · -- the exponent is too low, and the mantissa ends in zeros
    obtain ⟨j, he⟩ : ∃ j : ℕ, e + j = k := ⟨(k - e).toNat, by omega⟩
    have hnone : (e - k).toNat = 0 := by omega
    rw [mantissa_of_value hvalue he, totalExponent_mul_two_pow hpos, he, targetExponent_of_canonical h hpos]
    dsimp only
    rw [hnone, Nat.shiftLeft_zero, Nat.cast_zero, sub_zero]
    exact roundWithAccuracy_of_canonical sign h hpos he
  · -- the exponent is too high, and there is room for the zeros
    obtain ⟨j, hk⟩ : ∃ j : ℕ, k + j = e := ⟨(e - k).toNat, by omega⟩
    have hn := mantissa_of_value hvalue.symm hk
    have hmpos : 0 < m := Nat.pos_of_mul_pos_right (hn ▸ hpos)
    have hshift : (e - k).toNat = j := by omega
    have hexponent : e - (j : ℤ) = k := by omega
    rw [← hk, ← totalExponent_mul_two_pow hmpos, ← hn, targetExponent_of_canonical h hpos, hk]
    dsimp only
    rw [hshift, Nat.shiftLeft_eq, hexponent, ← hn]
    have hround := roundWithAccuracy_of_canonical sign h hpos (j := 0) (add_zero k)
    rwa [pow_zero, mul_one] at hround

/-! ### Sums and differences -/

/-- With a lower exponent and the mantissa shifted the value is the same. -/
theorem apply_shiftLeft (sign : UnpackedFloat.Sign) (m : ℕ) (hle : k ≤ e) :
    ((sign.apply ((m <<< (e - k).toNat : ℕ) : ℤ) : ℤ) : ℚ) * 2 ^ k = rational (isNegative sign) m e := by
  obtain ⟨j, rfl⟩ : ∃ j : ℕ, e = k + j := ⟨(e - k).toNat, by omega⟩
  have hshift : (k + j - k).toNat = j := by omega
  rw [hshift, Nat.shiftLeft_eq, rational, zpow_add₀ two_ne_zero, zpow_natCast]
  cases sign <;> simp [Sign.apply, isNegative] <;> ring

/-- What is rounded to a number of its own keeps its value. -/
theorem amount?_of_round {M : ℤ} {sign : UnpackedFloat.Sign} (h : Canonical n k) (hM : M ≠ 0)
    (hsign : (isNegative sign = true) ↔ M < 0) (hvalue : (M : ℚ) * 2 ^ e = rational negative n k)
    (hx : x.toModel.unpack = unpack Format.binary64 (pack Format.binary64
      (UnpackedFloat.round Format.binary64 sign M.natAbs e))) :
    amount? x = some (.rational (rational negative n k)) := by
  have hmagnitude : (M.natAbs : ℚ) * 2 ^ e = n * 2 ^ k := by
    have hpower : (0 : ℚ) < 2 ^ e := by positivity
    rw [← abs_rational negative n k, ← hvalue, abs_mul, abs_of_pos hpower, Nat.cast_natAbs, Int.cast_abs]
  have hpos : 0 < n := by
    have hpower : (0 : ℚ) < 2 ^ k := by positivity
    have hleft : (0 : ℚ) < M.natAbs * 2 ^ e := by positivity
    rw [hmagnitude] at hleft
    exact_mod_cast (pos_iff_pos_of_mul_pos hleft).mpr hpower
  rw [round_of_canonical sign h hpos hmagnitude, unpack_pack_of_canonical sign h hpos] at hx
  have hnegative : isNegative sign = negative := by
    have hsame : rational negative n k < 0 ↔ negative = true := rational_lt_zero_iff hpos
    have hpower : (0 : ℚ) < 2 ^ e := by positivity
    rw [Bool.eq_iff_iff, hsign, ← hsame, ← hvalue]
    rw [← zero_mul ((2 : ℚ) ^ e), mul_lt_mul_iff_left₀ hpower, Int.cast_lt_zero]
  exact amount?_of_decode (hnegative ▸ decode_of_unpack hx)

/-- What is normalized keeps its value if a double has it. -/
theorem amount?_of_normalize {M : ℤ} {sign : UnpackedFloat.Sign}
    (hx : x.toModel.unpack = unpack Format.binary64 (pack Format.binary64
      (UnpackedFloat.normalize Format.binary64 M e sign)))
    (hvalue : (M : ℚ) * 2 ^ e = r) (hr : Representable r) : amount? x = some (.rational r) := by
  obtain ⟨negative, n, k, hcanonical, rfl⟩ := hr
  unfold UnpackedFloat.normalize at hx
  rcases lt_trichotomy M 0 with hM | rfl | hM
  · have hmagnitude : (-M).toNat = M.natAbs := by omega
    rw [compare_lt_iff_lt.mpr hM] at hx
    simp only [hmagnitude] at hx
    exact amount?_of_round hcanonical hM.ne (iff_of_true rfl hM) hvalue hx
  · have hzero : rational negative n k = 0 := by simp [← hvalue]
    rw [hzero]
    exact amount?_of_zero (hx.trans (unpack_packComponents sign 0#11 0#52))
  · have hmagnitude : M.toNat = M.natAbs := by omega
    rw [compare_gt_iff_gt.mpr hM] at hx
    simp only [hmagnitude] at hx
    exact amount?_of_round hcanonical hM.ne' (iff_of_false (by decide) hM.not_gt) hvalue hx

/-- The model of a double with an amount is a zero or has that value. -/
theorem unpack_of_amount (h : amount? x = some (.rational q)) :
    (∃ sign, x.toModel.unpack = .zero sign ∧ q = 0) ∨
      ∃ sign m e hpos, x.toModel.unpack = .finite sign m e hpos ∧ Canonical m e ∧
        rational (isNegative sign) m e = q := by
  obtain ⟨negative, m, e, hx, rfl⟩ := exists_of_amount h
  obtain ⟨sign, rfl, ⟨hzero, rfl⟩ | ⟨hpos, hfinite⟩⟩ := unpack_of_decode hx
  · exact .inl ⟨sign, hzero, rational_zero _ _⟩
  · exact .inr ⟨sign, m, e, hpos, hfinite, canonical_of_decode hx, rfl⟩

theorem amount?_of_unpack (h : x.toModel.unpack = y.toModel.unpack) : amount? x = amount? y := by
  rw [amount?, amount?, decode_eq_ofUnpacked, decode_eq_ofUnpacked, h]

/-- **A sum that a double can be is exact.** -/
theorem amount?_add (hx : amount? x = some (.rational p)) (hy : amount? y = some (.rational q))
    (h : Representable (p + q)) : amount? (x + y) = some (.rational (p + q)) := by
  have hadd := unpack_add x y
  rcases unpack_of_amount hx with ⟨s, hu, rfl⟩ | ⟨s, m, e, hpos, hu, -, hp⟩
  · rcases unpack_of_amount hy with ⟨t, hv, rfl⟩ | ⟨t, n, k, hpos', hv, -, hq⟩
    · rw [hu, hv] at hadd
      have hzero : ∃ sign, (x + y).toModel.unpack = .zero sign := by
        cases s <;> cases t <;> exact ⟨_, hadd⟩
      obtain ⟨sign, hzero⟩ := hzero
      rw [add_zero]
      exact amount?_of_zero hzero
    · have hsum : UnpackedFloat.add Format.binary64 x.toModel.unpack y.toModel.unpack = y.toModel.unpack := by
        rw [hu, hv]
        rfl
      rw [hsum, unpack_pack_unpack] at hadd
      rw [zero_add, amount?_of_unpack hadd, hy]
  · rcases unpack_of_amount hy with ⟨t, hv, rfl⟩ | ⟨t, n, k, hpos', hv, -, hq⟩
    · have hsum : UnpackedFloat.add Format.binary64 x.toModel.unpack y.toModel.unpack = x.toModel.unpack := by
        rw [hu, hv]
        rfl
      rw [hsum, unpack_pack_unpack] at hadd
      rw [add_zero, amount?_of_unpack hadd, hx]
    · rw [hu, hv] at hadd
      refine amount?_of_normalize hadd ?_ h
      rw [Int.cast_add, add_mul, apply_shiftLeft s m (min_le_left e k),
        apply_shiftLeft t n (min_le_right e k), hp, hq]

private theorem apply_neg (sign : UnpackedFloat.Sign) (n : ℤ) : (-sign).apply n = -sign.apply n := by
  cases sign with
  | negative => exact (neg_neg n).symm
  | positive => rfl

private theorem sub_of_unpacked (u v : UnpackedFloat) :
    UnpackedFloat.sub Format.binary64 u v = UnpackedFloat.add Format.binary64 u v.neg := by
  cases u with
  | finite s m e hpos =>
      cases v with
      | finite t n k hpos' =>
          show UnpackedFloat.normalize _ (s.apply _ - t.apply _) _ _ =
            UnpackedFloat.normalize _ (s.apply _ + (-t).apply _) _ _
          rw [apply_neg, ← sub_eq_add_neg]
      | _ => rfl
  | _ => cases v <;> rfl

theorem amount?_neg (h : amount? x = some (.rational q)) : amount? (-x) = some (.rational (-q)) := by
  obtain ⟨negative, m, e, hx, rfl⟩ := exists_of_amount h
  rw [amount?_of_decode (decode_neg hx)]
  cases negative <;> simp [rational]

/-- **A difference that a double can be is exact.** -/
theorem amount?_sub (hx : amount? x = some (.rational p)) (hy : amount? y = some (.rational q))
    (h : Representable (p - q)) : amount? (x - y) = some (.rational (p - q)) := by
  have hdifference : (x - y).toModel.unpack = (x + -y).toModel.unpack := by
    rw [unpack_add, unpack_neg, ← sub_of_unpacked]
    rfl
  rw [sub_eq_add_neg] at h ⊢
  rw [amount?_of_unpack hdifference]
  exact amount?_add hx (amount?_neg hy) h

end Scorecard.Binary64
