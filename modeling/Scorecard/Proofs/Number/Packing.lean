/-
What an operation packs.

The operations of `Float` compute with unpacked doubles and pack the result at the end.
Packed fields are read back as they were, so the parts of a result can be told from what
was packed, and what was packed without being no number is some number again.

The sum of two finite doubles is therefore a finite double or an infinity, and an infinity
stays what it is when finite doubles are added to it.  A running sum that has left the
finite doubles never comes back.
-/
import Scorecard.Proofs.Number.Bits

namespace Scorecard.Binary64

open Float.Model Float.Model.UnpackedFloat

/-! ### Fields -/

theorem unpack_packComponents (sign : Sign) (biased : BitVec 11) (fraction : BitVec 52) :
    unpack Format.binary64 (packComponents Format.binary64 sign biased fraction) =
      ofFields sign biased fraction := by
  have hbiased : biasedOf (packComponents Format.binary64 sign biased fraction) = biased :=
    unpackExponent_packComponents
  have hfraction : fractionOf (packComponents Format.binary64 sign biased fraction) = fraction :=
    unpackMantissa_packComponents
  rw [unpack_eq_ofFields, signOf_packComponents, hbiased, hfraction]

/-- Where all bits of the exponent are set, the fraction makes it no number. -/
theorem ofFields_ne_notANumber {sign : Sign} {biased : BitVec 11} {fraction : BitVec 52}
    (h : biased = -1#_ → fraction = 0#_) : ofFields sign biased fraction ≠ .notANumber := by
  unfold ofFields
  by_cases hall : biased = -1#_
  · rw [if_pos hall, if_pos (h hall)]
    rintro ⟨⟩
  by_cases hzero : biased = 0#_
  · rw [if_neg hall, if_pos hzero, ne_eq, dite_eq_iff]
    rintro (⟨_, h⟩ | ⟨_, h⟩) <;> cases h
  · rw [if_neg hall, if_neg hzero]
    rintro ⟨⟩

/-- What is not packed as no number has fields that are some number. -/
theorem exists_pack {u : UnpackedFloat} (h : u ≠ .notANumber) :
    ∃ sign biased fraction, pack Format.binary64 u = packComponents Format.binary64 sign biased fraction ∧
      (biased = -1#11 → fraction = 0#52) := by
  cases u with
  | notANumber => exact absurd rfl h
  | infinity sign => exact ⟨sign, -1#11, 0#52, rfl, fun _ => rfl⟩
  | zero sign => exact ⟨sign, 0#11, 0#52, rfl, fun _ => rfl⟩
  | finite sign mantissa exponent hpos =>
      have htop : 2 ^ Format.exponentBits .binary64 = 2048 := rfl
      unfold UnpackedFloat.pack
      simp only [htop]
      generalize (exponent + (Format.exponentBias .binary64 : Nat) +
        (Format.mantissaBitsWithoutImplicit .binary64 : Nat)).toNat = shifted
      split
      · exact ⟨sign, -1#11, 0#52, rfl, fun _ => rfl⟩
      · split
        · refine ⟨sign, BitVec.ofNat 11 shifted, _, rfl, fun hall => ?_⟩
          have hvalue : shifted % 2 ^ 11 = 2047 := by
            rw [← BitVec.toNat_ofNat, hall]
            rfl
          omega
        · exact ⟨sign, 0#11, _, rfl, fun hall => absurd hall (by decide)⟩

theorem unpack_pack_ne_notANumber {u : UnpackedFloat} (h : u ≠ .notANumber) :
    unpack Format.binary64 (pack Format.binary64 u) ≠ .notANumber := by
  obtain ⟨sign, biased, fraction, hpack, hall⟩ := exists_pack h
  rw [hpack, unpack_packComponents]
  exact ofFields_ne_notANumber hall

theorem unpack_pack_infinity (sign : Sign) :
    unpack Format.binary64 (pack Format.binary64 (.infinity sign)) = .infinity sign :=
  unpack_packComponents sign (-1#11) 0#52

/-! ### Bits -/

/-- The parts of a double made from bits are those of the bits. -/
theorem decode_ofBits (word : UInt64) : decode (Float.ofBits word) = ofBits word := by
  rw [decode_eq_ofUnpacked, ofBits_eq_ofUnpacked]
  show ofUnpacked (unpack Format.binary64 (pack Format.binary64 (unpack Format.binary64 _))) = _
  rw [unpack_eq_ofFields word.toBitVec]
  by_cases h : biasedOf word.toBitVec = -1#11 → fractionOf word.toBitVec = 0#52
  · rw [pack_ofFields h, unpack_packComponents]
  · obtain ⟨hall, hfraction⟩ := Classical.not_imp.mp h
    rw [ofFields, if_pos hall, if_neg hfraction]
    rfl

/-! ### Sums -/

variable {x y : Float} {negative : Bool}

/-- The model of a finite double is a zero or another number. -/
theorem unpack_of_isFinite (h : isFinite x = true) :
    (∃ sign, x.toModel.unpack = .zero sign) ∨
      ∃ sign mantissa exponent hpos, x.toModel.unpack = .finite sign mantissa exponent hpos := by
  obtain ⟨negative, mantissa, exponent, hx⟩ := exists_decode h
  obtain ⟨sign, -, ⟨hzero, -⟩ | ⟨hpos, hfinite⟩⟩ := unpack_of_decode hx
  · exact .inl ⟨sign, hzero⟩
  · exact .inr ⟨sign, mantissa, exponent, hpos, hfinite⟩

theorem unpack_add (x y : Float) : (x + y).toModel.unpack =
    unpack Format.binary64 (pack Format.binary64
      (UnpackedFloat.add Format.binary64 x.toModel.unpack y.toModel.unpack)) :=
  rfl

/-- Rounding gives some number. -/
theorem round_ne_notANumber (sign : Sign) (mantissa : Nat) (exponent : Int) :
    UnpackedFloat.round Format.binary64 sign mantissa exponent ≠ .notANumber := by
  unfold UnpackedFloat.round UnpackedFloat.roundWithAccuracy
  dsimp only
  rw [ne_eq, dite_eq_iff]
  rintro (⟨_, h⟩ | ⟨_, h⟩) <;> cases h

theorem normalize_ne_notANumber (mantissa exponent : Int) (sign : Sign) :
    UnpackedFloat.normalize Format.binary64 mantissa exponent sign ≠ .notANumber := by
  unfold UnpackedFloat.normalize
  cases compare mantissa 0 with
  | lt => exact round_ne_notANumber _ _ _
  | eq => rintro ⟨⟩
  | gt => exact round_ne_notANumber _ _ _

theorem add_ne_notANumber (hx : isFinite x = true) (hy : isFinite y = true) :
    UnpackedFloat.add Format.binary64 x.toModel.unpack y.toModel.unpack ≠ .notANumber := by
  obtain ⟨s, hu⟩ | ⟨s, m, e, hpos, hu⟩ := unpack_of_isFinite hx
  · obtain ⟨t, hv⟩ | ⟨t, n, k, hpos', hv⟩ := unpack_of_isFinite hy
    · rw [hu, hv]
      cases s <;> cases t <;> rintro ⟨⟩
    · rw [hu, hv]
      rintro ⟨⟩
  · obtain ⟨t, hv⟩ | ⟨t, n, k, hpos', hv⟩ := unpack_of_isFinite hy
    · rw [hu, hv]
      rintro ⟨⟩
    · rw [hu, hv]
      exact normalize_ne_notANumber _ _ _

/-- The sum of finite doubles is some number. -/
theorem decode_add_ne_nan (hx : isFinite x = true) (hy : isFinite y = true) :
    decode (x + y) ≠ .nan := by
  have hunpack := unpack_pack_ne_notANumber (add_ne_notANumber hx hy)
  rw [decode_eq_ofUnpacked, unpack_add]
  intro h
  cases hu : unpack Format.binary64 (pack Format.binary64
      (UnpackedFloat.add Format.binary64 x.toModel.unpack y.toModel.unpack)) with
  | notANumber => exact hunpack hu
  | infinity sign => rw [hu] at h; cases h
  | zero sign => rw [hu] at h; cases h
  | finite sign mantissa exponent hpos => rw [hu] at h; cases h

theorem unpack_of_infinite (h : decode x = .infinite negative) :
    ∃ sign, isNegative sign = negative ∧ x.toModel.unpack = .infinity sign := by
  rw [decode_eq_ofUnpacked] at h
  cases hu : x.toModel.unpack with
  | notANumber => rw [hu] at h; cases h
  | infinity sign => rw [hu] at h; cases h; exact ⟨sign, rfl, rfl⟩
  | zero sign => rw [hu] at h; cases h
  | finite sign mantissa exponent hpos => rw [hu] at h; cases h

/-- An infinity stays what it is when something finite is added to it. -/
theorem decode_infinite_add (hx : decode x = .infinite negative) (hy : isFinite y = true) :
    decode (x + y) = .infinite negative := by
  obtain ⟨sign, rfl, hu⟩ := unpack_of_infinite hx
  have hadd : UnpackedFloat.add Format.binary64 x.toModel.unpack y.toModel.unpack = .infinity sign := by
    obtain ⟨t, hv⟩ | ⟨t, n, k, hpos, hv⟩ := unpack_of_isFinite hy
    · rw [hu, hv]
      rfl
    · rw [hu, hv]
      rfl
  rw [decode_eq_ofUnpacked, unpack_add, hadd, unpack_pack_infinity]
  rfl

end Scorecard.Binary64
