/-
The bits of a double and its parts.

`Binary64.decode` and `Binary64.encode` work on 64 bits as one number, while the
operations of `Float` are defined by their model on three fields of bits: a sign,
a biased exponent and a fraction.  This module ties the two together.  `ofFields` is
how the model reads its three fields, and everything else follows from how it is
packed, negated and compared.

What comes of it: the parts of a double determine it, negation turns the sign and
leaves the rest, a finite double is below zero when its sign is set and its mantissa
is not zero, and it is equal to itself as a number.
-/
import Scorecard.Number.Binary64
import Mathlib.Tactic.Ring

namespace Scorecard

namespace Binary64

open Float.Model Float.Model.UnpackedFloat

/-! ### Fields -/

/-- The sign field is set. -/
def isNegative : Sign → Bool
  | .negative => true
  | .positive => false

theorem toNat_append_implicit (fraction : BitVec 52) :
    (1#1 ++ fraction).toNat = 2 ^ 52 + fraction.toNat := by
  rw [BitVec.toNat_append, ← Nat.shiftLeft_add_eq_or_of_lt fraction.isLt, Nat.shiftLeft_eq]
  simp

/-- What three fields stand for in the model of doubles. -/
def ofFields (sign : Sign) (biased : BitVec 11) (fraction : BitVec 52) : UnpackedFloat :=
  if biased = -1#_ then
    if fraction = 0#_ then .infinity sign else .notANumber
  else if biased = 0#_ then
    if h : fraction = 0#_ then .zero sign
    else .finite sign fraction.toNat ((biased.toNat : Int) - 1075 + 1)
      (by simpa [BitVec.toNat_pos, BitVec.pos_iff_ne_zero] using h)
  else .finite sign (1#1 ++ fraction).toNat ((biased.toNat : Int) - 1075)
    (by rw [toNat_append_implicit]; omega)

/-- The sign of 64 bits. -/
def signOf (bits : BitVec 64) : Sign := Sign.ofBitVec (@unpackSign Format.binary64 bits)

/-- The biased exponent of 64 bits. -/
def biasedOf (bits : BitVec 64) : BitVec 11 := @unpackExponent Format.binary64 bits

/-- The fraction of 64 bits. -/
def fractionOf (bits : BitVec 64) : BitVec 52 := @unpackMantissa Format.binary64 bits

theorem unpack_eq_ofFields (bits : BitVec 64) :
    unpack Format.binary64 bits = ofFields (signOf bits) (biasedOf bits) (fractionOf bits) := rfl

theorem toNat_fractionOf (bits : BitVec 64) : (fractionOf bits).toNat = bits.toNat % 2 ^ 52 := by
  simp [fractionOf, unpackMantissa]

theorem toNat_biasedOf (bits : BitVec 64) :
    (biasedOf bits).toNat = bits.toNat / 2 ^ 52 % 2 ^ 11 := by
  simp [biasedOf, unpackExponent, Nat.shiftRight_eq_div_pow]

theorem toNat_unpackSign (bits : BitVec 64) :
    (@unpackSign Format.binary64 bits).toNat = bits.toNat / 2 ^ 63 := by
  have hlt := bits.isLt
  unfold unpackSign
  simp [Nat.shiftRight_eq_div_pow]
  omega

theorem isNegative_signOf (bits : BitVec 64) :
    isNegative (signOf bits) = decide (2 ^ 63 ≤ bits.toNat) := by
  have hsign := toNat_unpackSign bits
  unfold signOf Sign.ofBitVec
  by_cases h : @unpackSign Format.binary64 bits = 0#1
  · rw [if_pos h]
    rw [h] at hsign
    have hlt : ¬ 2 ^ 63 ≤ bits.toNat := by
      intro hle
      have : 1 ≤ bits.toNat / 2 ^ 63 := (Nat.one_le_div_iff (by decide)).mpr hle
      simp at hsign
      omega
    simp only [isNegative, hlt, decide_false]
  · rw [if_neg h]
    have hle : 2 ^ 63 ≤ bits.toNat := by
      refine Decidable.byContradiction fun hlt => h ?_
      have hzero : bits.toNat / 2 ^ 63 = 0 := Nat.div_eq_of_lt (by omega)
      apply BitVec.eq_of_toNat_eq
      rw [hsign, hzero]
      rfl
    simp only [isNegative, hle, decide_true]

/-! ### Packing -/

theorem toNat_packComponents (sign : Sign) (biased : BitVec 11) (fraction : BitVec 52) :
    (packComponents Format.binary64 sign biased fraction).toNat =
      (isNegative sign).toNat * 2 ^ 63 + biased.toNat * 2 ^ 52 + fraction.toNat := by
  have hsign : sign.toBitVec.toNat = (isNegative sign).toNat := by cases sign <;> rfl
  unfold packComponents
  rw [BitVec.toNat_append, BitVec.toNat_append, ← Nat.shiftLeft_add_eq_or_of_lt fraction.isLt,
    ← Nat.shiftLeft_add_eq_or_of_lt biased.isLt, Nat.shiftLeft_eq, Nat.shiftLeft_eq, hsign]
  ring

/-- The fields of 64 bits put together again. -/
theorem packComponents_fields (bits : BitVec 64) :
    packComponents Format.binary64 (signOf bits) (biasedOf bits) (fractionOf bits) = bits := by
  have hlt := bits.isLt
  apply BitVec.eq_of_toNat_eq
  rw [toNat_packComponents, isNegative_signOf, toNat_biasedOf, toNat_fractionOf]
  by_cases h : 2 ^ 63 ≤ bits.toNat
  · simp only [h, decide_true, Bool.toNat_true]
    omega
  · simp only [h, decide_false, Bool.toNat_false]
    omega

private theorem pack_finite {sign : Sign} {mantissa : Nat} {exponent : Int} (hpos : 0 < mantissa)
    (hsmall : (exponent + 1075).toNat < 2047) :
    pack Format.binary64 (.finite sign mantissa exponent hpos) =
      packComponents Format.binary64 sign
        (if mantissa.log2 = 52 then BitVec.ofNat 11 (exponent + 1075).toNat else 0#11)
        (BitVec.ofNat 52 mantissa) := by
  have hexponent : (exponent + (Format.exponentBias .binary64 : Nat) + (52 : Nat)).toNat =
      (exponent + 1075).toNat := by
    show (exponent + (1023 : Nat) + (52 : Nat)).toNat = _
    omega
  unfold UnpackedFloat.pack
  simp only [hexponent]
  rw [if_neg (by omega)]
  by_cases hlog : mantissa.log2 = 52
  · rw [if_pos hlog, if_pos (by rw [hlog]; rfl)]
  · have hbits : ¬ mantissa.log2 + 1 = Format.binary64.mantissaBits := by
      show ¬ mantissa.log2 + 1 = 53
      omega
    rw [if_neg hlog, if_neg hbits]

/-- Fields that are some number are packed as they are. -/
theorem pack_ofFields {sign : Sign} {biased : BitVec 11} {fraction : BitVec 52}
    (h : biased = -1#_ → fraction = 0#_) :
    pack Format.binary64 (ofFields sign biased fraction) =
      packComponents Format.binary64 sign biased fraction := by
  unfold ofFields
  by_cases hall : biased = -1#_
  · rw [if_pos hall, if_pos (h hall), hall, h hall]
    rfl
  rw [if_neg hall]
  have hbiased : biased.toNat < 2047 := by
    have hne : biased.toNat ≠ 2047 := fun hc => hall (BitVec.eq_of_toNat_eq (by rw [hc]; rfl))
    have := biased.isLt
    omega
  by_cases hnone : biased = 0#_
  · rw [if_pos hnone]
    by_cases hzero : fraction = 0#_
    · rw [dif_pos hzero, hnone, hzero]
      rfl
    · -- below the least normal double: the implicit bit is not there
      rw [dif_neg hzero, hnone]
      have hpos : fraction.toNat ≠ 0 := fun hc => hzero (BitVec.eq_of_toNat_eq hc)
      have hlog : fraction.toNat.log2 < 52 := (Nat.log2_lt hpos).mpr fraction.isLt
      rw [pack_finite _ (by decide), if_neg (by omega), BitVec.ofNat_toNat, BitVec.setWidth_eq]
  · rw [if_neg hnone]
    have hone : 1 ≤ biased.toNat := by
      have hne : biased.toNat ≠ 0 := fun hc => hnone (BitVec.eq_of_toNat_eq hc)
      omega
    have hlt := fraction.isLt
    have hlog : (1#1 ++ fraction).toNat.log2 = 52 := by
      rw [toNat_append_implicit, Nat.log2_eq_iff (by omega)]
      omega
    have hexponent : ((biased.toNat : Int) - 1075 + 1075).toNat = biased.toNat := by omega
    have hmantissa : BitVec.ofNat 52 (1#1 ++ fraction).toNat = fraction := by
      apply BitVec.eq_of_toNat_eq
      rw [BitVec.toNat_ofNat, toNat_append_implicit]
      omega
    rw [pack_finite _ (by omega), if_pos hlog, hmantissa, hexponent, BitVec.ofNat_toNat,
      BitVec.setWidth_eq]

/-- The bits of a double are those of its model, packed. -/
theorem pack_unpack (x : Float) :
    pack Format.binary64 x.toModel.unpack = x.toModel.toBits.toBitVec := by
  show pack Format.binary64 (unpack Format.binary64 _) = _
  rw [unpack_eq_ofFields]
  by_cases h : biasedOf x.toModel.toBits.toBitVec = -1#_ →
      fractionOf x.toModel.toBits.toBitVec = 0#_
  · rw [pack_ofFields h, packComponents_fields]
  · -- there is one `NaN` only
    obtain ⟨hall, hfraction⟩ := Classical.not_imp.mp h
    rw [ofFields, if_pos hall, if_neg hfraction]
    exact (x.toModel.valid.eq_packedNaN hall hfraction).symm

@[simp] theorem ofBits_toBits (x : Float) : Float.ofBits x.toBits = x := by
  obtain ⟨⟨bits, valid⟩⟩ := x
  show Float.ofModel (Float.Model.ofBits bits) = _
  have hbits : UInt64.ofBitVec (pack Format.binary64 (unpack Format.binary64 bits.toBitVec)) = bits := by
    have hpack : pack Format.binary64 (unpack Format.binary64 bits.toBitVec) = bits.toBitVec :=
      pack_unpack ⟨⟨bits, valid⟩⟩
    rw [hpack]
  unfold Float.Model.ofBits Float.Model.pack
  congr

/-! ### Parts -/

/-- The parts of a double as its model has them. -/
def ofUnpacked : UnpackedFloat → Binary64
  | .infinity sign => .infinite (isNegative sign)
  | .notANumber => .nan
  | .zero sign => .finite (isNegative sign) 0 leastExponent
  | .finite sign mantissa exponent _ => .finite (isNegative sign) mantissa exponent

theorem ofBits_eq_ofUnpacked (word : UInt64) :
    ofBits word = ofUnpacked (unpack Format.binary64 word.toBitVec) := by
  have hbiased := toNat_biasedOf word.toBitVec
  have hfraction := toNat_fractionOf word.toBitVec
  have hnegative := isNegative_signOf word.toBitVec
  rw [unpack_eq_ofFields]
  simp only [UInt64.toNat_toBitVec] at hbiased hfraction hnegative
  unfold ofBits
  simp only [← hbiased, ← hfraction, ← hnegative]
  generalize biasedOf word.toBitVec = biased
  generalize fractionOf word.toBitVec = fraction
  have hall : biased.toNat = 2047 ↔ biased = -1#_ :=
    ⟨fun h => BitVec.eq_of_toNat_eq (by rw [h]; rfl), fun h => by rw [h]; rfl⟩
  have hnone : biased.toNat = 0 ↔ biased = 0#_ :=
    ⟨fun h => BitVec.eq_of_toNat_eq h, fun h => by rw [h]; rfl⟩
  have hzero : fraction.toNat = 0 ↔ fraction = 0#_ :=
    ⟨fun h => BitVec.eq_of_toNat_eq h, fun h => by rw [h]; rfl⟩
  simp only [hall, hnone, hzero]
  unfold ofFields
  by_cases h₁ : biased = -1#_
  · rw [if_pos h₁, if_pos h₁]
    by_cases h₂ : fraction = 0#_
    · rw [if_pos h₂, if_pos h₂]
      rfl
    · rw [if_neg h₂, if_neg h₂]
      rfl
  rw [if_neg h₁, if_neg h₁]
  by_cases h₃ : biased = 0#_
  · rw [if_pos h₃, if_pos h₃]
    by_cases h₂ : fraction = 0#_
    · rw [dif_pos h₂, h₂]
      rfl
    · rw [dif_neg h₂, h₃]
      rfl
  · rw [if_neg h₃, if_neg h₃, ← toNat_append_implicit]
    rfl

theorem decode_eq_ofUnpacked (x : Float) : decode x = ofUnpacked x.toModel.unpack :=
  ofBits_eq_ofUnpacked x.toModel.toBits

/-- A mantissa and an exponent that a double can have.  Each double has one pair: the
mantissa fills its 53 bits unless the exponent is the least. -/
structure Canonical (mantissa : Nat) (exponent : Int) : Prop where
  fits : mantissa < 2 ^ 53
  least : leastExponent ≤ exponent
  greatest : exponent ≤ greatestExponent
  full : 2 ^ 52 ≤ mantissa ∨ exponent = leastExponent

/-- Zero has the least exponent. -/
theorem Canonical.exponent_of_zero {exponent : Int} (h : Canonical 0 exponent) :
    exponent = leastExponent := by
  rcases h.full with hfull | hleast
  · omega
  · exact hleast

variable {x : Float} {negative : Bool} {mantissa : Nat} {exponent : Int}

/-- A finite double has parts. -/
theorem exists_decode (h : isFinite x = true) :
    ∃ negative mantissa exponent, decode x = .finite negative mantissa exponent := by
  unfold isFinite at h
  split at h
  · rename_i negative mantissa exponent hx
    exact ⟨negative, mantissa, exponent, hx⟩
  · cases h

theorem canonical_of_decode (h : decode x = .finite negative mantissa exponent) :
    Canonical mantissa exponent := by
  unfold decode ofBits at h
  generalize x.toBits = word at h
  have hbiased : word.toNat / 2 ^ 52 % 2 ^ 11 < 2 ^ 11 := Nat.mod_lt _ (by decide)
  have hfraction : word.toNat % 2 ^ 52 < 2 ^ 52 := Nat.mod_lt _ (by decide)
  simp only at h
  split at h
  · split at h <;> cases h
  · split at h
    · cases h
      exact ⟨by omega, by decide, by decide, .inr rfl⟩
    · cases h
      refine ⟨by omega, ?_, ?_, .inl (by omega)⟩
      · show (-1074 : Int) ≤ _
        omega
      · show _ ≤ (971 : Int)
        omega

/-- The parts of finite bits, and the sign bit, are all of the bits. -/
theorem bits_of_ofBits {word : UInt64} (h : ofBits word = .finite negative mantissa exponent) :
    negative = decide (2 ^ 63 ≤ word.toNat) ∧
      magnitudeBits mantissa exponent = word.toNat % 2 ^ 63 := by
  have hbiased : word.toNat / 2 ^ 52 % 2 ^ 11 < 2 ^ 11 := Nat.mod_lt _ (by decide)
  have hfraction : word.toNat % 2 ^ 52 < 2 ^ 52 := Nat.mod_lt _ (by decide)
  unfold ofBits at h
  simp only at h
  split at h
  · split at h <;> cases h
  · split at h
    · rename_i hzero
      cases h
      refine ⟨rfl, ?_⟩
      rw [magnitudeBits, if_pos hfraction]
      omega
    · cases h
      refine ⟨rfl, ?_⟩
      rw [magnitudeBits, if_neg (by omega)]
      omega

/-- **The parts of a finite double determine it.** -/
theorem encode_of_decode (h : decode x = .finite negative mantissa exponent) :
    encode (.finite negative mantissa exponent) = x := by
  obtain ⟨rfl, hmagnitude⟩ := bits_of_ofBits h
  have hword : x.toBits.toNat < 2 ^ 64 := x.toBits.toNat_lt
  have hbits : (if decide (2 ^ 63 ≤ x.toBits.toNat) then 2 ^ 63 + magnitudeBits mantissa exponent
      else magnitudeBits mantissa exponent) = x.toBits.toNat := by
    rw [hmagnitude]
    by_cases hle : 2 ^ 63 ≤ x.toBits.toNat
    · rw [if_pos (by simpa using hle)]
      omega
    · rw [if_neg (by simpa using hle)]
      omega
  simp only [encode, withSign]
  rw [hbits, UInt64.ofNat_toNat, ofBits_toBits]

/-- There is one infinity of each sign. -/
theorem encode_of_decode_infinite (h : decode x = .infinite negative) : encode (.infinite negative) = x := by
  have hword : x.toBits.toNat < 2 ^ 64 := x.toBits.toNat_lt
  unfold decode ofBits at h
  simp only at h
  split at h
  · split at h
    · cases h
      have hbits : (if decide (2 ^ 63 ≤ x.toBits.toNat) then 2 ^ 63 + infinityBits else infinityBits) =
          x.toBits.toNat := by
        unfold infinityBits
        by_cases hle : 2 ^ 63 ≤ x.toBits.toNat
        · rw [if_pos (by simpa using hle)]
          omega
        · rw [if_neg (by simpa using hle)]
          omega
      simp only [encode, withSign]
      rw [hbits, UInt64.ofNat_toNat, ofBits_toBits]
    · cases h
  · split at h <;> cases h

/-! ### Sign -/

theorem signOf_packComponents (sign : Sign) (biased : BitVec 11) (fraction : BitVec 52) :
    signOf (packComponents Format.binary64 sign biased fraction) = sign := by
  have hnegative := isNegative_signOf (packComponents Format.binary64 sign biased fraction)
  have hbiased := biased.isLt
  have hfraction := fraction.isLt
  rw [toNat_packComponents] at hnegative
  generalize signOf (packComponents Format.binary64 sign biased fraction) = found at hnegative
  cases sign <;> cases found <;> simp [isNegative] at hnegative ⊢ <;> omega

private theorem neg_ofFields (sign : Sign) (biased : BitVec 11) (fraction : BitVec 52) :
    (ofFields sign biased fraction).neg = ofFields (-sign) biased fraction := by
  unfold ofFields
  by_cases hall : biased = -1#_
  · rw [if_pos hall, if_pos hall]
    by_cases hfraction : fraction = 0#_
    · rw [if_pos hfraction, if_pos hfraction]
      rfl
    · rw [if_neg hfraction, if_neg hfraction]
      rfl
  rw [if_neg hall, if_neg hall]
  by_cases hnone : biased = 0#_
  · rw [if_pos hnone, if_pos hnone]
    by_cases hfraction : fraction = 0#_
    · rw [dif_pos hfraction, dif_pos hfraction]
      rfl
    · rw [dif_neg hfraction, dif_neg hfraction]
      rfl
  · rw [if_neg hnone, if_neg hnone]
    rfl

/-- Negation acts on the model as on the double. -/
theorem unpack_neg (x : Float) : (-x).toModel.unpack = x.toModel.unpack.neg := by
  show unpack Format.binary64 (pack Format.binary64 (unpack Format.binary64 _).neg) =
    (unpack Format.binary64 _).neg
  generalize x.toModel.toBits.toBitVec = bits
  rw [unpack_eq_ofFields bits, neg_ofFields]
  by_cases h : biasedOf bits = -1#_ → fractionOf bits = 0#_
  · rw [pack_ofFields h, unpack_eq_ofFields, signOf_packComponents]
    have hbiased : biasedOf (packComponents Format.binary64 (-signOf bits) (biasedOf bits)
        (fractionOf bits)) = biasedOf bits := unpackExponent_packComponents
    have hfraction : fractionOf (packComponents Format.binary64 (-signOf bits) (biasedOf bits)
        (fractionOf bits)) = fractionOf bits := unpackMantissa_packComponents
    rw [hbiased, hfraction]
  · obtain ⟨hall, hfraction⟩ := Classical.not_imp.mp h
    rw [ofFields, if_pos hall, if_neg hfraction]
    rfl

/-- The model of a finite double is a zero or a number above or below it. -/
theorem unpack_of_decode (h : decode x = .finite negative mantissa exponent) :
    ∃ sign, isNegative sign = negative ∧
      (x.toModel.unpack = .zero sign ∧ mantissa = 0 ∨
        ∃ hpos, x.toModel.unpack = .finite sign mantissa exponent hpos) := by
  rw [decode_eq_ofUnpacked] at h
  cases hu : x.toModel.unpack with
  | infinity sign => rw [hu] at h; cases h
  | notANumber => rw [hu] at h; cases h
  | zero sign =>
      rw [hu] at h
      cases h
      exact ⟨sign, rfl, .inl ⟨rfl, rfl⟩⟩
  | finite sign m e hpos =>
      rw [hu] at h
      cases h
      exact ⟨sign, rfl, .inr ⟨hpos, rfl⟩⟩

private theorem isNegative_neg (sign : Sign) : isNegative (-sign) = !isNegative sign := by
  cases sign <;> rfl

/-- Negation turns the sign of a finite double and leaves the rest. -/
theorem decode_neg (h : decode x = .finite negative mantissa exponent) :
    decode (-x) = .finite (!negative) mantissa exponent := by
  have hparts := h
  rw [decode_eq_ofUnpacked] at hparts ⊢
  obtain ⟨sign, hsign, ⟨hu, -⟩ | ⟨hpos, hu⟩⟩ := unpack_of_decode h
  · rw [hu] at hparts
    cases hparts
    rw [unpack_neg, hu, ← isNegative_neg]
    rfl
  · rw [unpack_neg, hu, ← hsign, ← isNegative_neg]
    rfl

/-- The other sign on the same parts is the negated double. -/
theorem encode_not (h : decode x = .finite negative mantissa exponent) :
    encode (.finite (!negative) mantissa exponent) = -x :=
  encode_of_decode (decode_neg h)

private theorem unpack_zero : (0 : Float).toModel.unpack = .zero .positive := by
  rfl

private theorem lt_iff (x y : Float) : x < y ↔ x.toModel.unpack.lt y.toModel.unpack = true := by
  show decide (x.toModel.unpack.lt y.toModel.unpack = true) = true ↔ _
  rw [decide_eq_true_iff]

/-- A finite double is below zero when its sign is set and its mantissa is not zero. -/
theorem lt_zero_iff (h : decode x = .finite negative mantissa exponent) :
    x < 0 ↔ negative = true ∧ mantissa ≠ 0 := by
  rw [lt_iff, unpack_zero]
  obtain ⟨sign, rfl, ⟨hu, hzero⟩ | ⟨hpos, hu⟩⟩ := unpack_of_decode h
  · rw [hu]
    show (some Ordering.eq == some Ordering.lt) = true ↔ _
    simp [hzero]
  · rw [hu]
    cases sign with
    | negative =>
        show (some Ordering.lt == some Ordering.lt) = true ↔ _
        simp [isNegative]
        omega
    | positive =>
        show (some Ordering.gt == some Ordering.lt) = true ↔ _
        simp [isNegative]

/-! ### Equality as numbers -/

/-- A finite double equals itself as a number. -/
theorem beq_self_of_decode (h : decode x = .finite negative mantissa exponent) :
    (x == x) = true := by
  show x.toModel.unpack.beq x.toModel.unpack = true
  obtain ⟨sign, -, ⟨hu, -⟩ | ⟨hpos, hu⟩⟩ := unpack_of_decode h
  · rw [hu]
    rfl
  · rw [hu]
    cases sign with
    | negative =>
        show (some ((compare exponent exponent).then (compare mantissa mantissa)).swap ==
          some .eq) = true
        simp
    | positive =>
        show (some ((compare exponent exponent).then (compare mantissa mantissa)) ==
          some .eq) = true
        simp

/-- Two zeros are equal as numbers, whatever their signs are. -/
theorem beq_of_zeros {y : Float} {other : Bool} {scale : Int}
    (hx : decode x = .finite negative 0 exponent) (hy : decode y = .finite other 0 scale) :
    (x == y) = true := by
  show x.toModel.unpack.beq y.toModel.unpack = true
  obtain ⟨s, -, ⟨hu, -⟩ | ⟨hpos, -⟩⟩ := unpack_of_decode hx
  · obtain ⟨t, -, ⟨hv, -⟩ | ⟨hpos, -⟩⟩ := unpack_of_decode hy
    · rw [hu, hv]
      rfl
    · omega
  · omega

end Binary64

end Scorecard
