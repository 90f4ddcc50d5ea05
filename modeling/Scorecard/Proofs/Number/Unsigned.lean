/-
Numbers without a sign.

A numeral has no sign, so what it is read as is not below zero: a finite double, or the
infinity above them all.  What is rounded has a mantissa that fits its field and an exponent
that does, so the bits of the parts stay clear of the bit for the sign, and of the bits that
are no number.

Among such doubles there is one zero only, so those that are equal as numbers are the same.
-/
import Scorecard.Proofs.Number.Decimals
import Scorecard.Proofs.Number.Packing

namespace Scorecard

namespace Binary64

/-! ### Mantissas -/

theorem nearestWhole_le {q : ℚ} {n : ℕ} (hq : 0 ≤ q) (h : q < n) : nearestWhole q ≤ n := by
  have hfloor : ⌊q⌋₊ < n := (Nat.floor_lt hq).mpr h
  unfold nearestWhole
  split <;> omega

/-- What is rounded has a mantissa of at most 53 bits. -/
theorem fst_roundRational_lt {q : ℚ} (hq : 0 < q) : (roundRational q).1 < 2 ^ 53 := by
  have hlog : Int.log 2 q < rationalExponent q + 53 := by
    unfold rationalExponent
    omega
  have hlt : q < 2 ^ (rationalExponent q + 53) := by
    have := (Int.lt_zpow_iff_log_lt one_lt_two hq).mpr hlog
    rwa [Nat.cast_ofNat] at this
  have hquotient : q / 2 ^ rationalExponent q < (2 ^ 53 : ℕ) := by
    rw [div_lt_iff₀ (by positivity)]
    rw [zpow_add₀ two_ne_zero, mul_comm] at hlt
    exact_mod_cast hlt
  have hle := nearestWhole_le (by positivity) hquotient
  unfold roundRational
  split
  · norm_num
  · simp only
    omega

theorem fst_roundRatio_lt (num : ℕ) {den : ℕ} (hden : 0 < den) : (roundRatio num den).1 < 2 ^ 53 := by
  rcases Nat.eq_zero_or_pos num with rfl | hnum
  · rw [roundRatio_zero]
    norm_num
  · rw [roundRatio_eq hnum hden]
    exact fst_roundRational_lt (by positivity)

/-! ### Signs -/

/-- The double is not below zero: if it is finite, its sign is not set. -/
def Unsigned (x : Float) : Prop :=
  ∀ negative mantissa exponent, decode x = .finite negative mantissa exponent → negative = false

theorem Unsigned.not_lt_zero {x : Float} (h : Unsigned x) (hx : isFinite x = true) : ¬ x < 0 := by
  obtain ⟨negative, mantissa, exponent, hparts⟩ := exists_decode hx
  rw [lt_zero_iff hparts, h _ _ _ hparts]
  simp

/-- The double is a number of a sign: it is finite and has that sign, or it is the infinity at
that end. -/
def Signed (negative : Bool) (x : Float) : Prop :=
  decode x = .infinite negative ∨ ∃ mantissa exponent, decode x = .finite negative mantissa exponent

/-- The double is a number without a sign: it is finite and its sign is not set, or it is the
infinity above all doubles. -/
def Magnitude (x : Float) : Prop :=
  decode x = .infinite false ∨ ∃ mantissa exponent, decode x = .finite false mantissa exponent

theorem Signed.decode_ne_nan {negative : Bool} {x : Float} (h : Signed negative x) : decode x ≠ .nan := by
  intro hnan
  rcases h with hinfinite | ⟨mantissa, exponent, hfinite⟩
  · rw [hinfinite] at hnan
    cases hnan
  · rw [hfinite] at hnan
    cases hnan

/-- The parts that bits have behind a sign, up to those of an infinity. -/
theorem decode_withSign (negative : Bool) {bits : ℕ} (h : bits ≤ infinityBits) :
    decode (withSign negative bits) =
      if bits = infinityBits then .infinite negative
      else if bits < 2 ^ 52 then .finite negative bits leastExponent
      else .finite negative (2 ^ 52 + bits % 2 ^ 52) ((bits / 2 ^ 52 : ℕ) - 1075) := by
  unfold infinityBits at h ⊢
  have hbits : (UInt64.ofNat (if negative then 2 ^ 63 + bits else bits)).toNat =
      if negative then 2 ^ 63 + bits else bits := by
    rw [UInt64.toNat_ofNat']
    split <;> omega
  have hsign : decide (2 ^ 63 ≤ if negative then 2 ^ 63 + bits else bits) = negative := by
    cases negative
    · simp
      omega
    · simp
  have hbiased : (if negative then 2 ^ 63 + bits else bits) / 2 ^ 52 % 2 ^ 11 = bits / 2 ^ 52 := by
    split <;> omega
  have hfraction : (if negative then 2 ^ 63 + bits else bits) % 2 ^ 52 = bits % 2 ^ 52 := by
    split <;> omega
  rw [withSign, decode_ofBits, ofBits]
  simp only [hbits, hsign, hbiased, hfraction]
  by_cases htop : bits = 2047 * 2 ^ 52
  · rw [if_pos htop, if_pos (by omega), if_pos (by omega)]
  rw [if_neg htop, if_neg (by omega)]
  by_cases hsmall : bits < 2 ^ 52
  · rw [if_pos hsmall, if_pos (by omega), Nat.mod_eq_of_lt hsmall]
  · rw [if_neg hsmall, if_neg (by omega)]

theorem decode_encode_infinite (negative : Bool) : decode (encode (.infinite negative)) = .infinite negative := by
  rw [encode, decode_withSign negative le_rfl, if_pos rfl]

/-- The bits up to those of an infinity are a number. -/
theorem signed_withSign (negative : Bool) {bits : ℕ} (h : bits ≤ infinityBits) :
    Signed negative (withSign negative bits) := by
  unfold Signed
  rw [decode_withSign negative h]
  split
  · exact .inl rfl
  · split
    · exact .inr ⟨_, _, rfl⟩
    · exact .inr ⟨_, _, rfl⟩

theorem magnitudeBits_lt {mantissa : ℕ} {exponent : ℤ} (hm : mantissa < 2 ^ 53)
    (he : exponent ≤ greatestExponent) : magnitudeBits mantissa exponent < infinityBits := by
  unfold greatestExponent at he
  unfold magnitudeBits infinityBits
  split <;> omega

/-- What is rounded keeps its sign. -/
theorem signed_nearest (negative : Bool) (num : ℕ) {den : ℕ} (hden : 0 < den) :
    Signed negative (nearest negative num den) := by
  unfold nearest
  split
  · exact signed_withSign negative (magnitudeBits_lt (by norm_num) (by decide)).le
  · have hmantissa := fst_roundRatio_lt num hden
    split
    rename_i mantissa exponent hround
    rw [hround] at hmantissa
    split
    · exact signed_withSign negative le_rfl
    · rename_i hle
      exact signed_withSign negative (magnitudeBits_lt hmantissa (not_lt.mp hle)).le

/-! ### Numbers without a sign -/

namespace Magnitude

variable {x y : Float}

theorem unsigned (h : Magnitude x) : Unsigned x := by
  intro negative mantissa exponent hparts
  rcases h with hinfinite | ⟨m, e, hfinite⟩
  · rw [hinfinite] at hparts
    cases hparts
  · rw [hfinite] at hparts
    cases hparts
    rfl

/-- The model of a finite one is a zero or another number, without a sign. -/
theorem unpack (h : Magnitude x) (hx : isFinite x = true) :
    x.toModel.unpack = .zero .positive ∨
      ∃ mantissa exponent hpos, x.toModel.unpack = .finite .positive mantissa exponent hpos := by
  obtain ⟨negative, mantissa, exponent, hparts⟩ := exists_decode hx
  obtain rfl := h.unsigned _ _ _ hparts
  obtain ⟨sign, hsign, hcases⟩ := unpack_of_decode hparts
  cases sign with
  | negative => cases hsign
  | positive =>
      rcases hcases with ⟨hzero, -⟩ | ⟨hpos, hfinite⟩
      · exact .inl hzero
      · exact .inr ⟨_, _, hpos, hfinite⟩

theorem unpack_infinite (h : Magnitude x) (hx : isFinite x = false) :
    x.toModel.unpack = .infinity .positive := by
  rcases h with hinfinite | ⟨m, e, hfinite⟩
  · obtain ⟨sign, hsign, hu⟩ := unpack_of_infinite hinfinite
    cases sign with
    | negative => cases hsign
    | positive => exact hu
  · unfold isFinite at hx
    rw [hfinite] at hx
    cases hx

theorem not_lt_zero (h : Magnitude x) : ¬ x < 0 := by
  cases hx : isFinite x with
  | true => exact h.unsigned.not_lt_zero hx
  | false =>
      intro hlt
      have hcompare : decide (x.toModel.unpack.lt (0 : Float).toModel.unpack = true) = true := hlt
      rw [h.unpack_infinite hx] at hcompare
      cases hcompare

/-- What equals a finite double as a number is that double, where neither has a sign. -/
theorem eq_of_beq (hx : Magnitude x) (hy : Magnitude y) (hfinite : isFinite y = true)
    (h : (x == y) = true) : x = y := by
  have hbeq : (x.toModel.unpack.compare y.toModel.unpack == some .eq) = true := h
  have hfinite' : isFinite x = true := by
    rw [← Bool.not_eq_false]
    intro hx'
    rw [hx.unpack_infinite hx'] at hbeq
    rcases hy.unpack hfinite with hv | ⟨n, k, hpos, hv⟩ <;> rw [hv] at hbeq <;> cases hbeq
  have hunpack : x.toModel.unpack = y.toModel.unpack := by
    rcases hx.unpack hfinite' with hu | ⟨m, e, hpos, hu⟩
    · rcases hy.unpack hfinite with hv | ⟨n, k, hpos', hv⟩
      · rw [hu, hv]
      · rw [hu, hv] at hbeq
        cases hbeq
    · rcases hy.unpack hfinite with hv | ⟨n, k, hpos', hv⟩
      · rw [hu, hv] at hbeq
        cases hbeq
      · rw [hu, hv] at hbeq ⊢
        have hparts : (some ((compare e k).then (compare m n)) == some .eq) = true := hbeq
        obtain ⟨rfl, rfl⟩ : e = k ∧ m = n := by simpa using hparts
        rfl
  have hdecode : decode x = decode y := by
    rw [decode_eq_ofUnpacked, decode_eq_ofUnpacked, hunpack]
  obtain ⟨negative, mantissa, exponent, hparts⟩ := exists_decode hfinite
  rw [← encode_of_decode hparts, ← encode_of_decode (hdecode.trans hparts)]

end Magnitude

end Binary64

/-- A decimal is read as a double of its sign. -/
theorem Decimal.signed_toFloat (negative : Bool) (d : Decimal) :
    Binary64.Signed negative (d.toFloat negative) := by
  unfold toFloat
  simp only
  split
  · exact Binary64.signed_withSign negative (Binary64.magnitudeBits_lt (by norm_num) (by decide)).le
  · split
    · exact Binary64.signed_withSign negative le_rfl
    · split
      · exact Binary64.signed_nearest negative _ one_pos
      · exact Binary64.signed_nearest negative _ (by positivity)

/-- A decimal without a sign is read as a double without one. -/
theorem Decimal.magnitude_toFloat (d : Decimal) : Binary64.Magnitude (d.toFloat false) :=
  d.signed_toFloat false

end Scorecard
