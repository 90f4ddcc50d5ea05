/-
Decimals that name a double read back as that double.

A decimal is a coefficient and a power of ten, and the same number has many of them:
text puts zeros behind, moves the point, or writes an exponent.  Reading rounds the
number that the decimal is, so all that has to be shown of a text is its value.

The fewest digits of a double are found by trying: a cut is taken only if it rounds
back, and where no cut does the exact decimal is taken, which rounds back as the value
of the double itself.  What is left are the two bounds that keep a huge written
exponent from being computed.  They cut off at `10 ^ 400` and `10 ^ -400`, far beyond
the greatest double and far below the least, so they never touch a decimal that
rounds to a double between those.
-/
import Scorecard.Number.Numeral
import Scorecard.Proofs.Number.Rounding

namespace Scorecard

namespace Decimal

/-! ### Digits -/

theorem ofDigits_eq_ofDigitChars (digits : List Char) :
    ofDigits digits = Nat.ofDigitChars 10 digits 0 := by
  unfold ofDigits digitValue
  rw [Nat.ofDigitChars_eq_foldl]
  simp only [Nat.mul_comm 10]

@[simp] theorem ofDigits_digitsOf (n : ℕ) : ofDigits (digitsOf n) = n := by
  rw [ofDigits_eq_ofDigitChars, digitsOf, Nat.ofDigitChars_ten_toDigits]

@[simp] theorem ofDigits_nil : ofDigits [] = 0 := rfl

theorem ofDigits_append (front back : List Char) :
    ofDigits (front ++ back) = ofDigits front * 10 ^ back.length + ofDigits back := by
  simp only [ofDigits_eq_ofDigitChars]
  rw [Nat.ofDigitChars_append, Nat.ofDigitChars_eq_ofDigitChars_zero, Nat.mul_comm]

@[simp] theorem ofDigits_zeros (n : ℕ) : ofDigits (List.replicate n '0') = 0 := by
  rw [ofDigits_eq_ofDigitChars, Nat.ofDigitChars_replicate_zero, Nat.mul_zero]

theorem isDigit_of_mem_digitsOf {n : ℕ} {c : Char} (h : c ∈ digitsOf n) : isDigit c = true := by
  have hdigit : c.isDigit = true := Nat.isDigit_of_mem_toDigits (by norm_num) (by norm_num) h
  simpa [isDigit, Char.isDigit, Char.le_def] using hdigit

theorem digitsOf_ne_nil (n : ℕ) : digitsOf n ≠ [] := Nat.toDigits_ne_nil

theorem lengthOf_pos (n : ℕ) : 0 < lengthOf n := Nat.length_toDigits_pos

theorem lt_pow_lengthOf (n : ℕ) : n < 10 ^ lengthOf n :=
  (Nat.length_toDigits_le_iff (by norm_num) (lengthOf_pos n)).mp le_rfl

theorem pow_lengthOf_le {n : ℕ} (hn : 0 < n) : 10 ^ (lengthOf n - 1) ≤ n := by
  by_contra hlt
  rw [not_le] at hlt
  have hlen := lengthOf_pos n
  by_cases hone : lengthOf n - 1 = 0
  · rw [hone, pow_zero] at hlt
    omega
  · have : lengthOf n ≤ lengthOf n - 1 :=
      (Nat.length_toDigits_le_iff (by norm_num) (by omega)).mpr hlt
    omega

theorem ofDigits_cons (c : Char) (rest : List Char) :
    ofDigits (c :: rest) = digitValue c * 10 ^ rest.length + ofDigits rest := by
  have hone : ofDigits [c] = digitValue c := by simp [ofDigits]
  rw [← List.singleton_append, ofDigits_append, hone]

theorem ofDigits_lt {digits : List Char} (h : ∀ c ∈ digits, isDigit c = true) :
    ofDigits digits < 10 ^ digits.length := by
  induction digits with
  | nil => simp
  | cons c rest ih =>
      have hrest := ih fun d hd => h d (List.mem_cons_of_mem _ hd)
      have hvalue : digitValue c ≤ 9 := by
        have hc := h c List.mem_cons_self
        simp only [isDigit, Bool.and_eq_true, decide_eq_true_eq] at hc
        have hle : c.toNat ≤ 57 := hc.2
        show c.toNat - 48 ≤ 9
        omega
      have hmul : digitValue c * 10 ^ rest.length ≤ 9 * 10 ^ rest.length :=
        Nat.mul_le_mul_right _ hvalue
      rw [ofDigits_cons, List.length_cons, pow_succ]
      omega

/-- An integer is short if its digits are within the limit. -/
theorem isShort_iff {k : ℤ} : isShort k = true ↔ lengthOf k.natAbs ≤ digitLimit := by
  rw [isShort, decide_eq_true_iff]
  have hpos : 0 < digitLimit := by
    unfold digitLimit
    decide
  exact (Nat.length_toDigits_le_iff (by norm_num) hpos).symm

/-- A power of ten has one digit more than zeros. -/
theorem isShort_pow {zeros : ℕ} : isShort (10 ^ zeros) = true ↔ zeros < digitLimit := by
  rw [isShort, decide_eq_true_iff, Int.natAbs_pow]
  exact Nat.pow_lt_pow_iff_right (by norm_num)

/-- Digits within the limit make a short integer, with either sign. -/
theorem isShort_ofDigits {digits : List Char} (h : ∀ c ∈ digits, isDigit c = true)
    (hlength : digits.length ≤ digitLimit) (negative : Bool) :
    isShort (if negative then -(ofDigits digits : ℤ) else ofDigits digits) = true := by
  have hmagnitude : (if negative then -(ofDigits digits : ℤ) else ofDigits digits).natAbs = ofDigits digits := by
    cases negative <;> simp
  rw [isShort, decide_eq_true_iff, hmagnitude]
  exact (ofDigits_lt h).trans_le (Nat.pow_le_pow_right (by norm_num) hlength)

/-- The digits of a number other than zero do not start with a zero. -/
theorem head_digitsOf {n : ℕ} {c : Char} {rest : List Char} (hn : 0 < n)
    (h : digitsOf n = c :: rest) : c ≠ '0' := by
  rintro rfl
  have hsmall : n = ofDigits rest := by
    rw [← ofDigits_digitsOf n, h, ofDigits_cons]
    simp [digitValue]
  have hle : 10 ^ rest.length ≤ n := by
    have hlen : lengthOf n = rest.length + 1 := by
      rw [lengthOf, h, List.length_cons]
    have := pow_lengthOf_le hn
    rwa [hlen, Nat.add_sub_cancel] at this
  have hlt : ofDigits rest < 10 ^ rest.length :=
    ofDigits_lt fun d hd => isDigit_of_mem_digitsOf (by rw [h]; exact List.mem_cons_of_mem _ hd)
  omega

/-! ### Values -/

/-- The number that a decimal is. -/
def value (d : Decimal) : ℚ :=
  d.coefficient * 10 ^ d.exponent

theorem value_pos {d : Decimal} (h : 0 < d.coefficient) : 0 < d.value := by
  unfold value
  positivity

theorem value_of_zero {d : Decimal} (h : d.coefficient = 0) : d.value = 0 := by
  unfold value
  rw [h, Nat.cast_zero, zero_mul]

/-- **A decimal is rounded by its value alone.** -/
theorem round_eq {d : Decimal} (h : 0 < d.coefficient) :
    d.round = Binary64.roundRational d.value := by
  unfold round value
  by_cases hexp : 0 ≤ d.exponent
  · rw [if_pos hexp, Binary64.roundRatio_eq (by positivity) one_pos]
    obtain ⟨n, hn⟩ := Int.eq_ofNat_of_zero_le hexp
    rw [hn, Int.toNat_natCast, zpow_natCast]
    push_cast
    rw [div_one]
  · rw [if_neg hexp, Binary64.roundRatio_eq h (by positivity)]
    obtain ⟨n, hn⟩ : ∃ n : ℕ, d.exponent = -n := ⟨(-d.exponent).toNat, by omega⟩
    rw [hn, neg_neg, Int.toNat_natCast, zpow_neg, zpow_natCast]
    push_cast
    rw [div_eq_mul_inv]

theorem coefficient_pos_of_round {d : Decimal} {mantissa : ℕ} {exponent : ℤ}
    (h : d.round = (mantissa, exponent)) (hpos : 0 < mantissa) : 0 < d.coefficient := by
  apply Nat.pos_of_ne_zero
  intro hzero
  have hnone : d.round.1 = 0 := by
    unfold round
    rw [hzero, Nat.zero_mul]
    split <;> exact Binary64.roundRatio_zero _
  rw [h] at hnone
  simp only at hnone
  omega

/-! ### The two bounds -/

theorem le_value {d : Decimal} (h : 0 < d.coefficient) :
    (10 : ℚ) ^ (lengthOf d.coefficient + d.exponent - 1) ≤ d.value := by
  have hlen := lengthOf_pos d.coefficient
  have hle : (10 : ℚ) ^ (lengthOf d.coefficient - 1) ≤ d.coefficient := by
    exact_mod_cast pow_lengthOf_le h
  unfold value
  rw [show (lengthOf d.coefficient + d.exponent - 1 : ℤ) =
    (lengthOf d.coefficient - 1 : ℕ) + d.exponent by omega, zpow_add₀ (by norm_num), zpow_natCast]
  gcongr

theorem value_lt (d : Decimal) :
    d.value < (10 : ℚ) ^ (lengthOf d.coefficient + d.exponent) := by
  have hlt : (d.coefficient : ℚ) < 10 ^ lengthOf d.coefficient := by
    exact_mod_cast lt_pow_lengthOf d.coefficient
  unfold value
  rw [zpow_add₀ (by norm_num), zpow_natCast]
  gcongr

/-- Eight is two to the third, and less than ten. -/
private theorem two_pow_le_ten_pow {n : ℤ} (hn : 0 ≤ n) : (2 : ℚ) ^ (3 * n) ≤ 10 ^ n := by
  rw [zpow_mul]
  exact zpow_le_zpow_left₀ hn (by norm_num) (by norm_num)

/-- No decimal that rounds to a finite double other than zero is out of bounds. -/
theorem leading_of_round {d : Decimal} {mantissa : ℕ} {exponent : ℤ}
    (h : d.round = (mantissa, exponent)) (hpos : 0 < mantissa)
    (hgreatest : exponent ≤ Binary64.greatestExponent) :
    tinyExponent ≤ lengthOf d.coefficient + d.exponent ∧
      lengthOf d.coefficient + d.exponent ≤ hugeExponent := by
  have hcoefficient := coefficient_pos_of_round h hpos
  have hvalue := value_pos hcoefficient
  rw [round_eq hcoefficient] at h
  constructor
  · by_contra hlt
    unfold tinyExponent at hlt
    have hsmall : d.value < 2 ^ (-1076 : ℤ) := by
      calc d.value < 10 ^ (lengthOf d.coefficient + d.exponent) := value_lt d
        _ ≤ 10 ^ (-(401 : ℤ)) := zpow_le_zpow_right₀ (by norm_num) (by omega)
        _ = (10 ^ (401 : ℤ))⁻¹ := zpow_neg _ _
        _ ≤ (2 ^ (3 * 401 : ℤ))⁻¹ := by
          have := two_pow_le_ten_pow (n := 401) (by norm_num)
          gcongr
        _ = 2 ^ (-(3 * 401 : ℤ)) := (zpow_neg _ _).symm
        _ ≤ 2 ^ (-1076 : ℤ) := zpow_le_zpow_right₀ (by norm_num) (by norm_num)
    exact absurd hsmall (not_lt.mpr (Binary64.le_of_roundRational hvalue h hpos))
  · by_contra hlt
    unfold hugeExponent at hlt
    have hlarge : (2 : ℚ) ^ (1024 : ℤ) ≤ d.value := by
      calc (2 : ℚ) ^ (1024 : ℤ) ≤ 2 ^ (3 * 400 : ℤ) :=
            zpow_le_zpow_right₀ (by norm_num) (by norm_num)
        _ ≤ 10 ^ (400 : ℤ) := two_pow_le_ten_pow (by norm_num)
        _ ≤ 10 ^ (lengthOf d.coefficient + d.exponent - 1) :=
            zpow_le_zpow_right₀ (by norm_num) (by omega)
        _ ≤ d.value := le_value hcoefficient
    exact absurd (Binary64.lt_of_roundRational hvalue h hgreatest) (not_lt.mpr hlarge)

/-! ### Reading -/

variable {mantissa : ℕ} {exponent : ℤ}

/-- What rounds to the parts of a double is read as that double. -/
theorem toFloat_of_round {d : Decimal} (h : d.round = (mantissa, exponent)) (hpos : 0 < mantissa)
    (hgreatest : exponent ≤ Binary64.greatestExponent) (negative : Bool) :
    d.toFloat negative = Binary64.encode (.finite negative mantissa exponent) := by
  have hcoefficient := coefficient_pos_of_round h hpos
  obtain ⟨htiny, hhuge⟩ := leading_of_round h hpos hgreatest
  have hnearest : ∀ {num den : ℕ}, 0 < num → Binary64.roundRatio num den = (mantissa, exponent) →
      Binary64.nearest negative num den = Binary64.encode (.finite negative mantissa exponent) := by
    intro num den hnum hr
    unfold Binary64.nearest
    rw [if_neg hnum.ne', hr]
    exact if_neg (not_lt.mpr hgreatest)
  unfold round at h
  unfold toFloat
  simp only
  rw [if_neg (by omega), if_neg (by omega)]
  by_cases hexp : 0 ≤ d.exponent
  · rw [if_pos hexp] at h ⊢
    exact hnearest (by positivity) h
  · rw [if_neg hexp] at h ⊢
    exact hnearest hcoefficient h

/-- Decimals of one value are read as one double, if one of them rounds to its parts. -/
theorem toFloat_of_value_eq {d other : Decimal} (hvalue : d.value = other.value)
    (h : other.round = (mantissa, exponent)) (hpos : 0 < mantissa)
    (hgreatest : exponent ≤ Binary64.greatestExponent) (negative : Bool) :
    d.toFloat negative = Binary64.encode (.finite negative mantissa exponent) := by
  have hother := coefficient_pos_of_round h hpos
  have hd : 0 < d.coefficient := by
    apply Nat.pos_of_ne_zero
    intro hzero
    rw [value_of_zero hzero] at hvalue
    exact (value_pos hother).ne hvalue
  refine toFloat_of_round ?_ hpos hgreatest negative
  rw [round_eq hd, hvalue, ← round_eq hother, h]

theorem toFloat_zero {d : Decimal} (h : d.coefficient = 0) (negative : Bool) :
    d.toFloat negative = Binary64.encode (.finite negative 0 Binary64.leastExponent) := by
  unfold toFloat
  simp only
  rw [if_pos (.inl h)]

/-! ### The decimals of a double -/

theorem value_exact (mantissa : ℕ) (exponent : ℤ) :
    (exact mantissa exponent).value = mantissa * 2 ^ exponent := by
  unfold exact value
  by_cases h : 0 ≤ exponent
  · obtain ⟨n, rfl⟩ := Int.eq_ofNat_of_zero_le h
    rw [if_pos h]
    simp
  · obtain ⟨n, rfl⟩ : ∃ n : ℕ, exponent = -n := ⟨(-exponent).toNat, by omega⟩
    rw [if_neg h]
    simp only [neg_neg, Int.toNat_natCast, zpow_neg, zpow_natCast]
    push_cast
    rw [mul_assoc, ← div_eq_mul_inv, ← div_pow, ← inv_pow]
    norm_num

theorem round_exact (h : Binary64.Canonical mantissa exponent) (hpos : 0 < mantissa) :
    (exact mantissa exponent).round = (mantissa, exponent) := by
  have hcoefficient : 0 < (exact mantissa exponent).coefficient := by
    unfold exact
    split <;> positivity
  rw [round_eq hcoefficient, value_exact, Binary64.roundRational_value h hpos]

/-- A cut is only taken if it rounds back. -/
theorem round_of_cut {d found : Decimal} {count : ℕ} (h : d.cut? count mantissa exponent = some found) :
    found.round = (mantissa, exponent) := by
  unfold cut? at h
  simp only at h
  split at h
  · have hback := List.find?_some h
    exact beq_iff_eq.mp hback
  · have hback := List.find?_some h
    exact beq_iff_eq.mp hback

/-- **The fewest digits of a double round back to it.** -/
theorem round_shortest (h : Binary64.Canonical mantissa exponent) (hpos : 0 < mantissa) :
    (shortest mantissa exponent).round = (mantissa, exponent) := by
  unfold shortest
  simp only
  cases hfound : List.findSome?
      (fun count => (exact mantissa exponent).cut? count mantissa exponent) _ with
  | none => exact round_exact h hpos
  | some d =>
      obtain ⟨count, -, hcut⟩ := List.exists_of_findSome?_eq_some hfound
      exact round_of_cut hcut

end Decimal

end Scorecard
