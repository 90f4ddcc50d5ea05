/-
The plain text of a double reads back.

The plain layout has four forms: digits and zeros with `.0` behind, a point among the
digits, a point and zeros in front of them, and one digit with an exponent.  Each is
the spelling of a numeral that has the value of the decimal that was laid out, and
no form can be taken for an integer, because there is a point or an exponent in it.

Together with what is known of the fewest digits, the text of a finite double is a
sign and the spelling of a numeral that is read as that double.  An integer is spelt
without point and exponent, and it is read as the double that it equals.
-/
import Scorecard.Proofs.Number.Spelling
import Mathlib.Data.Nat.Cast.Field

namespace Scorecard

open Decimal

/-- The digits of a number lead a numeral: a zero stands alone. -/
theorem Decimal.digitsOf_leading (n : ℕ) :
    digitsOf n = ['0'] ∧ n = 0 ∨ (digitsOf n).head? ≠ some '0' ∧ 0 < n := by
  by_cases h : n = 0
  · subst h
    exact .inl ⟨rfl, rfl⟩
  · refine .inr ⟨?_, by omega⟩
    obtain ⟨c, rest, hrun⟩ := List.exists_cons_of_ne_nil (digitsOf_ne_nil n)
    rw [hrun, List.head?_cons]
    intro hc
    exact head_digitsOf (by omega) hrun (by simpa using hc)

/-- Zeros are digits. -/
private theorem isDigit_of_mem_zeros {n : ℕ} {c : Char} (h : c ∈ List.replicate n '0') :
    isDigit c = true := by
  rw [List.eq_of_mem_replicate h]
  rfl

namespace Numeral

/-- The numeral is well formed, no integer, and its spelling and value are these. -/
structure Spells (n : Numeral) (text : List Char) (value : ℚ) : Prop where
  written : n.Written
  broken : n.fraction ≠ [] ∨ n.exponent ≠ []
  spelling : text = n.spelling
  value : n.toDecimal.value = value

end Numeral

namespace Layout

variable {d : Decimal}

/-- Digits, zeros, and a point with a zero behind it. -/
private theorem spells_whole (hexp : 0 ≤ d.exponent) (hzero : d.coefficient = 0 → d.exponent = 0) :
    Numeral.Spells ⟨digitsOf d.coefficient ++ List.replicate d.exponent.toNat '0', ['0'], false, []⟩
      (digitsOf d.coefficient ++ List.replicate d.exponent.toNat '0' ++ ['.', '0']) d.value := by
  obtain ⟨k, hk⟩ := Int.eq_ofNat_of_zero_le hexp
  refine ⟨⟨?_, by simp [isDigit], by simp, by simp [digitsOf_ne_nil], ?_, by simp⟩, by simp, ?_, ?_⟩
  · intro c hc
    rcases List.mem_append.mp hc with hc | hc
    · exact isDigit_of_mem_digitsOf hc
    · exact isDigit_of_mem_zeros hc
  · rcases digitsOf_leading d.coefficient with ⟨hrun, hnone⟩ | ⟨hrun, -⟩
    · rw [hrun, hzero hnone]
      exact .inl rfl
    · rw [List.head?_append_of_ne_nil _ (digitsOf_ne_nil _)]
      exact .inr hrun
  · simp [Numeral.spelling, Numeral.fractionSpelling, Numeral.exponentSpelling]
  · have hdigits : ofDigits ['0'] = 0 := rfl
    unfold Numeral.toDecimal value
    simp only [ofDigits_append, ofDigits_digitsOf, ofDigits_zeros, hdigits, ofDigits_nil,
      List.length_replicate, List.length_singleton, hk, Int.toNat_natCast]
    push_cast
    simp only [zpow_natCast, zpow_neg, add_zero, zpow_one]
    field_simp

/-- A point among the digits. -/
private theorem spells_point (hexp : d.exponent < 0) (hzero : d.coefficient = 0 → d.exponent = 0)
    {k : ℕ} (hk : (k : ℤ) = lengthOf d.coefficient - 1 + d.exponent) :
    Numeral.Spells
      ⟨(digitsOf d.coefficient).take (k + 1), (digitsOf d.coefficient).drop (k + 1), false, []⟩
      ((digitsOf d.coefficient).take (k + 1) ++ '.' :: (digitsOf d.coefficient).drop (k + 1))
      d.value := by
  have hlen : (digitsOf d.coefficient).length = lengthOf d.coefficient := rfl
  have hfraction : (digitsOf d.coefficient).drop (k + 1) ≠ [] := by
    intro hnil
    have := List.drop_eq_nil_iff.mp hnil
    omega
  refine ⟨⟨?_, ?_, by simp, ?_, ?_, by simp⟩, .inl hfraction, ?_, ?_⟩
  · intro c hc
    exact isDigit_of_mem_digitsOf (List.mem_of_mem_take hc)
  · intro c hc
    exact isDigit_of_mem_digitsOf (List.mem_of_mem_drop hc)
  · simp [digitsOf_ne_nil]
  · rcases digitsOf_leading d.coefficient with ⟨-, hnone⟩ | ⟨hrun, -⟩
    · have := hzero hnone
      omega
    · refine .inr ?_
      simpa [List.head?_take] using hrun
  · simp [Numeral.spelling, Numeral.fractionSpelling, Numeral.exponentSpelling, hfraction]
  · have hscale : (0 : ℤ) - ((digitsOf d.coefficient).drop (k + 1)).length = d.exponent := by
      rw [List.length_drop]
      omega
    unfold Numeral.toDecimal value
    simp only [List.take_append_drop, ofDigits_digitsOf, ofDigits_nil, Nat.cast_zero,
      Bool.false_eq_true, if_false, hscale]

/-- A point and zeros in front of the digits. -/
private theorem spells_small {k : ℕ} (hk : (k : ℤ) = -(lengthOf d.coefficient - 1 + d.exponent) - 1) :
    Numeral.Spells ⟨['0'], List.replicate k '0' ++ digitsOf d.coefficient, false, []⟩
      ('0' :: '.' :: (List.replicate k '0' ++ digitsOf d.coefficient)) d.value := by
  have hlen : (digitsOf d.coefficient).length = lengthOf d.coefficient := rfl
  refine ⟨⟨by simp [isDigit], ?_, by simp, by simp, .inl rfl, by simp⟩, by simp [digitsOf_ne_nil],
    ?_, ?_⟩
  · intro c hc
    rcases List.mem_append.mp hc with hc | hc
    · exact isDigit_of_mem_zeros hc
    · exact isDigit_of_mem_digitsOf hc
  · simp [Numeral.spelling, Numeral.fractionSpelling, Numeral.exponentSpelling, digitsOf_ne_nil]
  · have hdigits : ofDigits ['0'] = 0 := rfl
    have hscale : (0 : ℤ) - (List.replicate k '0' ++ digitsOf d.coefficient).length = d.exponent := by
      rw [List.length_append, List.length_replicate]
      omega
    unfold Numeral.toDecimal value
    simp only [ofDigits_append, hdigits, ofDigits_zeros, ofDigits_digitsOf, ofDigits_nil,
      Nat.cast_zero, zero_mul, zero_add, Bool.false_eq_true, if_false, hscale]

/-- The digits of a written exponent. -/
private def paddedDigits (leading : ℤ) : List Char :=
  List.replicate (2 - (digitsOf leading.natAbs).length) '0' ++ digitsOf leading.natAbs

private theorem paddedDigits_ne_nil (leading : ℤ) : paddedDigits leading ≠ [] := by
  simp [paddedDigits, digitsOf_ne_nil]

private theorem ofDigits_paddedDigits (leading : ℤ) :
    ofDigits (paddedDigits leading) = leading.natAbs := by
  rw [paddedDigits, ofDigits_append, ofDigits_zeros, ofDigits_digitsOf, zero_mul, zero_add]

private theorem exponentText_eq (leading : ℤ) :
    plain.exponentText leading =
      Numeral.exponentSpelling (decide (leading < 0)) (paddedDigits leading) := by
  unfold exponentText Numeral.exponentSpelling
  rw [if_neg (paddedDigits_ne_nil leading)]
  simp only [decide_eq_true_eq]
  rfl

/-- One digit, those behind it as a fraction, and an exponent. -/
private theorem spells_scientific {c : Char} {rest : List Char} {leading : ℤ}
    (hrun : digitsOf d.coefficient = c :: rest) (hpos : 0 < d.coefficient)
    (hleading : leading = rest.length + d.exponent) :
    Numeral.Spells ⟨[c], rest, decide (leading < 0), paddedDigits leading⟩
      (c :: (Numeral.fractionSpelling rest ++ plain.exponentText leading)) d.value := by
  have hmem : ∀ e ∈ c :: rest, isDigit e = true := fun e he =>
    isDigit_of_mem_digitsOf (by rw [hrun]; exact he)
  refine ⟨⟨?_, ?_, ?_, by simp, ?_, ?_⟩, .inr (paddedDigits_ne_nil leading), ?_, ?_⟩
  · intro e he
    refine hmem e ?_
    rw [List.mem_singleton.mp he]
    exact List.mem_cons_self
  · intro e he
    exact hmem e (List.mem_cons_of_mem _ he)
  · intro e he
    rcases List.mem_append.mp he with he | he
    · exact isDigit_of_mem_zeros he
    · exact isDigit_of_mem_digitsOf he
  · refine .inr ?_
    simpa using head_digitsOf hpos hrun
  · intro hnil
    exact absurd hnil (paddedDigits_ne_nil leading)
  · rw [exponentText_eq]
    rfl
  · have hcoefficient : ofDigits (c :: rest) = d.coefficient := by
      rw [← hrun, ofDigits_digitsOf]
    have hscale : (if decide (leading < 0) = true then -(leading.natAbs : ℤ) else leading.natAbs) -
        rest.length = d.exponent := by
      by_cases h : leading < 0
      · rw [if_pos (by simpa using h)]
        omega
      · rw [if_neg (by simpa using h)]
        omega
    unfold Numeral.toDecimal value
    simp only [List.singleton_append, hcoefficient, ofDigits_paddedDigits, hscale]

/-- **What the plain layout writes is a numeral of the same value.** -/
theorem exists_spells (hzero : d.coefficient = 0 → d.exponent = 0) :
    ∃ n : Numeral, n.Spells (plain.digits d) d.value := by
  have hlen : (digitsOf d.coefficient).length = lengthOf d.coefficient := rfl
  have hpos := lengthOf_pos d.coefficient
  unfold digits
  simp only
  by_cases hrange : plain.positionalFrom ≤ ((digitsOf d.coefficient).length : ℤ) - 1 + d.exponent ∧
      ((digitsOf d.coefficient).length : ℤ) - 1 + d.exponent < plain.positionalBelow
  · rw [if_pos hrange]
    by_cases hexp : 0 ≤ d.exponent
    · rw [if_pos hexp]
      exact ⟨_, spells_whole hexp hzero⟩
    rw [if_neg hexp]
    by_cases hleading : 0 ≤ ((digitsOf d.coefficient).length : ℤ) - 1 + d.exponent
    · rw [if_pos hleading]
      exact ⟨_, spells_point (by omega) hzero (by omega)⟩
    · rw [if_neg hleading]
      exact ⟨_, spells_small (by omega)⟩
  · rw [if_neg hrange]
    have hcoefficient : 0 < d.coefficient := by
      refine Nat.pos_of_ne_zero fun hnone => hrange ?_
      rw [hnone, hzero hnone]
      decide
    obtain ⟨c, rest, hrun⟩ := List.exists_cons_of_ne_nil (digitsOf_ne_nil d.coefficient)
    have hscientific := spells_scientific hrun hcoefficient rfl
    have hleading : ((digitsOf d.coefficient).length : ℤ) - 1 + d.exponent =
        rest.length + d.exponent := by
      rw [hrun, List.length_cons]
      push_cast
      ring
    rw [hleading, hrun]
    cases rest with
    | nil => exact ⟨_, hscientific⟩
    | cons e more => exact ⟨_, hscientific⟩

end Layout

/-! ### Doubles -/

variable {x : Float} {negative : Bool} {mantissa : ℕ} {exponent : ℤ}

namespace Numeral

/-- The numeral is well formed, and behind either sign it is read as the double with
these parts. -/
structure Names (n : Numeral) (mantissa : ℕ) (exponent : ℤ) : Prop where
  written : n.Written
  reads : ∀ negative, n.toFloat negative = Binary64.encode (.finite negative mantissa exponent)

/-- A numeral with the value of a double names it. -/
theorem names_of_value {n : Numeral} (hn : n.Written) (hc : Binary64.Canonical mantissa exponent)
    (hvalue : n.toDecimal.value = mantissa * 2 ^ exponent) : n.Names mantissa exponent := by
  refine ⟨hn, fun negative => ?_⟩
  by_cases hpos : 0 < mantissa
  · refine toFloat_of_value_eq ?_ (round_exact hc hpos) hpos hc.greatest negative
    rw [hvalue, value_exact]
  · obtain rfl : mantissa = 0 := by omega
    have hzero : n.toDecimal.coefficient = 0 := by
      apply Nat.eq_zero_of_not_pos
      intro hcoefficient
      have := value_pos hcoefficient
      rw [hvalue] at this
      simp at this
    rw [hc.exponent_of_zero]
    exact toFloat_zero hzero negative

end Numeral

/-- The sign in front of a number. -/
def signText (negative : Bool) : List Char :=
  if negative then ['-'] else []

/-- **The plain text of a finite double is a sign and a numeral that names it.** -/
theorem Layout.text_plain (hx : Binary64.decode x = .finite negative mantissa exponent) :
    ∃ n : Numeral, n.Names mantissa exponent ∧ (n.fraction ≠ [] ∨ n.exponent ≠ []) ∧
      plain.text x = signText negative ++ n.spelling := by
  have hc := Binary64.canonical_of_decode hx
  have htext : plain.text x = signText negative ++
      plain.digits (if mantissa = 0 then ⟨0, 0⟩ else shortest mantissa exponent) := by
    unfold text textWith
    rw [hx]
    rfl
  by_cases hzero : mantissa = 0
  · rw [if_pos hzero] at htext
    obtain ⟨n, hn⟩ := @exists_spells ⟨0, 0⟩ fun _ => rfl
    refine ⟨n, Numeral.names_of_value hn.written hc ?_, hn.broken, ?_⟩
    · rw [hn.value, hzero, value_of_zero rfl, Nat.cast_zero, zero_mul]
    · rw [htext, hn.spelling]
  · rw [if_neg hzero] at htext
    have hround := round_shortest hc (by omega)
    have hcoefficient := coefficient_pos_of_round hround (by omega)
    obtain ⟨n, hn⟩ := @exists_spells (shortest mantissa exponent) (by omega)
    refine ⟨n, ⟨hn.written, ?_⟩, hn.broken, ?_⟩
    · exact toFloat_of_value_eq hn.value hround (by omega) hc.greatest
    · rw [htext, hn.spelling]

/-! ### Integers -/

/-- The numeral of a whole number. -/
def Numeral.ofNat (k : ℕ) : Numeral :=
  ⟨digitsOf k, [], false, []⟩

theorem Numeral.written_ofNat (k : ℕ) : (Numeral.ofNat k).Written := by
  refine ⟨fun c hc => isDigit_of_mem_digitsOf hc, ?_, ?_, digitsOf_ne_nil k, ?_, fun _ => rfl⟩
  · intro c hc
    exact absurd hc List.not_mem_nil
  · intro c hc
    exact absurd hc List.not_mem_nil
  · rcases digitsOf_leading k with ⟨hrun, -⟩ | ⟨hrun, -⟩
    · exact .inl hrun
    · exact .inr hrun

theorem Numeral.spelling_ofNat (k : ℕ) : (Numeral.ofNat k).spelling = digitsOf k := by
  simp [Numeral.spelling, Numeral.ofNat, Numeral.fractionSpelling, Numeral.exponentSpelling]

theorem Numeral.value_ofNat (k : ℕ) : (Numeral.ofNat k).toDecimal.value = k := by
  simp [Numeral.toDecimal, Numeral.ofNat, value]

theorem toList_intText (k : ℤ) :
    (intText k).toList = signText (decide (k < 0)) ++ (Numeral.ofNat k.natAbs).spelling := by
  rw [Numeral.spelling_ofNat]
  simp [intText, signText]

/-- The magnitude that `toInt?` finds is the magnitude of the double. -/
private theorem magnitude_eq {magnitude : ℕ}
    (h : (if 0 ≤ exponent then some (mantissa * 2 ^ exponent.toNat)
      else if mantissa % 2 ^ (-exponent).toNat = 0 then some (mantissa / 2 ^ (-exponent).toNat)
      else none) = some magnitude) : (magnitude : ℚ) = mantissa * 2 ^ exponent := by
  by_cases hexp : 0 ≤ exponent
  · obtain ⟨n, rfl⟩ := Int.eq_ofNat_of_zero_le hexp
    rw [if_pos hexp, Option.some.injEq] at h
    rw [← h, Int.toNat_natCast, zpow_natCast]
    push_cast
    rfl
  · obtain ⟨n, rfl⟩ : ∃ n : ℕ, exponent = -n := ⟨(-exponent).toNat, by omega⟩
    rw [if_neg hexp, neg_neg, Int.toNat_natCast] at h
    by_cases hdvd : mantissa % 2 ^ n = 0
    · rw [if_pos hdvd, Option.some.injEq] at h
      rw [← h, Nat.cast_div (Nat.dvd_of_mod_eq_zero hdvd) (by positivity), zpow_neg, zpow_natCast,
        div_eq_mul_inv]
      push_cast
      rfl
    · rw [if_neg hdvd] at h
      cases h

/-- The integer that a double equals has its sign and its value. -/
theorem Binary64.toInt_eq_some {k : ℤ} (hx : decode x = .finite negative mantissa exponent)
    (h : toInt? x = some k) :
    (k < 0 ↔ negative = true ∧ mantissa ≠ 0) ∧ (k.natAbs : ℚ) = mantissa * 2 ^ exponent := by
  unfold toInt? at h
  rw [hx] at h
  simp only at h
  obtain ⟨_, hcast, rfl⟩ := Option.map_eq_some_iff.mp h
  obtain ⟨magnitude, hfound, hpure⟩ := Option.bind_eq_some_iff.mp hcast
  cases hpure
  have hmagnitude := magnitude_eq hfound
  have hnone : magnitude = 0 ↔ mantissa = 0 := by
    have hcast : (magnitude : ℚ) = 0 ↔ (mantissa : ℚ) = 0 := by
      rw [hmagnitude, mul_eq_zero_iff_right (by positivity)]
    exact_mod_cast hcast
  cases negative with
  | true =>
      rw [if_pos rfl, Int.natAbs_neg, Int.natAbs_natCast]
      refine ⟨?_, hmagnitude⟩
      simp only [true_and]
      omega
  | false =>
      rw [if_neg Bool.false_ne_true, Int.natAbs_natCast]
      exact ⟨by simp, hmagnitude⟩

end Scorecard
