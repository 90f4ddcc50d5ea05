/-
What a number is, exactly.

A double is an infinity or a rational number, if it is a number at all.  Two doubles are equal as
numbers exactly if they are the same of these, and a double equals an integer exactly if the
integer is its rational.  So equality across the kinds of numbers is an equality of one thing.

The two zeros are one number.  Otherwise the rational determines the double, since its parts are
those to which the rational rounds.
-/
import Scorecard.Proofs.Number.Packing
import Scorecard.Proofs.Number.Rounding

namespace Scorecard

/-- A number of any kind: an infinity or a rational. -/
inductive Amount where
  | infinite (negative : Bool)
  | rational (q : ℚ)

namespace Binary64

open Float.Model Float.Model.UnpackedFloat

/-- The rational with these parts. -/
def rational (negative : Bool) (mantissa : ℕ) (exponent : ℤ) : ℚ :=
  (if negative then -(mantissa : ℚ) else mantissa) * 2 ^ exponent

/-- The amount that a double is, if it is a number. -/
def amount? (x : Float) : Option Amount :=
  match decode x with
  | .nan => none
  | .infinite negative => some (.infinite negative)
  | .finite negative mantissa exponent => some (.rational (rational negative mantissa exponent))

variable {x y : Float} {negative other : Bool} {mantissa : ℕ} {exponent scale : ℤ}

/-! ### Doubles -/

@[simp] theorem rational_zero (negative : Bool) (exponent : ℤ) : rational negative 0 exponent = 0 := by
  cases negative <;> simp [rational]

/-- The sign is that of the rational, unless it is zero. -/
theorem rational_lt_zero_iff (hpos : 0 < mantissa) :
    rational negative mantissa exponent < 0 ↔ negative = true := by
  have hvalue : (0 : ℚ) < mantissa * 2 ^ exponent := by positivity
  cases negative with
  | false => simpa [rational] using hvalue.le
  | true => simpa [rational] using hvalue

theorem abs_rational (negative : Bool) (mantissa : ℕ) (exponent : ℤ) :
    |rational negative mantissa exponent| = mantissa * 2 ^ exponent := by
  have hpower : (0 : ℚ) < 2 ^ exponent := by positivity
  cases negative <;> simp [rational, abs_mul, abs_of_pos hpower]

/-- Parts of doubles with one rational are the same parts, but for the sign of a zero. -/
theorem parts_of_rational {n : ℕ} (h : Canonical mantissa exponent) (h' : Canonical n scale)
    (hsame : rational negative mantissa exponent = rational other n scale) :
    (mantissa = 0 ∧ n = 0) ∨ (negative = other ∧ mantissa = n ∧ exponent = scale) := by
  have habs : (mantissa : ℚ) * 2 ^ exponent = n * 2 ^ scale := by
    rw [← abs_rational negative, ← abs_rational other, hsame]
  rcases Nat.eq_zero_or_pos mantissa with rfl | hpos
  · have hpower : (2 : ℚ) ^ scale ≠ 0 := by positivity
    have hzero : n = 0 := by simpa [hpower] using habs.symm
    exact .inl ⟨rfl, hzero⟩
  · have hpos' : 0 < n := by
      refine Nat.pos_of_ne_zero fun hzero => ?_
      have hvalue : (0 : ℚ) < mantissa * 2 ^ exponent := by positivity
      rw [habs, hzero] at hvalue
      simp at hvalue
    have hparts := roundRational_value h hpos
    rw [habs, roundRational_value h' hpos'] at hparts
    cases hparts
    have hsign : negative = true ↔ other = true := by
      have hnegative : rational negative mantissa exponent < 0 ↔ negative = true :=
        rational_lt_zero_iff hpos
      rw [hsame, rational_lt_zero_iff hpos'] at hnegative
      exact hnegative.symm
    exact .inr ⟨Bool.eq_iff_iff.mpr hsign, rfl, rfl⟩

/-- Parts that compare as equal, the exponents first, are the same. -/
theorem eq_of_compare_parts {n : ℕ} (h : (compare exponent scale).then (compare mantissa n) = .eq) :
    mantissa = n ∧ exponent = scale := by
  obtain ⟨hexponent, hmantissa⟩ := Ordering.then_eq_eq.mp h
  exact ⟨Nat.compare_eq_eq.mp hmantissa, compare_eq_iff_eq.mp hexponent⟩

/-- Models that compare as equal are two zeros or the same. -/
theorem eq_of_compare {u v : UnpackedFloat} (h : u.compare v = some .eq) :
    (∃ s t, u = .zero s ∧ v = .zero t) ∨ u = v := by
  cases u with
  | notANumber => cases v <;> cases h
  | infinity s =>
      cases v with
      | infinity t => cases s <;> cases t <;> first | exact .inr rfl | cases h
      | _ => cases s <;> cases h
  | zero s =>
      cases v with
      | zero t => exact .inl ⟨s, t, rfl, rfl⟩
      | notANumber => cases h
      | infinity t => cases t <;> cases h
      | finite t n k hpos => cases t <;> cases h
  | finite s m e hpos =>
      cases v with
      | finite t n k hpos' =>
          have hparts : s = t ∧ (compare e k).then (compare m n) = .eq := by
            cases s with
            | positive =>
                cases t with
                | positive => exact ⟨rfl, Option.some.inj h⟩
                | negative => cases h
            | negative =>
                cases t with
                | positive => cases h
                | negative => exact ⟨rfl, Ordering.swap_eq_eq.mp (Option.some.inj h)⟩
          obtain ⟨rfl, hequal⟩ := hparts
          obtain ⟨rfl, rfl⟩ := eq_of_compare_parts hequal
          exact .inr rfl
      | infinity t => cases s <;> cases t <;> cases h
      | _ => cases s <;> cases h

theorem beq_of_infinities (hx : decode x = .infinite negative) (hy : decode y = .infinite negative) :
    (x == y) = true := by
  obtain ⟨s, hs, hu⟩ := unpack_of_infinite hx
  obtain ⟨t, ht, hv⟩ := unpack_of_infinite hy
  show (x.toModel.unpack.compare y.toModel.unpack == some .eq) = true
  rw [hu, hv]
  cases s <;> cases t <;> first | rfl | cases hs.trans ht.symm

theorem amount?_of_zero {sign : UnpackedFloat.Sign} (h : x.toModel.unpack = .zero sign) :
    amount? x = some (.rational 0) := by
  unfold amount?
  rw [decode_eq_ofUnpacked, h]
  exact congrArg (fun r => some (Amount.rational r)) (rational_zero _ _)

/-- **Doubles are equal as numbers exactly if they are one amount.** -/
theorem beq_iff : (x == y) = true ↔ ∃ a, amount? x = some a ∧ amount? y = some a := by
  constructor
  · intro h
    have hcompare : (x.toModel.unpack.compare y.toModel.unpack == some .eq) = true := h
    rw [beq_iff_eq] at hcompare
    rcases eq_of_compare hcompare with ⟨s, t, hx, hy⟩ | hsame
    · exact ⟨.rational 0, amount?_of_zero hx, amount?_of_zero hy⟩
    · unfold amount?
      rw [decode_eq_ofUnpacked, decode_eq_ofUnpacked, ← hsame]
      rw [← hsame] at hcompare
      cases hu : x.toModel.unpack with
      | notANumber =>
          rw [hu] at hcompare
          cases hcompare
      | _ => exact ⟨_, rfl, rfl⟩
  · rintro ⟨a, hx, hy⟩
    unfold amount? at hx hy
    cases hparts : decode x with
    | nan =>
        rw [hparts] at hx
        cases hx
    | infinite negative =>
        rw [hparts] at hx
        cases hx
        cases hparts' : decode y with
        | infinite other =>
            rw [hparts'] at hy
            cases hy
            exact beq_of_infinities hparts hparts'
        | _ =>
            rw [hparts'] at hy
            cases hy
    | finite negative mantissa exponent =>
        rw [hparts] at hx
        cases hx
        cases hparts' : decode y with
        | finite other n scale =>
            rw [hparts'] at hy
            simp only [Option.some.injEq, Amount.rational.injEq] at hy
            rcases parts_of_rational (canonical_of_decode hparts') (canonical_of_decode hparts) hy with
              ⟨rfl, rfl⟩ | ⟨rfl, rfl, rfl⟩
            · exact beq_of_zeros hparts hparts'
            · rw [← encode_of_decode hparts', ← encode_of_decode hparts, encode_of_decode hparts]
              exact beq_self_of_decode hparts
        | _ =>
            rw [hparts'] at hy
            cases hy

/-! ### Integers -/

/-- **A double equals an integer exactly if that is its amount.** -/
theorem compareInt?_eq_iff {n : ℤ} : compareInt? x n = some .eq ↔ amount? x = some (.rational n) := by
  unfold compareInt? amount?
  cases decode x with
  | nan => exact iff_of_false nofun nofun
  | infinite negative => cases negative <;> exact iff_of_false nofun nofun
  | finite negative mantissa exponent =>
      have hsigned : (if negative then -(mantissa : ℚ) else mantissa) =
          ((if negative then -(mantissa : ℤ) else mantissa : ℤ) : ℚ) := by
        cases negative <;> simp
      simp only [Option.some.injEq, Amount.rational.injEq, rational, hsigned]
      generalize (if negative then -(mantissa : ℤ) else mantissa) = signed
      by_cases hexponent : 0 ≤ exponent
      · obtain ⟨k, rfl⟩ := Int.eq_ofNat_of_zero_le hexponent
        simp only [hexponent, if_true, Option.some.injEq, compare_eq_iff_eq, Int.toNat_natCast, zpow_natCast]
        exact_mod_cast Iff.rfl
      · obtain ⟨k, hk⟩ := Int.eq_ofNat_of_zero_le (show 0 ≤ -exponent by omega)
        obtain rfl : exponent = -k := by omega
        simp only [hexponent, if_false, Option.some.injEq, compare_eq_iff_eq, neg_neg, Int.toNat_natCast,
          zpow_neg, zpow_natCast]
        rw [← div_eq_mul_inv, div_eq_iff (by positivity)]
        exact_mod_cast Iff.rfl

end Binary64

end Scorecard
