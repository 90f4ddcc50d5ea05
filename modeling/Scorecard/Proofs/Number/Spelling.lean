/-
How a number is spelt, and how the spelling is taken apart.

A layout decides by cases where the point goes and whether an exponent is written,
and the cases are different for the reader of formulas and for that of JSON, which
cut a numeral into its parts in their own ways.  In between stands `Numeral.spelling`:
every text that the plain layout gives is the spelling of a numeral that is well
formed, and has the value of the decimal that was laid out.  Reading then only has
to be understood on spellings.

A spelling is read in full only if what follows cannot be taken for more of it, and
`Ends` says so of a text.
-/
import Scorecard.Proofs.Number.Decimals

namespace Scorecard

/-- A run that satisfies `p` is cut off where `p` first fails. -/
theorem takeWhile_of_run {α : Type} {p : α → Bool} {run rest : List α} (hrun : ∀ c ∈ run, p c = true)
    (hrest : ∀ c, rest.head? = some c → p c = false) :
    (run ++ rest).takeWhile p = run ∧ (run ++ rest).dropWhile p = rest := by
  rw [List.takeWhile_append_of_pos hrun, List.dropWhile_append_of_pos hrun]
  cases rest with
  | nil => simp
  | cons c tail =>
      have hc := hrest c rfl
      rw [List.takeWhile_cons_of_neg (by simp [hc]), List.dropWhile_cons_of_neg (by simp [hc])]
      simp

namespace Numeral

/-! ### Spellings -/

/-- The fraction of a numeral as it is written, a point in front. -/
def fractionSpelling (digits : List Char) : List Char :=
  if digits = [] then [] else '.' :: digits

/-- The exponent of a numeral as it is written, if it has one. -/
def exponentSpelling (negative : Bool) (digits : List Char) : List Char :=
  if digits = [] then [] else 'e' :: (if negative then '-' else '+') :: digits

/-- How a numeral is written. -/
def spelling (n : Numeral) : List Char :=
  n.whole ++ (fractionSpelling n.fraction ++ exponentSpelling n.exponentNegative n.exponent)

/-- A numeral as the writers of numbers have it: digits in front of the point, without
a zero at their head unless that is all. -/
structure Written (n : Numeral) : Prop where
  wholeDigits : ∀ c ∈ n.whole, isDigit c = true
  fractionDigits : ∀ c ∈ n.fraction, isDigit c = true
  exponentDigits : ∀ c ∈ n.exponent, isDigit c = true
  whole_ne_nil : n.whole ≠ []
  /-- Zeros lead nothing. -/
  leading : n.whole = ['0'] ∨ n.whole.head? ≠ some '0'
  /-- The sign of an exponent that is not there is plus. -/
  unsigned : n.exponent = [] → n.exponentNegative = false

/-- No more of a numeral follows. -/
def Ends (rest : List Char) : Prop :=
  ∀ c, rest.head? = some c → isDigit c = false ∧ c ≠ '.' ∧ c ≠ 'e' ∧ c ≠ 'E'

theorem Ends.nil : Ends [] := by
  intro c hc
  simp at hc

theorem Ends.digits {rest : List Char} (h : Ends rest) (c : Char) (hc : rest.head? = some c) :
    isDigit c = false :=
  (h c hc).1

/-! ### Taking spellings apart -/

variable {n : Numeral} {rest : List Char}

theorem scanExponent_of_ends (h : Ends rest) : scanExponent? rest = none := by
  cases rest with
  | nil => rfl
  | cons c tail =>
      obtain ⟨-, -, he, hE⟩ := h c rfl
      unfold scanExponent?
      simp only
      rw [if_neg (by simp [he, hE])]

/-- An exponent is read back, or nothing where none is written. -/
theorem scanExponent_spelling (negative : Bool) {digits : List Char}
    (hdigits : ∀ c ∈ digits, isDigit c = true) (h : Ends rest) :
    scanExponent? (exponentSpelling negative digits ++ rest) =
      if digits = [] then none else some (negative, digits, rest) := by
  unfold exponentSpelling
  by_cases hnil : digits = []
  · rw [if_pos hnil, if_pos hnil]
    exact scanExponent_of_ends h
  · rw [if_neg hnil, if_neg hnil]
    obtain ⟨htake, hdrop⟩ := takeWhile_of_run hdigits h.digits
    have hsign : takeSign ((if negative then '-' else '+') :: digits ++ rest) =
        (negative, digits ++ rest) := by
      cases negative <;> rfl
    unfold scanExponent?
    simp only [List.cons_append]
    rw [if_pos (by simp)]
    rw [List.cons_append] at hsign
    simp only [hsign, htake, hdrop]

/-- What stands behind the fraction is not a digit. -/
theorem head_exponentSpelling (negative : Bool) (digits : List Char) (h : Ends rest) {c : Char}
    (hc : (exponentSpelling negative digits ++ rest).head? = some c) :
    isDigit c = false ∧ c ≠ '.' := by
  unfold exponentSpelling at hc
  split at hc
  · exact ⟨(h c hc).1, (h c hc).2.1⟩
  · simp only [List.cons_append, List.head?_cons, Option.some.injEq] at hc
    subst hc
    decide

/-- What stands behind the digits in front of the point is not a digit. -/
theorem head_fractionSpelling (n : Numeral) (h : Ends rest) {c : Char}
    (hc : (fractionSpelling n.fraction ++
      (exponentSpelling n.exponentNegative n.exponent ++ rest)).head? = some c) :
    isDigit c = false := by
  unfold fractionSpelling at hc
  split at hc
  · exact (head_exponentSpelling _ _ h hc).1
  · simp only [List.cons_append, List.head?_cons, Option.some.injEq] at hc
    subst hc
    decide

theorem withExponent_spelling (hn : n.Written) (h : Ends rest) :
    withExponent n.whole n.fraction (exponentSpelling n.exponentNegative n.exponent ++ rest) =
      (n, rest) := by
  unfold withExponent
  rw [scanExponent_spelling _ hn.exponentDigits h]
  by_cases hnil : n.exponent = []
  · have hplus := hn.unsigned hnil
    obtain ⟨whole, fraction, negative, exponent⟩ := n
    simp only at hnil hplus
    subst hnil hplus
    rfl
  · rw [if_neg hnil]

/-- **A spelling is taken apart into the numeral that was spelt.** -/
theorem scan_spelling (hn : n.Written) (h : Ends rest) :
    scan? (n.spelling ++ rest) = some (n, rest) := by
  have htext : n.spelling ++ rest = n.whole ++ (fractionSpelling n.fraction ++
      (exponentSpelling n.exponentNegative n.exponent ++ rest)) := by
    simp [spelling]
  obtain ⟨htake, hdrop⟩ := takeWhile_of_run hn.wholeDigits fun c hc => head_fractionSpelling n h hc
  obtain ⟨c, tail, hwhole⟩ := List.exists_cons_of_ne_nil hn.whole_ne_nil
  have hexponent := withExponent_spelling hn h
  unfold scan?
  rw [htext, htake, hdrop]
  by_cases hnil : n.fraction = []
  · have hplain : fractionSpelling n.fraction = [] := if_pos hnil
    rw [hplain, List.nil_append]
    rw [hnil] at hexponent
    have hpoint := fun d (hd : _ = some d) =>
      (head_exponentSpelling n.exponentNegative n.exponent h hd).2
    rw [← hexponent, hwhole]
    cases hbehind : exponentSpelling n.exponentNegative n.exponent ++ rest with
    | nil => rfl
    | cons d behind =>
        rw [hbehind] at hpoint
        have hd := hpoint d rfl
        split <;> simp_all
  · have hplain : fractionSpelling n.fraction = '.' :: n.fraction := if_neg hnil
    obtain ⟨htake', hdrop'⟩ := takeWhile_of_run hn.fractionDigits fun d hd =>
      (head_exponentSpelling n.exponentNegative n.exponent h hd).1
    rw [hplain, List.cons_append]
    simp only [hwhole, htake', hdrop']
    rw [← hwhole, hexponent]

end Numeral

end Scorecard
