/-
Numbers and names read back.

The reader of JSON cuts a number into its parts in its own way: a zero in front of
the point stands alone, and a fraction or an exponent makes the number a double.  An
integer is spelt without either, and the text of a double always has one of them, so
what was an integer is read as an integer and what was a double as a double.  An integer
with more digits than may be read is refused instead.  Infinities have names, and so has
what is no number.
-/
import Scorecard.Json.Reader
import Scorecard.Json.Text
import Scorecard.Proofs.Number.Texts

namespace Scorecard.Json

variable {n : Numeral} {rest : List Char}

/-! ### The parts of a number -/

/-- What stands in front of the point is digits from the front of the text. -/
theorem wholeDigits_eq_some {text digits : List Char} (h : wholeDigits? text = some (digits, rest)) :
    (∀ c ∈ digits, isDigit c = true) ∧ text = digits ++ rest := by
  unfold wholeDigits? at h
  split at h
  · cases h
    exact ⟨List.forall_mem_singleton.mpr rfl, rfl⟩
  · rename_i c tail _
    split at h
    · rename_i hc
      cases h
      refine ⟨List.forall_mem_cons.mpr ⟨hc, List.all_eq_true.mp List.all_takeWhile⟩, ?_⟩
      rw [List.cons_append, List.takeWhile_append_dropWhile]
    · cases h
  · cases h

/-- The digits in front of the point are read, whatever follows that is no digit. -/
theorem wholeDigits_of_written (hn : n.Written)
    (hrest : ∀ c, rest.head? = some c → isDigit c = false) :
    wholeDigits? (n.whole ++ rest) = some (n.whole, rest) := by
  rcases hn.leading with hzero | hlead
  · rw [hzero]
    rfl
  · obtain ⟨c, more, hwhole⟩ := List.exists_cons_of_ne_nil hn.whole_ne_nil
    have hc : isDigit c = true := hn.wholeDigits c (by rw [hwhole]; exact List.mem_cons_self)
    have hmore : ∀ d ∈ more, isDigit d = true := by
      intro d hd
      exact hn.wholeDigits d (by rw [hwhole]; exact List.mem_cons_of_mem _ hd)
    obtain ⟨htake, hdrop⟩ := takeWhile_of_run hmore hrest
    have hne : c ≠ '0' := by
      intro h
      rw [hwhole, h] at hlead
      exact hlead rfl
    rw [hwhole, List.cons_append]
    unfold wholeDigits?
    split
    · rename_i heq
      cases heq
      exact absurd rfl hne
    · rename_i heq
      cases heq
      rw [if_pos hc, htake, hdrop]
    · rename_i heq
      cases heq

/-- The fraction is read, if there is one. -/
theorem fraction_spelling {digits : List Char} (hdigits : ∀ c ∈ digits, isDigit c = true)
    (hrest : ∀ c, rest.head? = some c → isDigit c = false ∧ c ≠ '.') :
    fraction (Numeral.fractionSpelling digits ++ rest) = (digits, rest) := by
  unfold Numeral.fractionSpelling
  by_cases hnil : digits = []
  · rw [if_pos hnil, hnil, List.nil_append]
    unfold fraction
    split
    · exact absurd rfl (hrest _ rfl).2
    · rfl
  · obtain ⟨htake, hdrop⟩ := takeWhile_of_run hdigits fun c hc => (hrest c hc).1
    rw [if_neg hnil, List.cons_append]
    unfold fraction
    simp only [htake, hdrop]

/-! ### Numbers -/

/-- A numeral without fraction and exponent is read as an integer if it has no more digits
than may be read, any other as a double. -/
theorem readNumber_spelling (h : Numeral.Ends rest) (hn : n.Written) (negative : Bool) :
    readNumber negative (n.spelling ++ rest) =
      if n.fraction = [] ∧ n.exponent = [] then
        if Decimal.digitLimit < n.whole.length then .error .tooManyDigits
        else .ok (.int (if negative then -Decimal.ofDigits n.whole else Decimal.ofDigits n.whole), rest)
      else .ok (.float (n.toFloat negative), rest) := by
  have htext : n.spelling ++ rest = n.whole ++ (Numeral.fractionSpelling n.fraction ++
      (Numeral.exponentSpelling n.exponentNegative n.exponent ++ rest)) := by
    simp [Numeral.spelling]
  have hwhole := wholeDigits_of_written hn fun c hc => Numeral.head_fractionSpelling n h hc
  have hfraction := fraction_spelling hn.fractionDigits fun c hc =>
    Numeral.head_exponentSpelling n.exponentNegative n.exponent h hc
  have hexponent := Numeral.scanExponent_spelling n.exponentNegative hn.exponentDigits h
  unfold readNumber
  simp only [htext, hwhole, hfraction, hexponent]
  by_cases hnone : n.exponent = []
  · have hplain : Numeral.exponentSpelling n.exponentNegative n.exponent = [] := if_pos hnone
    have hnumeral : (⟨n.whole, n.fraction, false, []⟩ : Numeral) = n := by
      have hunsigned := hn.unsigned hnone
      cases n
      simp_all
    rw [if_pos hnone, hplain]
    simp only [hnumeral, List.nil_append, Bool.not_eq_true', List.isEmpty_eq_false_iff, hnone, and_true]
    by_cases hfraction : n.fraction = []
    · rw [if_neg (not_not_intro hfraction), if_pos hfraction]
    · rw [if_pos hfraction, if_neg hfraction]
  · simp only [hnone, and_false, if_false]

/-- No name starts with a digit, or with a minus in front of a digit. -/
theorem named_of_digit {c : Char} (hc : isDigit c = true) (negative : Bool) (tail : List Char) :
    named? (signText negative ++ c :: tail) = none := by
  have hne : c ≠ 'n' ∧ c ≠ 't' ∧ c ≠ 'f' ∧ c ≠ 'N' ∧ c ≠ 'I' ∧ c ≠ '-' := by
    refine ⟨?_, ?_, ?_, ?_, ?_, ?_⟩ <;>
    · rintro rfl
      exact absurd hc (by decide)
  obtain ⟨hn, ht, hf, hN, hI, hminus⟩ := hne
  cases negative <;>
    simp [named?, names, afterWord?, signText, hn.symm, ht.symm, hf.symm, hN.symm, hI.symm,
      hminus.symm]

/-- A sign and a numeral are read as a number. -/
theorem scalar_spelling (hn : n.Written) (negative : Bool) :
    readScalar (signText negative ++ n.spelling ++ rest) = readNumber negative (n.spelling ++ rest) := by
  obtain ⟨c, more, hwhole⟩ := List.exists_cons_of_ne_nil hn.whole_ne_nil
  have hc : isDigit c = true := hn.wholeDigits c (by rw [hwhole]; exact List.mem_cons_self)
  obtain ⟨tail, htext⟩ : ∃ tail, n.spelling ++ rest = c :: tail := by
    unfold Numeral.spelling
    rw [hwhole]
    exact ⟨_, rfl⟩
  have hminus : c ≠ '-' := by
    rintro rfl
    exact absurd hc (by decide)
  rw [List.append_assoc, htext]
  unfold readScalar
  rw [named_of_digit hc]
  cases negative with
  | true => rfl
  | false =>
      simp only [signText, Bool.false_eq_true, if_false, List.nil_append]
      split
      · rename_i heq
        cases heq
        exact absurd rfl hminus
      · rfl

/-- **A short integer is read back as an integer.** -/
theorem scalar_integer (h : Numeral.Ends rest) {k : Int} (hk : Decimal.isShort k = true) :
    readScalar (integer k ++ rest) = .ok (.int k, rest) := by
  have hlength : ¬ Decimal.digitLimit < (Numeral.ofNat k.natAbs).whole.length :=
    Nat.not_lt.mpr (Decimal.isShort_iff.mp hk)
  have hmagnitude : Decimal.ofDigits (Numeral.ofNat k.natAbs).whole = k.natAbs :=
    Decimal.ofDigits_digitsOf _
  unfold integer
  rw [toList_intText, scalar_spelling (Numeral.written_ofNat _),
    readNumber_spelling h (Numeral.written_ofNat _), if_pos ⟨rfl, rfl⟩, if_neg hlength, hmagnitude]
  by_cases hnegative : k < 0
  · rw [if_pos (decide_eq_true hnegative)]
    simp only [Except.ok.injEq, Prod.mk.injEq, Value.int.injEq, and_true]
    omega
  · rw [if_neg (by simpa using hnegative)]
    simp only [Except.ok.injEq, Prod.mk.injEq, Value.int.injEq, and_true]
    omega

/-- **A finite double is read back as the same double.** -/
theorem scalar_float (h : Numeral.Ends rest) {x : Float} (hx : Binary64.isFinite x = true) :
    readScalar (float x ++ rest) = .ok (.float x, rest) := by
  obtain ⟨negative, mantissa, exponent, hdecode⟩ := Binary64.exists_decode hx
  obtain ⟨n, hnames, hbroken, htext⟩ := Layout.text_plain hdecode
  have hsame : float x = Layout.plain.text x := by
    unfold float Layout.text Layout.textWith
    rw [hdecode]
    rfl
  rw [hsame, htext, scalar_spelling hnames.written, readNumber_spelling h hnames.written, if_neg ?_,
    hnames.reads, Binary64.encode_of_decode hdecode]
  rintro ⟨hfraction, hexponent⟩
  rcases hbroken with hbroken | hbroken
  · exact hbroken hfraction
  · exact hbroken hexponent

/-! ### Names -/

theorem scalar_nan : readScalar (floatLayout.nan.toList ++ rest) = .ok (.nan 0, rest) := rfl

/-- An infinity has a name, with a minus if it is below all numbers. -/
theorem float_infinite {x : Float} {negative : Bool} (hx : Binary64.decode x = .infinite negative) :
    float x = (if negative then ['-'] else []) ++ floatLayout.infinity.toList := by
  unfold float Layout.text Layout.textWith
  rw [hx]

theorem scalar_infinite {x : Float} {negative : Bool} (hx : Binary64.decode x = .infinite negative) :
    readScalar (float x ++ rest) = .ok (.float x, rest) := by
  have hname : readScalar ((if negative then ['-'] else []) ++ floatLayout.infinity.toList ++ rest) =
      .ok (.float (Binary64.encode (.infinite negative)), rest) := by
    cases negative <;> rfl
  rw [float_infinite hx, hname, Binary64.encode_of_decode_infinite hx]

/-- **A number is read back as the same double, infinities included.** -/
theorem scalar_double (h : Numeral.Ends rest) {x : Float} (hx : Binary64.decode x ≠ .nan) :
    readScalar (float x ++ rest) = .ok (.float x, rest) := by
  cases hparts : Binary64.decode x with
  | nan => exact absurd hparts hx
  | infinite negative => exact scalar_infinite hparts
  | finite negative mantissa exponent =>
      refine scalar_float h ?_
      rw [Binary64.isFinite, hparts]

theorem scalar_null : readScalar ("null".toList ++ rest) = .ok (.null, rest) := rfl

theorem scalar_bool (b : Bool) :
    readScalar ((if b then "true".toList else "false".toList) ++ rest) = .ok (.bool b, rest) := by
  cases b <;> rfl

end Scorecard.Json
