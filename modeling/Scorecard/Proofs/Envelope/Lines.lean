/-
Envelopes and their lines, one for one.

A segment is read in a roundabout way: it is filled up with marks to whole groups, a reader
that knows both spellings of the alphabet takes the octets out of it, and the octets are
spelled again.  Only if that gives the segment back is it accepted.  So of all the texts
that such a reader takes, one is left for each run of octets, and it is the one that spells
them by the rule.
-/
import Mathlib.Data.List.TakeWhile
import Scorecard.Proofs.Envelope.Letters
import Scorecard.Proofs.Envelope.Tokens

namespace Scorecard

namespace Base64Url

/-! ### A reader of either alphabet -/

/-- The number of a letter in either spelling of the alphabet. -/
def looseValue? (c : Char) : Option Nat :=
  if c = '+' then some 62 else if c = '/' then some 63 else value? c

/-- The octets that sextets hold.  What is left beyond the last octet is dropped. -/
def octetsOf : List Nat → List UInt8
  | i :: j :: k :: l :: rest =>
    UInt8.ofNat (i * 4 + j / 16) :: UInt8.ofNat (j % 16 * 16 + k / 4) ::
      UInt8.ofNat (k % 4 * 64 + l) :: octetsOf rest
  | [i, j, k] => [UInt8.ofNat (i * 4 + j / 16), UInt8.ofNat (j % 16 * 16 + k / 4)]
  | [i, j] => [UInt8.ofNat (i * 4 + j / 16)]
  | _ => []

/-- Letters and marks make whole groups.  Marks behind whole groups are let pass, but not
marks without letters. -/
def fills (letters marks : Nat) : Bool :=
  match letters % 4 with
  | 0 => letters != 0 || marks == 0
  | 1 => false
  | 2 => marks == 2
  | _ => marks == 1

/-- The octets of a text in either alphabet, with marks behind it. -/
def readPadded? (text : List Char) : Option (List UInt8) :=
  let letters := text.takeWhile isLetter
  let marks := text.dropWhile isLetter
  if marks.all (· == '=') && fills letters.length marks.length then
    some (octetsOf (letters.filterMap looseValue?))
  else none

/-- A text with the marks that fill up its last group. -/
def padded (text : List Char) : List Char :=
  text ++ List.replicate ((4 - text.length % 4) % 4) '='

/-! ### Reading takes back padding -/

/-- Marks behind a text do not change where its letters end. -/
theorem letters_marks (text : List Char) (count : Nat) :
    (text ++ List.replicate count '=').takeWhile isLetter = text.takeWhile isLetter ∧
      (text ++ List.replicate count '=').dropWhile isLetter =
        text.dropWhile isLetter ++ List.replicate count '=' := by
  induction text with
  | nil =>
      cases count with
      | zero => exact ⟨rfl, rfl⟩
      | succ count => exact ⟨rfl, rfl⟩
  | cons c rest ih =>
      rw [List.cons_append]
      by_cases hc : isLetter c = true
      · rw [List.takeWhile_cons_of_pos hc, List.takeWhile_cons_of_pos hc, List.dropWhile_cons_of_pos hc,
          List.dropWhile_cons_of_pos hc, ih.1, ih.2]
        exact ⟨rfl, rfl⟩
      · rw [List.takeWhile_cons_of_neg hc, List.takeWhile_cons_of_neg hc, List.dropWhile_cons_of_neg hc,
          List.dropWhile_cons_of_neg hc]
        exact ⟨rfl, rfl⟩

theorem all_marks (count : Nat) : (List.replicate count '=').all (· == '=') = true := by
  simp

/-- The marks that are missing fill up the letters if no more than those were there. -/
theorem fills_padding (letters marks : Nat) :
    fills letters (marks + (4 - (letters + marks) % 4) % 4) =
      match letters % 4 with
      | 0 => letters != 0 || marks == 0
      | 1 => false
      | 2 => decide (marks ≤ 2)
      | _ => decide (marks ≤ 1) := by
  have hrest : letters % 4 = 0 ∨ letters % 4 = 1 ∨ letters % 4 = 2 ∨ letters % 4 = 3 := by omega
  unfold fills
  rw [Bool.eq_iff_iff]
  rcases hrest with h | h | h | h
  · simp only [h, Bool.or_eq_true, bne_iff_ne, beq_iff_eq]
    omega
  · simp only [h]
  · simp only [h, beq_iff_eq, decide_eq_true_eq]
    omega
  · simp only [h, beq_iff_eq, decide_eq_true_eq]
    omega

/-- A text is sloppy if it is letters, and marks that are padded to fill them up. -/
theorem isSloppy_eq (text : List Char) :
    isSloppy text =
      ((text.dropWhile isLetter).all (· == '=') &&
        fills (text.takeWhile isLetter).length
          ((text.dropWhile isLetter).length + (4 - text.length % 4) % 4)) := by
  have hempty : ∀ run : List Char, run.isEmpty = (run.length == 0) := fun run => by cases run <;> rfl
  have hlength : text.length = (text.takeWhile isLetter).length + (text.dropWhile isLetter).length := by
    rw [← List.length_append, List.takeWhile_append_dropWhile]
  unfold isSloppy
  simp only [hempty]
  rw [hlength, fills_padding]
  rfl

/-- **What is sloppy is what a reader of either alphabet takes**, once it is padded. -/
theorem readPadded_padded (text : List Char) :
    readPadded? (padded text) =
      if isSloppy text then some (octetsOf ((text.takeWhile isLetter).filterMap looseValue?)) else none := by
  obtain ⟨hletters, hmarks⟩ := letters_marks text ((4 - text.length % 4) % 4)
  unfold readPadded? padded
  simp only [hletters, hmarks, List.all_append, all_marks, Bool.and_true, List.length_append,
    List.length_replicate, isSloppy_eq]

theorem looseValue_char {n : Nat} (h : n < 64) : looseValue? (char n) = some n := by
  revert n
  decide

/-- The letters of octets hold those octets, and never is one letter left over. -/
theorem letters_encode (octets : List UInt8) :
    (∀ c ∈ encode octets, isLetter c = true) ∧ (encode octets).length % 4 ≠ 1 ∧
      octetsOf ((encode octets).filterMap looseValue?) = octets := by
  have hletter : ∀ {n : Nat}, n < 64 → isLetter (char n) = true := by
    intro n h
    simp [isLetter, value_char h]
  induction octets using encode.induct with
  | case1 p q r rest ih =>
      obtain ⟨hletters, hlength, hoctets⟩ := ih
      have hp := p.toNat_lt
      have hq := q.toNat_lt
      have hr := r.toNat_lt
      rw [encode]
      refine ⟨?_, by simp only [List.length_cons]; omega, ?_⟩
      · simp only [List.forall_mem_cons]
        exact ⟨hletter (by omega), hletter (by omega), hletter (by omega), hletter (by omega), hletters⟩
      · simp only [List.filterMap_cons]
        rw [looseValue_char (by omega), looseValue_char (by omega), looseValue_char (by omega),
          looseValue_char (by omega)]
        simp only [octetsOf, hoctets]
        have hfirst : p.toNat / 4 * 4 + (p.toNat % 4 * 16 + q.toNat / 16) / 16 = p.toNat := by omega
        have hsecond : (p.toNat % 4 * 16 + q.toNat / 16) % 16 * 16 + (q.toNat % 16 * 4 + r.toNat / 64) / 4 =
            q.toNat := by omega
        have hthird : (q.toNat % 16 * 4 + r.toNat / 64) % 4 * 64 + r.toNat % 64 = r.toNat := by omega
        rw [hfirst, hsecond, hthird, UInt8.ofNat_toNat, UInt8.ofNat_toNat, UInt8.ofNat_toNat]
  | case2 p q =>
      have hp := p.toNat_lt
      have hq := q.toNat_lt
      rw [encode]
      refine ⟨?_, by simp, ?_⟩
      · simp only [List.forall_mem_cons]
        exact ⟨hletter (by omega), hletter (by omega), hletter (by omega), by simp⟩
      · simp only [List.filterMap_cons, List.filterMap_nil]
        rw [looseValue_char (by omega), looseValue_char (by omega), looseValue_char (by omega)]
        have hfirst : p.toNat / 4 * 4 + (p.toNat % 4 * 16 + q.toNat / 16) / 16 = p.toNat := by omega
        have hsecond : (p.toNat % 4 * 16 + q.toNat / 16) % 16 * 16 + q.toNat % 16 * 4 / 4 = q.toNat := by
          omega
        simp only [octetsOf]
        rw [hfirst, hsecond, UInt8.ofNat_toNat, UInt8.ofNat_toNat]
  | case3 p =>
      have hp := p.toNat_lt
      rw [encode]
      refine ⟨?_, by simp, ?_⟩
      · simp only [List.forall_mem_cons]
        exact ⟨hletter (by omega), hletter (by omega), by simp⟩
      · simp only [List.filterMap_cons, List.filterMap_nil]
        rw [looseValue_char (by omega), looseValue_char (by omega)]
        have hfirst : p.toNat / 4 * 4 + p.toNat % 4 * 16 / 16 = p.toNat := by omega
        simp only [octetsOf]
        rw [hfirst, UInt8.ofNat_toNat]
  | case4 => exact ⟨by simp [encode], by decide, rfl⟩

theorem readPadded_encode (octets : List UInt8) : readPadded? (padded (encode octets)) = some octets := by
  obtain ⟨hletters, hlength, hoctets⟩ := letters_encode octets
  have htake : (encode octets).takeWhile isLetter = encode octets := List.takeWhile_eq_self_iff.mpr hletters
  have hdrop : (encode octets).dropWhile isLetter = [] := List.dropWhile_eq_nil_iff.mpr hletters
  have hsloppy : isSloppy (encode octets) = true := by
    unfold isSloppy
    simp only [htake, hdrop]
    split
    · simp
    · exact absurd ‹_› hlength
    · rfl
    · rfl
  rw [readPadded_padded, if_pos hsloppy, htake, hoctets]

end Base64Url

namespace Envelope

open Base64Url

/-- **A segment is read as the text that its octets are spelled with.**  It is padded, read
in either alphabet, and compared with what the octets are spelled as; if that is something
else, it was not canonical. -/
theorem decodeSegment_eq_padded (segment : List Char) :
    decodeSegment segment =
      match readPadded? (padded segment) with
      | none => .error .segmentNotBase64
      | some octets =>
        if encode octets = segment then .ok octets else .error .segmentNotCanonical := by
  unfold decodeSegment
  cases hread : decode? segment with
  | some octets =>
      obtain rfl := encode_of_decode hread
      rw [readPadded_encode]
      exact (if_pos rfl).symm
  | none =>
      rw [readPadded_padded]
      by_cases hsloppy : isSloppy segment = true
      · rw [if_pos hsloppy, if_pos hsloppy]
        refine (if_neg fun hspelled => ?_).symm
        rw [← hspelled, decode_encode] at hread
        cases hread
      · rw [if_neg hsloppy, if_neg hsloppy]

/-! ### Lines -/

end Envelope

end Scorecard
