/-
The reader's procedures, one rule each.

The procedures answer with a proof that the rest is shorter, and look at their own
text through proofs of where it came from.  `Reads` is such an answer without the
proof.  A rule says what a procedure reads if the procedures inside it read what they
should, and there is one rule for each way to write a value, a list's items and a
record's entries, as long as blanks are written behind commas and colons only.

No value starts with a blank or with a closing bracket, so the reader never stops
early in front of one, and of what is behind a comma or a colon it skips the blanks and
nothing else.
-/
import Scorecard.Json.Reader

namespace Scorecard.Json

/-- A procedure reads `a` from its text and leaves `rest`. -/
def Reads {α : Type} {text : List Char} (answer : Except Fault (Read α text)) (a : α)
    (rest : List Char) : Prop :=
  ∃ shorter, answer = .ok ⟨a, rest, shorter⟩

variable {ofText : List Point → Value} {text body rest behind : List Char} {v : Value} {vs : List Value}
  {entries : List (Value × Value)}

/-! ### Where values start -/

/-- Nothing that is written as a value starts with this character. -/
def closes (c : Char) : Bool :=
  isGap c || c == ']'

private theorem value_of_closes {c : Char} (hc : closes c = true) :
    readValue ofText (c :: rest) = .error .badJson := by
  simp only [closes, isGap, Bool.or_eq_true, beq_iff_eq] at hc
  rcases hc with (((rfl | rfl) | rfl) | rfl) | rfl <;>
  · rw [readValue.eq_def]
    rfl

/-- A value does not start with a blank or a closing bracket. -/
theorem Reads.head (h : Reads (readValue ofText text) v rest) :
    ∃ c tail, text = c :: tail ∧ closes c = false := by
  obtain ⟨shorter, h⟩ := h
  cases text with
  | nil => exact absurd shorter (Nat.not_lt_zero _)
  | cons c tail =>
      refine ⟨c, tail, rfl, ?_⟩
      cases hc : closes c with
      | false => rfl
      | true =>
          rw [value_of_closes hc] at h
          cases h

/-- Items start with a value. -/
theorem Reads.head_items (h : Reads (readItems ofText text) vs rest) :
    ∃ c tail, text = c :: tail ∧ closes c = false := by
  obtain ⟨shorter, h⟩ := h
  rw [readItems.eq_def] at h
  cases hvalue : readValue ofText text with
  | error f =>
      rw [hvalue] at h
      cases h
  | ok first => exact Reads.head ⟨first.shorter, hvalue⟩

theorem skipGap_of_head {c : Char} (h : closes c = false) : skipGap (c :: rest) = c :: rest := by
  rw [closes, Bool.or_eq_false_iff] at h
  exact List.dropWhile_cons_of_neg (by rw [h.1]; exact Bool.false_ne_true)

/-- No blanks stand in front of a value. -/
theorem Reads.skipGap (h : Reads (readValue ofText text) v rest) : skipGap text = text := by
  obtain ⟨c, tail, rfl, hc⟩ := h.head
  exact skipGap_of_head hc

/-- No blanks stand in front of items. -/
theorem Reads.skipGap_items (h : Reads (readItems ofText text) vs rest) : Json.skipGap text = text := by
  obtain ⟨c, tail, rfl, hc⟩ := h.head_items
  exact skipGap_of_head hc

/-- Blanks are skipped. -/
theorem skipGap_append {gap : List Char} (hgap : ∀ c ∈ gap, isGap c = true) (text : List Char) :
    skipGap (gap ++ text) = skipGap text :=
  List.dropWhile_append_of_pos hgap

/-! ### Values -/

theorem Reads.scalar (h : readScalar text = .ok (v, rest)) : Reads (readValue ofText text) v rest := by
  refine ⟨length_readScalar_lt h, ?_⟩
  rw [readValue.eq_def]
  split
  · cases h
  · cases h
  · cases h
  · split
    · rename_i hnone
      rw [hnone] at h
      cases h
    · rename_i hsome
      rw [hsome] at h
      cases h
      rfl

theorem Reads.string {points : List Point} (h : stringBody? [] body = some (points, rest)) :
    Reads (readValue ofText ('"' :: body)) (ofText points) rest := by
  refine ⟨?_, ?_⟩
  · have := length_stringBody_lt h
    simp only [List.length_cons]
    omega
  rw [readValue.eq_def]
  simp only
  split
  · rename_i hnone
    rw [hnone] at h
    cases h
  · rename_i hsome
    rw [hsome] at h
    cases h
    rfl

theorem Reads.emptyList : Reads (readValue ofText ('[' :: ']' :: rest)) (.list []) rest := by
  refine ⟨by simp only [List.length_cons]; omega, ?_⟩
  rw [readValue.eq_def]
  rfl


theorem Reads.list (h : Reads (readItems ofText text) vs rest) :
    Reads (readValue ofText ('[' :: text)) (.list vs) rest := by
  obtain ⟨c, tail, rfl, hc⟩ := h.head_items
  have hlength := h.1
  have hskip : Json.skipGap (c :: tail) = c :: tail := skipGap_of_head hc
  rw [← hskip] at h
  obtain ⟨shorter, h⟩ := h
  refine ⟨by simp only [List.length_cons] at hlength ⊢; omega, ?_⟩
  rw [readValue.eq_def]
  simp only
  split
  · rename_i hs
    rw [hskip] at hs
    cases hs
    cases hc
  · rw [h]

theorem Reads.emptyRecord : Reads (readValue ofText ('{' :: '}' :: rest)) (.record []) rest := by
  refine ⟨by simp only [List.length_cons]; omega, ?_⟩
  rw [readValue.eq_def]
  rfl

theorem Reads.record (h : Reads (readEntries ofText ('"' :: text)) entries rest) :
    Reads (readValue ofText ('{' :: '"' :: text)) (.record (Value.storeAll entries)) rest := by
  have hlength := h.1
  have hskip : Json.skipGap ('"' :: text) = '"' :: text := rfl
  rw [← hskip] at h
  obtain ⟨shorter, h⟩ := h
  refine ⟨by simp only [List.length_cons] at hlength ⊢; omega, ?_⟩
  rw [readValue.eq_def]
  simp only
  split
  · rename_i hs
    cases hs
  · rw [h]

/-! ### Items -/

theorem Reads.lastItem (h : Reads (readValue ofText text) v (']' :: rest)) :
    Reads (readItems ofText text) [v] rest := by
  obtain ⟨shorter, h⟩ := h
  refine ⟨by simp only [List.length_cons] at shorter; omega, ?_⟩
  rw [readItems.eq_def, h]
  rfl

theorem Reads.moreItems {first : Value} (h : Reads (readValue ofText text) first (',' :: behind))
    (hmore : Reads (readItems ofText (Json.skipGap behind)) vs rest) :
    Reads (readItems ofText text) (first :: vs) rest := by
  have hgap := length_skipGap_le behind
  obtain ⟨shorter, h⟩ := h
  obtain ⟨shorter', hmore⟩ := hmore
  refine ⟨by simp only [List.length_cons] at shorter; omega, ?_⟩
  have hcomma : Json.skipGap (',' :: behind) = ',' :: behind := rfl
  rw [readItems.eq_def, h]
  simp only
  split
  · rename_i hs
    rw [hcomma] at hs
    cases hs
  · rename_i hs
    rw [hcomma] at hs
    cases hs
    rw [hmore]
  · rename_i _ hother
    exact absurd hcomma (hother behind)

/-! ### Entries -/

theorem Reads.lastEntry {key : List Point} (hkey : stringBody? [] body = some (key, ':' :: text))
    (h : Reads (readValue ofText (Json.skipGap text)) v ('}' :: rest)) :
    Reads (readEntries ofText ('"' :: body)) [(ofText key, v)] rest := by
  have hbody := length_stringBody_lt hkey
  have hgap := length_skipGap_le text
  obtain ⟨shorter, h⟩ := h
  refine ⟨by simp only [List.length_cons] at shorter hbody ⊢; omega, ?_⟩
  rw [readEntries.eq_def]
  simp only
  split
  · rename_i hnone
    rw [hkey] at hnone
    cases hnone
  · rename_i hsome
    rw [hkey] at hsome
    cases hsome
    have hcolon : Json.skipGap (':' :: text) = ':' :: text := rfl
    split
    · rename_i hc
      rw [hcolon] at hc
      cases hc
      rw [h]
      rfl
    · rename_i hother
      exact absurd hcolon (hother text)

theorem Reads.moreEntries {key : List Point} (hkey : stringBody? [] body = some (key, ':' :: text))
    (h : Reads (readValue ofText (Json.skipGap text)) v (',' :: behind))
    (hmore : Reads (readEntries ofText (Json.skipGap behind)) entries rest) :
    Reads (readEntries ofText ('"' :: body)) ((ofText key, v) :: entries) rest := by
  have hbody := length_stringBody_lt hkey
  have hgap := length_skipGap_le text
  have hgap' := length_skipGap_le behind
  obtain ⟨shorter, h⟩ := h
  obtain ⟨shorter', hmore⟩ := hmore
  refine ⟨?_, ?_⟩
  · simp only [List.length_cons] at shorter shorter' hbody ⊢
    omega
  rw [readEntries.eq_def]
  simp only
  split
  · rename_i hnone
    rw [hkey] at hnone
    cases hnone
  · rename_i hsome
    rw [hkey] at hsome
    cases hsome
    have hcolon : Json.skipGap (':' :: text) = ':' :: text := rfl
    have hcomma : Json.skipGap (',' :: behind) = ',' :: behind := rfl
    split
    · rename_i hc
      rw [hcolon] at hc
      cases hc
      rw [h]
      simp only
      split
      · rename_i hs
        rw [hcomma] at hs
        cases hs
      · rename_i hs
        rw [hcomma] at hs
        cases hs
        rw [hmore]
      · rename_i _ hother
        exact absurd hcomma (hother behind)
    · rename_i hother
      exact absurd hcolon (hother text)

end Scorecard.Json
