/-
Why a text is refused.

Either the text is no JSON, or an integer in it has too many digits.  The second cause
stands in the text: so many digits, one behind the other.  Whatever the reader hands on is
an end of what it was given, and so a cause that is found further back is found in the
whole text too.

The induction is on the length of the text, as for what reading gives.
-/
import Scorecard.Proofs.Json.Numbers
import Scorecard.Proofs.Json.Reading

namespace Scorecard.Json

/-- More digits than an integer may have stand in the text, one behind the other. -/
def Overlong (text : List Char) : Prop :=
  ∃ digits, digits <:+: text ∧ (∀ c ∈ digits, isDigit c = true) ∧ Decimal.digitLimit < digits.length

/-- The causes that a text can be refused for. -/
inductive Refused (text : List Char) : Fault → Prop
  | badJson : Refused text .badJson
  | tooManyDigits (long : Overlong text) : Refused text .tooManyDigits

/-- The answer of a reader at the front of a text: something and an end of the text, or a
refusal of the text. -/
def Stops {α : Type} (rest : α → List Char) (text : List Char) : Except Fault α → Prop
  | .ok found => rest found <:+ text
  | .error f => Refused text f

variable {text tail : List Char} {f : Fault}

theorem Refused.of_suffix (h : Refused tail f) (htail : tail <:+ text) : Refused text f := by
  cases h with
  | badJson => exact .badJson
  | tooManyDigits long =>
      obtain ⟨digits, hdigits, hall, hlong⟩ := long
      exact .tooManyDigits ⟨digits, hdigits.trans htail.isInfix, hall, hlong⟩

namespace Stops

variable {α : Type} {rest : α → List Char} {answer : Except Fault α}

theorem refused (h : Stops rest tail answer) (hrefused : answer = .error f) (htail : tail <:+ text) :
    Refused text f := by
  rw [hrefused] at h
  exact Refused.of_suffix h htail

theorem left {found : α} (h : Stops rest tail answer) (hfound : answer = .ok found) (htail : tail <:+ text) :
    rest found <:+ text := by
  rw [hfound] at h
  exact List.IsSuffix.trans h htail

/-- What was found before the end of a text does not matter to how reading goes on there. -/
theorem of_suffix (h : Stops rest tail answer) (htail : tail <:+ text) : Stops rest text answer := by
  cases answer with
  | ok found => exact h.left rfl htail
  | error f => exact h.refused rfl htail

end Stops

/-! ### Ends of a text -/

theorem skipGap_suffix (text : List Char) : skipGap text <:+ text :=
  List.dropWhile_suffix isGap

/-- What stands behind a mark, and behind the gap there, is an end of the text. -/
theorem skipGap_suffix_of_cons {c : Char} (h : c :: tail <:+ text) : skipGap tail <:+ text :=
  (skipGap_suffix tail).trans ((List.suffix_cons c tail).trans h)

theorem unescape_suffix {p : Point} (h : unescape? text = some (p, tail)) : tail <:+ text := by
  unfold unescape? at h
  split at h
  · simp only [Option.bind_eq_bind, Option.bind_eq_some_iff] at h
    obtain ⟨unit, -, h⟩ := h
    split at h
    · obtain ⟨low, -, h⟩ := Option.bind_eq_some_iff.1 h
      split at h
      · cases h
        exact ⟨['u', _, _, _, _, '\\', 'u', _, _, _, _], rfl⟩
      · cases h
        exact ⟨['u', _, _, _, _], rfl⟩
    · cases h
      exact ⟨['u', _, _, _, _], rfl⟩
  · obtain ⟨_, -, h⟩ := Option.map_eq_some_iff.1 h
    cases h
    exact List.suffix_cons _ _
  · cases h

theorem stringBody_suffix {read points : List Point} (h : stringBody? read text = some (points, tail)) :
    tail <:+ text := by
  fun_induction stringBody? read text with
  | case1 => cases h
  | case2 read rest =>
      cases h
      exact List.suffix_cons _ _
  | case3 => cases h
  | case4 read rest point behind hescape ih =>
      exact (ih h).trans ((unescape_suffix hescape).trans (List.suffix_cons _ _))
  | case5 => cases h
  | case6 read c rest _ _ _ ih => exact (ih h).trans (List.suffix_cons _ _)

theorem afterWord_suffix {word : List Char} (h : afterWord? word text = some tail) : tail <:+ text := by
  induction word generalizing text with
  | nil =>
      cases h
      exact List.suffix_rfl
  | cons w word ih =>
      cases text with
      | nil => cases h
      | cons c rest =>
          rw [afterWord?] at h
          split at h
          · exact (ih h).trans (List.suffix_cons _ _)
          · cases h

theorem fraction_suffix (text : List Char) : (fraction text).2 <:+ text := by
  unfold fraction
  split
  · split
    · exact List.suffix_rfl
    · exact (List.dropWhile_suffix _).trans (List.suffix_cons _ _)
  · exact List.suffix_rfl

theorem takeSign_suffix (text : List Char) : (Numeral.takeSign text).2 <:+ text := by
  unfold Numeral.takeSign
  split
  · exact List.suffix_cons _ _
  · exact List.suffix_cons _ _
  · exact List.suffix_rfl

theorem scanExponent_suffix {negative : Bool} {digits : List Char}
    (h : Numeral.scanExponent? text = some (negative, digits, tail)) : tail <:+ text := by
  unfold Numeral.scanExponent? at h
  split at h
  · rename_i mark rest
    split at h
    · split at h
      · cases h
      · cases h
        exact (List.dropWhile_suffix _).trans ((takeSign_suffix rest).trans (List.suffix_cons _ _))
    · cases h
  · cases h

/-! ### Numbers and names -/

/-- A number is refused only for its digits. -/
theorem stops_number (negative : Bool) (text : List Char) :
    Stops Prod.snd text (readNumber negative text) := by
  unfold readNumber
  split
  · exact .badJson
  · rename_i whole behind hwhole
    obtain ⟨hdigits, rfl⟩ := wholeDigits_eq_some hwhole
    have hfraction : (fraction behind).2 <:+ whole ++ behind :=
      (fraction_suffix behind).trans (List.suffix_append whole behind)
    simp only
    split
    · rename_i hexponent
      exact (scanExponent_suffix hexponent).trans hfraction
    · split
      · exact hfraction
      · split
        · rename_i hlong
          exact .tooManyDigits ⟨whole, (List.prefix_append whole behind).isInfix, hdigits, hlong⟩
        · exact hfraction

theorem stops_scalar (text : List Char) : Stops Prod.snd text (readScalar text) := by
  unfold readScalar
  split
  · rename_i found hfound
    obtain ⟨name, -, hword⟩ := List.exists_of_findSome?_eq_some hfound
    obtain ⟨rest, hrest, rfl⟩ := Option.map_eq_some_iff.mp hword
    exact afterWord_suffix hrest
  · split
    · exact (stops_number true _).of_suffix (List.suffix_cons _ _)
    · exact stops_number false text

/-! ### Values -/

/-- Reading stops as it should, whatever is read. -/
structure AllStop (ofText : List Point → Value) (text : List Char) : Prop where
  value : Stops Read.rest text (readValue ofText text)
  items : Stops Read.rest text (readItems ofText text)
  entries : Stops Read.rest text (readEntries ofText text)

variable {ofText : List Point → Value}

/-- A value stops as what stands inside of it does. -/
theorem stops_value (h : ∀ shorter : List Char, shorter.length < text.length → AllStop ofText shorter) :
    Stops Read.rest text (readValue ofText text) := by
  rw [readValue.eq_def]
  split
  · rename_i rest
    split
    · exact .badJson
    · rename_i hbody
      exact (stringBody_suffix hbody).trans (List.suffix_cons _ _)
  · rename_i rest
    have hgap : skipGap rest <:+ '[' :: rest := skipGap_suffix_of_cons List.suffix_rfl
    split
    · rename_i hclosed
      rw [hclosed] at hgap
      exact (List.suffix_cons _ _).trans hgap
    · have hitems := (h (skipGap rest) (Nat.lt_succ_of_le (length_skipGap_le rest))).items
      split
      · rename_i hread
        exact hitems.refused hread hgap
      · rename_i hread
        exact hitems.left hread hgap
  · rename_i rest
    have hgap : skipGap rest <:+ '\x7b' :: rest := skipGap_suffix_of_cons List.suffix_rfl
    split
    · rename_i hclosed
      rw [hclosed] at hgap
      exact (List.suffix_cons _ _).trans hgap
    · have hentries := (h (skipGap rest) (Nat.lt_succ_of_le (length_skipGap_le rest))).entries
      split
      · rename_i hread
        exact hentries.refused hread hgap
      · rename_i hread
        exact hentries.left hread hgap
  · have hscalar := stops_scalar text
    split
    · rename_i hread
      exact hscalar.refused hread List.suffix_rfl
    · rename_i hread
      exact hscalar.left hread List.suffix_rfl

/-- Items stop one after the other. -/
theorem stops_items (hfirst : Stops Read.rest text (readValue ofText text))
    (h : ∀ shorter : List Char, shorter.length < text.length → AllStop ofText shorter) :
    Stops Read.rest text (readItems ofText text) := by
  rw [readItems.eq_def]
  split
  · rename_i hread
    exact hfirst.refused hread List.suffix_rfl
  · rename_i first hread
    have hbehind := first.shorter
    have hgapLength := length_skipGap_le first.rest
    have hgap : skipGap first.rest <:+ text :=
      (skipGap_suffix first.rest).trans (hfirst.left hread List.suffix_rfl)
    split
    · rename_i hclosed
      rw [hclosed] at hgap
      exact (List.suffix_cons _ _).trans hgap
    · rename_i rest hcomma
      have hrestLength := length_skipGap_le rest
      rw [hcomma] at hgap hgapLength
      rw [List.length_cons] at hgapLength
      have hrest : skipGap rest <:+ text := skipGap_suffix_of_cons hgap
      have hmore := (h (skipGap rest) (by omega)).items
      split
      · rename_i hread
        exact hmore.refused hread hrest
      · rename_i hread
        exact hmore.left hread hrest
    · exact .badJson

/-- Entries stop one after the other. -/
theorem stops_entries (h : ∀ shorter : List Char, shorter.length < text.length → AllStop ofText shorter) :
    Stops Read.rest text (readEntries ofText text) := by
  rw [readEntries.eq_def]
  split
  · rename_i body
    split
    · exact .badJson
    · rename_i key behindKey hkey
      have hkeyLength := length_stringBody_lt hkey
      have hgapLength := length_skipGap_le behindKey
      have hgap : skipGap behindKey <:+ '"' :: body :=
        (skipGap_suffix behindKey).trans ((stringBody_suffix hkey).trans (List.suffix_cons _ _))
      split
      · rename_i behindColon hcolon
        have hcolonLength := length_skipGap_le behindColon
        rw [hcolon] at hgap hgapLength
        rw [List.length_cons] at hgapLength
        have hbehind : skipGap behindColon <:+ '"' :: body := skipGap_suffix_of_cons hgap
        have hvalue := (h (skipGap behindColon) (by rw [List.length_cons]; omega)).value
        split
        · rename_i hread
          exact hvalue.refused hread hbehind
        · -- Behind the value the text goes on as behind an item.
          rename_i first hread
          have hfirst := first.shorter
          have hendLength := length_skipGap_le first.rest
          have hend : skipGap first.rest <:+ '"' :: body :=
            (skipGap_suffix first.rest).trans (hvalue.left hread hbehind)
          split
          · rename_i hclosed
            rw [hclosed] at hend
            exact (List.suffix_cons _ _).trans hend
          · rename_i rest hcomma
            have hrestLength := length_skipGap_le rest
            rw [hcomma] at hend hendLength
            rw [List.length_cons] at hendLength
            have hrest : skipGap rest <:+ '"' :: body := skipGap_suffix_of_cons hend
            have hmore := (h (skipGap rest) (by rw [List.length_cons]; omega)).entries
            split
            · rename_i hread
              exact hmore.refused hread hrest
            · rename_i hread
              exact hmore.left hread hrest
          · exact .badJson
      · exact .badJson
  · exact .badJson

theorem allStop (ofText : List Point → Value) (text : List Char) : AllStop ofText text := by
  induction hlength : text.length using Nat.strong_induction_on generalizing text with
  | _ n ih =>
      have hshorter : ∀ shorter : List Char, shorter.length < text.length → AllStop ofText shorter :=
        fun shorter hlt => ih shorter.length (hlength ▸ hlt) shorter rfl
      have hvalue : Stops Read.rest text (readValue ofText text) := stops_value hshorter
      exact ⟨hvalue, stops_items hvalue hshorter, stops_entries hshorter⟩

/-- **A text that is not read is no JSON, or too many digits stand in it.** -/
theorem refused_of_read (h : read ofText text = .error f) : Refused text f := by
  have hvalue := (allStop ofText (skipGap text)).value
  unfold read at h
  split at h
  · rename_i hread
    cases h
    exact hvalue.refused hread (skipGap_suffix text)
  · split at h
    · cases h
    · cases h
      exact .badJson

theorem closes_of_isDigit {c : Char} (h : isDigit c = true) : closes c = false := by
  cases hcloses : closes c with
  | false => rfl
  | true =>
      simp only [closes, isGap, Bool.or_eq_true, beq_iff_eq] at hcloses
      rcases hcloses with (((rfl | rfl) | rfl) | rfl) | rfl <;> cases h

/-- A number that is refused is refused as a value. -/
theorem readValue_of_digits (hdigit : ∀ c, text.head? = some c → isDigit c = true)
    (h : readScalar text = .error f) : readValue ofText text = .error f := by
  rw [readValue.eq_def]
  split
  · cases hdigit _ rfl
  · cases hdigit _ rfl
  · cases hdigit _ rfl
  · split
    · rename_i hread
      rw [hread] at h
      cases h
      rfl
    · rename_i hread
      rw [hread] at h
      cases h

/-- A text that is an integer with too many digits is refused for them. -/
theorem read_of_digits {digits : List Char} (hdigits : ∀ c ∈ digits, isDigit c = true)
    (hlead : digits.head? ≠ some '0') (hlong : Decimal.digitLimit < digits.length) :
    read ofText digits = .error .tooManyDigits := by
  have hwritten : Numeral.Written ⟨digits, [], false, []⟩ :=
    ⟨hdigits, by simp, by simp, List.ne_nil_of_length_pos (Nat.zero_lt_of_lt hlong), .inr hlead, fun _ => rfl⟩
  have hspelling : (⟨digits, [], false, []⟩ : Numeral).spelling ++ [] = digits := by
    simp [Numeral.spelling, Numeral.fractionSpelling, Numeral.exponentSpelling]
  have hscalar : readScalar digits = .error .tooManyDigits := by
    have hread := @scalar_spelling _ [] hwritten false
    rw [readNumber_spelling Numeral.Ends.nil hwritten false, if_pos ⟨rfl, rfl⟩, if_pos hlong,
      List.append_assoc, hspelling] at hread
    exact hread
  have hhead : ∀ c, digits.head? = some c → isDigit c = true := fun c hc =>
    hdigits c (List.mem_of_head? hc)
  have hgap : skipGap digits = digits := by
    cases digits with
    | nil => rfl
    | cons c tail => exact skipGap_of_head (closes_of_isDigit (hhead c rfl))
  have hvalue : readValue ofText (skipGap digits) = .error .tooManyDigits := by
    rw [hgap]
    exact readValue_of_digits hhead hscalar
  unfold read
  rw [hvalue]

end Scorecard.Json
