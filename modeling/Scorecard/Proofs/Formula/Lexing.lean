/-
Pieces of text and the tokens they are cut into.

The scanner takes the longest lexeme, so what a piece of text is cut into depends on
what follows it: `12` in front of `.5` is not a token of its own.  `Lexes` says that
a piece is cut into the same tokens whatever follows, as long as the text behind does
not go on with a name or a number.  Stated that way, pieces can be put together: a
sign or a blank in front of anything, and anything in front of a sign or a blank.

Names and numbers are the two pieces that could run on.
-/
import Scorecard.Formula.Token
import Scorecard.Proofs.Number.Texts

namespace Scorecard

namespace Token

/-! ### Characters -/

/-- A name or a number in front of this character ends there. -/
def stops (c : Char) : Bool :=
  !continuesName c && c != '.'

/-- The text does not go on with a name or a number. -/
def Boundary (rest : List Char) : Prop :=
  ∀ c, rest.head? = some c → stops c = true

theorem Boundary.nil : Boundary [] := by
  intro c hc
  simp at hc

theorem Boundary.cons {c : Char} {rest : List Char} (h : stops c = true) : Boundary (c :: rest) := by
  intro d hd
  obtain rfl : c = d := by simpa using hd
  exact h

theorem isDigit_eq (c : Char) : Scorecard.isDigit c = c.isDigit := by
  rw [Bool.eq_iff_iff]
  simp [Scorecard.isDigit, Char.isDigit, Char.le_def]

/-- A boundary ends numbers. -/
theorem Boundary.ends {rest : List Char} (h : Boundary rest) : Numeral.Ends rest := by
  intro c hc
  have hstop := h c hc
  simp only [stops, continuesName, Char.isAlphanum, Bool.and_eq_true, Bool.not_eq_true',
    Bool.or_eq_false_iff, bne_iff_ne] at hstop
  obtain ⟨⟨⟨halpha, hdigit⟩, -⟩, hpoint⟩ := hstop
  refine ⟨by rw [isDigit_eq, hdigit], hpoint, ?_, ?_⟩
  · rintro rfl
    cases halpha
  · rintro rfl
    cases halpha

/-- A boundary ends names. -/
theorem Boundary.name {rest : List Char} (h : Boundary rest) (c : Char) (hc : rest.head? = some c) :
    continuesName c = false := by
  have hstop := h c hc
  simp only [stops, Bool.and_eq_true, Bool.not_eq_true'] at hstop
  exact hstop.1

/-- No number starts with a character that is neither a digit nor a point. -/
theorem scan_eq_none {c : Char} (hdigit : Scorecard.isDigit c = false) (hpoint : c ≠ '.')
    (rest : List Char) : Numeral.scan? (c :: rest) = none := by
  unfold Numeral.scan?
  rw [List.takeWhile_cons_of_neg (by simp [hdigit]), List.dropWhile_cons_of_neg (by simp [hdigit])]
  split
  · rename_i hcons
    exact absurd (List.cons.inj hcons).1 hpoint
  · rfl
  · rename_i hcons _
    exact absurd (List.cons.inj hcons).1 hpoint
  · simp_all

/-- A character above the blanks of the ASCII alphabet is none of them. -/
theorem isAsciiBlank_eq_false {c : Char} (h : ' ' < c) : isAsciiBlank c = false := by
  have hlt : 32 < c.toNat := h
  unfold isAsciiBlank
  rw [Bool.or_eq_false_iff]
  constructor
  · rw [beq_eq_false_iff_ne]
    rintro rfl
    exact absurd h (by decide)
  · rw [Bool.and_eq_false_iff]
    refine .inr (decide_eq_false ?_)
    intro hle
    have : c.toNat ≤ 13 := hle
    omega

theorem isAsciiBlank_of_isDigit {c : Char} (h : Scorecard.isDigit c = true) :
    isAsciiBlank c = false := by
  simp only [Scorecard.isDigit, Bool.and_eq_true, decide_eq_true_eq] at h
  have hle : 48 ≤ c.toNat := h.1
  exact isAsciiBlank_eq_false (show 32 < c.toNat by omega)

/-- What starts a name starts no number and is no blank. -/
theorem of_startsName {c : Char} (h : startsName c = true) :
    Scorecard.isDigit c = false ∧ c ≠ '.' ∧ isAsciiBlank c = false := by
  have hrange : 65 ≤ c.toNat := by
    unfold startsName Char.isAlpha Char.isUpper Char.isLower at h
    simp only [Bool.or_eq_true, Bool.and_eq_true, decide_eq_true_eq, beq_iff_eq] at h
    rcases h with (⟨hlow, -⟩ | ⟨hlow, -⟩) | rfl
    · exact hlow
    · exact Nat.le_trans (by decide) (show 97 ≤ c.toNat from hlow)
    · decide
  refine ⟨?_, ?_, isAsciiBlank_eq_false (show 32 < c.toNat by omega)⟩
  · unfold Scorecard.isDigit
    rw [Bool.and_eq_false_iff]
    refine .inr (decide_eq_false fun hle => ?_)
    have : c.toNat ≤ 57 := hle
    omega
  · rintro rfl
    exact absurd hrange (by decide)

/-- What is a sign starts no number, is no blank, and ends names and numbers. -/
theorem of_signKind {c : Char} {kind : Kind} (h : signKind? c = some kind) :
    Scorecard.isDigit c = false ∧ c ≠ '.' ∧ isAsciiBlank c = false ∧ startsName c = false ∧
      stops c = true := by
  unfold signKind? at h
  split at h
  all_goals first
    | exact ⟨rfl, by decide, rfl, rfl, rfl⟩
    | cases h

/-! ### Lexemes -/

theorem lexeme_sign {c : Char} {kind : Kind} (h : signKind? c = some kind) (rest : List Char) :
    lexeme? c rest = some (kind, 0) := by
  obtain ⟨hdigit, hpoint, -, hname, -⟩ := of_signKind h
  unfold lexeme?
  rw [scan_eq_none hdigit hpoint]
  simp only [hname, Bool.false_eq_true, if_false, h, Option.map_some]

theorem lexeme_name {c : Char} {more rest : List Char} (hc : startsName c = true)
    (hmore : ∀ d ∈ more, continuesName d = true) (hrest : Boundary rest) :
    lexeme? c (more ++ rest) = some (.name, more.length) := by
  obtain ⟨hdigit, hpoint, -⟩ := of_startsName hc
  unfold lexeme?
  rw [scan_eq_none hdigit hpoint]
  simp only [hc, if_true, (takeWhile_of_run hmore hrest.name).1]

theorem lexeme_number {n : Numeral} {c : Char} {more rest : List Char} (hn : n.Written)
    (hspelling : n.spelling = c :: more) (hrest : Boundary rest) :
    lexeme? c (more ++ rest) = some (.number (n.toFloat false), more.length) := by
  have hscan := Numeral.scan_spelling hn hrest.ends
  rw [hspelling, List.cons_append] at hscan
  unfold lexeme?
  rw [hscan]
  simp

/-! ### Pieces of text -/

/-- The piece of text at this place is cut into these tokens. -/
def Lexes (position : Nat) (text : List Char) (tokens : List Token) : Prop :=
  ∀ rest, Boundary rest →
    scanFrom position (text ++ rest) =
      (scanFrom (position + text.length) rest).map (tokens ++ ·)

variable {position : Nat} {text : List Char} {tokens : List Token}

theorem scanFrom_lexeme {c : Char} {more rest : List Char} {kind : Kind}
    (hblank : isAsciiBlank c = false) (h : lexeme? c (more ++ rest) = some (kind, more.length)) :
    scanFrom position (c :: (more ++ rest)) =
      (scanFrom (position + (c :: more).length) rest).map
        (⟨kind, String.ofList (c :: more), position⟩ :: ·) := by
  rw [scanFrom]
  rw [if_neg (by simp [hblank]), h]
  simp only [List.drop_left, List.take_left, List.length_cons]
  rw [show position + 1 + more.length = position + (more.length + 1) by omega]
  cases scanFrom (position + (more.length + 1)) rest with
  | error e => rfl
  | ok found => rfl

/-- A sign in front is a token of its own. -/
theorem Lexes.sign {c : Char} {kind : Kind} (hc : signKind? c = some kind)
    (h : Lexes (position + 1) text tokens) :
    Lexes position (c :: text) (⟨kind, String.ofList [c], position⟩ :: tokens) := by
  intro rest hrest
  have hstep := @scanFrom_lexeme position c [] (text ++ rest) kind (of_signKind hc).2.2.1
    (lexeme_sign hc _)
  rw [List.cons_append]
  refine hstep.trans ?_
  rw [List.length_singleton, h rest hrest, List.length_cons,
    show position + 1 + text.length = position + (text.length + 1) by omega]
  cases scanFrom (position + (text.length + 1)) rest with
  | error e => rfl
  | ok found => rfl

/-- A blank in front is none. -/
theorem Lexes.blank (h : Lexes (position + 1) text tokens) : Lexes position (' ' :: text) tokens := by
  intro rest hrest
  have hblank : isAsciiBlank ' ' = true := rfl
  rw [List.cons_append, scanFrom, if_pos hblank, h rest hrest, List.length_cons,
    show position + 1 + text.length = position + (text.length + 1) by omega]

/-- Nothing is cut into nothing. -/
theorem Lexes.nil : Lexes position [] [] := by
  intro rest hrest
  rw [List.nil_append, List.length_nil, Nat.add_zero]
  cases scanFrom position rest with
  | error e => rfl
  | ok found => rfl

/-- Two pieces can be put together where the second starts with a sign or a blank. -/
theorem Lexes.append {c : Char} {more : List Char} {others : List Token} (hc : stops c = true)
    (h : Lexes position text tokens) (hmore : Lexes (position + text.length) (c :: more) others) :
    Lexes position (text ++ c :: more) (tokens ++ others) := by
  intro rest hrest
  have hfirst := h (c :: more ++ rest) (Boundary.cons hc)
  rw [List.append_assoc, hfirst, hmore rest hrest, List.length_append, Nat.add_assoc]
  cases scanFrom (position + (text.length + (c :: more).length)) rest with
  | error e => rfl
  | ok found => simp only [Except.map, List.append_assoc]

/-- A name is one token. -/
theorem Lexes.name {c : Char} {more : List Char} (hc : startsName c = true)
    (hmore : ∀ d ∈ more, continuesName d = true) :
    Lexes position (c :: more) [⟨.name, String.ofList (c :: more), position⟩] := by
  intro rest hrest
  exact scanFrom_lexeme (of_startsName hc).2.2 (lexeme_name hc hmore hrest)

/-- The first character of a spelling is a digit. -/
theorem exists_spelling_cons {n : Numeral} (hn : n.Written) :
    ∃ c more, n.spelling = c :: more ∧ Scorecard.isDigit c = true := by
  obtain ⟨c, more, hwhole⟩ := List.exists_cons_of_ne_nil hn.whole_ne_nil
  have hdigit := hn.wholeDigits c (by rw [hwhole]; exact List.mem_cons_self)
  rw [Numeral.spelling, hwhole, List.cons_append]
  exact ⟨c, _, rfl, hdigit⟩

/-- A number is one token, with its value. -/
theorem Lexes.number {n : Numeral} (hn : n.Written) :
    Lexes position n.spelling [⟨.number (n.toFloat false), String.ofList n.spelling, position⟩] := by
  obtain ⟨c, more, hspelling, hdigit⟩ := exists_spelling_cons hn
  intro rest hrest
  have hlexeme := lexeme_number hn hspelling hrest
  rw [hspelling]
  exact scanFrom_lexeme (isAsciiBlank_of_isDigit hdigit) hlexeme

/-- A whole text is one piece with nothing behind it. -/
theorem Lexes.ofText {source : String} (h : Lexes 0 source.toList tokens) :
    TokenList.ofText source = .ok ⟨tokens, source.length⟩ := by
  have hall := h [] Boundary.nil
  rw [List.append_nil, scanFrom] at hall
  unfold TokenList.ofText
  rw [hall]
  simp only [Except.map, List.append_nil]

end Token

end Scorecard
