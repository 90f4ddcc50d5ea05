/-
Strings read back.

A character stands in a string as itself, as a letter behind a backslash, or by its
number behind a backslash, in two halves if one number is not enough.  Each of these is
one step of the reader, which then holds the character and stands in front of what
follows.  So the reader goes over what was written character by character until it meets
the closing quote, which no character is written as, whether the writer keeps to ASCII or
not.
-/
import Scorecard.Json.Reader
import Scorecard.Json.Text

namespace Scorecard.Json

/-! ### Hexadecimal digits -/

theorem hexValue_hexDigit (n : Nat) : hexValue? (Quoted.hexDigit n) = some (n % 16) := by
  have hsmall : ∀ d < 16, hexValue? (Nat.digitChar d) = some d := by decide
  exact hsmall (n % 16) (Nat.mod_lt n (by omega))

/-- Four digits write a unit. -/
theorem exists_hex {n : Nat} (h : n < 0x10000) :
    ∃ a b c d, Quoted.hex 4 n = [a, b, c, d] ∧ unit? a b c d = some n := by
  refine ⟨_, _, _, _, rfl, ?_⟩
  unfold unit?
  simp only [hexValue_hexDigit, Option.bind_eq_bind, Option.bind_some, Option.some.injEq]
  omega

/-! ### One step of the reader -/

theorem stringBody_quote (read : List Point) (rest : List Char) :
    stringBody? read ('"' :: rest) = some (read.reverse, rest) := by
  rw [stringBody?]

theorem stringBody_backslash {read : List Point} {rest behind : List Char} {point : Point}
    (h : unescape? rest = some (point, behind)) :
    stringBody? read ('\\' :: rest) = stringBody? (point :: read) behind := by
  rw [stringBody?]
  split
  · rename_i hnone
    rw [hnone] at h
    cases h
  · rename_i hsome
    rw [hsome] at h
    cases h
    rfl

theorem stringBody_bare {read : List Point} {rest : List Char} {c : Char} (hquote : c ≠ '"')
    (hbackslash : c ≠ '\\') (hcontrol : ¬ c < ' ') :
    stringBody? read (c :: rest) = stringBody? (.char c :: read) rest := by
  rw [stringBody?.eq_def]
  split
  · rename_i hnil
    cases hnil
  · rename_i hcons
    cases hcons
    exact absurd rfl hquote
  · rename_i hcons
    cases hcons
    exact absurd rfl hbackslash
  · rename_i hcons
    cases hcons
    exact if_neg hcontrol

/-- A letter behind a backslash. -/
theorem stringBody_letter {read : List Point} {rest : List Char} {c letter : Char} (hu : letter ≠ 'u')
    (h : letterEscape? letter = some c) :
    stringBody? read ('\\' :: letter :: rest) = stringBody? (.char c :: read) rest := by
  refine stringBody_backslash ?_
  unfold unescape?
  split
  · rename_i hcons
    cases hcons
    exact absurd rfl hu
  · rename_i hcons
    cases hcons
    rw [h]
    rfl
  · rename_i hnil
    cases hnil

/-- No character is half of a surrogate pair. -/
private theorem not_half (c : Char) : isHighHalf c.toNat = false ∧ isLowHalf c.toNat = false := by
  have hvalid : c.toNat < 0xD800 ∨ 0xDFFF < c.toNat ∧ c.toNat < 0x110000 := c.valid
  unfold isHighHalf isLowHalf
  simp only [Bool.and_eq_false_iff, decide_eq_false_iff_not]
  omega

/-- A character by its number. -/
theorem stringBody_number {read : List Point} {rest : List Char} {c : Char} (h : c.toNat < 0x10000) :
    stringBody? read (unitEscape c.toNat ++ rest) = stringBody? (.char c :: read) rest := by
  obtain ⟨p, q, r, s, hhex, hunit⟩ := exists_hex h
  have hhigh := (not_half c).1
  have hpoint : Point.ofUnit c.toNat = .char c := by
    have hvalid : c.toNat < 0xD800 ∨ 0xDFFF < c.toNat ∧ c.toNat < 0x110000 := c.valid
    rw [Point.ofUnit, dif_neg (by omega), Char.ofNat_toNat]
  unfold unitEscape
  rw [hhex]
  show stringBody? read ('\\' :: 'u' :: p :: q :: r :: s :: rest) = _
  refine stringBody_backslash ?_
  unfold unescape?
  simp only [hunit, Option.bind_eq_bind, Option.bind_some, hhigh, hpoint]

/-- A unit of the first half and one of the second together. -/
private theorem stringBody_halves {read : List Point} {rest : List Char} {high low : Nat}
    (hhigh : isHighHalf high = true) (hlow : isLowHalf low = true) :
    stringBody? read (unitEscape high ++ unitEscape low ++ rest) =
      stringBody? (.char (pairChar high low) :: read) rest := by
  have hbounds : high < 0x10000 ∧ low < 0x10000 := by
    simp only [isHighHalf, isLowHalf, Bool.and_eq_true, decide_eq_true_eq] at hhigh hlow
    omega
  obtain ⟨p, q, r, s, hhex, hunit⟩ := exists_hex hbounds.1
  obtain ⟨p', q', r', s', hhex', hunit'⟩ := exists_hex hbounds.2
  unfold unitEscape
  rw [hhex, hhex']
  show stringBody? read
    ('\\' :: 'u' :: p :: q :: r :: s :: '\\' :: 'u' :: p' :: q' :: r' :: s' :: rest) = _
  refine stringBody_backslash ?_
  unfold unescape?
  simp only [hunit, hunit', Option.bind_eq_bind, Option.bind_some, hhigh, hlow, if_true]

/-- The two halves of a number make it up again. -/
private theorem pairChar_halves {c : Char} (h : 0x10000 ≤ c.toNat) :
    pairChar (0xD800 + (c.toNat - 0x10000) / 0x400) (0xDC00 + (c.toNat - 0x10000) % 0x400) = c := by
  have hnumber : 0x10000 + (0xD800 + (c.toNat - 0x10000) / 0x400 - 0xD800) * 0x400 +
      (0xDC00 + (c.toNat - 0x10000) % 0x400 - 0xDC00) = c.toNat := by
    omega
  rw [pairChar, hnumber, Char.ofNat_toNat]

/-- A character by the two halves of its surrogate pair. -/
theorem stringBody_pair {read : List Point} {rest : List Char} {c : Char} (h : 0x10000 ≤ c.toNat) :
    stringBody? read (unitEscape (0xD800 + (c.toNat - 0x10000) / 0x400) ++
      unitEscape (0xDC00 + (c.toNat - 0x10000) % 0x400) ++ rest) = stringBody? (.char c :: read) rest := by
  have hvalid : c.toNat < 0xD800 ∨ 0xDFFF < c.toNat ∧ c.toNat < 0x110000 := c.valid
  have hhigh : isHighHalf (0xD800 + (c.toNat - 0x10000) / 0x400) = true := by
    simp only [isHighHalf, Bool.and_eq_true, decide_eq_true_eq]
    omega
  have hlow : isLowHalf (0xDC00 + (c.toNat - 0x10000) % 0x400) = true := by
    simp only [isLowHalf, Bool.and_eq_true, decide_eq_true_eq]
    omega
  rw [stringBody_halves hhigh hlow, pairChar_halves h]

/-! ### Strings -/

/-- How a character stands in a string. -/
inductive Stands (c : Char) : List Char → Prop
  | letter {letter : Char} (hu : letter ≠ 'u') (h : letterEscape? letter = some c) :
      Stands c ['\\', letter]
  | number (single : c.toNat < 0x10000) : Stands c (unitEscape c.toNat)
  | pair (double : 0x10000 ≤ c.toNat) :
      Stands c (unitEscape (0xD800 + (c.toNat - 0x10000) / 0x400) ++
        unitEscape (0xDC00 + (c.toNat - 0x10000) % 0x400))
  | bare (quote : c ≠ '"') (backslash : c ≠ '\\') (control : ¬ c < ' ') : Stands c [c]

theorem stands_charEscape (c : Char) : Stands c (charEscape c) := by
  unfold charEscape
  by_cases h : c.toNat < 0x10000
  · rw [if_pos h]
    exact .number h
  · rw [if_neg h]
    exact .pair (Nat.not_lt.mp h)

theorem stands_escape (asciiOnly : Bool) (c : Char) : Stands c (escape asciiOnly c) := by
  unfold escape
  by_cases hquote : c = '"'
  · subst hquote
    exact .letter (by simp) rfl
  rw [if_neg hquote]
  by_cases hbackslash : c = '\\'
  · subst hbackslash
    exact .letter (by simp) rfl
  rw [if_neg hbackslash]
  by_cases hfeed : c = '\n'
  · subst hfeed
    exact .letter (by simp) rfl
  rw [if_neg hfeed]
  by_cases hreturn : c = '\r'
  · subst hreturn
    exact .letter (by simp) rfl
  rw [if_neg hreturn]
  by_cases htab : c = '\t'
  · subst htab
    exact .letter (by simp) rfl
  rw [if_neg htab]
  by_cases hform : c = '\x0c'
  · subst hform
    exact .letter (by simp) rfl
  rw [if_neg hform]
  by_cases hback : c = '\x08'
  · subst hback
    exact .letter (by simp) rfl
  rw [if_neg hback]
  by_cases hcontrol : c < ' '
  · rw [if_pos hcontrol]
    exact stands_charEscape c
  rw [if_neg hcontrol]
  by_cases hforeign : (asciiOnly && decide ('~' < c)) = true
  · rw [if_pos hforeign]
    exact stands_charEscape c
  · rw [if_neg hforeign]
    exact .bare hquote hbackslash hcontrol

/-- A character is read back from how it stands in a string. -/
theorem stringBody_stands {c : Char} {text : List Char} (h : Stands c text)
    (read : List Point) (rest : List Char) :
    stringBody? read (text ++ rest) = stringBody? (.char c :: read) rest := by
  rcases h with ⟨hu, h⟩ | hsingle | hdouble | ⟨hquote, hbackslash, hcontrol⟩
  · exact stringBody_letter hu h
  · exact stringBody_number hsingle
  · exact stringBody_pair hdouble
  · exact stringBody_bare hquote hbackslash hcontrol

/-- **The body of a string is read back up to its closing quote.** -/
theorem stringBody_string (asciiOnly : Bool) (text : List Char) (read : List Point) (rest : List Char) :
    stringBody? read (text.flatMap (escape asciiOnly) ++ '"' :: rest) =
      some (read.reverse ++ text.map .char, rest) := by
  induction text generalizing read with
  | nil =>
      show stringBody? read ('"' :: rest) = _
      rw [stringBody_quote, List.map_nil, List.append_nil]
  | cons c text ih =>
      rw [List.flatMap_cons, List.append_assoc, stringBody_stands (stands_escape asciiOnly c), ih,
        List.reverse_cons, List.append_assoc]
      rfl

end Scorecard.Json
