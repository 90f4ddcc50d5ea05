/-
Reading JSON.

The reader takes what the grammar of JSON admits and three names more: `NaN`,
`Infinity` and `-Infinity`.  A number without point and exponent is an integer, any other
a double; there is one `NaN`, however often it is written.  Controls may not stand bare in
a string.  Of a repeated key the last value counts, in the place of the first.

A text is refused where it is no JSON, and where an integer has too many digits.  That is
found out while reading, so of several things that are wrong the first counts.

An escaped half of a surrogate pair need not have its other half beside it.  What a
string with such a half is taken for is up to those who read, and so the reader asks for
a function from the points of strings to values.

Every piece of text is read from the front by a function that answers with what is
left.  What is left is shorter, and that is what ends the recursion.
-/
import Scorecard.Fault
import Scorecard.Number.Numeral

namespace Scorecard

namespace Json

/-- The blanks between the parts of a text. -/
def isGap (c : Char) : Bool :=
  c == ' ' || c == '\t' || c == '\n' || c == '\r'

/-- What follows the blanks at the front. -/
def skipGap (text : List Char) : List Char :=
  text.dropWhile isGap

theorem length_skipGap_le (text : List Char) : (skipGap text).length ≤ text.length :=
  (List.dropWhile_suffix isGap).length_le

/-! ### Strings -/

/-- The value of a hexadecimal digit. -/
def hexValue? (c : Char) : Option Nat :=
  if isDigit c then some (c.toNat - '0'.toNat)
  else if 'a' ≤ c && c ≤ 'f' then some (c.toNat - 'a'.toNat + 10)
  else if 'A' ≤ c && c ≤ 'F' then some (c.toNat - 'A'.toNat + 10)
  else none

/-- The unit of 16 bits that four hexadecimal digits write. -/
def unit? (a b c d : Char) : Option Nat := do
  some ((((← hexValue? a) * 16 + (← hexValue? b)) * 16 + (← hexValue? c)) * 16 + (← hexValue? d))

/-- The first half of a surrogate pair. -/
def isHighHalf (unit : Nat) : Bool := 0xD800 ≤ unit && unit < 0xDC00

/-- The second half of a surrogate pair. -/
def isLowHalf (unit : Nat) : Bool := 0xDC00 ≤ unit && unit < 0xE000

/-- The character of a surrogate pair. -/
def pairChar (high low : Nat) : Char :=
  Char.ofNat (0x10000 + (high - 0xD800) * 0x400 + (low - 0xDC00))

/-- The character that a letter behind a backslash stands for. -/
def letterEscape? : Char → Option Char
  | '"' => some '"'
  | '\\' => some '\\'
  | '/' => some '/'
  | 'b' => some '\x08'
  | 'f' => some '\x0c'
  | 'n' => some '\n'
  | 'r' => some '\r'
  | 't' => some '\t'
  | _ => none

/-- What the text behind a backslash stands for, and what follows.  A half that its other
half does not follow stands for itself. -/
def unescape? : List Char → Option (Point × List Char)
  | 'u' :: a :: b :: c :: d :: rest => do
    let unit ← unit? a b c d
    match isHighHalf unit, rest with
    | true, '\\' :: 'u' :: e :: f :: g :: h :: behind =>
      let low ← unit? e f g h
      if isLowHalf low then some (.char (pairChar unit low), behind) else some (.ofUnit unit, rest)
    | _, _ => some (.ofUnit unit, rest)
  | c :: rest => (letterEscape? c).map fun char => (.char char, rest)
  | [] => none

theorem length_unescape_lt {text rest : List Char} {p : Point} (h : unescape? text = some (p, rest)) :
    rest.length < text.length := by
  unfold unescape? at h
  split at h
  · simp only [Option.bind_eq_bind, Option.bind_eq_some_iff] at h
    obtain ⟨unit, -, h⟩ := h
    split at h
    · obtain ⟨low, -, h⟩ := Option.bind_eq_some_iff.1 h
      split at h
      · cases h
        simp only [List.length_cons]
        omega
      · cases h
        simp only [List.length_cons]
        omega
    · simp only [Option.some.injEq, Prod.mk.injEq] at h
      obtain ⟨-, rfl⟩ := h
      simp; omega
  · obtain ⟨_, -, h⟩ := Option.map_eq_some_iff.1 h
    simp only [Prod.mk.injEq] at h
    obtain ⟨-, rfl⟩ := h
    simp
  · simp at h

/-- The points of a string up to its closing quote, behind those already read, and what
follows the quote. -/
def stringBody? (read : List Point) (text : List Char) : Option (List Point × List Char) :=
  match text with
  | [] => none
  | '"' :: rest => some (read.reverse, rest)
  | '\\' :: rest =>
    match _h : unescape? rest with
    | none => none
    | some (point, behind) => stringBody? (point :: read) behind
  | c :: rest => if c < ' ' then none else stringBody? (.char c :: read) rest
termination_by text.length
decreasing_by
  · have := length_unescape_lt _h; simp; omega
  · simp

theorem length_stringBody_lt {read points : List Point} {text rest : List Char}
    (h : stringBody? read text = some (points, rest)) : rest.length < text.length := by
  fun_induction stringBody? read text with
  | case1 => simp at h
  | case2 read rest => simp at h; obtain ⟨-, rfl⟩ := h; simp
  | case3 => simp at h
  | case4 read rest point behind hu ih =>
    have := ih h; have := length_unescape_lt hu; simp; omega
  | case5 => simp at h
  | case6 read c rest _ _ _ ih => have := ih h; simp; omega

/-! ### Numbers and names -/

/-- What follows a word at the front of a text. -/
def afterWord? : (word text : List Char) → Option (List Char)
  | [], text => some text
  | w :: word, c :: text => if w = c then afterWord? word text else none
  | _ :: _, [] => none

theorem length_afterWord_le {word text rest : List Char} (h : afterWord? word text = some rest) :
    rest.length + word.length ≤ text.length := by
  induction word generalizing text with
  | nil => simp [afterWord?] at h; simp [h]
  | cons w word ih =>
    cases text with
    | nil => simp [afterWord?] at h
    | cons c text =>
      simp only [afterWord?] at h
      split at h
      · have := ih h; simp; omega
      · simp at h

/-- The digits in front of the point: a zero, or digits that do not start with one. -/
def wholeDigits? : List Char → Option (List Char × List Char)
  | '0' :: rest => some (['0'], rest)
  | c :: rest =>
    if isDigit c then some (c :: rest.takeWhile isDigit, rest.dropWhile isDigit) else none
  | [] => none

/-- The digits behind a point, if a point and at least one digit follow. -/
def fraction (text : List Char) : List Char × List Char :=
  match text with
  | '.' :: rest =>
    match rest.takeWhile isDigit with
    | [] => ([], text)
    | digits => (digits, rest.dropWhile isDigit)
  | _ => ([], text)

/-- A number without its sign, and what follows it. -/
def readNumber (negative : Bool) (text : List Char) : Except Fault (Value × List Char) :=
  match wholeDigits? text with
  | none => .error .badJson
  | some (whole, behindWhole) =>
    let (fraction, behindFraction) := fraction behindWhole
    match Numeral.scanExponent? behindFraction with
    | some (exponentNegative, exponent, rest) =>
      .ok (.float (Numeral.toFloat negative ⟨whole, fraction, exponentNegative, exponent⟩), rest)
    | none =>
      if !fraction.isEmpty then
        .ok (.float (Numeral.toFloat negative ⟨whole, fraction, false, []⟩), behindFraction)
      else if Decimal.digitLimit < whole.length then .error .tooManyDigits
      else
        let magnitude : Int := Decimal.ofDigits whole
        .ok (.int (if negative then -magnitude else magnitude), behindFraction)

/-- The names that stand for a value, each with what it stands for. -/
def names : List (List Char × Value) :=
  [("null".toList, .null), ("true".toList, .bool true), ("false".toList, .bool false),
   ("NaN".toList, .nan 0),
   ("Infinity".toList, .float (Binary64.encode (.infinite false))),
   ("-Infinity".toList, .float (Binary64.encode (.infinite true)))]

/-- The value of a name at the front of a text, and what follows it. -/
def named? (text : List Char) : Option (Value × List Char) :=
  names.findSome? fun (word, value) => (afterWord? word text).map fun rest => (value, rest)

/-- A number or a name at the front of a text, and what follows it. -/
def readScalar (text : List Char) : Except Fault (Value × List Char) :=
  match named? text with
  | some found => .ok found
  | none =>
    match text with
    | '-' :: rest => readNumber true rest
    | _ => readNumber false text

theorem length_dropWhile_le (p : Char → Bool) (text : List Char) :
    (text.dropWhile p).length ≤ text.length :=
  (List.dropWhile_suffix p).length_le

theorem length_scanExponent_lt {text digits rest : List Char} {negative : Bool}
    (h : Numeral.scanExponent? text = some (negative, digits, rest)) : rest.length < text.length := by
  unfold Numeral.scanExponent? at h
  split at h
  · rename_i mark tail
    split at h
    · split at h
      · simp at h
      · simp only [Option.some.injEq, Prod.mk.injEq] at h
        obtain ⟨-, -, rfl⟩ := h
        have := Numeral.length_takeSign_le tail
        have := length_dropWhile_le isDigit (Numeral.takeSign tail).2
        simp; omega
    · simp at h
  · simp at h

theorem length_fraction_le (text : List Char) : (fraction text).2.length ≤ text.length := by
  unfold fraction
  split
  · rename_i rest
    split
    · simp
    · have := length_dropWhile_le isDigit rest; simp; omega
  · simp

theorem length_wholeDigits_lt {text digits rest : List Char}
    (h : wholeDigits? text = some (digits, rest)) : rest.length < text.length := by
  unfold wholeDigits? at h
  split at h
  · simp only [Option.some.injEq, Prod.mk.injEq] at h
    obtain ⟨-, rfl⟩ := h; simp
  · rename_i c tail _
    split at h
    · simp only [Option.some.injEq, Prod.mk.injEq] at h
      obtain ⟨-, rfl⟩ := h
      have := length_dropWhile_le isDigit tail; simp; omega
    · simp at h
  · simp at h

theorem length_readNumber_lt {negative : Bool} {text rest : List Char} {v : Value}
    (h : readNumber negative text = .ok (v, rest)) : rest.length < text.length := by
  unfold readNumber at h
  split at h
  · cases h
  · rename_i whole behind hw
    have h1 := length_wholeDigits_lt hw
    have h2 := length_fraction_le behind
    simp only at h
    split at h
    · rename_i he
      have h3 := length_scanExponent_lt he
      cases h
      omega
    · split at h
      · cases h
        omega
      · split at h
        · cases h
        · cases h
          omega

theorem length_readScalar_lt {text rest : List Char} {v : Value}
    (h : readScalar text = .ok (v, rest)) : rest.length < text.length := by
  unfold readScalar at h
  split at h
  · rename_i found hn
    cases h
    obtain ⟨⟨word, value⟩, hmem, hw⟩ := List.exists_of_findSome?_eq_some hn
    obtain ⟨tail, ht, hv⟩ := Option.map_eq_some_iff.1 hw
    cases hv
    have := length_afterWord_le ht
    have hpos : 0 < word.length := by
      simp only [names, List.mem_cons, Prod.mk.injEq, List.not_mem_nil, or_false] at hmem
      rcases hmem with ⟨rfl, -⟩ | ⟨rfl, -⟩ | ⟨rfl, -⟩ | ⟨rfl, -⟩ | ⟨rfl, -⟩ | ⟨rfl, -⟩ <;>
        decide
    omega
  · split at h
    · have := length_readNumber_lt h; simp; omega
    · exact length_readNumber_lt h

/-! ### Values -/

/-- A value read from the front of `text`, and what follows it. -/
structure Read (α : Type) (text : List Char) where
  value : α
  rest : List Char
  shorter : rest.length < text.length

section

variable (ofText : List Point → Value)

mutual

/-- The value at the front of a text. -/
def readValue (text : List Char) : Except Fault (Read Value text) :=
  match text with
  | '"' :: rest =>
    match h : stringBody? [] rest with
    | none => .error .badJson
    | some (points, behind) =>
      .ok ⟨ofText points, behind, by have := length_stringBody_lt h; simp; omega⟩
  | '[' :: rest =>
    match hs : skipGap rest with
    | ']' :: behind =>
      .ok ⟨.list [], behind, by have := length_skipGap_le rest; simp [hs] at this ⊢; omega⟩
    | inside =>
      match readItems inside with
      | .error f => .error f
      | .ok items =>
        .ok ⟨.list items.value, items.rest, by
          have := items.shorter; have := length_skipGap_le rest; simp [hs] at this ⊢; omega⟩
  | '{' :: rest =>
    match hs : skipGap rest with
    | '}' :: behind =>
      .ok ⟨.record [], behind, by have := length_skipGap_le rest; simp [hs] at this ⊢; omega⟩
    | inside =>
      match readEntries inside with
      | .error f => .error f
      | .ok entries =>
        .ok ⟨.record (Value.storeAll entries.value), entries.rest, by
          have := entries.shorter; have := length_skipGap_le rest; simp [hs] at this ⊢; omega⟩
  | others =>
    match h : readScalar others with
    | .error f => .error f
    | .ok (v, rest) => .ok ⟨v, rest, length_readScalar_lt h⟩
termination_by (text.length, 0)
decreasing_by
  · exact Prod.Lex.left _ _ (by have := length_skipGap_le rest; simp [hs] at this ⊢; omega)
  · exact Prod.Lex.left _ _ (by have := length_skipGap_le rest; simp [hs] at this ⊢; omega)

/-- The items of a list up to its closing bracket. -/
def readItems (text : List Char) : Except Fault (Read (List Value) text) :=
  match readValue text with
  | .error f => .error f
  | .ok first =>
    match hs : skipGap first.rest with
    | ']' :: rest =>
      .ok ⟨[first.value], rest, by
        have := first.shorter; have := length_skipGap_le first.rest; simp [hs] at this; omega⟩
    | ',' :: rest =>
      match readItems (skipGap rest) with
      | .error f => .error f
      | .ok more =>
        .ok ⟨first.value :: more.value, more.rest, by
          have := first.shorter; have := length_skipGap_le first.rest; have := more.shorter
          have := length_skipGap_le rest; simp [hs] at *; omega⟩
    | _ => .error .badJson
termination_by (text.length, 1)
decreasing_by
  · exact Prod.Lex.right _ (by omega)
  · exact Prod.Lex.left _ _ (by
      have := first.shorter; have := length_skipGap_le first.rest
      have := length_skipGap_le rest; simp [hs] at *; omega)

/-- The entries of a record up to its closing brace. -/
def readEntries (text : List Char) : Except Fault (Read (List (Value × Value)) text) :=
  match text with
  | '"' :: body =>
    match hb : stringBody? [] body with
    | none => .error .badJson
    | some (key, behindKey) =>
      match hc : skipGap behindKey with
      | ':' :: behindColon =>
        match readValue (skipGap behindColon) with
        | .error f => .error f
        | .ok first =>
          match hs : skipGap first.rest with
          | '}' :: rest =>
            .ok ⟨[(ofText key, first.value)], rest, by
              have := length_stringBody_lt hb; have := length_skipGap_le behindKey
              have := length_skipGap_le behindColon; have := first.shorter
              have := length_skipGap_le first.rest; simp [hs, hc] at *; omega⟩
          | ',' :: rest =>
            match readEntries (skipGap rest) with
            | .error f => .error f
            | .ok more =>
              .ok ⟨(ofText key, first.value) :: more.value, more.rest, by
                have := length_stringBody_lt hb; have := length_skipGap_le behindKey
                have := length_skipGap_le behindColon; have := first.shorter
                have := length_skipGap_le first.rest; have := more.shorter
                have := length_skipGap_le rest; simp [hs, hc] at *; omega⟩
          | _ => .error .badJson
      | _ => .error .badJson
  | _ => .error .badJson
termination_by (text.length, 0)
decreasing_by
  · exact Prod.Lex.left _ _ (by
      have := length_stringBody_lt hb; have := length_skipGap_le behindKey
      have := length_skipGap_le behindColon; simp [hc] at *; omega)
  · exact Prod.Lex.left _ _ (by
      have := length_stringBody_lt hb; have := length_skipGap_le behindKey
      have := length_skipGap_le behindColon; have := first.shorter
      have := length_skipGap_le first.rest
      have := length_skipGap_le rest; simp [hs, hc] at *; omega)

end

/-- The value that a whole text writes. -/
def read (text : List Char) : Except Fault Value :=
  match readValue ofText (skipGap text) with
  | .error f => .error f
  | .ok found => if (skipGap found.rest).isEmpty then .ok found.value else .error .badJson

end

end Json

/-- The value that a text writes in JSON. -/
def Value.ofJson (text : String) : Except Fault Value :=
  Json.read ofPoints text.toList

end Scorecard
