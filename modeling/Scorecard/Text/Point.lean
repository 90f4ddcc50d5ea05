/-
Texts with halves of surrogate pairs in them.

A character beyond the first 65536 takes two units of 16 bits, and whoever escapes it
writes two numbers.  One of them alone stands for no character, but it has its place
in the text and is told apart from any other.  A `Point` is such a place, and a
`BrokenText` a text that has a half in it and so is no `String`.
-/

namespace Scorecard

/-- A place of a text: a character, or half of a surrogate pair. -/
inductive Point where
  | char (c : Char)
  | half (unit : Nat) (isHalf : 0xD800 ≤ unit ∧ unit < 0xE000)
deriving DecidableEq

namespace Point

/-- The character or the half that a unit of 16 bits is. -/
def ofUnit (unit : Nat) : Point :=
  if h : 0xD800 ≤ unit ∧ unit < 0xE000 then .half unit h else .char (Char.ofNat unit)

/-- The number of a character, or the unit that a half is. -/
def number : Point → Nat
  | .char c => c.toNat
  | .half unit _ => unit

/-- The character that is shown; the replacement character stands for a half. -/
def shown : Point → Char
  | .char c => c
  | .half _ _ => '\uFFFD'

/-- The characters of a text without halves. -/
def chars? : List Point → Option (List Char)
  | [] => some []
  | .char c :: rest => (chars? rest).map (c :: ·)
  | .half _ _ :: _ => none

/-- Lexicographic order by number. -/
def below : List Point → List Point → Bool
  | _, [] => false
  | [], _ :: _ => true
  | p :: ps, q :: qs => p.number < q.number || (p == q && below ps qs)

@[simp] theorem chars?_map_char (chars : List Char) : chars? (chars.map .char) = some chars := by
  induction chars with
  | nil => rfl
  | cons c rest ih => rw [List.map_cons, chars?, ih]; rfl

@[simp] theorem map_shown_char (chars : List Char) : (chars.map Point.char).map shown = chars := by
  rw [List.map_map]
  exact List.map_id chars

end Point

/-- A text in which a half stands. -/
structure BrokenText where
  points : List Point
  isBroken : Point.chars? points = none
deriving DecidableEq

/-- The text with the replacement character for every half. -/
def BrokenText.shown (text : BrokenText) : String :=
  String.ofList (text.points.map Point.shown)

end Scorecard
