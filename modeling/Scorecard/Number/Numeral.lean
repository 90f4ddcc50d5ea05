/-
Numerals: how a number without a sign is spelt.

    numeral   =  ( digits [ "." [ digits ] ]  |  "." digits )  [ exponent ]
    exponent  =  ( "e" | "E" ) [ "+" | "-" ] digits

`Numeral.scan?` takes the longest numeral at the front of a text; an `e` without
digits behind it is left alone.  Formulas, stored numbers and documents all read
their numbers through it, and differ only in what they allow around it.
-/
import Scorecard.Number.Layout

namespace Scorecard

/-- The decimal digits of the ASCII alphabet. -/
def isDigit (c : Char) : Bool :=
  '0' ≤ c && c ≤ '9'

/-- A numeral: the digits before and after the point, and the exponent. -/
structure Numeral where
  whole : List Char
  fraction : List Char
  exponentNegative : Bool
  exponent : List Char

namespace Numeral

/-- The decimal that a numeral names. -/
def toDecimal (n : Numeral) : Decimal :=
  let written : Int := Decimal.ofDigits n.exponent
  { coefficient := Decimal.ofDigits (n.whole ++ n.fraction)
    exponent := (if n.exponentNegative then -written else written) - n.fraction.length }

/-- The double nearest to `± n`. -/
def toFloat (negative : Bool) (n : Numeral) : Float :=
  n.toDecimal.toFloat negative

/-- Whether a text starts with a minus, and what follows its sign, if it has one. -/
def takeSign : List Char → Bool × List Char
  | '-' :: rest => (true, rest)
  | '+' :: rest => (false, rest)
  | rest => (false, rest)

/-- An exponent at the front of a text: its sign, its digits and what follows. -/
def scanExponent? : List Char → Option (Bool × List Char × List Char)
  | mark :: rest =>
    if mark = 'e' ∨ mark = 'E' then
      match (takeSign rest).2.takeWhile isDigit with
      | [] => none
      | digits => some ((takeSign rest).1, digits, (takeSign rest).2.dropWhile isDigit)
    else none
  | [] => none

theorem length_takeSign_le (text : List Char) : (takeSign text).2.length ≤ text.length := by
  unfold takeSign
  split <;> simp

/-- Complete a numeral with the exponent that follows it, if one does. -/
def withExponent (whole fraction rest : List Char) : Numeral × List Char :=
  match scanExponent? rest with
  | some (negative, digits, tail) => (⟨whole, fraction, negative, digits⟩, tail)
  | none => (⟨whole, fraction, false, []⟩, rest)

/-- The longest numeral at the front of a text, and what follows it. -/
def scan? (text : List Char) : Option (Numeral × List Char) :=
  match text.takeWhile isDigit, text.dropWhile isDigit with
  | [], '.' :: rest =>
    match rest.takeWhile isDigit with
    | [] => none
    | fraction => some (withExponent [] fraction (rest.dropWhile isDigit))
  | [], _ => none
  | whole, '.' :: rest => some (withExponent whole (rest.takeWhile isDigit) (rest.dropWhile isDigit))
  | whole, rest => some (withExponent whole [] rest)

/-- The double that a whole text names, if it is one numeral and nothing else. -/
def read? (negative : Bool) (text : List Char) : Option Float :=
  match scan? text with
  | some (n, []) => some (n.toFloat negative)
  | _ => none

end Numeral

end Scorecard
