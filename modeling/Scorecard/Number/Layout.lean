/-
How a number is laid out as text.

The digits are chosen elsewhere; a `Layout` is the record of a format's own
decisions: which exponents are written without one, what stands at the end of a
whole number, and how the values without digits are spelt.  A format is one value
of this type, kept beside the output that it is for.
-/
import Scorecard.Number.Decimal

namespace Scorecard

/-- A float format's decisions. -/
structure Layout where
  /-- The least decimal exponent that is written positionally. -/
  positionalFrom : Int
  /-- The first decimal exponent that is too large to be written positionally. -/
  positionalBelow : Int
  /-- What ends a whole number in positional notation. -/
  wholeEnd : String
  /-- What stands between the only digit and the exponent in scientific notation. -/
  singleEnd : String
  /-- The fewest digits of a written exponent. -/
  exponentDigits : Nat
  /-- How no number is spelt. -/
  nan : String
  /-- How infinity is spelt, after its sign. -/
  infinity : String

namespace Layout

/-- The library's own text of a double: positional from `0.0001` to below `1e16`,
always with a digit after the point. -/
def plain : Layout where
  positionalFrom := -4
  positionalBelow := 16
  wholeEnd := ".0"
  singleEnd := ""
  exponentDigits := 2
  nan := "nan"
  infinity := "inf"

/-- The short text of a double, for six significant digits and readers in a hurry. -/
def brief : Layout where
  positionalFrom := -4
  positionalBelow := 6
  wholeEnd := ""
  singleEnd := ""
  exponentDigits := 2
  nan := "nan"
  infinity := "inf"

/-- The exponent part: a sign and at least the least count of digits. -/
def exponentText (layout : Layout) (exponent : Int) : List Char :=
  let digits := Decimal.digitsOf exponent.natAbs
  'e' :: (if exponent < 0 then '-' else '+') ::
    (List.replicate (layout.exponentDigits - digits.length) '0' ++ digits)

/-- The text of a decimal without its sign. -/
def digits (layout : Layout) (d : Decimal) : List Char :=
  let run := Decimal.digitsOf d.coefficient
  let leading : Int := (run.length : Int) - 1 + d.exponent
  if layout.positionalFrom ≤ leading ∧ leading < layout.positionalBelow then
    if 0 ≤ d.exponent then
      run ++ List.replicate d.exponent.toNat '0' ++ layout.wholeEnd.toList
    else if 0 ≤ leading then
      run.take (leading.toNat + 1) ++ '.' :: run.drop (leading.toNat + 1)
    else
      '0' :: '.' :: (List.replicate (-leading - 1).toNat '0' ++ run)
  else
    match run with
    | [] => []
    | [c] => c :: (layout.singleEnd.toList ++ layout.exponentText leading)
    | c :: rest => c :: '.' :: (rest ++ layout.exponentText leading)

/-- The text of a double, its digits chosen by `choose` from its mantissa and exponent. -/
def textWith (layout : Layout) (choose : Nat → Int → Decimal) (x : Float) : List Char :=
  match Binary64.decode x with
  | .nan => layout.nan.toList
  | .infinite negative => (if negative then ['-'] else []) ++ layout.infinity.toList
  | .finite negative mantissa exponent =>
    (if negative then ['-'] else []) ++
      layout.digits (if mantissa = 0 then ⟨0, 0⟩ else choose mantissa exponent)

/-- The text of a double with the fewest digits that read back. -/
def text (layout : Layout) (x : Float) : List Char :=
  layout.textWith Decimal.shortest x

end Layout

/-- The text of a double: the fewest digits that read back, laid out plainly. -/
def floatText (x : Float) : String :=
  String.ofList (Layout.plain.text x)

/-- How many significant digits a brief text has at most. -/
def briefDigits : Nat := 6

/-- The text of a double with at most six significant digits. -/
def briefText (x : Float) : String :=
  String.ofList <| Layout.brief.textWith
    (fun mantissa exponent => (Decimal.significant briefDigits mantissa exponent).dropZeros briefDigits) x

/-- The text of an integer: a sign if it is negative, and its decimal digits. -/
def intText (n : Int) : String :=
  String.ofList ((if n < 0 then ['-'] else []) ++ Decimal.digitsOf n.natAbs)

end Scorecard
