/-
Decimals, and the fewest digits that name a double.

A decimal is a whole coefficient times a power of ten.  Every finite double is
one exactly (`Decimal.exact`), usually with far more digits than are needed to
tell it from its neighbours.  `Decimal.shortest` cuts the exact decimal after
1, 2, … 17 digits and asks of the two decimals around the cut whether rounding
takes them back to the double; the first that it does take back is the answer,
the nearer one if both are.  Where no cut reads back the exact decimal itself is
short, and it is the answer.  So the answer always reads back, by construction.
-/
import Scorecard.Number.Binary64

namespace Scorecard

/-- The number `coefficient * 10 ^ exponent`. -/
structure Decimal where
  coefficient : Nat
  exponent : Int

namespace Decimal

open scoped Power

/-! ### Digits -/

/-- The digits of a whole number, the first one first; zero has one digit. -/
def digitsOf (n : Nat) : List Char :=
  Nat.toDigits 10 n

/-- How many decimal digits a whole number has. -/
def lengthOf (n : Nat) : Nat :=
  (digitsOf n).length

/-- The value of a digit character between `0` and `9`. -/
def digitValue (c : Char) : Nat :=
  c.toNat - '0'.toNat

/-- The whole number that a run of digits spells. -/
def ofDigits (digits : List Char) : Nat :=
  digits.foldl (fun value c => value * 10 + digitValue c) 0

/-- The most digits of an integer that is turned into text, or out of text into an
integer. -/
@[irreducible]
def digitLimit : Nat := 4300

/-- The integer has no more digits than that. -/
def isShort (n : Int) : Bool :=
  n.natAbs < 10 ^ digitLimit

/-! ### Between decimals and doubles -/

/-- The exact decimal of `mantissa * 2 ^ exponent`: a half is five tenths. -/
def exact (mantissa : Nat) (exponent : Int) : Decimal :=
  if 0 ≤ exponent then ⟨mantissa * 2 ^ exponent.toNat, 0⟩
  else ⟨mantissa * 5 ^ (-exponent).toNat, exponent⟩

/-- The mantissa and exponent of the double nearest to a decimal other than zero. -/
def round (d : Decimal) : Nat × Int :=
  if 0 ≤ d.exponent then Binary64.roundRatio (d.coefficient * 10 ^ d.exponent.toNat) 1
  else Binary64.roundRatio d.coefficient (10 ^ (-d.exponent).toNat)

/-- Beyond this power of ten every decimal rounds to an infinity. -/
def hugeExponent : Int := 400

/-- Below this power of ten every decimal rounds to zero. -/
def tinyExponent : Int := -400

/-- The double nearest to `± d`.  The two bounds keep a written exponent of any
size from becoming a power of ten of that size. -/
def toFloat (negative : Bool) (d : Decimal) : Float :=
  let leading := (lengthOf d.coefficient : Int) + d.exponent
  if d.coefficient = 0 ∨ leading < tinyExponent then
    Binary64.encode (.finite negative 0 Binary64.leastExponent)
  else if hugeExponent < leading then
    Binary64.encode (.infinite negative)
  else if 0 ≤ d.exponent then
    Binary64.nearest negative (d.coefficient * 10 ^ d.exponent.toNat) 1
  else
    Binary64.nearest negative d.coefficient (10 ^ (-d.exponent).toNat)

/-! ### The fewest digits -/

/-- The most digits that a double can need. -/
def mostDigits : Nat := 17

/-- The decimal with `count` digits that stands for `d` among the two around it, if
rounding takes one of them back to the double with these parts.  The nearer is
tried first, and the even one of two equally near.  Above a run of nines stands a
power of ten, which has one digit. -/
def cut? (d : Decimal) (count : Nat) (mantissa : Nat) (exponent : Int) : Option Decimal :=
  let dropped := lengthOf d.coefficient - count
  let unit := 10 ^ dropped
  let lower := d.coefficient / unit
  let rest := d.coefficient % unit
  let place := d.exponent + dropped
  let readsBack := fun c : Decimal => c.round == (mantissa, exponent)
  let below : Decimal := ⟨lower, place⟩
  let above : Decimal := if lower + 1 = 10 ^ count then ⟨1, place + count⟩ else ⟨lower + 1, place⟩
  let upperFirst := decide (unit < 2 * rest ∨ (unit = 2 * rest ∧ lower % 2 = 1))
  if upperFirst then [above, below].find? readsBack else [below, above].find? readsBack

/-- The fewest digits that read back as `mantissa * 2 ^ exponent`, for a mantissa
other than zero. -/
def shortest (mantissa : Nat) (exponent : Int) : Decimal :=
  let d := exact mantissa exponent
  let counts := (List.range (min (lengthOf d.coefficient) (mostDigits + 1))).drop 1
  (counts.findSome? fun count => d.cut? count mantissa exponent).getD d

/-- The nearest decimal of at most `count` digits, a tie going to the even digit. -/
def significant (count : Nat) (mantissa : Nat) (exponent : Int) : Decimal :=
  let d := exact mantissa exponent
  let dropped := lengthOf d.coefficient - count
  let unit := 10 ^ dropped
  let lower := d.coefficient / unit
  let rest := d.coefficient % unit
  let up := decide (unit < 2 * rest ∨ (unit = 2 * rest ∧ lower % 2 = 1))
  ⟨if up then lower + 1 else lower, d.exponent + dropped⟩

/-- The same number without trailing zeros in the coefficient; `fuel` bounds how
many are dropped. -/
def dropZeros : (fuel : Nat) → Decimal → Decimal
  | 0, d => d
  | fuel + 1, d =>
    if d.coefficient ≠ 0 ∧ d.coefficient % 10 = 0 then
      dropZeros fuel ⟨d.coefficient / 10, d.exponent + 1⟩
    else d

end Decimal

end Scorecard
