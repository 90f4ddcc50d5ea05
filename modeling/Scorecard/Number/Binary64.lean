/-
Doubles as exact numbers.

A double is a sign, a whole mantissa and a power of two, or an infinity, or no
number at all.  `Binary64.decode` reads those parts off the 64 bits and
`Binary64.encode` writes them back, so every question about a double's value
(its floor, its digits, its nearest neighbour) is answered in `Nat` and `Int`.

`Binary64.nearest` is the one place where a rational number is rounded to a
double: to the nearest, a tie to the even mantissa, and to infinity beyond the
largest.  Numbers read from text and large integers go through it.
-/
import Scorecard.Number.Power

namespace Scorecard

/-- What the bits of a double say; a finite one is `± mantissa * 2 ^ exponent`. -/
inductive Binary64 where
  | nan
  | infinite (negative : Bool)
  | finite (negative : Bool) (mantissa : Nat) (exponent : Int)

namespace Binary64

open scoped Power

/-- The exponent of the doubles nearest to zero. -/
def leastExponent : Int := -1074

/-- The exponent of the doubles farthest from zero. -/
def greatestExponent : Int := 971

/-! ### Bits -/

/-- The parts that 64 bits stand for. -/
def ofBits (word : UInt64) : Binary64 :=
  let bits := word.toNat
  let negative := decide (2 ^ (63 : Nat) ≤ bits)
  let biased : Nat := bits / 2 ^ (52 : Nat) % 2 ^ (11 : Nat)
  let fraction : Nat := bits % 2 ^ (52 : Nat)
  if biased = 2047 then
    if fraction = 0 then .infinite negative else .nan
  else if biased = 0 then
    .finite negative fraction leastExponent
  else
    .finite negative (2 ^ (52 : Nat) + fraction) ((biased : Int) - 1075)

/-- The bits of a double without its sign, from a mantissa below `2 ^ 53` that is
only below `2 ^ 52` at the least exponent. -/
def magnitudeBits (mantissa : Nat) (exponent : Int) : Nat :=
  if mantissa < 2 ^ (52 : Nat) then mantissa
  else (exponent + 1075).toNat * 2 ^ (52 : Nat) + (mantissa - 2 ^ (52 : Nat))

/-- The bits of an infinity without its sign. -/
def infinityBits : Nat := 2047 * 2 ^ (52 : Nat)

/-- Put the sign in front of the other 63 bits. -/
def withSign (negative : Bool) (bits : Nat) : Float :=
  Float.ofBits (UInt64.ofNat (if negative then 2 ^ (63 : Nat) + bits else bits))

/-- The parts of a double. -/
def decode (x : Float) : Binary64 :=
  ofBits x.toBits

/-- The double with these parts. -/
def encode : Binary64 → Float
  | .nan => Float.ofBits (UInt64.ofNat (infinityBits + 2 ^ (51 : Nat)))
  | .infinite negative => withSign negative infinityBits
  | .finite negative mantissa exponent => withSign negative (magnitudeBits mantissa exponent)

/-! ### Rounding a ratio -/

/-- The exponent at which `num / den` has a mantissa of 53 bits, or the least one.
The two logarithms leave one binary place open, which the comparison settles. -/
def exponentOf (num den : Nat) : Int :=
  let guess : Int := (num.log2 : Int) - den.log2 - 52
  let scaled := guess + 52
  let below := if 0 ≤ scaled then num < den * 2 ^ scaled.toNat else num * 2 ^ (-scaled).toNat < den
  max leastExponent (if below then guess - 1 else guess)

/-- `num / (den * 2 ^ exponent)` rounded to a whole number, a tie to the even one. -/
def roundAt (num den : Nat) (exponent : Int) : Nat :=
  let top := if 0 ≤ exponent then num else num * 2 ^ (-exponent).toNat
  let bottom := if 0 ≤ exponent then den * 2 ^ exponent.toNat else den
  let whole := top / bottom
  let rest := top % bottom
  if bottom < 2 * rest ∨ (bottom = 2 * rest ∧ whole % 2 = 1) then whole + 1 else whole

/-- The mantissa and exponent of the double nearest to `num / den`, before the
check that the exponent is not too large.  A mantissa rounded up to `2 ^ 53` moves
to the next exponent. -/
def roundRatio (num den : Nat) : Nat × Int :=
  let exponent := exponentOf num den
  let mantissa := roundAt num den exponent
  if mantissa = 2 ^ (53 : Nat) then (2 ^ (52 : Nat), exponent + 1) else (mantissa, exponent)

/-- The double nearest to `± num / den`. -/
def nearest (negative : Bool) (num den : Nat) : Float :=
  if num = 0 then encode (.finite negative 0 leastExponent)
  else
    match roundRatio num den with
    | (mantissa, exponent) =>
      if greatestExponent < exponent then encode (.infinite negative)
      else encode (.finite negative mantissa exponent)

/-- The double nearest to an integer, or nothing when it lies beyond all doubles. -/
def ofInt? (n : Int) : Option Float :=
  let x := nearest (decide (n < 0)) n.natAbs 1
  if x.isInf then none else some x

/-! ### Exact value -/

/-- Neither an infinity nor no number. -/
def isFinite (x : Float) : Bool :=
  match decode x with
  | .finite .. => true
  | _ => false

/-- The integer that a double equals, if it equals one. -/
def toInt? (x : Float) : Option Int :=
  match decode x with
  | .finite negative mantissa exponent =>
    let magnitude? :=
      if 0 ≤ exponent then some (mantissa * 2 ^ exponent.toNat)
      else if mantissa % 2 ^ (-exponent).toNat = 0 then some (mantissa / 2 ^ (-exponent).toNat)
      else none
    magnitude?.map fun magnitude => if negative then -(magnitude : Int) else magnitude
  | _ => none

/-- How a double compares with an integer; nothing for what is no number. -/
def compareInt? (x : Float) (n : Int) : Option Ordering :=
  match decode x with
  | .nan => none
  | .infinite negative => some (if negative then .lt else .gt)
  | .finite negative mantissa exponent =>
    let signed : Int := if negative then -(mantissa : Int) else mantissa
    if 0 ≤ exponent then some (compare (signed * 2 ^ exponent.toNat) n)
    else some (compare signed (n * 2 ^ (-exponent).toNat))

end Binary64

end Scorecard
