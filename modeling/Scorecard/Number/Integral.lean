/-
Rounding a double to a whole number.

Each function works on the exact value: the mantissa is cut at the binary point,
and what was cut off decides.  A double without places after the point is its own
answer, and an answer of zero is positive zero, whatever the sign was.
-/
import Scorecard.Number.Binary64

namespace Scorecard.Binary64

open scoped Power

/-- The double of a whole magnitude below `2 ^ 53`, with a sign unless it is zero. -/
def ofMagnitude (negative : Bool) (magnitude : Nat) : Float :=
  nearest (negative && magnitude != 0) magnitude 1

/-- Round the magnitude of a finite double by `choose`, which sees the sign, the
whole part, what was cut off and the unit it is measured in. -/
def roundWith (choose : Bool → Nat → Nat → Nat → Nat) (x : Float) : Float :=
  match decode x with
  | .finite negative mantissa exponent =>
    if 0 ≤ exponent then x
    else
      let unit := 2 ^ (-exponent).toNat
      ofMagnitude negative (choose negative (mantissa / unit) (mantissa % unit) unit)
  | _ => x

/-- The greatest whole number that is not above. -/
def floor : Float → Float :=
  roundWith fun negative whole rest _ => if negative && rest != 0 then whole + 1 else whole

/-- The least whole number that is not below. -/
def ceil : Float → Float :=
  roundWith fun negative whole rest _ => if !negative && rest != 0 then whole + 1 else whole

/-- The nearest whole number, a half going away from zero. -/
def roundHalfAway : Float → Float :=
  roundWith fun _ whole rest unit => if unit ≤ 2 * rest then whole + 1 else whole

end Scorecard.Binary64
