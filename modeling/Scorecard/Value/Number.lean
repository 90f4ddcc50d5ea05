/-
Numbers out of values.

Any number gives its nearest double, and so does text that spells one: white space
around it is skipped, the digits may be of any script, single underscores may stand
between two digits, and infinity and no number have names.
-/
import Scorecard.Fault
import Scorecard.Number.Integral
import Scorecard.Text.Blank
import Scorecard.Text.Digit

namespace Scorecard

/-! ### Text that spells a number -/

/-- Text with the digits of every script written in ASCII, or nothing if another
character from beyond ASCII stands in it.  White space from beyond ASCII becomes a
space. -/
def toAscii? (text : List Char) : Option (List Char) :=
  text.mapM fun c =>
    if c.toNat < 0x80 then some c
    else if isBlank c then some ' '
    else asciiDigit? c

/-- Text without its underscores, each of which must stand between two digits. -/
def dropUnderscores? : (previous : Option Char) → List Char → Option (List Char)
  | _, [] => some []
  | previous, '_' :: c :: rest =>
    if previous.any isDigit && isDigit c then
      (dropUnderscores? (some c) rest).map (c :: ·)
    else none
  | _, ['_'] => none
  | _, c :: rest => (dropUnderscores? (some c) rest).map (c :: ·)

/-- The double that text without blanks and underscores spells. -/
def readSigned? (text : List Char) : Option Float :=
  let (negative, body) := Numeral.takeSign text
  let word := body.map Char.toLower
  if word = "inf".toList ∨ word = "infinity".toList then
    some (Binary64.encode (.infinite negative))
  else if word = "nan".toList then
    some (Binary64.encode .nan)
  else Numeral.read? negative body

/-- The double that a text spells. -/
def readFloat? (text : List Char) : Option Float := do
  let ascii ← toAscii? text
  let trimmed := ((ascii.dropWhile isAsciiBlank).reverse.dropWhile isAsciiBlank).reverse
  readSigned? (← dropUnderscores? none trimmed)

namespace Value

/-- The double that a value stands for. -/
def toFloat : Value → Except Fault Float
  | .bool b => .ok (if b then 1.0 else 0.0)
  | .int n =>
    match Binary64.ofInt? n with
    | some x => .ok x
    | none => .error .tooLarge
  | .float x => .ok x
  | .nan _ => .ok (Binary64.encode .nan)
  | .str s =>
    match readFloat? s.toList with
    | some x => .ok x
    | none => .error .meaningless
  | .broken _ => .error .meaningless
  | .bytes bs =>
    -- Octets spell a number only in ASCII.
    match (if bs.all (· < 0x80) then readFloat? (bs.map fun b => Char.ofNat b.toNat) else none) with
    | some x => .ok x
    | none => .error .meaningless
  | _ => .error .wrongKind

/-- Entries with each value read as a double. -/
def readNumbers : List (Value × Value) → Except Fault (List (Value × Value))
  | [] => .ok []
  | (name, value) :: rest => do
    let x ← value.toFloat
    .ok ((name, .float x) :: (← readNumbers rest))

/-- The nearest whole number to a number of any kind, a half going away from zero.
Text is not taken for a number here. -/
def roundHalfAway : Value → Except Fault Float
  | .float x =>
    match Binary64.decode x with
    | .nan => .error .meaningless
    | .infinite _ => .error .tooLarge
    | .finite .. => .ok (Binary64.roundHalfAway x)
  | .nan _ => .error .meaningless
  | .bool b => toFloat (.bool b)
  | .int n => toFloat (.int n)
  | _ => .error .wrongKind

@[simp] theorem toFloat_float (x : Float) : toFloat (.float x) = .ok x := rfl

end Value

end Scorecard
