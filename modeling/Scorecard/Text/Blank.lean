/-
Blank characters.

`isBlank` holds of the 25 characters that the Unicode standard calls white space.
They may stand around a stored number.  Formulas are stricter: between tokens only
the six blank characters of the ASCII alphabet may stand.
-/

namespace Scorecard

/-- Space, tab, line feed, vertical tab, form feed and carriage return. -/
def isAsciiBlank (c : Char) : Bool :=
  c == ' ' || ('\t' ≤ c && c ≤ '\r')

/-- The white space characters beyond ASCII, as ranges of code points. -/
def wideBlanks : List (Nat × Nat) :=
  [(0x85, 0x85), (0xA0, 0xA0), (0x1680, 0x1680), (0x2000, 0x200A), (0x2028, 0x2029),
   (0x202F, 0x202F), (0x205F, 0x205F), (0x3000, 0x3000)]

/-- White space. -/
def isBlank (c : Char) : Bool :=
  isAsciiBlank c || wideBlanks.any fun (low, high) => low ≤ c.toNat && c.toNat ≤ high

/-- A text without the white space around it. -/
def trimBlanks (text : List Char) : List Char :=
  ((text.dropWhile isBlank).reverse.dropWhile isBlank).reverse

end Scorecard
