/-
How a text has to be written.

A text is written plainly if it would be read back as that text, else in single
quotes, and in double quotes where only escapes will do: for characters beyond
printable ASCII, and for blanks next to line breaks.
-/
import Scorecard.Yaml.Cursor
import Scorecard.Yaml.Meaning

namespace Scorecard.Yaml

/-- The ways to write a text on one line or several. -/
inductive Style where
  | plain
  | single
  | double
deriving DecidableEq

/-! ### Signs that would be misread -/

/-- The characters that plain text cannot start with. -/
def isLeadingSign (c : Char) : Bool :=
  "#,[]\x7b\x7d&*!|>'\"%@`".toList.contains c

/-- A sign at the start of a text would be read as an indicator. -/
def startsWithIndicator : List Char → Bool
  | [] => false
  | c :: rest =>
    isLeadingSign c || ((c == '-' || c == '?' || c == ':') && gapAhead rest)

/-- A colon with a gap behind it, or a number sign with a gap before it, would be read
as an indicator.  `afterGap` says whether the first character has a gap before it. -/
def holdsIndicator : (afterGap : Bool) → List Char → Bool
  | _, [] => false
  | afterGap, c :: rest =>
    (c == ':' && gapAhead rest) || (c == '#' && afterGap) || holdsIndicator (isGap c) rest

/-- The text would be read as the mark of a document. -/
def startsWithMark (text : List Char) : Bool :=
  text.take 3 == "---".toList || text.take 3 == "...".toList

/-! ### Characters and gaps -/

/-- The characters that need no escape. -/
def needsNoEscape (c : Char) : Bool :=
  c == '\n' || (' ' ≤ c && c ≤ '~')

/-- One of two characters stands next to another somewhere. -/
def holdsPair (first second : Char) : List Char → Bool
  | a :: b :: rest => (a == first && b == second) || holdsPair first second (b :: rest)
  | _ => false

/-- The text starts or ends with a gap. -/
def hasLooseEnds (text : List Char) : Bool :=
  text.head?.any isGap || text.getLast?.any isGap

/-- The text takes up more than one line.  A carriage return is always escaped and
ends none. -/
def hasLines (text : List Char) : Bool :=
  text.any fun c => isBreak c && c != '\r'

/-- Only double quotes keep the text. -/
def needsDoubleQuotes (text : List Char) : Bool :=
  !text.all needsNoEscape || holdsPair '\n' ' ' text || holdsPair ' ' '\n' text

/-- The text can stand without quotes, as far as its characters go. -/
def canBePlain (text : List Char) : Bool :=
  text.all needsNoEscape && !text.contains '\n' && !hasLooseEnds text &&
    !startsWithMark text && !startsWithIndicator text && !holdsIndicator false text.tail

/-- The style of a text. -/
def Style.of (text : List Char) : Style :=
  if canBePlain text && (Meaning.of text matches .text) then .plain
  else if needsDoubleQuotes text then .double
  else .single

end Scorecard.Yaml
