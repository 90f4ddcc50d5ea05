/-
A place in a text where layout matters.

In YAML it counts in which line and column something stands, so a place knows them
besides what lies ahead.  A line ends at a line feed, a carriage return, both, a next
line, or a line or paragraph separator.  All but the last two read as a line feed;
those read as themselves.
-/

namespace Scorecard.Yaml

/-! ### Characters -/

/-- The characters that end a line. -/
def isBreak (c : Char) : Bool :=
  c == '\n' || c == '\r' || c == '\u0085' || c == '\u2028' || c == '\u2029'

/-- The characters that separate words. -/
def isGap (c : Char) : Bool :=
  c == ' ' || c == '\t' || isBreak c

/-- Nothing lies ahead, or something that separates words. -/
def gapAhead : List Char → Bool
  | [] => true
  | c :: _ => isGap c

/-- The characters that may stand in a document. -/
def isAllowed (c : Char) : Bool :=
  c == '\t' || c == '\n' || c == '\r' || (' ' ≤ c && c ≤ '~') || c == '\u0085' ||
    ('\u00A0' ≤ c && c != '\uFFFE' && c != '\uFFFF')

/-! ### Places -/

/-- A place in a text: what lies ahead, and where it is, all counted from zero. -/
structure Cursor where
  rest : List Char
  index : Nat := 0
  line : Nat := 0
  column : Nat := 0

namespace Cursor

/-- One character further.  A byte order mark takes up no column, and of a carriage
return and its line feed it is the line feed that ends the line. -/
def next (c : Cursor) : Cursor :=
  match c.rest with
  | [] => c
  | x :: rest =>
    if isBreak x && !(x == '\r' && rest.head? == some '\n') then ⟨rest, c.index + 1, c.line + 1, 0⟩
    else ⟨rest, c.index + 1, c.line, if x == '\uFEFF' then c.column else c.column + 1⟩

/-- Some characters further. -/
def skip : Nat → Cursor → Cursor
  | 0, c => c
  | n + 1, c => skip n c.next

/-- Behind the characters ahead that a test holds of. -/
def skipWhile (p : Char → Bool) (c : Cursor) : Cursor :=
  c.skip (c.rest.takeWhile p).length

/-- Behind the blanks ahead. -/
def skipBlanks (c : Cursor) : Cursor :=
  c.skipWhile (· == ' ')

/-- At the end of the line. -/
def toLineEnd (c : Cursor) : Cursor :=
  c.skipWhile (!isBreak ·)

/-- Nothing lies ahead. -/
def atEnd (c : Cursor) : Bool :=
  c.rest.isEmpty

/-- The character ahead. -/
def head? (c : Cursor) : Option Char :=
  c.rest.head?

/-- What a line break ahead reads as, and the place behind it. -/
def break? (c : Cursor) : Option (Char × Cursor) :=
  match c.rest with
  | '\r' :: '\n' :: _ => some ('\n', c.skip 2)
  | x :: _ =>
    if isBreak x then some (if x == '\u2028' || x == '\u2029' then x else '\n', c.next) else none
  | [] => none

/-- These three characters lie ahead, and a gap behind them. -/
def atMark (mark : String) (c : Cursor) : Bool :=
  c.rest.take mark.length == mark.toList && gapAhead (c.rest.drop mark.length)

/-- The mark that starts or ends a document lies ahead. -/
def atDocumentMark (c : Cursor) : Bool :=
  c.atMark "---" || c.atMark "..."

end Cursor

/-- How a line break and the empty lines after it read within running text: a single
line feed becomes a blank, and else the first line feed disappears. -/
def fold (first : Char) (more : List Char) : List Char :=
  if first != '\n' then first :: more
  else if more.isEmpty then [' ']
  else more

end Scorecard.Yaml
