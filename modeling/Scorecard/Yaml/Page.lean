/-
A page being written.

Lines are kept short by breaking them at blanks once they reach past a width.  What is
written next depends on what stands on the line so far: nothing but indentation and
indicators, or something that needs a blank behind it.
-/
import Scorecard.Yaml.Style

namespace Scorecard.Yaml

/-- What has been written, and how the last line stands. -/
structure Page where
  /-- The characters so far, the last one first. -/
  written : List Char := []
  column : Nat := 0
  /-- No blank is needed in front of what comes next. -/
  spaced : Bool := true
  /-- The line holds nothing but indentation and indicators. -/
  fresh : Bool := true

namespace Page

/-- The column that a line should not go beyond. -/
def width : Nat := 80

/-- The text on a page. -/
def text (p : Page) : String :=
  String.ofList p.written.reverse

/-- Put text down as it is. -/
def put (p : Page) (text : List Char) : Page :=
  { p with written := text.reverse ++ p.written, column := p.column + text.length }

/-- End the line. -/
def lineBreak (p : Page) : Page :=
  { written := '\n' :: p.written, column := 0, spaced := true, fresh := true }

/-- Be at a column with nothing but indentation and indicators before it, on a new
line if need be. -/
def lineAt (column : Nat) (p : Page) : Page :=
  let p := if !p.fresh || column < p.column || (p.column == column && !p.spaced) then p.lineBreak else p
  if p.column < column then { p.put (List.replicate (column - p.column) ' ') with spaced := true } else p

/-- Something other than indentation and indicators stands on the line. -/
def inText (p : Page) : Page :=
  { p with spaced := false, fresh := false }

/-- An indicator in front of an entry, set off by a blank if need be. -/
def mark (sign : Char) (p : Page) : Page :=
  { p.put (if p.spaced then [sign] else [' ', sign]) with spaced := false }

/-- What opens a quotation or a pair of brackets, set off by a blank if need be. -/
def opening (text : List Char) (p : Page) : Page :=
  (p.put (if p.spaced then text else ' ' :: text)).inText

/-- What stands close to what is in front of it. -/
def closing (text : List Char) (p : Page) : Page :=
  (p.put text).inText

/-! ### Texts -/

/-- A text in runs of blanks, runs of line breaks, and runs of other characters. -/
def runs (text : List Char) : List (List Char) :=
  text.splitBy fun a b => (a == ' ') == (b == ' ') && (a == '\n') == (b == '\n')

/-- The line goes on too far to be broken no later than here, if it can be broken at
all. -/
def mayBreak (breakable : Bool) (p : Page) : Bool :=
  breakable && width < p.column

/-- The runs of a plain text.  A single blank gives way to a line break. -/
def plainRuns (breakable : Bool) (indent : Nat) : List (List Char) → Page → Page
  | [], p => p
  | run :: rest, p =>
    let next := if run == [' '] && p.mayBreak breakable then (p.lineAt indent).inText else p.put run
    plainRuns breakable indent rest next

/-- A plain text. -/
def plain (breakable : Bool) (indent : Nat) (text : List Char) (p : Page) : Page :=
  plainRuns breakable indent (runs text) (p.put (if p.spaced then [] else [' '])).inText

/-- The runs of a text in single quotes.  A single blank gives way to a line break
unless it is the first or the last run; line breaks are written once more than they
are meant. -/
def singleRuns (breakable : Bool) (indent : Nat) : (first : Bool) → List (List Char) → Page → Page
  | _, [], p => p
  | first, run :: rest, p =>
    let next :=
      if run.head? == some '\n' then (run.foldl (fun p _ => p.lineBreak) p.lineBreak).lineAt indent
      else if run == [' '] && !first && !rest.isEmpty && p.mayBreak breakable then p.lineAt indent
      else p.put (run.flatMap fun c => if c == '\'' then ['\'', '\''] else [c])
    singleRuns breakable indent false rest next

/-- A text in single quotes. -/
def single (breakable : Bool) (indent : Nat) (text : List Char) (p : Page) : Page :=
  (singleRuns breakable indent true (runs text) (p.opening ['\''])).closing ['\'']

/-- The digits of a number to a base of sixteen, in capitals, with zeros in front up
to a width. -/
def hexDigits (width n : Nat) : List Char :=
  let digits := (Nat.toDigits 16 n).map Char.toUpper
  List.replicate (width - digits.length) '0' ++ digits

/-- How a character is written in double quotes if not as itself. -/
def escapeOf? (c : Char) : Option (List Char) :=
  match c with
  | '\x00' => some "\\0".toList
  | '\x07' => some "\\a".toList
  | '\x08' => some "\\b".toList
  | '\t' => some "\\t".toList
  | '\n' => some "\\n".toList
  | '\x0b' => some "\\v".toList
  | '\x0c' => some "\\f".toList
  | '\r' => some "\\r".toList
  | '\x1b' => some "\\e".toList
  | '"' => some ['\\', '"']
  | '\\' => some ['\\', '\\']
  | '\u0085' => some "\\N".toList
  | '\u00A0' => some "\\_".toList
  | '\u2028' => some "\\L".toList
  | '\u2029' => some "\\P".toList
  | _ =>
    if ' ' ≤ c ∧ c ≤ '~' then none
    else if c.toNat ≤ 0xFF then some ('\\' :: 'x' :: hexDigits 2 c.toNat)
    else if c.toNat ≤ 0xFFFF then some ('\\' :: 'u' :: hexDigits 4 c.toNat)
    else some ('\\' :: 'U' :: hexDigits 8 c.toNat)

/-- Break a line within double quotes: a backslash ends it, and another one keeps a
blank at the start of the next. -/
def breakQuoted (indent : Nat) (nextIsBlank : Bool) (p : Page) : Page :=
  let next := ((p.put ['\\']).lineAt indent).inText
  if nextIsBlank then next.put ['\\'] else next

/-- The characters of a text in double quotes, behind those that are not put down
yet.  A line is broken behind an escape and in front of a blank, and at the start of
what is not put down, but neither before the second character nor behind the last but
one. -/
def doubleChars (breakable : Bool) (indent : Nat) :
    (first : Bool) → (waiting : List Char) → List Char → Page → Page
  | _, waiting, [], p => p.put waiting
  | first, waiting, c :: rest, p =>
    let inside := breakable && !first && !rest.isEmpty
    match escapeOf? c with
    | some escape =>
      let next := (p.put waiting).put escape
      let next :=
        if inside && width + 1 < next.column then breakQuoted indent (rest.head? == some ' ') next else next
      doubleChars breakable indent false [] rest next
    | none =>
      if inside && (c == ' ' || waiting.isEmpty) && width < p.column + waiting.length then
        doubleChars breakable indent false [c] rest (breakQuoted indent (c == ' ') (p.put waiting))
      else doubleChars breakable indent false (waiting ++ [c]) rest p

/-- A text in double quotes. -/
def double (breakable : Bool) (indent : Nat) (text : List Char) (p : Page) : Page :=
  (doubleChars breakable indent true [] text (p.opening ['"'])).closing ['"']

/-- A text in a style. -/
def styled (style : Style) (breakable : Bool) (indent : Nat) (text : List Char) (p : Page) : Page :=
  match style with
  | .plain => p.plain breakable indent text
  | .single => p.single breakable indent text
  | .double => p.double breakable indent text

end Page

end Scorecard.Yaml
