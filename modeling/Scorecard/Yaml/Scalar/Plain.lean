/-
Text without quotes.

Plain text runs up to a colon with a gap behind it, to a number sign with a gap before
it, or, between brackets, to a character that has a meaning there.  It may go on over
lines as long as they are indented, and its gaps are folded.
-/
import Scorecard.Yaml.Cursor

namespace Scorecard.Yaml

/-- The characters that end plain text between brackets. -/
def endsBetweenBrackets (c : Char) : Bool :=
  c == ',' || c == '?' || c == '[' || c == ']' || c == '{' || c == '}'

/-- The characters that a colon between brackets may stand in front of, and still
end plain text. -/
def closesColon (c : Char) : Bool :=
  c == ',' || c == '[' || c == ']' || c == '{' || c == '}'

/-- A colon ends plain text in front of what lies ahead. -/
def colonEnds (bracketed : Bool) (ahead : List Char) : Bool :=
  gapAhead ahead || (bracketed && ahead.head?.any closesColon)

/-- The plain text ahead that holds no gap. -/
def plainRun (bracketed : Bool) : List Char → List Char
  | [] => []
  | c :: rest =>
    if isGap c || (c == ':' && colonEnds bracketed rest) || (bracketed && endsBetweenBrackets c) then []
    else c :: plainRun bracketed rest

/-- A gap in plain text: how it reads, the place behind it, and whether it holds a
line break.  A gap that reads as nothing ends the text. -/
structure PlainGap where
  text : List Char
  behind : Cursor
  hasBreak : Bool

/-- The line breaks ahead, between blanks, and the place behind, or the document mark
at which they stop.  At most `fuel` characters are looked at. -/
def moreBreaks : (fuel : Nat) → Cursor → List Char × Cursor × Bool
  | 0, c => ([], c, false)
  | fuel + 1, c =>
    if c.head? == some ' ' then moreBreaks fuel c.next
    else
      match c.break? with
      | none => ([], c, false)
      | some (x, behind) =>
        if behind.atDocumentMark then ([], behind, true)
        else
          let (more, stop, marked) := moreBreaks fuel behind
          (x :: more, stop, marked)

/-- The gap ahead. -/
def plainGap (c : Cursor) : PlainGap :=
  match c.skipBlanks.break? with
  | none => ⟨c.rest.takeWhile (· == ' '), c.skipBlanks, false⟩
  | some (first, behind) =>
    if behind.atDocumentMark then ⟨[], behind, true⟩
    else
      let (more, stop, marked) := moreBreaks behind.rest.length behind
      ⟨if marked then [] else fold first more, stop, true⟩

/-- The plain text ahead, the place behind it, and whether a line ended on the way
there.  Lines that go on must be indented at least as far as given.  At most `fuel`
runs are taken. -/
def plainText (bracketed : Bool) (indent : Int) : (fuel : Nat) → Cursor → List Char × Cursor × Bool
  | 0, c => ([], c, false)
  | fuel + 1, c =>
    let run := if c.head? == some '#' then [] else plainRun bracketed c.rest
    if run.isEmpty then ([], c, false)
    else
      let gap := plainGap (c.skip run.length)
      if gap.text.isEmpty || gap.behind.head? == some '#' || (!bracketed && gap.behind.column < indent) then
        (run, gap.behind, gap.hasBreak)
      else
        let (more, stop, hasBreak) := plainText bracketed indent fuel gap.behind
        if more.isEmpty then (run, stop, gap.hasBreak) else (run ++ gap.text ++ more, stop, hasBreak)

end Scorecard.Yaml
