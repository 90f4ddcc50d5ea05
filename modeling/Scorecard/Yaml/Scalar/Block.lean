/-
Text as a block of lines.

A block is literal, where every line break counts, or folded, where a line break
between two lines of plain text reads as a blank.  Its lines are indented further than
what they belong to: as far as its head says, or as far as its first line.  The head
says besides what becomes of the line breaks at the end: one is kept unless it says to
strip all or to keep all.
-/
import Scorecard.Fault
import Scorecard.Yaml.Cursor

namespace Scorecard.Yaml

/-- What becomes of the line breaks at the end of a block. -/
inductive Chomping where
  | clip
  | strip
  | keep
deriving DecidableEq

/-- What a block's head says. -/
structure BlockHead where
  folded : Bool
  chomping : Chomping := .clip
  /-- How much further the lines are indented than what the block belongs to. -/
  increment : Option Nat := none

namespace BlockHead

/-- Take note of an indicator; an indentation must not be zero. -/
def chomping? : Option Char → Option Chomping
  | some '+' => some .keep
  | some '-' => some .strip
  | _ => none

/-- The digit ahead. -/
def increment? : Option Char → Option Nat
  | some c => if '0' ≤ c ∧ c ≤ '9' then some (c.toNat - '0'.toNat) else none
  | none => none

/-- The indicators of a head, in either order, and the place behind them. -/
def indicators (head : BlockHead) (c : Cursor) : BlockHead × Cursor :=
  match chomping? c.head? with
  | some chomping =>
    match increment? c.next.head? with
    | some n => ({ head with chomping, increment := some n }, c.skip 2)
    | none => ({ head with chomping }, c.next)
  | none =>
    match increment? c.head? with
    | some n =>
      match chomping? c.next.head? with
      | some chomping => ({ head with chomping, increment := some n }, c.skip 2)
      | none => ({ head with increment := some n }, c.next)
    | none => (head, c)

/-- The head of a block ahead, and the line after it.  A comment may stand behind the
head. -/
def read (c : Cursor) : Except Fault (BlockHead × Cursor) :=
  let (head, behind) := indicators { folded := c.head? == some '>' } c.next
  let stop := behind.skipBlanks
  let lineEnd := if stop.head? == some '#' then stop.toLineEnd else stop
  if head.increment = some 0 ∨ !(gapAhead behind.rest && behind.head? != some '\t') ∨
      !(lineEnd.atEnd || lineEnd.break?.isSome) then .error .badYaml
  else .ok (head, (lineEnd.break?.map (·.2)).getD lineEnd)

end BlockHead

/-- Behind blanks, but no further than to a column. -/
def toColumn (column : Nat) (c : Cursor) : Cursor :=
  c.skip (min (c.rest.takeWhile (· == ' ')).length (column - c.column))

/-- The empty lines ahead of a block with a known indentation, and the first column
of its next line.  At most `fuel` lines are looked at. -/
def blockBreaks (indent : Nat) : (fuel : Nat) → Cursor → List Char × Cursor
  | 0, c => ([], c)
  | fuel + 1, c =>
    match (toColumn indent c).break? with
    | none => ([], toColumn indent c)
    | some (x, behind) =>
      let (more, stop) := blockBreaks indent fuel behind
      (x :: more, stop)

/-- The empty lines ahead of a block, the furthest column that blanks reach in them
and in the line after, and the place behind those.  At most `fuel` lines are looked
at. -/
def blockStart : (fuel : Nat) → (furthest : Nat) → Cursor → List Char × Nat × Cursor
  | 0, furthest, c => ([], furthest, c)
  | fuel + 1, furthest, c =>
    let reached := if c.head? == some ' ' then max furthest c.skipBlanks.column else furthest
    match c.skipBlanks.break? with
    | none => ([], reached, c.skipBlanks)
    | some (x, behind) =>
      let (more, deepest, stop) := blockStart fuel reached behind
      (x :: more, deepest, stop)

/-- The lines of a block: their text up to the last line break, the last line break,
the empty lines behind it, and the place after those. -/
structure BlockBody where
  text : List Char
  lastBreak : List Char
  trailing : List Char
  behind : Cursor

/-- A line of a block starts here. -/
def atBlockLine (indent : Nat) (c : Cursor) : Bool :=
  c.column == indent && !c.atEnd

/-- A line that starts with a gap is not folded. -/
def startsText (c : Cursor) : Bool :=
  !(c.head? == some ' ' || c.head? == some '\t')

/-- The lines of a block from here on, behind the empty lines given.  At most `fuel`
lines are read. -/
def blockLines (folded : Bool) (indent : Nat) : (fuel : Nat) → List Char → Cursor → BlockBody
  | 0, breaks, c => ⟨[], [], breaks, c⟩
  | fuel + 1, breaks, c =>
    if atBlockLine indent c then
      let line := c.rest.takeWhile (!isBreak ·)
      let (lastBreak, start) :=
        match c.toLineEnd.break? with
        | some (x, behind) => ([x], behind)
        | none => ([], c.toLineEnd)
      let (trailing, next) := blockBreaks indent (start.rest.length + 1) start
      if atBlockLine indent next then
        let joint :=
          if folded && lastBreak == ['\n'] && startsText c && startsText next then
            (if trailing.isEmpty then [' '] else [])
          else lastBreak
        let more := blockLines folded indent fuel trailing next
        { more with text := breaks ++ line ++ joint ++ more.text }
      else ⟨breaks ++ line, lastBreak, trailing, next⟩
    else ⟨[], [], breaks, c⟩

/-- The block ahead, which belongs to something at an indentation, and the place
behind it. -/
def blockText (indent : Int) (c : Cursor) : Except Fault (List Char × Cursor) := do
  let (head, start) ← BlockHead.read c
  let least := (indent + 1).toNat.max 1
  let fuel := start.rest.length + 1
  let (breaks, column, first) :=
    match head.increment with
    | some n =>
      let (breaks, first) := blockBreaks (least + n - 1) fuel start
      (breaks, least + n - 1, first)
    | none =>
      let (breaks, deepest, first) := blockStart fuel 0 start
      (breaks, max least deepest, first)
  let body := blockLines head.folded column fuel breaks first
  let ending :=
    match head.chomping with
    | .clip => body.lastBreak
    | .strip => []
    | .keep => body.lastBreak ++ body.trailing
  .ok (body.text ++ ending, body.behind)

end Scorecard.Yaml
