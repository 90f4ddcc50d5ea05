/-
From a value to a document.

Records and lists are written as blocks, one entry a line, two columns further in than
what they belong to; only a list that is the value of a key starts in the column of the
key.  Empty ones are written as a pair of brackets.  A key goes in front of its value
on one line if it is short text on a single line, and else behind a question mark.
Octets are lines of letters under a tag.

What stands in several places has an anchor at the first of them, and aliases of it at
the others.  Anchors are numbered in the order in which they are first referred to.
-/
import Scorecard.Yaml.Octets
import Scorecard.Yaml.Outline
import Scorecard.Yaml.Page
import Scorecard.Yaml.Scan

namespace Scorecard

namespace Yaml

/-! ### Anchors -/

/-- The anchor of a place, given the places that have one. -/
def anchorOf? (repeated : List Nat) (place : Nat) : Option (List Char) :=
  (repeated.idxOf? place).map fun i =>
    let digits := Decimal.digitsOf (i + 1)
    "id".toList ++ List.replicate (3 - digits.length) '0' ++ digits

/-- The anchor that something is written under. -/
def anchorUnder? (repeated : List Nat) (place : Option Nat) : Option (List Char) :=
  place.bind (anchorOf? repeated)

/-- The name of an anchor, set off by a blank if need be. -/
def Page.named (sign : Char) (anchor : Option (List Char)) (p : Page) : Page :=
  match anchor with
  | some name => p.opening (sign :: name)
  | none => p

/-! ### Layout -/

/-- The length of the name of text. -/
def textKindLength : Nat := 5

/-- What a key takes up on its line, with the name of its kind; nothing if it does not
fit into one line. -/
def Scalar.keyLength? : Scalar → Option Nat
  | .text cs => if cs.isEmpty || hasLines cs then none else some (textKindLength + cs.length)
  | .plain cs kindLength => some (kindLength + cs.length)
  | .octets _ => none

/-- How long a key, its anchor and the name of its kind may be together, to stand in
front of its value. -/
def shortKey : Nat := 128

/-- The key can stand in front of its value. -/
def isShortKey (repeated : List Nat) (key : Outline) : Bool :=
  let anchorLength (place : Option Nat) : Nat := ((anchorUnder? repeated place).map (·.length)).getD 0
  match key with
  | .scalar place s => s.keyLength?.any fun length => anchorLength place + length < shortKey
  | .list _ items => items.isEmpty
  | .record _ entries => entries.isEmpty
  | .again _ => true

/-- Two columns further in than what a block belongs to, if it belongs to anything. -/
def further : (indent : Option Nat) → Nat
  | none => 0
  | some n => n + 2

/-- A list of no items, or a record of no entries. -/
def brackets (text : String) (p : Page) : Page :=
  (p.opening (text.toList.take 1)).closing (text.toList.drop 1)

/-- Where the items of a list are written: in the column of a key on whose line they
would else start, and further in elsewhere. -/
def itemColumn (indent : Option Nat) (inRecord : Bool) (p : Page) : Nat :=
  match indent with
  | some n => if inRecord && !p.fresh then n else n + 2
  | none => 0

/-- A block of lines in a column. -/
def Page.block (column : Nat) (lines : List (List Char)) (p : Page) : Page :=
  lines.foldl (fun p line => ((p.lineAt column).put line).lineBreak) (p.opening ['|']).lineBreak

/-- A scalar on a page. -/
def Page.scalar (breakable : Bool) (indent : Nat) (s : Scalar) (p : Page) : Page :=
  match s with
  | .text text => p.styled (.of text) breakable indent text
  | .plain text _ => p.styled .plain breakable indent text
  | .octets [] => (p.opening Scan.octetsTag).styled .double breakable indent []
  | .octets octets => (p.opening Scan.octetsTag).block indent (octetsLines octets)

/-! ### Outlines -/

mutual

/-- An outline, in a record or not, that belongs to something at an indentation.  Text in
front of a colon is not broken into lines. -/
def write (repeated : List Nat) (indent : Option Nat) (inRecord breakable : Bool) (o : Outline)
    (p : Page) : Page :=
  match o with
  | .again place => p.named '*' (anchorOf? repeated place)
  | .scalar place s =>
    (p.named '&' (anchorUnder? repeated place)).scalar breakable ((indent.map (· + 2)).getD 2) s
  | .list place [] => brackets "[]" (p.named '&' (anchorUnder? repeated place))
  | .record place [] => brackets "\x7b\x7d" (p.named '&' (anchorUnder? repeated place))
  | .list place items =>
    let p := p.named '&' (anchorUnder? repeated place)
    writeItems repeated (itemColumn indent inRecord p) items p
  | .record place entries =>
    writeEntries repeated (further indent) entries (p.named '&' (anchorUnder? repeated place))

/-- The items of a list, each behind a hyphen in a column. -/
def writeItems (repeated : List Nat) (column : Nat) (items : List Outline) (p : Page) : Page :=
  match items with
  | [] => p
  | item :: rest =>
    writeItems repeated column rest
      (write repeated (some column) false true item ((p.lineAt column).mark '-'))

/-- The entries of a record, each in a line that starts in a column. -/
def writeEntries (repeated : List Nat) (column : Nat) (entries : List (Outline × Outline)) (p : Page) :
    Page :=
  match entries with
  | [] => p
  | (key, value) :: rest =>
    let start := p.lineAt column
    let keyed :=
      if isShortKey repeated key then (write repeated (some column) true false key start).closing [':']
      else
        ((write repeated (some column) true true key (start.mark '?')).lineAt column).mark ':'
    writeEntries repeated column rest (write repeated (some column) true true value keyed)

end

/-- The document is nothing but plain text. -/
def Outline.isBare : Outline → Bool
  | .scalar _ (.plain _ _) => true
  | .scalar _ (.text text) => Style.of text == .plain
  | _ => false

end Yaml

/-- A value as a document.  A document that is nothing but plain text ends with a mark. -/
def Value.yaml (v : Value) : Except Fault String := do
  let (outline, survey) ← (Yaml.Outline.ofValue v).run {}
  let ended := (Yaml.write survey.repeated none false true outline {}).lineAt 0
  .ok (if outline.isBare then (ended.put "...".toList).lineBreak.text else ended.text)

end Scorecard
