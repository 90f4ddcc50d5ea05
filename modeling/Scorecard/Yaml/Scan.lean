/-
From a text to its tokens.

The scan goes from left to right and keeps track of three things.

* The columns at which blocks of entries are open.  A line that starts further to the
  left closes those it leaves.
* Whether a key may start where no question mark announces it: at the start of a line,
  behind an indicator, and between brackets.
* For each open bracket, where a key may have started.  When its colon comes, the token
  that announces the key, and the start of a block if need be, are put there.  A key
  must end in its own line and within 1024 characters.

Where the text goes wrong the scan ends, and so do the tokens; but if a key may have
started before that, no more can be told of its token than of what went wrong.
-/
import Scorecard.Yaml.Scalar.Block
import Scorecard.Yaml.Scalar.Plain
import Scorecard.Yaml.Scalar.Quoted
import Scorecard.Yaml.Token

namespace Scorecard.Yaml

/-- Where a key may have started. -/
structure PossibleKey where
  /-- How many brackets are open. -/
  depth : Nat
  /-- How many tokens come before it. -/
  place : Nat
  /-- Only a key can stand there. -/
  required : Bool
  start : Cursor

/-- How many characters a key may take. -/
def longestKey : Nat := 1024

/-- What is known in the middle of a scan. -/
structure Scan where
  cursor : Cursor
  tokens : Array Token := #[]
  /-- How many brackets are open. -/
  depth : Nat := 0
  /-- The column of the innermost block; none is open at -1. -/
  indent : Int := -1
  /-- The columns of the blocks around it. -/
  outer : List Int := []
  keyAllowed : Bool := true
  keys : List PossibleKey := []

namespace Scan

/-- Add a token. -/
def push (s : Scan) (t : Token) : Scan :=
  { s with tokens := s.tokens.push t }

/-- Go on from another place. -/
def moveTo (s : Scan) (c : Cursor) : Scan :=
  { s with cursor := c }

/-- Brackets are open, so layout does not matter. -/
def bracketed (s : Scan) : Bool :=
  0 < s.depth

/-! ### Blocks -/

/-- Close the blocks to the right of a column.  At most `fuel` are closed. -/
def closeBlocks (column : Int) : (fuel : Nat) → Scan → Scan
  | 0, s => s
  | fuel + 1, s =>
    if column < s.indent && !s.bracketed then
      match s.outer with
      | [] => s
      | indent :: outer => closeBlocks column fuel ({ s with indent, outer }.push .blockEnd)
    else s

/-- Close the blocks to the right of a column. -/
def unwind (s : Scan) (column : Int) : Scan :=
  closeBlocks column s.outer.length s

/-- Open a block at a column, unless one is open there or further to the right. -/
def openBlock (s : Scan) (column : Nat) (start : Token) (place : Nat) : Scan :=
  if s.indent < column then
    { s with
      indent := column, outer := s.indent :: s.outer
      tokens := s.tokens.insertIdxIfInBounds place start }
  else s

/-! ### Keys -/

/-- Forget the key that may have started between the innermost brackets. -/
def dropKey (s : Scan) : Except Fault Scan :=
  if s.keys.any fun k => k.depth == s.depth && k.required then .error .badYaml
  else .ok { s with keys := s.keys.filter (·.depth != s.depth) }

/-- Forget the keys that did not end in their line or in time. -/
def dropOldKeys (s : Scan) : Except Fault Scan :=
  let isOld (k : PossibleKey) : Bool :=
    k.start.line != s.cursor.line || longestKey < s.cursor.index - k.start.index
  if s.keys.any fun k => isOld k && k.required then .error .badYaml
  else .ok { s with keys := s.keys.filter (!isOld ·) }

/-- Remember that a key may start here. -/
def markKey (s : Scan) : Except Fault Scan :=
  if s.keyAllowed then do
    let s ← s.dropKey
    let key : PossibleKey :=
      { depth := s.depth, place := s.tokens.size, start := s.cursor
        required := !s.bracketed && s.indent == s.cursor.column }
    .ok { s with keys := key :: s.keys }
  else .ok s

/-! ### Gaps -/

/-- Behind blanks, comments and line breaks.  At most `fuel` lines are skipped. -/
def skipGap : (fuel : Nat) → Scan → Scan
  | 0, s => s
  | fuel + 1, s =>
    let start := s.cursor.skipBlanks
    let lineEnd := if start.head? == some '#' then start.toLineEnd else start
    match lineEnd.break? with
    | none => s.moveTo lineEnd
    | some (_, behind) =>
      skipGap fuel { s with cursor := behind, keyAllowed := s.keyAllowed || !s.bracketed }

/-! ### Tokens -/

/-- Add the token of what is read behind the characters of an indicator. -/
def indicator (s : Scan) (t : Token) (width : Nat) : Scan :=
  (s.moveTo (s.cursor.skip width)).push t

/-- A name, of a directive, an anchor or an alias. -/
def isNameChar (c : Char) : Bool :=
  c.isAlphanum || c == '-' || c == '_'

/-- A mark in the first column, which ends whatever is open. -/
def documentMark (s : Scan) (t : Token) : Except Fault Scan := do
  let s ← (s.unwind (-1)).dropKey
  .ok ({ s with keyAllowed := false }.indicator t 3)

/-- The rest of a directive's line may hold a comment and nothing else. -/
def endDirective (c : Cursor) : Except Fault Cursor :=
  let stop := c.skipBlanks
  let lineEnd := if stop.head? == some '#' then stop.toLineEnd else stop
  if lineEnd.atEnd then .ok lineEnd
  else
    match lineEnd.break? with
    | some (_, behind) => .ok behind
    | none => .error .badYaml

/-- A gap other than a tab lies ahead. -/
def wordEnds (c : Cursor) : Bool :=
  gapAhead c.rest && c.head? != some '\t'

/-- The version that a directive gives: its major part, and the place behind. -/
def versionNumber (c : Cursor) : Except Fault (Nat × Cursor) :=
  let start := c.skipBlanks
  let major := start.rest.takeWhile Char.isDigit
  let point := start.skip major.length
  let behind := point.next.skipWhile Char.isDigit
  if major.isEmpty || point.head? != some '.' || behind.index == point.next.index || !wordEnds behind then
    .error .badYaml
  else .ok (major.foldl (fun n c => n * 10 + (c.toNat - '0'.toNat)) 0, behind)

/-- A directive. -/
def directive (s : Scan) : Except Fault Scan := do
  let s ← (s.unwind (-1)).dropKey
  let start := s.cursor.next
  let name := start.rest.takeWhile isNameChar
  let behind := start.skip name.length
  if name.isEmpty || !wordEnds behind || name == "TAG".toList then .error .badYaml
  else if name == "YAML".toList then
    let (major, behind) ← versionNumber behind
    .ok (({ s with keyAllowed := false }.moveTo (← endDirective behind)).push (.version major))
  else .ok (({ s with keyAllowed := false }.moveTo (← endDirective behind.toLineEnd)).push .reserved)

/-- An opening bracket, with which a key may start. -/
def openFlow (s : Scan) (t : Token) : Except Fault Scan := do
  let s ← s.markKey
  .ok ({ s with depth := s.depth + 1, keyAllowed := true }.indicator t 1)

/-- A closing bracket. -/
def closeFlow (s : Scan) (t : Token) : Except Fault Scan := do
  let s ← s.dropKey
  if s.bracketed then .ok ({ s with depth := s.depth - 1, keyAllowed := false }.indicator t 1)
  else .error .badYaml

/-- A comma. -/
def comma (s : Scan) : Except Fault Scan := do
  let s ← s.dropKey
  .ok ({ s with keyAllowed := true }.indicator .comma 1)

/-- Open the block that an indicator here belongs to, where indicators may stand. -/
def enterBlock (s : Scan) (start : Token) : Except Fault Scan :=
  if s.bracketed then .ok s
  else if s.keyAllowed then .ok (s.openBlock s.cursor.column start s.tokens.size)
  else .error .badYaml

/-- The hyphen of an entry. -/
def entry (s : Scan) : Except Fault Scan := do
  let s ← (← s.enterBlock .sequenceStart).dropKey
  .ok ({ s with keyAllowed := true }.indicator .entry 1)

/-- The question mark of a key. -/
def questionMark (s : Scan) : Except Fault Scan := do
  let s ← (← s.enterBlock .mappingStart).dropKey
  .ok ({ s with keyAllowed := !s.bracketed }.indicator .key 1)

/-- The colon of a value, behind a key that may have started unannounced. -/
def colon (s : Scan) : Except Fault Scan :=
  match s.keys.find? (·.depth == s.depth) with
  | some k =>
    let announced :=
      { s with
        tokens := s.tokens.insertIdxIfInBounds k.place .key
        keys := s.keys.filter (·.depth != s.depth), keyAllowed := false }
    let opened := if s.bracketed then announced else announced.openBlock k.start.column .mappingStart k.place
    .ok (opened.indicator .value 1)
  | none => do
    let s ← (← s.enterBlock .mappingStart).dropKey
    .ok ({ s with keyAllowed := !s.bracketed }.indicator .value 1)

/-- The characters, gaps apart, that may follow a name. -/
def followsName (c : Char) : Bool :=
  "?:,]\x7d%@`".toList.contains c

/-- An anchor or an alias. -/
def name (s : Scan) (token : String → Token) : Except Fault Scan := do
  let s ← s.markKey
  let start := s.cursor.next
  let name := start.rest.takeWhile isNameChar
  let behind := start.skip name.length
  if name.isEmpty || !(gapAhead behind.rest || behind.head?.any followsName) then .error .badYaml
  else .ok (({ s with keyAllowed := false }.moveTo behind).push (token (String.ofList name)))

/-- How the tag of octets is written. -/
def octetsTag : List Char := "!!binary".toList

/-- A tag.  No other is known than that of octets. -/
def tag (s : Scan) : Except Fault Scan := do
  let s ← s.markKey
  if s.cursor.rest.take octetsTag.length == octetsTag && wordEnds (s.cursor.skip octetsTag.length) then
    .ok ({ s with keyAllowed := false }.indicator .octetsTag octetsTag.length)
  else .error .badYaml

/-- A block of text. -/
def block (s : Scan) : Except Fault Scan := do
  let s ← { s with keyAllowed := true }.dropKey
  let (text, behind) ← blockText s.indent s.cursor
  .ok ((s.moveTo behind).push (.scalar (String.ofList text) false))

/-- Text in quotes, of at most `fuel` pieces. -/
def quoted (s : Scan) (fuel : Nat) (quote : Char) : Except Fault Scan := do
  let s ← s.markKey
  let (text, behind) ← quotedText quote fuel s.cursor.next
  .ok (({ s with keyAllowed := false }.moveTo behind).push (.scalar (String.ofList text) false))

/-- Plain text, of at most `fuel` runs. -/
def plain (s : Scan) (fuel : Nat) : Except Fault Scan := do
  let s ← s.markKey
  let (text, behind, hasBreak) := plainText s.bracketed (s.indent + 1) fuel s.cursor
  .ok (({ s with keyAllowed := hasBreak }.moveTo behind).push (.scalar (String.ofList text) true))

/-- The characters that plain text does not start with. -/
def isIndicator (c : Char) : Bool :=
  "-?:,[]\x7b\x7d#&*!|>'\"%@`".toList.contains c

/-- Plain text starts here. -/
def startsPlain (s : Scan) (c : Char) (ahead : List Char) : Bool :=
  !(isGap c || isIndicator c) ||
    (!gapAhead ahead && (c == '-' || (!s.bracketed && (c == '?' || c == ':'))))

/-- The next token, which a character starts.  It has at most `fuel` pieces. -/
def token (s : Scan) (fuel : Nat) (c : Char) (ahead : List Char) : Except Fault Scan :=
  if s.cursor.column == 0 && c == '%' then s.directive
  else if s.cursor.column == 0 && s.cursor.atMark "---" then s.documentMark .documentStart
  else if s.cursor.column == 0 && s.cursor.atMark "..." then s.documentMark .documentEnd
  else
    match c with
    | '[' => s.openFlow .openBracket
    | '{' => s.openFlow .openBrace
    | ']' => s.closeFlow .closeBracket
    | '}' => s.closeFlow .closeBrace
    | ',' => s.comma
    | '*' => s.name .alias
    | '&' => s.name .anchor
    | '!' => s.tag
    | '\'' => s.quoted fuel c
    | '"' => s.quoted fuel c
    | _ =>
      if c == '-' && gapAhead ahead then s.entry
      else if c == '?' && (s.bracketed || gapAhead ahead) then s.questionMark
      else if c == ':' && (s.bracketed || gapAhead ahead) then s.colon
      else if (c == '|' || c == '>') && !s.bracketed then s.block
      else if s.startsPlain c ahead then s.plain fuel
      else .error .badYaml

/-- The tokens that can be told, where something is wrong with what follows. -/
def stopped (s : Scan) (f : Fault) : Tokens :=
  match s.dropOldKeys with
  | .ok s =>
    match (s.keys.map (·.place)).min? with
    | some place => ⟨(s.tokens.take place).toList, some f⟩
    | none => ⟨s.tokens.toList, some f⟩
  | .error f => ⟨s.tokens.toList, some f⟩

/-- Behind the gap ahead, of at most `fuel` lines, with the blocks closed that end there. -/
def pastGap (s : Scan) (fuel : Nat) : Except Fault Scan := do
  let s ← (skipGap fuel s).dropOldKeys
  .ok (s.unwind s.cursor.column)

/-- All tokens from here on.  Each takes at least one character, and so does each line of
a gap and each piece of a token, so `fuel` of them are enough for a shorter text. -/
def run : (fuel : Nat) → Scan → Tokens
  | 0, s => s.stopped .badYaml
  | fuel + 1, s =>
    match s.pastGap (fuel + 1) with
    | .error f => s.stopped f
    | .ok next =>
      match next.cursor.rest with
      | [] =>
        match (next.unwind (-1)).dropKey with
        | .ok last => ⟨last.tokens.toList, none⟩
        | .error f => s.stopped f
      | c :: ahead =>
        match next.token (fuel + 1) c ahead with
        | .ok next => run fuel next
        | .error f => s.stopped f

end Scan

namespace Tokens

/-- The tokens of characters that may all stand in a document.  A byte order mark at
their start is skipped. -/
def ofChars (chars : List Char) : Tokens :=
  let start : Cursor := { rest := chars }
  let first := if start.head? == some '\uFEFF' then start.next else start
  Scan.run (chars.length + 1) { cursor := first }

/-- Nothing but the fault that a text cannot be read. -/
def unreadable : Tokens :=
  ⟨[], some .badYaml⟩

/-- The tokens of a text that is at hand as a whole. -/
def ofText (text : String) : Tokens :=
  if text.toList.all isAllowed then ofChars text.toList else unreadable

/-! ### Files

A file is read piece by piece, and a piece is looked at when the scan gets to it.  Each
line ends with a line feed once it is read.
-/

/-- How many characters a piece of a file has; the first one has twice as many. -/
def pieceLength : Nat := 4096

/-- Where the piece starts that a character belongs to. -/
def pieceStart (index : Nat) : Nat :=
  if index < 2 * pieceLength then 0 else index / pieceLength * pieceLength

/-- Text with a line feed at the end of each line. -/
def withLineFeeds : List Char → List Char
  | '\r' :: '\n' :: rest => '\n' :: withLineFeeds rest
  | '\r' :: rest => '\n' :: withLineFeeds rest
  | c :: rest => c :: withLineFeeds rest
  | [] => []

/-- The tokens of a text that is in a file.  If a character may not stand in a document,
the text can still go wrong in another way before the piece of that character. -/
def ofFile (text : String) : Tokens :=
  let chars := withLineFeeds text.toList
  let allowed := (chars.takeWhile isAllowed).length
  if allowed = chars.length then ofChars chars
  else
    let before := ofChars (chars.take (pieceStart allowed))
    match before.stop with
    | some .badYaml => unreadable
    | some _ => before
    | none => unreadable

end Tokens

end Scorecard.Yaml
