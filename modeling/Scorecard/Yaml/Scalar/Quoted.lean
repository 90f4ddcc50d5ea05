/-
Text in quotes.

Between single quotes everything stands for itself, and a quote is written twice.
Between double quotes a backslash gives a character another meaning, or names one by
its number.  In both, line breaks are folded together with the blanks around them.
-/
import Scorecard.Fault
import Scorecard.Yaml.Cursor

namespace Scorecard.Yaml

/-! ### Escapes -/

/-- The character that a backslash and another character stand for. -/
def escape? : Char → Option Char
  | '0' => some '\x00'
  | 'a' => some '\x07'
  | 'b' => some '\x08'
  | 't' => some '\t'
  | '\t' => some '\t'
  | 'n' => some '\n'
  | 'v' => some '\x0b'
  | 'f' => some '\x0c'
  | 'r' => some '\r'
  | 'e' => some '\x1b'
  | ' ' => some ' '
  | '"' => some '"'
  | '\\' => some '\\'
  | '/' => some '/'
  | 'N' => some '\u0085'
  | '_' => some '\u00A0'
  | 'L' => some '\u2028'
  | 'P' => some '\u2029'
  | _ => none

/-- How many digits follow a character that announces the number of another. -/
def escapeDigits? : Char → Option Nat
  | 'x' => some 2
  | 'u' => some 4
  | 'U' => some 8
  | _ => none

/-- The value of a hexadecimal digit. -/
def hexDigit? (c : Char) : Option Nat :=
  if '0' ≤ c ∧ c ≤ '9' then some (c.toNat - '0'.toNat)
  else if 'a' ≤ c ∧ c ≤ 'f' then some (c.toNat - 'a'.toNat + 10)
  else if 'A' ≤ c ∧ c ≤ 'F' then some (c.toNat - 'A'.toNat + 10)
  else none

/-- The number that hexadecimal digits write. -/
def hexNumber? (digits : List Char) : Option Nat :=
  digits.foldlM (fun n c => (hexDigit? c).map (n * 16 + ·)) 0

/-- Greater numbers do not fit the words that characters are counted in. -/
def greatestWord : Nat := 0x7FFFFFFF

/-- The character of a number. -/
def charOfNumber (n : Nat) : Except Fault Char :=
  if greatestWord < n then .error .tooLarge
  else if 0x10FFFF < n then .error .meaningless
  else if n.isValidChar then .ok (Char.ofNat n)
  else .error .badYaml

/-! ### Line breaks -/

/-- The empty lines ahead and the place behind them and the blanks that follow.  A
document may not end here.  At most `fuel` lines are looked at. -/
def quotedBreaks : (fuel : Nat) → Cursor → Except Fault (List Char × Cursor)
  | 0, c => .ok ([], c)
  | fuel + 1, c =>
    if c.atDocumentMark then .error .badYaml
    else
      let start := c.skipWhile fun x => x == ' ' || x == '\t'
      match start.break? with
      | none => .ok ([], start)
      | some (x, behind) => (quotedBreaks fuel behind).map fun (more, stop) => (x :: more, stop)

/-- The gap ahead, and the place behind it. -/
def quotedGap (c : Cursor) : Except Fault (List Char × Cursor) :=
  let isBlank (x : Char) : Bool := x == ' ' || x == '\t'
  let behind := c.skipWhile isBlank
  match behind.break? with
  | none => .ok (c.rest.takeWhile isBlank, behind)
  | some (first, start) =>
    (quotedBreaks (start.rest.length + 1) start).map fun (more, stop) => (fold first more, stop)

/-! ### Texts -/

/-- What a backslash and what follows it read as, and the place behind. -/
def escaped (c : Cursor) : Except Fault (List Char × Cursor) :=
  match c.next.rest with
  | [] => .error .badYaml
  | x :: ahead =>
    match escape? x, escapeDigits? x, c.next.break? with
    | some y, _, _ => .ok ([y], c.skip 2)
    | none, some count, _ =>
      match (if (ahead.take count).length = count then hexNumber? (ahead.take count) else none) with
      | some n => (charOfNumber n).map fun y => ([y], c.skip (2 + count))
      | none => .error .badYaml
    | none, none, some (_, behind) => quotedBreaks (behind.rest.length + 1) behind
    | none, none, none => .error .badYaml

/-- The text up to its closing quote, and the place behind that.  At most `fuel`
pieces are read. -/
def quotedText (quote : Char) : (fuel : Nat) → Cursor → Except Fault (List Char × Cursor)
  | 0, _ => .error .badYaml
  | fuel + 1, c =>
    let continued (piece : List Char) (behind : Cursor) : Except Fault (List Char × Cursor) :=
      (quotedText quote fuel behind).map fun (more, stop) => (piece ++ more, stop)
    match c.rest with
    | [] => .error .badYaml
    | x :: ahead =>
      if x == quote then
        if quote == '\'' && ahead.head? == some quote then continued [quote] (c.skip 2)
        else .ok ([], c.next)
      else if x == '\\' && quote == '"' then do
        let (piece, behind) ← escaped c
        continued piece behind
      else if isGap x then do
        let (piece, behind) ← quotedGap c
        continued piece behind
      else continued [x] c.next

end Scorecard.Yaml
