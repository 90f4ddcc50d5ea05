/-
Settings.

Settings come as a record with a default for every field.  A field that does not fit
is an issue: the path to it and what is wrong.  All issues are found, in the order of
the fields, before the settings are refused.

Integers are taken from anything that is plainly one: a truth value, a whole double of
64 bits, and text.  Such text may have blanks around it, a sign, zeros in front of its
digits, single underscores between its characters, and nothing but zeros behind a point.
-/
import Scorecard.Number.Numeral
import Scorecard.Text.Blank
import Scorecard.Value

namespace Scorecard

/-- The settings of an engine and of the signer that goes with it. -/
structure Config where
  version : Int := 1
  logLevel : String := "INFO"
  cacheSize : Int := 256
  maxDepth : Int := 64
  maxTokens : Int := 4096
  signingKey : String := ""

namespace Config

/-- The greatest depth that the settings allow. -/
def greatestDepth : Int := 150

/-- What can be wrong with a field. -/
inductive Problem where
  | notAnInteger
  | notReadableAsInteger
  | notWhole
  | notFinite
  | notInRange
  | notText
  | textNotReadable
  | notARecord
  | tooSmall
  | tooLarge
  | unknown

/-- What is wrong, and the path to where. -/
structure Issue where
  path : List String
  problem : Problem

/-! ### Integers -/

/-- Text without the plus sign in front of it; no minus sign may follow that. -/
def dropPlus? : List Char → Option (List Char)
  | '+' :: '-' :: _ => none
  | '+' :: rest => some rest
  | rest => some rest

/-- Text behind zeros, up to where its number starts.  Underscores may stand among the
zeros, and a minus sign behind them.  If a point comes first, or nothing at all, what
stands in front of that remains; `last` is the zero or underscore passed last. -/
def dropZeros? (last : Char) : List Char → Option (List Char)
  | [] => some [last]
  | '.' :: rest => some (last :: '.' :: rest)
  | c :: rest =>
    if c = '0' ∨ c = '_' then dropZeros? c rest
    else if c = '-' ∨ isDigit c then some (c :: rest)
    else none

/-- Text without the zeros in front of it; a digit or a minus sign comes first. -/
def dropLeadingZeros? : List Char → Option (List Char)
  | [] => none
  | '0' :: rest => dropZeros? '0' rest
  | c :: rest => if c = '-' ∨ isDigit c then some (c :: rest) else none

/-- Text without the zeros in front of its number, be they in front of a minus sign or
behind it.  What is behind the sign starts as a number without a sign does. -/
def dropZerosAroundSign? (text : List Char) : Option (List Char) := do
  match ← dropLeadingZeros? text with
  | '-' :: rest => return '-' :: (← dropLeadingZeros? rest)
  | rest => return rest

/-- Text without a point and the zeros behind it, of which there must be one. -/
def dropZeroFraction (text : List Char) : List Char :=
  match text.dropWhile (· != '.') with
  | '.' :: zeros =>
    if !zeros.isEmpty && zeros.all (· == '0') then text.takeWhile (· != '.') else text
  | _ => text

/-- Single underscores stand between characters, none at either end. -/
def underscoresFit : (afterUnderscore : Bool) → List Char → Bool
  | after, [] => !after
  | after, '_' :: rest => !after && underscoresFit true rest
  | _, _ :: rest => underscoresFit false rest

/-- The number that digits write, of which there must be one. -/
def magnitude? (digits : List Char) : Option Nat :=
  if !digits.isEmpty && digits.all isDigit then some (Decimal.ofDigits digits) else none

/-- The integer that digits write, behind a minus sign or not. -/
def signed? : List Char → Option Int
  | '-' :: digits => (magnitude? digits).map fun n => -(n : Int)
  | digits => (magnitude? digits).map fun n => (n : Int)

/-- The integer that text spells. -/
def integerOfText? (text : List Char) : Option Int := do
  let text := dropZeroFraction (← dropZerosAroundSign? (← dropPlus? (trimBlanks text)))
  if underscoresFit true text then signed? (text.filter (· != '_')) else none

/-- The doubles that are integers of 64 bits lie below this, and above its negation. -/
def wordLimit : Float := 9223372036854775808.0

/-- The integer that a value plainly is. -/
def integerOf : Value → Except Problem Int
  | .int n => .ok n
  | .bool b => .ok (if b then 1 else 0)
  | .float x =>
    match Binary64.toInt? x with
    | some n => if -wordLimit < x && x < wordLimit then .ok n else .error .notInRange
    | none => .error (if Binary64.isFinite x then .notWhole else .notFinite)
  | .nan _ => .error .notFinite
  | .str s =>
    match integerOfText? s.toList with
    | some n => .ok n
    | none => .error .notReadableAsInteger
  | .broken _ => .error .textNotReadable
  | .bytes bs =>
    match (String.fromUTF8? ⟨bs.toArray⟩).bind fun s => integerOfText? s.toList with
    | some n => .ok n
    | none => .error .notReadableAsInteger
  | _ => .error .notAnInteger

/-- An integer within bounds. -/
def boundedInteger (least greatest : Option Int) (v : Value) : Except Problem Int := do
  let n ← integerOf v
  if greatest.any (· < n) then .error .tooLarge
  else if least.any (n < ·) then .error .tooSmall
  else .ok n

/-! ### Text -/

/-- The text that a value is. -/
def textOf : Value → Except Problem String
  | .str s => .ok s
  | .broken _ => .error .textNotReadable
  | .bytes bs =>
    match String.fromUTF8? ⟨bs.toArray⟩ with
    | some s => .ok s
    | none => .error .textNotReadable
  | _ => .error .notText

/-- A character in upper case, as far as the name of a level can hold it: the letters
of ASCII, and two letters beyond it whose capitals are in ASCII. -/
def capital (c : Char) : Char :=
  if c = 'ı' then 'I' else if c = 'ſ' then 'S' else c.toUpper

/-- The levels of logging. -/
def levels : List String :=
  ["CRITICAL", "FATAL", "ERROR", "WARN", "WARNING", "INFO", "DEBUG", "NOTSET"]

/-- The level that a value names, in any case. -/
def levelOf (v : Value) : Except Problem String := do
  let level := String.ofList ((← textOf v).toList.map capital)
  if levels.contains level then .ok level else .error .unknown

/-! ### Records -/

/-- Read a field if it is there; what is wrong with it is noted under its path. -/
def field {α : Type} (entries : List (Value × Value)) (path : List String) (name : String)
    (default : α) (read : Value → Except Problem α) : α × List Issue :=
  match Value.field? entries name with
  | none => (default, [])
  | some v =>
    match read v with
    | .ok x => (x, [])
    | .error problem => (default, [⟨path ++ [name], problem⟩])

/-- The entries of a section, which is empty where it is absent. -/
def recordSection (entries : List (Value × Value)) (name : String) : List (Value × Value) × List Issue :=
  field entries [] name [] fun
    | .record es => .ok es
    | _ => .error .notARecord

/-- The settings that a value describes. -/
def ofValue (v : Value) : Except (List Issue) Config :=
  match v with
  | .record es =>
    let standard : Config := {}
    let version := field es [] "version" standard.version (boundedInteger none none)
    let logLevel := field es [] "log_level" standard.logLevel levelOf
    let cacheSize := field es [] "cache_size" standard.cacheSize (boundedInteger (some 0) none)
    let parser := recordSection es "parser"
    let maxDepth := field parser.1 ["parser"] "max_depth" standard.maxDepth
      (boundedInteger (some 1) (some greatestDepth))
    let maxTokens := field parser.1 ["parser"] "max_tokens" standard.maxTokens
      (boundedInteger (some 1) none)
    let envelope := recordSection es "envelope"
    let signingKey := field envelope.1 ["envelope"] "signing_key" standard.signingKey textOf
    let issues := version.2 ++ logLevel.2 ++ cacheSize.2 ++ parser.2 ++ maxDepth.2 ++ maxTokens.2 ++
      envelope.2 ++ signingKey.2
    if issues.isEmpty then
      .ok ⟨version.1, logLevel.1, cacheSize.1, maxDepth.1, maxTokens.1, signingKey.1⟩
    else .error issues
  | _ => .error [⟨[], .notARecord⟩]

end Config

end Scorecard
