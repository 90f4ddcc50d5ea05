/-
What plain text stands for.

Nothing, truth values, integers, doubles, dates, and two signs for keys are written
plainly; everything else is text.  Integers may be binary, octal with a zero in front,
decimal, hexadecimal, or in groups of base sixty; doubles may be in groups too, need a
point, and need a sign in their exponent.  Underscores between digits are skipped.
-/
import Scorecard.Timestamp
import Scorecard.Value.Number

namespace Scorecard.Yaml

/-- What a plain text is taken for. -/
inductive Meaning where
  | null
  | bool (b : Bool)
  /-- Digits of a base, with underscores. -/
  | int (negative : Bool) (base : Nat) (digits : List Char)
  /-- Groups of decimal digits, base sixty. -/
  | intGroups (negative : Bool) (groups : List (List Char))
  | float (negative : Bool) (numeral : List Char)
  | floatGroups (negative : Bool) (groups : List (List Char))
  | infinity (negative : Bool)
  | notANumber
  | timestamp (t : Timestamp)
  /-- The sign of a mapping to be merged. -/
  | merge
  /-- The sign of a default value. -/
  | default
  | text
deriving Inhabited

/-! ### Digits -/

/-- A decimal digit or an underscore. -/
def isDecimalPart (c : Char) : Bool :=
  isDigit c || c == '_'

/-- A binary digit or an underscore. -/
def isBinaryPart (c : Char) : Bool :=
  c == '0' || c == '1' || c == '_'

/-- An octal digit or an underscore. -/
def isOctalPart (c : Char) : Bool :=
  ('0' ≤ c && c ≤ '7') || c == '_'

/-- The value of a digit of any base up to sixteen. -/
def digitValue (c : Char) : Nat :=
  if isDigit c then c.toNat - '0'.toNat
  else if 'a' ≤ c ∧ c ≤ 'f' then c.toNat - 'a'.toNat + 10
  else c.toNat - 'A'.toNat + 10

/-- A hexadecimal digit or an underscore. -/
def isHexPart (c : Char) : Bool :=
  isDigit c || ('a' ≤ c && c ≤ 'f') || ('A' ≤ c && c ≤ 'F') || c == '_'

/-- A text without its underscores. -/
def withoutUnderscores (text : List Char) : List Char :=
  text.filter (· != '_')

/-- The number that digits write. -/
def numberOf (base : Nat) (digits : List Char) : Nat :=
  digits.foldl (fun n c => n * base + digitValue c) 0

/-! ### Shapes -/

/-- A text split at its colons. -/
def groupsOf : List Char → List (List Char)
  | [] => [[]]
  | c :: rest =>
    if c = ':' then [] :: groupsOf rest
    else
      match groupsOf rest with
      | group :: groups => (c :: group) :: groups
      | [] => [[c]]

/-- A group after the first: one digit, or two of which the first is below six. -/
def isGroup : List Char → Bool
  | [a] => isDigit a
  | [a, b] => '0' ≤ a && a ≤ '5' && isDigit b
  | _ => false

/-- The last group of a double: a group, a point, and digits. -/
def isLastGroup (text : List Char) : Bool :=
  isGroup (text.takeWhile (· != '.')) &&
    (match text.dropWhile (· != '.') with
     | '.' :: fraction => fraction.all isDecimalPart
     | _ => false)

/-- An exponent with a sign, or nothing. -/
def isExponent : List Char → Bool
  | [] => true
  | e :: sign :: digits =>
    (e == 'e' || e == 'E') && (sign == '+' || sign == '-') && !digits.isEmpty && digits.all isDigit
  | _ => false

/-- Digits, a point, digits if there are any, and an exponent if there is one. -/
def isDecimal (text : List Char) : Bool :=
  text.head?.any isDigit &&
    (match text.dropWhile isDecimalPart with
     | '.' :: rest => isExponent (rest.dropWhile isDecimalPart)
     | _ => false)

/-- A point, digits, and an exponent if there is one. -/
def isFraction : List Char → Bool
  | '.' :: rest => rest.head?.any isDigit && isExponent (rest.dropWhile isDecimalPart)
  | _ => false

/-- What a text is taken for if it is an integer. -/
def integer? (negative : Bool) (text : List Char) : Option Meaning :=
  match text with
  | ['0'] => some (.int negative 10 text)
  | '0' :: 'b' :: digits =>
    if !digits.isEmpty && digits.all isBinaryPart then some (.int negative 2 digits) else none
  | '0' :: 'x' :: digits =>
    if !digits.isEmpty && digits.all isHexPart then some (.int negative 16 digits) else none
  | '0' :: digits => if digits.all isOctalPart then some (.int negative 8 digits) else none
  | first :: rest =>
    if isDigit first then
      if rest.all isDecimalPart then some (.int negative 10 text)
      else
        match groupsOf text with
        | whole :: group :: groups =>
          if whole.all isDecimalPart && (group :: groups).all isGroup then
            some (.intGroups negative (whole :: group :: groups))
          else none
        | _ => none
    else none
  | [] => none

/-- What a text is taken for if it is a double in groups. -/
def floatGroups? (negative : Bool) (text : List Char) : Option Meaning :=
  match groupsOf text with
  | whole :: group :: groups =>
    let last := (group :: groups).getLast (List.cons_ne_nil _ _)
    if whole.head?.any isDigit && whole.all isDecimalPart && ((group :: groups).dropLast).all isGroup &&
        isLastGroup last then
      some (.floatGroups negative (whole :: group :: groups))
    else none
  | _ => none

/-- What a text is taken for if it is a double; a sign stands in front of it or not. -/
def float? (signed negative : Bool) (text : List Char) : Option Meaning :=
  if isDecimal text || (!signed && isFraction text) then some (.float negative text)
  else if ["inf", "Inf", "INF"].contains (String.ofList (text.drop 1)) && text.head? == some '.' then
    some (.infinity negative)
  else if !signed && ["nan", "NaN", "NAN"].contains (String.ofList (text.drop 1)) &&
      text.head? == some '.' then
    some .notANumber
  else floatGroups? negative text

/-- The truth value of a word. -/
def truth? (word : String) : Option Bool :=
  if ["yes", "Yes", "YES", "true", "True", "TRUE", "on", "On", "ON"].contains word then some true
  else if ["no", "No", "NO", "false", "False", "FALSE", "off", "Off", "OFF"].contains word then some false
  else none

/-- What a plain text is taken for. -/
def Meaning.of (text : List Char) : Meaning :=
  let word := String.ofList text
  let (negative, body) := Numeral.takeSign text
  let signed := text.head? == some '-' || text.head? == some '+'
  if ["", "~", "null", "Null", "NULL"].contains word then .null
  else if word = "=" then .default
  else if word = "<<" then .merge
  else
    match truth? word, float? signed negative body, integer? negative body, Timestamp.read? text with
    | some b, _, _, _ => .bool b
    | none, some meaning, _, _ => meaning
    | none, none, some meaning, _ => meaning
    | none, none, none, some t => .timestamp t
    | none, none, none, none => .text

/-! ### Values -/

/-- A number with its sign. -/
def signed (negative : Bool) (n : Nat) : Int :=
  if negative then -(n : Int) else n

/-- The sum of groups, the last of which counts once, the one before sixty times, and
so on.  The sum is built up from the last group. -/
def sumGroups (groups : List Float) : Except Fault Float :=
  let weigh (sum : Float × Nat) (group : Float) : Except Fault (Float × Nat) :=
    match Binary64.ofInt? sum.2 with
    | some weight => .ok (sum.1 + group * weight, sum.2 * 60)
    | none => .error .tooLarge
  (groups.reverse.foldlM weigh (0.0, 1)).map (·.1)

/-- The double that digits and a point write. -/
def floatOf (digits : List Char) : Float :=
  (Numeral.read? false (withoutUnderscores digits)).getD 0.0

/-- A double with its sign. -/
def signedFloat (negative : Bool) (x : Float) : Float :=
  if negative then -x else x

/-- Decimal digits are not too many to be read. -/
def areFew (digits : List Char) : Bool :=
  (withoutUnderscores digits).length ≤ Decimal.digitLimit

/-- The value of a plain text.  Signs for keys have none of their own. -/
def Meaning.value (text : List Char) : Meaning → Except Fault Value
  | .null => .ok .null
  | .bool b => .ok (.bool b)
  | .int negative base digits =>
    if digits.all (· == '_') && base != 8 then .error .meaningless
    else if base == 10 && !areFew digits then .error .tooManyDigits
    else .ok (.int (Yaml.signed negative (numberOf base (withoutUnderscores digits))))
  | .intGroups negative groups =>
    let sum := groups.foldl (fun n group => n * 60 + numberOf 10 (withoutUnderscores group)) 0
    if groups.all areFew then .ok (.int (Yaml.signed negative sum)) else .error .tooManyDigits
  | .float negative numeral => .ok (.float (signedFloat negative (floatOf numeral)))
  | .floatGroups negative groups =>
    (sumGroups (groups.map floatOf)).map fun x => .float (signedFloat negative x)
  | .infinity negative => .ok (.float (Binary64.encode (.infinite negative)))
  | .notANumber => .ok (.nan 0)
  | .timestamp t => if t.isPossible then .ok (.date t) else .error .meaningless
  | .merge => .error .badYaml
  | .default => .error .badYaml
  | .text => .ok (.str (String.ofList text))

end Scorecard.Yaml
