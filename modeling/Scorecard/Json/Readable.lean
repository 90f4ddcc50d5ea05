/-
JSON for readers: a blank behind every comma and colon, ASCII only.

Keys are sorted as they are and only then written, so numbers stand in the order of
their values; a key that is a number, a truth value or null is written as text.
Infinities and no number have names here, and half of a surrogate pair is escaped like any
other unit.  What holds itself cannot be written, and neither can an integer with too
many digits.
-/
import Scorecard.Json.Text
import Scorecard.Value.Order

namespace Scorecard

namespace Json

/-- A key as a string. -/
def keyString : Value → Except Fault (List Char)
  | .str s => .ok (string true s.toList)
  | .broken t => .ok (brokenString true t)
  | .float x => .ok (string true (float x))
  | .nan _ => .ok (string true floatLayout.nan.toList)
  | .bool b => .ok (string true (if b then "true".toList else "false".toList))
  | .null => .ok (string true "null".toList)
  | .int n => (shortInteger n).map (string true)
  | _ => .error .wrongKind

mutual

/-- The readable text of a value that is spelt out. -/
def readableText : Value → Except Fault (List Char)
  | .null => .ok "null".toList
  | .bool b => .ok (if b then "true".toList else "false".toList)
  | .int n => shortInteger n
  | .float x => .ok (float x)
  | .nan _ => .ok floatLayout.nan.toList
  | .str s => .ok (string true s.toList)
  | .broken t => .ok (brokenString true t)
  | .list items => do
    .ok ('[' :: (join [',', ' '] (← readableItems items) ++ [']']))
  | .tuple items => do
    .ok ('[' :: (join [',', ' '] (← readableItems items) ++ [']']))
  | .record entries => do
    match Value.sortBy? (·.1) (readableEntries entries) with
    | none => .error .wrongKind
    | some sorted =>
      let written ← sorted.mapM fun (key, text) => do
        .ok ((← keyString key) ++ ':' :: ' ' :: (← text))
      .ok ('{' :: (join [',', ' '] written ++ ['}']))
  | .bytes _ => .error .wrongKind
  | .date _ => .error .wrongKind
  | .part _ _ => .error .wrongKind
  | .loop _ => .error .endless

/-- The readable texts of items. -/
def readableItems : List Value → Except Fault (List (List Char))
  | [] => .ok []
  | x :: xs => do
    let text ← readableText x
    .ok (text :: (← readableItems xs))

/-- Each key with the readable text of its value, in the order of the record. -/
def readableEntries : List (Value × Value) → List (Value × Except Fault (List Char))
  | [] => []
  | (k, v) :: es => (k, readableText v) :: readableEntries es

end

end Json

/-- The readable text of a value. -/
def Value.readable (v : Value) : Except Fault String :=
  (Json.readableText v.unfolded).map String.ofList

end Scorecard
