/-
Values as text.

`Value.literal` shows a value as data, with text in quotes; `Value.display` is the
same but for text and dates, which stand bare.  An identifier that was not text is
turned into text by `display`, and messages quote a value by its `literal`.  Where a
value holds itself, three points stand for all that would follow.

An integer beyond the limit of digits is not turned into text, and so no value can be
shown as data that has one in it.
-/
import Scorecard.Number.Layout
import Scorecard.Text.Quoted
import Scorecard.Value.Unfolding

namespace Scorecard.Value

mutual

/-- A value that is spelt out as data. -/
def treeLiteral : Value → String
  | .null => "None"
  | .bool b => if b then "True" else "False"
  | .int n => intText n
  | .float x => floatText x
  | .nan _ => floatText (Binary64.encode .nan)
  | .str s => Quoted.text s
  | .broken t => Quoted.brokenText t
  | .bytes bs => Quoted.octets bs
  | .list xs => "[" ++ literalItems xs ++ "]"
  | .tuple [x] => "(" ++ treeLiteral x ++ ",)"
  | .tuple xs => "(" ++ literalItems xs ++ ")"
  | .record es => "\x7b" ++ literalEntries es ++ "\x7d"
  | .date t => t.literal
  | .part _ _ => ""
  | .loop isRecord => if isRecord then "\x7b...\x7d" else "[...]"

/-- Items as data, a comma between two. -/
def literalItems : List Value → String
  | [] => ""
  | [x] => treeLiteral x
  | x :: xs => treeLiteral x ++ ", " ++ literalItems xs

/-- Entries as data, a comma between two. -/
def literalEntries : List (Value × Value) → String
  | [] => ""
  | [(k, v)] => treeLiteral k ++ ": " ++ treeLiteral v
  | (k, v) :: es => treeLiteral k ++ ": " ++ treeLiteral v ++ ", " ++ literalEntries es

end

/-- A value as data. -/
def literal (v : Value) : String :=
  v.unfolded.treeLiteral

/-- A value as text. -/
def display (v : Value) : String :=
  match v.surface with
  | .str s => s
  | .broken t => t.shown
  | .date t => t.text
  | _ => v.literal

/-! ### What can be shown -/

mutual

/-- Every integer in a value that is spelt out has a text. -/
def treeHasText : Value → Bool
  | .int n => Decimal.isShort n
  | .list xs => itemsHaveText xs
  | .tuple xs => itemsHaveText xs
  | .record es => entriesHaveText es
  | _ => true

/-- Every integer in the items has a text. -/
def itemsHaveText : List Value → Bool
  | [] => true
  | x :: xs => treeHasText x && itemsHaveText xs

/-- Every integer in the entries has a text. -/
def entriesHaveText : List (Value × Value) → Bool
  | [] => true
  | (k, v) :: es => treeHasText k && treeHasText v && entriesHaveText es

end

/-- A value has a text as data. -/
def hasLiteral (v : Value) : Bool :=
  v.unfolded.treeHasText

end Scorecard.Value
