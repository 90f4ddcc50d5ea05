/-
Canonical JSON: one text for each value.

No blanks, keys in the order of their code points, integers apart from doubles, and
a double in the fewest digits that read back.  What has no such text is refused: a
key that is not text, a value of a kind that JSON lacks, an infinity, no number, an
integer with too many digits, a text with half of a surrogate pair in it.  All keys are
looked at before anything else; after that the first refusal in the order of the text
counts.  A half is refused last of all, since nothing is wrong with it before the text is
turned into octets.
-/
import Scorecard.Json.Text
import Scorecard.Value.Unfolding

namespace Scorecard

namespace Json

mutual

/-- The first key that is not text, in the order of the value. -/
def foreignKey? : Value → Option Value
  | .list items => foreignKeyIn? items
  | .tuple items => foreignKeyIn? items
  | .record entries => foreignKeyAmong? entries
  | _ => none

/-- The first key that is not text in any of the items. -/
def foreignKeyIn? : List Value → Option Value
  | [] => none
  | x :: xs =>
    match foreignKey? x with
    | some key => some key
    | none => foreignKeyIn? xs

/-- The first key that is not text in the entries or in their values. -/
def foreignKeyAmong? : List (Value × Value) → Option Value
  | [] => none
  | (.str _, v) :: es =>
    match foreignKey? v with
    | some key => some key
    | none => foreignKeyAmong? es
  | (.broken _, v) :: es =>
    match foreignKey? v with
    | some key => some key
    | none => foreignKeyAmong? es
  | (k, _) :: _ => some k

end

mutual

/-- Half of a surrogate pair stands in a text of the value. -/
def hasHalf : Value → Bool
  | .broken _ => true
  | .list items => hasHalfIn items
  | .tuple items => hasHalfIn items
  | .record entries => hasHalfAmong entries
  | _ => false

/-- Half of a surrogate pair stands in one of the items. -/
def hasHalfIn : List Value → Bool
  | [] => false
  | x :: xs => hasHalf x || hasHalfIn xs

/-- Half of a surrogate pair stands in a key or in a value of the entries. -/
def hasHalfAmong : List (Value × Value) → Bool
  | [] => false
  | (k, v) :: es => hasHalf k || hasHalf v || hasHalfAmong es

end

/-- Entries in the order of their keys' code points. -/
def sortByKey {α : Type} (entries : List (String × α)) : List (String × α) :=
  entries.mergeSort fun a b => !decide (b.1 < a.1)

/-- Entries between braces, the first refusal among the values winning. -/
def braces (parts : List (String × Except Fault (List Char))) : Except Fault (List Char) := do
  let written ← parts.mapM fun (key, text) => do
    .ok (string false key.toList ++ ':' :: (← text))
  .ok ('{' :: (join [','] written ++ ['}']))

mutual

/-- The canonical text of a value that is spelt out and whose keys are all text.  Of halves
it has only what is shown for them. -/
def canonicalText : Value → Except Fault (List Char)
  | .null => .ok "null".toList
  | .bool b => .ok (if b then "true".toList else "false".toList)
  | .int n => shortInteger n
  | .float x => if Binary64.isFinite x then .ok (float x) else .error .meaningless
  | .nan _ => .error .meaningless
  | .str s => .ok (string false s.toList)
  | .broken text => .ok (string false text.shown.toList)
  | .list items => do
    .ok ('[' :: (join [','] (← canonicalItems items) ++ [']']))
  | .tuple items => do
    .ok ('[' :: (join [','] (← canonicalItems items) ++ [']']))
  | .record entries => braces (sortByKey (canonicalEntries entries))
  | .bytes _ => .error .wrongKind
  | .date _ => .error .wrongKind
  | .part _ _ => .error .wrongKind
  | .loop _ => .error .endless

/-- The canonical texts of items. -/
def canonicalItems : List Value → Except Fault (List (List Char))
  | [] => .ok []
  | x :: xs => do
    let text ← canonicalText x
    .ok (text :: (← canonicalItems xs))

/-- Each key with the canonical text of its value, in the order of the record. -/
def canonicalEntries : List (Value × Value) → List (String × Except Fault (List Char))
  | [] => []
  | (.str key, v) :: es => (key, canonicalText v) :: canonicalEntries es
  | (.broken key, v) :: es => (key.shown, canonicalText v) :: canonicalEntries es
  | _ :: es => canonicalEntries es

end

end Json

/-- The canonical text of a value, which is spelt out first: what several places share
is written at each of them. -/
def Value.canonical (v : Value) : Except Fault String :=
  match Json.foreignKey? v.unfolded with
  | some key => .error (if key.hasLiteral then .keyNotText key else .tooManyDigits)
  | none => do
    let text ← Json.canonicalText v.unfolded
    if Json.hasHalf v.unfolded then .error .meaningless else .ok (String.ofList text)

end Scorecard
