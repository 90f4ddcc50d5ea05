/-
From a value to an outline of its document.

A document that holds one list, record or date in several places writes it out at the
first of them, under a name, and has that name at the others.  Which places are the same
only a graph can tell; what is no part of one stands alone.

Every cell is gone into once, so the graph's number of cells is fuel enough.
-/
import Scorecard.Fault
import Scorecard.Number.Layout

namespace Scorecard.Yaml

/-- What has no parts, as it is to be written. -/
inductive Scalar where
  /-- Text that stands for itself, and has to be kept from standing for something else. -/
  | text (cs : List Char)
  /-- Plain text, and the length of the name of its kind, which counts when it is a key. -/
  | plain (cs : List Char) (kindLength : Nat)
  | octets (bs : List UInt8)

/-- The text of a double, which must show a point. -/
def doubleText (x : Float) : List Char :=
  match Binary64.decode x with
  | .nan => ".nan".toList
  | .infinite negative => (if negative then "-.inf" else ".inf").toList
  | .finite .. =>
    let text := (floatText x).toList
    if text.contains '.' then text
    else text.flatMap fun c => if c == 'e' then ".0e".toList else [c]

/-- The scalar that a value is, if it has no parts and an integer not too many digits. -/
def Scalar.ofValue : Value → Except Fault Scalar
  | .null => .ok (.plain "null".toList 6)
  | .bool b => .ok (.plain (if b then "true" else "false").toList 6)
  | .int n => if Decimal.isShort n then .ok (.plain (intText n).toList 5) else .error .tooManyDigits
  | .float x => .ok (.plain (doubleText x) 7)
  | .nan _ => .ok (.plain ".nan".toList 7)
  | .str s => .ok (.text s.toList)
  | .broken t => .ok (.text t.shown.toList)
  | .bytes bs => .ok (.octets bs)
  | .date t => .ok (.plain t.text.toList 11)
  | _ => .error .badYaml

/-- A document before it is laid out on lines.  What a graph holds has the place of its
cell there, by which it can be referred to. -/
inductive Outline where
  | scalar (place : Option Nat) (s : Scalar)
  | list (place : Option Nat) (items : List Outline)
  | record (place : Option Nat) (entries : List (Outline × Outline))
  /-- What has been outlined under a place already. -/
  | again (place : Nat)

namespace Outline

/-- The places gone into so far, and those come to again, in the order of that. -/
structure Survey where
  seen : List Nat := []
  repeated : List Nat := []

/-- A step of outlining a value. -/
abbrev Outliner := StateT Survey (Except Fault)

/-- The outline of a value without parts. -/
def ofLeaf (place : Option Nat) (v : Value) : Outliner Outline := do
  return .scalar place (← Scalar.ofValue v)

/-- Outline what is at a place, unless that was done before. -/
def once (place : Nat) (outline : Outliner Outline) : Outliner Outline := do
  let survey ← get
  if survey.seen.contains place then
    if !survey.repeated.contains place then
      set { survey with repeated := survey.repeated ++ [place] }
    return .again place
  else
    set { survey with seen := place :: survey.seen }
    outline

/-- The outline of the cell at a place. -/
def ofCell (graph : Array (Cell Value)) : (fuel : Nat) → (place : Nat) → Outliner Outline
  | 0, _ => throw .badYaml
  | fuel + 1, place =>
    match graph[place]? with
    | some (.leaf (.date t)) => once place (ofLeaf (some place) (.date t))
    | some (.leaf v) => ofLeaf none v
    | some (.list items) => once place do
      return .list (some place) (← items.mapM (ofCell graph fuel))
    | some (.record entries) => once place do
      let outlined ← entries.mapM fun (k, v) => do
        let key ← ofCell graph fuel k
        return (key, ← ofCell graph fuel v)
      return .record (some place) outlined
    | none => ofLeaf none .null

mutual

/-- The outline of a value. -/
def ofValue : Value → Outliner Outline
  | .list items => do return .list none (← ofItems items)
  | .tuple items => do return .list none (← ofItems items)
  | .record entries => do return .record none (← ofEntries entries)
  | .part graph place => ofCell graph (graph.size + 1) place
  | v => ofLeaf none v

/-- The outlines of items. -/
def ofItems : List Value → Outliner (List Outline)
  | [] => return []
  | x :: xs => do
    let item ← ofValue x
    return item :: (← ofItems xs)

/-- The outlines of entries. -/
def ofEntries : List (Value × Value) → Outliner (List (Outline × Outline))
  | [] => return []
  | (k, v) :: es => do
    let key ← ofValue k
    let value ← ofValue v
    return (key, value) :: (← ofEntries es)

end

end Outline

end Scorecard.Yaml
