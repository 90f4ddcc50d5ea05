/-
From a document to a value.

The graph of a document is made into data level by level, each node when it is first
reached.  So of two things wrong with it, the one that lies less deep counts, and on one
level the one that comes first.  A key must be fit to be one; of equal keys the last
counts.

A document without aliases is a tree, and so is its value; otherwise the value is part
of a graph.
-/
import Scorecard.Value.Unfolding
import Scorecard.Yaml.Meaning
import Scorecard.Yaml.Node
import Scorecard.Yaml.Octets
import Scorecard.Yaml.Scan

namespace Scorecard

namespace Yaml

/-- What has been made of a graph: the cells of the nodes reached so far, and those among
them that have to be filled. -/
structure Making where
  cells : Array (Option (Cell Value))
  waiting : Array Nat := #[]

namespace Making

/-- What has been made of a node. -/
def cell? (m : Making) (number : Nat) : Option (Cell Value) :=
  (m.cells[number]?).join

/-- Make a cell of a node. -/
def set (m : Making) (number : Nat) (cell : Cell Value) : Making :=
  { m with cells := m.cells.setIfInBounds number (some cell) }

/-- Make an empty cell, to be filled on the next level. -/
def defer (m : Making) (number : Nat) (empty : Cell Value) : Making :=
  { m.set number empty with waiting := m.waiting.push number }

/-- The value of a text. -/
def scalarValue (text : String) : Standing → Except Fault Value
  | .plain => (Meaning.of text.toList).value text.toList
  | .itself => .ok (.str text)
  | .octets =>
    match octetsOf? text.toList with
    | some octets => .ok (.bytes octets)
    | none => .error .badYaml

/-- Reach a node. -/
def reach (g : Graph) (m : Making) (number : Nat) : Except Fault Making :=
  match m.cell? number, g.nodes[number]? with
  | none, some (.scalar text standing) => (scalarValue text standing).map fun v => m.set number (.leaf v)
  | none, some (.sequence _) => .ok (m.defer number (.list []))
  | none, some (.mapping _) => .ok (m.defer number (.record []))
  | _, _ => .ok m

/-- Reach a node as a key.  Sequences and mappings are not fit to be keys. -/
def reachKey (g : Graph) (m : Making) (number : Nat) : Except Fault Making :=
  match g.nodes[number]? with
  | some (.scalar _ _) => m.reach g number
  | _ => .error .badYaml

/-- As a key the sign of a default value is a text like any other. -/
def defaultAsText (g : Graph) (m : Making) (number : Nat) : Making :=
  match m.cell? number, g.nodes[number]? with
  | none, some (.scalar "=" .plain) => m.set number (.leaf (.str "="))
  | _, _ => m

/-- The key that has been made of a node. -/
def keyOf (m : Making) (number : Nat) : Value :=
  match m.cell? number with
  | some (.leaf v) => v
  | _ => .null

/-- Add an entry to others; of one with an equal key the value is replaced. -/
def addEntry (m : Making) (entry : Nat × Nat) : List (Nat × Nat) → List (Nat × Nat)
  | [] => [entry]
  | (k, v) :: rest =>
    if (m.keyOf k).same (m.keyOf entry.1) then (k, entry.2) :: rest else (k, v) :: addEntry m entry rest

/-- Fill the cell of a node with what it holds. -/
def fill (g : Graph) (m : Making) (number : Nat) : Except Fault Making :=
  match g.nodes[number]? with
  | some (.sequence items) => do
    let m ← items.foldlM (reach g) m
    .ok (m.set number (.list items))
  | some (.mapping entries) => do
    let m := entries.foldl (fun m (key, _) => m.defaultAsText g key) m
    let m ← entries.foldlM (fun m (key, value) => do (← m.reachKey g key).reach g value) m
    .ok (m.set number (.record (entries.foldl (fun es entry => m.addEntry entry es) [])))
  | _ => .ok m

/-- Fill all cells, level by level.  No level is without a new node, so the number of
nodes is fuel enough. -/
def fillAll (g : Graph) : (fuel : Nat) → Making → Except Fault Making
  | 0, m => .ok m
  | fuel + 1, m =>
    if m.waiting.isEmpty then .ok m
    else do fillAll g fuel (← m.waiting.foldlM (fill g) { m with waiting := #[] })

end Making

/-- The value of a document. -/
def Graph.value (g : Graph) : Except Fault Value := do
  let start : Making := { cells := Array.replicate g.nodes.size none }
  let made ← Making.fillAll g (g.nodes.size + 1) (← start.reach g g.root)
  let cells := made.cells.map fun cell => cell.getD (.leaf .null)
  let value := Value.ofCell cells g.root
  .ok (if g.hasAlias then value else value.unfolded)

/-- The value that tokens write; an empty document writes nothing. -/
def Tokens.value (tokens : Tokens) : Except Fault Value := do
  match ← Graph.ofTokens? tokens with
  | none => .ok .null
  | some g => g.value

end Yaml

/-- The value that a text writes in YAML. -/
def Value.ofYaml (text : String) : Except Fault Value :=
  (Yaml.Tokens.ofText text).value

/-- The value that the text of a file writes in YAML. -/
def Value.ofYamlFile (text : String) : Except Fault Value :=
  (Yaml.Tokens.ofFile text).value

end Scorecard
