/-
Data spelt out.

A value that is part of a graph becomes a tree: what several places share is written
out at each of them.  Where a list or record holds itself the tree would have no end,
so there it says only that the list or record around it follows once more.

Going down from a cell, all cells passed on the way differ, or the way ends in a loop.
So no way is longer than the graph has cells, and as much fuel is enough.
-/
import Scorecard.Value

namespace Scorecard.Value

/-- The cell at a place spelt out, inside of cells at other places. -/
def unfoldCell (graph : Array (Cell Value)) : (fuel : Nat) → (around : List Nat) → (place : Nat) → Value
  | 0, _, _ => .null
  | fuel + 1, around, place =>
    let inside := unfoldCell graph fuel (place :: around)
    match graph[place]? with
    | some (.leaf v) => v
    | some (.list items) =>
      if around.contains place then .loop false else .list (items.map inside)
    | some (.record entries) =>
      if around.contains place then .loop true
      else .record (entries.map fun (k, v) => (inside k, inside v))
    | none => .null

mutual

/-- A value without parts of graphs. -/
def unfolded : Value → Value
  | .list items => .list (allUnfolded items)
  | .tuple items => .tuple (allUnfolded items)
  | .record entries => .record (entriesUnfolded entries)
  | .part graph place => unfoldCell graph (graph.size + 1) [] place
  | v => v

/-- Items without parts of graphs. -/
def allUnfolded : List Value → List Value
  | [] => []
  | x :: xs => unfolded x :: allUnfolded xs

/-- Entries without parts of graphs. -/
def entriesUnfolded : List (Value × Value) → List (Value × Value)
  | [] => []
  | (k, v) :: es => (unfolded k, unfolded v) :: entriesUnfolded es

end

end Scorecard.Value
