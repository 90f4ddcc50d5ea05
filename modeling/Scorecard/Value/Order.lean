/-
The order of values.

Numbers of any kind are ordered by exact value, text by code points, octets by
number, tuples by their first difference.  Two values of different kinds have no
order, and neither have lists, records or dates, so a list of them cannot be sorted.
What is not a number is neither below nor above any number.

A sort takes the run at the front as it is, turned round if it goes down, and then puts
one element after the other in its place, which it finds by halving.  Where all can be
compared, any sort that keeps equals apart gives the same; what is not a number stays
about where it was.
-/
import Scorecard.Value

namespace Scorecard.Value

/-- Lexicographic order of octets. -/
def octetsBelow : List UInt8 → List UInt8 → Bool
  | _, [] => false
  | [], _ :: _ => true
  | x :: xs, y :: ys => x < y || (x == y && octetsBelow xs ys)

/-- Booleans, integers and doubles are numbers. -/
def isNumber : Value → Bool
  | .bool _ => true
  | .int _ => true
  | .float _ => true
  | .nan _ => true
  | _ => false

mutual

/-- Whether the first value stands below the second; nothing where they have no order. -/
def below? : Value → Value → Option Bool
  | .str s, .str t => some (decide (s < t))
  | .broken s, .broken t => some (Point.below s.points t.points)
  | .broken s, .str t => some (Point.below s.points (t.toList.map .char))
  | .str s, .broken t => some (Point.below (s.toList.map .char) t.points)
  | .bytes s, .bytes t => some (octetsBelow s t)
  | .tuple xs, .tuple ys => belowItems? xs ys
  | a, b =>
    if isNumber a && isNumber b then some (compareNumbers? a b == some .lt) else none

/-- Tuples are ordered by the first items that differ. -/
def belowItems? : List Value → List Value → Option Bool
  | _, [] => some false
  | [], _ :: _ => some true
  | x :: xs, y :: ys => if x.same y then belowItems? xs ys else below? x y

end

/-! ### Sorting -/

section

variable {α : Type} (key : α → Value)

/-- How many elements go on as the two before them: each below the one before it, or
none. -/
def runLength? (down : Bool) (x : α) : List α → Option Nat
  | [] => some 0
  | y :: ys => do
    if (← below? (key y) (key x)) == down then some ((← runLength? down y ys) + 1) else some 0

/-- The elements at the front that stand in order already, and the others. -/
def frontRun? : List α → Option (List α × List α)
  | x :: y :: rest => do
    let down ← below? (key y) (key x)
    let (run, others) := (x :: y :: rest).splitAt ((← runLength? key down y rest) + 2)
    some (if down then run.reverse else run, others)
  | short => some (short, [])

/-- The place of an element among sorted ones, between two places, behind all that it
is not below. -/
def placeBetween? (sorted : Array α) (x : α) (low high : Nat) : Option Nat :=
  if low < high then
    let middle := (low + high) / 2
    match sorted[middle]? with
    | none => some low
    | some y => do
      if ← below? (key x) (key y) then placeBetween? sorted x low middle
      else placeBetween? sorted x (middle + 1) high
  else some low
termination_by high - low

/-- Put an element in its place. -/
def insertSorted? (sorted : Array α) (x : α) : Option (Array α) := do
  some (sorted.insertIdxIfInBounds (← placeBetween? key sorted x 0 sorted.size) x)

/-- Sort by a key; equals keep their order. -/
def sortBy? (items : List α) : Option (List α) := do
  let (run, others) ← frontRun? key items
  some (← others.foldlM (insertSorted? key) run.toArray).toList

end

end Scorecard.Value
