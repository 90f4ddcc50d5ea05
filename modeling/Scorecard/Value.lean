/-
Values without a schema.

Questionnaires, submitted sessions, stored scores and settings arrive as data that
nobody has checked: a name may be a number, a list may be missing.  `Value` is that
data.  A record keeps its entries in the order in which they came, under keys that
are values themselves.

Two keys are the same when they are equal as data: numbers of any kind by exact
value (`1`, `1.0` and true are one key), everything else only within its kind.  What
is not a number equals nothing, but is found again where it was stored itself.

A text may have halves of surrogate pairs in it, as JSON can write them.  Such a text is
of the same kind as any other, and equal to none but itself.

A document may use one part of its data in several places, and a part may hold
itself.  Such data is a graph of cells, and a `Value.part` is what hangs on one of
them.
-/
import Scorecard.Number.Binary64
import Scorecard.Text.Point
import Scorecard.Timestamp

namespace Scorecard

/-- A cell of a graph: a value that has no parts, or a list or record of the cells at
other places. -/
inductive Cell (α : Type) where
  | leaf (v : α)
  | list (items : List Nat)
  | record (entries : List (Nat × Nat))

/-- Data of any shape. -/
inductive Value where
  | null
  | bool (b : Bool)
  | int (n : Int)
  | float (x : Float)
  /-- Not a number, and which one of those. -/
  | nan (which : Nat)
  | str (s : String)
  /-- Text that a half of a surrogate pair stands in. -/
  | broken (text : BrokenText)
  | bytes (octets : List UInt8)
  | list (items : List Value)
  | tuple (items : List Value)
  | record (entries : List (Value × Value))
  | date (t : Timestamp)
  /-- What hangs on the cell at a place of a graph. -/
  | part (graph : Array (Cell Value)) (place : Nat)
  /-- The list or record around it once more, in data that has been spelt out. -/
  | loop (isRecord : Bool)

namespace Value

instance : Inhabited Value := ⟨.null⟩

/-! ### Texts -/

/-- The text of points. -/
def ofPoints (points : List Point) : Value :=
  match h : Point.chars? points with
  | some chars => .str (String.ofList chars)
  | none => .broken ⟨points, h⟩

/-- The text of points, the replacement character in the place of every half. -/
def ofShown (points : List Point) : Value :=
  .str (String.ofList (points.map Point.shown))

@[simp] theorem ofPoints_map_char (chars : List Char) :
    ofPoints (chars.map .char) = .str (String.ofList chars) := by
  unfold ofPoints
  split
  · rename_i h
    rw [Point.chars?_map_char] at h
    cases h
    rfl
  · rename_i h
    rw [Point.chars?_map_char] at h
    cases h

@[simp] theorem ofShown_map_char (chars : List Char) :
    ofShown (chars.map .char) = .str (String.ofList chars) := by
  rw [ofShown, Point.map_shown_char]

/-! ### Graphs -/

/-- The cell at a place as a value.  A date, a list or a record can be told from
others that are equal to it, so it remains a part. -/
def ofCell (graph : Array (Cell Value)) (place : Nat) : Value :=
  match graph[place]? with
  | some (.leaf (.date _)) => .part graph place
  | some (.leaf v) => v
  | _ => .part graph place

/-- A value without the knowledge of its graph, as far as its own kind goes; what it
holds may be parts again. -/
def surface : Value → Value
  | .part graph place =>
    match graph[place]? with
    | some (.leaf v) => v
    | some (.list items) => .list (items.map (ofCell graph))
    | some (.record entries) => .record (entries.map fun (k, v) => (ofCell graph k, ofCell graph v))
    | none => .null
  | v => v

/-- The date that a value is. -/
def date? (v : Value) : Option Timestamp :=
  match v.surface with
  | .date t => some t
  | _ => none

/-! ### Kinds -/

/-- How a message names the kind of a value. -/
def kindName (v : Value) : String :=
  match v.surface with
  | .null => "NoneType"
  | .bool _ => "bool"
  | .int _ => "int"
  | .float _ => "float"
  | .nan _ => "float"
  | .str _ => "str"
  | .broken _ => "str"
  | .bytes _ => "bytes"
  | .list _ => "list"
  | .tuple _ => "tuple"
  | .record _ => "dict"
  | .date t => if t.time.isSome then "datetime" else "date"
  | .part _ _ => "object"
  | .loop isRecord => if isRecord then "dict" else "list"

/-- Empty, zero, false and null count as absent where a default stands ready. -/
def isEmpty (v : Value) : Bool :=
  match v.surface with
  | .null => true
  | .bool b => !b
  | .int n => n == 0
  | .float x => x == 0.0
  | .str s => s.isEmpty
  | .bytes bs => bs.isEmpty
  | .list xs => xs.isEmpty
  | .tuple xs => xs.isEmpty
  | .record es => es.isEmpty
  | _ => false

/-! ### Keys -/

mutual

/-- Only values that cannot change can be keys: no list or record, at any depth. -/
def canBeKey : Value → Bool
  | .list _ => false
  | .record _ => false
  | .tuple items => canAllBeKeys items
  | .part graph place => graph[place]?.any (· matches .leaf _)
  | .loop _ => false
  | _ => true

/-- Every item can be a key. -/
def canAllBeKeys : List Value → Bool
  | [] => true
  | x :: xs => canBeKey x && canAllBeKeys xs

end

/-- The integer that a boolean or an integer is. -/
def integer? : Value → Option Int
  | .bool b => some (if b then 1 else 0)
  | .int n => some n
  | _ => none

/-- Numbers compared by exact value, whatever their kinds; nothing if one of the two
is not a number. -/
def compareNumbers? : Value → Value → Option Ordering
  | .float x, .float y =>
    if x == y then some .eq else if x < y then some .lt else if y < x then some .gt else none
  | .float x, b => b.integer?.bind (Binary64.compareInt? x)
  | a, .float y => a.integer?.bind fun n => (Binary64.compareInt? y n).map Ordering.swap
  | a, b => a.integer?.bind fun m => b.integer?.map fun n => compare m n

mutual

/-- Equal as data.  Parts are equal only as dates; lists and records are compared
where they are spelt out. -/
def same : Value → Value → Bool
  | .null, .null => true
  | .str s, .str t => s == t
  | .broken s, .broken t => s == t
  | .bytes s, .bytes t => s == t
  | .nan m, .nan n => m == n
  | .list xs, .list ys => sameItems xs ys
  | .tuple xs, .tuple ys => sameItems xs ys
  | .record es, .record fs => es.length == fs.length && eachIn es fs
  | a, b =>
    match a.date?, b.date? with
    | some s, some t => s.same t
    | _, _ => compareNumbers? a b == some .eq

/-- Equal item by item. -/
def sameItems : List Value → List Value → Bool
  | [], [] => true
  | x :: xs, y :: ys => same x y && sameItems xs ys
  | _, _ => false

/-- Every entry of the first is in the second. -/
def eachIn : List (Value × Value) → List (Value × Value) → Bool
  | [], _ => true
  | (k, v) :: es, fs => fs.any (fun (k', v') => same k k' && same v v') && eachIn es fs

end

@[simp] theorem same_str (s t : String) : same (.str s) (.str t) = (s == t) := by
  simp [same]

/-! ### Records

A record's entries, as a list of pairs.  Storing under a key that is there already
replaces the value and leaves the entry where it is.
-/

/-- The value under a key. -/
def lookup? (entries : List (Value × Value)) (key : Value) : Option Value :=
  (entries.find? fun (k, _) => k.same key).map (·.2)

/-- The value under a key that is text. -/
def field? (entries : List (Value × Value)) (name : String) : Option Value :=
  lookup? entries (.str name)

/-- The key has an entry. -/
def hasKey (entries : List (Value × Value)) (key : Value) : Bool :=
  entries.any fun (k, _) => k.same key

/-- Store a value under a key. -/
def store : (entries : List (Value × Value)) → (key value : Value) → List (Value × Value)
  | [], key, value => [(key, value)]
  | (k, v) :: rest, key, value =>
    if k.same key then (k, value) :: rest else (k, v) :: store rest key value

/-- Store entries one after the other, so that the last of each key counts. -/
def storeAll (entries : List (Value × Value)) : List (Value × Value) :=
  entries.foldl (fun stored (key, value) => store stored key value) []

/-- The distinct values of a list, in order of first appearance. -/
def distinct (items : List Value) : List Value :=
  items.foldl (fun seen x => if seen.any (·.same x) then seen else seen ++ [x]) []

end Value

end Scorecard
