/-
Functions that a formula may call.

A function is a name, the exact number of its arguments, and a rule.  A rule may
refuse its arguments with a reason, which is an error of the formula, or be unable
to take so many of them at all, which is a fault of whoever registered it.

A registry holds one function for each name, in the order in which the names first
came.  Registering a name again replaces the function and keeps its place.
-/
import Scorecard.Fault
import Scorecard.Number.Integral

namespace Scorecard

/-- Why a rule gives no number. -/
inductive Refusal where
  /-- The arguments have no result. -/
  | failed (reason : String)
  /-- The rule cannot be applied to so many arguments, or not at all. -/
  | misapplied

/-- What a function does with its arguments. -/
abbrev Rule := List Float → Except Refusal Float

namespace Rule

/-- A rule without arguments. -/
def constant (x : Float) : Rule
  | [] => .ok x
  | _ => .error .misapplied

/-- A rule of one argument. -/
def unary (f : Float → Float) : Rule
  | [x] => .ok (f x)
  | _ => .error .misapplied

/-- A rule of two arguments. -/
def binary (f : Float → Float → Float) : Rule
  | [x, y] => .ok (f x y)
  | _ => .error .misapplied

/-- A rule of three arguments. -/
def ternary (f : Float → Float → Float → Float) : Rule
  | [x, y, z] => .ok (f x y z)
  | _ => .error .misapplied

/-- A rule of one argument that refuses it, for a reason, unless `accepts` it. -/
def guarded (accepts : Float → Bool) (reason : String) (f : Float → Float) : Rule
  | [x] => if accepts x then .ok (f x) else .error (.failed reason)
  | _ => .error .misapplied

end Rule

/-- A function that a formula may call. -/
structure Function where
  name : String
  arity : Int
  rule : Rule

/-- The functions of an engine, one for each name. -/
structure Registry where
  functions : List Function

namespace Registry

/-- No function at all. -/
def empty : Registry := ⟨[]⟩

/-- The function of a name. -/
def find? (r : Registry) (name : String) : Option Function :=
  r.functions.find? (·.name == name)

/-- The names, in the order in which they first came. -/
def names (r : Registry) : List String :=
  r.functions.map (·.name)

/-- Put a function in the place of its namesake, or at the end. -/
def put (f : Function) : List Function → List Function
  | [] => [f]
  | g :: rest => if g.name == f.name then f :: rest else g :: put f rest

/-- Register a function. -/
def insert (r : Registry) (f : Function) : Except Fault Registry :=
  if f.arity < 0 then .error (.negativeArity f.name) else .ok ⟨put f r.functions⟩

/-- Register functions one after the other. -/
def extend (r : Registry) (functions : List Function) : Except Fault Registry :=
  functions.foldlM insert r

/-- The registry of these functions. -/
def ofList (functions : List Function) : Except Fault Registry :=
  empty.extend functions

/-- The registry's own text: its names in alphabetical order. -/
def text (r : Registry) : String :=
  let sorted := r.names.mergeSort fun a b => !(b < a)
  s!"FunctionRegistry({(Value.list (sorted.map .str)).literal})"

/-- The functions that every formula may call unless others are given. -/
def standard : Registry where
  functions :=
    [⟨"floor", 1, Rule.unary Binary64.floor⟩,
     ⟨"ceil", 1, Rule.unary Binary64.ceil⟩,
     ⟨"round", 1, Rule.unary Binary64.roundHalfAway⟩,
     ⟨"sin", 1, Rule.unary Float.sin⟩]

end Registry

end Scorecard
