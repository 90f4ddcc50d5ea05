/-
From a tree and values for its variables to a number.

Operands and arguments are evaluated from left to right, and the first failure ends
it.  Every step must give a finite number: an infinity or no number is an error of
the node that produced it and is carried no further.  A negation needs no check, for
it is finite when its operand is.
-/
import Scorecard.Formula.Error
import Scorecard.Formula.Expr
import Scorecard.Formula.Registry
import Scorecard.Value.Number

namespace Scorecard

/-- Values for variables, one for each name, in the order in which they came. -/
abbrev Bindings := List (Value × Value)

/-- The number that an operator makes of two. -/
def BinaryOp.apply : BinaryOp → Float → Float → Float
  | .add, a, b => a + b
  | .subtract, a, b => a - b
  | .multiply, a, b => a * b
  | .divide, a, b => a / b

/-- The function that a name of any kind stands for; only text is a name. -/
def Registry.findNamed? (r : Registry) : Value → Option Function
  | .str name => r.find? name
  | _ => none

namespace Expr

/-- An evaluation error as a failure. -/
def failWith (e : EvalError) : Except Failure Float :=
  .error (.formula (.eval e))

/-- A finite number, or the error of the node that produced another. -/
def finite (what : EvalError.Producer) (position : Option Nat) (x : Float) : Except Failure Float :=
  if Binary64.isFinite x then .ok x else failWith (.notFinite what x position)

/-- The value of a variable. -/
def evaluateVariable (bindings : Bindings) (name : Value) (position : Option Nat) : Except Failure Float :=
  if name.canBeKey then
    match Value.lookup? bindings name with
    | none => failWith (.unknownVariable name position)
    | some value =>
      match value.toFloat with
      | .ok x => finite (.variable name) position x
      | .error f => .error (.fault f)
  else .error (.fault .wrongKind)

/-- The result of an operator on two finite numbers. -/
def applyOp (op : BinaryOp) (position : Option Nat) (a b : Float) : Except Failure Float :=
  if op = .divide ∧ b == 0.0 then failWith (.divisionByZero position)
  else finite (.operator op.symbol) position (op.apply a b)

/-- The result of a function on finite numbers. -/
def applyFunction (function : Function) (name : Value) (position : Option Nat) (arguments : List Float) :
    Except Failure Float :=
  match function.rule arguments with
  | .ok x => finite (.function name) position x
  | .error (.failed reason) => failWith (.failed name reason position)
  | .error .misapplied => .error (.fault .wrongKind)

mutual

/-- The number that a tree stands for. -/
def evaluate (registry : Registry) (bindings : Bindings) : Expr → Except Failure Float
  | .missing => .error (.fault .wrongKind)
  | .number x position => finite .literal position x
  | .variable name position => evaluateVariable bindings name position
  | .negate operand _ =>
    match evaluate registry bindings operand with
    | .error e => .error e
    | .ok x => .ok (-x)
  | .binary op left right position =>
    match evaluate registry bindings left with
    | .error e => .error e
    | .ok a =>
      match evaluate registry bindings right with
      | .error e => .error e
      | .ok b => applyOp op position a b
  | .call name arguments position =>
    if name.canBeKey then
      match registry.findNamed? name with
      | none => failWith (.notRegistered name position)
      | some function =>
        match evaluateAll registry bindings arguments with
        | .error e => .error e
        | .ok xs => applyFunction function name position xs
    else .error (.fault .wrongKind)

/-- The numbers that trees stand for, from left to right. -/
def evaluateAll (registry : Registry) (bindings : Bindings) : List Expr → Except Failure (List Float)
  | [] => .ok []
  | e :: es =>
    match evaluate registry bindings e with
    | .error e => .error e
    | .ok x =>
      match evaluateAll registry bindings es with
      | .error e => .error e
      | .ok xs => .ok (x :: xs)

end

end Expr

end Scorecard
