/-
Expressions: formulas as trees.

A tree from a formula's text has names that are text, a place at every node and no
gaps.  A tree from stored data may lack nodes, has no places, and may carry any
value for a name; what is wrong with it shows when it is used.
-/
import Scorecard.Value

namespace Scorecard

/-- The four operators between two operands. -/
inductive BinaryOp where
  | add
  | subtract
  | multiply
  | divide
deriving DecidableEq

namespace BinaryOp

/-- How an operator is written. -/
def symbol : BinaryOp → String
  | .add => "+"
  | .subtract => "-"
  | .multiply => "*"
  | .divide => "/"

/-- Multiplication and division bind tighter. -/
def precedence : BinaryOp → Nat
  | .add => 1
  | .subtract => 1
  | .multiply => 2
  | .divide => 2

/-- The operator that is written so. -/
def ofSymbol? (symbol : String) : Option BinaryOp :=
  [BinaryOp.add, .subtract, .multiply, .divide].find? (·.symbol == symbol)

end BinaryOp

/-- How the sign in front of an operand is written. -/
def negationSymbol : String := "-"

/-- A formula as a tree. -/
inductive Expr where
  | missing
  | number (value : Float) (position : Option Nat)
  | variable (name : Value) (position : Option Nat)
  | negate (operand : Expr) (position : Option Nat)
  | binary (op : BinaryOp) (left right : Expr) (position : Option Nat)
  | call (name : Value) (arguments : List Expr) (position : Option Nat)

namespace Expr

mutual

/-- Equal trees, wherever their nodes stand in a text.  Numbers are compared as
numbers: the two zeros are equal, and no number equals nothing. -/
def same : Expr → Expr → Bool
  | .missing, .missing => true
  | .number x _, .number y _ => x == y
  | .variable m _, .variable n _ => m.same n
  | .negate a _, .negate b _ => same a b
  | .binary o a b _, .binary p c d _ => o == p && same a c && same b d
  | .call m as _, .call n bs _ => m.same n && sameAll as bs
  | _, _ => false

/-- Equal tree by tree. -/
def sameAll : List Expr → List Expr → Bool
  | [], [] => true
  | a :: as, b :: bs => same a b && sameAll as bs
  | _, _ => false

end

mutual

/-- The same tree without places. -/
def withoutPositions : Expr → Expr
  | .missing => .missing
  | .number x _ => .number x none
  | .variable n _ => .variable n none
  | .negate a _ => .negate a.withoutPositions none
  | .binary o a b _ => .binary o a.withoutPositions b.withoutPositions none
  | .call n as _ => .call n (allWithoutPositions as) none

/-- The same trees without places. -/
def allWithoutPositions : List Expr → List Expr
  | [] => []
  | a :: as => a.withoutPositions :: allWithoutPositions as

end

end Expr

end Scorecard
