/-
What a tree consists of: its depth, its nodes, and the names that it uses.

A leaf has depth one, and so has a call without arguments.  A gap counts for nothing.
-/
import Scorecard.Fault
import Scorecard.Formula.Expr

namespace Scorecard.Expr

mutual

/-- The number of nodes on the longest path from the root. -/
def depth : Expr → Nat
  | .missing => 0
  | .number _ _ => 1
  | .variable _ _ => 1
  | .negate operand _ => 1 + operand.depth
  | .binary _ left right _ => 1 + max left.depth right.depth
  | .call _ arguments _ => 1 + greatestDepth arguments

/-- The greatest depth among trees. -/
def greatestDepth : List Expr → Nat
  | [] => 0
  | e :: es => max e.depth (greatestDepth es)

end

mutual

/-- The number of nodes. -/
def nodes : Expr → Nat
  | .missing => 0
  | .number _ _ => 1
  | .variable _ _ => 1
  | .negate operand _ => 1 + operand.nodes
  | .binary _ left right _ => 1 + left.nodes + right.nodes
  | .call _ arguments _ => 1 + allNodes arguments

/-- The number of nodes of all trees. -/
def allNodes : List Expr → Nat
  | [] => 0
  | e :: es => e.nodes + allNodes es

end

mutual

/-- Every occurrence of a variable, from left to right. -/
def variableOccurrences : Expr → List Value
  | .missing => []
  | .number _ _ => []
  | .variable name _ => [name]
  | .negate operand _ => operand.variableOccurrences
  | .binary _ left right _ => left.variableOccurrences ++ right.variableOccurrences
  | .call _ arguments _ => allVariableOccurrences arguments

/-- Every occurrence of a variable in trees, from left to right. -/
def allVariableOccurrences : List Expr → List Value
  | [] => []
  | e :: es => e.variableOccurrences ++ allVariableOccurrences es

end

mutual

/-- Every occurrence of a called function, from left to right. -/
def callOccurrences : Expr → List Value
  | .missing => []
  | .number _ _ => []
  | .variable _ _ => []
  | .negate operand _ => operand.callOccurrences
  | .binary _ left right _ => left.callOccurrences ++ right.callOccurrences
  | .call name arguments _ => name :: allCallOccurrences arguments

/-- Every occurrence of a called function in trees, from left to right. -/
def allCallOccurrences : List Expr → List Value
  | [] => []
  | e :: es => e.callOccurrences ++ allCallOccurrences es

end

/-- The variables that a tree refers to, each once. -/
def variableNames (e : Expr) : List Value :=
  Value.distinct e.variableOccurrences

/-- The functions that a tree calls, each once. -/
def functionNames (e : Expr) : List Value :=
  Value.distinct e.callOccurrences

end Scorecard.Expr

namespace Scorecard

/-- The measures of a formula. -/
structure Metrics where
  depth : Nat
  nodes : Nat
  variableNames : List Value
  functionNames : List Value

/-- The measures of a tree, whose names must be fit to be collected. -/
def Expr.metrics (e : Expr) : Except Fault Metrics :=
  if (e.variableOccurrences ++ e.callOccurrences).all Value.canBeKey then
    .ok ⟨e.depth, e.nodes, e.variableNames, e.functionNames⟩
  else .error .wrongKind

end Scorecard
