/-
Answers and sessions.

A possible answer belongs to a question and carries the formula that scores it.  An
answer is the choice of one of them together with values for its variables.  A
session is what one respondent gave, in order: answers, or bare formulas with their
bindings.  What was not checked when it came in is still a `Value` here.
-/
import Scorecard.Formula.Evaluation

namespace Scorecard

/-- One selectable answer of a question. -/
structure PossibleAnswer where
  id : String
  question : Value
  formula : Value
  variableNames : List Value

/-- A respondent's answer; the choice is missing when nothing had the identifier
that was asked for. -/
structure Answer where
  choice : Option PossibleAnswer
  values : List (Value × Value)
  id : Value

/-- Bind one more variable, which must not be bound yet. -/
def bindVariable (bound : Bindings) (entry : Value × Value) : Except Failure Bindings :=
  if !entry.1.canBeKey then .error (.fault .wrongKind)
  else if Value.hasKey bound entry.1 then .error (.formula (.boundTwice entry.1))
  else
    match entry.2.toFloat with
    | .ok x => .ok (bound ++ [(entry.1, .float x)])
    | .error f => .error (.fault f)

/-- The variables of an answer, each bound to a double, in the order given. -/
def Answer.bindings (a : Answer) : Except Failure Bindings :=
  a.values.foldlM bindVariable []

/-- What can be scored: a formula with its bindings, or an answer. -/
inductive Item where
  | pair (formula : Value) (bindings : Bindings)
  | answer (a : Answer)

/-- The identifier under which a failure of the item is reported. -/
def Item.id : Item → Value
  | .pair _ _ => .null
  | .answer a => a.id

/-- What one respondent gave, in order. -/
structure Session where
  id : Value
  items : List Item

/-- The identifier to record a score under: the one given, or else the session's own. -/
def Session.recordedId (s : Session) : (given : Value) → Value
  | .null => s.id
  | given => given

end Scorecard
