/-
Scores of answers and sessions.

A session's score is its answers' scores in order.  The total is not stored but
added up whenever it is asked for, from left to right, so it cannot disagree with
the answers.  The breakdown adds up the same values for each question.
-/
import Scorecard.Fault
import Scorecard.Formula.Evaluation

namespace Scorecard

/-- The score of one answer, with all that went into it. -/
structure AnswerScore where
  formula : Value
  bindings : Bindings
  value : Float
  question : Value
  answerId : Value

/-- The scores of a session's answers, in order. -/
structure SessionScore where
  answers : List AnswerScore
  sessionId : Value

/-- Doubles added up from left to right, from zero on. -/
def addUp (values : List Float) : Float :=
  values.foldl (· + ·) 0.0

namespace SessionScore

/-- The value of each answer. -/
def scores (s : SessionScore) : List Float :=
  s.answers.map (·.value)

/-- The sum of all values. -/
def total (s : SessionScore) : Float :=
  addUp s.scores

/-! ### Breakdown -/

/-- The name under which a question's values are added up; without a question they
are added up under the empty name. -/
def groupOf (question : Value) : Value :=
  if question.isEmpty then .str "" else question

/-- Add a value to the subtotal of a group, which starts at zero. -/
def addTo (group : Value) (x : Float) : List (Value × Float) → List (Value × Float)
  | [] => [(group, 0.0 + x)]
  | (g, subtotal) :: rest =>
    if g.same group then (g, subtotal + x) :: rest else (g, subtotal) :: addTo group x rest

/-- Add one answer to the subtotals. -/
def addAnswer (subtotals : List (Value × Float)) (a : AnswerScore) : Except Fault (List (Value × Float)) :=
  let group := groupOf a.question
  if group.canBeKey then .ok (addTo group a.value subtotals) else .error .wrongKind

/-- The subtotal of each question, in order of first appearance. -/
def breakdown (s : SessionScore) : Except Fault (List (Value × Float)) :=
  s.answers.foldlM addAnswer []

end SessionScore

end Scorecard
