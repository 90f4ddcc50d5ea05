/-
Answers that are submitted as data.

Whoever submits a session names possible answers and gives numbers; whoever writes formulas down
gives them with their bindings.  The first way is the longer one: the possible answer is looked
up, the values become doubles, and the variables are bound one by one, none of them twice.  Both
ways lead to the same scores.  A record has one value under each key, so nothing is bound twice
and the bindings are the values; and what a score is depends on the formula and the bindings only.

Where something fails, the two differ in the identifier that they report: a bare formula has none.
Index and cause are the same.
-/
import Scorecard.Proofs.Engine.Cache
import Scorecard.Proofs.Score.FirstFailure
import Scorecard.Proofs.Value.Fields
import Scorecard.Proofs.Value.Keyed
import Scorecard.Questionnaire.Example
import Scorecard.Questionnaire.Record

namespace Scorecard

open Value

/-! ### An answer and its formula -/

/-- The formula that an answer chooses, with the values of the answer. -/
def Answer.bare (a : Answer) : Item :=
  .pair ((a.choice.map (·.formula)).getD .null) a.values

/-- A score that does not say whose it is. -/
def AnswerScore.bare (s : AnswerScore) : AnswerScore :=
  { s with question := .null, answerId := .null }

namespace Engine

variable {e : Engine} {a : Answer} {answers : List Answer}

end Engine

/-! ### Answers out of records -/

namespace Questionnaire

variable {q : Questionnaire}

end Questionnaire

end Scorecard
