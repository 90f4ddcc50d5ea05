/-
Scores as data.

A session's record lists the values and states the total beside the answers, for
whoever reads it without adding up.  Reading it back ignores the list of values, adds
up the answers again, and refuses a total that is not theirs.
-/
import Scorecard.Score
import Scorecard.Value.Field

namespace Scorecard

namespace AnswerScore

/-- An answer's score as data. -/
def toValue (a : AnswerScore) : Value :=
  .record
    [(.str "answer_id", a.answerId),
     (.str "question", a.question),
     (.str "formula", a.formula),
     (.str "bindings", .record a.bindings),
     (.str "value", .float a.value)]

/-- The answer's score that a value describes. -/
def ofValue (v : Value) : Except Fault AnswerScore := do
  let es ← v.indexed
  let formula ← Value.requiredField es "formula"
  let given ← (Value.fieldOr es "bindings" (.record [])).entries
  let bindings ← Value.readNumbers given
  let value ← (← Value.requiredField es "value").toFloat
  .ok
    { formula, bindings, value
      question := Value.fieldOr es "question" .null
      answerId := Value.fieldOr es "answer_id" .null }

end AnswerScore

namespace SessionScore

/-- A session's score as data. -/
def toValue (s : SessionScore) : Value :=
  .record
    [(.str "session_id", s.sessionId),
     (.str "answers", .list (s.answers.map (·.toValue))),
     (.str "scores", .list (s.scores.map .float)),
     (.str "total", .float s.total)]

/-- A stored total must be the sum of the answers; none need be stored. -/
def checkTotal (stored : Value) (s : SessionScore) : Except Fault Unit :=
  match stored with
  | .null => .ok ()
  | _ => do
    let x ← stored.toFloat
    if x == s.total then .ok () else .error (.totalMismatch stored s.total)

/-- The session's score that a value describes. -/
def ofValue (v : Value) : Except Fault SessionScore := do
  let es ← v.entries
  let answers ← (← (Value.fieldOr es "answers" (.list [])).members).mapM AnswerScore.ofValue
  let score : SessionScore := ⟨answers, Value.fieldOr es "session_id" .null⟩
  checkTotal (Value.fieldOr es "total" .null) score
  .ok score

end SessionScore

end Scorecard
