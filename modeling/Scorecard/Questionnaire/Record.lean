/-
Questionnaires and sessions as data.

A record of a questionnaire may leave out almost everything; what is left out is
empty.  A possible answer must have an identifier, which becomes text whatever it
was, a question and a formula.  A session refers to possible answers by their
identifiers, and each must exist.
-/
import Scorecard.Questionnaire
import Scorecard.Value.Field

namespace Scorecard

namespace Variable

/-- A variable as data. -/
def toValue (v : Variable) : Value :=
  .record [(.str "name", v.name), (.str "description", v.description)]

/-- The variable that a value describes. -/
def ofValue (v : Value) : Except Fault Variable := do
  let es ← v.indexed
  .ok ⟨← Value.requiredField es "name", Value.fieldOr es "description" .null⟩

end Variable

namespace Question

/-- A question as data. -/
def toValue (q : Question) : Value :=
  .record [(.str "name", q.name), (.str "text", q.text)]

/-- The question that a value describes. -/
def ofValue (v : Value) : Except Fault Question := do
  let es ← v.indexed
  .ok ⟨← Value.requiredField es "name", Value.fieldOr es "text" (.str "")⟩

end Question

namespace PossibleAnswer

/-- A possible answer as data. -/
def toValue (p : PossibleAnswer) : Value :=
  .record
    [(.str "id", .str p.id),
     (.str "question", p.question),
     (.str "formula", p.formula),
     (.str "variables", .list p.variableNames)]

/-- The identifier of a possible answer; one with half of a pair in it is refused. -/
def readId (v : Value) : Except Fault String := do
  match ← v.identifier? with
  | some id => .ok id
  | none => .error .meaningless

/-- The possible answer that a value describes. -/
def ofValue (v : Value) : Except Fault PossibleAnswer := do
  let es ← v.indexed
  let id ← readId (← Value.requiredField es "id")
  let question ← Value.requiredField es "question"
  let formula ← Value.requiredField es "formula"
  let names ← (Value.fieldOr es "variables" (.list [])).members
  .ok ⟨id, question, formula, names⟩

end PossibleAnswer

namespace Questionnaire

/-- A questionnaire as data. -/
def toValue (q : Questionnaire) : Value :=
  .record
    [(.str "name", q.name),
     (.str "variables", .list (q.declaredVariables.map (·.toValue))),
     (.str "questions", .list (q.questions.map (·.toValue))),
     (.str "possible_answers", .list (q.possibleAnswers.map (·.toValue))),
     (.str "metadata", q.metadata)]

/-- The questionnaire that a value describes. -/
def ofValue (v : Value) : Except Fault Questionnaire := do
  let es ← v.entries
  let read {α : Type} (field : String) (one : Value → Except Fault α) : Except Fault (List α) := do
    (← (Value.fieldOr es field (.list [])).members).mapM one
  let declared ← read "variables" Variable.ofValue
  let questions ← read "questions" Question.ofValue
  let possibleAnswers ← read "possible_answers" PossibleAnswer.ofValue
  .ok
    { name := Value.fieldOr es "name" (.str "")
      declaredVariables := declared, questions, possibleAnswers
      metadata := Value.fieldOr es "metadata" (.record []) }

/-! ### Sessions -/

/-- The answer that a value describes, its choice looked up in the questionnaire. -/
def readAnswer (q : Questionnaire) (v : Value) : Except Fault Answer := do
  let es ← v.indexed
  let id ← Value.requiredField es "possible_answer"
  match (← id.identifier?).bind q.findPossibleAnswer? with
  | none => .error (.unknownChoice id)
  | some choice =>
    let given ← (Value.fieldOr es "values" (.record [])).entries
    .ok ⟨some choice, ← Value.readNumbers given, Value.fieldOr es "id" .null⟩

/-- The answers and the identifier of the session that a value describes. -/
def readSession (q : Questionnaire) (v : Value) : Except Fault (List Answer × Value) := do
  let es ← v.entries
  let answers ← (← (Value.fieldOr es "answers" (.list [])).members).mapM q.readAnswer
  .ok (answers, Value.fieldOr es "id" .null)

end Questionnaire

end Scorecard
