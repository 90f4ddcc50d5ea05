/-
Questionnaires.

A questionnaire names variables and questions and offers possible answers, each with
a formula.  Names, texts and formulas are what the document holds; only identifiers
of possible answers are known to be text.
-/
import Scorecard.Session

namespace Scorecard

/-- A variable that formulas may use. -/
structure Variable where
  name : Value
  description : Value

/-- A question. -/
structure Question where
  name : Value
  text : Value

/-- A questionnaire. -/
structure Questionnaire where
  name : Value
  declaredVariables : List Variable
  questions : List Question
  possibleAnswers : List PossibleAnswer
  metadata : Value

namespace Questionnaire

/-- The value is the one that is asked for.  What is asked for as text is only compared
with text. -/
def isAskedFor (v asked : Value) : Bool :=
  match asked with
  | .str _ => v.surface.same asked
  | _ => v.unfolded.same asked

/-- The first variable of a name. -/
def findVariable? (q : Questionnaire) (name : Value) : Option Variable :=
  q.declaredVariables.find? (isAskedFor ·.name name)

/-- The first question of a name. -/
def findQuestion? (q : Questionnaire) (name : Value) : Option Question :=
  q.questions.find? (isAskedFor ·.name name)

/-- The first possible answer with an identifier. -/
def findPossibleAnswer? (q : Questionnaire) (id : String) : Option PossibleAnswer :=
  q.possibleAnswers.find? (·.id == id)

/-- The possible answers of a question, in order. -/
def answersFor (q : Questionnaire) (question : Value) : List PossibleAnswer :=
  q.possibleAnswers.filter (isAskedFor ·.question question)

end Questionnaire

end Scorecard
