/-
An example questionnaire with three questions, and a session that answers it.

    floor(40 / n) * dist     n = 5, dist = 3          24
    round(sin(x * y) / 2)    x = 3.5, y = -2.5         0
    -1 * ceil(0.3 * x)       x = 100.001             -31
                                            total     -7
-/
import Scorecard.Questionnaire

namespace Scorecard.Questionnaire

/-- Names as values. -/
private def names (xs : List String) : List Value :=
  xs.map .str

/-- The example questionnaire. -/
def sample : Questionnaire where
  name := .str "Example Energy Questionnaire"
  questions :=
    [⟨.str "Commute", .str "How far do you commute, and how often per week?"⟩,
     ⟨.str "Appliances", .str "How do you use your appliances?"⟩,
     ⟨.str "Heating", .str "What is your heated living area?"⟩]
  possibleAnswers :=
    [⟨"commute-car", .str "Commute", .str "floor(40 / n) * dist", names ["n", "dist"]⟩,
     ⟨"appliances-mixed", .str "Appliances", .str "round(sin(x * y) / 2)", names ["x", "y"]⟩,
     ⟨"heating-solar", .str "Heating", .str "-1 * ceil(0.3 * x)", names ["x"]⟩]
  declaredVariables :=
    [⟨.str "n", .str "Trips per week"⟩,
     ⟨.str "dist", .str "Distance per trip (km)"⟩,
     ⟨.str "x", .str "First scale factor"⟩,
     ⟨.str "y", .str "Second scale factor"⟩]
  metadata := .record [(.str "source", .str "reference calculation")]

/-- An answer of the example session. -/
def sampleAnswer (q : Questionnaire) (id choice : String) (values : List (String × Float)) : Item :=
  .answer ⟨q.findPossibleAnswer? choice, values.map fun (name, x) => (.str name, .float x), .str id⟩

/-- The example session, answering whatever questionnaire has the example's
possible answers. -/
def sampleSession (q : Questionnaire) : Session where
  id := .str "example-session"
  items :=
    [q.sampleAnswer "a1" "commute-car" [("n", 5.0), ("dist", 3.0)],
     q.sampleAnswer "a2" "appliances-mixed" [("x", 3.5), ("y", -2.5)],
     q.sampleAnswer "a3" "heating-solar" [("x", 100.001)]]

end Scorecard.Questionnaire
