/-
Questionnaires as JSON.

A questionnaire is written as its data is, with the keys in order, and read as what its data
describes.  Half of a surrogate pair without its other half is read as the replacement
character.
-/
import Scorecard.Json.Readable
import Scorecard.Json.Reader
import Scorecard.Questionnaire.Record

namespace Scorecard.Questionnaire

/-- A questionnaire as JSON. -/
def toJson (q : Questionnaire) : Except Fault String :=
  q.toValue.readable

/-- The questionnaire that a text describes in JSON. -/
def ofJson (text : String) : Except Fault Questionnaire := do
  ofValue (← Json.read Value.ofShown text.toList)

end Scorecard.Questionnaire
