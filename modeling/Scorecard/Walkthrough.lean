/-
A walk through all that the library does.

The example questionnaire is reported on, the example session is scored, and the
score is sealed, opened again, and shown to be safe from tampering.  The walk ends
early, and with another code, where the settings keep the session from being scored;
without a key it ends before sealing.
-/
import Scorecard.Engine
import Scorecard.Envelope
import Scorecard.Questionnaire.Example
import Scorecard.Questionnaire.Report

namespace Scorecard

/-- What a walk printed, line by line, and the code with which it ended. -/
structure Walkthrough where
  lines : List String
  code : Nat

namespace Walkthrough

/-- The line above and below the title. -/
def rule : String :=
  String.ofList (List.replicate 80 '=')

/-- How wide formulas are set. -/
def formulaWidth : Nat := 28

/-- Text with blanks behind it up to a width. -/
def padded (width : Nat) (text : String) : String :=
  text ++ String.ofList (List.replicate (width - text.length) ' ')

/-- How much of a token is shown. -/
def shownToken : Nat := 60

/-- A token with its last character but one changed. -/
def tampered (token : String) : String :=
  match token.toList.reverse with
  | last :: c :: rest => String.ofList (rest.reverse ++ [if c = 'A' then 'B' else 'A', last])
  | _ => token

/-- The first step: what the report says. -/
def reportLines (r : Report) : List String :=
  let usage := Value.record (r.functionUsage.map fun (name, count) => (.str name, .int count))
  [s!"   ✓ Questions: {r.questions}",
   s!"   ✓ Possible answers: {r.possibleAnswers}",
   s!"   ✓ Max formula depth: {r.maxDepth}",
   s!"   ✓ Functions used: {usage.literal}"] ++
  r.warnings.map fun warning => s!"      - {warning}"

/-- The line of one answer. -/
def answerLine (a : AnswerScore) : String :=
  let formula := padded formulaWidth a.formula.display
  let bindings := (Value.record a.bindings).literal
  s!"   {a.answerId.display}: {formula} {bindings} -> {briefText a.value}"

/-- The second step: what the session scored. -/
def scoreLines (s : SessionScore) : Except Fault (List String) := do
  let breakdown := Value.record ((← s.breakdown).map fun (question, x) => (question, .float x))
  .ok (s.answers.map answerLine ++
    [s!"   ✓ Total: {briefText s.total}", s!"   ✓ Breakdown: {breakdown.literal}"])

/-- What became of a token that was tampered with. -/
def tamperedLines (signer : Signer) (token : String) : Except Fault (List String) :=
  match signer.readToken (.str (tampered token)) with
  | .error (.integrity e) => .ok [s!"   ✓ Tampered token rejected: {e.kind.text}"]
  | .error (.fault f) => .error f
  | .ok _ => .ok []

/-- The third step: the score sealed and opened again. -/
def sealLines (signer : Signer) (s : SessionScore) : Except Fault (List String) := do
  let token := (← signer.signScore s).token
  let shown := String.ofList (token.toList.take shownToken)
  let verified :=
    match Envelope.ofToken token with
    | .ok e =>
      match signer.readScore e.present with
      | .ok restored => [s!"   ✓ Verified total: {briefText restored.total}"]
      | .error _ => []
    | .error _ => []
  .ok ([s!"   ✓ Token: {shown}..."] ++ verified ++ (← tamperedLines signer token))

end Walkthrough

open Walkthrough in
/-- The walk under given settings.  The key is that of the settings, or else the other
one. -/
def walkthrough (config : Config) (otherKey : String) : Except Fault Walkthrough := do
  let engine ← config.engine Registry.standard
  let report ← Questionnaire.sample.report engine.registry engine.limits
  let opening :=
    [rule, "SCORING DEMO: Questionnaire → Analysis → Scores → Envelope", rule, "",
     "1. ANALYZING QUESTIONNAIRE..."] ++ reportLines report ++ ["", "2. SCORING SESSION..."]
  match engine.scoreSession Questionnaire.sample.sampleSession .null with
  | .error (.fault f) => .error f
  | .error (.scoring index id cause) =>
    let message := SessionFailure.scoringMessage index id cause
    .ok ⟨opening ++ [s!"   ✗ {message}"], 1⟩
  | .ok score =>
    let scored := opening ++ (← scoreLines score) ++ ["", "3. SEALING RESULT..."]
    let key := if config.signingKey.isEmpty then otherKey else config.signingKey
    if key.isEmpty then .ok ⟨scored ++ ["   (no signing key configured, skipping)"], 0⟩
    else
      let signer ← Signer.ofValue (.str key)
      .ok ⟨scored ++ (← sealLines signer score), 0⟩

end Scorecard
