/-
What can be said about a questionnaire's formulas before anyone answers it.

Each formula is parsed as it would be for scoring.  The report lists the measures of
those that parse and the errors of those that do not, compares the variables that
each formula refers to with those that its possible answer lists and with those that
the questionnaire declares, and names possible answers without a question.  Where an
identifier occurs twice, the last occurrence counts in the place of the first.
-/
import Scorecard.Formula.Metrics
import Scorecard.Formula.Parser
import Scorecard.Questionnaire

namespace Scorecard

/-- Findings about possible answers, by identifier. -/
abbrev Findings (α : Type) := List (String × α)

namespace Findings

/-- Record a finding, in the place of an earlier one under the same identifier. -/
def put {α : Type} (id : String) (finding : α) : Findings α → Findings α
  | [] => [(id, finding)]
  | (i, f) :: rest => if i == id then (i, finding) :: rest else (i, f) :: put id finding rest

end Findings

/-- A report on a questionnaire. -/
structure Report where
  name : Value
  questions : Nat
  possibleAnswers : Nat
  metrics : Findings Metrics := []
  parseErrors : Findings String := []
  /-- Variables that a formula refers to and its possible answer does not list. -/
  undeclared : Findings (List Value) := []
  /-- Variables that a possible answer lists and its formula does not refer to. -/
  unused : Findings (List Value) := []
  /-- Variables that possible answers list and the questionnaire does not declare. -/
  undefined : List Value := []
  /-- Possible answers whose question does not exist. -/
  orphans : List String := []
  maxDepth : Nat := 0
  /-- How many formulas call each function. -/
  functionUsage : List (String × Nat) := []
  warnings : List String := []

namespace Report

/-- Nothing keeps the formulas from being scored. -/
def isClean (r : Report) : Bool :=
  r.parseErrors.isEmpty && r.undeclared.isEmpty && r.undefined.isEmpty && r.orphans.isEmpty

/-! ### Sets of names -/

/-- The name is among these. -/
def contains (names : List Value) (name : Value) : Bool :=
  names.any (·.same name)

/-- The distinct names that are not among the others. -/
def without (names others : List Value) : List Value :=
  (Value.distinct names).filter fun name => !contains others name

/-- Names that are to be collected must be fit to be keys. -/
def checkNames (names : List Value) : Except Fault Unit :=
  if names.all Value.canBeKey then .ok () else .error .wrongKind

/-- Names in alphabetical order, if all of them are text. -/
def sortedNames (names : List Value) : Except Fault (List String) :=
  match names.mapM fun
    | .str s => some s
    | _ => none with
  | some texts => .ok (texts.mergeSort fun a b => !decide (b < a))
  | none => .error .wrongKind

/-- Names in alphabetical order, a comma between two. -/
def listed (names : List Value) : Except Fault String :=
  (sortedNames names).map (", ".intercalate ·)

/-! ### One possible answer after the other -/

/-- Count one more formula that calls a function. -/
def countCall (usage : List (String × Nat)) (name : Value) : List (String × Nat) :=
  match name with
  | .str s =>
    match usage with
    | [] => [(s, 1)]
    | (t, n) :: rest => if t == s then (t, n + 1) :: rest else (t, n) :: countCall rest name
  | _ => usage

/-- Add what a formula that parses shows. -/
def addMetrics (r : Report) (p : PossibleAnswer) (m : Metrics) : Report :=
  let undeclared := without m.variableNames p.variableNames
  let unused := without p.variableNames m.variableNames
  { r with
    metrics := Findings.put p.id m r.metrics
    maxDepth := max r.maxDepth m.depth
    functionUsage := m.functionNames.foldl countCall r.functionUsage
    undeclared := if undeclared.isEmpty then r.undeclared else Findings.put p.id undeclared r.undeclared
    unused := if unused.isEmpty then r.unused else Findings.put p.id unused r.unused }

/-- Add what a possible answer shows, parsed or not. -/
def addPossibleAnswer (q : Questionnaire) (registry : Registry) (limits : Limits) (r : Report)
    (p : PossibleAnswer) : Except Fault Report := do
  checkNames [p.question]
  let r := if contains (q.questions.map (·.name)) p.question then r
    else { r with orphans := r.orphans ++ [p.id] }
  if !q.declaredVariables.isEmpty then checkNames p.variableNames
  let r := if q.declaredVariables.isEmpty then r
    else
      let undefined := without p.variableNames (q.declaredVariables.map (·.name))
      { r with undefined := r.undefined ++ without undefined r.undefined }
  match p.formula.parseFormula registry limits with
  | .error (.fault f) => .error f
  | .error (.formula e) => .ok { r with parseErrors := Findings.put p.id e.message r.parseErrors }
  | .ok tree =>
    let m ← tree.metrics
    checkNames p.variableNames
    .ok (r.addMetrics p m)

/-! ### Warnings -/

/-- Warn of each finding, in order. -/
def warnOfEach {α : Type} (findings : Findings α) (text : String → α → Except Fault String) :
    Except Fault (List String) :=
  findings.mapM fun (id, finding) => text id finding

/-- Text without repetitions, each in the place of its first occurrence. -/
def withoutRepetitions (texts : List String) : List String :=
  texts.foldl (fun kept t => if kept.contains t then kept else kept ++ [t]) []

/-- The warnings that a report gives rise to. -/
def warningsOf (r : Report) : Except Fault (List String) := do
  let unparsed ← warnOfEach r.parseErrors fun id message =>
    .ok s!"Formula of {id} does not parse: {message}"
  let undeclared ← warnOfEach r.undeclared fun id names =>
    (listed names).map fun text => s!"Formula of {id} uses undeclared variables: {text}"
  let unused ← warnOfEach r.unused fun id names =>
    (listed names).map fun text => s!"Possible answer {id} declares unused variables: {text}"
  let undefined ←
    if r.undefined.isEmpty then .ok []
    else (listed r.undefined).map fun text => [s!"Undefined variable references: {text}"]
  let orphans :=
    if r.orphans.isEmpty then []
    else ["Possible answers without a question: " ++ ", ".intercalate r.orphans]
  .ok (withoutRepetitions (unparsed ++ undeclared ++ unused ++ undefined ++ orphans))

end Report

/-- The report on a questionnaire, for the registry and limits that it will be scored
with. -/
def Questionnaire.report (q : Questionnaire) (registry : Registry) (limits : Limits) :
    Except Fault Report := do
  Report.checkNames (q.questions.map (·.name))
  Report.checkNames (q.declaredVariables.map (·.name))
  let start : Report :=
    { name := q.name, questions := q.questions.length, possibleAnswers := q.possibleAnswers.length }
  let r ← q.possibleAnswers.foldlM (Report.addPossibleAnswer q registry limits) start
  .ok { r with warnings := ← r.warningsOf }

end Scorecard
