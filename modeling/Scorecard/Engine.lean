/-
Scoring.

An engine scores with one registry and one pair of limits.  A session is scored all
or nothing: its items in order, and the first that fails ends it with an error that
names the item.  What is not a typed error of a formula but a fault of the data is
passed on as it is.
-/
import Scorecard.Config
import Scorecard.Formula.Parser
import Scorecard.Score
import Scorecard.Session

namespace Scorecard

/-- What an engine scores with.  Parsed formulas may be kept for reuse, at most as
many as the cache has room for; without room none are kept. -/
structure Engine where
  registry : Registry := Registry.standard
  limits : Limits := {}
  cacheSize : Int := 0

/-- Why a session has no score. -/
inductive SessionFailure where
  /-- An item failed: its index, its identifier, and its error. -/
  | scoring (index : Nat) (answerId : Value) (cause : FormulaError)
  | fault (f : Fault)

namespace SessionFailure

/-- The message of a failed item. -/
def scoringMessage (index : Nat) (answerId : Value) (cause : FormulaError) : String :=
  match answerId with
  | .null => s!"Scoring failed at answer #{index}: {cause.message}"
  | id => s!"Scoring failed at answer #{index} (id={id.display}): {cause.message}"

/-- The failure of the item at an index. -/
def ofItem (index : Nat) (item : Item) : Failure → SessionFailure
  | .formula cause => .scoring index item.id cause
  | .fault f => .fault f

end SessionFailure

namespace Engine

/-- The tree of a formula.  To be looked up among formulas that are kept, it must be
fit to be a key. -/
def parse (e : Engine) (formula : Value) : Except Failure Expr :=
  if 0 < e.cacheSize ∧ formula.canBeKey = false then .error (.fault .wrongKind)
  else formula.parseFormula e.registry e.limits

/-- The value of a formula. -/
def evaluate (e : Engine) (formula : Value) (bindings : Bindings) : Except Failure Float :=
  match e.parse formula with
  | .error f => .error f
  | .ok tree => tree.evaluate e.registry bindings

/-- The formula of an item and the bindings to evaluate it with, found in that order:
an answer's bindings are made before its formula is looked at. -/
def prepare : Item → Except Failure (Value × Bindings × Value)
  | .pair formula bindings => .ok (formula, bindings, .null)
  | .answer a =>
    match a.bindings with
    | .error f => .error f
    | .ok bindings =>
      match a.choice with
      | none => .error (.fault .notARecord)
      | some choice => .ok (choice.formula, bindings, choice.question)

/-- The score of one item. -/
def scoreItem (e : Engine) (item : Item) : Except Failure AnswerScore :=
  match prepare item with
  | .error f => .error f
  | .ok (formula, bindings, question) =>
    match e.evaluate formula bindings with
    | .error f => .error f
    | .ok value => .ok ⟨formula, bindings, value, question, item.id⟩

/-- The scores of items from an index on, or the first failure. -/
def scoreFrom (e : Engine) (index : Nat) : List Item → Except SessionFailure (List AnswerScore)
  | [] => .ok []
  | item :: rest =>
    match e.scoreItem item with
    | .error f => .error (.ofItem index item f)
    | .ok score =>
      match scoreFrom e (index + 1) rest with
      | .error f => .error f
      | .ok scores => .ok (score :: scores)

/-- The score of items, recorded under an identifier. -/
def scoreItems (e : Engine) (items : List Item) (sessionId : Value) : Except SessionFailure SessionScore :=
  match e.scoreFrom 0 items with
  | .error f => .error f
  | .ok answers => .ok ⟨answers, sessionId⟩

/-- The score of a session, under its own identifier unless another is given. -/
def scoreSession (e : Engine) (s : Session) (sessionId : Value) : Except SessionFailure SessionScore :=
  e.scoreItems s.items (s.recordedId sessionId)

end Engine

/-- A cache counts its trees in words of 64 bits with a sign. -/
def greatestCache : Int := Int64.maxValue.toInt

/-- The engine with a registry, limits and a cache of a size. -/
def Engine.make (registry : Registry) (limits : Limits) (cacheSize : Int) : Except Fault Engine :=
  if greatestCache < cacheSize then .error .tooLarge else .ok { registry, limits, cacheSize }

/-- The engine that settings ask for. -/
def Config.engine (c : Config) (registry : Registry) : Except Fault Engine :=
  Engine.make registry ⟨c.maxDepth, c.maxTokens⟩ c.cacheSize

end Scorecard
