/-
An engine that keeps parsed formulas.

The cache holds the trees of the formulas used last, the latest first, under the
formulas themselves.  A formula that is found moves to the front; one that is not is
parsed and put in front, and what no longer fits falls off the end.  A formula that
fails to parse is not kept.

Everything here does what the operation of the same name without a cache does, and
passes on the cache besides.
-/
import Scorecard.Engine

namespace Scorecard

/-- Trees of formulas, the one used last first. -/
abbrev FormulaCache := List (Value × Expr)

namespace Engine

/-- The tree of a formula, and the cache after it was used. -/
def parseKept (e : Engine) (cache : FormulaCache) (formula : Value) : Except Failure Expr × FormulaCache :=
  if e.cacheSize ≤ 0 then (e.parse formula, cache)
  else
    match cache.find? (·.1.same formula) with
    | some entry => (.ok entry.2, entry :: cache.eraseP (·.1.same formula))
    | none =>
      match e.parse formula with
      | .ok tree => (.ok tree, ((formula, tree) :: cache).take e.cacheSize.toNat)
      | .error f => (.error f, cache)

/-- The value of a formula, and the cache after it was used. -/
def evaluateKept (e : Engine) (cache : FormulaCache) (formula : Value) (bindings : Bindings) :
    Except Failure Float × FormulaCache :=
  match e.parseKept cache formula with
  | (.error f, cache) => (.error f, cache)
  | (.ok tree, cache) => (tree.evaluate e.registry bindings, cache)

/-- The score of one item, and the cache after its formula was used. -/
def scoreItemKept (e : Engine) (cache : FormulaCache) (item : Item) :
    Except Failure AnswerScore × FormulaCache :=
  match prepare item with
  | .error f => (.error f, cache)
  | .ok (formula, bindings, question) =>
    match e.evaluateKept cache formula bindings with
    | (.error f, cache) => (.error f, cache)
    | (.ok value, cache) => (.ok ⟨formula, bindings, value, question, item.id⟩, cache)

/-- The scores of items from an index on, and the cache after the last that was scored. -/
def scoreFromKept (e : Engine) (cache : FormulaCache) (index : Nat) :
    List Item → Except SessionFailure (List AnswerScore) × FormulaCache
  | [] => (.ok [], cache)
  | item :: rest =>
    match e.scoreItemKept cache item with
    | (.error f, cache) => (.error (.ofItem index item f), cache)
    | (.ok score, cache) =>
      match scoreFromKept e cache (index + 1) rest with
      | (.error f, cache) => (.error f, cache)
      | (.ok scores, cache) => (.ok (score :: scores), cache)

/-- The score of items, and the cache after the last that was scored. -/
def scoreItemsKept (e : Engine) (cache : FormulaCache) (items : List Item) (sessionId : Value) :
    Except SessionFailure SessionScore × FormulaCache :=
  match e.scoreFromKept cache 0 items with
  | (.error f, cache) => (.error f, cache)
  | (.ok answers, cache) => (.ok ⟨answers, sessionId⟩, cache)

/-- The score of a session, and the cache after the last item that was scored. -/
def scoreSessionKept (e : Engine) (cache : FormulaCache) (s : Session) (sessionId : Value) :
    Except SessionFailure SessionScore × FormulaCache :=
  e.scoreItemsKept cache s.items (s.recordedId sessionId)

end Engine

end Scorecard
