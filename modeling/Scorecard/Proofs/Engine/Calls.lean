/-
Calls to one engine, with a cache and without.

An engine is asked for trees, values and scores, one call after the other, and keeps the
formulas it has parsed on the way.  The replies are those of the same engine without a
cache, call by call, whatever came before: nothing that was kept shows, and neither does
it that the engine keeps anything.

For the second half a formula has to be one that a cache can look up.  Every text is.
-/
import Scorecard.Proofs.Engine.Cache

namespace Scorecard

/-! ### The same engine without a cache -/

namespace Value

/-- A cache can look the formula up, or it is no formula and refused in any case.  Every
text is one; only an empty list or record, which reads as an empty formula, is not. -/
def Cacheable (formula : Value) : Prop :=
  formula.canBeKey = true ∨ formula.formulaText? = none

theorem IsText.cacheable {formula : Value} (h : formula.IsText) : formula.Cacheable :=
  .inl h.canBeKey

end Value

namespace Engine

variable {e : Engine}

/-- The engine that parses every formula afresh. -/
def withoutCache (e : Engine) : Engine :=
  { e with cacheSize := 0 }

theorem parse_withoutCache {formula : Value} (h : formula.Cacheable) :
    e.withoutCache.parse formula = e.parse formula := by
  unfold parse
  rw [if_neg fun hroom => Int.lt_irrefl 0 hroom.1]
  split
  · rename_i hrefused
    rcases h with hkey | hnone
    · rw [hkey] at hrefused
      exact absurd hrefused.2 (by simp)
    · unfold Value.parseFormula
      rw [hnone]
  · rfl

theorem evaluate_withoutCache {formula : Value} (h : formula.Cacheable) (bindings : Bindings) :
    e.withoutCache.evaluate formula bindings = e.evaluate formula bindings := by
  unfold evaluate
  rw [parse_withoutCache h]
  rfl

end Engine

/-- The formula that an item asks for, if its choice is there. -/
def Item.formula? : Item → Option Value
  | .pair formula _ => some formula
  | .answer a => a.choice.map (·.formula)

namespace Engine

variable {e : Engine}

/-- What an item is evaluated with is its own formula. -/
theorem formula_of_prepare {item : Item} {formula question : Value} {bindings : Bindings}
    (h : prepare item = .ok (formula, bindings, question)) : item.formula? = some formula := by
  unfold prepare at h
  split at h
  · cases h
    rfl
  · split at h
    · cases h
    · split at h
      · cases h
      · rename_i hchoice
        cases h
        simp [Item.formula?, hchoice]

theorem scoreItem_withoutCache {item : Item}
    (h : ∀ formula, item.formula? = some formula → formula.Cacheable) :
    e.withoutCache.scoreItem item = e.scoreItem item := by
  unfold scoreItem
  cases hprepared : prepare item with
  | error f => rfl
  | ok prepared =>
      obtain ⟨formula, bindings, question⟩ := prepared
      simp only
      rw [evaluate_withoutCache (h formula (formula_of_prepare hprepared))]

theorem scoreFrom_withoutCache {items : List Item}
    (h : ∀ item ∈ items, ∀ formula, item.formula? = some formula → formula.Cacheable) (index : Nat) :
    e.withoutCache.scoreFrom index items = e.scoreFrom index items := by
  induction items generalizing index with
  | nil => rfl
  | cons item rest ih =>
      rw [List.forall_mem_cons] at h
      rw [scoreFrom, scoreFrom, scoreItem_withoutCache h.1, ih h.2]

theorem scoreItems_withoutCache {items : List Item}
    (h : ∀ item ∈ items, ∀ formula, item.formula? = some formula → formula.Cacheable)
    (sessionId : Value) : e.withoutCache.scoreItems items sessionId = e.scoreItems items sessionId := by
  unfold scoreItems
  rw [scoreFrom_withoutCache h]

/-! ### Calls, one after the other -/

/-- What an engine is asked for. -/
inductive Call where
  | parse (formula : Value)
  | evaluate (formula : Value) (bindings : Bindings)
  | scoreItem (item : Item)
  | scoreItems (items : List Item) (sessionId : Value)
  | scoreSession (session : Session) (sessionId : Value)

/-- What comes back: a result of the kind that was asked for, or the failure. -/
inductive Reply where
  | tree (outcome : Except Failure Expr)
  | number (outcome : Except Failure Float)
  | answer (outcome : Except Failure AnswerScore)
  | score (outcome : Except SessionFailure SessionScore)

/-- The formulas that a call asks for. -/
def Call.formulas : Call → List Value
  | .parse formula => [formula]
  | .evaluate formula _ => [formula]
  | .scoreItem item => item.formula?.toList
  | .scoreItems items _ => items.flatMap (·.formula?.toList)
  | .scoreSession session _ => session.items.flatMap (·.formula?.toList)

/-- The reply to a call by itself. -/
def reply (e : Engine) : Call → Reply
  | .parse formula => .tree (e.parse formula)
  | .evaluate formula bindings => .number (e.evaluate formula bindings)
  | .scoreItem item => .answer (e.scoreItem item)
  | .scoreItems items sessionId => .score (e.scoreItems items sessionId)
  | .scoreSession session sessionId => .score (e.scoreSession session sessionId)

/-- The reply to a call with what was kept of those before, and what is kept then. -/
def replyKept (e : Engine) (cache : FormulaCache) : Call → Reply × FormulaCache
  | .parse formula => (e.parseKept cache formula).map Reply.tree id
  | .evaluate formula bindings => (e.evaluateKept cache formula bindings).map Reply.number id
  | .scoreItem item => (e.scoreItemKept cache item).map Reply.answer id
  | .scoreItems items sessionId => (e.scoreItemsKept cache items sessionId).map Reply.score id
  | .scoreSession session sessionId => (e.scoreSessionKept cache session sessionId).map Reply.score id

/-- The replies to calls one after the other, and what is kept in the end. -/
def repliesKept (e : Engine) : FormulaCache → List Call → List Reply × FormulaCache
  | cache, [] => ([], cache)
  | cache, call :: calls =>
    match e.replyKept cache call with
    | (reply, after) => (e.repliesKept after calls).map (reply :: ·) id

theorem Unnoticed.map {α β : Type} {outcome : α} {step : α × FormulaCache} (h : Unnoticed e outcome step)
    (f : α → β) : Unnoticed e (f outcome) (step.map f id) :=
  ⟨congrArg f h.outcome_eq, h.holds⟩

variable {cache : FormulaCache}

/-- **One call is answered as if nothing had been kept**, and leaves what it found in order. -/
theorem replyKept_unnoticed (h : cache.Holds e) (call : Call) :
    Unnoticed e (e.reply call) (e.replyKept cache call) := by
  cases call with
  | parse formula => exact (parseKept_unnoticed h formula).map Reply.tree
  | evaluate formula bindings => exact (evaluateKept_unnoticed h formula bindings).map Reply.number
  | scoreItem item => exact (scoreItemKept_unnoticed h item).map Reply.answer
  | scoreItems items sessionId => exact (scoreItemsKept_unnoticed h items sessionId).map Reply.score
  | scoreSession session sessionId =>
      exact (scoreItemsKept_unnoticed h session.items (session.recordedId sessionId)).map Reply.score

theorem repliesKept_unnoticed (h : cache.Holds e) (calls : List Call) :
    Unnoticed e (calls.map e.reply) (e.repliesKept cache calls) := by
  induction calls generalizing cache with
  | nil => exact ⟨rfl, h⟩
  | cons call rest ih =>
      obtain ⟨hreply, hafter⟩ := replyKept_unnoticed h call
      rw [repliesKept, List.map_cons, ← hreply]
      exact (ih hafter).map ((e.replyKept cache call).1 :: ·)

theorem reply_withoutCache {call : Call} (h : ∀ formula ∈ call.formulas, formula.Cacheable) :
    e.withoutCache.reply call = e.reply call := by
  have hitems : ∀ {items : List Item},
      (∀ formula ∈ items.flatMap (·.formula?.toList), formula.Cacheable) →
        ∀ item ∈ items, ∀ formula, item.formula? = some formula → formula.Cacheable := by
    intro items hall item hitem formula hformula
    exact hall formula (List.mem_flatMap.mpr ⟨item, hitem, by simp [hformula]⟩)
  cases call with
  | parse formula => exact congrArg Reply.tree (parse_withoutCache (h formula (by simp [Call.formulas])))
  | evaluate formula bindings =>
      exact congrArg Reply.number (evaluate_withoutCache (h formula (by simp [Call.formulas])) bindings)
  | scoreItem item =>
      refine congrArg Reply.answer (scoreItem_withoutCache fun formula hformula => h formula ?_)
      simp [Call.formulas, hformula]
  | scoreItems items sessionId =>
      exact congrArg Reply.score (scoreItems_withoutCache (hitems h) sessionId)
  | scoreSession session sessionId =>
      exact congrArg Reply.score
        (scoreItems_withoutCache (hitems h) (session.recordedId sessionId))

/--
**The cache is not noticed.**  Whatever calls came before, each is answered as by the same
engine without a cache, down to the places in a tree and the words of an error.  And the
cache in the end holds trees that parsing gives, one for a formula, and no more of them than
there is room for.
-/
theorem repliesKept_eq_withoutCache (e : Engine) (calls : List Call)
    (h : ∀ call ∈ calls, ∀ formula ∈ call.formulas, formula.Cacheable) :
    (e.repliesKept [] calls).1 = calls.map e.withoutCache.reply ∧
      FormulaCache.Holds e (e.repliesKept [] calls).2 := by
  obtain ⟨hreplies, hholds⟩ := repliesKept_unnoticed (FormulaCache.holds_nil e) calls
  refine ⟨hreplies.trans (List.map_congr_left fun call hcall => ?_), hholds⟩
  exact (reply_withoutCache (h call hcall)).symm

/-- A call that fails in the middle, between formulas that push one another out of a cache
with room for one. -/
def crowdedCalls : List Call :=
  [.parse (.str "x"), .parse (.str "y"),
    .scoreItems [.pair (.str "x") [(.str "x", .float 1)], .pair (.str "1 +") [], .pair (.str "y") []] .null,
    .evaluate (.str "x") [(.str "x", .float 2)]]

/-- The theorem for a cache with room for one formula. -/
theorem repliesKept_eq_withoutCache_crowded :
    (∀ call ∈ crowdedCalls, ∀ formula ∈ call.formulas, formula.Cacheable) ∧
      (Engine.repliesKept { cacheSize := 1 } [] crowdedCalls).1 = crowdedCalls.map (Engine.reply {}) := by
  have htexts : ∀ call ∈ crowdedCalls, ∀ formula ∈ call.formulas, formula.Cacheable := by
    simp [crowdedCalls, Call.formulas, Item.formula?, Value.IsText.cacheable]
  exact ⟨htexts, (repliesKept_eq_withoutCache { cacheSize := 1 } crowdedCalls htexts).1⟩

end Engine

end Scorecard
