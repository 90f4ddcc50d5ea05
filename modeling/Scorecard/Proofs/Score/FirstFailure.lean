/-
All or nothing, and the first failure decides.

A session is scored item by item, and each item is scored as if it stood alone.  So either all of
them have scores, and these are the score of the session; or there is a first that has none, and
the session fails as that item does.  What comes behind it is never looked at.

An error of the formula is reported with the item it belongs to.  A fault of the data is not.
-/
import Scorecard.Proofs.Engine.Cache
import Scorecard.Proofs.Score.Session

namespace Scorecard

namespace Engine

/-! ### The first failure -/

/-- The item at an index fails by itself, and no item before it does. -/
structure FirstFailure (e : Engine) (items : List Item) (index : Nat) (item : Item) (f : Failure) :
    Prop where
  at_index : items[index]? = some item
  fails : e.scoreItem item = .error f
  first : ∀ j < index, ∀ earlier, items[j]? = some earlier → ∃ score, e.scoreItem earlier = .ok score

variable {e : Engine} {items others : List Item} {index : Nat} {item : Item} {f : Failure}

theorem firstFailure_append {before after : List Item}
    (hbefore : ∀ i ∈ before, ∃ score, e.scoreItem i = .ok score) (hitem : e.scoreItem item = .error f) :
    e.FirstFailure (before ++ item :: after) before.length item f := by
  refine ⟨by simp, hitem, fun j hj earlier hearlier => ?_⟩
  rw [List.getElem?_append_left hj] at hearlier
  exact hbefore earlier (List.mem_of_getElem? hearlier)

/-- Up to the first failure the items are all that matters. -/
theorem FirstFailure.congr (h : e.FirstFailure items index item f)
    (htake : others.take (index + 1) = items.take (index + 1)) : e.FirstFailure others index item f := by
  have hsame : ∀ j < index + 1, others[j]? = items[j]? := by
    intro j hj
    rw [← List.getElem?_take_of_lt hj, htake, List.getElem?_take_of_lt hj]
  refine ⟨(hsame index (Nat.lt_succ_self index)).trans h.at_index, h.fails, fun j hj earlier hearlier => ?_⟩
  exact h.first j hj earlier ((hsame j (Nat.lt_succ_of_lt hj)).symm.trans hearlier)

/-- The session fails as its first failure does. -/
theorem FirstFailure.scoreItems (h : e.FirstFailure items index item f) (sessionId : Value) :
    e.scoreItems items sessionId = .error (.ofItem index item f) := by
  obtain ⟨hindex, rfl⟩ := List.getElem?_eq_some_iff.mp h.at_index
  have hsplit : items = items.take index ++ items[index] :: items.drop (index + 1) := by simp
  have hlength : (items.take index).length = index := List.length_take_of_le hindex.le
  have hbefore : ∀ i ∈ items.take index, ∃ score, e.scoreItem i = .ok score := by
    intro i hi
    obtain ⟨j, hj⟩ := List.mem_iff_getElem?.mp hi
    have hlt : j < index := by
      obtain ⟨hj, -⟩ := List.getElem?_eq_some_iff.mp hj
      rwa [hlength] at hj
    exact h.first j hlt i ((List.getElem?_take_of_lt hlt).symm.trans hj)
  have hfailed : e.scoreFrom 0 (items.take index ++ items[index] :: items.drop (index + 1)) =
      .error (.ofItem (0 + (items.take index).length) items[index] f) :=
    e.scoreFrom_of_first hbefore h.fails 0
  rw [← hsplit, hlength, Nat.zero_add] at hfailed
  rw [Engine.scoreItems, hfailed]

/-! ### Sessions -/

/-- A session is scored as its items are, and recorded under an identifier of its own. -/
theorem scoreSession_eq_map (e : Engine) (s : Session) (sessionId : Value) :
    e.scoreSession s sessionId =
      (e.scoreItems s.items sessionId).map fun score => { score with sessionId := s.recordedId sessionId } := by
  unfold scoreSession scoreItems
  cases e.scoreFrom 0 s.items <;> rfl

/--
**Scoring is all or nothing, and the first failure decides.**  If every item has a score by itself,
these are the scores of the session, in order, and its total is their sum from left to right.  If
not, there is no score.  The first item that fails gives the error, with its index and identifier if
it is one of the formula, and as it is if not, whatever items come behind.  A session fares as its
items do, but for the identifier it is recorded under, and nobody notices the formulas that are kept.
-/
theorem scoreItems_first_failure (e : Engine) (items : List Item) (sessionId : Value) :
    ((∃ score, e.scoreItems items sessionId = .ok score ∧ score.sessionId = sessionId ∧
        List.Forall₂ (fun item answer => e.scoreItem item = .ok answer) items score.answers ∧
        score.total = (score.answers.map (·.value)).foldl (· + ·) 0.0) ∨
      ∃ index item f, e.FirstFailure items index item f ∧
        (∀ cause, f = .formula cause →
          e.scoreItems items sessionId = .error (.scoring index item.id cause)) ∧
        (∀ fault, f = .fault fault → e.scoreItems items sessionId = .error (.fault fault)) ∧
        ∀ others, others.take (index + 1) = items.take (index + 1) →
          e.scoreItems others sessionId = e.scoreItems items sessionId) ∧
      (∀ s : Session, s.items = items → e.scoreSession s sessionId =
        (e.scoreItems items sessionId).map fun score =>
          { score with sessionId := s.recordedId sessionId }) ∧
      ∀ cache, FormulaCache.Holds e cache →
        (e.scoreItemsKept cache items sessionId).1 = e.scoreItems items sessionId ∧
          ∀ item, (e.scoreItemKept cache item).1 = e.scoreItem item := by
  refine ⟨?_, ?_, ?_⟩
  · rcases e.scoreFrom_outcome items 0 with ⟨scores, hscores, -⟩ | ⟨before, item, after, f, rfl, hbefore,
      hitem, -⟩
    · refine .inl ⟨⟨scores, sessionId⟩, ?_, rfl, e.scoreFrom_eq_ok_iff.mp hscores, rfl⟩
      rw [scoreItems, hscores]
    · have hfirst : e.FirstFailure (before ++ item :: after) before.length item f :=
        firstFailure_append hbefore hitem
      refine .inr ⟨before.length, item, f, hfirst, ?_, ?_, fun others htake => ?_⟩
      · rintro cause rfl
        exact hfirst.scoreItems sessionId
      · rintro fault rfl
        exact hfirst.scoreItems sessionId
      · rw [(hfirst.congr htake).scoreItems, hfirst.scoreItems]
  · rintro s rfl
    exact e.scoreSession_eq_map s sessionId
  · intro cache hcache
    exact ⟨(scoreItemsKept_unnoticed hcache items sessionId).outcome_eq,
      fun item => (scoreItemKept_unnoticed hcache item).outcome_eq⟩

/-- An answer that binds a name twice and whose formula does not parse, and an unknown variable
behind it: the bindings are made first. -/
example : ({} : Engine).scoreItems
    [.answer ⟨some ⟨"none", .str "A", .str "1 +", []⟩, [(.str "x", .float 1), (.str "x", .float 2)],
      .str "a"⟩, .pair (.str "y") []] .null =
        .error (.scoring 0 (.str "a") (.boundTwice (.str "x"))) := by
  rfl

end Engine

end Scorecard
