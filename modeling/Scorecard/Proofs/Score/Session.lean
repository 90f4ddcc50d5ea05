/-
Answers and sessions, one step after the other.

The values of an answer are bound as doubles, in order, unless a name comes twice.  A session
is scored item by item: either every item has a score, or there is a first that has none,
and the session fails as that one does.
-/
import Scorecard.Proofs.Formula.Evaluation
import Scorecard.Proofs.Score.Bindings

namespace Scorecard

/-! ### Bindings -/

/-- The values of an answer are doubles, under texts. -/
def Answer.IsTyped (a : Answer) : Prop :=
  ∀ b ∈ a.values, b.1.IsText ∧ b.2.IsDouble

section

variable {bound : Bindings} {key value : Value}

theorem bindVariable_of_mem (hkey : key.IsText) (h : key ∈ bound.map Prod.fst) :
    bindVariable bound (key, value) = .error (.formula (.boundTwice key)) := by
  simp [bindVariable, hkey.canBeKey, (Value.hasKey_text_iff hkey).mpr h]

theorem bindVariable_of_not_mem (hkey : key.IsText) (h : key ∉ bound.map Prod.fst) {x : Float}
    (hx : value.toFloat = .ok x) : bindVariable bound (key, value) = .ok (bound ++ [(key, .float x)]) := by
  simp [bindVariable, hkey.canBeKey, mt (Value.hasKey_text_iff hkey).mp h, hx]

end

theorem Answer.IsTyped.bindings_outcome {a : Answer} (h : a.IsTyped) :
    (∃ bound, a.bindings = .ok bound ∧ bound.map Prod.fst = a.values.map Prod.fst ∧
      ∀ b ∈ bound, b.2.IsDouble) ∨
    ∃ name, a.bindings = .error (.formula (.boundTwice name)) ∧ ¬ (a.values.map Prod.fst).Nodup := by
  have hnames : ∀ b ∈ a.values, b.1.canBeKey = true := fun b hb => (h b hb).1.canBeKey
  have hvalues : ∀ b ∈ a.values, ∃ x, b.2.toFloat = .ok x := fun b hb => (h b hb).2.exists_toFloat
  by_cases hshares : SharesName a.values
  · obtain ⟨name, hfirst⟩ := hshares.exists_firstRepeated
    refine .inr ⟨name, (bindings_eq_boundTwice_iff_firstRepeated hnames hvalues).mpr hfirst, ?_⟩
    rw [← not_sharesName_texts fun b hb => (h b hb).1]
    exact not_not_intro hshares
  · obtain ⟨bound, hbound, hread⟩ := exists_bindings hnames hvalues hshares
    obtain ⟨hkeys, hfloats⟩ := Value.keys_of_readsEntry hread
    refine .inl ⟨bound, hbound, hkeys, fun b hb => ?_⟩
    obtain ⟨x, hx⟩ := hfloats b hb
    rw [hx]
    exact .float x

namespace Engine

variable (e : Engine)

/-! ### Items -/

theorem scoreItem_answer {a : Answer} {p : PossibleAnswer} {bound : Bindings}
    (hchoice : a.choice = some p) (hbound : a.bindings = .ok bound) :
    e.scoreItem (.answer a) =
      match e.evaluate p.formula bound with
      | .error f => .error f
      | .ok value => .ok ⟨p.formula, bound, value, p.question, a.id⟩ := by
  simp only [scoreItem, prepare, hbound, hchoice]
  rfl

theorem scoreItem_of_evaluate {a : Answer} {p : PossibleAnswer} {bound : Bindings} {x : Float}
    (hchoice : a.choice = some p) (hbound : a.bindings = .ok bound)
    (hvalue : e.evaluate p.formula bound = .ok x) :
    e.scoreItem (.answer a) = .ok ⟨p.formula, bound, x, p.question, a.id⟩ := by
  rw [e.scoreItem_answer hchoice hbound, hvalue]

theorem scoreItem_of_bindings_error {a : Answer} {f : Failure} (hbound : a.bindings = .error f) :
    e.scoreItem (.answer a) = .error f := by
  simp only [scoreItem, prepare, hbound]

/-! ### Sessions -/

/-- **The first item that fails decides**, and without one every item has a score. -/
theorem scoreFrom_outcome (items : List Item) (index : Nat) :
    (∃ scores, e.scoreFrom index items = .ok scores ∧
      ∀ item ∈ items, ∃ score, e.scoreItem item = .ok score) ∨
    ∃ before item after f, items = before ++ item :: after ∧
      (∀ i ∈ before, ∃ score, e.scoreItem i = .ok score) ∧ e.scoreItem item = .error f ∧
        e.scoreFrom index items = .error (.ofItem (index + before.length) item f) := by
  induction items generalizing index with
  | nil => exact .inl ⟨[], rfl, by simp⟩
  | cons item rest ih =>
      rw [scoreFrom]
      cases hitem : e.scoreItem item with
      | error f => exact .inr ⟨[], item, rest, f, rfl, by simp, hitem, rfl⟩
      | ok score =>
          simp only
          rcases ih (index + 1) with ⟨scores, hscores, hall⟩ | ⟨before, failed, after, f, hsplit, hbefore,
            hfailed, hrest⟩
          · rw [hscores]
            exact .inl ⟨_, rfl, List.forall_mem_cons.mpr ⟨⟨score, hitem⟩, hall⟩⟩
          · rw [hrest]
            refine .inr ⟨item :: before, failed, after, f, by simp [hsplit], ?_, hfailed, ?_⟩
            · exact List.forall_mem_cons.mpr ⟨⟨score, hitem⟩, hbefore⟩
            · rw [List.length_cons, Nat.add_right_comm, Nat.add_assoc]

/-- A session fails as the first item does that has no score. -/
theorem scoreFrom_of_first {before after : List Item} {item : Item} {f : Failure}
    (hbefore : ∀ i ∈ before, ∃ score, e.scoreItem i = .ok score) (hitem : e.scoreItem item = .error f)
    (index : Nat) :
    e.scoreFrom index (before ++ item :: after) = .error (.ofItem (index + before.length) item f) := by
  induction before generalizing index with
  | nil =>
      rw [List.nil_append, scoreFrom, hitem]
      rfl
  | cons i before ih =>
      obtain ⟨⟨score, hi⟩, hothers⟩ := List.forall_mem_cons.mp hbefore
      rw [List.cons_append, scoreFrom, hi]
      simp only [ih hothers, List.length_cons]
      rw [Nat.add_right_comm, Nat.add_assoc]

/-- The scores of items are theirs one by one, whatever the index they count from. -/
theorem scoreFrom_eq_ok_iff {items : List Item} {index : Nat} {scores : List AnswerScore} :
    e.scoreFrom index items = .ok scores ↔
      List.Forall₂ (fun item score => e.scoreItem item = .ok score) items scores := by
  induction items generalizing index scores with
  | nil => cases scores <;> simp [scoreFrom]
  | cons item rest ih =>
      rw [scoreFrom, List.forall₂_cons_left_iff]
      cases hitem : e.scoreItem item with
      | error f => simp
      | ok score =>
          have hrest : ∀ others, e.scoreFrom (index + 1) rest = .ok others ↔
              List.Forall₂ (fun item score => e.scoreItem item = .ok score) rest others := fun _ => ih
          simp only [← hrest]
          cases e.scoreFrom (index + 1) rest <;> simp [eq_comm]

/-- Every score is that of an item. -/
theorem exists_item_of_scoreFrom {items : List Item} {index : Nat} {scores : List AnswerScore}
    (h : e.scoreFrom index items = .ok scores) :
    ∀ score ∈ scores, ∃ item ∈ items, e.scoreItem item = .ok score := by
  intro score hscore
  exact exists_of_forall₂ (e.scoreFrom_eq_ok_iff.mp h).flip score hscore

/-- The score of a session has the scores of its items, under the identifier to record. -/
theorem scored_of_scoreSession {s : Session} {sessionId : Value} {score : SessionScore}
    (h : e.scoreSession s sessionId = .ok score) : score.sessionId = s.recordedId sessionId ∧
      ∀ answer ∈ score.answers, ∃ item ∈ s.items, e.scoreItem item = .ok answer := by
  unfold scoreSession scoreItems at h
  split at h
  · cases h
  · rename_i answers hanswers
    cases h
    exact ⟨rfl, e.exists_item_of_scoreFrom hanswers⟩

theorem scoreSession_outcome (s : Session) (sessionId : Value) :
    (∃ score, e.scoreSession s sessionId = .ok score ∧
      ∀ item ∈ s.items, ∃ answer, e.scoreItem item = .ok answer) ∨
    ∃ before item after f, s.items = before ++ item :: after ∧
      (∀ i ∈ before, ∃ answer, e.scoreItem i = .ok answer) ∧ e.scoreItem item = .error f ∧
        e.scoreSession s sessionId = .error (.ofItem before.length item f) := by
  unfold scoreSession scoreItems
  rcases e.scoreFrom_outcome s.items 0 with ⟨scores, hscores, hall⟩ | ⟨before, item, after, f, hsplit,
    hbefore, hitem, hfailed⟩
  · rw [hscores]
    exact .inl ⟨_, rfl, hall⟩
  · rw [hfailed, Nat.zero_add]
    exact .inr ⟨before, item, after, f, hsplit, hbefore, hitem, rfl⟩

end Engine

end Scorecard
