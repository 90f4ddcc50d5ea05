/-
What a report promises about scoring.

The report parses formulas with the registry and limits of an engine but evaluates none.
Still it decides whether scoring can go wrong through the questionnaire.  Without
findings every formula has a tree whose variables its possible answer lists, so an
answer that gives all of them leaves nothing to fail but arithmetic: a division by zero,
or a number that is not finite or that a function refuses.  With a finding, an answer
that gives only what is listed cannot have a score, since evaluation is strict: it looks
up every variable that occurs.
-/
import Scorecard.Proofs.Formula.Dependence
import Scorecard.Proofs.Questionnaire.Report
import Scorecard.Proofs.Score.Session

namespace Scorecard

/-- The answer chooses from the questionnaire and gives every variable that its choice
lists, each at most once. -/
structure Answer.Completes (q : Questionnaire) (a : Answer) : Prop where
  typed : a.IsTyped
  once : (a.values.map Prod.fst).Nodup
  complete : ∃ p ∈ q.possibleAnswers, a.choice = some p ∧
    ∀ name ∈ p.variableNames, name ∈ a.values.map Prod.fst

/-- The answer chooses from the questionnaire, or has a text for a formula that the limits
allow to be looked at. -/
structure Answer.Attempts (q : Questionnaire) (limits : Limits) (a : Answer) : Prop where
  typed : a.IsTyped
  choice : ∃ p, a.choice = some p ∧
    (p ∈ q.possibleAnswers ∨ p.formula.IsText ∧ 0 ≤ limits.maxTokens)

/-- Where every variable has a value, only arithmetic fails. -/
theorem EvalError.Arises.kind {bindings : Bindings} {names : List Value} {refusal : EvalError}
    (h : refusal.Arises bindings names)
    (hbound : ∀ name ∈ names, Value.lookup? bindings name ≠ none) :
    refusal.kind = .divisionByZero ∨ refusal.kind = .domainError := by
  cases refusal with
  | unknownVariable name position => exact absurd h.2 (hbound name h.1)
  | divisionByZero position => exact .inl rfl
  | notFinite what value position => exact .inr rfl
  | notRegistered name position => exact h.elim
  | failed name reason position => exact .inr rfl

/-- Bindings have a value for what is among their names. -/
theorem bound_iff {bound : Bindings} {names : List Value} (hnames : bound.map Prod.fst = names)
    {name : Value} (hname : name.IsText) : Value.lookup? bound name ≠ none ↔ name ∈ names := by
  rw [ne_eq, Value.lookup_text_eq_none_iff hname, hnames, not_not]

namespace Engine

variable {e : Engine} {p : PossibleAnswer} {bound : Bindings}

theorem parse_of_isText {formula : Value} (h : formula.IsText) :
    e.parse formula = formula.parseFormula e.registry e.limits := by
  obtain ⟨text, rfl⟩ := h
  exact e.parse_text text

/-- The formula of a possible answer is evaluated without a fault, if it can be parsed
without one. -/
theorem evaluate_of_sound (hrules : e.registry.Answers) (hbound : ∀ b ∈ bound, b.2.IsDouble)
    {formula : Value} (htext : formula.IsText)
    (hsound : ∀ fault, formula.parseFormula e.registry e.limits ≠ .error (.fault fault)) :
    (∃ x, e.evaluate formula bound = .ok x) ∨
      ∃ cause, e.evaluate formula bound = .error (.formula cause) := by
  rw [← parse_of_isText htext] at hsound
  rcases hparsed : e.parse formula with (refusal | fault) | tree
  case error.formula => exact .inr ⟨refusal, by rw [evaluate, hparsed]⟩
  case error.fault => exact absurd hparsed (hsound fault)
  case ok =>
    obtain ⟨text, rfl⟩ := htext
    rcases (settled_evaluate hrules hbound hparsed).ok_or_refused with ⟨x, hx, -⟩ | ⟨refusal, hrefused, -⟩
    · exact .inl ⟨x, hx⟩
    · exact .inr ⟨_, hrefused⟩

/-! ### One answer -/

variable {q : Questionnaire} {r : Report} {a : Answer}

/-- An answer that completes a choice without findings has a score, or its arithmetic
fails. -/
theorem scoreItem_of_completes (hq : ∀ p ∈ q.possibleAnswers, p.IsText) (hrules : e.registry.Answers)
    (hr : q.Reported e.registry e.limits r) (hclean : r.isClean = true) (ha : a.Completes q) :
    (∃ answer, e.scoreItem (.answer a) = .ok answer) ∨
      ∃ refusal, e.scoreItem (.answer a) = .error (.formula (.eval refusal)) ∧
        (refusal.kind = .divisionByZero ∨ refusal.kind = .domainError) := by
  obtain ⟨p, hp, hchoice, hcomplete⟩ := ha.complete
  simp only [Report.isClean, Bool.and_eq_true, List.isEmpty_iff] at hclean
  obtain ⟨tree, hparsed, hlisted⟩ :=
    hr.exists_tree hp (by simp [hclean.1.1.1]) (by simp [hclean.1.1.2])
  rcases ha.typed.bindings_outcome with ⟨bound, hbound, hnames, hdoubles⟩ | ⟨-, -, htwice⟩
  · have hgiven : ∀ name ∈ tree.variableOccurrences, Value.lookup? bound name ≠ none :=
      fun name hname => (bound_iff hnames
        ((hq p hp).variableNames name (hlisted name hname))).mpr
          (hcomplete name (hlisted name hname))
    obtain ⟨text, htext⟩ := (hq p hp).formula
    rw [← parse_of_isText (hq p hp).formula, htext] at hparsed
    rw [e.scoreItem_answer hchoice hbound, htext]
    rcases (settled_evaluate hrules hdoubles hparsed).ok_or_refused with
      ⟨x, hx, -⟩ | ⟨refusal, hrefused, harises⟩
    · rw [hx]
      exact .inl ⟨_, rfl⟩
    · rw [hrefused]
      exact .inr ⟨refusal, rfl, harises.kind hgiven⟩
  · exact absurd ha.once htwice

/-- An answer has a score, or an error of its formula or its values. -/
theorem scoreItem_of_attempts (hq : ∀ p ∈ q.possibleAnswers, p.IsText) (hrules : e.registry.Answers)
    (hr : q.Reported e.registry e.limits r) (ha : a.Attempts q e.limits) :
    (∃ answer, e.scoreItem (.answer a) = .ok answer) ∨
      ∃ cause, e.scoreItem (.answer a) = .error (.formula cause) := by
  obtain ⟨p, hchoice, hformula⟩ := ha.choice
  have htext : p.formula.IsText := hformula.elim (fun hp => (hq p hp).formula) (·.1)
  have hsound : ∀ fault, p.formula.parseFormula e.registry e.limits ≠ .error (.fault fault) := by
    rcases hformula with hp | ⟨⟨text, htext⟩, hmax⟩
    · exact hr.sound p hp
    · rw [htext, Value.parseFormula_str]
      rcases Expr.parse_outcome e.registry text hmax with ⟨_, h⟩ | ⟨_, h⟩ | ⟨_, h⟩ <;> simp [h]
  rcases ha.typed.bindings_outcome with ⟨bound, hbound, -, hdoubles⟩ | ⟨name, htwice, -⟩
  · rw [e.scoreItem_answer hchoice hbound]
    rcases evaluate_of_sound hrules hdoubles htext hsound with ⟨x, hx⟩ | ⟨cause, hcause⟩
    · rw [hx]
      exact .inl ⟨_, rfl⟩
    · rw [hcause]
      exact .inr ⟨cause, rfl⟩
  · exact .inr ⟨_, e.scoreItem_of_bindings_error htwice⟩

/-- An answer that gives only what its choice lists has no score, if its formula does not
parse or refers to more. -/
theorem scoreItem_ne_ok_of_shown (hp : p.IsText) (ha : a.IsTyped) (hchoice : a.choice = some p)
    (hgiven : ∀ b ∈ a.values, b.1 ∈ p.variableNames)
    (hshown : p.Unparsed e.registry e.limits ∨ p.Undeclared e.registry e.limits)
    (answer : AnswerScore) : e.scoreItem (.answer a) ≠ .ok answer := by
  intro hscored
  rcases ha.bindings_outcome with ⟨bound, hbound, hnames, -⟩ | ⟨name, htwice, -⟩
  · rw [e.scoreItem_answer hchoice hbound, evaluate, parse_of_isText hp.formula] at hscored
    rcases hshown with ⟨refusal, hrefused⟩ | ⟨tree, hparsed, name, hname, hmissing⟩
    · rw [hrefused] at hscored
      cases hscored
    · simp only [hparsed] at hscored
      cases hvalue : tree.evaluate e.registry bound with
      | error f =>
          rw [hvalue] at hscored
          cases hscored
      | ok x =>
          have htext : name.IsText := by
            obtain ⟨text, htext⟩ := hp.formula
            rw [htext, Value.parseFormula_str] at hparsed
            exact Expr.Whole.isText tree (Expr.whole_of_parse hparsed).1 name hname
          obtain ⟨b, hb, rfl⟩ := List.mem_map.mp
            ((bound_iff hnames htext).mp (Expr.bound_of_evaluate tree hvalue name hname).2)
          exact hmissing (hgiven b hb)
  · rw [e.scoreItem_of_bindings_error htwice] at hscored
    cases hscored

/-! ### Sessions -/

/--
**A report decides whether a questionnaire can be scored.**  If it is clean, a session of
answers that complete their choices has a score, or the arithmetic of one of them fails.
If a possible answer is listed for its formula, no session has a score in which someone
chooses it and gives only the variables that it lists.
-/
theorem scoreSession_of_report {q : Questionnaire} {e : Engine} {r : Report}
    (hq : ∀ p ∈ q.possibleAnswers, p.IsText)
    (hids : (q.possibleAnswers.map (·.id)).Nodup) (hrules : e.registry.Answers)
    (hreport : q.report e.registry e.limits = .ok r) :
    (r.isClean = true → ∀ (s : Session) (sessionId : Value),
      (∀ item ∈ s.items, ∃ a, item = .answer a ∧ a.Completes q) →
        (∃ score, e.scoreSession s sessionId = .ok score) ∨
        ∃ index answerId refusal,
          e.scoreSession s sessionId = .error (.scoring index answerId (.eval refusal)) ∧
            (refusal.kind = .divisionByZero ∨ refusal.kind = .domainError)) ∧
    ∀ p ∈ q.possibleAnswers,
      p.id ∈ r.parseErrors.map Prod.fst ∨ p.id ∈ r.undeclared.map Prod.fst →
        ∀ (s : Session) (sessionId : Value),
          (∀ item ∈ s.items, ∃ a, item = .answer a ∧ a.Attempts q e.limits) →
          (∃ a, .answer a ∈ s.items ∧ a.choice = some p ∧ ∀ b ∈ a.values, b.1 ∈ p.variableNames) →
            ∃ index answerId cause,
              e.scoreSession s sessionId = .error (.scoring index answerId cause) := by
  have hr := q.reported hq hreport
  refine ⟨fun hclean s sessionId hs => ?_, fun p hp hlisted s sessionId hs hchosen => ?_⟩
  · rcases e.scoreSession_outcome s sessionId with ⟨score, hscore, -⟩ | ⟨before, item, after, f, hsplit,
      -, hfailed, hsession⟩
    · exact .inl ⟨score, hscore⟩
    · obtain ⟨a, rfl, ha⟩ := hs item (by simp [hsplit])
      rcases scoreItem_of_completes hq hrules hr hclean ha with
        ⟨answer, hscored⟩ | ⟨refusal, hrefused, hkind⟩
      · rw [hfailed] at hscored
        cases hscored
      · rw [hfailed] at hrefused
        cases hrefused
        exact .inr ⟨_, _, refusal, hsession, hkind⟩
  · rcases e.scoreSession_outcome s sessionId with ⟨score, -, hall⟩ | ⟨before, item, after, f, hsplit,
      -, hfailed, hsession⟩
    · obtain ⟨a, hmem, hchoice, hgiven⟩ := hchosen
      obtain ⟨a', ha', hattempts⟩ := hs _ hmem
      cases ha'
      obtain ⟨answer, hscored⟩ := hall _ hmem
      exact absurd hscored (scoreItem_ne_ok_of_shown (hq p hp) hattempts.typed hchoice hgiven
        (hr.shown hids hp hlisted) answer)
    · obtain ⟨a, rfl, ha⟩ := hs item (by simp [hsplit])
      rcases scoreItem_of_attempts hq hrules hr ha with ⟨answer, hscored⟩ | ⟨cause, hcause⟩
      · rw [hfailed] at hscored
        cases hscored
      · rw [hfailed] at hcause
        cases hcause
        exact ⟨_, _, cause, hsession⟩

end Engine

/-- A possible answer that is worth a ratio. -/
def PossibleAnswer.ratio (listed : List Value) : PossibleAnswer :=
  ⟨"ratio", .str "share", .str "x / y", listed⟩

/-- The questionnaire that offers nothing else. -/
def Questionnaire.ofRatio (listed : List Value) : Questionnaire where
  name := .str "shares"
  declaredVariables := []
  questions := [⟨.str "share", .str "How much of it?"⟩]
  possibleAnswers := [.ratio listed]
  metadata := .record []

theorem Questionnaire.isText_ofRatio {listed : List Value} (h : ∀ name ∈ listed, name.IsText) :
    ∀ p ∈ (ofRatio listed).possibleAnswers, p.IsText :=
  List.forall_mem_singleton.mpr ⟨⟨_, rfl⟩, ⟨_, rfl⟩, h⟩

/-- The session in which it is chosen once, with values for the variables. -/
def Session.ofRatio (listed : List Value) (values : List (Value × Value)) : Session :=
  ⟨.null, [.answer ⟨some (.ratio listed), values, .null⟩]⟩

/-- The theorem for a ratio, once with both variables listed and once with the divisor left
out.  With both, a division by nothing is all that can go wrong. -/
theorem Engine.scoreSession_of_report_ratio :
    ((∃ score, ({} : Engine).scoreSession (.ofRatio [.str "x", .str "y"]
        [(.str "x", .float 1), (.str "y", .float 0)]) .null = .ok score) ∨
      ∃ index answerId refusal, ({} : Engine).scoreSession (.ofRatio [.str "x", .str "y"]
        [(.str "x", .float 1), (.str "y", .float 0)]) .null =
          .error (.scoring index answerId (.eval refusal)) ∧
            (refusal.kind = .divisionByZero ∨ refusal.kind = .domainError)) ∧
    ∃ index answerId cause, ({} : Engine).scoreSession (.ofRatio [.str "x"] [(.str "x", .float 1)]) .null =
      .error (.scoring index answerId cause) := by
  constructor
  · have hreport : (Questionnaire.ofRatio [.str "x", .str "y"]).report Registry.standard {} = .ok
        { name := .str "shares", questions := 1, possibleAnswers := 1, maxDepth := 2,
          metrics := [("ratio", ⟨2, 3, [.str "x", .str "y"], []⟩)] } := by
      cbv
    have hdecided := Engine.scoreSession_of_report (e := {}) (Questionnaire.isText_ofRatio (by simp))
      (by simp [Questionnaire.ofRatio]) Registry.standard_answers hreport
    refine hdecided.1 rfl _ .null ?_
    simp only [Session.ofRatio, List.forall_mem_singleton]
    refine ⟨_, rfl, ?_, by simp, .ratio [.str "x", .str "y"], by simp [Questionnaire.ofRatio], rfl,
      by simp [PossibleAnswer.ratio]⟩
    simp only [Answer.IsTyped, List.forall_mem_cons]
    exact ⟨⟨⟨_, rfl⟩, .float 1⟩, ⟨⟨_, rfl⟩, .float 0⟩, by simp⟩
  · have hreport : (Questionnaire.ofRatio [.str "x"]).report Registry.standard {} = .ok
        { name := .str "shares", questions := 1, possibleAnswers := 1, maxDepth := 2,
          metrics := [("ratio", ⟨2, 3, [.str "x", .str "y"], []⟩)],
          undeclared := [("ratio", [.str "y"])],
          warnings := ["Formula of ratio uses undeclared variables: y"] } := by
      cbv
    have hdecided := Engine.scoreSession_of_report (e := {}) (Questionnaire.isText_ofRatio (by simp))
      (by simp [Questionnaire.ofRatio]) Registry.standard_answers hreport
    refine hdecided.2 (.ratio [.str "x"]) (by simp [Questionnaire.ofRatio])
      (.inr (by simp [PossibleAnswer.ratio])) _ .null ?_
      ⟨_, List.mem_singleton_self _, rfl, by simp [PossibleAnswer.ratio]⟩
    simp only [Session.ofRatio, List.forall_mem_singleton]
    refine ⟨_, rfl, ?_, .ratio [.str "x"], rfl, .inl (by simp [Questionnaire.ofRatio])⟩
    simp only [Answer.IsTyped, List.forall_mem_cons]
    exact ⟨⟨⟨_, rfl⟩, .float 1⟩, by simp⟩

end Scorecard
