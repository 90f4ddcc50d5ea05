/-
What a report finds.

The report walks over the possible answers and keeps its findings by identifier.  The
two that matter for scoring are about the formula alone: that it does not parse, and
that it refers to a variable that its possible answer does not list.  One step adds an
identifier to such a finding exactly when its possible answer shows it, so a whole
report lists exactly the identifiers of those that do.

A step that meets a fault ends the report.  So where there is a report, every formula
either parses or is refused with an error of its own.
-/
import Mathlib.Data.List.Nodup
import Scorecard.Proofs.Formula.Trees
import Scorecard.Proofs.Steps
import Scorecard.Questionnaire.Report

namespace Scorecard

/-! ### Possible answers of texts -/

/-- The fields of a possible answer are texts. -/
structure PossibleAnswer.IsText (p : PossibleAnswer) : Prop where
  question : p.question.IsText
  formula : p.formula.IsText
  variableNames : ∀ name ∈ p.variableNames, name.IsText

namespace PossibleAnswer

variable (registry : Registry) (limits : Limits)

/-- The formula does not parse. -/
def Unparsed (p : PossibleAnswer) : Prop :=
  ∃ refusal, p.formula.parseFormula registry limits = .error (.formula refusal)

/-- The formula parses, and refers to a variable that is not listed. -/
def Undeclared (p : PossibleAnswer) : Prop :=
  ∃ tree, p.formula.parseFormula registry limits = .ok tree ∧
    ∃ name ∈ tree.variableOccurrences, name ∉ p.variableNames

end PossibleAnswer

/-- A text is parsed as it is. -/
theorem Value.parseFormula_str (registry : Registry) (limits : Limits) (text : String) :
    (Value.str text).parseFormula registry limits = Expr.parse registry limits text :=
  rfl

namespace Report

/-! ### Findings and names -/

theorem mem_put {α : Type} (id : String) (finding : α) (findings : Findings α) (i : String) :
    i ∈ (Findings.put id finding findings).map Prod.fst ↔ i ∈ findings.map Prod.fst ∨ id = i := by
  induction findings with
  | nil => simp [Findings.put, eq_comm]
  | cons f rest ih =>
      obtain ⟨j, g⟩ := f
      rw [Findings.put]
      split
      · rename_i hj
        obtain rfl := beq_iff_eq.mp hj
        constructor
        · exact .inl
        · rintro (h | rfl)
          · exact h
          · exact List.mem_cons_self
      · simp only [List.map_cons, List.mem_cons, ih, or_assoc]

theorem contains_iff {names : List Value} {name : Value} (hname : name.IsText) :
    contains names name = true ↔ name ∈ names := by
  simp only [contains, List.any_eq_true, Value.same_text_iff hname, exists_eq_right]

/-- Nothing of some texts is left without the others when all of it is among them. -/
theorem without_isEmpty_iff {names others : List Value} (hnames : ∀ name ∈ names, name.IsText) :
    (without names others).isEmpty = true ↔ ∀ name ∈ names, name ∈ others := by
  rw [without, List.isEmpty_iff, List.filter_eq_nil_iff]
  simp only [Value.mem_distinct hnames, Bool.not_eq_true', Bool.not_eq_false]
  exact forall₂_congr fun name hname => contains_iff (hnames name hname)

/-! ### One possible answer -/

variable {q : Questionnaire} {registry : Registry} {limits : Limits}

/-- What the question of a possible answer shows. -/
def noteQuestion (q : Questionnaire) (r : Report) (p : PossibleAnswer) : Report :=
  if contains (q.questions.map (·.name)) p.question then r
  else { r with orphans := r.orphans ++ [p.id] }

/-- What the variables that it lists show. -/
def noteVariables (q : Questionnaire) (r : Report) (p : PossibleAnswer) : Report :=
  if q.declaredVariables.isEmpty then r
  else
    let undefined := without p.variableNames (q.declaredVariables.map (·.name))
    { r with undefined := r.undefined ++ without undefined r.undefined }

/-- What its formula shows. -/
def addFormula (registry : Registry) (limits : Limits) (r : Report) (p : PossibleAnswer) :
    Except Fault Report :=
  match p.formula.parseFormula registry limits with
  | .error (.fault f) => .error f
  | .error (.formula e) => .ok { r with parseErrors := Findings.put p.id e.message r.parseErrors }
  | .ok tree => do
    let m ← tree.metrics
    checkNames p.variableNames
    .ok (r.addMetrics p m)

/-- A possible answer is looked at in three ways, one after the other. -/
theorem addPossibleAnswer_eq (q : Questionnaire) (registry : Registry) (limits : Limits) (r : Report)
    (p : PossibleAnswer) :
    addPossibleAnswer q registry limits r p = (do
      checkNames [p.question]
      if !q.declaredVariables.isEmpty then checkNames p.variableNames
      addFormula registry limits (noteVariables q (noteQuestion q r p) p) p) :=
  rfl

/-- Neither question nor variables say anything about the formula. -/
theorem findings_note (q : Questionnaire) (r : Report) (p : PossibleAnswer) :
    (noteVariables q (noteQuestion q r p) p).parseErrors = r.parseErrors ∧
      (noteVariables q (noteQuestion q r p) p).undeclared = r.undeclared := by
  unfold noteVariables noteQuestion
  split <;> split <;> exact ⟨rfl, rfl⟩

/-- The identifiers that a report lists are those that another lists, and those of the
possible answers among `ps` that show the finding. -/
structure Extends (registry : Registry) (limits : Limits) (r : Report) (ps : List PossibleAnswer)
    (r' : Report) : Prop where
  /-- There was no fault. -/
  sound : ∀ p ∈ ps, ∀ fault, p.formula.parseFormula registry limits ≠ .error (.fault fault)
  parseErrors : ∀ id, id ∈ r'.parseErrors.map Prod.fst ↔
    id ∈ r.parseErrors.map Prod.fst ∨ ∃ p ∈ ps, p.Unparsed registry limits ∧ p.id = id
  undeclared : ∀ id, id ∈ r'.undeclared.map Prod.fst ↔
    id ∈ r.undeclared.map Prod.fst ∨ ∃ p ∈ ps, p.Undeclared registry limits ∧ p.id = id

theorem Extends.nil (r : Report) : Extends registry limits r [] r :=
  ⟨by simp, by simp, by simp⟩

theorem Extends.cons {r r' r'' : Report} {p : PossibleAnswer} {ps : List PossibleAnswer}
    (hfirst : Extends registry limits r [p] r') (hrest : Extends registry limits r' ps r'') :
    Extends registry limits r (p :: ps) r'' where
  sound := List.forall_mem_cons.mpr ⟨hfirst.sound p (by simp), hrest.sound⟩
  parseErrors id := by
    rw [hrest.parseErrors, hfirst.parseErrors]
    simp only [List.mem_cons, List.not_mem_nil, or_false, exists_eq_left, exists_eq_or_imp, or_assoc]
  undeclared id := by
    rw [hrest.undeclared, hfirst.undeclared]
    simp only [List.mem_cons, List.not_mem_nil, or_false, exists_eq_left, exists_eq_or_imp, or_assoc]

/-- A step that succeeds is one through the formula. -/
theorem addFormula_of_addPossibleAnswer {r r' : Report} {p : PossibleAnswer}
    (h : addPossibleAnswer q registry limits r p = .ok r') :
    addFormula registry limits (noteVariables q (noteQuestion q r p) p) p = .ok r' := by
  rw [addPossibleAnswer_eq] at h
  obtain ⟨-, -, h⟩ := bind_eq_ok_iff.mp h
  simp only at h
  split at h
  · obtain ⟨-, -, h⟩ := bind_eq_ok_iff.mp h
    exact h
  · exact h

/-- Nothing is left of the variables of a formula when all of them are listed. -/
theorem without_isEmpty_iff_declared {p : PossibleAnswer} {tree : Expr} {m : Metrics}
    (hp : p.IsText) (hparsed : p.formula.parseFormula registry limits = .ok tree)
    (hm : tree.metrics = .ok m) :
    (without m.variableNames p.variableNames).isEmpty = true ↔ ¬ p.Undeclared registry limits := by
  obtain ⟨text, htext⟩ := hp.formula
  have hwhole : tree.Whole := by
    rw [htext, Value.parseFormula_str] at hparsed
    exact (Expr.whole_of_parse hparsed).1
  have htexts := Expr.Whole.isText tree hwhole
  have hnames : m.variableNames = Value.distinct tree.variableOccurrences := by
    unfold Expr.metrics at hm
    split at hm <;> cases hm
    rfl
  rw [hnames, without_isEmpty_iff fun name hname => htexts name ((Value.mem_distinct htexts name).mp hname)]
  simp only [Value.mem_distinct htexts, PossibleAnswer.Undeclared, hparsed, Except.ok.injEq,
    exists_eq_left', not_exists, not_and, not_not]

/-- The formula of a possible answer shows what the report adds, and nothing else. -/
theorem extends_of_addFormula {found r' : Report} {p : PossibleAnswer} (hp : p.IsText)
    (h : addFormula registry limits found p = .ok r') : Extends registry limits found [p] r' := by
  unfold addFormula at h
  split at h
  · cases h
  · rename_i refusal hrefused
    cases h
    have hunparsed : p.Unparsed registry limits := ⟨refusal, hrefused⟩
    have hdeclared : ¬ p.Undeclared registry limits := by
      rintro ⟨tree, htree, -⟩
      rw [hrefused] at htree
      cases htree
    refine ⟨by simp [hrefused], fun id => ?_, fun id => ?_⟩
    · simp [mem_put, hunparsed]
    · simp [hdeclared]
  · rename_i tree hparsed
    obtain ⟨m, hm, h⟩ := bind_eq_ok_iff.mp h
    obtain ⟨-, -, h⟩ := bind_eq_ok_iff.mp h
    cases h
    have hunparsed : ¬ p.Unparsed registry limits := by
      rintro ⟨refusal, hrefused⟩
      rw [hparsed] at hrefused
      cases hrefused
    have hdeclared := without_isEmpty_iff_declared hp hparsed hm
    refine ⟨by simp [hparsed], fun id => ?_, fun id => ?_⟩
    · simp [addMetrics, hunparsed]
    · simp only [addMetrics, List.mem_singleton, exists_eq_left]
      split
      · rename_i hempty
        simp [hdeclared.mp hempty]
      · rename_i hleft
        simp [mem_put, not_not.mp (mt hdeclared.mpr hleft)]

/-- **One step adds what its possible answer shows.** -/
theorem extends_of_addPossibleAnswer {r r' : Report} {p : PossibleAnswer} (hp : p.IsText)
    (h : addPossibleAnswer q registry limits r p = .ok r') : Extends registry limits r [p] r' := by
  obtain ⟨hsound, hparse, hundeclared⟩ :=
    extends_of_addFormula hp (addFormula_of_addPossibleAnswer h)
  obtain ⟨hsameErrors, hsameUndeclared⟩ := findings_note q r p
  rw [hsameErrors] at hparse
  rw [hsameUndeclared] at hundeclared
  exact ⟨hsound, hparse, hundeclared⟩

/-- **The walk adds what each of its possible answers shows.** -/
theorem extends_of_foldlM {ps : List PossibleAnswer} (hps : ∀ p ∈ ps, p.IsText) :
    ∀ {r r' : Report}, ps.foldlM (addPossibleAnswer q registry limits) r = .ok r' →
      Extends registry limits r ps r' := by
  induction ps with
  | nil =>
      intro r r' h
      cases h
      exact .nil r
  | cons p rest ih =>
      intro r r' h
      obtain ⟨hp, hrest⟩ := List.forall_mem_cons.mp hps
      rw [List.foldlM_cons] at h
      obtain ⟨mid, hfirst, hothers⟩ := bind_eq_ok_iff.mp h
      exact (extends_of_addPossibleAnswer hp hfirst).cons (ih hrest hothers)

end Report

/-! ### The whole report -/

namespace Questionnaire

variable {q : Questionnaire} {registry : Registry} {limits : Limits} {r : Report}

/-- What a report lists, when there is one. -/
structure Reported (q : Questionnaire) (registry : Registry) (limits : Limits) (r : Report) : Prop where
  sound : ∀ p ∈ q.possibleAnswers, ∀ fault,
    p.formula.parseFormula registry limits ≠ .error (.fault fault)
  parseErrors : ∀ id, id ∈ r.parseErrors.map Prod.fst ↔
    ∃ p ∈ q.possibleAnswers, p.Unparsed registry limits ∧ p.id = id
  undeclared : ∀ id, id ∈ r.undeclared.map Prod.fst ↔
    ∃ p ∈ q.possibleAnswers, p.Undeclared registry limits ∧ p.id = id

/-- **A report lists exactly the possible answers that do not parse, and those that refer
to variables they do not list.** -/
theorem reported (hq : ∀ p ∈ q.possibleAnswers, p.IsText) (h : q.report registry limits = .ok r) :
    q.Reported registry limits r := by
  unfold report at h
  obtain ⟨-, -, h⟩ := bind_eq_ok_iff.mp h
  obtain ⟨-, -, h⟩ := bind_eq_ok_iff.mp h
  obtain ⟨walked, hwalk, h⟩ := bind_eq_ok_iff.mp h
  obtain ⟨warnings, -, h⟩ := bind_eq_ok_iff.mp h
  cases h
  have hextends := Report.extends_of_foldlM hq hwalk
  exact ⟨hextends.sound, by simpa using hextends.parseErrors, by simpa using hextends.undeclared⟩

variable {p : PossibleAnswer}

/-- What has no finding parses, and lists its variables. -/
theorem Reported.exists_tree (hr : q.Reported registry limits r) (hp : p ∈ q.possibleAnswers)
    (hunparsed : p.id ∉ r.parseErrors.map Prod.fst) (hundeclared : p.id ∉ r.undeclared.map Prod.fst) :
    ∃ tree, p.formula.parseFormula registry limits = .ok tree ∧
      ∀ name ∈ tree.variableOccurrences, name ∈ p.variableNames := by
  rw [hr.parseErrors] at hunparsed
  rw [hr.undeclared] at hundeclared
  rcases hparsed : p.formula.parseFormula registry limits with (refusal | fault) | tree
  case error.formula => exact absurd ⟨p, hp, ⟨refusal, hparsed⟩, rfl⟩ hunparsed
  case error.fault => exact absurd hparsed (hr.sound p hp fault)
  case ok =>
    refine ⟨tree, rfl, fun name hname => ?_⟩
    by_contra hmissing
    exact hundeclared ⟨p, hp, ⟨tree, hparsed, name, hname, hmissing⟩, rfl⟩

/-- Where identifiers are unique, what is listed shows what it is listed for. -/
theorem Reported.shown (hr : q.Reported registry limits r)
    (hids : (q.possibleAnswers.map (·.id)).Nodup) (hp : p ∈ q.possibleAnswers)
    (h : p.id ∈ r.parseErrors.map Prod.fst ∨ p.id ∈ r.undeclared.map Prod.fst) :
    p.Unparsed registry limits ∨ p.Undeclared registry limits := by
  rw [hr.parseErrors, hr.undeclared] at h
  rcases h with ⟨p', hp', hshows, hid⟩ | ⟨p', hp', hshows, hid⟩
  · rw [← List.inj_on_of_nodup_map hids hp' hp hid]
    exact .inl hshows
  · rw [← List.inj_on_of_nodup_map hids hp' hp hid]
    exact .inr hshows

end Questionnaire

end Scorecard
