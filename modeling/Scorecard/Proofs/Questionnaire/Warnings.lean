/-
What a report warns of, and the report as a whole.

The warnings say again what was found: formulas that do not parse, variables that are missing,
spare or undefined, and possible answers without a question.  They are made when the walk is over,
so they are a matter of the accounts that it kept.  Two findings may read the same, and are then
warned of once.
-/
import Mathlib.Data.String.Basic
import Scorecard.Proofs.Formula.Dependence
import Scorecard.Proofs.Questionnaire.Findings

namespace Scorecard

/-- A tree is not deeper than the limits admit. -/
theorem Expr.shallow_of_parse {registry : Registry} {limits : Limits} (hdepth : 1 ≤ limits.maxDepth)
    {text : String} {tree : Expr} (h : parse registry limits text = .ok tree) :
    (tree.depth : Int) ≤ limits.maxDepth := by
  unfold parse at h
  split at h
  · cases h
  · exact ((TokenList.parse_eq_ok_iff hdepth).mp h).shallow

namespace Report

/-! ### Names in order -/

/-- The text that a name is. -/
def textOf (name : Value) : String :=
  match name with
  | .str text => text
  | _ => ""

/-- Names in alphabetical order. -/
def alphabetical (names : List Value) : List String :=
  (names.map textOf).mergeSort fun a b => !decide (b < a)

theorem perm_alphabetical (names : List Value) : (alphabetical names).Perm (names.map textOf) :=
  List.mergeSort_perm _ _

theorem pairwise_alphabetical (names : List Value) : (alphabetical names).Pairwise (· ≤ ·) := by
  have hsorted := @List.pairwise_mergeSort String (fun a b => !decide (b < a)) ?_ ?_ (names.map textOf)
  · refine hsorted.imp fun hab => ?_
    simp only [Bool.not_eq_true', decide_eq_false_iff_not, not_lt] at hab
    exact hab
  · intro a b c hab hbc
    simp only [Bool.not_eq_true', decide_eq_false_iff_not, not_lt] at hab hbc ⊢
    exact hab.trans hbc
  · intro a b
    simp only [Bool.or_eq_true, Bool.not_eq_true', decide_eq_false_iff_not, not_lt]
    exact le_total a b

/-- Whatever reads texts as they are reads names that are texts. -/
theorem mapM_of_isText {read : Value → Option String} (hread : ∀ s, read (.str s) = some s) {names : List Value}
    (h : ∀ name ∈ names, name.IsText) : names.mapM read = some (names.map textOf) := by
  induction names with
  | nil => rfl
  | cons name names ih =>
      obtain ⟨⟨text, rfl⟩, hnames⟩ := List.forall_mem_cons.mp h
      rw [List.mapM_cons, hread, ih hnames]
      rfl

theorem sortedNames_of_isText {names : List Value} (h : ∀ name ∈ names, name.IsText) :
    sortedNames names = .ok (alphabetical names) := by
  unfold sortedNames
  rw [mapM_of_isText (fun _ => rfl) h]
  rfl

/-- Names as a warning lists them. -/
def commas (names : List Value) : String :=
  ", ".intercalate (alphabetical names)

theorem listed_of_isText {names : List Value} (h : ∀ name ∈ names, name.IsText) :
    listed names = .ok (commas names) := by
  rw [listed, sortedNames_of_isText h]
  rfl

/-! ### Messages -/

/-- What there is to be warned of, one message for each finding. -/
def messages (r : Report) : List String :=
  (r.parseErrors.map fun f => s!"Formula of {f.1} does not parse: {f.2}") ++
    (r.undeclared.map fun f => s!"Formula of {f.1} uses undeclared variables: {commas f.2}") ++
    (r.unused.map fun f => s!"Possible answer {f.1} declares unused variables: {commas f.2}") ++
    (if r.undefined = [] then [] else [s!"Undefined variable references: {commas r.undefined}"]) ++
    if r.orphans = [] then [] else ["Possible answers without a question: " ++ ", ".intercalate r.orphans]

theorem withoutRepetitions_eq (texts : List String) : withoutRepetitions texts = texts.eraseDups := by
  induction texts using List.reverseRecOn with
  | nil => rfl
  | append_singleton texts text ih =>
      have hlast : withoutRepetitions (texts ++ [text]) =
          if (withoutRepetitions texts).contains text then withoutRepetitions texts
          else withoutRepetitions texts ++ [text] := by
        simp [withoutRepetitions, List.foldl_append]
      rw [hlast, ih, Value.eraseDups_concat]
      by_cases hmem : text ∈ texts
      · simp [hmem]
      · simp [hmem]

variable {r : Report}

/-- The names that warnings list are texts. -/
structure Legible (r : Report) : Prop where
  undeclared : ∀ f ∈ r.undeclared, ∀ name ∈ f.2, name.IsText
  unused : ∀ f ∈ r.unused, ∀ name ∈ f.2, name.IsText
  undefined : ∀ name ∈ r.undefined, name.IsText

theorem warnOfEach_of_forall {α : Type} {findings : Findings α} {text : String → α → Except Fault String}
    {message : String × α → String} (h : ∀ f ∈ findings, text f.1 f.2 = .ok (message f)) :
    warnOfEach findings text = .ok (findings.map message) :=
  mapM_of_forall h

/-- **Each finding is warned of**, and what reads the same once. -/
theorem warningsOf_eq (h : r.Legible) : r.warningsOf = .ok r.messages.eraseDups := by
  have hunparsed : warnOfEach r.parseErrors (fun id message => .ok s!"Formula of {id} does not parse: {message}") =
      .ok (r.parseErrors.map fun f => s!"Formula of {f.1} does not parse: {f.2}") :=
    warnOfEach_of_forall fun f _ => rfl
  have hundeclared : warnOfEach r.undeclared (fun id names =>
      (listed names).map fun text => s!"Formula of {id} uses undeclared variables: {text}") =
      .ok (r.undeclared.map fun f => s!"Formula of {f.1} uses undeclared variables: {commas f.2}") :=
    warnOfEach_of_forall fun f hf => by rw [listed_of_isText (h.undeclared f hf)]; rfl
  have hunused : warnOfEach r.unused (fun id names =>
      (listed names).map fun text => s!"Possible answer {id} declares unused variables: {text}") =
      .ok (r.unused.map fun f => s!"Possible answer {f.1} declares unused variables: {commas f.2}") :=
    warnOfEach_of_forall fun f hf => by rw [listed_of_isText (h.unused f hf)]; rfl
  unfold warningsOf messages
  rw [hunparsed, hundeclared, hunused, listed_of_isText h.undefined]
  by_cases hundefined : r.undefined = []
  · by_cases horphans : r.orphans = []
    · simp [hundefined, horphans, withoutRepetitions_eq, bind, Except.bind]
    · simp [hundefined, horphans, withoutRepetitions_eq, bind, Except.bind]
  · by_cases horphans : r.orphans = []
    · simp [hundefined, horphans, withoutRepetitions_eq, bind, Except.bind, Except.map]
    · simp [hundefined, horphans, withoutRepetitions_eq, bind, Except.bind, Except.map]

theorem messages_eq_nil_iff : r.messages = [] ↔ r.isClean = true ∧ r.unused = [] := by
  unfold messages isClean
  by_cases hundefined : r.undefined = []
  · by_cases horphans : r.orphans = []
    · simp [hundefined, horphans, and_assoc]
    · simp [hundefined, horphans]
  · simp [hundefined]

/-! ### The whole report -/

section

variable {q : Questionnaire} {registry : Registry} {limits : Limits} {ps : List PossibleAnswer}

/-- What is found belongs to a possible answer. -/
theorem Lists.exists_of_mem {α : Type} {Shows : PossibleAnswer → Prop} {Exactly : PossibleAnswer → α → Prop}
    {findings : Findings α} (h : Lists Shows Exactly ps findings) {f : String × α} (hf : f ∈ findings) :
    ∃ p ∈ ps, p.id = f.1 ∧ Exactly p f.2 := by
  obtain ⟨p, hp, hid⟩ := List.mem_map.mp (h.inOrder.subset (List.mem_map_of_mem hf))
  exact ⟨p, hp, hid, h.exact p hp f.2 (hid ▸ hf)⟩

/-- A formula that has a tree is a text that has it. -/
theorem exists_parse_of_parses {p : PossibleAnswer} (hp : p.formula.IsText) {tree : Expr}
    (h : p.Parses registry limits tree) : ∃ text, Expr.parse registry limits text = .ok tree := by
  obtain ⟨text, htext⟩ := hp
  rw [PossibleAnswer.Parses, htext, Value.parseFormula_str] at h
  exact ⟨text, h⟩

/-- What the walk found can be warned of. -/
theorem legible_of_walk (hps : ∀ p ∈ ps, p.IsText) (hplaced : Placed q ps r)
    (hmeasured : Measured registry limits ps r) : r.Legible where
  undeclared := by
    intro f hf name hname
    obtain ⟨p, hp, -, tree, hparsed, -, hmem⟩ := hmeasured.undeclared.exists_of_mem hf
    obtain ⟨text, htext⟩ := exists_parse_of_parses (hps p hp).formula hparsed
    exact (Expr.whole_of_parse htext).1.isText tree name ((hmem name).mp hname).1
  unused := by
    intro f hf name hname
    obtain ⟨p, hp, -, tree, -, -, hmem⟩ := hmeasured.unused.exists_of_mem hf
    exact (hps p hp).variableNames name ((hmem name).mp hname).1
  undefined := by
    intro name hname
    obtain ⟨-, ⟨p, hp, hlisted⟩, -⟩ := (hplaced.undefined.2 name).mp hname
    exact (hps p hp).variableNames name hlisted

theorem foldl_max_le {bound : Int} {depths : List Nat} (h : ∀ n ∈ depths, (n : Int) ≤ bound) {start : Nat}
    (hstart : (start : Int) ≤ bound) : (depths.foldl max start : Nat) ≤ bound := by
  induction depths generalizing start with
  | nil => exact hstart
  | cons n rest ih =>
      obtain ⟨hn, hrest⟩ := List.forall_mem_cons.mp h
      exact ih hrest (by omega)

/-- The greatest depth is one that the limits admit. -/
theorem Measured.shallow (h : Measured registry limits ps r) (hps : ∀ p ∈ ps, p.IsText)
    (hdepth : 1 ≤ limits.maxDepth) : (r.maxDepth : Int) ≤ limits.maxDepth := by
  rw [h.maxDepth]
  refine foldl_max_le (fun n hn => ?_) (by omega)
  obtain ⟨f, hf, rfl⟩ := List.mem_map.mp hn
  obtain ⟨p, hp, -, tree, hparsed, hmetrics⟩ := h.metrics.exists_of_mem hf
  obtain ⟨text, htext⟩ := exists_parse_of_parses (hps p hp).formula hparsed
  rw [(Expr.metrics_eq_ok_iff.mp hmetrics).2]
  exact Expr.shallow_of_parse hdepth htext

/-- A possible answer is measured, or its formula is an error. -/
theorem Measured.either (h : Measured registry limits ps r) (hps : ∀ p ∈ ps, p.IsText)
    (htokens : 0 ≤ limits.maxTokens) {p : PossibleAnswer} (hp : p ∈ ps) :
    (p.id ∈ r.metrics.map Prod.fst ∧ p.id ∉ r.parseErrors.map Prod.fst ∧
        ∃ tree, p.formula.parseFormula registry limits = .ok tree) ∨
      (p.id ∉ r.metrics.map Prod.fst ∧ p.id ∈ r.parseErrors.map Prod.fst ∧
        ∃ failure, p.formula.parseFormula registry limits = .error failure) := by
  rw [h.metrics.shown p hp, h.parseErrors.shown p hp]
  rcases parseFormula_outcome htokens (hps p hp).formula with ⟨tree, hparsed, -⟩ | ⟨refusal, hrefused⟩
  · refine .inl ⟨⟨tree, hparsed⟩, ?_, tree, hparsed⟩
    rintro ⟨refusal, hrefused⟩
    cases hrefused.symm.trans hparsed
  · refine .inr ⟨?_, ⟨refusal, hrefused⟩, _, hrefused⟩
    rintro ⟨tree, hparsed⟩
    cases hrefused.symm.trans hparsed

end

/-- The accounts of a report.  They are those of all possible answers, where each of these is either
measured or has a formula that is refused, and warnings say all of it again. -/
structure Accounts (q : Questionnaire) (registry : Registry) (limits : Limits) (r : Report) : Prop
    extends Placed q q.possibleAnswers r, Measured registry limits q.possibleAnswers r where
  either : ∀ p ∈ q.possibleAnswers,
    (p.id ∈ r.metrics.map Prod.fst ∧ p.id ∉ r.parseErrors.map Prod.fst ∧
        ∃ tree, p.formula.parseFormula registry limits = .ok tree) ∨
      (p.id ∉ r.metrics.map Prod.fst ∧ p.id ∈ r.parseErrors.map Prod.fst ∧
        ∃ failure, p.formula.parseFormula registry limits = .error failure)
  shallow : (r.maxDepth : Int) ≤ limits.maxDepth
  distinct : r.warnings.Nodup
  warned : r.warnings = r.messages.eraseDups
  quiet : r.warnings = [] ↔ r.isClean = true ∧ r.unused = []

theorem eraseDups_eq_nil_iff {texts : List String} : texts.eraseDups = [] ↔ texts = [] := by
  simp only [List.eq_nil_iff_forall_not_mem, List.mem_eraseDups]

end Report

/-- **A report finds everything, and nothing else.**  For a questionnaire whose names and formulas are
texts and whose possible answers have identifiers of their own, there is a report, whatever the
formulas are.  Each possible answer is measured, or its formula is listed with its error, and the
accounts of variables, questions, functions and depths are those of exactly the possible answers
that show something.  The warnings are the findings in words, none of them twice, and there is none
only where there is no finding. -/
theorem Questionnaire.report_accounts {q : Questionnaire} (hq : q.Named)
    (hids : (q.possibleAnswers.map (·.id)).Nodup) (registry : Registry) (limits : Limits)
    (hdepth : 1 ≤ limits.maxDepth) (htokens : 0 ≤ limits.maxTokens) :
    ∃ r, q.report registry limits = .ok r ∧ r.Accounts q registry limits := by
  have hquestions : Report.checkNames (q.questions.map (·.name)) = .ok () :=
    Report.checkNames_of_isText (List.forall_mem_map.mpr hq.questions)
  have hdeclared : Report.checkNames (q.declaredVariables.map (·.name)) = .ok () :=
    Report.checkNames_of_isText (List.forall_mem_map.mpr hq.declared)
  have hplaced : Report.Placed q []
      { name := q.name, questions := q.questions.length, possibleAnswers := q.possibleAnswers.length } :=
    ⟨⟨List.nodup_nil, by simp⟩, rfl⟩
  have hmeasured : Report.Measured registry limits []
      { name := q.name, questions := q.questions.length, possibleAnswers := q.possibleAnswers.length } :=
    ⟨.nil, .nil, .nil, .nil, ⟨List.nodup_nil, by simp⟩, rfl⟩
  obtain ⟨walked, hwalk, hplaced, hmeasured⟩ :=
    Report.exists_walk hq htokens hq.possible (by rwa [List.nil_append]) hplaced hmeasured
  rw [List.nil_append] at hplaced hmeasured
  have hwarnings := Report.warningsOf_eq (Report.legible_of_walk hq.possible hplaced hmeasured)
  refine ⟨{ walked with warnings := walked.messages.eraseDups }, ?_, ?_⟩
  · rw [report, hquestions, hdeclared]
    simp only [bind, Except.bind, hwalk, hwarnings]
  · obtain ⟨hundefined, horphans⟩ := hplaced
    have hshallow := hmeasured.shallow hq.possible hdepth
    have heither := fun p hp => hmeasured.either hq.possible htokens (p := p) hp
    obtain ⟨hmetrics, herrors, hundeclared, hunused, husage, hmax⟩ := hmeasured
    refine ⟨⟨hundefined, horphans⟩, ⟨hmetrics, herrors, hundeclared, hunused, husage, hmax⟩, heither, hshallow,
      Value.nodup_eraseDups _, rfl, ?_⟩
    exact Report.eraseDups_eq_nil_iff.trans Report.messages_eq_nil_iff

/-- A formula that does not parse, and one of a question that does not exist, which refers to a
variable that is not listed, and to one that is, and not to another. -/
def Questionnaire.mixed : Questionnaire where
  name := .str "Mixed"
  declaredVariables := [⟨.str "b", .null⟩]
  questions := [⟨.str "Q1", .str ""⟩]
  possibleAnswers :=
    [⟨"bad", .str "Q1", .str "floor(x", [.str "x"]⟩,
      ⟨"lost", .str "Nowhere", .str "a + b", [.str "b", .str "c"]⟩]
  metadata := .null

theorem Questionnaire.named_mixed : mixed.Named where
  declared := by simp [mixed]
  questions := by simp [mixed]
  possible := by
    simp only [mixed, List.forall_mem_cons]
    refine ⟨⟨⟨_, rfl⟩, ⟨_, rfl⟩, by simp⟩, ⟨⟨_, rfl⟩, ⟨_, rfl⟩, by simp⟩, by simp⟩

/-- The theorem for that questionnaire. -/
theorem Questionnaire.report_accounts_mixed :
    mixed.Named ∧ (mixed.possibleAnswers.map (·.id)).Nodup ∧
    ∃ r, mixed.report Registry.standard {} = .ok r ∧ r.Accounts mixed Registry.standard {} ∧
      "bad" ∈ r.parseErrors.map Prod.fst ∧ "bad" ∉ r.metrics.map Prod.fst ∧
      "lost" ∈ r.metrics.map Prod.fst ∧ "lost" ∈ r.undeclared.map Prod.fst ∧
      "lost" ∈ r.unused.map Prod.fst ∧ r.orphans = ["lost"] ∧
      (∀ name, name ∈ r.undefined ↔ name = .str "x" ∨ name = .str "c") ∧ r.warnings ≠ [] := by
  have hids : (mixed.possibleAnswers.map (·.id)).Nodup := by
    show ["bad", "lost"].Nodup
    decide
  have hbad : (Value.str "floor(x").parseFormula Registry.standard {} =
      .error (.formula (.parse (.unclosed 5))) := by
    cbv
  have hlost : (Value.str "a + b").parseFormula Registry.standard {} =
      .ok (.binary .add (.variable (.str "a") (some 0)) (.variable (.str "b") (some 4)) (some 2)) := by
    cbv
  obtain ⟨r, hreport, haccounts⟩ :=
    report_accounts named_mixed hids Registry.standard {} (by decide) (by decide)
  have hfirst : (⟨"bad", .str "Q1", .str "floor(x", [.str "x"]⟩ : PossibleAnswer) ∈ mixed.possibleAnswers := by
    simp [mixed]
  have hsecond : (⟨"lost", .str "Nowhere", .str "a + b", [.str "b", .str "c"]⟩ : PossibleAnswer) ∈
      mixed.possibleAnswers := by
    simp [mixed]
  have hrefused := (haccounts.parseErrors.shown _ hfirst).mpr ⟨_, hbad⟩
  have hunmeasured : "bad" ∉ r.metrics.map Prod.fst := by
    rcases haccounts.either _ hfirst with ⟨-, hnone, -⟩ | ⟨hnone, -⟩
    · exact absurd hrefused hnone
    · exact hnone
  refine ⟨named_mixed, hids, r, hreport, haccounts, hrefused, hunmeasured,
    (haccounts.metrics.shown _ hsecond).mpr ⟨_, hlost⟩,
    (haccounts.undeclared.shown _ hsecond).mpr ⟨_, hlost, .str "a", ?_⟩,
    (haccounts.unused.shown _ hsecond).mpr ⟨_, hlost, .str "c", ?_⟩, haccounts.orphans, ?_, ?_⟩
  · simp [Expr.variableOccurrences]
  · simp [Expr.variableOccurrences]
  · intro name
    rw [haccounts.undefined.2 name]
    simp only [mixed, List.mem_cons, List.not_mem_nil, or_false, exists_eq_or_imp, exists_eq_left, forall_eq]
    constructor
    · rintro ⟨-, rfl | rfl | rfl, hundeclared⟩
      · exact .inl rfl
      · exact absurd rfl hundeclared
      · exact .inr rfl
    · rintro (rfl | rfl)
      · simp
      · simp
  · intro hquiet
    obtain ⟨hclean, -⟩ := haccounts.quiet.mp hquiet
    have hnone : r.parseErrors = [] := by
      simp only [Report.isClean, Bool.and_eq_true, List.isEmpty_iff] at hclean
      exact hclean.1.1.1
    rw [hnone] at hrefused
    cases hrefused

end Scorecard
