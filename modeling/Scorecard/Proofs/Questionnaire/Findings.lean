/-
All that a report lists.

The walk over the possible answers keeps several accounts at once, some before a formula is parsed
and some after, and those after only where it parses.  Each account is about the possible answers
that were walked over so far.  That is the invariant: after some possible answers the accounts are
those of exactly these, and one step brings them up to one more.

Where identifiers are unique, a finding is never put in the place of an earlier one.  So an account
gets longer at its end, and stands in the order of the possible answers.
-/
import Scorecard.Proofs.Formula.Language
import Scorecard.Proofs.Formula.Places
import Scorecard.Proofs.Questionnaire.Report

namespace Scorecard

/-- The names that a questionnaire compares are texts, and so are its formulas. -/
structure Questionnaire.Named (q : Questionnaire) : Prop where
  declared : ∀ v ∈ q.declaredVariables, v.name.IsText
  questions : ∀ x ∈ q.questions, x.name.IsText
  possible : ∀ p ∈ q.possibleAnswers, p.IsText

/-! ### What a possible answer shows -/

namespace PossibleAnswer

variable (registry : Registry) (limits : Limits)

/-- The formula has this tree. -/
def Parses (p : PossibleAnswer) (tree : Expr) : Prop :=
  p.formula.parseFormula registry limits = .ok tree

/-- The formula parses, and does not refer to some variable that is listed. -/
def Unused (p : PossibleAnswer) : Prop :=
  ∃ tree, p.Parses registry limits tree ∧ ∃ name ∈ p.variableNames, name ∉ tree.variableOccurrences

/-- The formula parses, and calls the function. -/
def calls (p : PossibleAnswer) (name : String) : Bool :=
  match p.formula.parseFormula registry limits with
  | .ok tree => Report.contains tree.callOccurrences (.str name)
  | .error _ => false

end PossibleAnswer

namespace Report

/-- The names are those with a property, each once. -/
def Comprises (names : List Value) (Member : Value → Prop) : Prop :=
  names.Nodup ∧ ∀ name, name ∈ names ↔ Member name

/-- The findings are about the possible answers that show something, in their order, and they are
what these show. -/
structure Lists {α : Type} (Shows : PossibleAnswer → Prop) (Exactly : PossibleAnswer → α → Prop)
    (ps : List PossibleAnswer) (findings : Findings α) : Prop where
  inOrder : (findings.map Prod.fst).Sublist (ps.map (·.id))
  shown : ∀ p ∈ ps, p.id ∈ findings.map Prod.fst ↔ Shows p
  exact : ∀ p ∈ ps, ∀ finding, (p.id, finding) ∈ findings → Exactly p finding

/-- Each name stands once with its count, unless that is zero. -/
def Counts (usage : List (String × Nat)) (count : String → Nat) : Prop :=
  (usage.map Prod.fst).Nodup ∧ ∀ name, usage.lookup name = if count name = 0 then none else some (count name)

variable {q : Questionnaire} {registry : Registry} {limits : Limits} {r : Report} {p : PossibleAnswer}
  {ps : List PossibleAnswer}

/-! ### Sets of names -/

section

variable {names others : List Value} {P Q : Value → Prop}

theorem Comprises.congr (h : Comprises names P) (hsame : ∀ name, P name ↔ Q name) : Comprises names Q :=
  ⟨h.1, fun name => (h.2 name).trans (hsame name)⟩

theorem comprises_without (hnames : ∀ name ∈ names, name.IsText) (others : List Value) :
    Comprises (without names others) fun name => name ∈ names ∧ name ∉ others := by
  refine ⟨(Value.nodup_distinct hnames).filter _, fun name => ?_⟩
  rw [without, List.mem_filter, Value.mem_distinct hnames]
  refine and_congr_right fun hname => ?_
  rw [Bool.not_eq_true', ← Bool.not_eq_true, contains_iff (hnames name hname)]

/-- Names are added to a set unless they are there already. -/
theorem Comprises.union (h : Comprises names P) (hothers : ∀ name ∈ others, name.IsText) :
    Comprises (names ++ without others names) fun name => P name ∨ name ∈ others := by
  obtain ⟨hnodup, hmem⟩ := comprises_without hothers names
  refine ⟨h.1.append hnodup fun name hname hnew => ((hmem name).mp hnew).2 hname, fun name => ?_⟩
  rw [List.mem_append, hmem, h.2]
  by_cases hname : P name
  · simp [hname]
  · simp [hname, mt (h.2 name).mp hname]

theorem checkNames_of_isText (h : ∀ name ∈ names, name.IsText) : checkNames names = .ok () := by
  rw [checkNames, if_pos (List.all_eq_true.mpr fun name hname => (h name hname).canBeKey)]

end

/-! ### Findings in order -/

section

variable {α : Type} {Shows : PossibleAnswer → Prop} {Exactly : PossibleAnswer → α → Prop}
  {findings : Findings α} {finding : α} {id : String}

/-- A finding under a new identifier comes last. -/
theorem put_of_not_mem (h : id ∉ findings.map Prod.fst) (finding : α) :
    Findings.put id finding findings = findings ++ [(id, finding)] := by
  induction findings with
  | nil => rfl
  | cons f rest ih =>
      obtain ⟨i, g⟩ := f
      rw [List.map_cons, List.mem_cons, not_or] at h
      have hother : ¬ (i == id) = true := fun heq => h.1 (beq_iff_eq.mp heq).symm
      rw [Findings.put, if_neg hother, ih h.2, List.cons_append]

theorem Lists.nil : Lists Shows Exactly [] ([] : Findings α) :=
  ⟨List.Sublist.refl _, by simp, by simp⟩

theorem Lists.not_mem (h : Lists Shows Exactly ps findings) (hnew : p.id ∉ ps.map (·.id)) :
    p.id ∉ findings.map Prod.fst :=
  fun hmem => hnew (h.inOrder.subset hmem)

/-- A possible answer that shows nothing adds nothing. -/
theorem Lists.skip (h : Lists Shows Exactly ps findings) (hnew : p.id ∉ ps.map (·.id)) (hnot : ¬ Shows p) :
    Lists Shows Exactly (ps ++ [p]) findings where
  inOrder := by
    rw [List.map_append]
    exact h.inOrder.trans (List.sublist_append_left _ _)
  shown := by
    rw [List.forall_mem_append, List.forall_mem_singleton]
    exact ⟨h.shown, iff_of_false (h.not_mem hnew) hnot⟩
  exact := by
    rw [List.forall_mem_append, List.forall_mem_singleton]
    refine ⟨h.exact, fun finding hfinding => ?_⟩
    exact absurd (List.mem_map_of_mem hfinding) (h.not_mem hnew)

/-- A possible answer that shows something adds it. -/
theorem Lists.add (h : Lists Shows Exactly ps findings) (hnew : p.id ∉ ps.map (·.id)) (hshows : Shows p)
    (hexact : Exactly p finding) : Lists Shows Exactly (ps ++ [p]) (Findings.put p.id finding findings) := by
  have hother : ∀ p' ∈ ps, p'.id ≠ p.id := by
    intro p' hp' heq
    exact hnew (heq ▸ List.mem_map_of_mem hp')
  rw [put_of_not_mem (h.not_mem hnew)]
  refine ⟨?_, ?_, ?_⟩
  · rw [List.map_append, List.map_append]
    exact h.inOrder.append (List.Sublist.refl _)
  · rw [List.forall_mem_append, List.forall_mem_singleton]
    refine ⟨fun p' hp' => ?_, iff_of_true (by simp) hshows⟩
    rw [List.map_append, List.mem_append, h.shown p' hp']
    simp [hother p' hp']
  · rw [List.forall_mem_append, List.forall_mem_singleton]
    refine ⟨fun p' hp' found hfound => ?_, fun found hfound => ?_⟩
    · rcases List.mem_append.mp hfound with hold | hlast
      · exact h.exact p' hp' found hold
      · have hid : p'.id = p.id := congrArg Prod.fst (List.mem_singleton.mp hlast)
        exact absurd hid (hother p' hp')
    · rcases List.mem_append.mp hfound with hold | hlast
      · exact absurd (List.mem_map_of_mem hold) (h.not_mem hnew)
      · cases List.mem_singleton.mp hlast
        exact hexact

end

/-- Names are a finding unless there are none. -/
theorem Lists.addNames {Shows : PossibleAnswer → Prop} {Exactly : PossibleAnswer → List Value → Prop}
    {findings : Findings (List Value)} {names : List Value} {Member : Value → Prop}
    (h : Lists Shows Exactly ps findings) (hnew : p.id ∉ ps.map (·.id)) (hnames : Comprises names Member)
    (hshows : Shows p ↔ ∃ name, Member name) (hexact : Exactly p names) :
    Lists Shows Exactly (ps ++ [p])
      (if names.isEmpty then findings else Findings.put p.id names findings) := by
  by_cases hnone : names.isEmpty = true
  · rw [if_pos hnone]
    refine h.skip hnew fun hshown => ?_
    obtain ⟨name, hname⟩ := hshows.mp hshown
    have hmem := (hnames.2 name).mpr hname
    rw [List.isEmpty_iff.mp hnone] at hmem
    cases hmem
  · rw [if_neg hnone]
    rw [List.isEmpty_iff] at hnone
    obtain ⟨name, hname⟩ := List.exists_mem_of_ne_nil names hnone
    exact h.add hnew (hshows.mpr ⟨name, (hnames.2 name).mp hname⟩) hexact

/-! ### Counting -/

section

variable {usage : List (String × Nat)} {count : String → Nat} {name : String}

theorem map_fst_countCall (usage : List (String × Nat)) (name : String) :
    (countCall usage (.str name)).map Prod.fst =
      if name ∈ usage.map Prod.fst then usage.map Prod.fst else usage.map Prod.fst ++ [name] := by
  induction usage with
  | nil => rfl
  | cons entry rest ih =>
      obtain ⟨t, n⟩ := entry
      by_cases hhere : t = name
      · simp [countCall, hhere]
      · have hother : ¬ name = t := fun h => hhere h.symm
        rw [countCall, if_neg (by simpa using hhere), List.map_cons, ih]
        by_cases hthere : name ∈ rest.map Prod.fst
        · simp [hthere]
        · simp [hthere, hother]

theorem lookup_cons_eq (s t : String) (k : Nat) (rest : List (String × Nat)) :
    ((s, k) :: rest).lookup t = if t = s then some k else rest.lookup t := by
  rw [List.lookup_cons]
  by_cases hname : t = s
  · simp [hname]
  · simp [hname, beq_eq_false_iff_ne.mpr hname]

theorem lookup_countCall (usage : List (String × Nat)) (name t : String) :
    (countCall usage (.str name)).lookup t =
      if t = name then some ((usage.lookup t).getD 0 + 1) else usage.lookup t := by
  induction usage with
  | nil => exact lookup_cons_eq name t 1 []
  | cons entry rest ih =>
      obtain ⟨s, k⟩ := entry
      by_cases hhere : s = name
      · rw [countCall, if_pos (by simpa using hhere), lookup_cons_eq, lookup_cons_eq, hhere]
        by_cases hname : t = name
        · simp [hname]
        · simp [hname]
      · rw [countCall, if_neg (by simpa using hhere), lookup_cons_eq, lookup_cons_eq, ih]
        by_cases hname : t = name
        · have hdiffers : ¬ t = s := fun h => hhere (h.symm.trans hname)
          rw [if_neg hdiffers, if_pos hname, if_neg hdiffers, if_pos hname]
        · rw [if_neg hname, if_neg hname]

/-- Counted once more, the count of a name is greater by one. -/
theorem Counts.countCall (h : Counts usage count) (name : String) :
    Counts (countCall usage (.str name)) fun t => count t + if t = name then 1 else 0 := by
  refine ⟨?_, fun t => ?_⟩
  · rw [map_fst_countCall]
    by_cases hmem : name ∈ usage.map Prod.fst
    · rw [if_pos hmem]
      exact h.1
    · rw [if_neg hmem]
      exact h.1.append (List.nodup_singleton name) (by simpa using hmem)
  · rw [lookup_countCall, h.2 t]
    by_cases hname : t = name
    · subst hname
      by_cases hzero : count t = 0
      · simp [hzero]
      · simp [hzero]
    · simp [hname]

/-- Distinct names are counted once each. -/
theorem Counts.foldl {texts : List String} (hnodup : texts.Nodup) (h : Counts usage count) :
    Counts ((texts.map .str).foldl Report.countCall usage) fun t => count t + if t ∈ texts then 1 else 0 := by
  induction texts generalizing usage count with
  | nil => simpa using h
  | cons name texts ih =>
      obtain ⟨hnew, hnodup⟩ := List.nodup_cons.mp hnodup
      have hrest := ih hnodup (h.countCall name)
      have hsame : (fun t => count t + (if t = name then 1 else 0) + if t ∈ texts then 1 else 0) =
          fun t => count t + if t ∈ name :: texts then 1 else 0 := by
        funext t
        by_cases hname : t = name
        · simp [hname, hnew]
        · simp [hname]
      rw [hsame] at hrest
      exact hrest

end

/-! ### The walk -/

variable (q registry limits) in
/-- What is known of some possible answers before their formulas are parsed. -/
structure Placed (ps : List PossibleAnswer) (r : Report) : Prop where
  undefined : Comprises r.undefined fun name => q.declaredVariables ≠ [] ∧
    (∃ p ∈ ps, name ∈ p.variableNames) ∧ ∀ v ∈ q.declaredVariables, v.name ≠ name
  orphans : r.orphans = (ps.filter fun p => (q.findQuestion? p.question).isNone).map (·.id)

variable (registry limits) in
/-- What is known of them afterwards. -/
structure Measured (ps : List PossibleAnswer) (r : Report) : Prop where
  metrics : Lists (fun p => ∃ tree, p.Parses registry limits tree)
    (fun p m => ∃ tree, p.Parses registry limits tree ∧ tree.metrics = .ok m) ps r.metrics
  parseErrors : Lists (PossibleAnswer.Unparsed registry limits)
    (fun p message => ∃ refusal, p.formula.parseFormula registry limits = .error (.formula refusal) ∧
      message = refusal.message) ps r.parseErrors
  undeclared : Lists (PossibleAnswer.Undeclared registry limits)
    (fun p names => ∃ tree, p.Parses registry limits tree ∧
      Comprises names fun name => name ∈ tree.variableOccurrences ∧ name ∉ p.variableNames) ps r.undeclared
  unused : Lists (PossibleAnswer.Unused registry limits)
    (fun p names => ∃ tree, p.Parses registry limits tree ∧
      Comprises names fun name => name ∈ p.variableNames ∧ name ∉ tree.variableOccurrences) ps r.unused
  functionUsage : Counts r.functionUsage fun name => ps.countP (·.calls registry limits name)
  maxDepth : r.maxDepth = (r.metrics.map fun f => f.2.depth).foldl max 0

/-- The question of a possible answer is not found where it is not among the names. -/
theorem findQuestion?_isNone_iff (hq : q.Named) (hp : p.question.IsText) :
    (q.findQuestion? p.question).isNone = true ↔ ¬ contains (q.questions.map (·.name)) p.question = true := by
  rw [Option.isNone_iff_eq_none, Questionnaire.findQuestion?, List.find?_eq_none, contains_iff hp, List.mem_map]
  obtain ⟨text, htext⟩ := hp
  have hasked : ∀ x ∈ q.questions, Questionnaire.isAskedFor x.name p.question = true ↔ x.name = p.question := by
    intro x hx
    obtain ⟨name, hname⟩ := hq.questions x hx
    rw [htext, hname]
    exact Value.same_text_iff (Value.isText_str text)
  constructor
  · rintro h ⟨x, hx, hname⟩
    exact h x hx ((hasked x hx).mpr hname)
  · intro h x hx hfound
    exact h ⟨x, hx, (hasked x hx).mp hfound⟩

/-- The question and the variables of one more possible answer are looked at. -/
theorem Placed.note (h : Placed q ps r) (hq : q.Named) (hp : p.IsText) :
    Placed q (ps ++ [p]) (noteVariables q (noteQuestion q r p) p) where
  undefined := by
    have hsame : (noteQuestion q r p).undefined = r.undefined := by
      unfold noteQuestion
      split <;> rfl
    rw [noteVariables]
    by_cases hnone : q.declaredVariables.isEmpty = true
    · rw [if_pos hnone, hsame]
      rw [List.isEmpty_iff] at hnone
      exact h.undefined.congr fun name => iff_of_false (fun hname => hname.1 hnone) (fun hname => hname.1 hnone)
    · rw [if_neg hnone, hsame]
      rw [List.isEmpty_iff] at hnone
      obtain ⟨-, hundefined⟩ := comprises_without hp.variableNames (q.declaredVariables.map (·.name))
      refine (h.undefined.union fun name hname => hp.variableNames name ((hundefined name).mp hname).1).congr ?_
      intro name
      simp only [hundefined, List.mem_map, List.mem_append, List.mem_singleton, not_exists, not_and]
      constructor
      · rintro (⟨-, ⟨p', hp', hname⟩, hdeclared⟩ | ⟨hname, hdeclared⟩)
        · exact ⟨hnone, ⟨p', .inl hp', hname⟩, hdeclared⟩
        · exact ⟨hnone, ⟨p, .inr rfl, hname⟩, hdeclared⟩
      · rintro ⟨-, ⟨p', hp' | rfl, hname⟩, hdeclared⟩
        · exact .inl ⟨hnone, ⟨p', hp', hname⟩, hdeclared⟩
        · exact .inr ⟨hname, hdeclared⟩
  orphans := by
    have hsame : (noteVariables q (noteQuestion q r p) p).orphans = (noteQuestion q r p).orphans := by
      unfold noteVariables
      split <;> rfl
    have hiff := findQuestion?_isNone_iff hq hp.question
    rw [hsame, noteQuestion, List.filter_append, List.map_append, ← h.orphans]
    by_cases hthere : contains (q.questions.map (·.name)) p.question = true
    · have hfound := mt hiff.mp (not_not.mpr hthere)
      simp [hthere, hfound]
    · have hnone := hiff.mpr hthere
      simp [hthere, hnone]

/-- They say nothing about formulas. -/
theorem Measured.note (h : Measured registry limits ps r) :
    Measured registry limits ps (noteVariables q (noteQuestion q r p) p) := by
  obtain ⟨hmetrics, herrors, hundeclared, hunused, husage, hdepth⟩ := h
  unfold noteVariables noteQuestion
  split <;> split <;> exact ⟨hmetrics, herrors, hundeclared, hunused, husage, hdepth⟩

/-- A formula parses to a tree whose names are texts, or is refused with an error of its own. -/
theorem parseFormula_outcome (htokens : 0 ≤ limits.maxTokens) (hp : p.formula.IsText) :
    (∃ tree, p.Parses registry limits tree ∧ tree.Whole ∧ tree.CallsFit registry) ∨
      ∃ refusal, p.formula.parseFormula registry limits = .error (.formula refusal) := by
  obtain ⟨text, htext⟩ := hp
  unfold PossibleAnswer.Parses
  rw [htext]
  simp only [Value.parseFormula_str]
  rcases Expr.parse_outcome registry text htokens with ⟨tree, htree⟩ | ⟨refusal, hrefused⟩ | ⟨refusal, hrefused⟩
  · exact .inl ⟨tree, htree, Expr.whole_of_parse htree⟩
  · exact .inr ⟨_, hrefused⟩
  · exact .inr ⟨_, hrefused⟩

/-- A refused formula is an error, and adds nothing else. -/
theorem Measured.refuse (h : Measured registry limits ps r) (hnew : p.id ∉ ps.map (·.id))
    {refusal : FormulaError} (hrefused : p.formula.parseFormula registry limits = .error (.formula refusal)) :
    Measured registry limits (ps ++ [p])
      { r with parseErrors := Findings.put p.id refusal.message r.parseErrors } := by
  have hnone : ∀ tree, ¬ p.Parses registry limits tree := by
    intro tree htree
    rw [PossibleAnswer.Parses, hrefused] at htree
    cases htree
  have hcalls : ∀ name, p.calls registry limits name = false := by
    intro name
    rw [PossibleAnswer.calls, hrefused]
  refine ⟨h.metrics.skip hnew ?_, h.parseErrors.add hnew ⟨refusal, hrefused⟩ ⟨refusal, hrefused, rfl⟩,
    h.undeclared.skip hnew ?_, h.unused.skip hnew ?_, ?_, h.maxDepth⟩
  · rintro ⟨tree, htree⟩
    exact hnone tree htree
  · rintro ⟨tree, htree, -⟩
    exact hnone tree htree
  · rintro ⟨tree, htree, -⟩
    exact hnone tree htree
  · simpa [List.countP_append, hcalls] using h.functionUsage

/-- The functions that a tree calls, as texts. -/
theorem exists_functionNames {tree : Expr} (hcalls : tree.CallsFit registry) :
    ∃ texts : List String, texts.Nodup ∧ tree.functionNames = texts.map .str ∧
      ∀ name, name ∈ texts ↔ contains tree.callOccurrences (.str name) = true := by
  obtain ⟨texts, htexts⟩ : ∃ texts : List String, tree.callOccurrences = texts.map .str := by
    obtain ⟨texts, hmatch⟩ := exists_forall₂ (R := fun v text => v = Value.str text) (hcalls.isText tree)
    exact ⟨texts, by rwa [← List.forall₂_eq_eq_eq, List.forall₂_map_right_iff]⟩
  refine ⟨texts.eraseDups, Value.nodup_eraseDups texts, ?_, fun name => ?_⟩
  · rw [Expr.functionNames, htexts, Value.distinct_texts]
  · rw [List.mem_eraseDups, contains_iff (Value.isText_str name), htexts]
    simp

/-- A formula that parses is measured, and its names are compared with those that are listed. -/
theorem Measured.accept (h : Measured registry limits ps r) (hnew : p.id ∉ ps.map (·.id)) (hp : p.IsText)
    {tree : Expr} (hparsed : p.Parses registry limits tree) (hwhole : tree.Whole) (hcalls : tree.CallsFit registry) :
    Measured registry limits (ps ++ [p])
      (r.addMetrics p ⟨tree.depth, tree.nodes, tree.variableNames, tree.functionNames⟩) := by
  -- the formula has one tree, so what it shows is said of this one
  have honly : ∀ tree', p.Parses registry limits tree' → tree' = tree := by
    intro tree' htree'
    exact Except.ok.inj (htree'.symm.trans hparsed)
  have hoccurrences := hwhole.isText tree
  have hmem : ∀ name, name ∈ tree.variableNames ↔ name ∈ tree.variableOccurrences :=
    Value.mem_distinct hoccurrences
  have hundeclared : Comprises (without tree.variableNames p.variableNames) fun name =>
      name ∈ tree.variableOccurrences ∧ name ∉ p.variableNames :=
    (comprises_without (fun name hname => hoccurrences name ((hmem name).mp hname)) _).congr fun name => by
      rw [hmem]
  have hunused : Comprises (without p.variableNames tree.variableNames) fun name =>
      name ∈ p.variableNames ∧ name ∉ tree.variableOccurrences :=
    (comprises_without hp.variableNames _).congr fun name => by rw [hmem]
  refine ⟨?_, ?_, ?_, ?_, ?_, ?_⟩
  · exact h.metrics.add hnew ⟨tree, hparsed⟩ ⟨tree, hparsed, Expr.metrics_of_whole hwhole hcalls⟩
  · refine h.parseErrors.skip hnew ?_
    rintro ⟨refusal, hrefused⟩
    cases hrefused.symm.trans hparsed
  · refine h.undeclared.addNames hnew hundeclared ?_ ⟨tree, hparsed, hundeclared⟩
    constructor
    · rintro ⟨tree', htree', name, hname⟩
      exact ⟨name, honly tree' htree' ▸ hname⟩
    · rintro ⟨name, hname⟩
      exact ⟨tree, hparsed, name, hname⟩
  · refine h.unused.addNames hnew hunused ?_ ⟨tree, hparsed, hunused⟩
    constructor
    · rintro ⟨tree', htree', name, hname⟩
      exact ⟨name, honly tree' htree' ▸ hname⟩
    · rintro ⟨name, hname⟩
      exact ⟨tree, hparsed, name, hname⟩
  · obtain ⟨texts, hnodup, htexts, hcalled⟩ := exists_functionNames hcalls
    have hcount : (fun name => ps.countP (·.calls registry limits name) + if name ∈ texts then 1 else 0) =
        fun name => (ps ++ [p]).countP (·.calls registry limits name) := by
      funext name
      have hcall : p.calls registry limits name = contains tree.callOccurrences (.str name) := by
        rw [PossibleAnswer.calls, hparsed]
      rw [List.countP_append, List.countP_singleton, hcall]
      simp only [hcalled name]
    have hcounts := h.functionUsage.foldl hnodup
    rw [hcount, ← htexts] at hcounts
    exact hcounts
  · simp only [addMetrics]
    rw [put_of_not_mem (h.metrics.not_mem hnew), List.map_append, List.foldl_append, ← h.maxDepth]
    rfl

theorem addFormula_of_parses (hp : p.IsText) {tree : Expr} (hparsed : p.Parses registry limits tree)
    (hwhole : tree.Whole) (hcalls : tree.CallsFit registry) :
    addFormula registry limits r p =
      .ok (r.addMetrics p ⟨tree.depth, tree.nodes, tree.variableNames, tree.functionNames⟩) := by
  have hvariables := checkNames_of_isText hp.variableNames
  rw [PossibleAnswer.Parses] at hparsed
  rw [addFormula, hparsed]
  simp only [Expr.metrics_of_whole hwhole hcalls, hvariables]
  rfl

/-- One step brings all accounts up to one more possible answer, and nothing ends it. -/
theorem exists_step (hq : q.Named) (htokens : 0 ≤ limits.maxTokens) (hp : p.IsText)
    (hnew : p.id ∉ ps.map (·.id)) (hplaced : Placed q ps r) (hmeasured : Measured registry limits ps r) :
    ∃ r', addPossibleAnswer q registry limits r p = .ok r' ∧ Placed q (ps ++ [p]) r' ∧
      Measured registry limits (ps ++ [p]) r' := by
  have hquestion : checkNames [p.question] = .ok () := checkNames_of_isText (by simpa using hp.question)
  have hvariables : checkNames p.variableNames = .ok () := checkNames_of_isText hp.variableNames
  have hfirst : addPossibleAnswer q registry limits r p =
      addFormula registry limits (noteVariables q (noteQuestion q r p) p) p := by
    rw [addPossibleAnswer_eq, hquestion, hvariables]
    split <;> rfl
  have hplaced := hplaced.note hq hp
  have hmeasured := hmeasured.note (q := q) (p := p)
  rcases parseFormula_outcome htokens hp.formula with ⟨tree, hparsed, hwhole, hcalls⟩ | ⟨refusal, hrefused⟩
  · rw [hfirst, addFormula_of_parses hp hparsed hwhole hcalls]
    exact ⟨_, rfl, ⟨hplaced.undefined, hplaced.orphans⟩, hmeasured.accept hnew hp hparsed hwhole hcalls⟩
  · rw [hfirst, addFormula, hrefused]
    exact ⟨_, rfl, ⟨hplaced.undefined, hplaced.orphans⟩, hmeasured.refuse hnew hrefused⟩

/-- **The walk keeps all accounts.** -/
theorem exists_walk (hq : q.Named) (htokens : 0 ≤ limits.maxTokens) {rest : List PossibleAnswer}
    (hrest : ∀ p ∈ rest, p.IsText) (hids : ((ps ++ rest).map (·.id)).Nodup) (hplaced : Placed q ps r)
    (hmeasured : Measured registry limits ps r) :
    ∃ r', rest.foldlM (addPossibleAnswer q registry limits) r = .ok r' ∧ Placed q (ps ++ rest) r' ∧
      Measured registry limits (ps ++ rest) r' := by
  induction rest generalizing ps r with
  | nil => exact ⟨r, rfl, by simpa using hplaced, by simpa using hmeasured⟩
  | cons p rest ih =>
      rw [List.forall_mem_cons] at hrest
      have hsplit : ps ++ p :: rest = ps ++ [p] ++ rest := by simp
      have hnew : p.id ∉ ps.map (·.id) := by
        rw [List.map_append, List.map_cons, List.nodup_append] at hids
        exact fun hmem => hids.2.2 _ hmem _ List.mem_cons_self rfl
      obtain ⟨mid, hstep, hplaced, hmeasured⟩ := exists_step hq htokens hrest.1 hnew hplaced hmeasured
      rw [hsplit] at hids ⊢
      obtain ⟨r', hwalk, hfinal⟩ := ih hrest.2 hids hplaced hmeasured
      refine ⟨r', ?_, hfinal⟩
      rw [List.foldlM_cons, hstep]
      exact hwalk

end Report

end Scorecard
