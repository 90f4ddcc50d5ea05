/-
Which failures of scoring are typed.

A session of texts and numbers is scored, or it fails with an error that names the item and its
cause.  There is one exception.  Numbers may be integers of any size, and where one that is
larger than every double has to be read, that is a fault of its own kind, which nobody on the
way turns into an error of the formula.

An answer reads all of its values beforehand, up to the first name that comes twice.  A formula
with bindings of its own reads a value only where evaluation comes to the variable.
-/
import Scorecard.Proofs.Formula.Reached
import Scorecard.Proofs.Score.Session
import Scorecard.Proofs.Value.Numbers

namespace Scorecard

theorem Value.IsDouble.isNumber {v : Value} (h : v.IsDouble) : v.IsNumber := by
  cases h with
  | float x => exact .float x
  | nan which => exact .nan which

theorem Value.IsDouble.not_isHuge {v : Value} (h : v.IsDouble) : ¬ v.IsHuge := by
  rintro ⟨n, rfl, -⟩
  cases h

/-! ### Outcomes -/

/-- The outcome is a good one or an error of a formula, unless something is the case; and if it is,
a number was too large. -/
inductive TypedUnless {α : Type} (large : Prop) (good : α → Prop) : Except Failure α → Prop
  | ok {a : α} (hsmall : ¬ large) (ha : good a) : TypedUnless large good (.ok a)
  | formula (cause : FormulaError) (hsmall : ¬ large) : TypedUnless large good (.error (.formula cause))
  | tooLarge (hlarge : large) : TypedUnless large good (.error (.fault .tooLarge))

namespace TypedUnless

variable {α : Type} {large large' : Prop} {good : α → Prop} {r : Except Failure α}

theorem congr (h : TypedUnless large good r) (hiff : large ↔ large') : TypedUnless large' good r := by
  cases h with
  | ok hsmall ha => exact .ok (hiff.not.mp hsmall) ha
  | formula cause hsmall => exact .formula cause (hiff.not.mp hsmall)
  | tooLarge hlarge => exact .tooLarge (hiff.mp hlarge)

theorem map {β : Type} {good' : β → Prop} {f : α → β} (h : TypedUnless large good r)
    (hf : ∀ a, good a → good' (f a)) : TypedUnless large good' (r.map f) := by
  cases h with
  | ok hsmall ha => exact .ok hsmall (hf _ ha)
  | formula cause hsmall => exact .formula cause hsmall
  | tooLarge hlarge => exact .tooLarge hlarge

theorem eq_tooLarge_iff (h : TypedUnless large good r) : r = .error (.fault .tooLarge) ↔ large := by
  cases h with
  | ok hsmall ha => exact ⟨nofun, fun hlarge => absurd hlarge hsmall⟩
  | formula cause hsmall => exact ⟨nofun, fun hlarge => absurd hlarge hsmall⟩
  | tooLarge hlarge => exact ⟨fun _ => hlarge, fun _ => rfl⟩

end TypedUnless

/-! ### Evaluation -/

namespace Expr

variable {registry : Registry} {bindings : Bindings} {e sub : Expr} {f : Failure}

/-- Evaluation comes to a variable whose value is larger than every double. -/
def ReachesHuge (registry : Registry) (bindings : Bindings) (e : Expr) : Prop :=
  ∃ name position v, Reaches registry bindings e (.variable name position) ∧
    Value.lookup? bindings name = some v ∧ v.IsHuge

theorem eval_of_finite {what : EvalError.Producer} {position : Option Nat} {x : Float}
    (h : finite what position x = .error f) : ∃ refusal, f = .formula (.eval refusal) := by
  unfold finite at h
  split at h
  · cases h
  · cases h
    exact ⟨_, rfl⟩

theorem eval_of_applyOp {op : BinaryOp} {position : Option Nat} {a b : Float}
    (h : applyOp op position a b = .error f) : ∃ refusal, f = .formula (.eval refusal) := by
  unfold applyOp at h
  split at h
  · cases h
    exact ⟨_, rfl⟩
  · exact eval_of_finite h

theorem eval_of_applyFunction {function : Function} {name : Value} {position : Option Nat}
    {xs : List Float} (hrule : function.rule xs ≠ .error .misapplied)
    (h : applyFunction function name position xs = .error f) :
    ∃ refusal, f = .formula (.eval refusal) := by
  unfold applyFunction at h
  split at h
  · exact eval_of_finite h
  · cases h
    exact ⟨_, rfl⟩
  · rename_i hmisapplied
    exact absurd hmisapplied hrule

/-- The value of a variable is missing or not finite, or too large to be one. -/
theorem variable_outcome (hbindings : ∀ b ∈ bindings, b.2.IsNumber) {name : Value} (hname : name.IsText)
    {position : Option Nat} (h : evaluateVariable bindings name position = .error f) :
    (∃ refusal, f = .formula (.eval refusal)) ∨
      f = .fault .tooLarge ∧ ∃ v, Value.lookup? bindings name = some v ∧ v.IsHuge := by
  rw [evaluateVariable, if_pos hname.canBeKey] at h
  cases hlookup : Value.lookup? bindings name with
  | none =>
      rw [hlookup] at h
      cases h
      exact .inl ⟨_, rfl⟩
  | some v =>
      obtain ⟨b, hb, rfl⟩ := Option.map_eq_some_iff.mp hlookup
      rw [hlookup] at h
      rcases (hbindings b (List.mem_of_find?_eq_some hb)).toFloat_outcome with ⟨x, hx⟩ | hlarge
      · simp only [hx] at h
        exact .inl (eval_of_finite h)
      · simp only [hlarge] at h
        cases h
        exact .inr ⟨rfl, _, rfl, Value.isHuge_of_toFloat hlarge⟩

/-- A node of a parsed tree breaks with an error of evaluation, or it is a variable whose value
is too large. -/
theorem Breaks.outcome (h : Breaks registry bindings e f) (hrules : registry.Answers)
    (hbindings : ∀ b ∈ bindings, b.2.IsNumber) (hwhole : e.Whole) (hcalls : e.CallsFit registry) :
    (∃ refusal, f = .formula (.eval refusal)) ∨ f = .fault .tooLarge ∧
      ∃ name position v, e = .variable name position ∧ Value.lookup? bindings name = some v ∧
        v.IsHuge := by
  cases h with
  | missing => exact hwhole.elim
  | number h => exact .inl (eval_of_finite h)
  | «variable» h =>
      rcases variable_outcome hbindings hwhole h with heval | ⟨hlarge, v, hlookup, hhuge⟩
      · exact .inl heval
      · exact .inr ⟨hlarge, _, _, v, rfl, hlookup, hhuge⟩
  | operator hleft hright h => exact .inl (eval_of_applyOp h)
  | unfit hkey =>
      obtain ⟨⟨function, hfound, -⟩, -⟩ := hcalls
      rw [(canBeKey_of_findNamed hfound).1] at hkey
      cases hkey
  | unregistered hkey hfound => exact .inl ⟨_, rfl⟩
  | function hkey hfound harguments h =>
      obtain ⟨⟨function, hfits, harity⟩, -⟩ := hcalls
      rw [hfound] at hfits
      cases hfits
      obtain ⟨-, s, hs⟩ := canBeKey_of_findNamed hfound
      obtain ⟨hlength, hfinite⟩ := isFinite_of_evaluateAll harguments
      have hrule := hrules s _ hs _ (by rw [hlength, harity]) hfinite
      exact .inl (eval_of_applyFunction hrule h)

/-- **Evaluation of a parsed tree fails with a typed error**, unless it comes to a value that is
too large. -/
theorem evaluate_typed (hrules : registry.Answers) (hbindings : ∀ b ∈ bindings, b.2.IsNumber)
    (hwhole : e.Whole) (hcalls : e.CallsFit registry) :
    TypedUnless (ReachesHuge registry bindings e) IsValue (e.evaluate registry bindings) := by
  have hlarge : ReachesHuge registry bindings e →
      e.evaluate registry bindings = .error (.fault .tooLarge) := by
    rintro ⟨name, position, v, hreaches, hlookup, hhuge⟩
    have hname : name.IsText := (hreaches.whole hwhole hcalls).1
    refine hreaches.evaluate ?_
    rw [evaluate, evaluateVariable, if_pos hname.canBeKey, hlookup]
    simp only [hhuge.toFloat]
  cases hvalue : e.evaluate registry bindings with
  | ok x =>
      rw [hvalue] at hlarge
      exact .ok (fun hreaches => by cases hlarge hreaches) (isFinite_of_evaluate e hvalue)
  | error f =>
      obtain ⟨sub, hreaches, hbreaks⟩ := evaluate_eq_error_iff.mp hvalue
      obtain ⟨hsubWhole, hsubCalls⟩ := hreaches.whole hwhole hcalls
      rw [hvalue] at hlarge
      rcases hbreaks.outcome hrules hbindings hsubWhole hsubCalls with
        ⟨refusal, rfl⟩ | ⟨rfl, name, position, v, rfl, hlookup, hhuge⟩
      · exact .formula _ fun hreaches => by cases hlarge hreaches
      · exact .tooLarge ⟨name, position, v, hreaches, hlookup, hhuge⟩

end Expr

/-! ### Bindings of an answer -/

section

variable {values : List (Value × Value)}

theorem bindVariable_of_huge {bound : Bindings} {name v : Value} (hname : name.IsText)
    (hnew : name ∉ bound.map Prod.fst) (hhuge : v.IsHuge) :
    bindVariable bound (name, v) = .error (.fault .tooLarge) := by
  simp [bindVariable, hname.canBeKey, mt (Value.hasKey_text_iff hname).mp hnew, hhuge.toFloat]

/-- One of the values is too large, and up to there no name comes twice, where some names are in
use from the start. -/
def OverflowsBehind (names : List Value) (values : List (Value × Value)) : Prop :=
  ∃ before name v after, values = before ++ (name, v) :: after ∧ v.IsHuge ∧
    (names ++ before.map Prod.fst ++ [name]).Nodup

theorem OverflowsBehind.nodup {names : List Value} (h : OverflowsBehind names values) : names.Nodup := by
  obtain ⟨before, name, v, after, -, -, hnodup⟩ := h
  exact (List.nodup_append.mp (List.nodup_append.mp hnodup).1).1

theorem overflowsBehind_cons {names : List Value} {name v : Value} :
    OverflowsBehind names ((name, v) :: values) ↔
      v.IsHuge ∧ (names ++ [name]).Nodup ∨ OverflowsBehind (names ++ [name]) values := by
  constructor
  · rintro ⟨before, name', v', after, hsplit, hhuge, hnodup⟩
    cases before with
    | nil =>
        cases hsplit
        exact .inl ⟨hhuge, by simpa using hnodup⟩
    | cons entry before =>
        cases hsplit
        exact .inr ⟨before, name', v', after, rfl, hhuge, by simpa using hnodup⟩
  · rintro (⟨hhuge, hnodup⟩ | ⟨before, name', v', after, rfl, hhuge, hnodup⟩)
    · exact ⟨[], name, v, values, rfl, hhuge, by simpa using hnodup⟩
    · exact ⟨(name, v) :: before, name', v', after, rfl, hhuge, by simpa using hnodup⟩

/-- Numbers are bound as doubles, or a name comes twice, or before that a value is too large. -/
theorem foldlM_bindVariable_typed (hvalues : ∀ b ∈ values, b.1.IsText ∧ b.2.IsNumber) {bound : Bindings}
    (hbound : ∀ b ∈ bound, b.2.IsDouble) (hnames : (bound.map Prod.fst).Nodup) :
    TypedUnless (OverflowsBehind (bound.map Prod.fst) values) (∀ b ∈ ·, b.2.IsDouble)
      (values.foldlM bindVariable bound) := by
  induction values generalizing bound with
  | nil => exact .ok (by simp [OverflowsBehind]) hbound
  | cons entry rest ih =>
      obtain ⟨name, v⟩ := entry
      obtain ⟨⟨hname, hv⟩, hrest⟩ := List.forall_mem_cons.mp hvalues
      rw [List.foldlM_cons, overflowsBehind_cons]
      by_cases hthere : name ∈ bound.map Prod.fst
      · have htwice : ¬ (bound.map Prod.fst ++ [name]).Nodup := fun hnodup =>
          (List.nodup_append.mp hnodup).2.2 name hthere name (by simp) rfl
        rw [bindVariable_of_mem hname hthere]
        refine .formula _ ?_
        rintro (⟨-, hnodup⟩ | hbehind)
        · exact htwice hnodup
        · exact htwice hbehind.nodup
      · have hnodup : (bound.map Prod.fst ++ [name]).Nodup :=
          hnames.append (List.nodup_singleton name) (by simpa using hthere)
        rcases hv.toFloat_outcome with ⟨x, hx⟩ | hlarge
        · have hsmall : ¬ v.IsHuge := by
            intro hhuge
            rw [hhuge.toFloat] at hx
            cases hx
          have hafter : ∀ b ∈ bound ++ [(name, Value.float x)], b.2.IsDouble :=
            List.forall_mem_append.mpr ⟨hbound, by simpa using Value.IsDouble.float x⟩
          rw [bindVariable_of_not_mem hname hthere hx]
          exact (ih hrest hafter (by simpa using hnodup)).congr (by simp [hsmall])
        · have hhuge := Value.isHuge_of_toFloat hlarge
          rw [bindVariable_of_huge hname hthere hhuge]
          exact .tooLarge (.inl ⟨hhuge, hnodup⟩)

/-- A value of the answer is too large, and up to there no name comes twice. -/
def Answer.Overflows (a : Answer) : Prop :=
  OverflowsBehind [] a.values

theorem Answer.bindings_typed {a : Answer} (hvalues : ∀ b ∈ a.values, b.1.IsText ∧ b.2.IsNumber) :
    TypedUnless a.Overflows (∀ b ∈ ·, b.2.IsDouble) a.bindings := by
  have hempty : ∀ b ∈ ([] : Bindings), b.2.IsDouble := by simp
  exact foldlM_bindVariable_typed hvalues hempty List.nodup_nil

end

/-! ### Items -/

/-- The item is made of texts and numbers. -/
inductive Item.IsNumeric : Item → Prop
  | pair {formula : Value} {bindings : Bindings} (text : formula.IsText)
      (numbers : ∀ b ∈ bindings, b.1.IsText ∧ b.2.IsNumber) : IsNumeric (.pair formula bindings)
  | answer {a : Answer} {p : PossibleAnswer} (choice : a.choice = some p) (text : p.formula.IsText)
      (numbers : ∀ b ∈ a.values, b.1.IsText ∧ b.2.IsNumber) : IsNumeric (.answer a)

namespace Engine

variable {e : Engine}

/-- The formula parses, and evaluation comes to a value that is too large. -/
def ReadsHuge (e : Engine) (formula : Value) (bindings : Bindings) : Prop :=
  ∃ tree, e.parse formula = .ok tree ∧ tree.ReachesHuge e.registry bindings

/-- A value that is too large is read: by the formula, or for an answer before that. -/
def Overflows (e : Engine) : Item → Prop
  | .pair formula bindings => e.ReadsHuge formula bindings
  | .answer a => a.Overflows

/-- No double is too large. -/
theorem not_readsHuge {formula : Value} {bindings : Bindings} (hbindings : ∀ b ∈ bindings, b.2.IsDouble) :
    ¬ e.ReadsHuge formula bindings := by
  rintro ⟨tree, -, name, position, v, -, hlookup, hhuge⟩
  obtain ⟨b, hb, rfl⟩ := Option.map_eq_some_iff.mp hlookup
  exact (hbindings b (List.mem_of_find?_eq_some hb)).not_isHuge hhuge

section

variable (hrules : e.registry.Answers) (hmax : 0 ≤ e.limits.maxTokens)

include hrules hmax

theorem evaluate_typed {formula : Value} (htext : formula.IsText) {bindings : Bindings}
    (hbindings : ∀ b ∈ bindings, b.2.IsNumber) :
    TypedUnless (e.ReadsHuge formula bindings) Expr.IsValue (e.evaluate formula bindings) := by
  obtain ⟨text, rfl⟩ := htext
  rw [ReadsHuge, evaluate, parse_text]
  rcases Expr.parse_outcome e.registry text hmax with ⟨tree, h⟩ | ⟨refusal, h⟩ | ⟨refusal, h⟩
  · obtain ⟨hwhole, hcalls⟩ := Expr.whole_of_parse h
    rw [h]
    exact (Expr.evaluate_typed hrules hbindings hwhole hcalls).congr (by simp)
  · rw [h]
    exact .formula _ (by simp)
  · rw [h]
    exact .formula _ (by simp)

/-- **Scoring an item of texts and numbers fails with a typed error**, unless a value that is too
large is read. -/
theorem scoreItem_typed {item : Item} (hitem : item.IsNumeric) :
    TypedUnless (e.Overflows item) (fun answer => Binary64.isFinite answer.value = true)
      (e.scoreItem item) := by
  cases hitem with
  | @pair formula bindings text numbers =>
      have htyped := evaluate_typed hrules hmax text fun b hb => (numbers b hb).2
      have hscore : e.scoreItem (.pair formula bindings) = (e.evaluate formula bindings).map
          (⟨formula, bindings, ·, .null, .null⟩) := by
        simp only [scoreItem, prepare]
        cases e.evaluate formula bindings <;> rfl
      rw [hscore]
      exact htyped.map fun _ hx => hx
  | @answer a p choice text numbers =>
      have hbindings := Answer.bindings_typed numbers
      cases hbound : a.bindings with
      | error f =>
          rw [hbound] at hbindings
          rw [e.scoreItem_of_bindings_error hbound]
          cases hbindings with
          | formula cause hsmall => exact .formula cause hsmall
          | tooLarge hlarge => exact .tooLarge hlarge
      | ok bound =>
          rw [hbound] at hbindings
          cases hbindings with
          | ok hsmall hdoubles =>
              have htyped := evaluate_typed hrules hmax text fun b hb => (hdoubles b hb).isNumber
              have hnone : e.ReadsHuge p.formula bound ↔ a.Overflows :=
                ⟨fun hread => absurd hread (not_readsHuge hdoubles), fun hlarge => absurd hlarge hsmall⟩
              have hscore : e.scoreItem (.answer a) = (e.evaluate p.formula bound).map
                  (⟨p.formula, bound, ·, p.question, a.id⟩) := by
                rw [e.scoreItem_answer choice hbound]
                cases e.evaluate p.formula bound <;> rfl
              rw [hscore]
              exact (htyped.congr hnone).map fun _ hx => hx

end

/-! ### Sessions -/

/--
**Scoring texts and numbers fails with a typed error, but for integers larger than every
double.**  A session has a score with finite values, or an error that names the item and its
cause; and where neither comes of it, the first item without a score reads such an integer.
-/
theorem scoreSession_failures (e : Engine) (hrules : e.registry.Answers) (hmax : 0 ≤ e.limits.maxTokens)
    (s : Session) (hitems : ∀ item ∈ s.items, item.IsNumeric) (sessionId : Value) :
    ((∃ score, e.scoreSession s sessionId = .ok score ∧
        ∀ answer ∈ score.answers, Binary64.isFinite answer.value = true) ∨
      (∃ index id cause, e.scoreSession s sessionId = .error (.scoring index id cause)) ∨
      e.scoreSession s sessionId = .error (.fault .tooLarge)) ∧
    (e.scoreSession s sessionId = .error (.fault .tooLarge) ↔
      ∃ before item after, s.items = before ++ item :: after ∧
        (∀ i ∈ before, ∃ answer, e.scoreItem i = .ok answer) ∧ e.Overflows item) := by
  have htyped : ∀ item ∈ s.items, TypedUnless (e.Overflows item) _ (e.scoreItem item) :=
    fun item hitem => scoreItem_typed hrules hmax (hitems item hitem)
  constructor
  · rcases e.scoreSession_outcome s sessionId with
      ⟨score, hscore, -⟩ | ⟨before, item, after, f, hsplit, -, hitem, hfailed⟩
    · refine .inl ⟨score, hscore, fun answer hanswer => ?_⟩
      obtain ⟨item, hmem, hscored⟩ := (scored_of_scoreSession e hscore).2 answer hanswer
      have hfinite := htyped item hmem
      rw [hscored] at hfinite
      cases hfinite with
      | ok hsmall hanswer => exact hanswer
    · have hcause := htyped item (by simp [hsplit])
      rw [hitem] at hcause
      rw [hfailed]
      cases hcause with
      | formula cause hsmall => exact .inr (.inl ⟨_, _, cause, rfl⟩)
      | tooLarge hlarge => exact .inr (.inr rfl)
  · constructor
    · intro hlarge
      rcases e.scoreSession_outcome s sessionId with
        ⟨score, hscore, -⟩ | ⟨before, item, after, f, hsplit, hbefore, hitem, hfailed⟩
      · rw [hscore] at hlarge
        cases hlarge
      · have hcause := htyped item (by simp [hsplit])
        rw [hitem] at hcause
        rw [hfailed] at hlarge
        cases hcause with
        | formula cause hsmall => cases hlarge
        | tooLarge hoverflows => exact ⟨before, item, after, hsplit, hbefore, hoverflows⟩
    · rintro ⟨before, item, after, hsplit, hbefore, hoverflows⟩
      have hitem := (htyped item (by simp [hsplit])).eq_tooLarge_iff.mpr hoverflows
      rw [scoreSession, scoreItems, hsplit, e.scoreFrom_of_first hbefore hitem 0]
      rfl

/-- An answer whose formula asks for nothing, with the vast value. -/
def vastAnswer : Item :=
  .answer ⟨some ⟨"none", .str "A", .str "0", [.str "x"]⟩, [(.str "x", .vast)], .null⟩

/-- The theorem for an answer, which reads all of its values. -/
theorem scoreSession_failures_answer :
    ({} : Engine).registry.Answers ∧ 0 ≤ ({} : Engine).limits.maxTokens ∧
      (∀ item ∈ [vastAnswer], item.IsNumeric) ∧
      ({} : Engine).scoreSession ⟨.null, [vastAnswer]⟩ .null = .error (.fault .tooLarge) := by
  have hmax : 0 ≤ ({} : Engine).limits.maxTokens := by decide
  have hitems : ∀ item ∈ [vastAnswer], item.IsNumeric := by
    rw [List.forall_mem_singleton]
    refine .answer rfl ⟨"0", rfl⟩ ?_
    rw [List.forall_mem_singleton]
    exact ⟨⟨"x", rfl⟩, .int _⟩
  have hoverflows : ({} : Engine).Overflows vastAnswer :=
    ⟨[], .str "x", .vast, [], rfl, Value.isHuge_vast, List.nodup_singleton _⟩
  refine ⟨Registry.standard_answers, hmax, hitems, ?_⟩
  refine (scoreSession_failures {} Registry.standard_answers hmax ⟨.null, _⟩ hitems .null).2.mpr ?_
  exact ⟨[], vastAnswer, [], rfl, by simp, hoverflows⟩

/-- A formula that asks for the vast value: there is no score, and no error names the item. -/
theorem scoreSession_vast :
    (∀ item ∈ [Item.pair (.str "x") [(.str "x", .vast)]], item.IsNumeric) ∧
      (∀ score, ({} : Engine).scoreSession ⟨.null, [.pair (.str "x") [(.str "x", .vast)]]⟩ .null ≠
        .ok score) ∧
      ∀ index id cause, ({} : Engine).scoreSession
        ⟨.null, [.pair (.str "x") [(.str "x", .vast)]]⟩ .null ≠ .error (.scoring index id cause) := by
  have hnumeric : Item.IsNumeric (.pair (.str "x") [(.str "x", .vast)]) := by
    refine .pair ⟨"x", rfl⟩ ?_
    rw [List.forall_mem_singleton]
    exact ⟨⟨"x", rfl⟩, .int _⟩
  have hparsed : ({} : Engine).parse (.str "x") = .ok (.variable (.str "x") (some 0)) := by
    cbv
  have hreads : ({} : Engine).ReadsHuge (.str "x") [(.str "x", .vast)] :=
    ⟨_, hparsed, .str "x", some 0, .vast, .self _, by simp [Value.lookup?], Value.isHuge_vast⟩
  have hitem := (scoreItem_typed Registry.standard_answers (by decide) hnumeric).eq_tooLarge_iff.mpr hreads
  have hfailed : ({} : Engine).scoreSession ⟨.null, [.pair (.str "x") [(.str "x", .vast)]]⟩ .null =
      .error (.fault .tooLarge) := by
    simp only [scoreSession, scoreItems, scoreFrom, hitem]
    rfl
  refine ⟨List.forall_mem_singleton.mpr hnumeric, fun score hscore => ?_, fun index id cause hcause => ?_⟩
  · rw [hfailed] at hscore
    cases hscore
  · rw [hfailed] at hcause
    cases hcause

end Engine

end Scorecard
