/-
Evaluation of parsed trees is sound.

The parser has seen to it that every call is of a registered function with as many
arguments as it takes, and every node checks that what it gives is finite.  Only a
negation does not, and the negation of a finite number is finite.  So, whatever a rule
does with other arguments than those it was made for, nobody finds out: a formula has a
finite value or an error that is about the formula.

What happens on the way does not show in the outcome.  A `Run` is an outcome together
with everything that was applied to numbers to get there, in order, and `Expr.run` is
evaluation told as a run.  Numbers are put together nowhere in it but in `Run.perform`,
which also writes the log, so the log is complete.
-/
import Mathlib
import Scorecard.Engine
import Scorecard.Proofs.Formula.Trees
import Scorecard.Proofs.Number.Bits

namespace Scorecard

/-- The value is a double. -/
inductive Value.IsDouble : Value → Prop
  | float (x : Float) : IsDouble (.float x)
  | nan (which : Nat) : IsDouble (.nan which)

theorem Value.IsDouble.exists_toFloat {v : Value} (h : v.IsDouble) : ∃ x, v.toFloat = .ok x := by
  cases h with
  | float x => exact ⟨x, rfl⟩
  | nan which => exact ⟨_, rfl⟩

/-- Every rule takes what its function takes: finite numbers, as many as the arity says,
are never the wrong arguments for it.  It may give any number for them, or refuse them
with a reason. -/
def Registry.Answers (r : Registry) : Prop :=
  ∀ name function, r.find? name = some function →
    ∀ xs : List Float, (xs.length : Int) = function.arity →
      (∀ x ∈ xs, Binary64.isFinite x = true) → function.rule xs ≠ .error .misapplied

theorem Registry.standard_answers : Registry.standard.Answers := by
  intro name function hfound xs hlength _
  have hmem : function ∈ Registry.standard.functions := List.mem_of_find?_eq_some hfound
  obtain ⟨f, harity, hrule⟩ : ∃ f, function.arity = 1 ∧ function.rule = Rule.unary f := by
    simp only [Registry.standard, List.mem_cons, List.not_mem_nil, or_false] at hmem
    rcases hmem with rfl | rfl | rfl | rfl <;> exact ⟨_, rfl, rfl⟩
  obtain ⟨x, rfl⟩ := List.length_eq_one_iff.mp (by omega : xs.length = 1)
  rw [hrule]
  simp [Rule.unary]

/-! ### Runs -/

/-- Something done with numbers. -/
inductive Application where
  | negation (x : Float)
  | operator (op : BinaryOp) (position : Option Nat) (a b : Float)
  | call (function : Function) (name : Value) (position : Option Nat) (arguments : List Float)

namespace Application

/-- What comes of it. -/
def outcome : Application → Except Failure Float
  | .negation x => .ok (-x)
  | .operator op position a b => Expr.applyOp op position a b
  | .call function name position arguments => Expr.applyFunction function name position arguments

/-- The numbers that it is done with. -/
def operands : Application → List Float
  | .negation x => [x]
  | .operator _ _ a b => [a, b]
  | .call _ _ _ arguments => arguments

/-- The operands are finite, and what is called is registered and takes so many. -/
structure Proper (registry : Registry) (a : Application) : Prop where
  finite : ∀ x ∈ a.operands, Binary64.isFinite x = true
  fits : ∀ function name position arguments, a = .call function name position arguments →
    registry.findNamed? name = some function ∧ (arguments.length : Int) = function.arity

end Application

/-- An outcome, and what was done with numbers on the way. -/
structure Run (α : Type) where
  outcome : Except Failure α
  log : List Application

namespace Run

variable {α β : Type}

/-- An outcome for which nothing is done. -/
def of (outcome : Except Failure α) : Run α :=
  ⟨outcome, []⟩

/-- Do something with numbers. -/
def perform (a : Application) : Run Float :=
  ⟨a.outcome, [a]⟩

/-- Go on with the result, if there is one. -/
def andThen (r : Run α) (next : α → Run β) : Run β :=
  match r.outcome with
  | .error e => ⟨.error e, r.log⟩
  | .ok a => ⟨(next a).outcome, r.log ++ (next a).log⟩

theorem outcome_andThen (r : Run α) (next : α → Run β) :
    (r.andThen next).outcome =
      match r.outcome with
      | .error e => .error e
      | .ok a => (next a).outcome := by
  unfold andThen
  cases r.outcome <;> rfl

end Run

namespace Expr

mutual

/-- Evaluation as a run. -/
def run (registry : Registry) (bindings : Bindings) : Expr → Run Float
  | .missing => .of (.error (.fault .wrongKind))
  | .number x position => .of (finite .literal position x)
  | .variable name position => .of (evaluateVariable bindings name position)
  | .negate operand _ => (run registry bindings operand).andThen fun x => .perform (.negation x)
  | .binary op left right position =>
    (run registry bindings left).andThen fun a =>
      (run registry bindings right).andThen fun b => .perform (.operator op position a b)
  | .call name arguments position =>
    if name.canBeKey then
      match registry.findNamed? name with
      | none => .of (failWith (.notRegistered name position))
      | some function =>
        (runAll registry bindings arguments).andThen fun xs =>
          .perform (.call function name position xs)
    else .of (.error (.fault .wrongKind))

/-- Evaluation of trees as a run, from left to right. -/
def runAll (registry : Registry) (bindings : Bindings) : List Expr → Run (List Float)
  | [] => .of (.ok [])
  | e :: es =>
    (run registry bindings e).andThen fun x =>
      (runAll registry bindings es).andThen fun xs => .of (.ok (x :: xs))

end

mutual

/-- A run comes out where evaluation does. -/
theorem outcome_run (registry : Registry) (bindings : Bindings) :
    (e : Expr) → (e.run registry bindings).outcome = e.evaluate registry bindings
  | .missing => by rw [run, evaluate]; rfl
  | .number _ _ => by rw [run, evaluate]; rfl
  | .variable _ _ => by rw [run, evaluate]; rfl
  | .negate operand _ => by
      rw [run, evaluate, Run.outcome_andThen, outcome_run registry bindings operand]
      cases operand.evaluate registry bindings <;> rfl
  | .binary _ left right _ => by
      rw [run, evaluate, Run.outcome_andThen, outcome_run registry bindings left]
      simp only [Run.outcome_andThen, outcome_run registry bindings right]
      cases left.evaluate registry bindings with
      | error e => rfl
      | ok a => cases right.evaluate registry bindings <;> rfl
  | .call name arguments _ => by
      rw [run, evaluate]
      split
      · cases registry.findNamed? name with
        | none => rfl
        | some function =>
            simp only [Run.outcome_andThen, outcome_runAll registry bindings arguments]
            cases evaluateAll registry bindings arguments <;> rfl
      · rfl

theorem outcome_runAll (registry : Registry) (bindings : Bindings) :
    (es : List Expr) → (runAll registry bindings es).outcome = evaluateAll registry bindings es
  | [] => by rw [runAll, evaluateAll]; rfl
  | e :: es => by
      rw [runAll, evaluateAll, Run.outcome_andThen, outcome_run registry bindings e]
      simp only [Run.outcome_andThen, outcome_runAll registry bindings es]
      cases e.evaluate registry bindings with
      | error e => rfl
      | ok x => cases evaluateAll registry bindings es <;> rfl

end

end Expr

/-! ### What a run may come to -/

/-- The error can arise where these variables occur and those values are given. -/
def EvalError.Arises (bindings : Bindings) (names : List Value) : EvalError → Prop
  | .unknownVariable name _ => name ∈ names ∧ Value.lookup? bindings name = none
  | .notRegistered _ _ => False
  | _ => True

/-- There is a result with a property, or an error of evaluation of some kind. -/
def Settled {α : Type} (good : α → Prop) (blame : EvalError → Prop) : Except Failure α → Prop
  | .ok a => good a
  | .error (.formula (.eval e)) => blame e
  | .error _ => False

theorem Settled.ok_or_refused {α : Type} {good : α → Prop} {blame : EvalError → Prop}
    {r : Except Failure α} (h : Settled good blame r) :
    (∃ a, r = .ok a ∧ good a) ∨ ∃ refusal, r = .error (.formula (.eval refusal)) ∧ blame refusal := by
  rcases r with ((_ | _ | refusal | _) | _) | a
  case ok => exact .inl ⟨a, rfl, h⟩
  case error.formula.eval => exact .inr ⟨refusal, rfl, h⟩
  all_goals exact h.elim

/-- An error is as good for one purpose as for another. -/
theorem Settled.error {α β : Type} {good : α → Prop} {better : β → Prop} {blame : EvalError → Prop}
    {e : Failure} (h : Settled good blame (.error e)) : Settled better blame (.error e) := by
  rcases e with (_ | _ | _ | _) | _ <;> exact h

/-- The outcome is settled, and nothing improper was done. -/
structure Run.Safe {α : Type} (registry : Registry) (good : α → Prop) (blame : EvalError → Prop)
    (r : Run α) : Prop where
  settled : Settled good blame r.outcome
  proper : ∀ a ∈ r.log, a.Proper registry

namespace Run

variable {α β : Type} {registry : Registry} {good : α → Prop} {better : β → Prop}
  {blame : EvalError → Prop}

theorem Safe.of {outcome : Except Failure α} (h : Settled good blame outcome) :
    (Run.of outcome).Safe registry good blame :=
  ⟨h, by simp [Run.of]⟩

theorem Safe.perform {a : Application} {good : Float → Prop} (hproper : a.Proper registry)
    (h : Settled good blame a.outcome) : (Run.perform a).Safe registry good blame :=
  ⟨h, by simpa [Run.perform] using hproper⟩

theorem Safe.andThen {r : Run α} {next : α → Run β} (hr : r.Safe registry good blame)
    (hnext : ∀ a, good a → (next a).Safe registry better blame) :
    (r.andThen next).Safe registry better blame := by
  obtain ⟨outcome, log⟩ := r
  obtain ⟨hsettled, hproper⟩ := hr
  cases outcome with
  | error e => exact ⟨hsettled.error, hproper⟩
  | ok a =>
      have hafter := hnext a hsettled
      exact ⟨hafter.settled, List.forall_mem_append.mpr ⟨hproper, hafter.proper⟩⟩

end Run

/-! ### The nodes -/

theorem Binary64.isFinite_neg {x : Float} (h : isFinite x = true) : isFinite (-x) = true := by
  obtain ⟨negative, mantissa, exponent, hx⟩ := exists_decode h
  rw [isFinite, decode_neg hx]

namespace Expr

variable {registry : Registry} {bindings : Bindings} {names : List Value} {position : Option Nat}

/-- What evaluation is about: a number without infinities. -/
abbrev IsValue (x : Float) : Prop := Binary64.isFinite x = true

theorem settled_finite (what : EvalError.Producer) (x : Float) :
    Settled IsValue (EvalError.Arises bindings names) (finite what position x) := by
  unfold finite
  split
  · assumption
  · trivial

theorem settled_variable (hbindings : ∀ b ∈ bindings, b.2.IsDouble) {name : Value}
    (htext : name.IsText) (hname : name ∈ names) :
    Settled IsValue (EvalError.Arises bindings names) (evaluateVariable bindings name position) := by
  rw [evaluateVariable, if_pos htext.canBeKey]
  cases hlookup : Value.lookup? bindings name with
  | none => exact ⟨hname, hlookup⟩
  | some v =>
      obtain ⟨b, hb, rfl⟩ := Option.map_eq_some_iff.mp hlookup
      obtain ⟨x, hx⟩ := (hbindings b (List.mem_of_find?_eq_some hb)).exists_toFloat
      simp only [hx]
      exact settled_finite _ x

theorem settled_applyOp (op : BinaryOp) (a b : Float) :
    Settled IsValue (EvalError.Arises bindings names) (applyOp op position a b) := by
  unfold applyOp
  split
  · trivial
  · exact settled_finite _ _

theorem settled_applyFunction {function : Function} {xs : List Float}
    (hrule : function.rule xs ≠ .error .misapplied) (name : Value) :
    Settled IsValue (EvalError.Arises bindings names) (applyFunction function name position xs) := by
  unfold applyFunction
  split
  · exact settled_finite _ _
  · trivial
  · rename_i hmisapplied
    exact absurd hmisapplied hrule

theorem canBeKey_of_findNamed {name : Value} {function : Function}
    (h : registry.findNamed? name = some function) :
    name.canBeKey = true ∧ ∃ s, registry.find? s = some function := by
  cases name <;> first | exact ⟨rfl, _, h⟩ | cases h

/-! ### Trees -/

mutual

/-- **A tree that was parsed runs safely**, with doubles for its variables. -/
theorem safe_run (hrules : registry.Answers) (hbindings : ∀ b ∈ bindings, b.2.IsDouble) :
    (e : Expr) → e.Whole → e.CallsFit registry → (∀ name ∈ e.variableOccurrences, name ∈ names) →
      (e.run registry bindings).Safe registry IsValue (EvalError.Arises bindings names)
  | .missing, hwhole, _, _ => hwhole.elim
  | .number x _, _, _, _ => by
      rw [run]
      exact .of (settled_finite _ x)
  | .variable name _, hwhole, _, hnames => by
      rw [run]
      exact .of (settled_variable hbindings hwhole (hnames name (by simp [variableOccurrences])))
  | .negate operand _, hwhole, hcalls, hnames => by
      rw [run]
      refine (safe_run hrules hbindings operand hwhole hcalls hnames).andThen fun x hx => ?_
      refine .perform ⟨?_, nofun⟩ ?_
      · simpa [Application.operands] using hx
      · exact Binary64.isFinite_neg hx
  | .binary op left right _, hwhole, hcalls, hnames => by
      rw [variableOccurrences, List.forall_mem_append] at hnames
      rw [run]
      refine (safe_run hrules hbindings left hwhole.1 hcalls.1 hnames.1).andThen fun a ha => ?_
      refine (safe_run hrules hbindings right hwhole.2 hcalls.2 hnames.2).andThen fun b hb => ?_
      refine .perform ⟨?_, nofun⟩ ?_
      · simpa [Application.operands] using And.intro ha hb
      · exact settled_applyOp op a b
  | .call name arguments _, hwhole, hcalls, hnames => by
      obtain ⟨⟨function, hfound, harity⟩, harguments⟩ := hcalls
      obtain ⟨hkey, s, hs⟩ := canBeKey_of_findNamed hfound
      rw [run, if_pos hkey, hfound]
      refine (safe_runAll hrules hbindings arguments hwhole harguments hnames).andThen fun xs hxs => ?_
      have hlength : (xs.length : Int) = function.arity := by rw [hxs.1, harity]
      refine .perform ⟨hxs.2, ?_⟩ (settled_applyFunction (hrules s function hs xs hlength hxs.2) name)
      intro _ _ _ _ hcall
      cases hcall
      exact ⟨hfound, hlength⟩

theorem safe_runAll (hrules : registry.Answers) (hbindings : ∀ b ∈ bindings, b.2.IsDouble) :
    (es : List Expr) → AllWhole es → AllCallsFit registry es →
      (∀ name ∈ allVariableOccurrences es, name ∈ names) →
      (runAll registry bindings es).Safe registry
        (fun xs => xs.length = es.length ∧ ∀ x ∈ xs, IsValue x) (EvalError.Arises bindings names)
  | [], _, _, _ => by
      rw [runAll]
      exact .of ⟨rfl, by simp⟩
  | e :: es, hwhole, hcalls, hnames => by
      rw [allVariableOccurrences, List.forall_mem_append] at hnames
      rw [runAll]
      refine (safe_run hrules hbindings e hwhole.1 hcalls.1 hnames.1).andThen fun x hx => ?_
      refine (safe_runAll hrules hbindings es hwhole.2 hcalls.2 hnames.2).andThen fun xs hxs => ?_
      refine .of ⟨?_, ?_⟩
      · rw [List.length_cons, List.length_cons, hxs.1]
      · exact List.forall_mem_cons.mpr ⟨hx, hxs.2⟩

end

end Expr

/-! ### Formulas -/

namespace Engine

variable {e : Engine} {text : String} {bindings : Bindings}

theorem parse_text (e : Engine) (text : String) :
    e.parse (.str text) = Expr.parse e.registry e.limits text := by
  rw [parse, if_neg (by simp [(Value.isText_str text).canBeKey])]
  rfl

/-- A formula that parses is settled by its evaluation. -/
theorem settled_evaluate (hrules : e.registry.Answers) (hbindings : ∀ b ∈ bindings, b.2.IsDouble)
    {tree : Expr} (h : e.parse (.str text) = .ok tree) :
    Settled Expr.IsValue (EvalError.Arises bindings tree.variableOccurrences)
      (e.evaluate (.str text) bindings) := by
  rw [evaluate, h]
  rw [parse_text] at h
  obtain ⟨hwhole, hcalls⟩ := Expr.whole_of_parse h
  simp only
  rw [← Expr.outcome_run]
  exact (Expr.safe_run hrules hbindings tree hwhole hcalls fun _ hname => hname).settled

/--
**Formulas evaluate soundly.**  A text is a finite number, or it is refused by the stage
that it fails: no character of its own, no formula, or no value.  A tree that was parsed
calls nothing that is not registered; on the way to its value every function is given
finite numbers, as many as it takes, and so is every operator.
-/
theorem evaluate_outcome (e : Engine) (text : String) (bindings : Bindings)
    (hmax : 0 ≤ e.limits.maxTokens) (hrules : e.registry.Answers)
    (hbindings : ∀ b ∈ bindings, b.2.IsDouble) :
    ((∃ x, e.evaluate (.str text) bindings = .ok x ∧ Binary64.isFinite x = true) ∨
      (∃ refusal, e.evaluate (.str text) bindings = .error (.formula (.lex refusal))) ∨
      (∃ refusal, e.evaluate (.str text) bindings = .error (.formula (.parse refusal))) ∨
      ∃ refusal, e.evaluate (.str text) bindings = .error (.formula (.eval refusal))) ∧
    ∀ tree, e.parse (.str text) = .ok tree →
      (∀ name position, tree.evaluate e.registry bindings ≠
        .error (.formula (.eval (.notRegistered name position)))) ∧
      (tree.run e.registry bindings).outcome = tree.evaluate e.registry bindings ∧
      ∀ a ∈ (tree.run e.registry bindings).log, a.Proper e.registry := by
  constructor
  · rcases Expr.parse_outcome e.registry text hmax with ⟨tree, h⟩ | ⟨refusal, h⟩ | ⟨refusal, h⟩
    · rw [← parse_text] at h
      rcases (settled_evaluate hrules hbindings h).ok_or_refused with hvalue | ⟨refusal, hrefused, -⟩
      · exact .inl hvalue
      · exact .inr (.inr (.inr ⟨refusal, hrefused⟩))
    · exact .inr (.inl ⟨refusal, by rw [evaluate, parse_text, h]⟩)
    · exact .inr (.inr (.inl ⟨refusal, by rw [evaluate, parse_text, h]⟩))
  · intro tree h
    rw [parse_text] at h
    obtain ⟨hwhole, hcalls⟩ := Expr.whole_of_parse h
    have hsafe := Expr.safe_run hrules hbindings tree hwhole hcalls fun _ hname => hname
    refine ⟨fun name position hfailed => ?_, Expr.outcome_run e.registry bindings tree, hsafe.proper⟩
    have hsettled := hsafe.settled
    rw [Expr.outcome_run, hfailed] at hsettled
    exact hsettled

/-- The theorem for a quotient whose divisor is not a number. -/
theorem evaluate_outcome_quotient :
    (0 : Int) ≤ ({} : Engine).limits.maxTokens ∧ Registry.standard.Answers ∧
      (∀ b ∈ [(Value.str "x", Value.float 2), (.str "y", .nan 0)], b.2.IsDouble) ∧
      ∃ tree, ({} : Engine).parse (.str "-x / y") = .ok tree ∧
        ∀ a ∈ (tree.run Registry.standard [(.str "x", .float 2), (.str "y", .nan 0)]).log,
          a.Proper Registry.standard := by
  have hdoubles : ∀ b ∈ [(Value.str "x", Value.float 2), (.str "y", .nan 0)], b.2.IsDouble := by
    simp only [List.forall_mem_cons]
    exact ⟨.float 2, .nan 0, by simp⟩
  have hparsed : ({} : Engine).parse (.str "-x / y") = .ok (.binary .divide
      (.negate (.variable (.str "x") (some 1)) (some 0)) (.variable (.str "y") (some 5)) (some 3)) := by
    cbv
  have hsound := evaluate_outcome {} "-x / y" _ (by decide) Registry.standard_answers hdoubles
  exact ⟨by decide, Registry.standard_answers, hdoubles, _, hparsed, (hsound.2 _ hparsed).2.2⟩

end Engine

end Scorecard
