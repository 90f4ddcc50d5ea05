/-
Printing a formula keeps what it means.

The outcome of a formula depends on its tree and not on where the nodes stand; the places
only show in an error.  A printed formula is read as the tree it was, so it has the same
value or fails in the same way, for all bindings.

The exception is a literal that is infinite.  It is printed as a word, and the word is read
as a variable.  Where evaluation comes to such a literal it stops with an error of the
literal, and what was printed stops at a variable that nobody has bound, or, if somebody
has, goes on.
-/
import Scorecard.Proofs.Formula.Reprinting

namespace Scorecard

/-! ### Outcomes without places -/

namespace EvalError

/-- The error without the place that it names. -/
def placeless : EvalError → EvalError
  | .unknownVariable name _ => .unknownVariable name none
  | .divisionByZero _ => .divisionByZero none
  | .notFinite what value _ => .notFinite what value none
  | .notRegistered name _ => .notRegistered name none
  | .failed name reason _ => .failed name reason none

@[simp] theorem kind_placeless (e : EvalError) : e.placeless.kind = e.kind := by
  cases e <;> rfl

@[simp] theorem name_placeless (e : EvalError) : e.placeless.name? = e.name? := by
  cases e <;> rfl

@[simp] theorem message_placeless (e : EvalError) : e.placeless.message = e.message := by
  cases e <;> rfl

end EvalError

/-- The failure without the place that it names. -/
def Failure.placeless : Failure → Failure
  | .formula (.eval e) => .formula (.eval e.placeless)
  | f => f

/-- The same number, or the same failure; of an evaluation error the kind, the name and the
words are the same, but maybe not the place. -/
inductive SameOutcome : Except Failure Float → Except Failure Float → Prop
  | value (x : Float) : SameOutcome (.ok x) (.ok x)
  | failure (f : Failure) : SameOutcome (.error f) (.error f)
  | eval {a b : EvalError} (kind : a.kind = b.kind) (name : a.name? = b.name?)
      (message : a.message = b.message) :
      SameOutcome (.error (.formula (.eval a))) (.error (.formula (.eval b)))

/-- A failure that is no evaluation error stays as it is. -/
theorem Failure.placeless_cases (f : Failure) :
    (∃ e, f = .formula (.eval e)) ∨ f.placeless = f ∧ ∀ e, f ≠ .formula (.eval e) := by
  cases f with
  | fault f => exact .inr ⟨rfl, nofun⟩
  | formula e =>
      cases e with
      | eval e => exact .inl ⟨e, rfl⟩
      | lex e => exact .inr ⟨rfl, nofun⟩
      | parse e => exact .inr ⟨rfl, nofun⟩
      | boundTwice name => exact .inr ⟨rfl, nofun⟩

theorem sameOutcome_of_placeless {a b : Except Failure Float}
    (h : a.mapError Failure.placeless = b.mapError Failure.placeless) : SameOutcome a b := by
  cases a with
  | ok x =>
      cases b with
      | ok y =>
          cases h
          exact .value x
      | error g => cases h
  | error f =>
      cases b with
      | ok y => cases h
      | error g =>
          have hsame : f.placeless = g.placeless := Except.error.inj h
          obtain ⟨d, rfl⟩ | ⟨hf, hother⟩ := f.placeless_cases
          · obtain ⟨e, rfl⟩ | ⟨hg, hother⟩ := g.placeless_cases
            · have hplaceless : d.placeless = e.placeless := by simpa [Failure.placeless] using hsame
              refine .eval ?_ ?_ ?_
              · rw [← d.kind_placeless, hplaceless, e.kind_placeless]
              · rw [← d.name_placeless, hplaceless, e.name_placeless]
              · rw [← d.message_placeless, hplaceless, e.message_placeless]
            · rw [hg] at hsame
              exact absurd hsame.symm (hother _)
          · obtain ⟨e, rfl⟩ | ⟨hg, -⟩ := g.placeless_cases
            · rw [hf] at hsame
              exact absurd hsame (hother _)
            · rw [← hf, hsame, hg]
              exact .failure g

namespace Expr

variable {registry : Registry} {bindings : Bindings}

theorem placeless_finite (what : EvalError.Producer) (position : Option Nat) (x : Float) :
    (finite what position x).mapError Failure.placeless = finite what none x := by
  unfold finite
  split <;> rfl

theorem placeless_variable (name : Value) (position : Option Nat) :
    (evaluateVariable bindings name position).mapError Failure.placeless =
      evaluateVariable bindings name none := by
  unfold evaluateVariable
  split
  · split
    · rfl
    · split
      · exact placeless_finite _ _ _
      · rfl
  · rfl

theorem placeless_applyOp (op : BinaryOp) (position : Option Nat) (a b : Float) :
    (applyOp op position a b).mapError Failure.placeless = applyOp op none a b := by
  unfold applyOp
  split
  · rfl
  · exact placeless_finite _ _ _

theorem placeless_applyFunction (function : Function) (name : Value) (position : Option Nat)
    (xs : List Float) :
    (applyFunction function name position xs).mapError Failure.placeless =
      applyFunction function name none xs := by
  unfold applyFunction
  split
  · exact placeless_finite _ _ _
  · rfl
  · rfl

/-! ### Evaluation, step after step -/

theorem evaluate_negate (operand : Expr) (position : Option Nat) :
    evaluate registry bindings (.negate operand position) =
      (evaluate registry bindings operand).bind fun x => .ok (-x) := by
  rw [evaluate]
  cases evaluate registry bindings operand <;> rfl

theorem evaluate_binary (op : BinaryOp) (left right : Expr) (position : Option Nat) :
    evaluate registry bindings (.binary op left right position) =
      (evaluate registry bindings left).bind fun a =>
        (evaluate registry bindings right).bind fun b => applyOp op position a b := by
  rw [evaluate]
  cases evaluate registry bindings left with
  | error f => rfl
  | ok a => cases evaluate registry bindings right <;> rfl

theorem evaluate_call (name : Value) (arguments : List Expr) (position : Option Nat) :
    evaluate registry bindings (.call name arguments position) =
      if name.canBeKey then
        match registry.findNamed? name with
        | none => failWith (.notRegistered name position)
        | some function =>
          (evaluateAll registry bindings arguments).bind fun xs => applyFunction function name position xs
      else .error (.fault .wrongKind) := by
  rw [evaluate]
  cases registry.findNamed? name with
  | none => rfl
  | some function => cases evaluateAll registry bindings arguments <;> rfl

theorem evaluateAll_cons (e : Expr) (es : List Expr) :
    evaluateAll registry bindings (e :: es) =
      (evaluate registry bindings e).bind fun x =>
        (evaluateAll registry bindings es).bind fun xs => .ok (x :: xs) := by
  rw [evaluateAll]
  cases evaluate registry bindings e with
  | error f => rfl
  | ok x => cases evaluateAll registry bindings es <;> rfl

/-! ### Places -/

/-- Without places one step follows another as before. -/
theorem mapError_bind {α β : Type} (x : Except Failure α) (f : α → Except Failure β) :
    (x.bind f).mapError Failure.placeless =
      (x.mapError Failure.placeless).bind fun a => (f a).mapError Failure.placeless := by
  cases x <;> rfl

mutual

/-- **Places only show in errors.** -/
theorem evaluate_withoutPositions : (e : Expr) →
    evaluate registry bindings e.withoutPositions =
      (evaluate registry bindings e).mapError Failure.placeless
  | .missing => rfl
  | .number _ _ => (placeless_finite _ _ _).symm
  | .variable _ _ => (placeless_variable _ _).symm
  | .negate operand _ => by
      rw [withoutPositions, evaluate_negate, evaluate_negate, mapError_bind,
        evaluate_withoutPositions operand]
      rfl
  | .binary op left right _ => by
      rw [withoutPositions, evaluate_binary, evaluate_binary, mapError_bind,
        evaluate_withoutPositions left, evaluate_withoutPositions right]
      simp only [mapError_bind, placeless_applyOp]
  | .call name arguments _ => by
      rw [withoutPositions, evaluate_call, evaluate_call, evaluateAll_withoutPositions arguments]
      split
      · cases registry.findNamed? name with
        | none => rfl
        | some function => simp only [mapError_bind, placeless_applyFunction]
      · rfl

theorem evaluateAll_withoutPositions : (es : List Expr) →
    evaluateAll registry bindings (allWithoutPositions es) =
      (evaluateAll registry bindings es).mapError Failure.placeless
  | [] => rfl
  | e :: es => by
      rw [allWithoutPositions, evaluateAll_cons, evaluateAll_cons, mapError_bind,
        evaluate_withoutPositions e, evaluateAll_withoutPositions es]
      simp only [mapError_bind]
      rfl

end

/-- Trees that differ in places only have the same outcome. -/
theorem sameOutcome_of_withoutPositions {a b : Expr} (h : a.withoutPositions = b.withoutPositions) :
    SameOutcome (evaluate registry bindings a) (evaluate registry bindings b) := by
  refine sameOutcome_of_placeless ?_
  rw [← evaluate_withoutPositions, ← evaluate_withoutPositions, h]

/-! ### Infinite literals -/

/-- The outcome is the error of a literal that is not finite. -/
def StopsAtLiteral {α : Type} (outcome : Except Failure α) : Prop :=
  ∃ x position, outcome = .error (.formula (.eval (.notFinite .literal x position)))

theorem ok_passes {α : Type} (a : α) : ¬ StopsAtLiteral (.ok a : Except Failure α) :=
  nofun

/-- What is not a literal gives no error of a literal. -/
theorem finite_passes {what : EvalError.Producer} (hwhat : what ≠ .literal) (position : Option Nat)
    (x : Float) : ¬ StopsAtLiteral (finite what position x) := by
  unfold finite
  split
  · exact ok_passes x
  · rintro ⟨y, place, h⟩
    cases h
    exact hwhat rfl

theorem variable_passes (name : Value) (position : Option Nat) :
    ¬ StopsAtLiteral (evaluateVariable bindings name position) := by
  unfold evaluateVariable
  split
  · split
    · exact nofun
    · split
      · exact finite_passes (by rintro ⟨⟩) _ _
      · exact nofun
  · exact nofun

theorem applyOp_passes (op : BinaryOp) (position : Option Nat) (a b : Float) :
    ¬ StopsAtLiteral (applyOp op position a b) := by
  unfold applyOp
  split
  · exact nofun
  · exact finite_passes (by rintro ⟨⟩) _ _

theorem applyFunction_passes (function : Function) (name : Value) (position : Option Nat)
    (xs : List Float) : ¬ StopsAtLiteral (applyFunction function name position xs) := by
  unfold applyFunction
  split
  · exact finite_passes (by rintro ⟨⟩) _ _
  · exact nofun
  · exact nofun

/-- Two outcomes are the same, but for a literal that the first one stopped at; then the
second one, if nobody has bound the name, misses a variable in that place. -/
def DepartsAtLiteral {α : Type} (bindings : Bindings) (before after : Except Failure α) : Prop :=
  (∃ x position, before = .error (.formula (.eval (.notFinite .literal x position))) ∧
      (Value.lookup? bindings infinityName = none →
        after = .error (.formula (.eval (.unknownVariable infinityName position))))) ∨
    ¬ StopsAtLiteral before ∧ after = before

namespace DepartsAtLiteral

variable {α β : Type}

theorem passes {outcome : Except Failure α} (h : ¬ StopsAtLiteral outcome) :
    DepartsAtLiteral bindings outcome outcome :=
  .inr ⟨h, rfl⟩

theorem bind {before after : Except Failure α} {next next' : α → Except Failure β}
    (h : DepartsAtLiteral bindings before after)
    (hnext : ∀ a, DepartsAtLiteral bindings (next a) (next' a)) :
    DepartsAtLiteral bindings (before.bind next) (after.bind next') := by
  rcases h with ⟨x, position, rfl, hafter⟩ | ⟨hpasses, rfl⟩
  · refine .inl ⟨x, position, rfl, fun hfree => ?_⟩
    rw [hafter hfree]
    rfl
  · cases after with
    | error f =>
        refine passes ?_
        rintro ⟨x, position, h⟩
        cases h
        exact hpasses ⟨x, position, rfl⟩
    | ok a => exact hnext a

end DepartsAtLiteral

mutual

/-- **A tree with variables for its infinities has the outcome of the tree**, unless
evaluation comes to one of them. -/
theorem evaluate_lettered : (e : Expr) →
    DepartsAtLiteral bindings (evaluate registry bindings e) (evaluate registry bindings e.lettered)
  | .missing => .passes nofun
  | .number x position => by
      rw [lettered]
      by_cases hx : Binary64.isFinite x = true
      · have hfinite : evaluate registry bindings (.number x position) = .ok x := if_pos hx
        rw [if_pos hx, hfinite]
        exact .passes (ok_passes x)
      · rw [if_neg hx]
        refine .inl ⟨x, position, if_neg hx, fun hfree => ?_⟩
        unfold evaluate evaluateVariable
        rw [hfree]
        rfl
  | .variable _ _ => .passes (variable_passes _ _)
  | .negate operand _ => by
      rw [lettered, evaluate_negate, evaluate_negate]
      exact (evaluate_lettered operand).bind fun _ => .passes (ok_passes _)
  | .binary op left right _ => by
      rw [lettered, evaluate_binary, evaluate_binary]
      exact (evaluate_lettered left).bind fun _ =>
        (evaluate_lettered right).bind fun _ => .passes (applyOp_passes op _ _ _)
  | .call name arguments _ => by
      rw [lettered, evaluate_call, evaluate_call]
      split
      · cases registry.findNamed? name with
        | none => exact .passes nofun
        | some function =>
            exact (evaluateAll_lettered arguments).bind fun _ =>
              .passes (applyFunction_passes function _ _ _)
      · exact .passes nofun

theorem evaluateAll_lettered : (es : List Expr) →
    DepartsAtLiteral bindings (evaluateAll registry bindings es)
      (evaluateAll registry bindings (allLettered es))
  | [] => .passes (ok_passes [])
  | e :: es => by
      rw [allLettered, evaluateAll_cons, evaluateAll_cons]
      exact (evaluate_lettered e).bind fun _ =>
        (evaluateAll_lettered es).bind fun _ => .passes (ok_passes _)

end

/-! ### Formulas -/

/--
**A printed formula means what it did.**  What was parsed from a text can be printed and
read again, with the same registry, and under the same limits if these have room for a leaf.
Then, for all bindings and whatever functions the names stand for, it has the
same value bit for bit or an error of the same kind, name and words: always if its literals
are finite, and else unless evaluation comes to an infinite literal.  If it does, what was
printed misses a variable instead, as long as none of that name is bound.
-/
theorem evaluate_reprinted (registry : Registry) (limits : Limits) (text : String) (e : Expr)
    (h : parse registry limits text = .ok e) :
    ∃ printed, e.print = .ok (.str printed) ∧
      (1 ≤ limits.maxDepth → ∃ tree, parse registry limits printed = .ok tree) ∧
      ∀ (limits' : Limits) (tree : Expr), parse registry limits' printed = .ok tree →
        ∀ (functions : Registry) (bindings : Bindings),
          (e.LiteralsFinite →
            SameOutcome (evaluate functions bindings tree) (evaluate functions bindings e)) ∧
          (¬ StopsAtLiteral (evaluate functions bindings e) →
            SameOutcome (evaluate functions bindings tree) (evaluate functions bindings e)) ∧
          (∀ x position, evaluate functions bindings e = failWith (.notFinite .literal x position) →
            Value.lookup? bindings infinityName = none →
              SameOutcome (evaluate functions bindings tree)
                (failWith (.unknownVariable infinityName position))) := by
  obtain ⟨hprint, hadmits, hread⟩ := parse_reprinted h
  refine ⟨e.text, hprint, hadmits, fun limits' tree htree functions bindings => ?_⟩
  have hsame : SameOutcome (evaluate functions bindings tree) (evaluate functions bindings e.lettered) :=
    sameOutcome_of_withoutPositions (hread limits' tree htree)
  have hdeparts : DepartsAtLiteral bindings (evaluate functions bindings e)
      (evaluate functions bindings e.lettered) := evaluate_lettered e
  refine ⟨fun hfinite => ?_, fun hpasses => ?_, fun x position hstops hfree => ?_⟩
  · rwa [lettered_eq_self e hfinite] at hsame
  · rcases hdeparts with ⟨x, position, hstops, -⟩ | ⟨-, hletters⟩
    · exact absurd ⟨x, position, hstops⟩ hpasses
    · rwa [hletters] at hsame
  · rcases hdeparts with ⟨x', position', hstops', hletters⟩ | ⟨hpasses, -⟩
    · rw [hletters hfree] at hsame
      rw [hstops] at hstops'
      cases hstops'
      exact hsame
    · exact absurd ⟨x, position, hstops⟩ hpasses

/-- A name is a formula, and its tree is a variable. -/
theorem parse_name {name : String} {c : Char} {more : List Char} (hname : name.toList = c :: more)
    (hc : Token.startsName c = true) (hmore : ∀ d ∈ more, Token.continuesName d = true) :
    parse Registry.standard {} name = .ok (.variable (.str name) (some 0)) := by
  have hlexes : Token.Lexes 0 name.toList [⟨.name, name, 0⟩] := by
    have hwhole : String.ofList (c :: more) = name := by rw [← hname, String.ofList_toList]
    rw [hname]
    exact hwhole ▸ Token.Lexes.name hc hmore
  unfold parse
  rw [hlexes.ofText]
  exact (TokenList.parse_eq_ok_iff (by decide)).mpr
    ⟨show (1 : Int) ≤ 4096 by decide, ⟨0, .product (.factor (.primary (.variable rfl))), by decide⟩,
      trivial, show (1 : Int) ≤ 64 by decide⟩

/-- The theorem for a variable. -/
theorem evaluate_reprinted_variable :
    parse Registry.standard {} "x" = .ok (.variable (.str "x") (some 0)) ∧
      ∃ printed, (Expr.variable (.str "x") (some 0)).print = .ok (.str printed) ∧
        ∀ (limits' : Limits) (tree : Expr), parse Registry.standard limits' printed = .ok tree →
          ∀ (functions : Registry) (bindings : Bindings),
            SameOutcome (evaluate functions bindings tree)
              (evaluate functions bindings (.variable (.str "x") (some 0))) := by
  have hparse := @parse_name "x" 'x' [] rfl rfl (by simp)
  obtain ⟨printed, hprint, -, hread⟩ := evaluate_reprinted Registry.standard {} "x" _ hparse
  exact ⟨hparse, printed, hprint, fun limits' tree htree functions bindings =>
    (hread limits' tree htree functions bindings).1 trivial⟩

/-- A numeral with an exponent beyond all doubles. -/
def hugeNumeral : Numeral :=
  ⟨['1'], [], false, ['4', '0', '0']⟩

/-- A literal beyond all doubles is printed as a variable: the literal is out of range, but
the variable is unknown, or has whatever value somebody gives it. -/
theorem evaluate_reprinted_huge :
    ∃ e tree, parse Registry.standard {} "1e+400" = .ok e ∧ e.print = .ok (.str "inf") ∧
      parse Registry.standard {} "inf" = .ok tree ∧
      (∃ a, evaluate Registry.standard [] e = failWith a ∧ a.kind = .domainError) ∧
      (∃ b, evaluate Registry.standard [] tree = failWith b ∧ b.kind = .unknownVariable) ∧
      ∃ x, evaluate Registry.standard [(.str "inf", .float 5)] tree = .ok x := by
  have hwritten : hugeNumeral.Written :=
    ⟨List.all_eq_true.mp rfl, List.all_eq_true.mp rfl, List.all_eq_true.mp rfl, by decide,
      .inr (by decide), by decide⟩
  have hlexes : Token.Lexes 0 "1e+400".toList [⟨.number (hugeNumeral.toFloat false), "1e+400", 0⟩] :=
    .number hwritten
  have hinfinite : Binary64.isFinite (hugeNumeral.toFloat false) = false := by decide +kernel
  have hparse : parse Registry.standard {} "1e+400" =
      .ok (.number (hugeNumeral.toFloat false) (some 0)) := by
    unfold parse
    rw [hlexes.ofText]
    exact (TokenList.parse_eq_ok_iff (by decide)).mpr
      ⟨show (1 : Int) ≤ 4096 by decide, ⟨0, .product (.factor (.primary (.number rfl))), by decide⟩,
        trivial, show (1 : Int) ≤ 64 by decide⟩
  have hlegible : (Expr.number (hugeNumeral.toFloat false) (some 0)).Legible :=
    hugeNumeral.toDecimal.magnitude_toFloat
  have hprint : (Expr.number (hugeNumeral.toFloat false) (some 0)).print = .ok (.str "inf") := by
    rw [print_of_legible hlegible, Expr.text, numberText_infinite hlegible hinfinite]
    rfl
  have hliteral : evaluate Registry.standard [] (.number (hugeNumeral.toFloat false) (some 0)) =
      failWith (.notFinite .literal (hugeNumeral.toFloat false) (some 0)) := by
    unfold evaluate finite
    rw [hinfinite]
    rfl
  have hfive : Binary64.isFinite 5 = true := by decide +kernel
  have hname := @parse_name "inf" 'i' ['n', 'f'] rfl rfl (List.all_eq_true.mp rfl)
  refine ⟨_, _, hparse, hprint, hname, ⟨_, hliteral, rfl⟩, ⟨_, rfl, rfl⟩, 5, ?_⟩
  show finite (.variable (.str "inf")) (some 0) 5 = .ok 5
  exact if_pos hfive

end Expr

end Scorecard
