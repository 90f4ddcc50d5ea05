/-
Where evaluation fails.

Operands and arguments are evaluated from left to right, and the first failure ends it.  So
evaluation fails at one node.  It comes to that node, which is to say that whatever stands to
the left of it has a value, and there it breaks: the operands have values as well, and still
the node has none.

`Reaches` and `Breaks` say these two things, and together they are failing.
-/
import Scorecard.Proofs.Formula.Evaluation
import Scorecard.Proofs.Formula.Meaning
import Scorecard.Proofs.Steps

namespace Scorecard

namespace Expr

variable {registry : Registry} {bindings : Bindings}

/-! ### Values are finite -/

theorem isFinite_of_finite {what : EvalError.Producer} {position : Option Nat} {x y : Float}
    (h : finite what position x = .ok y) : Binary64.isFinite y = true := by
  unfold finite at h
  split at h
  · rename_i hx
    cases h
    exact hx
  · cases h

theorem isFinite_of_variable {name : Value} {position : Option Nat} {x : Float}
    (h : evaluateVariable bindings name position = .ok x) : Binary64.isFinite x = true := by
  unfold evaluateVariable at h
  split at h
  · split at h
    · cases h
    · split at h
      · exact isFinite_of_finite h
      · cases h
  · cases h

theorem isFinite_of_applyOp {op : BinaryOp} {position : Option Nat} {a b x : Float}
    (h : applyOp op position a b = .ok x) : Binary64.isFinite x = true := by
  unfold applyOp at h
  split at h
  · cases h
  · exact isFinite_of_finite h

theorem isFinite_of_applyFunction {function : Function} {name : Value} {position : Option Nat}
    {xs : List Float} {x : Float} (h : applyFunction function name position xs = .ok x) :
    Binary64.isFinite x = true := by
  unfold applyFunction at h
  split at h
  · exact isFinite_of_finite h
  · cases h
  · cases h

/-- **The value of a tree is finite**, whatever it is bound to and calls. -/
theorem isFinite_of_evaluate (e : Expr) {x : Float} (h : e.evaluate registry bindings = .ok x) :
    Binary64.isFinite x = true := by
  cases e with
  | missing => cases h
  | number y position => exact isFinite_of_finite h
  | «variable» name position => exact isFinite_of_variable h
  | negate operand position =>
      rw [evaluate_negate] at h
      obtain ⟨y, hy, hneg⟩ := bind_eq_ok_iff.mp h
      cases hneg
      exact Binary64.isFinite_neg (isFinite_of_evaluate operand hy)
  | binary op left right position =>
      rw [evaluate_binary] at h
      obtain ⟨a, -, hright⟩ := bind_eq_ok_iff.mp h
      obtain ⟨b, -, happly⟩ := bind_eq_ok_iff.mp hright
      exact isFinite_of_applyOp happly
  | call name arguments position =>
      rw [evaluate_call] at h
      split at h
      · split at h
        · cases h
        · obtain ⟨xs, -, happly⟩ := bind_eq_ok_iff.mp h
          exact isFinite_of_applyFunction happly
      · cases h
termination_by e

theorem isFinite_of_evaluateAll {es : List Expr} {xs : List Float}
    (h : evaluateAll registry bindings es = .ok xs) :
    xs.length = es.length ∧ ∀ x ∈ xs, Binary64.isFinite x = true := by
  induction es generalizing xs with
  | nil =>
      cases h
      simp
  | cons e es ih =>
      rw [evaluateAll_cons] at h
      obtain ⟨x, hx, hrest⟩ := bind_eq_ok_iff.mp h
      obtain ⟨others, hothers, hcons⟩ := bind_eq_ok_iff.mp hrest
      cases hcons
      obtain ⟨hlength, hfinite⟩ := ih hothers
      exact ⟨by rw [List.length_cons, List.length_cons, hlength],
        List.forall_mem_cons.mpr ⟨isFinite_of_evaluate e hx, hfinite⟩⟩

/-! ### Reaching a node, and breaking there -/

/-- Evaluation of the first tree comes to the second, a part of it: whatever stands to the left
has a value. -/
inductive Reaches (registry : Registry) (bindings : Bindings) : Expr → Expr → Prop
  | self (e : Expr) : Reaches registry bindings e e
  | operand {operand sub : Expr} {position : Option Nat} (h : Reaches registry bindings operand sub) :
      Reaches registry bindings (.negate operand position) sub
  | left {op : BinaryOp} {left right sub : Expr} {position : Option Nat}
      (h : Reaches registry bindings left sub) :
      Reaches registry bindings (.binary op left right position) sub
  | right {op : BinaryOp} {left right sub : Expr} {position : Option Nat} {a : Float}
      (hleft : left.evaluate registry bindings = .ok a) (h : Reaches registry bindings right sub) :
      Reaches registry bindings (.binary op left right position) sub
  | argument {name : Value} {before after : List Expr} {e sub : Expr} {position : Option Nat}
      {function : Function} {xs : List Float} (hkey : name.canBeKey = true)
      (hfound : registry.findNamed? name = some function)
      (hbefore : evaluateAll registry bindings before = .ok xs) (h : Reaches registry bindings e sub) :
      Reaches registry bindings (.call name (before ++ e :: after) position) sub

/-- The node fails by itself: its operands have values, as far as it asks for them, and the step
on them fails. -/
inductive Breaks (registry : Registry) (bindings : Bindings) : Expr → Failure → Prop
  | missing : Breaks registry bindings .missing (.fault .wrongKind)
  | number {x : Float} {position : Option Nat} {f : Failure}
      (h : finite .literal position x = .error f) :
      Breaks registry bindings (.number x position) f
  | variable {name : Value} {position : Option Nat} {f : Failure}
      (h : evaluateVariable bindings name position = .error f) :
      Breaks registry bindings (.variable name position) f
  | operator {op : BinaryOp} {left right : Expr} {position : Option Nat} {a b : Float} {f : Failure}
      (hleft : left.evaluate registry bindings = .ok a)
      (hright : right.evaluate registry bindings = .ok b) (h : applyOp op position a b = .error f) :
      Breaks registry bindings (.binary op left right position) f
  | unfit {name : Value} {arguments : List Expr} {position : Option Nat} (hkey : name.canBeKey = false) :
      Breaks registry bindings (.call name arguments position) (.fault .wrongKind)
  | unregistered {name : Value} {arguments : List Expr} {position : Option Nat}
      (hkey : name.canBeKey = true) (hfound : registry.findNamed? name = none) :
      Breaks registry bindings (.call name arguments position)
        (.formula (.eval (.notRegistered name position)))
  | function {name : Value} {arguments : List Expr} {position : Option Nat} {function : Function}
      {xs : List Float} {f : Failure} (hkey : name.canBeKey = true)
      (hfound : registry.findNamed? name = some function)
      (harguments : evaluateAll registry bindings arguments = .ok xs)
      (h : applyFunction function name position xs = .error f) :
      Breaks registry bindings (.call name arguments position) f

variable {e sub : Expr} {f : Failure}

theorem Breaks.evaluate (h : Breaks registry bindings e f) : e.evaluate registry bindings = .error f := by
  cases h with
  | missing => rfl
  | number h => exact h
  | «variable» h => exact h
  | operator hleft hright h => rw [evaluate_binary, hleft, Except.bind, hright, Except.bind, h]
  | unfit hkey => rw [evaluate_call, if_neg (by simp [hkey])]
  | unregistered hkey hfound =>
      rw [evaluate_call, if_pos hkey, hfound]
      rfl
  | function hkey hfound harguments h =>
      rw [evaluate_call, if_pos hkey, hfound]
      simp only [harguments, Except.bind, h]

theorem evaluateAll_append {before after : List Expr} {xs : List Float}
    (hbefore : evaluateAll registry bindings before = .ok xs)
    (h : e.evaluate registry bindings = .error f) :
    evaluateAll registry bindings (before ++ e :: after) = .error f := by
  induction before generalizing xs with
  | nil => rw [List.nil_append, evaluateAll_cons, h, Except.bind]
  | cons d before ih =>
      rw [evaluateAll_cons] at hbefore
      obtain ⟨x, hx, hrest⟩ := bind_eq_ok_iff.mp hbefore
      obtain ⟨others, hothers, -⟩ := bind_eq_ok_iff.mp hrest
      rw [List.cons_append, evaluateAll_cons, hx, Except.bind, ih hothers, Except.bind]

/-- What fails where evaluation comes to makes the whole tree fail. -/
theorem Reaches.evaluate (h : Reaches registry bindings e sub)
    (hsub : sub.evaluate registry bindings = .error f) : e.evaluate registry bindings = .error f := by
  induction h with
  | self e => exact hsub
  | operand h ih => rw [evaluate_negate, ih hsub, Except.bind]
  | left h ih => rw [evaluate_binary, ih hsub, Except.bind]
  | right hleft h ih => rw [evaluate_binary, hleft, Except.bind, ih hsub, Except.bind]
  | argument hkey hfound hbefore h ih =>
      rw [evaluate_call, if_pos hkey, hfound]
      simp only [evaluateAll_append hbefore (ih hsub), Except.bind]

mutual

/-- A tree that fails has a node where it does. -/
theorem exists_breaks : (e : Expr) → {f : Failure} → e.evaluate registry bindings = .error f →
    ∃ sub, Reaches registry bindings e sub ∧ Breaks registry bindings sub f
  | .missing, _, h => by
      cases h
      exact ⟨_, .self _, .missing⟩
  | .number _ _, _, h => ⟨_, .self _, .number h⟩
  | .variable _ _, _, h => ⟨_, .self _, .variable h⟩
  | .negate operand _, _, h => by
      rw [evaluate_negate] at h
      rcases bind_eq_error_iff.mp h with hoperand | ⟨x, -, hneg⟩
      · obtain ⟨sub, hreaches, hbreaks⟩ := exists_breaks operand hoperand
        exact ⟨sub, .operand hreaches, hbreaks⟩
      · cases hneg
  | .binary _ left right _, _, h => by
      rw [evaluate_binary] at h
      rcases bind_eq_error_iff.mp h with hleft | ⟨a, hleft, hrest⟩
      · obtain ⟨sub, hreaches, hbreaks⟩ := exists_breaks left hleft
        exact ⟨sub, .left hreaches, hbreaks⟩
      · rcases bind_eq_error_iff.mp hrest with hright | ⟨b, hright, happly⟩
        · obtain ⟨sub, hreaches, hbreaks⟩ := exists_breaks right hright
          exact ⟨sub, .right hleft hreaches, hbreaks⟩
        · exact ⟨_, .self _, .operator hleft hright happly⟩
  | .call name arguments _, _, h => by
      rw [evaluate_call] at h
      split at h
      · rename_i hkey
        split at h
        · rename_i hfound
          cases h
          exact ⟨_, .self _, .unregistered hkey hfound⟩
        · rename_i function hfound
          rcases bind_eq_error_iff.mp h with harguments | ⟨xs, harguments, happly⟩
          · obtain ⟨before, e, after, xs, sub, rfl, hbefore, hreaches, hbreaks⟩ :=
              exists_breaks_of_evaluateAll arguments harguments
            exact ⟨sub, .argument hkey hfound hbefore hreaches, hbreaks⟩
          · exact ⟨_, .self _, .function hkey hfound harguments happly⟩
      · rename_i hkey
        cases h
        exact ⟨_, .self _, .unfit (by simpa using hkey)⟩

theorem exists_breaks_of_evaluateAll : (es : List Expr) → {f : Failure} →
    evaluateAll registry bindings es = .error f →
    ∃ before e after xs sub, es = before ++ e :: after ∧
      evaluateAll registry bindings before = .ok xs ∧ Reaches registry bindings e sub ∧
      Breaks registry bindings sub f
  | [], _, h => by cases h
  | e :: es, _, h => by
      rw [evaluateAll_cons] at h
      rcases bind_eq_error_iff.mp h with hfirst | ⟨x, hfirst, hrest⟩
      · obtain ⟨sub, hreaches, hbreaks⟩ := exists_breaks e hfirst
        exact ⟨[], e, es, [], sub, rfl, rfl, hreaches, hbreaks⟩
      · rcases bind_eq_error_iff.mp hrest with hothers | ⟨xs, -, hcons⟩
        · obtain ⟨before, d, after, xs, sub, rfl, hbefore, hreaches, hbreaks⟩ :=
            exists_breaks_of_evaluateAll es hothers
          refine ⟨e :: before, d, after, x :: xs, sub, rfl, ?_, hreaches, hbreaks⟩
          rw [evaluateAll_cons, hfirst, Except.bind, hbefore, Except.bind]
        · cases hcons

end

/-- **Evaluation fails as a node does that it comes to.** -/
theorem evaluate_eq_error_iff : e.evaluate registry bindings = .error f ↔
    ∃ sub, Reaches registry bindings e sub ∧ Breaks registry bindings sub f :=
  ⟨exists_breaks e, fun ⟨_, hreaches, hbreaks⟩ => hreaches.evaluate hbreaks.evaluate⟩

/-! ### Parts of a parsed tree -/

theorem AllWhole.of_append {before after : List Expr} (h : AllWhole (before ++ e :: after)) : e.Whole := by
  induction before with
  | nil => exact h.1
  | cons d before ih => exact ih h.2

theorem AllCallsFit.of_append {before after : List Expr}
    (h : AllCallsFit registry (before ++ e :: after)) : e.CallsFit registry := by
  induction before with
  | nil => exact h.1
  | cons d before ih => exact ih h.2

/-- What evaluation of a tree without gaps comes to has none, and its calls fit as well. -/
theorem Reaches.whole (h : Reaches registry bindings e sub) (hwhole : e.Whole)
    (hcalls : e.CallsFit registry) : sub.Whole ∧ sub.CallsFit registry := by
  induction h with
  | self e => exact ⟨hwhole, hcalls⟩
  | operand h ih => exact ih hwhole hcalls
  | left h ih => exact ih hwhole.1 hcalls.1
  | right hleft h ih => exact ih hwhole.2 hcalls.2
  | argument hkey hfound hbefore h ih => exact ih (AllWhole.of_append hwhole) hcalls.2.of_append

end Expr

end Scorecard
