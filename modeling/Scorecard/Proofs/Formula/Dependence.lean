/-
What the value of a formula depends on.

The measures of a tree name the variables that it refers to and the functions that it calls.
Nothing else is looked up when the tree is evaluated: bindings that agree on these variables and
registries that agree on these functions give it the same value, or the same failure.  And all of
them are needed, for evaluation is strict.  A tree has a value only if each of its nodes has.

The measures keep one of several names that are the same as keys.  Bindings hold under one of
these what they hold under the others, so it does not matter which one is kept.
-/
import Scorecard.Proofs.Formula.Lookups
import Scorecard.Proofs.Formula.Places
import Scorecard.Proofs.Steps
import Scorecard.Proofs.Value.Keys
import Scorecard.Proofs.Value.Texts

namespace Scorecard

namespace Expr

variable {registry registry' : Registry} {bindings bindings' : Bindings}

/-! ### Names of nodes -/

mutual

theorem mem_variableOccurrences : (e : Expr) → {name : Value} →
    (name ∈ e.variableOccurrences ↔ ∃ position, .variable name position ∈ e.inOrder)
  | .missing, _ => by simp [variableOccurrences, inOrder]
  | .number _ _, _ => by simp [variableOccurrences, inOrder]
  | .variable _ _, _ => by simp [variableOccurrences, inOrder]
  | .negate operand _, _ => by simp [variableOccurrences, inOrder, mem_variableOccurrences operand]
  | .binary _ left right _, _ => by
      simp [variableOccurrences, inOrder, mem_variableOccurrences left, mem_variableOccurrences right,
        exists_or]
  | .call _ arguments _, _ => by
      simp [variableOccurrences, inOrder, mem_allVariableOccurrences arguments]

theorem mem_allVariableOccurrences : (es : List Expr) → {name : Value} →
    (name ∈ allVariableOccurrences es ↔ ∃ position, .variable name position ∈ allInOrder es)
  | [], _ => by simp [allVariableOccurrences, allInOrder]
  | e :: es, _ => by
      simp [allVariableOccurrences, allInOrder, mem_variableOccurrences e, mem_allVariableOccurrences es,
        exists_or]

end

mutual

theorem mem_callOccurrences : (e : Expr) → {name : Value} →
    (name ∈ e.callOccurrences ↔ ∃ arguments position, .call name arguments position ∈ e.inOrder)
  | .missing, _ => by simp [callOccurrences, inOrder]
  | .number _ _, _ => by simp [callOccurrences, inOrder]
  | .variable _ _, _ => by simp [callOccurrences, inOrder]
  | .negate operand _, _ => by simp [callOccurrences, inOrder, mem_callOccurrences operand]
  | .binary _ left right _, _ => by
      simp [callOccurrences, inOrder, mem_callOccurrences left, mem_callOccurrences right, exists_or]
  | .call _ arguments _, _ => by
      simp [callOccurrences, inOrder, mem_allCallOccurrences arguments, exists_or]

theorem mem_allCallOccurrences : (es : List Expr) → {name : Value} →
    (name ∈ allCallOccurrences es ↔ ∃ arguments position, .call name arguments position ∈ allInOrder es)
  | [], _ => by simp [allCallOccurrences, allInOrder]
  | e :: es, _ => by
      simp [allCallOccurrences, allInOrder, mem_callOccurrences e, mem_allCallOccurrences es, exists_or]

end

/-! ### Evaluation is strict -/

mutual

/-- **A tree has a value only if each of its nodes has.** -/
theorem values_of_evaluate : (e : Expr) → {x : Float} → e.evaluate registry bindings = .ok x →
    ∀ node ∈ e.inOrder, ∃ y, node.evaluate registry bindings = .ok y
  | .missing, _, _ => by simp [inOrder]
  | .number _ _, x, h => by simpa [inOrder] using ⟨x, h⟩
  | .variable _ _, x, h => by simpa [inOrder] using ⟨x, h⟩
  | .negate operand _, x, h => by
      rw [inOrder, List.forall_mem_cons]
      refine ⟨⟨x, h⟩, ?_⟩
      rw [evaluate_negate] at h
      obtain ⟨y, hy, -⟩ := bind_eq_ok_iff.mp h
      exact values_of_evaluate operand hy
  | .binary _ left right _, x, h => by
      rw [inOrder, List.forall_mem_append, List.forall_mem_cons]
      have hroot := h
      rw [evaluate_binary] at h
      obtain ⟨a, hleft, hrest⟩ := bind_eq_ok_iff.mp h
      obtain ⟨b, hright, -⟩ := bind_eq_ok_iff.mp hrest
      exact ⟨values_of_evaluate left hleft, ⟨x, hroot⟩, values_of_evaluate right hright⟩
  | .call _ arguments _, x, h => by
      rw [inOrder, List.forall_mem_cons]
      refine ⟨⟨x, h⟩, ?_⟩
      rw [evaluate_call] at h
      split at h
      · split at h
        · cases h
        · obtain ⟨xs, harguments, -⟩ := bind_eq_ok_iff.mp h
          exact values_of_evaluateAll arguments harguments
      · cases h

theorem values_of_evaluateAll : (es : List Expr) → {xs : List Float} →
    evaluateAll registry bindings es = .ok xs →
      ∀ node ∈ allInOrder es, ∃ y, node.evaluate registry bindings = .ok y
  | [], _, _ => by simp [allInOrder]
  | e :: es, _, h => by
      rw [allInOrder, List.forall_mem_append]
      rw [evaluateAll_cons] at h
      obtain ⟨x, hfirst, hrest⟩ := bind_eq_ok_iff.mp h
      obtain ⟨xs, hothers, -⟩ := bind_eq_ok_iff.mp hrest
      exact ⟨values_of_evaluate e hfirst, values_of_evaluateAll es hothers⟩

end

theorem bound_of_variable {name : Value} {position : Option Nat} {x : Float}
    (h : evaluate registry bindings (.variable name position) = .ok x) :
    name.canBeKey = true ∧ Value.lookup? bindings name ≠ none := by
  rw [evaluate, evaluateVariable] at h
  split at h
  · rename_i hkey
    refine ⟨hkey, fun hnone => ?_⟩
    rw [hnone] at h
    cases h
  · cases h

theorem registered_of_call {name : Value} {arguments : List Expr} {position : Option Nat} {x : Float}
    (h : evaluate registry bindings (.call name arguments position) = .ok x) :
    name.canBeKey = true ∧ registry.findNamed? name ≠ none := by
  rw [evaluate_call] at h
  split at h
  · rename_i hkey
    refine ⟨hkey, fun hnone => ?_⟩
    rw [hnone] at h
    cases h
  · cases h

/-- A tree has a value only if each of its variables has. -/
theorem bound_of_evaluate (e : Expr) {x : Float} (h : e.evaluate registry bindings = .ok x) :
    ∀ name ∈ e.variableOccurrences, name.canBeKey = true ∧ Value.lookup? bindings name ≠ none := by
  intro name hname
  obtain ⟨position, hnode⟩ := e.mem_variableOccurrences.mp hname
  obtain ⟨y, hy⟩ := e.values_of_evaluate h _ hnode
  exact bound_of_variable hy

/-- It has one only if each of the functions that it calls is registered. -/
theorem registered_of_evaluate (e : Expr) {x : Float} (h : e.evaluate registry bindings = .ok x) :
    ∀ name ∈ e.callOccurrences, name.canBeKey = true ∧ registry.findNamed? name ≠ none := by
  intro name hname
  obtain ⟨arguments, position, hnode⟩ := e.mem_callOccurrences.mp hname
  obtain ⟨y, hy⟩ := e.values_of_evaluate h _ hnode
  exact registered_of_call hy

/-! ### Names that are kept -/

/-- Bindings that agree on the distinct ones of some keys agree on all of them. -/
theorem lookup?_of_distinct {names : List Value} (hkeys : ∀ name ∈ names, name.canBeKey = true)
    (h : ∀ name ∈ Value.distinct names, Value.lookup? bindings name = Value.lookup? bindings' name) :
    ∀ name ∈ names, Value.lookup? bindings name = Value.lookup? bindings' name := by
  intro name hname
  obtain ⟨kept, hkept, rfl | hsame⟩ := Value.exists_mem_distinct hname
  · exact h kept hkept
  · have hkey := hkeys kept (Value.mem_of_mem_distinct hkept)
    have hcongr := Value.lookup?_congr hkey (hkeys name hname) hsame
    rw [← hcongr bindings, ← hcongr bindings', h kept hkept]

/-- Registries that agree on the distinct ones of some names agree on all of them, for only texts
are found in a registry. -/
theorem findNamed?_of_distinct {names : List Value}
    (h : ∀ name ∈ Value.distinct names, registry.findNamed? name = registry'.findNamed? name) :
    ∀ name ∈ names, registry.findNamed? name = registry'.findNamed? name := by
  intro name hname
  obtain ⟨kept, hkept, rfl | hsame⟩ := Value.exists_mem_distinct hname
  · exact h kept hkept
  · cases name with
    | str s =>
        obtain rfl := (Value.same_text_iff (Value.isText_str s)).mp hsame
        exact h _ hkept
    | _ => rfl

theorem metrics_eq_ok_iff {e : Expr} {m : Metrics} : e.metrics = .ok m ↔
    (∀ name ∈ e.variableOccurrences ++ e.callOccurrences, name.canBeKey = true) ∧
      m = ⟨e.depth, e.nodes, e.variableNames, e.functionNames⟩ := by
  rw [metrics, ← List.all_eq_true]
  split
  · rename_i hkeys
    simp [hkeys, eq_comm]
  · rename_i hkeys
    simp [hkeys]

/--
**The value of a tree depends on the names in its measures, and on each of them.**  Two runs with
bindings that agree on the variables in the measures and registries that agree on the functions in
them have the same outcome.  If a tree has a value, it has measures, each variable in them is bound
and each function in them is registered.
-/
theorem evaluate_depends (e : Expr) :
    (∀ m, e.metrics = .ok m → ∀ (registry registry' : Registry) (bindings bindings' : Bindings),
      (∀ name ∈ m.variableNames, Value.lookup? bindings name = Value.lookup? bindings' name) →
      (∀ name ∈ m.functionNames, registry.findNamed? name = registry'.findNamed? name) →
      e.evaluate registry bindings = e.evaluate registry' bindings') ∧
    ∀ (registry : Registry) (bindings : Bindings) (x : Float), e.evaluate registry bindings = .ok x →
      ∃ m, e.metrics = .ok m ∧
        (∀ name ∈ m.variableNames, ∃ value, Value.lookup? bindings name = some value) ∧
        ∀ name ∈ m.functionNames, ∃ function, registry.findNamed? name = some function := by
  constructor
  · intro m hm registry registry' bindings bindings' hvariables hfunctions
    obtain ⟨hkeys, rfl⟩ := metrics_eq_ok_iff.mp hm
    rw [List.forall_mem_append] at hkeys
    exact evaluate_congr e (findNamed?_of_distinct hfunctions) (lookup?_of_distinct hkeys.1 hvariables)
  · intro registry bindings x h
    have hbound := e.bound_of_evaluate h
    have hregistered := e.registered_of_evaluate h
    refine ⟨_, metrics_eq_ok_iff.mpr ⟨List.forall_mem_append.mpr ⟨?_, ?_⟩, rfl⟩, ?_, ?_⟩
    · exact fun name hname => (hbound name hname).1
    · exact fun name hname => (hregistered name hname).1
    · intro name hname
      exact Option.ne_none_iff_exists'.mp (hbound name (Value.mem_of_mem_distinct hname)).2
    · intro name hname
      exact Option.ne_none_iff_exists'.mp (hregistered name (Value.mem_of_mem_distinct hname)).2

/-- Of the names `1` and true, which are one key, the measures keep the first. -/
example : (binary .add (.variable (.int 1) none) (.variable (.bool true) none) none).variableNames =
    [.int 1] := by
  rfl

end Expr

end Scorecard
