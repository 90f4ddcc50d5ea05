/-
The trees that come out of formulas.

A tree that was parsed has no gaps, its variables are called by texts, and its calls
fit the registry, whatever the limits were.  The grammar says the first two of any
derivation, and soundness of the parser the third.  Soundness needs a limit on depth
that admits a leaf; below that the parser still accepts a formula that is a leaf, and
nothing else.

Where the limit on tokens is not negative, a text that does not parse is refused with an
error of its own stage.  A negative limit may count its place from the end of the tokens
and miss them all.
-/
import Scorecard.Proofs.Formula.Language
import Scorecard.Proofs.Value.Texts

namespace Scorecard

/-! ### Trees without gaps -/

namespace Expr

mutual

/-- The tree has no gaps, and its variables have texts for names. -/
def Whole : Expr → Prop
  | .missing => False
  | .number _ _ => True
  | .variable name _ => name.IsText
  | .negate operand _ => operand.Whole
  | .binary _ left right _ => left.Whole ∧ right.Whole
  | .call _ arguments _ => AllWhole arguments

/-- The same of each of some trees. -/
def AllWhole : List Expr → Prop
  | [] => True
  | e :: es => e.Whole ∧ AllWhole es

end

mutual

/-- The variables of a tree without gaps are texts. -/
theorem Whole.isText : (e : Expr) → e.Whole → ∀ name ∈ e.variableOccurrences, name.IsText
  | .missing, h => h.elim
  | .number _ _, _ => by simp [variableOccurrences]
  | .variable name _, h => by simpa [variableOccurrences, Whole] using h
  | .negate operand _, h => by
      rw [variableOccurrences]
      exact Whole.isText operand h
  | .binary _ left right _, h => by
      rw [variableOccurrences]
      exact List.forall_mem_append.mpr ⟨Whole.isText left h.1, Whole.isText right h.2⟩
  | .call _ arguments _, h => by
      rw [variableOccurrences]
      exact AllWhole.isText arguments h

theorem AllWhole.isText : (es : List Expr) → AllWhole es →
    ∀ name ∈ allVariableOccurrences es, name.IsText
  | [], _ => by simp [allVariableOccurrences]
  | e :: es, h => by
      rw [allVariableOccurrences]
      exact List.forall_mem_append.mpr ⟨Whole.isText e h.1, AllWhole.isText es h.2⟩

end

mutual

/-- A call that fits is of a function that a text names. -/
theorem CallsFit.isText {registry : Registry} :
    (e : Expr) → e.CallsFit registry → ∀ name ∈ e.callOccurrences, name.IsText
  | .missing, _ => by simp [callOccurrences]
  | .number _ _, _ => by simp [callOccurrences]
  | .variable _ _, _ => by simp [callOccurrences]
  | .negate operand _, h => by
      rw [callOccurrences]
      exact CallsFit.isText operand h
  | .binary _ left right _, h => by
      rw [callOccurrences]
      exact List.forall_mem_append.mpr ⟨CallsFit.isText left h.1, CallsFit.isText right h.2⟩
  | .call name arguments _, h => by
      obtain ⟨⟨function, hfound, -⟩, harguments⟩ := h
      rw [callOccurrences]
      refine List.forall_mem_cons.mpr ⟨?_, AllCallsFit.isText arguments harguments⟩
      cases name <;> first | exact ⟨_, rfl⟩ | cases hfound

theorem AllCallsFit.isText {registry : Registry} : (es : List Expr) → AllCallsFit registry es →
    ∀ name ∈ allCallOccurrences es, name.IsText
  | [], _ => by simp [allCallOccurrences]
  | e :: es, h => by
      rw [allCallOccurrences]
      exact List.forall_mem_append.mpr ⟨CallsFit.isText e h.1, AllCallsFit.isText es h.2⟩

end

end Expr

/-! ### What the grammar builds -/

mutual

theorem Derives.whole {p : Phrase} {ts : List Token} {e : Expr} {n : Nat} : Derives p ts e n → e.Whole
  | .number _ => trivial
  | .variable _ => Value.isText_str _
  | .group _ inner _ => inner.whole
  | .call _ _ given _ => given.whole
  | .negate _ inner => inner.whole
  | .binary left _ right => ⟨left.whole, right.whole⟩
  | .primary h => h.whole
  | .factor h => h.whole
  | .product h => h.whole

theorem DerivesArguments.whole {ts : List Token} {es : List Expr} {n : Nat} :
    DerivesArguments ts es n → Expr.AllWhole es
  | .none => trivial
  | .some h => h.whole

theorem DerivesList.whole {ts : List Token} {es : List Expr} {n : Nat} :
    DerivesList ts es n → Expr.AllWhole es
  | .one h => ⟨h.whole, trivial⟩
  | .more h _ others => ⟨h.whole, others.whole⟩

end

/-! ### Limits that admit no more than a leaf -/

/-- A number or a variable with a text for a name. -/
inductive Expr.IsLeaf : Expr → Prop
  | number (x : Float) (position : Option Nat) : IsLeaf (.number x position)
  | variable (name : String) (position : Option Nat) : IsLeaf (.variable (.str name) position)

namespace Parser

variable {ctx : Context} {level : Nat} {tokens : List Token} {r : Reading Expr}

theorem isLeaf_of_primary (hmax : ctx.maxDepth < 1) (h : read ctx level .primary tokens = .ok r) :
    r.found.IsLeaf := by
  have hlevel : ctx.maxDepth < level + 1 := by omega
  cases tokens with
  | nil => cases h
  | cons t ts =>
      cases ht : t.kind with
      | number x =>
          rw [read_number ctx level ht] at h
          cases h
          exact .number x _
      | opening =>
          rw [read_group ctx level ht, if_pos hlevel] at h
          cases h
      | name =>
          by_cases hcall : ∀ o, ts.head? = some o → o.kind ≠ .opening
          · rw [read_variable ctx level ht hcall] at h
            cases h
            exact .variable t.text _
          · obtain ⟨o, hhead, ho⟩ : ∃ o, ts.head? = some o ∧ o.kind = .opening := by
              simpa using hcall
            obtain ⟨tail, rfl⟩ := List.head?_eq_some_iff.mp hhead
            rw [read_call ctx level ht ho] at h
            split at h
            · cases h
            · rw [if_pos hlevel] at h
              cases h
      | _ =>
          rw [read_primary_unexpected ctx level (by simp [ht]) (by simp [ht]) (by simp [ht])] at h
          cases h

theorem isLeaf_of_factor (hmax : ctx.maxDepth < 1) (h : read ctx level .factor tokens = .ok r) :
    r.found.IsLeaf := by
  cases tokens with
  | nil =>
      rw [read_factor_nil] at h
      cases h
  | cons t ts =>
      by_cases ht : t.kind = .minus
      · rw [read_minus ctx level ht, if_pos (by omega)] at h
        cases h
      · rw [read_factor_of_ne_minus ctx level ht] at h
        exact isLeaf_of_primary hmax h

/-- Nothing grows: a tree with an operator would be too deep. -/
theorem found_of_readRest (hmax : ctx.maxDepth < 1) {p : Phrase} {left : Expr} {depth : Nat}
    (h : readRest ctx level p left depth tokens = .ok r) : r.found = left := by
  cases tokens with
  | nil =>
      rw [readRest_nil] at h
      cases h
      rfl
  | cons t ts =>
      cases hop : operator? p t.kind with
      | none =>
          rw [readRest_of_none ctx level hop] at h
          cases h
          rfl
      | some op =>
          obtain ⟨rfl, ht⟩ := operator?_eq_some.mp hop
          rw [readRest_operator ctx level ht] at h
          split at h
          · cases h
          · rw [if_pos (by omega)] at h
            cases h

theorem isLeaf_of_operators (hmax : ctx.maxDepth < 1) (op : BinaryOp)
    (hoperand : ∀ {r : Reading Expr}, read ctx level op.operand tokens = .ok r → r.found.IsLeaf)
    (h : read ctx level op.phrase tokens = .ok r) : r.found.IsLeaf := by
  rw [read_operators] at h
  split at h
  · cases h
  · rename_i first hfirst
    rw [found_of_readRest hmax h]
    exact hoperand hfirst

theorem isLeaf_of_sum (hmax : ctx.maxDepth < 1) (h : read ctx level .sum tokens = .ok r) :
    r.found.IsLeaf :=
  isLeaf_of_operators hmax .add
    (fun hproduct => isLeaf_of_operators hmax .multiply (isLeaf_of_factor hmax) hproduct) h

/-! ### What the parser builds -/

/-- **A parsed tree has no gaps and its calls fit**, whatever the limit on depth. -/
theorem whole_of_tree {e : Expr} (h : tree ctx tokens = .ok e) :
    e.Whole ∧ e.CallsFit ctx.registry := by
  by_cases hmax : 1 ≤ ctx.maxDepth
  · obtain ⟨⟨n, hderives, -⟩, hcalls, -⟩ := (tree_eq_ok_iff hmax).mp h
    exact ⟨hderives.whole, hcalls⟩
  · obtain ⟨depth, hread⟩ := tree_eq_ok_iff_read.mp h
    cases isLeaf_of_sum (by omega) hread with
    | number x position => exact ⟨trivial, trivial⟩
    | «variable» name position => exact ⟨Value.isText_str name, trivial⟩

end Parser

/-- A place that counts from the front, and not beyond the end, is there. -/
theorem TokenList.exists_positionAt {list : TokenList} {index : Int} (hpos : 0 ≤ index)
    (hlt : index ≤ list.tokens.length) : ∃ position, list.positionAt? index = some position := by
  simp only [TokenList.positionAt?]
  rw [if_neg (by omega), if_neg (by omega)]
  refine ⟨_, List.getElem?_eq_getElem ?_⟩
  simp only [List.length_append, List.length_map, List.length_singleton]
  omega

namespace Expr

variable {registry : Registry} {limits : Limits} {text : String}

theorem whole_of_parse {e : Expr} (h : parse registry limits text = .ok e) :
    e.Whole ∧ e.CallsFit registry := by
  unfold parse TokenList.parse at h
  split at h
  · cases h
  · split at h
    · split at h <;> cases h
    · split at h
      · rename_i tree htree
        cases h
        exact Parser.whole_of_tree htree
      · cases h

/-- A text has a tree, or an error of the stage that refused it. -/
theorem parse_outcome (registry : Registry) (text : String) (hmax : 0 ≤ limits.maxTokens) :
    (∃ e, parse registry limits text = .ok e) ∨
    (∃ refusal, parse registry limits text = .error (.formula (.lex refusal))) ∨
      ∃ refusal, parse registry limits text = .error (.formula (.parse refusal)) := by
  unfold parse
  split
  · rename_i refusal _
    exact .inr (.inl ⟨refusal, rfl⟩)
  · rename_i list _
    unfold TokenList.parse
    split
    · rename_i hmany
      obtain ⟨position, hposition⟩ := list.exists_positionAt hmax (by omega)
      rw [hposition]
      exact .inr (.inr ⟨_, rfl⟩)
    · split
      · rename_i tree _
        exact .inl ⟨tree, rfl⟩
      · exact .inr (.inr ⟨_, rfl⟩)

end Expr

end Scorecard
