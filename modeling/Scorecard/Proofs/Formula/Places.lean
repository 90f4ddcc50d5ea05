/-
Where the nodes of a formula stand.

Read in source order, an operator comes between its operands, and a sign or the name of a
call before what it governs.  In that order the nodes of a parsed tree are the tokens of its
text, but for the parentheses and the commas, which leave no node.  Each node is the one
that its token makes, at the place of the token.

The tree is built in another order: an operator's node comes after both of its operands, and
that of the last one is the root.  The grammar says where each node goes, so nothing has to
be said about the parser here.
-/
import Mathlib
import Scorecard.Formula.Metrics
import Scorecard.Proofs.Formula.Limits
import Scorecard.Proofs.Formula.Tokens

namespace Scorecard

/-! ### Source order -/

namespace Expr

/-- Where a node stands in the text. -/
def position : Expr → Option Nat
  | .missing => none
  | .number _ position => position
  | .variable _ position => position
  | .negate _ position => position
  | .binary _ _ _ position => position
  | .call _ _ position => position

mutual

/-- The nodes of a tree in source order, each with all that is below it. -/
def inOrder : Expr → List Expr
  | .missing => []
  | .number x position => [.number x position]
  | .variable name position => [.variable name position]
  | .negate operand position => .negate operand position :: operand.inOrder
  | .binary op left right position =>
    left.inOrder ++ .binary op left right position :: right.inOrder
  | .call name arguments position => .call name arguments position :: allInOrder arguments

/-- The nodes of trees in source order. -/
def allInOrder : List Expr → List Expr
  | [] => []
  | e :: es => e.inOrder ++ allInOrder es

end

mutual

/-- No node is left out, and none comes twice. -/
theorem length_inOrder : (e : Expr) → e.inOrder.length = e.nodes
  | .missing => rfl
  | .number _ _ => rfl
  | .variable _ _ => rfl
  | .negate operand _ => by
      rw [inOrder, nodes, List.length_cons, length_inOrder operand, Nat.add_comm]
  | .binary _ left right _ => by
      rw [inOrder, nodes, List.length_append, List.length_cons, length_inOrder left,
        length_inOrder right]
      omega
  | .call _ arguments _ => by
      rw [inOrder, nodes, List.length_cons, length_allInOrder arguments, Nat.add_comm]

theorem length_allInOrder : (es : List Expr) → (allInOrder es).length = allNodes es
  | [] => rfl
  | e :: es => by
      rw [allInOrder, allNodes, List.length_append, length_inOrder e, length_allInOrder es]

end

end Expr

/-! ### Tokens that make nodes -/

/-- A number, a name or an operator, but no parenthesis and no comma. -/
def Token.Kind.makesNode : Token.Kind → Bool
  | .number _ => true
  | .name => true
  | .plus => true
  | .minus => true
  | .star => true
  | .slash => true
  | .opening => false
  | .closing => false
  | .comma => false

@[simp] theorem BinaryOp.makesNode_kind (op : BinaryOp) : op.kind.makesNode = true := by
  cases op <;> rfl

/-- The tokens that make nodes. -/
def TokenList.significant (list : TokenList) : List Token :=
  list.tokens.filter (·.kind.makesNode)

/-- The node is the one that the token makes: a literal with its value, a variable or a call
with its text, or a node with its operator, at its place. -/
inductive Expr.StandsFor : Expr → Token → Prop
  | number {t : Token} {x : Float} (ht : t.kind = .number x) :
      StandsFor (.number x (some t.position)) t
  | variable {t : Token} (ht : t.kind = .name) :
      StandsFor (.variable (.str t.text) (some t.position)) t
  | negate {t : Token} (operand : Expr) (ht : t.kind = .minus) :
      StandsFor (.negate operand (some t.position)) t
  | binary {t : Token} {op : BinaryOp} (left right : Expr) (ht : t.kind = op.kind) :
      StandsFor (.binary op left right (some t.position)) t
  | call {t : Token} (arguments : List Expr) (ht : t.kind = .name) :
      StandsFor (.call (.str t.text) arguments (some t.position)) t

theorem Expr.StandsFor.position {e : Expr} {t : Token} (h : e.StandsFor t) :
    e.position = some t.position := by
  cases h <;> rfl

/-! ### Derivations -/

mutual

/-- The nodes of a derived tree stand for the tokens that make nodes, one for each and in
their order. -/
theorem Derives.standsFor {p : Phrase} {ts : List Token} {e : Expr} {n : Nat} : Derives p ts e n →
    List.Forall₂ Expr.StandsFor e.inOrder (ts.filter (·.kind.makesNode))
  | .number ht => by
      simpa [Expr.inOrder, ht, Token.Kind.makesNode] using Expr.StandsFor.number ht
  | .variable ht => by
      simpa [Expr.inOrder, ht, Token.Kind.makesNode] using Expr.StandsFor.variable ht
  | .group ho inner hc => by
      simpa [ho, hc, Token.Kind.makesNode] using inner.standsFor
  | .call hf ho given hc => by
      simpa [Expr.inOrder, hf, ho, hc, Token.Kind.makesNode] using
        ⟨Expr.StandsFor.call _ hf, given.standsFor⟩
  | .negate ht inner => by
      simpa [Expr.inOrder, ht, Token.Kind.makesNode] using
        ⟨Expr.StandsFor.negate _ ht, inner.standsFor⟩
  | .binary left ht right => by
      rw [Expr.inOrder, List.filter_append, List.filter_cons_of_pos (by simp [ht])]
      exact List.rel_append left.standsFor (.cons (.binary _ _ ht) right.standsFor)
  | .primary h => h.standsFor
  | .factor h => h.standsFor
  | .product h => h.standsFor

theorem DerivesArguments.standsFor {ts : List Token} {es : List Expr} {n : Nat} :
    DerivesArguments ts es n →
      List.Forall₂ Expr.StandsFor (Expr.allInOrder es) (ts.filter (·.kind.makesNode))
  | .none => .nil
  | .some h => h.standsFor

theorem DerivesList.standsFor {ts : List Token} {es : List Expr} {n : Nat} : DerivesList ts es n →
    List.Forall₂ Expr.StandsFor (Expr.allInOrder es) (ts.filter (·.kind.makesNode))
  | .one h => by
      simpa [Expr.allInOrder] using h.standsFor
  | .more h hc others => by
      rw [Expr.allInOrder, List.filter_append,
        List.filter_cons_of_neg (by simp [hc, Token.Kind.makesNode])]
      exact List.rel_append h.standsFor others.standsFor

end

/-! ### Formulas -/

namespace Expr

/-- The names of a tree without gaps can be collected. -/
theorem metrics_of_whole {registry : Registry} {e : Expr} (hwhole : e.Whole)
    (hcalls : e.CallsFit registry) :
    e.metrics = .ok ⟨e.depth, e.nodes, e.variableNames, e.functionNames⟩ := by
  have hkeys : ∀ name ∈ e.variableOccurrences ++ e.callOccurrences, name.canBeKey = true := by
    intro name hname
    rcases List.mem_append.mp hname with hvariable | hcall
    · exact (hwhole.isText e name hvariable).canBeKey
    · exact (hcalls.isText e name hcall).canBeKey
  rw [metrics, if_pos (List.all_eq_true.mpr hkeys)]

/--
**The nodes of a parsed formula are its tokens, but for parentheses and commas.**  Read in
source order each stands for its own token, with the value, the name or the operator of it,
and at its place, so that the places increase; and the number of nodes that is measured is
the number of these tokens.
-/
theorem parse_places (registry : Registry) (limits : Limits) (text : String) {e : Expr}
    (h : parse registry limits text = .ok e) :
    ∃ list, TokenList.ofText text = .ok list ∧
      List.Forall₂ StandsFor e.inOrder list.significant ∧
      e.inOrder.map position = list.significant.map (some ·.position) ∧
      (list.significant.map (·.position)).Pairwise (· < ·) ∧
      ∃ m, e.metrics = .ok m ∧ m.nodes = list.significant.length := by
  obtain ⟨list, hlist, n, hderives⟩ := exists_derives h
  have hstand : List.Forall₂ StandsFor e.inOrder list.significant := hderives.standsFor
  refine ⟨list, hlist, hstand, ?places, ?increase, ?count⟩
  case places =>
    rw [← List.forall₂_eq_eq_eq, List.forall₂_map_left_iff, List.forall₂_map_right_iff]
    exact hstand.imp fun _ _ => StandsFor.position
  case increase =>
    have hsorted := (List.pairwise_append.mp (TokenList.sorted_places hlist)).1
    exact List.pairwise_map.mpr ((List.pairwise_map.mp hsorted).filter _)
  case count =>
    obtain ⟨hwhole, hcalls⟩ := whole_of_parse h
    exact ⟨_, metrics_of_whole hwhole hcalls, by rw [← length_inOrder, hstand.length_eq]⟩

/-- The theorem for a product whose left factor is a sign in front of a group: seven nodes in
eleven tokens. -/
theorem parse_places_product :
    ∃ e list, parse Registry.standard {} "-(a - floor(b)) * c" = .ok e ∧
      TokenList.ofText "-(a - floor(b)) * c" = .ok list ∧
      List.Forall₂ StandsFor e.inOrder list.significant ∧
      e.inOrder.map position = [0, 2, 4, 6, 12, 16, 18].map some ∧
      (list.significant.map (·.position)).Pairwise (· < ·) ∧
      ∃ m, e.metrics = .ok m ∧ m.nodes = list.significant.length := by
  have hparsed : parse Registry.standard {} "-(a - floor(b)) * c" = .ok (.binary .multiply
      (.negate (.binary .subtract (.variable (.str "a") (some 2))
        (.call (.str "floor") [.variable (.str "b") (some 12)] (some 6)) (some 4)) (some 0))
      (.variable (.str "c") (some 18)) (some 16)) := by
    cbv
  obtain ⟨list, hlist, hstand, -, hsorted, hcount⟩ := parse_places Registry.standard {} _ hparsed
  exact ⟨_, list, hparsed, hlist, hstand, rfl, hsorted, hcount⟩

end Expr

end Scorecard
