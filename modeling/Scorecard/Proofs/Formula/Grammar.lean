/-
The grammar of formulas, apart from any parser.

    sum       =  product  |  sum      ( "+" | "-" )  product
    product   =  factor   |  product  ( "*" | "/" )  factor
    factor    =  primary  |  "-" factor
    primary   =  number  |  name  |  "(" sum ")"  |  name "(" [ sum { "," sum } ] ")"

Both levels of operators lean to the left, and a group leaves no node.  A derivation
is said of exactly the tokens that it uses up.  It comes with the tree that it
builds, every node at the place of its own token, and with its nesting: how many
groups, calls and signs stand inside one another where they are deepest.

What a formula may call is no matter of the grammar.  `Expr.CallsFit` says it of the
tree, for a registry.
-/
import Scorecard.Formula.Evaluation
import Scorecard.Formula.Parser

namespace Scorecard

/-- The levels of the grammar, the loosest first. -/
inductive Phrase where
  | sum
  | product
  | factor
  | primary
deriving DecidableEq

namespace BinaryOp

/-- The token that an operator is written as. -/
def kind : BinaryOp → Token.Kind
  | .add => .plus
  | .subtract => .minus
  | .multiply => .star
  | .divide => .slash

/-- What an operator builds, and what stands on its left. -/
def phrase : BinaryOp → Phrase
  | .add => .sum
  | .subtract => .sum
  | .multiply => .product
  | .divide => .product

/-- What stands on the right of an operator. -/
def operand : BinaryOp → Phrase
  | .add => .product
  | .subtract => .product
  | .multiply => .factor
  | .divide => .factor

end BinaryOp

/-! ### Derivations -/

mutual

/-- The tokens derive from the phrase, with this tree and this nesting. -/
inductive Derives : Phrase → List Token → Expr → Nat → Prop where
  | number {t : Token} {x : Float} (ht : t.kind = .number x) :
      Derives .primary [t] (.number x (some t.position)) 0
  | variable {t : Token} (ht : t.kind = .name) :
      Derives .primary [t] (.variable (.str t.text) (some t.position)) 0
  | group {o c : Token} {ts : List Token} {e : Expr} {n : Nat} (ho : o.kind = .opening)
      (inner : Derives .sum ts e n) (hc : c.kind = .closing) :
      Derives .primary (o :: (ts ++ [c])) e (n + 1)
  | call {f o c : Token} {ts : List Token} {es : List Expr} {n : Nat} (hf : f.kind = .name)
      (ho : o.kind = .opening) (given : DerivesArguments ts es n) (hc : c.kind = .closing) :
      Derives .primary (f :: o :: (ts ++ [c])) (.call (.str f.text) es (some f.position)) (n + 1)
  | negate {t : Token} {ts : List Token} {e : Expr} {n : Nat} (ht : t.kind = .minus)
      (inner : Derives .factor ts e n) :
      Derives .factor (t :: ts) (.negate e (some t.position)) (n + 1)
  | binary {op : BinaryOp} {t : Token} {ts us : List Token} {a b : Expr} {m n : Nat}
      (left : Derives op.phrase ts a m) (ht : t.kind = op.kind) (right : Derives op.operand us b n) :
      Derives op.phrase (ts ++ t :: us) (.binary op a b (some t.position)) (max m n)
  | primary {ts : List Token} {e : Expr} {n : Nat} (h : Derives .primary ts e n) :
      Derives .factor ts e n
  | factor {ts : List Token} {e : Expr} {n : Nat} (h : Derives .factor ts e n) :
      Derives .product ts e n
  | product {ts : List Token} {e : Expr} {n : Nat} (h : Derives .product ts e n) :
      Derives .sum ts e n

/-- The tokens between the parentheses of a call derive, with these trees. -/
inductive DerivesArguments : List Token → List Expr → Nat → Prop where
  | none : DerivesArguments [] [] 0
  | some {ts : List Token} {es : List Expr} {n : Nat} (h : DerivesList ts es n) :
      DerivesArguments ts es n

/-- The tokens are sums with a comma between two, at least one. -/
inductive DerivesList : List Token → List Expr → Nat → Prop where
  | one {ts : List Token} {e : Expr} {n : Nat} (h : Derives .sum ts e n) : DerivesList ts [e] n
  | more {c : Token} {ts us : List Token} {e : Expr} {es : List Expr} {m n : Nat}
      (h : Derives .sum ts e m) (hc : c.kind = .comma) (others : DerivesList us es n) :
      DerivesList (ts ++ c :: us) (e :: es) (max m n)

end

/-! ### Calls -/

namespace Expr

mutual

/-- Every call in a tree is of a registered function, with as many arguments as it takes. -/
def CallsFit (registry : Registry) : Expr → Prop
  | .missing => True
  | .number _ _ => True
  | .variable _ _ => True
  | .negate operand _ => operand.CallsFit registry
  | .binary _ left right _ => left.CallsFit registry ∧ right.CallsFit registry
  | .call name arguments _ =>
    (∃ function, registry.findNamed? name = some function ∧ function.arity = arguments.length) ∧
      AllCallsFit registry arguments

/-- The same of each of some trees. -/
def AllCallsFit (registry : Registry) : List Expr → Prop
  | [] => True
  | e :: es => e.CallsFit registry ∧ AllCallsFit registry es

end

end Expr

end Scorecard
