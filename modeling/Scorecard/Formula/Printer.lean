/-
From a tree back to text.

The text has the fewest parentheses that keep the tree: an operand is enclosed when
it binds weaker than its place demands, and on the right of an operator also when it
binds equally.  A whole number of moderate size is written without a point, any
other with the fewest digits that read back.  A negative number is written with a
sign, so it binds like a negation.
-/
import Scorecard.Fault
import Scorecard.Formula.Expr

namespace Scorecard

/-- Whole numbers below this magnitude are written without a point. -/
def wholeTextBelow : Float := 1e15

/-- How a formula writes a number. -/
def numberText (x : Float) : String :=
  match Binary64.toInt? x with
  | some n => if x.abs < wholeTextBelow then intText n else floatText x
  | none => floatText x

namespace Expr

/-- How tightly a sign in front binds. -/
def negationPrecedence : Nat := 3

/-- How tightly what needs no parentheses binds. -/
def atomPrecedence : Nat := 4

/-- How tightly a tree binds at its root. -/
def precedence : Expr → Nat
  | .binary op _ _ _ => op.precedence
  | .negate _ _ => negationPrecedence
  | .number x _ => if x < 0 then negationPrecedence else atomPrecedence
  | _ => atomPrecedence

/-- Text between parentheses, if it needs them. -/
def enclose (needed : Bool) (text : String) : String :=
  if needed then "(" ++ text ++ ")" else text

mutual

/-- The text of a tree.  A gap has none, and a name that is not text is displayed. -/
def text : Expr → String
  | .missing => ""
  | .number x _ => numberText x
  | .variable name _ => name.display
  | .negate operand _ =>
    negationSymbol ++ enclose (decide (operand.precedence < negationPrecedence)) operand.text
  | .binary op left right _ =>
    enclose (decide (left.precedence < op.precedence)) left.text ++ " " ++ op.symbol ++ " " ++
      enclose (decide (right.precedence ≤ op.precedence)) right.text
  | .call name arguments _ => name.display ++ "(" ++ argumentsText arguments ++ ")"

/-- The texts of arguments, a comma between two. -/
def argumentsText : List Expr → String
  | [] => ""
  | [e] => e.text
  | e :: es => e.text ++ ", " ++ argumentsText es

end

/-! ### Trees from stored data

Such a tree may have gaps, and then it has no text.  A variable whose name is not
text stands for that name itself, which can be displayed between operators but not
be joined to a sign or to other arguments.
-/

/-- The tree is no bare name other than text. -/
def joinable : Expr → Bool
  | .variable (.str _) _ => true
  | .variable _ _ => false
  | _ => true

mutual

/-- Every part of the tree can be written. -/
def printable : Expr → Bool
  | .missing => false
  | .number _ _ => true
  | .variable _ _ => true
  | .negate operand _ => operand.printable && operand.joinable
  | .binary _ left right _ => left.printable && right.printable
  | .call _ arguments _ => allPrintable arguments

/-- Every argument can be written and joined to the others. -/
def allPrintable : List Expr → Bool
  | [] => true
  | e :: es => e.printable && e.joinable && allPrintable es

end

/-- The printed form of a tree: its text, but for a bare name, which stands for itself. -/
def print (e : Expr) : Except Fault Value :=
  if e.printable then
    match e with
    | .variable name _ => .ok name
    | _ => .ok (.str e.text)
  else .error .wrongKind

end Expr

end Scorecard
