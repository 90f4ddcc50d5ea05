/-
Trees as data.

A node becomes a record that names its kind; places are not kept, and a gap is null.
Reading looks at the fields in a fixed order and stops at the first that is wrong:
the operator before the operands, the operands before the result, the arguments of a
call before its name.
-/
import Scorecard.Formula.Expr
import Scorecard.Value.Field
import Scorecard.Value.Number

namespace Scorecard

namespace Expr

/-! ### Writing -/

mutual

/-- A tree as data. -/
def toValue : Expr → Value
  | .missing => .null
  | .number x _ => .record [(.str "type", .str "num"), (.str "value", .float x)]
  | .variable name _ => .record [(.str "type", .str "var"), (.str "name", name)]
  | .negate operand _ =>
    .record [(.str "type", .str "unary"), (.str "operator", .str negationSymbol),
      (.str "operand", operand.toValue)]
  | .binary op left right _ =>
    .record [(.str "type", .str "binary"), (.str "operator", .str op.symbol),
      (.str "left", left.toValue), (.str "right", right.toValue)]
  | .call name arguments _ =>
    .record [(.str "type", .str "call"), (.str "name", name),
      (.str "arguments", .list (allToValues arguments))]

/-- Trees as data. -/
def allToValues : List Expr → List Value
  | [] => []
  | e :: es => e.toValue :: allToValues es

end

/-! ### Reading -/

/-- The operator that a value names. -/
def operatorOf (v : Value) : Except Fault BinaryOp :=
  match v with
  | .str symbol =>
    match BinaryOp.ofSymbol? symbol with
    | some op => .ok op
    | none => .error .meaningless
  | _ => .error .meaningless

/-- The value must name the sign in front of an operand. -/
def checkNegation (v : Value) : Except Fault Unit :=
  match v with
  | .str symbol => if symbol = negationSymbol then .ok () else .error .meaningless
  | _ => .error .meaningless

mutual

/-- The tree that a value describes. -/
def ofValue : Value → Except Fault Expr
  | .null => .ok .missing
  | .record es =>
    match Value.fieldOr es "type" .null with
    | .str "binary" => do
      let op ← operatorOf (← Value.requiredField es "operator")
      let left ← ofField "left" es
      let right ← ofField "right" es
      .ok (.binary op left right none)
    | .str "var" => do
      .ok (.variable (← Value.requiredField es "name") none)
    | .str "num" => do
      let value ← Value.requiredField es "value"
      .ok (.number (← value.toFloat) none)
    | .str "unary" => do
      checkNegation (← Value.requiredField es "operator")
      let operand ← ofField "operand" es
      .ok (.negate operand none)
    | .str "call" => do
      let arguments ← ofArgumentsField es
      .ok (.call (← Value.requiredField es "name") arguments none)
    | other => .error (if other.hasLiteral then .unknownNode other else .tooManyDigits)
  | _ => .error .notARecord

/-- The tree that a field describes, which must be there. -/
def ofField (name : String) : List (Value × Value) → Except Fault Expr
  | [] => .error (.missingField name)
  | (k, v) :: es => if k.same (.str name) then ofValue v else ofField name es

/-- The arguments of a call; without the field there are none. -/
def ofArgumentsField : List (Value × Value) → Except Fault (List Expr)
  | [] => .ok []
  | (k, v) :: es => if k.same (.str "arguments") then ofMembers v else ofArgumentsField es

/-- The trees that the members of a value describe.  Characters, octets and keys
describe none, but for null. -/
def ofMembers : Value → Except Fault (List Expr)
  | .list items => ofItems items
  | .tuple items => ofItems items
  | .str s => if s.isEmpty then .ok [] else .error .notARecord
  | .broken _ => .error .notARecord
  | .bytes bs => if bs.isEmpty then .ok [] else .error .notARecord
  | .record es =>
    es.mapM fun (k, _) => match k with
      | .null => .ok .missing
      | _ => .error .notARecord
  | _ => .error .wrongKind

/-- The trees that values describe, the first fault winning. -/
def ofItems : List Value → Except Fault (List Expr)
  | [] => .ok []
  | v :: vs => do
    let e ← ofValue v
    .ok (e :: (← ofItems vs))

end

end Expr

end Scorecard
