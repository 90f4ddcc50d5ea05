/-
Taking data apart.

What a reader of records needs: the fields of a record, or the fault that it is no
record; a field that must be there; a field with a default; the members of anything
that has members; and the identifier that a value is turned into.
-/
import Scorecard.Fault

namespace Scorecard

namespace Value

/-- The entries of a record. -/
def entries (v : Value) : Except Fault (List (Value × Value)) :=
  match v.surface with
  | .record es => .ok es
  | _ => .error .notARecord

/-- The entries of a value that is asked for a field by name; text and lists can be
asked for a place only. -/
def indexed (v : Value) : Except Fault (List (Value × Value)) :=
  match v.surface with
  | .record es => .ok es
  | _ => .error .wrongKind

/-- A field that must be there. -/
def requiredField (entries : List (Value × Value)) (name : String) : Except Fault Value :=
  match field? entries name with
  | some v => .ok v
  | none => .error (.missingField name)

/-- A field, or a default where it is absent. -/
def fieldOr (entries : List (Value × Value)) (name : String) (default : Value) : Value :=
  (field? entries name).getD default

/-- The members of a value: the items of a list, the keys of a record, the characters
of a text, the octets of a byte string. -/
def members (v : Value) : Except Fault (List Value) :=
  match v.surface with
  | .list xs => .ok xs
  | .tuple xs => .ok xs
  | .record es => .ok (es.map (·.1))
  | .str s => .ok (s.toList.map fun c => .str (String.singleton c))
  | .broken t => .ok (t.points.map fun point => ofPoints [point])
  | .bytes bs => .ok (bs.map fun b => .int b.toNat)
  | _ => .error .wrongKind

/-- The identifier that a value is turned into; a text with a half of a pair in it is
none. -/
def identifier? (v : Value) : Except Fault (Option String) :=
  match v.surface with
  | .str s => .ok (some s)
  | .broken _ => .ok none
  | .date t => .ok (some t.text)
  | _ => if v.hasLiteral then .ok (some v.literal) else .error .tooManyDigits

end Value

end Scorecard
