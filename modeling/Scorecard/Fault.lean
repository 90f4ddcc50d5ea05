/-
Faults: data that is not of the shape that an operation needs.

A fault is not one of the typed errors of scoring; it says that the caller handed
over the wrong thing.  Most faults are told apart by their cause alone.  Those that
this library words itself carry what their message quotes.

Faults come in families, and who turns faults into errors of another kind says for which
families.
-/
import Scorecard.Value.Display

namespace Scorecard

/-- Why data does not fit. -/
inductive Fault where
  /-- A field was asked of something that is not a record. -/
  | notARecord
  /-- A record lacks a field that it must have. -/
  | missingField (name : String)
  /-- A value is of a kind that the operation does not take. -/
  | wrongKind
  /-- A text or number has no meaning where it stands. -/
  | meaningless
  /-- An integer is larger than every double, or than what is counted in words. -/
  | tooLarge
  /-- An integer has more digits than are read or written as text. -/
  | tooManyDigits
  /-- A value that holds itself would have to be written out. -/
  | endless
  /-- A position lies outside its list. -/
  | outOfRange
  /-- The key of a record to be written as JSON is not text. -/
  | keyNotText (key : Value)
  /-- A record names no kind of expression node. -/
  | unknownNode (type : Value)
  /-- A submitted answer chose a possible answer that the questionnaire lacks. -/
  | unknownChoice (id : Value)
  /-- A stored total is not the sum of the stored values. -/
  | totalMismatch (stored : Value) (total : Float)
  /-- A signing key without a single octet. -/
  | emptySigningKey
  /-- A function that would take fewer than no arguments. -/
  | negativeArity (name : String)
  /-- A text that is not JSON. -/
  | badJson
  /-- A text that is not a YAML document. -/
  | badYaml

namespace Fault

/-- The families of faults. -/
inductive Family where
  /-- Something was looked up that is not there. -/
  | notFound
  /-- A value is of a kind that cannot be used so. -/
  | wrongType
  /-- A value is of a kind that can be used so, but it makes no sense. -/
  | badValue
  /-- Something was asked of a value that only values of another kind have. -/
  | notSupported
  /-- A position was asked for that is not there. -/
  | outOfRange
  /-- A number is beyond what can be counted with. -/
  | overflow
  /-- A document cannot be read. -/
  | badDocument
deriving DecidableEq

/-- The family of a fault. -/
def family : Fault → Family
  | .missingField _ | .unknownChoice _ => .notFound
  | .wrongKind | .keyNotText _ | .unknownNode _ => .wrongType
  | .meaningless | .tooManyDigits | .endless | .totalMismatch _ _ | .emptySigningKey | .negativeArity _
  | .badJson => .badValue
  | .notARecord => .notSupported
  | .outOfRange => .outOfRange
  | .tooLarge => .overflow
  | .badYaml => .badDocument

/-- The message of a fault that this library words itself. -/
def message? : Fault → Option String
  | .keyNotText key => some s!"Object keys must be str, not {key.kindName}: {key.literal}"
  | .unknownNode type => some s!"Unsupported expression dict type: {type.display}"
  | .unknownChoice id => some s!"Unknown possible answer: {id.display}"
  | .totalMismatch stored total =>
    some s!"Stored total {stored.literal} does not match answers (total {floatText total})"
  | .emptySigningKey => some "Signing key must not be empty"
  | .negativeArity name => some s!"Function {Quoted.text name} has negative arity"
  | _ => none

end Fault

end Scorecard
