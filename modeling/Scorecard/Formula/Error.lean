/-
What can be wrong with a formula.

Four stages can refuse a formula: its text may hold a foreign character, its tokens
may not form a formula, its values may not have a result, and an answer may give
one variable twice.  Each refusal is a cause with a place; the wording follows from
the cause alone.
-/
import Scorecard.Fault

namespace Scorecard

/-- A character outside the alphabet of formulas. -/
structure LexError where
  position : Nat
  char : Char

namespace LexError

def message (e : LexError) : String :=
  s!"Unexpected character {Quoted.text (String.singleton e.char)} at position {e.position}"

end LexError

/-! ### Parsing -/

/-- The classes of parse errors. -/
inductive ParseError.Kind where
  | unexpectedToken
  | unmatchedParen
  | unknownFunction
  | wrongArity
  | tooComplex
deriving DecidableEq

/-- Why tokens are no formula. -/
inductive ParseError where
  | unexpected (text : String) (position : Nat)
  | unexpectedEnd (position : Nat)
  /-- A closing parenthesis after a complete formula. -/
  | unopened (position : Nat)
  /-- An opening parenthesis that is open at the end. -/
  | unclosed (position : Nat)
  | unknownFunction (name : String) (position : Nat)
  | wrongArity (name : String) (arity : Int) (given : Nat) (position : Nat)
  /-- Groups, calls and signs nested too deeply. -/
  | nestedTooDeep (limit : Int) (position : Nat)
  /-- A tree that is too deep. -/
  | tooDeep (limit : Int) (position : Nat)
  | tooManyTokens (count : Nat) (limit : Int) (position : Nat)

namespace ParseError

def kind : ParseError → Kind
  | .unexpected .. => .unexpectedToken
  | .unexpectedEnd .. => .unexpectedToken
  | .unopened .. => .unmatchedParen
  | .unclosed .. => .unmatchedParen
  | .unknownFunction .. => .unknownFunction
  | .wrongArity .. => .wrongArity
  | .nestedTooDeep .. => .tooComplex
  | .tooDeep .. => .tooComplex
  | .tooManyTokens .. => .tooComplex

def position : ParseError → Nat
  | .unexpected _ p => p
  | .unexpectedEnd p => p
  | .unopened p => p
  | .unclosed p => p
  | .unknownFunction _ p => p
  | .wrongArity _ _ _ p => p
  | .nestedTooDeep _ p => p
  | .tooDeep _ p => p
  | .tooManyTokens _ _ p => p

/-- The function that the error is about. -/
def name? : ParseError → Option String
  | .unknownFunction name _ => some name
  | .wrongArity name _ _ _ => some name
  | _ => none

def message : ParseError → String
  | .unexpected text p => s!"Unexpected token {Quoted.text text} at position {p}"
  | .unexpectedEnd p => s!"Unexpected end of formula at position {p}"
  | .unopened p => s!"Unmatched ')' at position {p}"
  | .unclosed p => s!"Missing closing parenthesis for '(' at position {p}"
  | .unknownFunction name p => s!"Unknown function {Quoted.text name} at position {p}"
  | .wrongArity name arity given _ =>
    s!"Function {Quoted.text name} takes {intText arity} argument(s), got {given}"
  | .nestedTooDeep limit _ => s!"Formula nesting exceeds maximum depth {intText limit}"
  | .tooDeep limit _ => s!"Formula tree exceeds maximum depth {intText limit}"
  | .tooManyTokens count limit _ => s!"Formula has {count} tokens, maximum is {intText limit}"

end ParseError

/-! ### Evaluation -/

/-- The classes of evaluation errors. -/
inductive EvalError.Kind where
  | unknownVariable
  | divisionByZero
  | domainError
deriving DecidableEq

/-- What gave a value that is not finite. -/
inductive EvalError.Producer where
  | literal
  | variable (name : Value)
  | operator (symbol : String)
  | function (name : Value)

/-- Why a formula has no value.  A place is missing where the tree came without one. -/
inductive EvalError where
  | unknownVariable (name : Value) (position : Option Nat)
  | divisionByZero (position : Option Nat)
  | notFinite (what : EvalError.Producer) (value : Float) (position : Option Nat)
  | notRegistered (name : Value) (position : Option Nat)
  | failed (name : Value) (reason : String) (position : Option Nat)

namespace EvalError

def kind : EvalError → Kind
  | .unknownVariable .. => .unknownVariable
  | .divisionByZero .. => .divisionByZero
  | .notFinite .. => .domainError
  | .notRegistered .. => .domainError
  | .failed .. => .domainError

def position : EvalError → Option Nat
  | .unknownVariable _ p => p
  | .divisionByZero p => p
  | .notFinite _ _ p => p
  | .notRegistered _ p => p
  | .failed _ _ p => p

/-- The variable or function that the error is about; a value that is not finite
is put down to its node alone. -/
def name? : EvalError → Option Value
  | .unknownVariable name _ => some name
  | .notRegistered name _ => some name
  | .failed name _ _ => some name
  | _ => none

/-- How a message calls what gave a value. -/
def Producer.text : Producer → String
  | .literal => "Literal"
  | .variable name => s!"Variable {name.literal}"
  | .operator symbol => s!"Operator {Quoted.text symbol}"
  | .function name => s!"Function {name.literal}"

def message : EvalError → String
  | .unknownVariable name _ => s!"Unknown variable {name.literal}"
  | .divisionByZero _ => "Division by zero"
  | .notFinite what value _ => s!"{what.text} produced non-finite value {floatText value}"
  | .notRegistered name _ => s!"Function {name.literal} is not registered"
  | .failed name reason _ => s!"Function {name.literal} failed: {reason}"

end EvalError

/-! ### All of them -/

/-- Why a formula could not be turned into a score. -/
inductive FormulaError where
  | lex (e : LexError)
  | parse (e : ParseError)
  | eval (e : EvalError)
  /-- An answer gives the same variable twice. -/
  | boundTwice (name : Value)

namespace FormulaError

def message : FormulaError → String
  | .lex e => e.message
  | .parse e => e.message
  | .eval e => e.message
  | .boundTwice name => s!"Variable {name.literal} is bound more than once"

end FormulaError

/-- Why an operation on formulas has no result: a typed error, or data of the wrong
shape. -/
inductive Failure where
  | formula (e : FormulaError)
  | fault (f : Fault)

end Scorecard
