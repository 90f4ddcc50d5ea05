/-
The tokens of a document.

Indentation is made explicit: a block of entries starts and ends with a token of its
own, as a pair of brackets would.  Each key is announced by a token before it, also
where nothing in the text shows that a key begins.
-/
import Scorecard.Fault

namespace Scorecard.Yaml

/-- A token.  The end of the text has none. -/
inductive Token where
  /-- A directive that gives the major version of the language. -/
  | version (major : Nat)
  /-- Another directive, which says nothing here. -/
  | reserved
  | documentStart
  | documentEnd
  | sequenceStart
  | mappingStart
  /-- The end of a block of entries. -/
  | blockEnd
  /-- A hyphen in front of a block entry. -/
  | entry
  | openBracket
  | closeBracket
  | openBrace
  | closeBrace
  | comma
  | key
  | value
  | alias (name : String)
  | anchor (name : String)
  /-- The tag of octets. -/
  | octetsTag
  /-- Text; only plain text may stand for something else than itself. -/
  | scalar (text : String) (plain : Bool)
deriving DecidableEq

/-- The tokens of a text, as far as they can be told.  Whoever needs more of them than
there are meets with what is wrong with the text, or else with its end. -/
structure Tokens where
  ahead : List Token
  stop : Option Fault

end Scorecard.Yaml
