/-
Tokens: a formula's text cut into numbers, names and signs.

    number   a numeral without a sign
    name     a letter or underscore, then letters, digits and underscores
    sign     + - * / ( ) ,

Between tokens only blanks may stand.  At each place the longest lexeme is taken, so
`12.5e3` is one token and `1e` is two.  All of it is ASCII: a letter of another
alphabet is a foreign character.
-/
import Scorecard.Formula.Error
import Scorecard.Number.Numeral
import Scorecard.Text.Blank

namespace Scorecard

/-- What a token is; a number comes with its value. -/
inductive Token.Kind where
  | number (value : Float)
  | name
  | plus
  | minus
  | star
  | slash
  | opening
  | closing
  | comma

/-- A token: its kind, its spelling, and where it starts. -/
structure Token where
  kind : Token.Kind
  text : String
  position : Nat

/-- The tokens of a text, and the place behind the last character. -/
structure TokenList where
  tokens : List Token
  stop : Nat

namespace Token

/-! ### Lexemes -/

/-- A character that may start a name. -/
def startsName (c : Char) : Bool :=
  c.isAlpha || c == '_'

/-- A character that may continue a name. -/
def continuesName (c : Char) : Bool :=
  c.isAlphanum || c == '_'

/-- The kind of a sign. -/
def signKind? : Char → Option Kind
  | '+' => some .plus
  | '-' => some .minus
  | '*' => some .star
  | '/' => some .slash
  | '(' => some .opening
  | ')' => some .closing
  | ',' => some .comma
  | _ => none

/-- The lexeme that starts with `c` in front of `rest`: its kind, and how many
characters of `rest` belong to it. -/
def lexeme? (c : Char) (rest : List Char) : Option (Kind × Nat) :=
  match Numeral.scan? (c :: rest) with
  | some (numeral, behind) => some (.number (numeral.toFloat false), rest.length - behind.length)
  | none =>
    if startsName c then some (.name, (rest.takeWhile continuesName).length)
    else (signKind? c).map fun kind => (kind, 0)

/-! ### Texts -/

/-- The tokens of a text that starts at `position`. -/
def scanFrom (position : Nat) : List Char → Except LexError (List Token)
  | [] => .ok []
  | c :: rest =>
    if isAsciiBlank c then scanFrom (position + 1) rest
    else
      match lexeme? c rest with
      | none => .error ⟨position, c⟩
      | some (kind, more) =>
        match scanFrom (position + 1 + more) (rest.drop more) with
        | .error e => .error e
        | .ok tokens => .ok (⟨kind, String.ofList (c :: rest.take more), position⟩ :: tokens)
termination_by text => text.length

end Token

/-- The tokens of a formula's text. -/
def TokenList.ofText (text : String) : Except LexError TokenList :=
  match Token.scanFrom 0 text.toList with
  | .error e => .error e
  | .ok tokens => .ok ⟨tokens, text.length⟩

end Scorecard
