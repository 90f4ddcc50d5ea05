/-
The pieces of JSON text: strings and numbers.

A string stands between double quotes.  The quote, the backslash and the controls
are escaped, the common controls by a letter and the others by their number; beyond
that a writer may keep to ASCII or not.  A character beyond the first 65536 is
escaped as the two halves of its surrogate pair, and a half that stands alone by its own
number.
-/
import Scorecard.Fault

namespace Scorecard.Json

/-- A unit of 16 bits as an escape. -/
def unitEscape (unit : Nat) : List Char :=
  '\\' :: 'u' :: Quoted.hex 4 unit

/-- A character as escapes, one for each of its units. -/
def charEscape (c : Char) : List Char :=
  if c.toNat < 0x10000 then unitEscape c.toNat
  else
    let above := c.toNat - 0x10000
    unitEscape (0xD800 + above / 0x400) ++ unitEscape (0xDC00 + above % 0x400)

/-- A character as it stands in a string. -/
def escape (asciiOnly : Bool) (c : Char) : List Char :=
  if c = '"' then ['\\', '"']
  else if c = '\\' then ['\\', '\\']
  else if c = '\n' then ['\\', 'n']
  else if c = '\r' then ['\\', 'r']
  else if c = '\t' then ['\\', 't']
  else if c = '\x0c' then ['\\', 'f']
  else if c = '\x08' then ['\\', 'b']
  else if c < ' ' then charEscape c
  else if asciiOnly && '~' < c then charEscape c
  else [c]

/-- A string. -/
def string (asciiOnly : Bool) (text : List Char) : List Char :=
  '"' :: (text.flatMap (escape asciiOnly) ++ ['"'])

/-- A character or a half as it stands in a string. -/
def escapePoint (asciiOnly : Bool) : Point → List Char
  | .char c => escape asciiOnly c
  | .half unit _ => unitEscape unit

/-- A string with halves in it. -/
def brokenString (asciiOnly : Bool) (text : BrokenText) : List Char :=
  '"' :: (text.points.flatMap (escapePoint asciiOnly) ++ ['"'])

/-- How the values without digits are spelt where they are admitted, and every other
double as plain text. -/
def floatLayout : Layout :=
  { Layout.plain with nan := "NaN", infinity := "Infinity" }

/-- A number. -/
def float (x : Float) : List Char :=
  floatLayout.text x

/-- An integer. -/
def integer (n : Int) : List Char :=
  (intText n).toList

/-- An integer, unless it has too many digits. -/
def shortInteger (n : Int) : Except Fault (List Char) :=
  if Decimal.isShort n then .ok (integer n) else .error .tooManyDigits

/-- Texts with a separator between two. -/
def join (separator : List Char) : List (List Char) → List Char
  | [] => []
  | [t] => t
  | t :: ts => t ++ separator ++ join separator ts

end Scorecard.Json
