/-
Quoted text.

Messages put text between single quotes, or between double quotes when the text
holds a single quote and no double one.  Inside, the backslash and the quote in
use are escaped, three controls have names, and every other hidden character is
written by its number, in two, four or eight digits.  So is half of a surrogate pair.
-/
import Scorecard.Text.Point
import Scorecard.Text.Printable

namespace Scorecard.Quoted

/-- One lower-case hexadecimal digit. -/
def hexDigit (n : Nat) : Char :=
  Nat.digitChar (n % 16)

/-- The last `width` hexadecimal digits of a number. -/
def hex : (width : Nat) → Nat → List Char
  | 0, _ => []
  | width + 1, n => hex width (n / 16) ++ [hexDigit n]

/-- The quote that needs no escape, if one does not. -/
def quoteFor (text : List Char) : Char :=
  if text.contains '\'' && !text.contains '"' then '"' else '\''

/-- A character as it stands between quotes. -/
def escape (quote c : Char) : List Char :=
  if c = quote ∨ c = '\\' then ['\\', c]
  else if c = '\n' then ['\\', 'n']
  else if c = '\r' then ['\\', 'r']
  else if c = '\t' then ['\\', 't']
  else if isPrintable c then [c]
  else if c.toNat < 0x100 then '\\' :: 'x' :: hex 2 c.toNat
  else if c.toNat < 0x10000 then '\\' :: 'u' :: hex 4 c.toNat
  else '\\' :: 'U' :: hex 8 c.toNat

/-- Quoted text. -/
def text (s : String) : String :=
  let cs := s.toList
  let quote := quoteFor cs
  String.ofList (quote :: (cs.flatMap (escape quote) ++ [quote]))

/-- A character or a half as it stands between quotes. -/
def escapePoint (quote : Char) : Point → List Char
  | .char c => escape quote c
  | .half unit _ => '\\' :: 'u' :: hex 4 unit

/-- Quoted text with halves in it. -/
def brokenText (t : BrokenText) : String :=
  let quote := quoteFor t.shown.toList
  String.ofList (quote :: (t.points.flatMap (escapePoint quote) ++ [quote]))

/-- An octet as it stands between quotes: by its number unless it is visible ASCII. -/
def escapeOctet (quote : Char) (octet : UInt8) : List Char :=
  let c := Char.ofNat octet.toNat
  if octet.toNat < 0x7F then escape quote c else '\\' :: 'x' :: hex 2 octet.toNat

/-- Quoted octets, marked with a letter in front. -/
def octets (bs : List UInt8) : String :=
  let quote := quoteFor (bs.map fun b => Char.ofNat b.toNat)
  String.ofList ('b' :: quote :: (bs.flatMap (escapeOctet quote) ++ [quote]))

end Scorecard.Quoted
