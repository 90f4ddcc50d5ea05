/-
Octets as text in a document.

Three octets become four letters of an alphabet of 64, in its older spelling, and the
last group is filled up with marks.  A line has no more than 76 letters, and ends with
a line break.
-/
import Scorecard.Text.Base64Url

namespace Scorecard.Yaml

/-- How many octets a line holds. -/
def lineOctets : Nat := 57

/-- A letter in the older spelling. -/
def olderLetter (c : Char) : Char :=
  if c = '-' then '+' else if c = '_' then '/' else c

/-- The letter that an older spelling stands for. -/
def newerLetter (c : Char) : Char :=
  if c = '+' then '-' else if c = '/' then '_' else c

/-- The line of some octets, without its line break. -/
def octetsLine (octets : List UInt8) : List Char :=
  let letters := (Base64Url.encode octets).map olderLetter
  letters ++ List.replicate ((4 - letters.length % 4) % 4) '='

/-- The lines of octets. -/
def octetsLines (octets : List UInt8) : List (List Char) :=
  match octets with
  | [] => []
  | first :: rest =>
    octetsLine ((first :: rest).take lineOctets) :: octetsLines ((first :: rest).drop lineOctets)
termination_by octets.length
decreasing_by simp only [List.length_drop, List.length_cons, lineOctets]; omega

/-- The octets of a text. -/
def octetsOf? (text : List Char) : Option (List UInt8) :=
  let letters := text.filter fun c => !(c == '\n' || c == ' ')
  let marks := (letters.reverse.takeWhile (· == '=')).length
  if letters.length % 4 = 0 ∧ marks ≤ 2 then
    Base64Url.decode? ((letters.take (letters.length - marks)).map newerLetter)
  else none

end Scorecard.Yaml
