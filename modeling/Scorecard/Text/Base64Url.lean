/-
Octets as text that fits into an address.

Three octets become four characters of an alphabet of 64, and one or two left over
become two or three characters; nothing marks the end.  Each run of octets has one
text: what the last character holds beyond the last octet is zero.

A text that is not the text of any octets may still be a sloppy one, in the older
spelling of the alphabet, with marks that fill up the last group, or with something
else where zeros belong.  `isSloppy` tells that from text that holds no octets
at all.
-/

namespace Scorecard.Base64Url

/-- The character of a number below 64. -/
def char (n : Nat) : Char :=
  if n < 26 then Char.ofNat ('A'.toNat + n)
  else if n < 52 then Char.ofNat ('a'.toNat + (n - 26))
  else if n < 62 then Char.ofNat ('0'.toNat + (n - 52))
  else if n = 62 then '-'
  else '_'

/-- The number of a character of the alphabet. -/
def value? (c : Char) : Option Nat :=
  if 'A' ≤ c && c ≤ 'Z' then some (c.toNat - 'A'.toNat)
  else if 'a' ≤ c && c ≤ 'z' then some (c.toNat - 'a'.toNat + 26)
  else if '0' ≤ c && c ≤ '9' then some (c.toNat - '0'.toNat + 52)
  else if c = '-' then some 62
  else if c = '_' then some 63
  else none

/-- The text of octets. -/
def encode : List UInt8 → List Char
  | p :: q :: r :: rest =>
    char (p.toNat / 4) :: char (p.toNat % 4 * 16 + q.toNat / 16) ::
      char (q.toNat % 16 * 4 + r.toNat / 64) :: char (r.toNat % 64) :: encode rest
  | [p, q] =>
    [char (p.toNat / 4), char (p.toNat % 4 * 16 + q.toNat / 16), char (q.toNat % 16 * 4)]
  | [p] => [char (p.toNat / 4), char (p.toNat % 4 * 16)]
  | [] => []

/-- The octets of a text, if it is the text of octets. -/
def decode? : List Char → Option (List UInt8)
  | a :: b :: c :: d :: rest => do
    let i ← value? a
    let j ← value? b
    let k ← value? c
    let l ← value? d
    let tail ← decode? rest
    some (UInt8.ofNat (i * 4 + j / 16) :: UInt8.ofNat (j % 16 * 16 + k / 4) ::
      UInt8.ofNat (k % 4 * 64 + l) :: tail)
  | [a, b, c] => do
    let i ← value? a
    let j ← value? b
    let k ← value? c
    if k % 4 = 0 then some [UInt8.ofNat (i * 4 + j / 16), UInt8.ofNat (j % 16 * 16 + k / 4)] else none
  | [a, b] => do
    let i ← value? a
    let j ← value? b
    if j % 16 = 0 then some [UInt8.ofNat (i * 4 + j / 16)] else none
  | [_] => none
  | [] => some []

/-- A character of the alphabet in either spelling. -/
def isLetter (c : Char) : Bool :=
  (value? c).isSome || c == '+' || c == '/'

/-- The text holds octets, if sloppily: letters that can end there, then at most the
marks that fill up the last group.  Behind whole groups any number of marks may
stand, but not in front of all letters. -/
def isSloppy (text : List Char) : Bool :=
  let letters := text.takeWhile isLetter
  let marks := text.dropWhile isLetter
  marks.all (· == '=') &&
    match letters.length % 4 with
    | 0 => !letters.isEmpty || marks.isEmpty
    | 1 => false
    | 2 => marks.length ≤ 2
    | _ => marks.length ≤ 1

end Scorecard.Base64Url
