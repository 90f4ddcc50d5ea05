/-
SHA-256.

A message is closed by a one bit, zeros and its length in bits, so that it fills
whole blocks of 64 octets.  Each block is stretched to 64 words and mixed into a
state of eight words, and the last state is the digest.
-/

namespace Scorecard.Sha256

/-- The eight words that are carried from block to block. -/
structure State where
  a : UInt32
  b : UInt32
  c : UInt32
  d : UInt32
  e : UInt32
  f : UInt32
  g : UInt32
  h : UInt32

/-- The state before the first block. -/
def initial : State :=
  ⟨0x6a09e667, 0xbb67ae85, 0x3c6ef372, 0xa54ff53a, 0x510e527f, 0x9b05688c, 0x1f83d9ab, 0x5be0cd19⟩

/-- The constants of the 64 rounds. -/
def constants : List UInt32 :=
  [0x428a2f98, 0x71374491, 0xb5c0fbcf, 0xe9b5dba5, 0x3956c25b, 0x59f111f1, 0x923f82a4, 0xab1c5ed5,
   0xd807aa98, 0x12835b01, 0x243185be, 0x550c7dc3, 0x72be5d74, 0x80deb1fe, 0x9bdc06a7, 0xc19bf174,
   0xe49b69c1, 0xefbe4786, 0x0fc19dc6, 0x240ca1cc, 0x2de92c6f, 0x4a7484aa, 0x5cb0a9dc, 0x76f988da,
   0x983e5152, 0xa831c66d, 0xb00327c8, 0xbf597fc7, 0xc6e00bf3, 0xd5a79147, 0x06ca6351, 0x14292967,
   0x27b70a85, 0x2e1b2138, 0x4d2c6dfc, 0x53380d13, 0x650a7354, 0x766a0abb, 0x81c2c92e, 0x92722c85,
   0xa2bfe8a1, 0xa81a664b, 0xc24b8b70, 0xc76c51a3, 0xd192e819, 0xd6990624, 0xf40e3585, 0x106aa070,
   0x19a4c116, 0x1e376c08, 0x2748774c, 0x34b0bcb5, 0x391c0cb3, 0x4ed8aa4a, 0x5b9cca4f, 0x682e6ff3,
   0x748f82ee, 0x78a5636f, 0x84c87814, 0x8cc70208, 0x90befffa, 0xa4506ceb, 0xbef9a3f7, 0xc67178f2]

/-- Turn a word to the right. -/
def rotate (w : UInt32) (n : UInt32) : UInt32 :=
  (w >>> n) ||| (w <<< (32 - n))

/-- The first word made of four octets, and so on. -/
def words : List UInt8 → List UInt32
  | p :: q :: r :: s :: rest =>
    (p.toUInt32 <<< 24 ||| q.toUInt32 <<< 16 ||| r.toUInt32 <<< 8 ||| s.toUInt32) :: words rest
  | _ => []

/-- The octets of a word, the highest first. -/
def octets (w : UInt32) : List UInt8 :=
  [(w >>> 24).toUInt8, (w >>> 16).toUInt8, (w >>> 8).toUInt8, w.toUInt8]

/-- The word that follows sixteen words of a schedule. -/
def nextWord (window : List UInt32) : UInt32 :=
  let near := window.getD 14 0
  let far := window.getD 1 0
  let mixNear := rotate near 17 ^^^ rotate near 19 ^^^ (near >>> 10)
  let mixFar := rotate far 7 ^^^ rotate far 18 ^^^ (far >>> 3)
  mixNear + window.getD 9 0 + mixFar + window.getD 0 0

/-- The words of a schedule from a window of sixteen on. -/
def schedule : (count : Nat) → (window : List UInt32) → List UInt32
  | 0, _ => []
  | count + 1, window =>
    window.getD 0 0 :: schedule count (window.drop 1 ++ [nextWord window])

/-- One round, with its constant and its word of the schedule. -/
def round (s : State) (step : UInt32 × UInt32) : State :=
  let turned := rotate s.e 6 ^^^ rotate s.e 11 ^^^ rotate s.e 25
  let choice := (s.e &&& s.f) ^^^ (~~~s.e &&& s.g)
  let first := s.h + turned + choice + step.1 + step.2
  let spun := rotate s.a 2 ^^^ rotate s.a 13 ^^^ rotate s.a 22
  let majority := (s.a &&& s.b) ^^^ (s.a &&& s.c) ^^^ (s.b &&& s.c)
  ⟨first + (spun + majority), s.a, s.b, s.c, s.d + first, s.e, s.f, s.g⟩

/-- Mix a block of sixteen words into the state. -/
def compress (s : State) (block : List UInt32) : State :=
  let t := (constants.zip (schedule 64 block)).foldl round s
  ⟨s.a + t.a, s.b + t.b, s.c + t.c, s.d + t.d, s.e + t.e, s.f + t.f, s.g + t.g, s.h + t.h⟩

/-- Mix in the blocks of a padded message. -/
def absorb (s : State) (message : List UInt32) : State :=
  if 16 ≤ message.length then absorb (compress s (message.take 16)) (message.drop 16) else s
termination_by message.length
decreasing_by simp; omega

/-- The length of a message in bits, in eight octets. -/
def lengthOctets (count : Nat) : List UInt8 :=
  let bits := (count * 8).toUInt64
  octets (bits >>> 32).toUInt32 ++ octets bits.toUInt32

/-- A message closed to whole blocks. -/
def pad (message : List UInt8) : List UInt8 :=
  message ++ 0x80 :: (List.replicate ((119 - message.length % 64) % 64) 0 ++ lengthOctets message.length)

/-- The octets of a state. -/
def State.digest (s : State) : List UInt8 :=
  octets s.a ++ octets s.b ++ octets s.c ++ octets s.d ++
    octets s.e ++ octets s.f ++ octets s.g ++ octets s.h

/-- The digest of a message. -/
def hash (message : List UInt8) : List UInt8 :=
  (absorb initial (words (pad message))).digest

/-- A digest has 32 octets. -/
@[simp] theorem length_hash (message : List UInt8) : (hash message).length = 32 := rfl

end Scorecard.Sha256
