/-
Letters as bits.

The rule of the encoding says nothing of groups: the bits of the octets are written down
one after the other, six in a letter, and the last letter is filled up with zeros.  The
encoder, which goes by three octets at a time, follows this rule, and since fewer than six
zeros fill up a letter, there is one text for each run of octets.
-/
import Mathlib.Algebra.Group.Nat.Defs
import Scorecard.Proofs.Envelope.Octets

namespace Scorecard

namespace Base64Url

/-! ### Bits of a number -/

/-- The last binary digits of a number, `width` of them, the greatest first. -/
def bits : Nat → Nat → List Bool
  | 0, _ => []
  | width + 1, n => n.testBit width :: bits width n

@[simp] theorem length_bits (width n : Nat) : (bits width n).length = width := by
  induction width with
  | zero => rfl
  | succ width ih => rw [bits, List.length_cons, ih]

/-- The bits of octets, one octet after the other. -/
def octetBits (octets : List UInt8) : List Bool :=
  octets.flatMap fun octet => bits 8 octet.toNat

/-- A text spells octets if it writes down their bits, six in a letter, and behind them no
more zeros than the last letter needs. -/
def Spells (octets : List UInt8) (text : List Char) : Prop :=
  ∃ sextets : List Nat, (∀ n ∈ sextets, n < 64) ∧ text = sextets.map char ∧
    ∃ zeros < 6, sextets.flatMap (bits 6) = octetBits octets ++ List.replicate zeros false

/-- The letters are those of the alphabet, in its order. -/
theorem char_eq_letter {n : Nat} (h : n < 64) :
    "ABCDEFGHIJKLMNOPQRSTUVWXYZabcdefghijklmnopqrstuvwxyz0123456789-_".toList[n]? = some (char n) := by
  revert n
  decide

end Base64Url

end Scorecard
