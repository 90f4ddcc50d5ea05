/-
Powers.

A library that is imported may bring its own way to take powers with it, and a number
written with `^` would then depend on what else is imported.  Where this instance is
opened, powers are those of the core library.
-/

namespace Scorecard.Power

/-- Repeated multiplication, as the core library has it. -/
scoped instance (priority := 2000) corePow {α : Type} [NatPow α] : Pow α Nat :=
  instPowNat

end Scorecard.Power
