/-
Numbers among values.

A number is read as the double that is nearest to it.  That always succeeds but for an integer
that is larger than every double, and nothing but such an integer is too large.  The bound is the
one beyond which a double is rounded to an infinity.
-/
import Scorecard.Proofs.Number.Overflow
import Scorecard.Value.Number

namespace Scorecard

namespace Value

/-- An integer that no double is near to. -/
def IsHuge (v : Value) : Prop :=
  ∃ n, v = .int n ∧ Binary64.ofInt? n = none

/-- The value is a number: an integer of any size, or a double. -/
inductive IsNumber : Value → Prop
  | int (n : Int) : IsNumber (.int n)
  | float (x : Float) : IsNumber (.float x)
  | nan (which : Nat) : IsNumber (.nan which)

variable {v : Value}

/-- Only an integer is too large to be read as a double. -/
theorem isHuge_of_toFloat (h : v.toFloat = .error .tooLarge) : v.IsHuge := by
  unfold toFloat at h
  split at h
  case h_2 n =>
    split at h
    · cases h
    · rename_i hnone
      exact ⟨n, rfl, hnone⟩
  case h_5 | h_7 => split at h <;> cases h
  all_goals cases h

theorem isHuge_int_iff {n : Int} : (Value.int n).IsHuge ↔ Binary64.overflowBound ≤ |n| := by
  rw [← Binary64.ofInt?_eq_none_iff]
  constructor
  · rintro ⟨m, hm, hnone⟩
    cases hm
    exact hnone
  · exact fun hnone => ⟨n, rfl, hnone⟩

theorem IsHuge.toFloat (h : v.IsHuge) : v.toFloat = .error .tooLarge := by
  obtain ⟨n, rfl, hn⟩ := h
  simp only [Value.toFloat, hn]

theorem IsNumber.toFloat_outcome (h : v.IsNumber) :
    (∃ x, v.toFloat = .ok x) ∨ v.toFloat = .error .tooLarge := by
  cases h with
  | int n =>
      cases hn : Binary64.ofInt? n with
      | some x => exact .inl ⟨x, by simp only [Value.toFloat, hn]⟩
      | none => exact .inr (IsHuge.toFloat ⟨n, rfl, hn⟩)
  | float x => exact .inl ⟨x, rfl⟩
  | nan which => exact .inl ⟨_, rfl⟩

/-- A value of 311 digits. -/
def vast : Value :=
  .int (10 ^ 155 * 10 ^ 155)

theorem isHuge_vast : vast.IsHuge := by
  refine isHuge_int_iff.mpr ?_
  rw [Binary64.overflowBound]
  exact_mod_cast (by decide +kernel : (2 ^ 1024 - 2 ^ 970 : Int) ≤ |10 ^ 155 * 10 ^ 155|)

end Value

end Scorecard
