/-
Records taken apart.

A field that must be there is the one that is found, and numbers are read entry by entry, each
under the name that it was given under.
-/
import Scorecard.Proofs.Steps
import Scorecard.Value.Field
import Scorecard.Value.Number

namespace Scorecard.Value

theorem field?_cons (k v : Value) (es : List (Value × Value)) (name : String) :
    field? ((k, v) :: es) name = if k.same (.str name) then some v else field? es name := by
  simp only [field?, lookup?, List.find?_cons]
  cases k.same (.str name) <;> rfl

theorem requiredField_eq_ok_iff {es : List (Value × Value)} {name : String} {v : Value} :
    requiredField es name = .ok v ↔ field? es name = some v := by
  unfold requiredField
  cases field? es name <;> simp

/-- An integer that is not too long is turned into its digits. -/
theorem identifier?_int {n : Int} (h : Decimal.isShort n = true) :
    identifier? (.int n) = .ok (some (intText n)) :=
  if_pos h

/-- An entry as it is given, and with its number as it is read. -/
def ReadsEntry (given read : Value × Value) : Prop :=
  read.1 = given.1 ∧ ∃ x, given.2.toFloat = .ok x ∧ read.2 = .float x

variable {given read : List (Value × Value)}

/-- Numbers are read one by one. -/
theorem readNumbers_eq_ok_iff : readNumbers given = .ok read ↔ List.Forall₂ ReadsEntry given read := by
  induction given generalizing read with
  | nil =>
      rw [readNumbers, List.forall₂_nil_left_iff]
      exact ⟨fun h => (Except.ok.inj h).symm, fun h => congrArg _ h.symm⟩
  | cons entry rest ih =>
      obtain ⟨name, value⟩ := entry
      rw [readNumbers, List.forall₂_cons_left_iff, bind_eq_ok_iff]
      constructor
      · rintro ⟨x, hx, h⟩
        obtain ⟨more, hmore, h⟩ := bind_eq_ok_iff.mp h
        exact ⟨(name, .float x), more, ⟨rfl, x, hx, rfl⟩, ih.mp hmore, (Except.ok.inj h).symm⟩
      · rintro ⟨⟨name', value'⟩, more, ⟨hname, x, hx, hvalue⟩, hmore, rfl⟩
        simp only at hname hvalue
        subst hname hvalue
        exact ⟨x, hx, bind_eq_ok_iff.mpr ⟨more, ih.mpr hmore, rfl⟩⟩

/-- Where each number can be read, each entry can. -/
theorem exists_readsEntry (h : ∀ e ∈ given, ∃ x, e.2.toFloat = .ok x) :
    ∃ read, List.Forall₂ ReadsEntry given read := by
  refine exists_forall₂ fun e he => ?_
  obtain ⟨x, hx⟩ := h e he
  exact ⟨(e.1, .float x), rfl, x, hx, rfl⟩

/-- Where each number can be read, all of them are. -/
theorem exists_readNumbers (h : ∀ e ∈ given, ∃ x, e.2.toFloat = .ok x) :
    ∃ read, readNumbers given = .ok read := by
  obtain ⟨read, hread⟩ := exists_readsEntry h
  exact ⟨read, readNumbers_eq_ok_iff.mpr hread⟩

/-- Values keep the keys that they are read under. -/
theorem keys_of_readsEntry (h : List.Forall₂ ReadsEntry given read) :
    read.map Prod.fst = given.map Prod.fst ∧ ∀ b ∈ read, ∃ x, b.2 = .float x := by
  induction h with
  | nil => simp
  | cons hentry _ ih =>
      obtain ⟨hkeys, hdoubles⟩ := ih
      obtain ⟨hkey, x, -, hx⟩ := hentry
      exact ⟨by rw [List.map_cons, List.map_cons, hkey, hkeys],
        List.forall_mem_cons.mpr ⟨⟨x, hx⟩, hdoubles⟩⟩

theorem readsEntry_float {e r : Value × Value} (h : ∃ x, e.2 = .float x) : ReadsEntry e r ↔ r = e := by
  obtain ⟨name, value⟩ := e
  obtain ⟨x, hx⟩ := h
  simp only at hx
  subst hx
  simp [ReadsEntry, Prod.ext_iff]

/-- Doubles are read as they are. -/
theorem readsEntry_floats (h : ∀ e ∈ given, ∃ x, e.2 = .float x) :
    List.Forall₂ ReadsEntry given read ↔ read = given := by
  induction given generalizing read with
  | nil => rw [List.forall₂_nil_left_iff]
  | cons entry rest ih =>
      rw [List.forall_mem_cons] at h
      simp only [List.forall₂_cons_left_iff, readsEntry_float h.1, ih h.2]
      simp

end Scorecard.Value
