/-
Steps that can be refused.

Most of the library is steps one after the other, the first refusal ending them.  What a
sequence of two came to says what each of them came to, and what became of a list says what
became of its items: all of them were done, or there is a first that was refused.
-/
import Mathlib.Data.List.Forall2
import Mathlib.Logic.Basic

namespace Scorecard

variable {α β ε : Type} {x : Except ε α} {f : α → Except ε β}

/-- Two steps are refused by the first of them or by the second. -/
theorem bind_eq_error_iff {e : ε} :
    x >>= f = .error e ↔ x = .error e ∨ ∃ a, x = .ok a ∧ f a = .error e := by
  cases x with
  | error e' => simp [bind, Except.bind]
  | ok a => simp [bind, Except.bind]

/-- Two steps succeed when both of them do. -/
theorem bind_eq_ok_iff {b : β} : x >>= f = .ok b ↔ ∃ a, x = .ok a ∧ f a = .ok b := by
  cases x with
  | error e' => simp [bind, Except.bind]
  | ok a => simp [bind, Except.bind]

/-- What there is for each item, there is for all of them, in order. -/
theorem exists_forall₂ {R : α → β → Prop} {xs : List α} (h : ∀ x ∈ xs, ∃ y, R x y) :
    ∃ ys, List.Forall₂ R xs ys := by
  induction xs with
  | nil => exact ⟨[], .nil⟩
  | cons x rest ih =>
      rw [List.forall_mem_cons] at h
      obtain ⟨⟨y, hy⟩, hrest⟩ := h
      obtain ⟨ys, hys⟩ := ih hrest
      exact ⟨y :: ys, .cons hy hys⟩

/-- What is in a list that goes with another has its match there. -/
theorem exists_of_forall₂ {R : α → β → Prop} {xs : List α} {ys : List β} (h : List.Forall₂ R xs ys) :
    ∀ x ∈ xs, ∃ y ∈ ys, R x y := by
  induction h with
  | nil => simp
  | cons hpair _ ih =>
      refine List.forall_mem_cons.mpr ⟨⟨_, List.mem_cons_self, hpair⟩, fun x hx => ?_⟩
      obtain ⟨y, hy, hrel⟩ := ih x hx
      exact ⟨y, List.mem_cons_of_mem _ hy, hrel⟩

/-- A list is done when its items are, one by one. -/
theorem mapM_eq_ok_iff {xs : List α} {ys : List β} :
    xs.mapM f = .ok ys ↔ List.Forall₂ (fun x y => f x = .ok y) xs ys := by
  induction xs generalizing ys with
  | nil =>
      rw [List.mapM_nil, List.forall₂_nil_left_iff]
      exact ⟨fun h => (Except.ok.inj h).symm, fun h => congrArg _ h.symm⟩
  | cons x rest ih =>
      rw [List.mapM_cons, List.forall₂_cons_left_iff, bind_eq_ok_iff]
      constructor
      · rintro ⟨y, hy, h⟩
        obtain ⟨more, hmore, h⟩ := bind_eq_ok_iff.mp h
        exact ⟨y, more, hy, ih.mp hmore, (Except.ok.inj h).symm⟩
      · rintro ⟨y, more, hy, hmore, rfl⟩
        exact ⟨y, hy, bind_eq_ok_iff.mpr ⟨more, ih.mpr hmore, rfl⟩⟩

/-- Where nothing is refused, everything is done. -/
theorem mapM_of_forall {g : α → β} {xs : List α} (h : ∀ x ∈ xs, f x = .ok (g x)) :
    xs.mapM f = .ok (xs.map g) := by
  rw [mapM_eq_ok_iff, List.forall₂_map_right_iff, List.forall₂_same]
  exact h

/-- Where everything is done, nothing is refused. -/
theorem forall_of_mapM {xs : List α} {ys : List β} (h : xs.mapM f = .ok ys) :
    ∀ x ∈ xs, ∃ y, f x = .ok y := by
  intro x hx
  obtain ⟨y, -, hy⟩ := exists_of_forall₂ (mapM_eq_ok_iff.mp h) x hx
  exact ⟨y, hy⟩

/-- A list is refused because of its first item that is. -/
theorem mapM_eq_error_iff {xs : List α} {e : ε} :
    xs.mapM f = .error e ↔ ∃ before x after, xs = before ++ x :: after ∧
      (∀ y ∈ before, ∃ z, f y = .ok z) ∧ f x = .error e := by
  induction xs with
  | nil => exact iff_of_false nofun (by simp)
  | cons x rest ih =>
      rw [List.mapM_cons, bind_eq_error_iff]
      constructor
      · rintro (hx | ⟨y, hy, h⟩)
        · exact ⟨[], x, rest, rfl, by simp, hx⟩
        · rcases bind_eq_error_iff.mp h with hrest | ⟨_, -, hdone⟩
          · obtain ⟨before, z, after, rfl, hbefore, hz⟩ := ih.mp hrest
            exact ⟨x :: before, z, after, rfl, List.forall_mem_cons.mpr ⟨⟨y, hy⟩, hbefore⟩, hz⟩
          · cases hdone
      · rintro ⟨before, z, after, hsplit, hbefore, hz⟩
        cases before with
        | nil =>
            obtain ⟨rfl, rfl⟩ := List.cons_eq_cons.mp hsplit
            exact .inl hz
        | cons w before =>
            obtain ⟨rfl, rfl⟩ := List.cons_eq_cons.mp hsplit
            obtain ⟨⟨y, hy⟩, hbefore⟩ := List.forall_mem_cons.mp hbefore
            exact .inr ⟨y, hy, bind_eq_error_iff.mpr (.inl (ih.mpr ⟨before, z, after, rfl, hbefore, hz⟩))⟩

/-- A fold is refused because of its first step that is. -/
theorem foldlM_eq_error_iff {step : β → α → Except ε β} {xs : List α} {start : β} {e : ε} :
    xs.foldlM step start = .error e ↔ ∃ before x after reached, xs = before ++ x :: after ∧
      before.foldlM step start = .ok reached ∧ step reached x = .error e := by
  induction xs generalizing start with
  | nil => exact iff_of_false nofun (by simp)
  | cons x rest ih =>
      rw [List.foldlM_cons, bind_eq_error_iff]
      constructor
      · rintro (hx | ⟨next, hx, hrest⟩)
        · exact ⟨[], x, rest, start, rfl, rfl, hx⟩
        · obtain ⟨before, y, after, reached, rfl, hbefore, hy⟩ := ih.mp hrest
          refine ⟨x :: before, y, after, reached, rfl, ?_, hy⟩
          rw [List.foldlM_cons]
          exact bind_eq_ok_iff.mpr ⟨next, hx, hbefore⟩
      · rintro ⟨before, y, after, reached, hsplit, hbefore, hy⟩
        cases before with
        | nil =>
            obtain ⟨rfl, rfl⟩ := List.cons_eq_cons.mp hsplit
            cases hbefore
            exact .inl hy
        | cons w before =>
            obtain ⟨rfl, rfl⟩ := List.cons_eq_cons.mp hsplit
            rw [List.foldlM_cons] at hbefore
            obtain ⟨next, hx, hbefore⟩ := bind_eq_ok_iff.mp hbefore
            exact .inr ⟨next, hx, ih.mpr ⟨before, y, after, reached, rfl, hbefore, hy⟩⟩

/-- What is refused as a whole is refused because of one of its items. -/
theorem exists_of_mapM_error {xs : List α} {e : ε} (h : xs.mapM f = .error e) :
    ∃ x ∈ xs, f x = .error e := by
  obtain ⟨before, x, after, rfl, -, hx⟩ := mapM_eq_error_iff.mp h
  exact ⟨x, by simp, hx⟩

end Scorecard
