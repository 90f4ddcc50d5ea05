/-
Texts among values.

Sameness of values is generous: numbers are compared across their kinds, dates by their
instant.  Against a text it is equality, so what is kept under texts behaves as with
ordinary names: keys are found by membership, and taking the distinct ones loses none and
keeps none twice.
-/
import Mathlib.Data.List.Induction
import Mathlib.Data.List.Nodup
import Scorecard.Value

namespace Scorecard.Value

/-- The value is a text. -/
def IsText (v : Value) : Prop :=
  ∃ s, v = .str s

@[simp] theorem isText_str (s : String) : (Value.str s).IsText :=
  ⟨s, rfl⟩

variable {a b : Value}

theorem IsText.canBeKey (h : a.IsText) : a.canBeKey = true := by
  obtain ⟨s, rfl⟩ := h
  simp [Value.canBeKey]

/-- Nothing is the same as a text but that text. -/
theorem same_text_iff (hb : b.IsText) : a.same b = true ↔ a = b := by
  obtain ⟨s, rfl⟩ := hb
  constructor
  · intro h
    cases a with
    | str t => rw [same_str, beq_iff_eq] at h; rw [h]
    | _ => simp [same, date?, surface, compareNumbers?, integer?] at h
  · rintro rfl
    rw [same_str, beq_self_eq_true]

section

variable {entries : List (Value × Value)} {key : Value}

theorem hasKey_text_iff (hkey : key.IsText) :
    hasKey entries key = true ↔ key ∈ entries.map Prod.fst := by
  simp only [hasKey, List.any_eq_true, same_text_iff hkey, List.mem_map]

theorem lookup_text_eq_none_iff (hkey : key.IsText) :
    lookup? entries key = none ↔ key ∉ entries.map Prod.fst := by
  simp only [lookup?, Option.map_eq_none_iff, List.find?_eq_none, same_text_iff hkey, List.mem_map,
    not_exists, not_and]

end

/-! ### Distinct values -/

theorem distinct_append (items : List Value) (x : Value) : distinct (items ++ [x]) =
    if (distinct items).any (·.same x) then distinct items else distinct items ++ [x] := by
  simp [distinct, List.foldl_append]

theorem mem_of_mem_distinct {items : List Value} {x : Value} (h : x ∈ distinct items) : x ∈ items := by
  induction items using List.reverseRecOn with
  | nil => exact h
  | append_singleton items last ih =>
      rw [distinct_append] at h
      split at h
      · exact List.mem_append_left _ (ih h)
      · rcases List.mem_append.mp h with h | h
        · exact List.mem_append_left _ (ih h)
        · exact List.mem_append_right _ h

/-- What is not among the distinct values itself is the same as one of them. -/
theorem exists_mem_distinct {items : List Value} {x : Value} (h : x ∈ items) :
    ∃ v ∈ distinct items, v = x ∨ v.same x = true := by
  induction items using List.reverseRecOn with
  | nil => cases h
  | append_singleton items last ih =>
      rw [distinct_append]
      rw [List.mem_append, List.mem_singleton] at h
      split
      · rename_i hseen
        rcases h with h | rfl
        · exact ih h
        · obtain ⟨v, hv, hsame⟩ := List.any_eq_true.mp hseen
          exact ⟨v, hv, .inr hsame⟩
      · rcases h with h | rfl
        · obtain ⟨v, hv, hsame⟩ := ih h
          exact ⟨v, List.mem_append_left _ hv, hsame⟩
        · exact ⟨x, List.mem_append_right _ (List.mem_singleton_self x), .inl rfl⟩

/-! ### Distinct texts -/

theorem any_same_text_iff {items : List Value} {x : Value} (hx : x.IsText) :
    items.any (·.same x) = true ↔ x ∈ items := by
  simp only [List.any_eq_true, same_text_iff hx, exists_eq_right]

/-- The distinct ones of some texts are these texts. -/
theorem mem_distinct {items : List Value} (hitems : ∀ x ∈ items, x.IsText) (y : Value) :
    y ∈ distinct items ↔ y ∈ items := by
  refine ⟨mem_of_mem_distinct, fun h => ?_⟩
  obtain ⟨v, hv, rfl | hsame⟩ := exists_mem_distinct h
  · exact hv
  · rwa [← (same_text_iff (hitems y h)).mp hsame]

/-- None of the distinct ones of some texts is there twice. -/
theorem nodup_distinct {items : List Value} (hitems : ∀ x ∈ items, x.IsText) :
    (distinct items).Nodup := by
  induction items using List.reverseRecOn with
  | nil => exact List.nodup_nil
  | append_singleton items x ih =>
      rw [List.forall_mem_append, List.forall_mem_singleton] at hitems
      rw [distinct_append]
      split
      · exact ih hitems.1
      · rename_i hnew
        rw [any_same_text_iff hitems.2] at hnew
        exact (ih hitems.1).append (List.nodup_singleton x) (by simpa using hnew)

/-! ### Repeated texts -/

/-- A text that is there already is not kept again, and another comes last. -/
theorem eraseDups_concat (texts : List String) (text : String) :
    (texts ++ [text]).eraseDups = if text ∈ texts then texts.eraseDups else texts.eraseDups ++ [text] := by
  rw [List.eraseDups_append, List.removeAll]
  by_cases hmem : text ∈ texts
  · simp [hmem]
  · simp [hmem, List.eraseDups_cons]

theorem nodup_eraseDups (texts : List String) : texts.eraseDups.Nodup := by
  induction texts using List.reverseRecOn with
  | nil => exact List.nodup_nil
  | append_singleton texts text ih =>
      rw [eraseDups_concat]
      by_cases hmem : text ∈ texts
      · rw [if_pos hmem]
        exact ih
      · rw [if_neg hmem]
        exact ih.append (List.nodup_singleton text) (by simpa using hmem)

/-- Of texts the first of each is kept. -/
theorem distinct_texts (texts : List String) : distinct (texts.map .str) = texts.eraseDups.map .str := by
  induction texts using List.reverseRecOn with
  | nil => rfl
  | append_singleton texts text ih =>
      have hseen : ((texts.eraseDups.map Value.str).any fun v => v.same (.str text)) = true ↔ text ∈ texts := by
        rw [any_same_text_iff (isText_str text)]
        simp
      rw [List.map_append, List.map_singleton, distinct_append, ih, eraseDups_concat]
      by_cases hmem : text ∈ texts
      · rw [if_pos (hseen.mpr hmem), if_pos hmem]
      · rw [if_neg (mt hseen.mp hmem), if_neg hmem, List.map_append, List.map_singleton]

end Scorecard.Value
