/-
JSON for readers is the spaced text.

The writer for readers sorts the keys as values, and refuses where two of them cannot be
compared.  Texts can, so keys that are texts come out in the order in which the canonical
text has them, and nothing is refused of what has names for its doubles without digits.
So what it writes is what is spelt in the spaced style, and is read back.
-/
import Scorecard.Json.Readable
import Scorecard.Proofs.Json.RoundTrip
import Scorecard.Proofs.Value.Sorting

namespace Scorecard

namespace Json

open Value

/-! ### Keys in order -/

/-- Under texts, sorting as values is sorting by key. -/
theorem sortBy?_text {α : Type} {fields : List (String × α)} (hkeys : (fields.map Prod.fst).Nodup) :
    sortBy? (fun e : Value × α => e.1) (fields.map fun f => (.str f.1, f.2)) =
      some ((sortByKey fields).map fun f => (.str f.1, f.2)) := by
  have htexts : ∀ e ∈ fields.map fun f => (Value.str f.1, f.2), ∃ s, e.1 = .str s := by
    intro e he
    obtain ⟨f, -, rfl⟩ := List.mem_map.mp he
    exact ⟨f.1, rfl⟩
  obtain ⟨sorted, hsorted, horder, hperm⟩ := sortBy?_inOrder ranksBelow_text htexts
  -- The sorted entries under their texts.
  have hback : (sorted.map fun e => (keyRank e, e.2)).map (fun f => (Value.str f.1, f.2)) = sorted := by
    rw [List.map_map]
    refine (List.map_congr_left fun e he => ?_).trans (List.map_id sorted)
    obtain ⟨s, hs⟩ := htexts e (hperm.mem_iff.mp he)
    obtain ⟨key, a⟩ := e
    simp only at hs
    subst hs
    rfl
  have hfields : (sorted.map fun e => (keyRank e, e.2)).Perm fields := by
    refine (hperm.map _).trans (.of_eq ?_)
    rw [List.map_map]
    exact List.map_id fields
  have hpairwise : (sorted.map fun e => (keyRank e, e.2)).Pairwise fun a b => a.1 ≤ b.1 :=
    List.pairwise_map.mpr horder
  have hnodup : ((sorted.map fun e => (keyRank e, e.2)).map Prod.fst).Nodup :=
    (hfields.map Prod.fst).nodup_iff.mpr hkeys
  rw [hsorted, ← sortByKey_eq_of_perm hfields hnodup, sortByKey_eq_self hpairwise, hback]

/-! ### The text -/

theorem readableItems_eq_mapM (items : List Value) : readableItems items = items.mapM readableText := by
  induction items with
  | nil => rfl
  | cons x rest ih =>
      rw [readableItems, List.mapM_cons, ih]
      rfl

theorem readableEntries_ofFields (fields : List (String × Value)) :
    readableEntries (ofFields fields) =
      (fields.map fun f => (f.1, readableText f.2)).map fun f => (.str f.1, f.2) := by
  induction fields with
  | nil => rfl
  | cons f rest ih =>
      show (.str f.1, readableText f.2) :: readableEntries (ofFields rest) = _
      rw [ih]
      rfl

theorem readableText_record {fields : List (String × Value)} (hkeys : (fields.map Prod.fst).Nodup)
    (h : ∀ f ∈ fields, readableText f.2 = .ok (spelt .spaced f.2)) :
    readableText (.record (ofFields fields)) = .ok (spelt .spaced (.record (ofFields fields))) := by
  have hsorted : sortBy? (fun e : Value × Except Fault (List Char) => e.1) (readableEntries (ofFields fields)) =
      some ((sortByKey fields).map fun f => (.str f.1, readableText f.2)) := by
    rw [readableEntries_ofFields, sortBy?_text (by rw [List.map_map]; exact hkeys), sortByKey_map, List.map_map]
    rfl
  rw [readableText, hsorted, spelt_record]
  simp only
  rw [List.mapM_map, mapM_of_forall (g := entrySpelt .spaced)]
  · rfl
  · intro f hf
    have hvalue := h f ((sortByKey_perm fields).mem_iff.mp hf)
    simp only [Function.comp, hvalue]
    rfl

variable {v : Value}

/-- **Nothing is refused of what those who are lenient admit.** -/
theorem readableText_of_isLenient (h : v.IsLenient) (hkeyed : v.WellKeyed) :
    readableText v = .ok (spelt .spaced v) := by
  induction h with
  | int short => exact if_pos short
  | @list items _ ih =>
      rw [readableText, readableItems_eq_mapM, mapM_of_forall fun x hx => ih x hx (hkeyed.item x hx), spelt_list]
      rfl
  | @tuple items _ ih =>
      rw [readableText, readableItems_eq_mapM, mapM_of_forall fun x hx => ih x hx (hkeyed.place x hx), spelt_tuple]
      rfl
  | record hkeys _ ih =>
      obtain ⟨fields, rfl⟩ := exists_ofFields hkeys
      obtain ⟨hnodup, hfields⟩ := wellKeyed_ofFields.mp hkeyed
      refine readableText_record hnodup fun f hf => ?_
      exact ih (.str f.1, f.2) (mem_ofFields.mpr hf) (hfields f hf)
  | _ => rfl

end Json

namespace Value

open Json

variable {v : Value}

/-- The text for readers is spelt in the spaced style. -/
theorem readable_of_isLenient (h : v.IsLenient) (hkeyed : v.WellKeyed) :
    v.readable = .ok (String.ofList (spelt .spaced v)) := by
  rw [readable, h.unfolded_eq, readableText_of_isLenient h hkeyed]
  rfl

/-- **The text for readers is read as what is kept of the value.** -/
theorem read_readable (h : v.IsLenient) (hkeyed : v.WellKeyed) :
    read Value.ofShown (String.ofList (spelt .spaced v)).toList = .ok v.kept := by
  rw [String.toList_ofList, read_spelt keepsText_ofShown h hkeyed]

end Value

end Scorecard
