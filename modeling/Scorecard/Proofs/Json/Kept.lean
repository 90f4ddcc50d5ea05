/-
One value for all that agree.

`Value.kept` is what is left of a value in its canonical text: tuples have become
lists, and entries stand in the order of their keys.  It agrees with the value, and
two values agree if the same is kept of both.  So whatever reads a text back need not
be compared with a value entry by entry; it has to find what was kept.

That there is only one order of entries rests on the keys: no two of them are equal,
so sorting by key leaves no choice.
-/
import Scorecard.Proofs.Json.Agreement
import Mathlib.Data.String.Basic
import Mathlib.Data.List.Sort

namespace Scorecard

/-! ### Sorting by key -/

namespace Json

variable {α β : Type}

theorem sortByKey_perm (l : List (String × α)) : (sortByKey l).Perm l :=
  List.mergeSort_perm l _

/-- Sorting looks at nothing but the keys. -/
theorem sortByKey_map (f : α → β) (l : List (String × α)) :
    sortByKey (l.map fun e => (e.1, f e.2)) = (sortByKey l).map fun e => (e.1, f e.2) := by
  unfold sortByKey
  symm
  apply List.map_mergeSort
  intro _ _ _ _
  rfl

private theorem pairwise_sortByKey (l : List (String × α)) :
    (sortByKey l).Pairwise fun a b => a.1 ≤ b.1 := by
  have hsorted := @List.pairwise_mergeSort (String × α) (fun a b => !decide (b.1 < a.1)) ?_ ?_ l
  · refine hsorted.imp ?_
    intro a b hab
    simp only [Bool.not_eq_true', decide_eq_false_iff_not, not_lt] at hab
    exact hab
  · intro a b c hab hbc
    simp only [Bool.not_eq_true', decide_eq_false_iff_not, not_lt] at hab hbc ⊢
    exact le_trans hab hbc
  · intro a b
    simp only [Bool.or_eq_true, Bool.not_eq_true', decide_eq_false_iff_not, not_lt]
    exact le_total a.1 b.1

/-- **Entries under distinct keys have one order.** -/
theorem sortByKey_eq_of_perm {l m : List (String × α)} (h : l.Perm m)
    (hkeys : (l.map Prod.fst).Nodup) : sortByKey l = sortByKey m := by
  refine List.Perm.eq_of_pairwise ?_ (pairwise_sortByKey l) (pairwise_sortByKey m)
    ((sortByKey_perm l).trans (h.trans (sortByKey_perm m).symm))
  intro a b ha hb hab hba
  have hal : a ∈ l := (sortByKey_perm l).mem_iff.mp ha
  have hbl : b ∈ l := h.mem_iff.mpr ((sortByKey_perm m).mem_iff.mp hb)
  exact List.inj_on_of_nodup_map hkeys hal hbl (le_antisymm hab hba)

/-- Entries in the order of their keys stay as they are. -/
theorem sortByKey_eq_self {l : List (String × α)} (h : l.Pairwise fun a b => a.1 ≤ b.1) : sortByKey l = l := by
  refine List.mergeSort_of_pairwise (h.imp ?_)
  intro a b hab
  simp only [Bool.not_eq_true', decide_eq_false_iff_not, not_lt]
  exact hab

end Json

namespace Value

open Json

/-! ### What is kept -/

mutual

/-- A value with lists for tuples and its entries in the order of their keys. -/
def kept : Value → Value
  | .list items => .list (allKept items)
  | .tuple items => .list (allKept items)
  | .record entries => .record (ofFields (sortByKey (fieldsKept entries)))
  | v => v

/-- Items, each as it is kept. -/
def allKept : List Value → List Value
  | [] => []
  | x :: xs => kept x :: allKept xs

/-- Entries under texts, each value as it is kept. -/
def fieldsKept : List (Value × Value) → List (String × Value)
  | [] => []
  | (.str key, v) :: es => (key, kept v) :: fieldsKept es
  | _ :: es => fieldsKept es

end

/-- An entry with its value as it is kept. -/
def keptField (f : String × Value) : String × Value :=
  (f.1, kept f.2)

theorem allKept_eq_map (items : List Value) : allKept items = items.map kept := by
  induction items with
  | nil => rfl
  | cons x rest ih => rw [allKept, ih, List.map_cons]

theorem fieldsKept_ofFields (fields : List (String × Value)) :
    fieldsKept (ofFields fields) = fields.map keptField := by
  induction fields with
  | nil => rfl
  | cons f rest ih =>
      show (f.1, kept f.2) :: fieldsKept (ofFields rest) = _
      rw [ih]
      rfl

theorem kept_list (items : List Value) : kept (.list items) = .list (items.map kept) := by
  rw [kept, allKept_eq_map]

theorem kept_tuple (items : List Value) : kept (.tuple items) = .list (items.map kept) := by
  rw [kept, allKept_eq_map]

theorem kept_record (fields : List (String × Value)) :
    kept (.record (ofFields fields)) = .record (ofFields ((sortByKey fields).map keptField)) := by
  rw [kept, fieldsKept_ofFields]
  exact congrArg (fun l => Value.record (ofFields l)) (sortByKey_map kept fields)

variable {a b v : Value}

/-- What is kept of what those who are lenient admit is admitted too. -/
theorem IsLenient.kept (h : IsLenient v) : IsLenient v.kept := by
  induction h with
  | list _ ih =>
      rw [kept_list]
      apply IsLenient.list
      intro y hy
      obtain ⟨x, hx, rfl⟩ := List.mem_map.mp hy
      exact ih x hx
  | tuple _ ih =>
      rw [kept_tuple]
      apply IsLenient.list
      intro y hy
      obtain ⟨x, hx, rfl⟩ := List.mem_map.mp hy
      exact ih x hx
  | record hkeys _ ih =>
      obtain ⟨fields, rfl⟩ := exists_ofFields hkeys
      rw [kept_record, isLenient_ofFields]
      intro f hf
      obtain ⟨g, hg, rfl⟩ := List.mem_map.mp hf
      exact ih (.str g.1, g.2) (mem_ofFields.mpr ((sortByKey_perm _).mem_iff.mp hg))
  | null => exact .null
  | bool b => exact .bool b
  | int hn => exact .int hn
  | float hx => exact .float hx
  | nan => exact .nan
  | str s => exact .str s

/-- Whatever stands in what is kept is kept of something that stands in the value. -/
theorem Inside.of_kept (hv : IsLenient v) (h : Inside a v.kept) :
    ∃ u, IsLenient u ∧ Inside u v ∧ u.kept = a := by
  induction hv with
  | @list items hparts ih =>
      rw [kept_list] at h
      cases h with
      | self => exact ⟨_, .list hparts, .self, kept_list items⟩
      | item hmem hinside =>
          obtain ⟨x, hx, rfl⟩ := List.mem_map.mp hmem
          obtain ⟨u, hu, hux, hkept⟩ := ih x hx hinside
          exact ⟨u, hu, .item hx hux, hkept⟩
  | @tuple items hparts ih =>
      rw [kept_tuple] at h
      cases h with
      | self => exact ⟨_, .tuple hparts, .self, kept_tuple items⟩
      | item hmem hinside =>
          obtain ⟨x, hx, rfl⟩ := List.mem_map.mp hmem
          obtain ⟨u, hu, hux, hkept⟩ := ih x hx hinside
          exact ⟨u, hu, .place hx hux, hkept⟩
  | record hkeys hparts ih =>
      obtain ⟨fields, rfl⟩ := exists_ofFields hkeys
      rw [kept_record] at h
      cases h with
      | self => exact ⟨_, .record hkeys hparts, .self, kept_record fields⟩
      | entry hmem hinside =>
          obtain ⟨f, hf, rfl⟩ := List.mem_map.mp hmem
          obtain ⟨g, hg, rfl⟩ := List.mem_map.mp hf
          have hmem := mem_ofFields.mpr ((sortByKey_perm _).mem_iff.mp hg)
          obtain ⟨u, hu, hug, hkept⟩ := ih (.str g.1, g.2) hmem hinside
          exact ⟨u, hu, .entry hmem hug, hkept⟩
  | null =>
      cases h
      exact ⟨_, .null, .self, rfl⟩
  | bool b =>
      cases h
      exact ⟨_, .bool b, .self, rfl⟩
  | int hn =>
      cases h
      exact ⟨_, .int hn, .self, rfl⟩
  | float hx =>
      cases h
      exact ⟨_, .float hx, .self, rfl⟩
  | nan =>
      cases h
      exact ⟨_, .nan, .self, rfl⟩
  | str s =>
      cases h
      exact ⟨_, .str s, .self, rfl⟩

/-- What is kept of JSON is JSON. -/
theorem IsJson.kept (h : IsJson v) : IsJson v.kept := by
  refine h.isLenient.kept.isJson ?_ ?_
  · intro x hx
    obtain ⟨u, hu, huv, hkept⟩ := hx.of_kept h.isLenient
    cases hu <;> rw [kept.eq_def] at hkept <;> cases hkept
    cases h.inside huv with
    | float hfinite => exact hfinite
  · intro hnan
    obtain ⟨u, hu, huv, hkept⟩ := hnan.of_kept h.isLenient
    cases hu <;> rw [kept.eq_def] at hkept <;> cases hkept
    cases h.inside huv

/-- No tuple is kept. -/
theorem IsLenient.tupleFree_kept (h : IsLenient v) : TupleFree v.kept := by
  intro items hinside
  obtain ⟨u, hu, -, hkept⟩ := hinside.of_kept h
  cases hu <;> rw [kept.eq_def] at hkept <;> cases hkept

theorem IsJson.tupleFree_kept (h : IsJson v) : TupleFree v.kept :=
  h.isLenient.tupleFree_kept

/-- Keys that differ still do where entries are kept. -/
theorem IsLenient.wellKeyed_kept (h : IsLenient v) (hkeyed : WellKeyed v) : WellKeyed v.kept := by
  intro entries hinside
  obtain ⟨u, hu, huv, hkept⟩ := hinside.of_kept h
  cases hu with
  | record hkeys hparts =>
      obtain ⟨fields, rfl⟩ := exists_ofFields hkeys
      rw [kept_record, Value.record.injEq] at hkept
      have hnodup : (fields.map Prod.fst).Nodup := pairwise_ofFields.mp (hkeyed _ huv)
      have hsame : ((sortByKey fields).map keptField).map Prod.fst =
          (sortByKey fields).map Prod.fst := by
        rw [List.map_map]
        rfl
      rw [← hkept, pairwise_ofFields, hsame]
      exact ((sortByKey_perm fields).map Prod.fst).nodup_iff.mpr hnodup
  | _ => rw [kept.eq_def] at hkept; cases hkept

theorem WellKeyed.kept (h : IsJson v) (hkeyed : WellKeyed v) : WellKeyed v.kept :=
  h.isLenient.wellKeyed_kept hkeyed

/-! ### Agreement -/

/-- A value agrees with what is kept of it. -/
theorem IsLenient.agrees_kept (h : IsLenient v) : v.Agrees v.kept := by
  induction h with
  | @list items _ ih =>
      rw [kept_list, Agrees]
      refine ⟨_, .inl rfl, agreeItems_iff.mpr ?_⟩
      rw [List.forall₂_map_right_iff, List.forall₂_same]
      exact ih
  | @tuple items _ ih =>
      rw [kept_tuple, Agrees]
      refine ⟨_, .inl rfl, agreeItems_iff.mpr ?_⟩
      rw [List.forall₂_map_right_iff, List.forall₂_same]
      exact ih
  | record hkeys _ ih =>
      obtain ⟨fields, rfl⟩ := exists_ofFields hkeys
      rw [kept_record, Agrees]
      refine ⟨_, rfl, ?_, agreeEntries_ofFields.mpr ?_⟩
      · simp only [ofFields, List.length_map]
        exact (sortByKey_perm fields).length_eq.symm
      · intro f hf
        refine ⟨f.2.kept, ?_, ih (.str f.1, f.2) (mem_ofFields.mpr hf)⟩
        exact List.mem_map_of_mem ((sortByKey_perm fields).mem_iff.mpr hf)
  | _ => rw [kept.eq_def, Agrees.eq_def]

/-- Items of which the same is kept agree one by one. -/
private theorem agreeItems_of_map_eq {xs ys : List Value}
    (h : ∀ x ∈ xs, ∀ y ∈ ys, x.kept = y.kept → x.Agrees y) (heq : xs.map kept = ys.map kept) :
    AgreeItems xs ys := by
  induction xs generalizing ys with
  | nil => rw [AgreeItems, List.map_eq_nil_iff.mp heq.symm]
  | cons x xs ih =>
      rw [List.map_cons] at heq
      obtain ⟨y, rest, rfl, hx, hxs⟩ := List.map_eq_cons_iff.mp heq.symm
      rw [AgreeItems]
      refine ⟨y, rest, rfl, h x List.mem_cons_self y List.mem_cons_self hx.symm, ih ?_ hxs.symm⟩
      intro z hz w hw
      exact h z (List.mem_cons_of_mem _ hz) w (List.mem_cons_of_mem _ hw)

/-- What is kept as a list is a list or a tuple. -/
private theorem IsLenient.of_kept_list {zs : List Value} (hb : IsLenient b) (h : b.kept = .list zs) :
    ∃ ys, (b = .list ys ∨ b = .tuple ys) ∧ zs = ys.map Value.kept ∧ ∀ y ∈ ys, IsLenient y := by
  cases hb with
  | @list ys hparts =>
      rw [kept_list, Value.list.injEq] at h
      exact ⟨ys, .inl rfl, h.symm, hparts⟩
  | @tuple ys hparts =>
      rw [kept_tuple, Value.list.injEq] at h
      exact ⟨ys, .inr rfl, h.symm, hparts⟩
  | _ => rw [Value.kept.eq_def] at h; cases h

/-- What is kept as a record is a record. -/
private theorem IsLenient.of_kept_record {es : List (Value × Value)} (hb : IsLenient b)
    (h : b.kept = .record es) :
    ∃ fields, b = .record (ofFields fields) ∧ es = ofFields ((sortByKey fields).map keptField) := by
  cases hb with
  | record hkeys _ =>
      obtain ⟨fields, rfl⟩ := exists_ofFields hkeys
      rw [kept_record, Value.record.injEq] at h
      exact ⟨fields, rfl, h.symm⟩
  | _ => rw [Value.kept.eq_def] at h; cases h

/-- Values of which the same is kept agree. -/
theorem IsLenient.agrees_of_kept_eq (ha : IsLenient a) (hb : IsLenient b) (h : a.kept = b.kept) :
    a.Agrees b := by
  induction ha generalizing b with
  | @list xs _ ih =>
      rw [kept_list] at h
      obtain ⟨ys, hshape, hitems, hys⟩ := hb.of_kept_list h.symm
      rw [Agrees]
      exact ⟨ys, hshape, agreeItems_of_map_eq (fun x hx y hy => ih x hx (hys y hy)) hitems⟩
  | @tuple xs _ ih =>
      rw [kept_tuple] at h
      obtain ⟨ys, hshape, hitems, hys⟩ := hb.of_kept_list h.symm
      rw [Agrees]
      exact ⟨ys, hshape, agreeItems_of_map_eq (fun x hx y hy => ih x hx (hys y hy)) hitems⟩
  | record hkeys _ ih =>
      obtain ⟨fs, rfl⟩ := exists_ofFields hkeys
      rw [kept_record] at h
      obtain ⟨gs, rfl, hentries⟩ := hb.of_kept_record h.symm
      have hperm : (fs.map keptField).Perm (gs.map keptField) := by
        refine ((sortByKey_perm fs).map keptField).symm.trans ?_
        rw [ofFields_injective hentries]
        exact (sortByKey_perm gs).map keptField
      rw [Agrees]
      refine ⟨_, rfl, by simpa [ofFields] using hperm.length_eq, agreeEntries_ofFields.mpr ?_⟩
      intro f hf
      obtain ⟨g, hg, hkept⟩ := List.mem_map.mp (hperm.mem_iff.mp (List.mem_map_of_mem hf))
      obtain ⟨hkey, hvalue⟩ := Prod.mk.inj hkept
      refine ⟨g.2, by rw [← hkey]; exact hg, ?_⟩
      exact ih (.str f.1, f.2) (mem_ofFields.mpr hf) (isLenient_ofFields.mp hb g hg) hvalue.symm
  | _ =>
      -- Nothing else is kept as what has no parts.
      rw [Value.kept.eq_def] at h
      rw [Agrees.eq_def]
      cases hb <;> rw [Value.kept.eq_def] at h <;> first | exact h | cases h

theorem IsJson.agrees_kept (h : IsJson v) : v.Agrees v.kept :=
  h.isLenient.agrees_kept

theorem IsJson.agrees_of_kept_eq (ha : IsJson a) (hb : IsJson b) (h : a.kept = b.kept) : a.Agrees b :=
  ha.isLenient.agrees_of_kept_eq hb.isLenient h

end Value

end Scorecard
