/-
What reading gives.

The reader makes null, truth values, integers, doubles, texts, lists and records under
texts.  It makes no tuple, and what is no number has its own name, so a double that is
read is a number or an infinity.  A record stores its entries one after the other,
and so no key is there twice.  What is taken out of such data is such data again.

The induction is on the length of the text: what stands inside of a value, behind an item
or behind an entry is shorter, and that is why the reader comes to an end.
-/
import Scorecard.Json.Reader
import Scorecard.Proofs.Json.Kept
import Scorecard.Proofs.Json.Numbers
import Scorecard.Proofs.Number.Unsigned
import Scorecard.Proofs.Value.Keyed
import Scorecard.Value.Field

namespace Scorecard

namespace Value

/-- Data that a reader of JSON can make. -/
structure IsRead (v : Value) : Prop where
  lenient : v.IsLenient
  keyed : v.WellKeyed
  tupleFree : v.TupleFree

/-- A value without parts. -/
def isLeaf : Value → Bool
  | .list _ => false
  | .tuple _ => false
  | .record _ => false
  | _ => true

theorem Inside.eq_of_isLeaf {a v : Value} (h : Inside a v) (hv : v.isLeaf = true) : a = v := by
  cases h with
  | self => rfl
  | _ => cases hv

namespace IsRead

variable {v default : Value} {items : List Value} {es : List (Value × Value)}
  {fields : List (String × Value)} {name : String}

theorem ofLeaf (h : v.IsLenient) (hv : v.isLeaf = true) : IsRead v where
  lenient := h
  keyed := by
    intro entries hentries
    obtain rfl := hentries.eq_of_isLeaf hv
    cases hv
  tupleFree := by
    intro items hitems
    obtain rfl := hitems.eq_of_isLeaf hv
    cases hv

theorem str (s : String) : IsRead (.str s) :=
  .ofLeaf (.str s) rfl

theorem ofItems (h : ∀ x ∈ items, IsRead x) : IsRead (.list items) where
  lenient := .list fun x hx => (h x hx).lenient
  keyed := .ofItems fun x hx => (h x hx).keyed
  tupleFree := .ofItems fun x hx => (h x hx).tupleFree

theorem ofEntries (hkeys : ∀ e ∈ es, ∃ key, e.1 = .str key)
    (hdistinct : es.Pairwise fun e f => e.1.same f.1 = false) (h : ∀ e ∈ es, IsRead e.2) :
    IsRead (.record es) where
  lenient := .record hkeys fun e he => (h e he).lenient
  keyed := .ofEntries hdistinct fun e he => (h e he).keyed
  tupleFree := .ofEntries fun e he => (h e he).tupleFree

/-- A record under distinct texts can be read if what stands under them can. -/
theorem ofFields (hnames : (fields.map Prod.fst).Nodup) (h : ∀ f ∈ fields, f.2.IsRead) :
    IsRead (.record (Value.ofFields fields)) :=
  .ofEntries (forall_mem_ofFields.mpr fun f _ => ⟨f.1, rfl⟩) (pairwise_ofFields.mpr hnames)
    (forall_mem_ofFields.mpr h)

theorem emptyList : IsRead (.list []) :=
  .ofItems (by simp)

theorem emptyRecord : IsRead (.record []) :=
  .ofEntries (by simp) .nil (by simp)

theorem item (h : IsRead (.list items)) : ∀ x ∈ items, IsRead x := by
  intro x hx
  cases h.lenient with
  | list hparts => exact ⟨hparts x hx, h.keyed.item x hx, h.tupleFree.item x hx⟩

theorem entry (h : IsRead (.record es)) : ∀ e ∈ es, (∃ key, e.1 = .str key) ∧ IsRead e.2 := by
  intro e he
  cases h.lenient with
  | record hkeys hparts => exact ⟨hkeys e he, hparts e he, h.keyed.entry e he, h.tupleFree.entry e he⟩

/-- What is kept of data that can be read can be read. -/
theorem kept (h : v.IsRead) : v.kept.IsRead :=
  ⟨h.lenient.kept, h.lenient.wellKeyed_kept h.keyed, h.lenient.tupleFree_kept⟩

/-! ### Parts of data that was read -/

theorem of_entries (h : v.IsRead) (hes : v.entries = .ok es) : IsRead (.record es) := by
  rw [entries, h.lenient.surface_eq] at hes
  cases v <;> cases hes
  exact h

theorem of_indexed (h : v.IsRead) (hes : v.indexed = .ok es) : IsRead (.record es) := by
  rw [indexed, h.lenient.surface_eq] at hes
  cases v <;> cases hes
  exact h

/-- Items, keys and characters are data that can be read. -/
theorem of_members (h : v.IsRead) (hitems : v.members = .ok items) : ∀ x ∈ items, x.IsRead := by
  rw [members, h.lenient.surface_eq] at hitems
  cases h.lenient with
  | list =>
      cases hitems
      exact h.item
  | tuple => exact absurd .self (h.tupleFree _)
  | record =>
      cases hitems
      intro x hx
      obtain ⟨e, he, rfl⟩ := List.mem_map.mp hx
      obtain ⟨key, hkey⟩ := (h.entry e he).1
      rw [hkey]
      exact .str key
  | str s =>
      cases hitems
      intro x hx
      obtain ⟨c, -, rfl⟩ := List.mem_map.mp hx
      exact .str _
  | _ => cases hitems

theorem field (h : IsRead (.record es)) (hv : field? es name = some v) : v.IsRead := by
  obtain ⟨e, he, rfl⟩ := Option.map_eq_some_iff.mp hv
  exact (h.entry e (List.mem_of_find?_eq_some he)).2

theorem fieldOr (h : IsRead (.record es)) (hdefault : default.IsRead) :
    (Value.fieldOr es name default).IsRead := by
  unfold Value.fieldOr
  cases hv : field? es name with
  | none => exact hdefault
  | some v => exact h.field hv

end IsRead

end Value

namespace Json

open Value

/-! ### Numbers and names -/

theorem isRead_number {negative : Bool} {text rest : List Char} {v : Value}
    (h : readNumber negative text = .ok (v, rest)) : v.IsRead := by
  have hfloat : ∀ n : Numeral, IsRead (.float (n.toFloat negative)) := fun n =>
    .ofLeaf (.float (n.toDecimal.signed_toFloat negative).decode_ne_nan) rfl
  unfold readNumber at h
  split at h
  · cases h
  · rename_i whole behind hwhole
    simp only at h
    split at h
    · cases h
      exact hfloat _
    · split at h
      · cases h
        exact hfloat _
      · split at h
        · cases h
        · rename_i hlong
          cases h
          have hdigits := (wholeDigits_eq_some hwhole).1
          exact .ofLeaf (.int (Decimal.isShort_ofDigits hdigits (Nat.not_lt.mp hlong) negative)) rfl

/-- What the names stand for can be read. -/
theorem isRead_names : ∀ name ∈ names, name.2.IsRead := by
  have hinfinite : ∀ negative, IsRead (.float (Binary64.encode (.infinite negative))) := fun negative =>
    .ofLeaf (.float (Binary64.signed_withSign negative le_rfl).decode_ne_nan) rfl
  simp only [names, List.forall_mem_cons]
  exact ⟨.ofLeaf .null rfl, .ofLeaf (.bool true) rfl, .ofLeaf (.bool false) rfl, .ofLeaf .nan rfl,
    hinfinite false, hinfinite true, by simp⟩

theorem isRead_scalar {text rest : List Char} {v : Value} (h : readScalar text = .ok (v, rest)) :
    v.IsRead := by
  unfold readScalar at h
  split at h
  · rename_i found hfound
    cases h
    obtain ⟨name, hname, hword⟩ := List.exists_of_findSome?_eq_some hfound
    obtain ⟨behind, -, hvalue⟩ := Option.map_eq_some_iff.mp hword
    cases hvalue
    exact isRead_names name hname
  · split at h
    · exact isRead_number h
    · exact isRead_number h

/-! ### Values -/

/-- Entries as they are read. -/
def AreRead (entries : List (Value × Value)) : Prop :=
  ∀ e ∈ entries, (∃ key, e.1 = .str key) ∧ e.2.IsRead

/-- What is stored entry by entry is a record that can be read. -/
theorem AreRead.record {entries : List (Value × Value)} (h : AreRead entries) :
    IsRead (.record (storeAll entries)) := by
  have hstored : AreRead (storeAll entries) :=
    forall_storeAll (P := fun key => ∃ s, key = .str s) (Q := IsRead) h
  refine .ofEntries (fun e he => (hstored e he).1) ?_ fun e he => (hstored e he).2
  refine (keyed_storeAll fun e he => ?_).distinct
  obtain ⟨key, hkey⟩ := (h e he).1
  rw [hkey]
  rfl

/-- Whatever is read from a text can be read. -/
structure Gives (text : List Char) : Prop where
  value : ∀ found, readValue ofShown text = .ok found → found.value.IsRead
  items : ∀ found, readItems ofShown text = .ok found → ∀ x ∈ found.value, x.IsRead
  entries : ∀ found, readEntries ofShown text = .ok found → AreRead found.value

variable {text : List Char}

/-- A value is read from what stands inside of it. -/
theorem isRead_value (h : ∀ shorter : List Char, shorter.length < text.length → Gives shorter)
    {found : Read Value text} (hfound : readValue ofShown text = .ok found) : found.value.IsRead := by
  rw [readValue.eq_def] at hfound
  split at hfound
  · split at hfound
    · cases hfound
    · cases hfound
      exact .str _
  · rename_i rest
    have hgap := length_skipGap_le rest
    split at hfound
    · cases hfound
      exact .emptyList
    · split at hfound
      · cases hfound
      · rename_i items hitems
        cases hfound
        exact .ofItems ((h _ (by simp only [List.length_cons]; omega)).items items hitems)
  · rename_i rest
    have hgap := length_skipGap_le rest
    split at hfound
    · cases hfound
      exact .emptyRecord
    · split at hfound
      · cases hfound
      · rename_i entries hentries
        cases hfound
        exact ((h _ (by simp only [List.length_cons]; omega)).entries entries hentries).record
  · split at hfound
    · cases hfound
    · rename_i hscalar
      cases hfound
      exact isRead_scalar hscalar

/-- Items are read one after the other. -/
theorem isRead_items (hfirst : ∀ found, readValue ofShown text = .ok found → found.value.IsRead)
    (h : ∀ shorter : List Char, shorter.length < text.length → Gives shorter)
    {found : Read (List Value) text} (hfound : readItems ofShown text = .ok found) :
    ∀ x ∈ found.value, x.IsRead := by
  rw [readItems.eq_def] at hfound
  split at hfound
  · cases hfound
  · rename_i first hvalue
    have hgap := length_skipGap_le first.rest
    have hshorter := first.shorter
    split at hfound
    · cases hfound
      exact List.forall_mem_singleton.mpr (hfirst first hvalue)
    · rename_i rest hcomma
      have hgap' := length_skipGap_le rest
      rw [hcomma, List.length_cons] at hgap
      split at hfound
      · cases hfound
      · rename_i more hmore
        cases hfound
        exact List.forall_mem_cons.mpr ⟨hfirst first hvalue, (h _ (by omega)).items more hmore⟩
    · cases hfound

/-- Entries are read one after the other. -/
theorem areRead_entries (h : ∀ shorter : List Char, shorter.length < text.length → Gives shorter)
    {found : Read (List (Value × Value)) text} (hfound : readEntries ofShown text = .ok found) :
    AreRead found.value := by
  rw [readEntries.eq_def] at hfound
  split at hfound
  · rename_i body
    split at hfound
    · cases hfound
    · rename_i key behindKey hkey
      have hbody := length_stringBody_lt hkey
      have hgap := length_skipGap_le behindKey
      split at hfound
      · rename_i behindColon hcolon
        have hgap' := length_skipGap_le behindColon
        rw [hcolon, List.length_cons] at hgap
        split at hfound
        · cases hfound
        · rename_i first hvalue
          have hfirst := (h _ (by simp only [List.length_cons]; omega)).value first hvalue
          have hshorter := first.shorter
          have hgap'' := length_skipGap_le first.rest
          split at hfound
          · cases hfound
            exact List.forall_mem_singleton.mpr ⟨⟨_, rfl⟩, hfirst⟩
          · rename_i rest hcomma
            have hgap''' := length_skipGap_le rest
            rw [hcomma, List.length_cons] at hgap''
            split at hfound
            · cases hfound
            · rename_i more hmore
              cases hfound
              refine List.forall_mem_cons.mpr ⟨⟨⟨_, rfl⟩, hfirst⟩, ?_⟩
              exact (h _ (by simp only [List.length_cons]; omega)).entries more hmore
          · cases hfound
      · cases hfound
  · cases hfound

theorem gives (text : List Char) : Gives text := by
  induction hlength : text.length using Nat.strong_induction_on generalizing text with
  | _ n ih =>
      have hshorter : ∀ shorter : List Char, shorter.length < text.length → Gives shorter :=
        fun shorter hlt => ih shorter.length (hlength ▸ hlt) shorter rfl
      have hvalue : ∀ found, readValue ofShown text = .ok found → found.value.IsRead :=
        fun found => isRead_value hshorter
      exact ⟨hvalue, fun found => isRead_items hvalue hshorter, fun found => areRead_entries hshorter⟩

end Json

/-- **What is read from JSON has only what JSON has names for, no key twice and no tuple.** -/
theorem Json.isRead_of_read {text : List Char} {v : Value} (h : read Value.ofShown text = .ok v) :
    v.IsRead := by
  unfold read at h
  split at h
  · cases h
  · rename_i found hfound
    split at h
    · cases h
      exact (Json.gives _).value found hfound
    · cases h

end Scorecard
