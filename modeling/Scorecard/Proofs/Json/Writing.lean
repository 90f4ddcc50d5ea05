/-
Which values have a canonical text, and what it is.

The writer looks for keys that are not text first, then writes, refusing what JSON lacks,
and looks for halves of surrogate pairs in the end.  Together that refuses exactly what is
not `IsJson`.  `Json.wording` is the text
without the refusals: of a list, the texts of its items between brackets; of a
record, its entries in the order of their keys, between braces.
-/
import Scorecard.Proofs.Json.Kept
import Scorecard.Proofs.Steps

namespace Scorecard

namespace Json

open Value

/-! ### The text -/

/-- The canonical text of a value that has one. -/
def wording (v : Value) : List Char :=
  match canonicalText v with
  | .ok text => text
  | .error _ => []

/-- An entry as it is written. -/
def entryText (f : String × Value) : List Char :=
  string false f.1.toList ++ ':' :: wording f.2

/-- Write an entry, if its value is not refused. -/
def writeEntry (part : String × Except Fault (List Char)) : Except Fault (List Char) := do
  .ok (string false part.1.toList ++ ':' :: (← part.2))

variable {v : Value}

theorem wording_of_ok {text : List Char} (h : canonicalText v = .ok text) : wording v = text := by
  unfold wording
  rw [h]

theorem canonicalItems_eq_mapM (items : List Value) :
    canonicalItems items = items.mapM canonicalText := by
  induction items with
  | nil => rfl
  | cons x rest ih =>
      rw [canonicalItems, List.mapM_cons, ih]
      rfl

theorem canonicalEntries_ofFields (fields : List (String × Value)) :
    canonicalEntries (ofFields fields) = fields.map fun f => (f.1, canonicalText f.2) := by
  induction fields with
  | nil => rfl
  | cons f rest ih =>
      show (f.1, canonicalText f.2) :: canonicalEntries (ofFields rest) = _
      rw [ih]
      rfl

theorem braces_eq_mapM (parts : List (String × Except Fault (List Char))) :
    braces parts = (parts.mapM writeEntry).map fun written =>
      '{' :: (join [','] written ++ ['}']) := by
  unfold braces
  show (do
    let written ← parts.mapM writeEntry
    .ok ('{' :: (join [','] written ++ ['}']))) = _
  cases parts.mapM writeEntry <;> rfl

theorem canonicalText_list {items : List Value}
    (h : ∀ x ∈ items, canonicalText x = .ok (wording x)) :
    canonicalText (.list items) = .ok ('[' :: (join [','] (items.map wording) ++ [']'])) := by
  rw [canonicalText, canonicalItems_eq_mapM, mapM_of_forall h]
  rfl

theorem canonicalText_tuple {items : List Value}
    (h : ∀ x ∈ items, canonicalText x = .ok (wording x)) :
    canonicalText (.tuple items) = .ok ('[' :: (join [','] (items.map wording) ++ [']'])) := by
  rw [canonicalText, canonicalItems_eq_mapM, mapM_of_forall h]
  rfl

theorem canonicalText_record {fields : List (String × Value)}
    (h : ∀ f ∈ fields, canonicalText f.2 = .ok (wording f.2)) :
    canonicalText (.record (ofFields fields)) =
      .ok ('{' :: (join [','] ((sortByKey fields).map entryText) ++ ['}'])) := by
  have hwritten : ((sortByKey fields).map fun f => (f.1, canonicalText f.2)).mapM writeEntry =
      .ok ((sortByKey fields).map entryText) := by
    rw [List.mapM_map]
    apply mapM_of_forall
    intro f hf
    show writeEntry (f.1, canonicalText f.2) = _
    rw [h f ((sortByKey_perm fields).mem_iff.mp hf)]
    rfl
  rw [canonicalText, canonicalEntries_ofFields, sortByKey_map canonicalText, braces_eq_mapM,
    hwritten]
  rfl

/-- **JSON is written.** -/
theorem canonicalText_of_isJson (h : v.IsJson) : canonicalText v = .ok (wording v) := by
  suffices h : ∃ text, canonicalText v = .ok text by
    obtain ⟨text, htext⟩ := h
    rw [htext, wording_of_ok htext]
  induction h with
  | list _ ih =>
      refine ⟨_, canonicalText_list fun x hx => ?_⟩
      obtain ⟨text, htext⟩ := ih x hx
      rw [htext, wording_of_ok htext]
  | tuple _ ih =>
      refine ⟨_, canonicalText_tuple fun x hx => ?_⟩
      obtain ⟨text, htext⟩ := ih x hx
      rw [htext, wording_of_ok htext]
  | record hkeys _ ih =>
      obtain ⟨fields, rfl⟩ := exists_ofFields hkeys
      refine ⟨_, canonicalText_record fun f hf => ?_⟩
      obtain ⟨text, htext⟩ := ih (.str f.1, f.2) (mem_ofFields.mpr hf)
      rw [htext, wording_of_ok htext]
  | int hn => exact ⟨_, by rw [canonicalText, shortInteger, if_pos hn]⟩
  | float hx => exact ⟨_, by rw [canonicalText, if_pos hx]⟩
  | _ => exact ⟨_, rfl⟩

theorem wording_list {items : List Value} (h : ∀ x ∈ items, x.IsJson) :
    wording (.list items) = '[' :: (join [','] (items.map wording) ++ [']']) :=
  wording_of_ok (canonicalText_list fun x hx => canonicalText_of_isJson (h x hx))

theorem wording_tuple {items : List Value} (h : ∀ x ∈ items, x.IsJson) :
    wording (.tuple items) = '[' :: (join [','] (items.map wording) ++ [']']) :=
  wording_of_ok (canonicalText_tuple fun x hx => canonicalText_of_isJson (h x hx))

theorem wording_record {fields : List (String × Value)} (h : ∀ f ∈ fields, f.2.IsJson) :
    wording (.record (ofFields fields)) =
      '{' :: (join [','] ((sortByKey fields).map entryText) ++ ['}']) :=
  wording_of_ok (canonicalText_record fun f hf => canonicalText_of_isJson (h f hf))

/-! ### Acceptance -/

private theorem foreignKeyIn_eq_none {items : List Value} :
    foreignKeyIn? items = none ↔ ∀ x ∈ items, foreignKey? x = none := by
  induction items with
  | nil => simp [foreignKeyIn?]
  | cons x rest ih =>
      rw [foreignKeyIn?, List.forall_mem_cons, ← ih]
      cases foreignKey? x <;> simp

/-- A key is text, with halves in it or not. -/
private def IsTextKey (key : Value) : Prop :=
  (∃ s, key = .str s) ∨ ∃ t, key = .broken t

private theorem foreignKeyAmong_eq_none {entries : List (Value × Value)} :
    foreignKeyAmong? entries = none ↔ ∀ e ∈ entries, IsTextKey e.1 ∧ foreignKey? e.2 = none := by
  induction entries with
  | nil => simp [foreignKeyAmong?]
  | cons e rest ih =>
      obtain ⟨key, v⟩ := e
      rw [List.forall_mem_cons, ← ih]
      cases key with
      | str s =>
          rw [foreignKeyAmong?]
          cases foreignKey? v <;> simp [IsTextKey]
      | broken t =>
          rw [foreignKeyAmong?]
          cases foreignKey? v <;> simp [IsTextKey]
      | _ => simp [foreignKeyAmong?, IsTextKey]

/-- What is like JSON has no key that is not text. -/
theorem foreignKey_of_jsonLike (h : v.JsonLike) : foreignKey? v = none := by
  induction h with
  | list _ ih => rw [foreignKey?, foreignKeyIn_eq_none]; exact ih
  | tuple _ ih => rw [foreignKey?, foreignKeyIn_eq_none]; exact ih
  | record hkeys _ ih =>
      rw [foreignKey?, foreignKeyAmong_eq_none]
      intro e he
      exact ⟨.inl (hkeys e he), ih e he⟩
  | _ => rfl

theorem foreignKey_of_isJson (h : v.IsJson) : foreignKey? v = none :=
  foreignKey_of_jsonLike h.jsonLike

private theorem hasHalfIn_eq_false {items : List Value} :
    hasHalfIn items = false ↔ ∀ x ∈ items, hasHalf x = false := by
  induction items with
  | nil => simp [hasHalfIn]
  | cons x rest ih => rw [hasHalfIn, Bool.or_eq_false_iff, ih, List.forall_mem_cons]

private theorem hasHalfAmong_eq_false {entries : List (Value × Value)} :
    hasHalfAmong entries = false ↔ ∀ e ∈ entries, hasHalf e.1 = false ∧ hasHalf e.2 = false := by
  induction entries with
  | nil => simp [hasHalfAmong]
  | cons e rest ih =>
      rw [hasHalfAmong, Bool.or_eq_false_iff, Bool.or_eq_false_iff, ih, List.forall_mem_cons]

/-- What is like JSON has no halves. -/
theorem hasHalf_of_jsonLike (h : v.JsonLike) : hasHalf v = false := by
  induction h with
  | list _ ih => rw [hasHalf, hasHalfIn_eq_false]; exact ih
  | tuple _ ih => rw [hasHalf, hasHalfIn_eq_false]; exact ih
  | record hkeys _ ih =>
      rw [hasHalf, hasHalfAmong_eq_false]
      intro e he
      obtain ⟨key, hkey⟩ := hkeys e he
      exact ⟨by rw [hkey]; rfl, ih e he⟩
  | _ => rfl

/-- Nothing between braces was refused. -/
private theorem parts_written {parts : List (String × Except Fault (List Char))} {text : List Char}
    (h : braces (sortByKey parts) = .ok text) : ∀ part ∈ parts, ∃ text, part.2 = .ok text := by
  intro part hpart
  rw [braces_eq_mapM] at h
  cases hwritten : (sortByKey parts).mapM writeEntry with
  | error e =>
      rw [hwritten] at h
      cases h
  | ok written =>
      obtain ⟨entry, hentry⟩ := forall_of_mapM hwritten part ((sortByKey_perm parts).mem_iff.mpr hpart)
      cases hvalue : part.2 with
      | ok text => exact ⟨text, rfl⟩
      | error e =>
          rw [writeEntry, hvalue] at hentry
          cases hentry

/-- What is written of an entry, under its key. -/
private def partOf? : Value × Value → Option (String × Except Fault (List Char))
  | (.str key, v) => some (key, canonicalText v)
  | (.broken key, v) => some (key.shown, canonicalText v)
  | _ => none

private theorem canonicalEntries_eq_filterMap (entries : List (Value × Value)) :
    canonicalEntries entries = entries.filterMap partOf? := by
  induction entries with
  | nil => rfl
  | cons e rest ih =>
      obtain ⟨key, v⟩ := e
      cases key <;> simp [canonicalEntries, partOf?, List.filterMap_cons, ih]

/-- Of a record that is written all values are. -/
private theorem entries_written {entries : List (Value × Value)} {text : List Char}
    (h : canonicalText (.record entries) = .ok text) (hkeys : ∀ e ∈ entries, IsTextKey e.1) :
    ∀ e ∈ entries, ∃ text, canonicalText e.2 = .ok text := by
  rw [canonicalText, canonicalEntries_eq_filterMap] at h
  rintro ⟨key, v⟩ he
  rcases hkeys _ he with ⟨s, rfl⟩ | ⟨t, rfl⟩
  · exact parts_written h (s, canonicalText v) (List.mem_filterMap.mpr ⟨_, he, rfl⟩)
  · exact parts_written h (t.shown, canonicalText v) (List.mem_filterMap.mpr ⟨_, he, rfl⟩)

mutual

/-- What is written, and has no key but texts and no half, is JSON. -/
theorem isJson_of_written : (v : Value) → foreignKey? v = none → hasHalf v = false →
    (∃ text, canonicalText v = .ok text) → v.IsJson
  | .null, _, _, _ => .null
  | .bool b, _, _, _ => .bool b
  | .int n, _, _, ⟨text, h⟩ => by
      rw [canonicalText, shortInteger] at h
      by_cases hn : Decimal.isShort n = true
      · exact .int hn
      · rw [if_neg hn] at h
        cases h
  | .float x, _, _, ⟨text, h⟩ => by
      rw [canonicalText] at h
      by_cases hx : Binary64.isFinite x = true
      · exact .float hx
      · rw [if_neg hx] at h
        cases h
  | .nan _, _, _, ⟨_, h⟩ => nomatch h
  | .str s, _, _, _ => .str s
  | .broken _, _, hhalf, _ => nomatch hhalf
  | .bytes _, _, _, ⟨_, h⟩ => nomatch h
  | .list items, hkeys, hhalf, ⟨text, h⟩ => by
      rw [foreignKey?, foreignKeyIn_eq_none] at hkeys
      rw [hasHalf, hasHalfIn_eq_false] at hhalf
      rw [canonicalText, canonicalItems_eq_mapM] at h
      cases hitems : items.mapM canonicalText with
      | error e =>
          rw [hitems] at h
          cases h
      | ok texts => exact .list (allJson_of_written items hkeys hhalf (forall_of_mapM hitems))
  | .tuple items, hkeys, hhalf, ⟨text, h⟩ => by
      rw [foreignKey?, foreignKeyIn_eq_none] at hkeys
      rw [hasHalf, hasHalfIn_eq_false] at hhalf
      rw [canonicalText, canonicalItems_eq_mapM] at h
      cases hitems : items.mapM canonicalText with
      | error e =>
          rw [hitems] at h
          cases h
      | ok texts => exact .tuple (allJson_of_written items hkeys hhalf (forall_of_mapM hitems))
  | .record entries, hkeys, hhalf, ⟨text, h⟩ => by
      rw [foreignKey?, foreignKeyAmong_eq_none] at hkeys
      rw [hasHalf, hasHalfAmong_eq_false] at hhalf
      refine .record (fun e he => ?_) (entriesJson_of_written entries (fun e he => (hkeys e he).2)
        (fun e he => (hhalf e he).2) (entries_written h fun e he => (hkeys e he).1))
      rcases (hkeys e he).1 with hkey | ⟨t, ht⟩
      · exact hkey
      · have hkeyHalf := (hhalf e he).1
        rw [ht] at hkeyHalf
        cases hkeyHalf
  | .date _, _, _, ⟨_, h⟩ => nomatch h
  | .part _ _, _, _, ⟨_, h⟩ => nomatch h
  | .loop _, _, _, ⟨_, h⟩ => nomatch h

private theorem allJson_of_written : (items : List Value) → (∀ x ∈ items, foreignKey? x = none) →
    (∀ x ∈ items, hasHalf x = false) → (∀ x ∈ items, ∃ text, canonicalText x = .ok text) →
    ∀ x ∈ items, x.IsJson
  | [], _, _, _ => fun _ hx => absurd hx List.not_mem_nil
  | x :: rest, hkeys, hhalf, htexts => by
      rw [List.forall_mem_cons] at hkeys hhalf htexts
      exact List.forall_mem_cons.mpr ⟨isJson_of_written x hkeys.1 hhalf.1 htexts.1,
        allJson_of_written rest hkeys.2 hhalf.2 htexts.2⟩

private theorem entriesJson_of_written : (entries : List (Value × Value)) →
    (∀ e ∈ entries, foreignKey? e.2 = none) → (∀ e ∈ entries, hasHalf e.2 = false) →
    (∀ e ∈ entries, ∃ text, canonicalText e.2 = .ok text) → ∀ e ∈ entries, e.2.IsJson
  | [], _, _, _ => fun _ he => absurd he List.not_mem_nil
  | (_, v) :: rest, hkeys, hhalf, htexts => by
      rw [List.forall_mem_cons] at hkeys hhalf htexts
      exact List.forall_mem_cons.mpr ⟨isJson_of_written v hkeys.1 hhalf.1 htexts.1,
        entriesJson_of_written rest hkeys.2 hhalf.2 htexts.2⟩

end

/-- **A value has a canonical text if and only if it is JSON once spelt out.** -/
theorem canonical_eq_ok_iff {text : String} :
    v.canonical = .ok text ↔ v.unfolded.IsJson ∧ text = String.ofList (wording v.unfolded) := by
  unfold Value.canonical
  constructor
  · intro h
    split at h
    · cases h
    · rename_i hkeys
      obtain ⟨chars, hchars, h⟩ := bind_eq_ok_iff.mp h
      split at h
      · cases h
      · rename_i hhalf
        cases h
        exact ⟨isJson_of_written _ hkeys (Bool.eq_false_of_not_eq_true hhalf) ⟨chars, hchars⟩,
          by rw [wording_of_ok hchars]⟩
  · rintro ⟨hjson, rfl⟩
    rw [foreignKey_of_isJson hjson]
    show (canonicalText v.unfolded).bind _ = _
    rw [canonicalText_of_isJson hjson]
    exact if_neg (by rw [hasHalf_of_jsonLike hjson.jsonLike]; exact Bool.false_ne_true)

/-! ### Refusals -/

/-- A record is refused because of one of its fields. -/
theorem exists_field_of_error {fields : List (String × Value)} {e : Fault}
    (h : canonicalText (.record (ofFields fields)) = .error e) :
    ∃ f ∈ fields, canonicalText f.2 = .error e := by
  rw [canonicalText, canonicalEntries_ofFields, sortByKey_map canonicalText, braces_eq_mapM,
    List.mapM_map] at h
  cases hwritten : (sortByKey fields).mapM (writeEntry ∘ fun f => (f.1, canonicalText f.2)) with
  | ok written =>
      rw [hwritten] at h
      cases h
  | error e' =>
      rw [hwritten] at h
      cases h
      obtain ⟨f, hf, hentry⟩ := exists_of_mapM_error hwritten
      refine ⟨f, (sortByKey_perm fields).mem_iff.mp hf, ?_⟩
      cases hvalue : canonicalText f.2 with
      | ok text =>
          simp only [Function.comp, hvalue] at hentry
          cases hentry
      | error e' =>
          simp only [Function.comp, hvalue] at hentry
          cases hentry
          rfl

/-- A sequence is refused because of one of its items. -/
private theorem exists_item_of_error {items : List Value} {e : Fault}
    {close : List (List Char) → List Char}
    (h : (canonicalItems items).map close = .error e) : ∃ x ∈ items, canonicalText x = .error e := by
  rw [canonicalItems_eq_mapM] at h
  cases hitems : items.mapM canonicalText with
  | ok texts =>
      rw [hitems] at h
      cases h
  | error e' =>
      rw [hitems] at h
      cases h
      exact exists_of_mapM_error hitems

/-- What is like JSON is refused for the length of an integer, and for nothing else. -/
theorem tooManyDigits_of_jsonLike (h : v.JsonLike) :
    ∀ e, canonicalText v = .error e → e = .tooManyDigits := by
  induction h with
  | list _ ih =>
      intro e he
      obtain ⟨x, hx, hfault⟩ := exists_item_of_error he
      exact ih x hx e hfault
  | tuple _ ih =>
      intro e he
      obtain ⟨x, hx, hfault⟩ := exists_item_of_error he
      exact ih x hx e hfault
  | record hkeys _ ih =>
      intro e he
      obtain ⟨fields, rfl⟩ := exists_ofFields hkeys
      obtain ⟨f, hf, hfault⟩ := exists_field_of_error he
      exact ih (.str f.1, f.2) (mem_ofFields.mpr hf) e hfault
  | int n =>
      intro e he
      rw [canonicalText, shortInteger] at he
      split at he
      · cases he
      · cases he
        rfl
  | float hx =>
      intro e he
      rw [canonicalText, if_pos hx] at he
      cases he
  | _ => exact fun _ he => nomatch he

/-- A value that is like JSON once spelt out is written, or has an integer that is too long. -/
theorem canonical_of_jsonLike (h : v.unfolded.JsonLike) :
    (∃ text, v.canonical = .ok text) ∨ v.canonical = .error .tooManyDigits := by
  rw [Value.canonical, foreignKey_of_jsonLike h]
  show (∃ text, (canonicalText v.unfolded).bind _ = .ok text) ∨ (canonicalText v.unfolded).bind _ = _
  cases htext : canonicalText v.unfolded with
  | ok text =>
      refine .inl ⟨String.ofList text, if_neg ?_⟩
      rw [hasHalf_of_jsonLike h]
      exact Bool.false_ne_true
  | error e =>
      rw [tooManyDigits_of_jsonLike h e htext]
      exact .inr rfl

/-- A record that is JSON but for doubles that are not finite has no meaning. -/
theorem canonical_of_not_finite {fields : List (String × Value)}
    (hfields : ∀ f ∈ fields, f.2.IsJson ∨ ∃ x, f.2 = .float x) {name : String} {x : Float}
    (hmem : (name, .float x) ∈ fields) (hx : Binary64.isFinite x = false) :
    (Value.record (ofFields fields)).canonical = .error .meaningless := by
  have hkey : ∀ e ∈ ofFields fields, ∃ key, e.1 = .str key :=
    forall_mem_ofFields.mpr fun g _ => ⟨g.1, rfl⟩
  have hparts : ∀ e ∈ ofFields fields, e.2.unfolded = e.2 ∧ foreignKey? e.2 = none := by
    refine forall_mem_ofFields.mpr fun g hg => ?_
    rcases hfields g hg with hjson | ⟨y, hy⟩
    · exact ⟨hjson.unfolded_eq, foreignKey_of_isJson hjson⟩
    · simp only [hy]
      exact ⟨rfl, rfl⟩
  have hkeys : foreignKey? (.record (ofFields fields)) = none := by
    rw [foreignKey?, foreignKeyAmong_eq_none]
    exact fun e he => ⟨.inl (hkey e he), (hparts e he).2⟩
  have hunfolded : (Value.record (ofFields fields)).unfolded = .record (ofFields fields) := by
    rw [unfolded, entriesUnfolded_eq_self hkey fun e he => (hparts e he).1]
  rw [Value.canonical, hunfolded, hkeys]
  show (canonicalText (.record (ofFields fields))).bind _ = _
  cases htext : canonicalText (.record (ofFields fields)) with
  | ok text =>
      by_cases hhalf : hasHalf (.record (ofFields fields)) = true
      · exact if_pos hhalf
      · have hjson := isJson_of_written _ hkeys (Bool.eq_false_of_not_eq_true hhalf) ⟨text, htext⟩
        cases isJson_ofFields.mp hjson _ hmem with
        | float hfinite => exact absurd hfinite (by simp [hx])
  | error e =>
      obtain ⟨g, hg, hrefused⟩ := exists_field_of_error htext
      rcases hfields g hg with hjson | ⟨y, hy⟩
      · rw [canonicalText_of_isJson hjson] at hrefused
        cases hrefused
      · rw [hy, canonicalText] at hrefused
        split at hrefused
        · cases hrefused
        · cases hrefused
          rfl

end Json

end Scorecard
