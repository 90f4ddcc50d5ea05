/-
The text of a value in a style.

Two writers make JSON: one packs it for seals, one spaces it for readers.  They differ in
whether strings keep to ASCII and in the blanks behind commas and colons, and that is
what a `Style` says.  `spelt` is the text of a value in a style, without the
refusals: of a list, the texts of its items between brackets; of a record, its
entries in the order of their keys, between braces.

What is sealed is spelt compactly.
-/
import Scorecard.Proofs.Json.Writing
import Scorecard.Json.Reader

namespace Scorecard.Json

open Value

/-- What a writer of JSON may decide. -/
structure Style where
  /-- Strings keep to ASCII. -/
  asciiOnly : Bool
  /-- What stands behind a comma and a colon. -/
  gap : List Char
  /-- Nothing but blanks stands there. -/
  blank : ∀ c ∈ gap, isGap c = true

/-- The style of seals. -/
def Style.compact : Style where
  asciiOnly := false
  gap := []
  blank := nofun

/-- The style for readers. -/
def Style.spaced : Style where
  asciiOnly := true
  gap := [' ']
  blank := by simp [isGap]

/-! ### The text -/

mutual

/-- The text of a value. -/
def spelt (style : Style) : Value → List Char
  | .null => "null".toList
  | .bool b => if b then "true".toList else "false".toList
  | .int n => integer n
  | .float x => float x
  | .nan _ => floatLayout.nan.toList
  | .str s => string style.asciiOnly s.toList
  | .list items => '[' :: (join (',' :: style.gap) (allSpelt style items) ++ [']'])
  | .tuple items => '[' :: (join (',' :: style.gap) (allSpelt style items) ++ [']'])
  | .record entries =>
    '{' :: (join (',' :: style.gap) ((sortByKey (fieldsSpelt style entries)).map fun e =>
      string style.asciiOnly e.1.toList ++ ':' :: (style.gap ++ e.2)) ++ ['}'])
  | _ => []

/-- The texts of items. -/
def allSpelt (style : Style) : List Value → List (List Char)
  | [] => []
  | x :: xs => spelt style x :: allSpelt style xs

/-- Entries under texts, each with the text of its value. -/
def fieldsSpelt (style : Style) : List (Value × Value) → List (String × List Char)
  | [] => []
  | (.str key, v) :: es => (key, spelt style v) :: fieldsSpelt style es
  | _ :: es => fieldsSpelt style es

end

/-- The text of an entry. -/
def entrySpelt (style : Style) (f : String × Value) : List Char :=
  string style.asciiOnly f.1.toList ++ ':' :: (style.gap ++ spelt style f.2)

section

variable (style : Style)

theorem allSpelt_eq_map (items : List Value) : allSpelt style items = items.map (spelt style) := by
  induction items with
  | nil => rfl
  | cons x rest ih => rw [allSpelt, ih, List.map_cons]

theorem fieldsSpelt_ofFields (fields : List (String × Value)) :
    fieldsSpelt style (ofFields fields) = fields.map fun f => (f.1, spelt style f.2) := by
  induction fields with
  | nil => rfl
  | cons f rest ih =>
      show (f.1, spelt style f.2) :: fieldsSpelt style (ofFields rest) = _
      rw [ih]
      rfl

theorem spelt_list (items : List Value) : spelt style (.list items) =
    '[' :: (join (',' :: style.gap) (items.map (spelt style)) ++ [']']) := by
  rw [spelt, allSpelt_eq_map]

theorem spelt_tuple (items : List Value) : spelt style (.tuple items) =
    '[' :: (join (',' :: style.gap) (items.map (spelt style)) ++ [']']) := by
  rw [spelt, allSpelt_eq_map]

theorem spelt_record (fields : List (String × Value)) : spelt style (.record (ofFields fields)) =
    '{' :: (join (',' :: style.gap) ((sortByKey fields).map (entrySpelt style)) ++ ['}']) := by
  rw [spelt, fieldsSpelt_ofFields, sortByKey_map, List.map_map]
  rfl

end

/-! ### Seals -/

/-- **The canonical text is the compact one.** -/
theorem wording_eq_spelt {v : Value} (h : v.IsJson) : wording v = spelt .compact v := by
  induction h with
  | list hparts ih => rw [wording_list hparts, spelt_list, List.map_congr_left ih]; rfl
  | tuple hparts ih => rw [wording_tuple hparts, spelt_tuple, List.map_congr_left ih]; rfl
  | record hkeys hparts ih =>
      obtain ⟨fields, rfl⟩ := exists_ofFields hkeys
      have hentry : ∀ f ∈ sortByKey fields, entryText f = entrySpelt .compact f := by
        intro f hf
        have hmem := mem_ofFields.mpr ((sortByKey_perm fields).mem_iff.mp hf)
        rw [entryText, ih (.str f.1, f.2) hmem]
        rfl
      rw [wording_record (isJson_ofFields.mp (.record hkeys hparts)), spelt_record,
        List.map_congr_left hentry]
      rfl
  | int hn => exact wording_of_ok (by rw [canonicalText, shortInteger, if_pos hn, spelt])
  | float hx => exact wording_of_ok (by rw [canonicalText, if_pos hx, spelt])
  | _ => rfl

end Scorecard.Json
