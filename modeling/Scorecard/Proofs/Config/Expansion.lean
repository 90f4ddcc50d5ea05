/-
All references are replaced at once.

A text is a row of references and plain characters, and there is one such row in which no reference
begins at a plain character: the one that a reader finds who looks for references from left to
right.  It is a matter of the text alone.  What is shown in the end is each of its pieces, in place,
whatever the environment has for the names.

The same comes out of rewriting the text where it stands: look for a reference, put its value in its
place, and look again behind the value.  The invariant is that what is written stands in front of
the offset, and what is still to be expanded behind it.  The part behind the offset gets shorter
with each reference, however long the values are, so this comes to an end.
-/
import Mathlib.Data.List.TakeWhile
import Mathlib.Data.Option.Defs
import Scorecard.Config.Expansion

namespace Scorecard.Config

variable {env : Environment} {text behind name : List Char} {c : Char}

/-! ### References -/

/-- A name has word characters only, and at least one. -/
def IsName (name : List Char) : Prop :=
  name ≠ [] ∧ ∀ c ∈ name, isWordChar c = true

/-- How a reference is written. -/
def spelled (name : List Char) : List Char :=
  '$' :: '{' :: name ++ ['}']

/-- What the environment has for a name, and nothing without it. -/
def valueOf (env : Environment) (name : List Char) : List Char :=
  ((env (String.ofList name)).getD "").toList

/-- A name ends at the brace. -/
theorem span_name (h : IsName name) (behind : List Char) :
    (name ++ '}' :: behind).takeWhile isWordChar = name ∧
      (name ++ '}' :: behind).dropWhile isWordChar = '}' :: behind := by
  have hbrace : ¬ isWordChar '}' = true := by decide
  rw [List.takeWhile_append_of_pos h.2, List.dropWhile_append_of_pos h.2, List.takeWhile_cons_of_neg hbrace,
    List.dropWhile_cons_of_neg hbrace, List.append_nil]
  exact ⟨rfl, rfl⟩

theorem reference?_eq_some_iff :
    reference? text = some (name, behind) ↔ IsName name ∧ '$' :: text = spelled name ++ behind := by
  constructor
  · intro h
    unfold reference? at h
    split at h
    · rename_i rest
      split at h
      · cases h
      · rename_i hname
        split at h
        · rename_i more hmore
          cases h
          have hall : ∀ c ∈ rest.takeWhile isWordChar, isWordChar c = true := fun c hc => List.mem_takeWhile_imp hc
          have hrest := List.takeWhile_append_dropWhile (p := isWordChar) (l := rest)
          rw [hmore] at hrest
          exact ⟨⟨hname, hall⟩, by simpa [spelled] using hrest.symm⟩
        · cases h
    · cases h
  · rintro ⟨hname, htext⟩
    have hrest : text = '{' :: (name ++ '}' :: behind) := by simpa [spelled] using htext
    obtain ⟨htake, hdrop⟩ := span_name hname behind
    rw [hrest, reference?, htake, hdrop]
    split
    · exact absurd rfl hname.1
    · rfl

/-- The name of the reference with which a text begins, and what follows it. -/
def front? (text : List Char) : Option (List Char × List Char) :=
  match text with
  | '$' :: rest => reference? rest
  | _ => none

theorem front?_eq_some_iff : front? text = some (name, behind) ↔ IsName name ∧ text = spelled name ++ behind := by
  unfold front?
  split
  · exact reference?_eq_some_iff
  · rename_i hdollar
    refine iff_of_false nofun ?_
    rintro ⟨-, htext⟩
    exact hdollar _ htext

theorem expandText_of_front (h : front? text = some (name, behind)) :
    expandText env text = valueOf env name ++ expandText env behind := by
  unfold front? at h
  split at h
  · rw [expandText, if_pos rfl]
    split
    · rename_i name' behind' hfound
      rw [h] at hfound
      cases hfound
      rfl
    · rename_i hnone
      rw [h] at hnone
      cases hnone
  · cases h

theorem expandText_of_plain (h : front? (c :: text) = none) :
    expandText env (c :: text) = c :: expandText env text := by
  rw [expandText]
  by_cases hdollar : c = '$'
  · subst hdollar
    rw [if_pos rfl]
    split
    · rename_i hfound
      rw [front?, hfound] at h
      cases h
    · rfl
  · rw [if_neg hdollar]

/-! ### Pieces -/

/-- A reference, or a character that is not part of one. -/
inductive Piece where
  | plain (c : Char)
  | reference (name : List Char)

/-- How a piece is written. -/
def Piece.spelling : Piece → List Char
  | .plain c => [c]
  | .reference name => spelled name

/-- What is shown for a piece. -/
def Piece.shown (env : Environment) : Piece → List Char
  | .plain c => [c]
  | .reference name => valueOf env name

/-- The references of a text from left to right, none overlapping another, and the characters
between them.  A character is plain if no reference begins with it. -/
inductive Leftmost : List Char → List Piece → Prop
  | nil : Leftmost [] []
  | reference {text name behind : List Char} {pieces : List Piece} (hname : IsName name)
      (htext : text = spelled name ++ behind) (h : Leftmost behind pieces) :
      Leftmost text (.reference name :: pieces)
  | plain {c : Char} {rest : List Char} {pieces : List Piece}
      (hplain : ∀ name behind, IsName name → c :: rest ≠ spelled name ++ behind)
      (h : Leftmost rest pieces) : Leftmost (c :: rest) (.plain c :: pieces)

variable {pieces others : List Piece}

theorem Leftmost.spelling (h : Leftmost text pieces) : pieces.flatMap Piece.spelling = text := by
  induction h with
  | nil => rfl
  | reference hname htext h ih => rw [List.flatMap_cons, ih, htext, Piece.spelling]
  | plain hplain h ih =>
      rw [List.flatMap_cons, ih]
      rfl

theorem front?_eq_none_iff :
    front? text = none ↔ ∀ name behind, IsName name → text ≠ spelled name ++ behind := by
  rw [Option.eq_none_iff_forall_ne_some]
  constructor
  · intro h name behind hname htext
    exact h (name, behind) (front?_eq_some_iff.mpr ⟨hname, htext⟩)
  · intro h found hfound
    obtain ⟨hname, htext⟩ := front?_eq_some_iff.mp hfound
    exact h _ _ hname htext

/-- **Each piece is shown in its place.** -/
theorem Leftmost.expandText_eq (h : Leftmost text pieces) :
    expandText env text = pieces.flatMap (Piece.shown env) := by
  induction h with
  | nil => rw [expandText, List.flatMap_nil]
  | reference hname htext h ih =>
      rw [expandText_of_front (front?_eq_some_iff.mpr ⟨hname, htext⟩), ih]
      rfl
  | plain hplain h ih =>
      rw [expandText_of_plain (front?_eq_none_iff.mpr hplain), ih]
      rfl

/-- Every text has such pieces. -/
theorem exists_leftmost (text : List Char) : ∃ pieces, Leftmost text pieces := by
  induction hlength : text.length using Nat.strongRecOn generalizing text with
  | _ length ih =>
      cases text with
      | nil => exact ⟨[], .nil⟩
      | cons c rest =>
          cases hfront : front? (c :: rest) with
          | none =>
              obtain ⟨pieces, hpieces⟩ := ih rest.length (by rw [← hlength]; simp) rest rfl
              exact ⟨_, .plain (front?_eq_none_iff.mp hfront) hpieces⟩
          | some found =>
              obtain ⟨name, behind⟩ := found
              obtain ⟨hname, htext⟩ := front?_eq_some_iff.mp hfront
              have hshorter : behind.length < length := by
                rw [← hlength, htext]
                simp [spelled]
                omega
              obtain ⟨pieces, hpieces⟩ := ih behind.length hshorter behind rfl
              exact ⟨_, .reference hname htext hpieces⟩

/-- There is one way to find the pieces. -/
theorem Leftmost.unique (h : Leftmost text pieces) (h' : Leftmost text others) : pieces = others := by
  induction h generalizing others with
  | nil =>
      cases h' with
      | nil => rfl
      | reference hname htext h => cases htext
  | reference hname htext h ih =>
      have hfront := front?_eq_some_iff.mpr ⟨hname, htext⟩
      cases h' with
      | nil => cases htext
      | reference hname' htext' h' =>
          have hfront' := front?_eq_some_iff.mpr ⟨hname', htext'⟩
          rw [hfront] at hfront'
          cases hfront'
          rw [ih h']
      | plain hplain h' => exact absurd htext (hplain _ _ hname)
  | plain hplain h ih =>
      cases h' with
      | reference hname htext h' => exact absurd htext (hplain _ _ hname)
      | plain hplain' h' => rw [ih h']

/-! ### Rewriting in place -/

/-- How many characters stand in front of the first reference of a text, and its name. -/
def search? : List Char → Option (Nat × List Char)
  | [] => none
  | c :: rest =>
    match front? (c :: rest) with
    | some (name, _) => some (0, name)
    | none => (search? rest).map fun (before, name) => (before + 1, name)

/-- The first reference, what stands in front of it, and what follows it. -/
theorem exists_of_search {before : Nat} (h : search? text = some (before, name)) :
    ∃ plain behind, plain.length = before ∧ text = plain ++ spelled name ++ behind ∧
      ∀ env, expandText env text = plain ++ valueOf env name ++ expandText env behind := by
  induction text generalizing before with
  | nil => cases h
  | cons c rest ih =>
      rw [search?] at h
      cases hfront : front? (c :: rest) with
      | some found =>
          obtain ⟨name', behind⟩ := found
          rw [hfront] at h
          cases h
          exact ⟨[], behind, rfl, (front?_eq_some_iff.mp hfront).2, fun env => expandText_of_front hfront⟩
      | none =>
          rw [hfront] at h
          obtain ⟨⟨before', name'⟩, hrest, hsame⟩ := Option.map_eq_some_iff.mp h
          cases hsame
          obtain ⟨plain, behind, hlength, htext, hexpanded⟩ := ih hrest
          refine ⟨c :: plain, behind, by rw [List.length_cons, hlength], by rw [htext]; rfl, fun env => ?_⟩
          rw [expandText_of_plain hfront, hexpanded]
          rfl

theorem expandText_of_search_none (h : search? text = none) : expandText env text = text := by
  induction text with
  | nil => rw [expandText]
  | cons c rest ih =>
      rw [search?] at h
      cases hfront : front? (c :: rest) with
      | some found =>
          rw [hfront] at h
          cases h
      | none =>
          rw [hfront] at h
          rw [expandText_of_plain hfront, ih (Option.map_eq_none_iff.mp h)]

theorem search_le {before : Nat} (h : search? text = some (before, name)) :
    before + name.length + 3 ≤ text.length := by
  obtain ⟨plain, behind, rfl, rfl, -⟩ := exists_of_search h
  simp [spelled]
  omega

/-- Look for a reference from the offset on, put its value in its place, and go on behind the
value. -/
def rewriteFrom (env : Environment) (text : List Char) (offset : Nat) : List Char :=
  match _h : search? (text.drop offset) with
  | none => text
  | some (before, name) =>
    let start := offset + before
    let stop := start + name.length + 3
    rewriteFrom env (text.take start ++ valueOf env name ++ text.drop stop) (start + (valueOf env name).length)
termination_by text.length - offset
decreasing_by
  have hle := search_le _h
  rw [List.length_drop] at hle
  simp only [List.length_append, List.length_take, List.length_drop]
  omega

/-- The invariant: what is written stays, and what stands behind it is expanded. -/
theorem rewriteFrom_append (env : Environment) (written rest : List Char) :
    rewriteFrom env (written ++ rest) written.length = written ++ expandText env rest := by
  induction hlength : rest.length using Nat.strongRecOn generalizing written rest with
  | _ length ih =>
      rw [rewriteFrom]
      split
      · rename_i hnone
        rw [List.drop_left] at hnone
        rw [expandText_of_search_none hnone]
      · rename_i before name hsome
        rw [List.drop_left] at hsome
        obtain ⟨plain, behind, rfl, rfl, hexpanded⟩ := exists_of_search hsome
        have htake : (written ++ (plain ++ spelled name ++ behind)).take (written.length + plain.length) =
            written ++ plain := by
          have hsplit : written ++ (plain ++ spelled name ++ behind) =
              written ++ plain ++ (spelled name ++ behind) := by simp
          rw [hsplit, ← List.length_append, List.take_left]
        have hdrop : (written ++ (plain ++ spelled name ++ behind)).drop
            (written.length + plain.length + name.length + 3) = behind := by
          have hstop : written.length + plain.length + name.length + 3 =
              (written ++ (plain ++ spelled name)).length := by
            simp [spelled]
            omega
          have hsplit : written ++ (plain ++ spelled name ++ behind) =
              written ++ (plain ++ spelled name) ++ behind := by simp
          rw [hsplit, hstop, List.drop_left]
        have hshorter : behind.length < length := by
          rw [← hlength]
          simp [spelled]
          omega
        have hagain := ih behind.length hshorter (written ++ plain ++ valueOf env name) behind rfl
        simp only [htake, hdrop]
        rw [List.length_append, List.length_append] at hagain
        rw [hagain, hexpanded env]
        simp only [List.append_assoc]

/-- **Rewriting in place comes to the same as one pass.** -/
theorem rewriteFrom_zero (env : Environment) (text : List Char) : rewriteFrom env text 0 = expandText env text :=
  rewriteFrom_append env [] text

/-- A dollar sign out of a value is not joined with what stands behind the reference. -/
example : rewriteFrom (fun _ => some "$") "$\x7bA\x7d\x7bA\x7d $\x7bA".toList 0 = "$\x7bA\x7d $\x7bA".toList := by cbv

/-! ### Values -/

/-- What stands at a place of a value: the items of a list and the entries of a record by their
order, one step after the other. -/
def at? : Value → List Nat → Option Value
  | v, [] => some v
  | .list items, index :: path => items[index]?.bind (at? · path)
  | .record entries, index :: path => entries[index]?.bind (at? ·.2 path)
  | _, _ :: _ => none

/-- The runs of characters between halves of surrogate pairs are expanded, each as a text of its own. -/
inductive ExpandsRuns (env : Environment) : List Point → List Point → Prop
  | last (run : List Char) : ExpandsRuns env (run.map .char) ((expandText env run).map .char)
  | half (run : List Char) (unit : Nat) (isHalf : 0xD800 ≤ unit ∧ unit < 0xE000) {rest rest' : List Point}
      (h : ExpandsRuns env rest rest') :
      ExpandsRuns env (run.map .char ++ .half unit isHalf :: rest)
        ((expandText env run).map .char ++ .half unit isHalf :: rest')

theorem expandsRuns_expandPoints (env : Environment) (run : List Char) (points : List Point) :
    ExpandsRuns env (run.map .char ++ points) (expandPoints env run points) := by
  induction points generalizing run with
  | nil =>
      rw [List.append_nil]
      exact .last run
  | cons point rest ih =>
      cases point with
      | half unit isHalf => exact .half run unit isHalf (ih [])
      | char c =>
          have hrun := ih (run ++ [c])
          rw [List.map_append, List.append_assoc] at hrun
          exact hrun

/-- What becomes of the value at one place: a text is expanded, a list has as many items as before,
a record has the same keys in the same order, and anything else is the same. -/
inductive Becomes (env : Environment) : Value → Value → Prop
  | text (s : String) : Becomes env (.str s) (.str (String.ofList (expandText env s.toList)))
  | broken (text : BrokenText) {points : List Point} (h : ExpandsRuns env text.points points) :
      Becomes env (.broken text) (.ofPoints points)
  | list {items items' : List Value} (h : items'.length = items.length) : Becomes env (.list items) (.list items')
  | record {entries entries' : List (Value × Value)} (h : entries'.map Prod.fst = entries.map Prod.fst) :
      Becomes env (.record entries) (.record entries')
  | other {v : Value} (htext : ∀ s, v ≠ .str s) (hbroken : ∀ text, v ≠ .broken text)
      (hlist : ∀ items, v ≠ .list items) (hrecord : ∀ entries, v ≠ .record entries) : Becomes env v v

theorem expandItems_eq_map (env : Environment) (items : List Value) :
    expandItems env items = items.map (expand env) := by
  induction items with
  | nil => rfl
  | cons v items ih => rw [expandItems, ih, List.map_cons]

theorem expandEntries_eq_map (env : Environment) (entries : List (Value × Value)) :
    expandEntries env entries = entries.map fun e => (e.1, expand env e.2) := by
  induction entries with
  | nil => rfl
  | cons e entries ih =>
      obtain ⟨k, v⟩ := e
      rw [expandEntries, ih, List.map_cons]

theorem becomes_expand (env : Environment) (v : Value) : Becomes env v (expand env v) := by
  cases v with
  | str s => exact .text s
  | broken text => exact .broken text (expandsRuns_expandPoints env [] text.points)
  | list items =>
      rw [expand, expandItems_eq_map]
      exact .list (List.length_map _)
  | record entries =>
      rw [expand, expandEntries_eq_map]
      exact .record (by rw [List.map_map]; rfl)
  | _ => exact .other nofun nofun nofun nofun

/-- What stands at a place afterwards is what stood there before, expanded. -/
theorem at?_expand (env : Environment) (v : Value) (path : List Nat) :
    at? (expand env v) path = (at? v path).map (expand env) := by
  induction path generalizing v with
  | nil => rfl
  | cons index path ih =>
      cases v with
      | list items =>
          rw [expand, expandItems_eq_map, at?, at?, List.getElem?_map]
          cases items[index]? with
          | none => rfl
          | some v => exact ih v
      | record entries =>
          rw [expand, expandEntries_eq_map, at?, at?, List.getElem?_map]
          cases entries[index]? with
          | none => rfl
          | some e => exact ih e.2
      | broken text =>
          rw [expand, Value.ofPoints]
          split <;> rfl
      | _ => rfl

/-- **Expansion is one pass over the texts of a value.**  Each text has one row of pieces, found from
left to right without regard to any environment: it is the text again where its pieces are written,
and the expanded text where the values of its references are shown in their places.  Rewriting the
text in place, and going on behind each value, comes to the same.  In a nested value this is done at
every place where a text stands, and nothing else changes at any place: neither what is there, nor
the keys of a record, nor their order. -/
theorem expand_once :
    (∀ text : List Char, ∃ pieces : List Piece,
      (∀ others, Leftmost text others ↔ others = pieces) ∧
      pieces.flatMap Piece.spelling = text ∧
      ∀ env, expandText env text = pieces.flatMap (Piece.shown env) ∧
        rewriteFrom env text 0 = expandText env text) ∧
    ∀ (env : Environment) (v : Value) (path : List Nat),
      Option.Rel (Becomes env) (at? v path) (at? (expand env v) path) := by
  constructor
  · intro text
    obtain ⟨pieces, hpieces⟩ := exists_leftmost text
    have honly : ∀ others, Leftmost text others ↔ others = pieces :=
      fun others => ⟨fun h => h.unique hpieces, fun h => h ▸ hpieces⟩
    exact ⟨pieces, honly, hpieces.spelling, fun env => ⟨hpieces.expandText_eq, rewriteFrom_zero env text⟩⟩
  · intro env v path
    rw [at?_expand]
    cases at? v path with
    | none => exact .none
    | some w => exact .some (becomes_expand env w)

end Scorecard.Config
