/-
References to environment values.

A reference is a name of word characters between braces behind a dollar sign.  All
references of a text are replaced in one pass from left to right, each by the value
of its name, or by nothing where the name has none.  Text that came out of a value is
not looked at again, and neither is text that a value and its surroundings form.
-/
import Scorecard.Text.Word
import Scorecard.Value

namespace Scorecard.Config

/-- The values of an environment, by name. -/
abbrev Environment := String → Option String

/-- The name of the reference whose dollar sign stands in front of `text`, and what
follows the reference. -/
def reference? (text : List Char) : Option (List Char × List Char) :=
  match text with
  | '{' :: rest =>
    match rest.takeWhile isWordChar with
    | [] => none
    | name =>
      match rest.dropWhile isWordChar with
      | '}' :: behind => some (name, behind)
      | _ => none
  | _ => none

theorem length_reference_lt {text name rest : List Char} (h : reference? text = some (name, rest)) :
    rest.length < text.length := by
  unfold reference? at h
  split at h
  · rename_i tail
    split at h
    · simp at h
    · split at h
      · rename_i behind hd
        simp only [Option.some.injEq, Prod.mk.injEq] at h
        obtain ⟨-, rfl⟩ := h
        have := (List.dropWhile_suffix isWordChar : tail.dropWhile isWordChar <:+ tail).length_le
        rw [hd] at this
        simp at this ⊢
        omega
      · simp at h
  · simp at h

/-- A text with its references replaced. -/
def expandText (env : Environment) (text : List Char) : List Char :=
  match text with
  | [] => []
  | c :: rest =>
    if c = '$' then
      match _h : reference? rest with
      | some (name, behind) =>
        ((env (String.ofList name)).getD "").toList ++ expandText env behind
      | none => c :: expandText env rest
    else c :: expandText env rest
termination_by text.length
decreasing_by
  · have := length_reference_lt _h; simp; omega
  · simp
  · simp

/-- A text with halves in it, behind a run of characters, with its references replaced.  No
reference goes beyond a half, so each run of characters is a text of its own. -/
def expandPoints (env : Environment) (run : List Char) : List Point → List Point
  | [] => (expandText env run).map .char
  | .char c :: rest => expandPoints env (run ++ [c]) rest
  | .half unit isHalf :: rest =>
    (expandText env run).map .char ++ .half unit isHalf :: expandPoints env [] rest

mutual

/-- A value with the references in all its texts replaced; keys stay as they are. -/
def expand (env : Environment) : Value → Value
  | .str s => .str (String.ofList (expandText env s.toList))
  | .broken t => .ofPoints (expandPoints env [] t.points)
  | .list items => .list (expandItems env items)
  | .record entries => .record (expandEntries env entries)
  | v => v

/-- Items with their references replaced. -/
def expandItems (env : Environment) : List Value → List Value
  | [] => []
  | x :: xs => expand env x :: expandItems env xs

/-- Entries with the references in their values replaced. -/
def expandEntries (env : Environment) : List (Value × Value) → List (Value × Value)
  | [] => []
  | (k, v) :: es => (k, expand env v) :: expandEntries env es

end

/-- The names that the references of a text mention. -/
def mentioned (text : List Char) : List String :=
  match text with
  | [] => []
  | c :: rest =>
    (if c = '$' then (reference? rest).toList.map fun (name, _) => String.ofList name else []) ++
      mentioned rest

end Scorecard.Config
