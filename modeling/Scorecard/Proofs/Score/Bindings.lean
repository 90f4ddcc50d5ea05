/-
What the values of an answer are bound to.

The values are bound one by one, and each of them is read as a double.  A name that is bound
already is refused, so nothing is ever replaced: either all of the values are bound, as they came,
or there is a first whose name occurred before, and the error names it.  Which one that is depends
on the names alone.
-/
import Scorecard.Proofs.Value.Fields
import Scorecard.Proofs.Value.Keyed
import Scorecard.Proofs.Value.Texts
import Scorecard.Session

namespace Scorecard

open Value

section

variable {bound all : Bindings} {values : List (Value × Value)} {entry : Value × Value} {name : Value}

/-! ### One more variable -/

theorem bindVariable_eq_ok_iff : bindVariable bound entry = .ok all ↔
    entry.1.canBeKey = true ∧ hasKey bound entry.1 = false ∧
      ∃ read, ReadsEntry entry read ∧ all = bound ++ [read] := by
  unfold bindVariable ReadsEntry
  cases entry.1.canBeKey with
  | false => simp
  | true =>
      cases hasKey bound entry.1 with
      | true => simp
      | false => cases entry.2.toFloat <;> simp [Prod.exists, eq_comm]

theorem bindVariable_eq_boundTwice_iff : bindVariable bound entry = .error (.formula (.boundTwice name)) ↔
    entry.1 = name ∧ name.canBeKey = true ∧ hasKey bound name = true := by
  unfold bindVariable
  constructor
  · intro h
    split at h
    · cases h
    · split at h
      · cases h
        simp_all
      · split at h <;> cases h
  · rintro ⟨rfl, hkey, hthere⟩
    simp [hkey, hthere]

/-! ### All of them -/

/-- **Values are bound exactly if no name comes twice**, each of them as it is read. -/
theorem foldlM_bindVariable_eq_ok_iff (hbound : Keyed bound) : values.foldlM bindVariable bound = .ok all ↔
    Keyed (bound ++ values) ∧ ∃ read, List.Forall₂ ReadsEntry values read ∧ all = bound ++ read := by
  induction values generalizing bound with
  | nil =>
      rw [List.foldlM_nil, List.append_nil]
      simp only [List.forall₂_nil_left_iff, exists_eq_left, List.append_nil, hbound, true_and]
      exact ⟨fun h => (Except.ok.inj h).symm, fun h => congrArg _ h.symm⟩
  | cons entry rest ih =>
      -- what is bound next has the names of what was given
      have hnames : ∀ read, ReadsEntry entry read →
          (bound ++ [read] ++ rest).map Prod.fst = (bound ++ [entry] ++ rest).map Prod.fst :=
        fun read hread => by simp [hread.1]
      rw [List.foldlM_cons, bind_eq_ok_iff, List.append_cons]
      simp only [bindVariable_eq_ok_iff, List.forall₂_cons_left_iff]
      constructor
      · rintro ⟨next, ⟨hkey, hnew, read, hread, rfl⟩, hrest⟩
        have hnext : Keyed (bound ++ [read]) := by
          rw [keyed_concat_iff, hread.1]
          exact ⟨hbound, hkey, hnew⟩
        obtain ⟨hkeyed, more, hmore, rfl⟩ := (ih hnext).mp hrest
        exact ⟨hkeyed.of_keys (hnames read hread).symm, read :: more, ⟨read, more, hread, hmore, rfl⟩,
          by simp⟩
      · rintro ⟨hkeyed, _, ⟨read, more, hread, hmore, rfl⟩, rfl⟩
        have hnext : Keyed (bound ++ [read] ++ rest) := hkeyed.of_keys (hnames read hread)
        obtain ⟨-, hkey, hnew⟩ := keyed_concat_iff.mp hkeyed.of_append
        refine ⟨bound ++ [read], ⟨hkey, hnew, read, hread, rfl⟩, ?_⟩
        exact (ih hnext.of_append).mpr ⟨hnext, more, hmore, by simp⟩

end

/-! ### Repeated names -/

/-- Two of the entries, one behind the other, have the same name. -/
def SharesName (values : List (Value × Value)) : Prop :=
  ∃ e f, [e, f].Sublist values ∧ e.1.same f.1 = true

/-- The first of the entries whose name occurred earlier has this name. -/
def FirstRepeated (values : List (Value × Value)) (name : Value) : Prop :=
  ∃ before v after, values = before ++ (name, v) :: after ∧ hasKey before name = true ∧ ¬ SharesName before

section

variable {values : List (Value × Value)}

theorem not_sharesName_iff : ¬ SharesName values ↔ values.Pairwise fun e f => e.1.same f.1 = false := by
  rw [List.pairwise_iff_forall_sublist]
  simp [SharesName]

theorem keyed_iff : Keyed values ↔ (∀ e ∈ values, e.1.canBeKey = true) ∧ ¬ SharesName values := by
  rw [not_sharesName_iff]
  exact ⟨fun h => ⟨h.keys, h.distinct⟩, fun h => ⟨h.1, h.2⟩⟩

theorem sharesName_concat_iff {e : Value × Value} :
    SharesName (values ++ [e]) ↔ SharesName values ∨ hasKey values e.1 = true := by
  rw [← not_iff_not, not_or, not_sharesName_iff, not_sharesName_iff, List.pairwise_append,
    Bool.not_eq_true, hasKey_eq_false_iff]
  simp

theorem SharesName.append (h : SharesName values) (after : List (Value × Value)) :
    SharesName (values ++ after) := by
  obtain ⟨e, f, hsub, hsame⟩ := h
  exact ⟨e, f, hsub.trans (List.sublist_append_left _ _), hsame⟩

theorem FirstRepeated.sharesName {name : Value} (h : FirstRepeated values name) : SharesName values := by
  obtain ⟨before, v, after, rfl, hthere, -⟩ := h
  rw [List.append_cons]
  exact (sharesName_concat_iff.mpr (.inr hthere)).append after

/-- Where two have the same name, there is a first that repeats one. -/
theorem SharesName.exists_firstRepeated (h : SharesName values) : ∃ name, FirstRepeated values name := by
  induction values using List.reverseRecOn with
  | nil => simp [SharesName] at h
  | append_singleton values e ih =>
      -- what comes behind the first that repeats a name does not make it a later one
      by_cases hearlier : SharesName values
      · obtain ⟨name, before, v, after, rfl, hrepeated⟩ := ih hearlier
        exact ⟨name, before, v, after ++ [e], by simp, hrepeated⟩
      · have hthere := (sharesName_concat_iff.mp h).resolve_left hearlier
        exact ⟨e.1, values, e.2, [], rfl, hthere, hearlier⟩

/-- Texts are the same only as the same text. -/
theorem not_sharesName_texts (hnames : ∀ e ∈ values, e.1.IsText) :
    ¬ SharesName values ↔ (values.map Prod.fst).Nodup := by
  rw [not_sharesName_iff, List.nodup_iff_pairwise_ne, List.pairwise_map]
  refine ⟨fun h => h.imp_of_mem ?_, fun h => h.imp_of_mem ?_⟩
  · intro e f _ hf hapart
    rwa [Bool.eq_false_iff, ne_eq, same_text_iff (hnames f hf)] at hapart
  · intro e f _ hf hne
    rwa [Bool.eq_false_iff, ne_eq, same_text_iff (hnames f hf)]

end

namespace Answer

variable {a : Answer} {bound : Bindings} {name : Value}

theorem bindings_eq_ok_iff : a.bindings = .ok bound ↔
    Keyed a.values ∧ List.Forall₂ ReadsEntry a.values bound := by
  rw [bindings, foldlM_bindVariable_eq_ok_iff keyed_nil]
  simp

/-- The error names the entry that it comes to. -/
theorem bindings_eq_boundTwice_iff : a.bindings = .error (.formula (.boundTwice name)) ↔
    ∃ before v after, a.values = before ++ (name, v) :: after ∧ Keyed before ∧
      (∀ b ∈ before, ∃ x, b.2.toFloat = .ok x) ∧ name.canBeKey = true ∧ hasKey before name = true := by
  rw [bindings, foldlM_eq_error_iff]
  simp only [foldlM_bindVariable_eq_ok_iff keyed_nil, bindVariable_eq_boundTwice_iff, List.nil_append]
  constructor
  · rintro ⟨before, ⟨_, v⟩, after, reached, hsplit, ⟨hkeyed, read, hread, rfl⟩, rfl, hkey, hthere⟩
    rw [hasKey_of_keys (keys_of_readsEntry hread).1] at hthere
    refine ⟨before, v, after, hsplit, hkeyed, fun b hb => ?_, hkey, hthere⟩
    obtain ⟨r, -, -, x, hx, -⟩ := exists_of_forall₂ hread b hb
    exact ⟨x, hx⟩
  · rintro ⟨before, v, after, hsplit, hkeyed, hvalues, hkey, hthere⟩
    obtain ⟨read, hread⟩ := exists_readsEntry hvalues
    refine ⟨before, (name, v), after, read, hsplit, ⟨hkeyed, read, hread, rfl⟩, rfl, hkey, ?_⟩
    rw [hasKey_of_keys (keys_of_readsEntry hread).1, hthere]

section

variable (hnames : ∀ b ∈ a.values, b.1.canBeKey = true) (hvalues : ∀ b ∈ a.values, ∃ x, b.2.toFloat = .ok x)

include hnames hvalues

/-- Which name is refused depends on the names alone. -/
theorem bindings_eq_boundTwice_iff_firstRepeated :
    a.bindings = .error (.formula (.boundTwice name)) ↔ FirstRepeated a.values name := by
  rw [bindings_eq_boundTwice_iff]
  constructor
  · rintro ⟨before, v, after, hsplit, hkeyed, -, -, hthere⟩
    exact ⟨before, v, after, hsplit, hthere, (keyed_iff.mp hkeyed).2⟩
  · rintro ⟨before, v, after, hsplit, hthere, hapart⟩
    rw [hsplit, List.forall_mem_append, List.forall_mem_cons] at hnames hvalues
    exact ⟨before, v, after, hsplit, keyed_iff.mpr ⟨hnames.1, hapart⟩, hvalues.1, hnames.2.1, hthere⟩

/-- Where no name comes twice, all of the values are bound. -/
theorem exists_bindings (hapart : ¬ SharesName a.values) :
    ∃ bound, a.bindings = .ok bound ∧ List.Forall₂ ReadsEntry a.values bound := by
  obtain ⟨bound, hread⟩ := exists_readsEntry hvalues
  exact ⟨bound, bindings_eq_ok_iff.mpr ⟨keyed_iff.mpr ⟨hnames, hapart⟩, hread⟩, hread⟩

end

/-- Doubles are bound as they are, if none of their names comes twice. -/
theorem bindings_floats_iff (h : ∀ b ∈ a.values, ∃ x, b.2 = .float x) :
    a.bindings = .ok bound ↔ Keyed a.values ∧ bound = a.values := by
  rw [bindings_eq_ok_iff, readsEntry_floats h]

end Answer

end Scorecard
