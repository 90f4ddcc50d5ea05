/-
Records with one value under each key.

A record is a list of entries here, and nothing about a list keeps two of its keys apart.  What
is made by storing keeps them apart: a key that is there already gets another value, and only a
new one gets an entry.
-/
import Scorecard.Proofs.Steps
import Scorecard.Value

namespace Scorecard.Value

/-- Every key can be one, and none is the same as one before it. -/
structure Keyed (entries : List (Value × Value)) : Prop where
  keys : ∀ e ∈ entries, e.1.canBeKey = true
  distinct : entries.Pairwise fun e f => e.1.same f.1 = false

variable {entries : List (Value × Value)} {key : Value}

theorem hasKey_eq_false_iff : hasKey entries key = false ↔ ∀ e ∈ entries, e.1.same key = false := by
  simp [hasKey]

theorem keyed_nil : Keyed [] :=
  ⟨nofun, .nil⟩

/-- Whether two keys are apart is settled by the keys alone. -/
theorem Keyed.of_keys {others : List (Value × Value)} (h : Keyed entries)
    (hkeys : others.map Prod.fst = entries.map Prod.fst) : Keyed others := by
  constructor
  · intro e he
    have hmem : e.1 ∈ entries.map Prod.fst := hkeys ▸ List.mem_map_of_mem he
    obtain ⟨f, hf, hsame⟩ := List.mem_map.mp hmem
    exact hsame ▸ h.keys f hf
  · have hpairwise : (entries.map Prod.fst).Pairwise fun a b => a.same b = false :=
      List.pairwise_map.mpr h.distinct
    rw [← hkeys] at hpairwise
    exact List.pairwise_map.mp hpairwise

/-- An entry more is kept apart if its key is new. -/
theorem keyed_concat_iff {e : Value × Value} : Keyed (entries ++ [e]) ↔
    Keyed entries ∧ e.1.canBeKey = true ∧ hasKey entries e.1 = false := by
  rw [hasKey_eq_false_iff]
  constructor
  · rintro ⟨hkeys, hdistinct⟩
    rw [List.forall_mem_append, List.forall_mem_singleton] at hkeys
    obtain ⟨hapart, -, hnew⟩ := List.pairwise_append.mp hdistinct
    exact ⟨⟨hkeys.1, hapart⟩, hkeys.2, fun f hf => hnew f hf e (List.mem_singleton_self e)⟩
  · rintro ⟨⟨hkeys, hapart⟩, hkey, hnew⟩
    refine ⟨List.forall_mem_append.mpr ⟨hkeys, List.forall_mem_singleton.mpr hkey⟩, ?_⟩
    refine List.pairwise_append.mpr ⟨hapart, List.pairwise_singleton _ _, fun f hf g hg => ?_⟩
    obtain rfl := List.mem_singleton.mp hg
    exact hnew f hf

theorem Keyed.of_append {others : List (Value × Value)} (h : Keyed (entries ++ others)) : Keyed entries :=
  ⟨fun e he => h.keys e (List.mem_append_left _ he), (List.pairwise_append.mp h.distinct).1⟩

/-- Whether a key is there is settled by the keys alone. -/
theorem hasKey_of_keys {others : List (Value × Value)} (hkeys : others.map Prod.fst = entries.map Prod.fst)
    (key : Value) : hasKey others key = hasKey entries key := by
  have hany : ∀ es : List (Value × Value), hasKey es key = (es.map Prod.fst).any (·.same key) := by
    intro es
    rw [hasKey, List.any_map]
    rfl
  rw [hany, hany, hkeys]

/-- Each entry is found under its own key. -/
theorem Keyed.lookup? (h : Keyed entries) {e : Value × Value} (he : e ∈ entries)
    (hsame : e.1.same e.1 = true) : Value.lookup? entries e.1 = some e.2 := by
  obtain ⟨before, after, rfl⟩ := List.append_of_mem he
  have hnew : ∀ f ∈ before, f.1.same e.1 = false := fun f hf =>
    (List.pairwise_append.mp h.distinct).2.2 f hf e (by simp)
  rw [Value.lookup?, List.find?_append, List.find?_eq_none.mpr (by simpa using hnew)]
  simp [hsame]

/-! ### Storing -/

/-- What is stored stands under its own key or under one that was there. -/
theorem mem_store {e : Value × Value} {v : Value} (h : e ∈ store entries key v) :
    e ∈ entries ∨ e.2 = v ∧ (e.1 = key ∨ ∃ f ∈ entries, f.1 = e.1) := by
  induction entries with
  | nil =>
      obtain rfl := List.mem_singleton.mp h
      exact .inr ⟨rfl, .inl rfl⟩
  | cons f rest ih =>
      rw [store] at h
      split at h
      · rcases List.mem_cons.mp h with rfl | hrest
        · exact .inr ⟨rfl, .inr ⟨f, List.mem_cons_self, rfl⟩⟩
        · exact .inl (List.mem_cons_of_mem _ hrest)
      · rcases List.mem_cons.mp h with rfl | hrest
        · exact .inl List.mem_cons_self
        · rcases ih hrest with hmem | ⟨hvalue, hkey | ⟨g, hg, hkey⟩⟩
          · exact .inl (List.mem_cons_of_mem _ hmem)
          · exact .inr ⟨hvalue, .inl hkey⟩
          · exact .inr ⟨hvalue, .inr ⟨g, List.mem_cons_of_mem _ hg, hkey⟩⟩

/-- Storing keeps keys apart. -/
theorem Keyed.store (h : Keyed entries) (hkey : key.canBeKey = true) (v : Value) :
    Keyed (Value.store entries key v) := by
  constructor
  · intro e he
    rcases mem_store he with hmem | ⟨-, rfl | ⟨f, hf, hsame⟩⟩
    · exact h.keys e hmem
    · exact hkey
    · exact hsame ▸ h.keys f hf
  · obtain ⟨-, hdistinct⟩ := h
    induction entries with
    | nil => exact List.pairwise_singleton _ _
    | cons f rest ih =>
        obtain ⟨hfirst, hrest⟩ := List.pairwise_cons.mp hdistinct
        rw [Value.store]
        split
        · exact List.pairwise_cons.mpr ⟨hfirst, hrest⟩
        · rename_i hother
          refine List.pairwise_cons.mpr ⟨fun e he => ?_, ih hrest⟩
          rcases mem_store he with hmem | ⟨-, hsame | ⟨g, hg, hsame⟩⟩
          · exact hfirst e hmem
          · rw [hsame]
            exact Bool.eq_false_iff.mpr hother
          · rw [← hsame]
            exact hfirst g hg

/-- **What is stored entry by entry has one value under each key.** -/
theorem keyed_storeAll (h : ∀ e ∈ entries, e.1.canBeKey = true) : Keyed (storeAll entries) := by
  have hfold : ∀ stored : List (Value × Value), Keyed stored →
      Keyed (entries.foldl (fun stored e => Value.store stored e.1 e.2) stored) := by
    induction entries with
    | nil => exact fun stored hstored => hstored
    | cons e rest ih =>
        rw [List.forall_mem_cons] at h
        exact fun stored hstored => ih h.2 _ (hstored.store h.1 e.2)
  exact hfold [] keyed_nil

/-- What holds of keys and of values holds of what is stored entry by entry. -/
theorem forall_storeAll {P Q : Value → Prop} (h : ∀ e ∈ entries, P e.1 ∧ Q e.2) :
    ∀ e ∈ storeAll entries, P e.1 ∧ Q e.2 := by
  have hfold : ∀ stored : List (Value × Value), (∀ e ∈ stored, P e.1 ∧ Q e.2) →
      ∀ e ∈ entries.foldl (fun stored e => Value.store stored e.1 e.2) stored, P e.1 ∧ Q e.2 := by
    induction entries with
    | nil => exact fun stored hstored => hstored
    | cons e rest ih =>
        rw [List.forall_mem_cons] at h
        refine fun stored hstored => ih h.2 _ fun f hf => ?_
        rcases mem_store hf with hmem | ⟨hvalue, hkey | ⟨g, hg, hkey⟩⟩
        · exact hstored f hmem
        · rw [hvalue, hkey]
          exact h.1
        · rw [hvalue, ← hkey]
          exact ⟨(hstored g hg).1, h.1.2⟩
  exact hfold [] nofun

end Scorecard.Value
