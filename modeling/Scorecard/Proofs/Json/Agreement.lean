/-
What JSON keeps of data.

JSON has null, truth values, integers, finite doubles, texts, lists, and records whose keys
are texts; a tuple is written as a list.  `JsonLike` says that data is made of nothing else,
at any depth, and `IsJson` that its integers are short besides, as those are that can be
written.  Whoever is lenient has names for the infinities and for no number as well, and
`IsLenient` admits them.

Two values agree if they are the same but for what JSON does not keep: the order of
a record's entries, and whether a sequence is a list or a tuple.  Agreement is
stricter than equality as data: `1`, `1.0` and true are equal as keys, but no two
of them agree, and neither do the two zeros among the doubles.

A record that is data has no key twice.  `Value` does not say so, since the list of
entries is only how a record is stored; `WellKeyed` does.
-/
import Scorecard.Json.Canonical
import Scorecard.Proofs.Steps
import Mathlib.Data.List.Nodup

namespace Scorecard.Value

/-! ### Data that JSON has -/

/-- Data made only of what JSON has, with integers of any size. -/
inductive JsonLike : Value → Prop
  | null : JsonLike .null
  | bool (b : Bool) : JsonLike (.bool b)
  | int (n : Int) : JsonLike (.int n)
  | float {x : Float} (finite : Binary64.isFinite x = true) : JsonLike (.float x)
  | str (s : String) : JsonLike (.str s)
  | list {items : List Value} (parts : ∀ x ∈ items, JsonLike x) : JsonLike (.list items)
  | tuple {items : List Value} (parts : ∀ x ∈ items, JsonLike x) : JsonLike (.tuple items)
  | record {entries : List (Value × Value)} (keys : ∀ e ∈ entries, ∃ key, e.1 = .str key)
      (parts : ∀ e ∈ entries, JsonLike e.2) : JsonLike (.record entries)

/-- Data made only of what JSON has, with integers that can be written. -/
inductive IsJson : Value → Prop
  | null : IsJson .null
  | bool (b : Bool) : IsJson (.bool b)
  | int {n : Int} (short : Decimal.isShort n = true) : IsJson (.int n)
  | float {x : Float} (finite : Binary64.isFinite x = true) : IsJson (.float x)
  | str (s : String) : IsJson (.str s)
  | list {items : List Value} (parts : ∀ x ∈ items, IsJson x) : IsJson (.list items)
  | tuple {items : List Value} (parts : ∀ x ∈ items, IsJson x) : IsJson (.tuple items)
  | record {entries : List (Value × Value)} (keys : ∀ e ∈ entries, ∃ key, e.1 = .str key)
      (parts : ∀ e ∈ entries, IsJson e.2) : IsJson (.record entries)

/-- Data made only of what JSON has, and of doubles without digits. -/
inductive IsLenient : Value → Prop
  | null : IsLenient .null
  | bool (b : Bool) : IsLenient (.bool b)
  | int {n : Int} (short : Decimal.isShort n = true) : IsLenient (.int n)
  | float {x : Float} (number : Binary64.decode x ≠ .nan) : IsLenient (.float x)
  | nan : IsLenient (.nan 0)
  | str (s : String) : IsLenient (.str s)
  | list {items : List Value} (parts : ∀ x ∈ items, IsLenient x) : IsLenient (.list items)
  | tuple {items : List Value} (parts : ∀ x ∈ items, IsLenient x) : IsLenient (.tuple items)
  | record {entries : List (Value × Value)} (keys : ∀ e ∈ entries, ∃ key, e.1 = .str key)
      (parts : ∀ e ∈ entries, IsLenient e.2) : IsLenient (.record entries)

/-- A value stands somewhere in another: it is that value, or in an item of it, or in
what it has under a key. -/
inductive Inside (a : Value) : Value → Prop
  | self : Inside a a
  | item {x : Value} {items : List Value} (mem : x ∈ items) (inside : Inside a x) :
      Inside a (.list items)
  | place {x : Value} {items : List Value} (mem : x ∈ items) (inside : Inside a x) :
      Inside a (.tuple items)
  | entry {e : Value × Value} {entries : List (Value × Value)} (mem : e ∈ entries)
      (inside : Inside a e.2) : Inside a (.record entries)

/-- No record in the value has a key twice. -/
def WellKeyed (v : Value) : Prop :=
  ∀ entries, Inside (.record entries) v → entries.Pairwise fun e f => e.1.same f.1 = false

/-- No tuple stands in the value. -/
def TupleFree (v : Value) : Prop :=
  ∀ items, ¬ Inside (.tuple items) v

/-- JSON is admitted by those who are lenient. -/
theorem IsJson.isLenient {v : Value} (h : IsJson v) : IsLenient v := by
  induction h with
  | null => exact .null
  | bool b => exact .bool b
  | int hn => exact .int hn
  | float hx =>
      refine .float fun hnan => ?_
      rw [Binary64.isFinite, hnan] at hx
      cases hx
  | str s => exact .str s
  | list _ ih => exact .list ih
  | tuple _ ih => exact .tuple ih
  | record hkeys _ ih => exact .record hkeys ih

/-- What those who are lenient admit is JSON if every double in it has digits. -/
theorem IsLenient.isJson {v : Value} (h : IsLenient v)
    (hfinite : ∀ x, Inside (.float x) v → Binary64.isFinite x = true) (hnan : ¬ Inside (.nan 0) v) :
    IsJson v := by
  induction h with
  | null => exact .null
  | bool b => exact .bool b
  | int hn => exact .int hn
  | float hx => exact .float (hfinite _ .self)
  | nan => exact absurd .self hnan
  | str s => exact .str s
  | list _ ih =>
      exact .list fun x hx => ih x hx (fun y hy => hfinite y (.item hx hy)) fun hy => hnan (.item hx hy)
  | tuple _ ih =>
      exact .tuple fun x hx => ih x hx (fun y hy => hfinite y (.place hx hy)) fun hy => hnan (.place hx hy)
  | record hkeys _ ih =>
      exact .record hkeys fun e he =>
        ih e he (fun y hy => hfinite y (.entry he hy)) fun hy => hnan (.entry he hy)

/-- Whatever stands in JSON is JSON. -/
theorem IsJson.inside {a v : Value} (h : IsJson v) (hinside : Inside a v) : IsJson a := by
  induction hinside with
  | self => exact h
  | item hmem _ ih =>
      cases h with
      | list hparts => exact ih (hparts _ hmem)
  | place hmem _ ih =>
      cases h with
      | tuple hparts => exact ih (hparts _ hmem)
  | entry hmem _ ih =>
      cases h with
      | record _ hparts => exact ih (hparts _ hmem)

theorem IsJson.jsonLike {v : Value} (h : IsJson v) : JsonLike v := by
  induction h with
  | null => exact .null
  | bool b => exact .bool b
  | int _ => exact .int _
  | float hx => exact .float hx
  | str s => exact .str s
  | list _ ih => exact .list ih
  | tuple _ ih => exact .tuple ih
  | record hkeys _ ih => exact .record hkeys ih

/-- What is like JSON is JSON if every integer in it is short. -/
theorem JsonLike.isJson {v : Value} (h : JsonLike v)
    (hshort : ∀ n, Inside (.int n) v → Decimal.isShort n = true) : IsJson v := by
  induction h with
  | null => exact .null
  | bool b => exact .bool b
  | int n => exact .int (hshort n .self)
  | float hx => exact .float hx
  | str s => exact .str s
  | list _ ih => exact .list fun x hx => ih x hx fun n hn => hshort n (.item hx hn)
  | tuple _ ih => exact .tuple fun x hx => ih x hx fun n hn => hshort n (.place hx hn)
  | record hkeys _ ih => exact .record hkeys fun e he => ih e he fun n hn => hshort n (.entry he hn)

theorem isJson_iff {v : Value} :
    v.IsJson ↔ v.JsonLike ∧ ∀ n, Inside (.int n) v → Decimal.isShort n = true := by
  constructor
  · intro h
    refine ⟨h.jsonLike, fun n hn => ?_⟩
    cases h.inside hn with
    | int hshort => exact hshort
  · intro h
    exact h.1.isJson h.2

namespace WellKeyed

variable {items : List Value} {entries : List (Value × Value)}

theorem item (h : WellKeyed (.list items)) : ∀ x ∈ items, WellKeyed x :=
  fun _ hx es hes => h es (.item hx hes)

theorem place (h : WellKeyed (.tuple items)) : ∀ x ∈ items, WellKeyed x :=
  fun _ hx es hes => h es (.place hx hes)

theorem entry (h : WellKeyed (.record entries)) : ∀ e ∈ entries, WellKeyed e.2 :=
  fun _ he es hes => h es (.entry he hes)

theorem null : WellKeyed .null :=
  fun _ hes => nomatch hes

theorem int (n : Int) : WellKeyed (.int n) :=
  fun _ hes => nomatch hes

theorem float (x : Float) : WellKeyed (.float x) :=
  fun _ hes => nomatch hes

theorem str (s : String) : WellKeyed (.str s) :=
  fun _ hes => nomatch hes

/-- A list is well-keyed if its items are. -/
theorem ofItems (h : ∀ x ∈ items, WellKeyed x) : WellKeyed (.list items) := by
  intro es hes
  cases hes with
  | item hmem hinside => exact h _ hmem es hinside

theorem ofPlaces (h : ∀ x ∈ items, WellKeyed x) : WellKeyed (.tuple items) := by
  intro es hes
  cases hes with
  | place hmem hinside => exact h _ hmem es hinside

/-- A record is well-keyed if its keys differ and what stands under them is. -/
theorem ofEntries (hkeys : entries.Pairwise fun e f => e.1.same f.1 = false)
    (h : ∀ e ∈ entries, WellKeyed e.2) : WellKeyed (.record entries) := by
  intro es hes
  cases hes with
  | self => exact hkeys
  | entry hmem hinside => exact h _ hmem es hinside

end WellKeyed

namespace TupleFree

variable {items : List Value} {entries : List (Value × Value)}

/-- No tuple stands in a list if none stands in its items. -/
theorem ofItems (h : ∀ x ∈ items, TupleFree x) : TupleFree (.list items) := by
  intro places hplaces
  cases hplaces with
  | item hmem hinside => exact h _ hmem places hinside

theorem ofEntries (h : ∀ e ∈ entries, TupleFree e.2) : TupleFree (.record entries) := by
  intro places hplaces
  cases hplaces with
  | entry hmem hinside => exact h _ hmem places hinside

theorem item (h : TupleFree (.list items)) : ∀ x ∈ items, TupleFree x :=
  fun _ hx places hplaces => h places (.item hx hplaces)

theorem entry (h : TupleFree (.record entries)) : ∀ e ∈ entries, TupleFree e.2 :=
  fun _ he places hplaces => h places (.entry he hplaces)

end TupleFree

/-! ### Agreement -/

mutual

/-- The same data, but for the order of entries and for lists being tuples. -/
def Agrees : Value → Value → Prop
  | .list xs, b => ∃ ys, (b = .list ys ∨ b = .tuple ys) ∧ AgreeItems xs ys
  | .tuple xs, b => ∃ ys, (b = .list ys ∨ b = .tuple ys) ∧ AgreeItems xs ys
  | .record es, b => ∃ fs, b = .record fs ∧ es.length = fs.length ∧ AgreeEntries es fs
  | a, b => a = b

/-- Items that agree one by one. -/
def AgreeItems : List Value → List Value → Prop
  | [], ys => ys = []
  | x :: xs, ys => ∃ z zs, ys = z :: zs ∧ Agrees x z ∧ AgreeItems xs zs

/-- Every entry of the first list has one in the second with the same key and a value
that agrees. -/
def AgreeEntries : List (Value × Value) → List (Value × Value) → Prop
  | [], _ => True
  | (key, v) :: es, fs => (∃ w, (key, w) ∈ fs ∧ Agrees v w) ∧ AgreeEntries es fs

end

theorem agreeItems_iff {xs ys : List Value} : AgreeItems xs ys ↔ List.Forall₂ Agrees xs ys := by
  induction xs generalizing ys with
  | nil => rw [AgreeItems, List.forall₂_nil_left_iff]
  | cons x xs ih =>
      rw [AgreeItems, List.forall₂_cons_left_iff]
      constructor
      · rintro ⟨z, zs, hys, hx, hxs⟩
        exact ⟨z, zs, hx, ih.mp hxs, hys⟩
      · rintro ⟨z, zs, hx, hxs, hys⟩
        exact ⟨z, zs, hys, hx, ih.mpr hxs⟩

theorem agreeEntries_iff {es fs : List (Value × Value)} :
    AgreeEntries es fs ↔ ∀ e ∈ es, ∃ w, (e.1, w) ∈ fs ∧ Agrees e.2 w := by
  induction es with
  | nil => simp [AgreeEntries]
  | cons e es ih =>
      obtain ⟨key, v⟩ := e
      rw [AgreeEntries, ih, List.forall_mem_cons]

/-! ### Records under texts -/

/-- The entries of a record whose keys are texts. -/
def ofFields (fields : List (String × Value)) : List (Value × Value) :=
  fields.map fun f => (.str f.1, f.2)

/-- Entries whose keys are texts. -/
theorem exists_ofFields {entries : List (Value × Value)}
    (h : ∀ e ∈ entries, ∃ key, e.1 = .str key) : ∃ fields, entries = ofFields fields := by
  induction entries with
  | nil => exact ⟨[], rfl⟩
  | cons e rest ih =>
      obtain ⟨key, hkey⟩ := h e List.mem_cons_self
      obtain ⟨fields, hrest⟩ := ih fun f hf => h f (List.mem_cons_of_mem _ hf)
      refine ⟨(key, e.2) :: fields, ?_⟩
      rw [hrest]
      show _ = (Value.str key, e.2) :: ofFields fields
      rw [← hkey]

theorem mem_ofFields {fields : List (String × Value)} {key : String} {v : Value} :
    (.str key, v) ∈ ofFields fields ↔ (key, v) ∈ fields := by
  simp [ofFields]

/-- What holds of all entries under texts. -/
theorem forall_mem_ofFields {fields : List (String × Value)} {P : Value × Value → Prop} :
    (∀ e ∈ ofFields fields, P e) ↔ ∀ f ∈ fields, P (.str f.1, f.2) :=
  List.forall_mem_map

theorem ofFields_injective {fs gs : List (String × Value)} (h : ofFields fs = ofFields gs) :
    fs = gs := by
  refine List.map_injective_iff.mpr ?_ h
  intro f g hfg
  obtain ⟨hkey, hvalue⟩ := Prod.mk.inj hfg
  exact Prod.ext (Value.str.inj hkey) hvalue

/-- Entries under texts have no key twice if no text is there twice. -/
theorem pairwise_ofFields {fields : List (String × Value)} :
    (ofFields fields).Pairwise (fun e f => e.1.same f.1 = false) ↔ (fields.map Prod.fst).Nodup := by
  unfold ofFields List.Nodup
  rw [List.pairwise_map, List.pairwise_map]
  simp

/-- A record under texts is JSON if what stands under them is. -/
theorem isJson_ofFields {fields : List (String × Value)} :
    IsJson (.record (ofFields fields)) ↔ ∀ f ∈ fields, IsJson f.2 := by
  constructor
  · intro h
    cases h with
    | record _ hparts => exact forall_mem_ofFields.mp hparts
  · intro h
    exact .record (forall_mem_ofFields.mpr fun f _ => ⟨f.1, rfl⟩) (forall_mem_ofFields.mpr h)

/-- A record under texts is admitted by those who are lenient if what stands under them is. -/
theorem isLenient_ofFields {fields : List (String × Value)} :
    IsLenient (.record (ofFields fields)) ↔ ∀ f ∈ fields, IsLenient f.2 := by
  constructor
  · intro h
    cases h with
    | record _ hparts => exact forall_mem_ofFields.mp hparts
  · intro h
    exact .record (forall_mem_ofFields.mpr fun f _ => ⟨f.1, rfl⟩) (forall_mem_ofFields.mpr h)

/-- A record under texts is well-keyed if no text is there twice and what stands under
them is. -/
theorem wellKeyed_ofFields {fields : List (String × Value)} :
    WellKeyed (.record (ofFields fields)) ↔
      (fields.map Prod.fst).Nodup ∧ ∀ f ∈ fields, WellKeyed f.2 := by
  constructor
  · intro h
    exact ⟨pairwise_ofFields.mp (h _ .self), forall_mem_ofFields.mp h.entry⟩
  · rintro ⟨hkeys, h⟩
    exact .ofEntries (pairwise_ofFields.mpr hkeys) (forall_mem_ofFields.mpr h)

theorem agreeEntries_ofFields {fs gs : List (String × Value)} :
    AgreeEntries (ofFields fs) (ofFields gs) ↔ ∀ f ∈ fs, ∃ w, (f.1, w) ∈ gs ∧ Agrees f.2 w := by
  rw [agreeEntries_iff, forall_mem_ofFields]
  simp only [mem_ofFields]

theorem agrees_list {xs ys : List Value} (h : List.Forall₂ Agrees xs ys) :
    (Value.list xs).Agrees (.list ys) := by
  rw [Agrees]
  exact ⟨ys, .inl rfl, agreeItems_iff.mpr h⟩

/-- Records agree if their fields do, one by one. -/
theorem agrees_ofFields {fs gs : List (String × Value)}
    (h : List.Forall₂ (fun f g => f.1 = g.1 ∧ f.2.Agrees g.2) fs gs) :
    (Value.record (ofFields fs)).Agrees (.record (ofFields gs)) := by
  rw [Agrees]
  refine ⟨_, rfl, by simp [ofFields, h.length_eq], agreeEntries_ofFields.mpr fun f hf => ?_⟩
  obtain ⟨g, hg, hname, hagree⟩ := exists_of_forall₂ h f hf
  exact ⟨g.2, hname ▸ hg, hagree⟩

/-! ### Data spelt out -/

private theorem allUnfolded_eq_self {items : List Value} (h : ∀ x ∈ items, unfolded x = x) :
    allUnfolded items = items := by
  induction items with
  | nil => rfl
  | cons x rest ih =>
      rw [allUnfolded, h x List.mem_cons_self, ih fun y hy => h y (List.mem_cons_of_mem _ hy)]

theorem entriesUnfolded_eq_self {entries : List (Value × Value)}
    (hkeys : ∀ e ∈ entries, ∃ key, e.1 = .str key) (h : ∀ e ∈ entries, unfolded e.2 = e.2) :
    entriesUnfolded entries = entries := by
  induction entries with
  | nil => rfl
  | cons e rest ih =>
      obtain ⟨key, v⟩ := e
      obtain ⟨_, rfl⟩ := hkeys (key, v) List.mem_cons_self
      have hv : unfolded v = v := h _ List.mem_cons_self
      rw [entriesUnfolded, hv, ih (fun f hf => hkeys f (List.mem_cons_of_mem _ hf))
        fun f hf => h f (List.mem_cons_of_mem _ hf), unfolded]
      all_goals simp

/-- What JSON has, strictly or not, is no part of a graph. -/
theorem IsLenient.surface_eq {v : Value} (h : v.IsLenient) : v.surface = v := by
  cases h <;> rfl

/-- What JSON has, strictly or not, is spelt out already. -/
theorem IsLenient.unfolded_eq {v : Value} (h : IsLenient v) : v.unfolded = v := by
  induction h with
  | list _ ih => rw [unfolded, allUnfolded_eq_self ih]
  | tuple _ ih => rw [unfolded, allUnfolded_eq_self ih]
  | record hkeys _ ih => rw [unfolded, entriesUnfolded_eq_self hkeys ih]
  | _ => rfl

theorem IsJson.unfolded_eq {v : Value} (h : IsJson v) : v.unfolded = v :=
  h.isLenient.unfolded_eq

end Scorecard.Value
