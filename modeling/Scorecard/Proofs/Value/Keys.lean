/-
What a key stands for.

Keys of several kinds can be one and the same: `1`, `1.0` and true, or one moment written with
two offsets.  What they have in common is taken out here: the exact amount of a number, the
moment of a time, the data of anything else.  Two values are the same, where one can be a key,
exactly if they stand for the same.  So keys that are the same can stand in for each other, and a
record holds under the one what it holds under the other.

What is no number, as a double, stands for nothing: it is not even the same as itself.
-/
import Scorecard.Proofs.Number.Amounts
import Scorecard.Value

namespace Scorecard

/-! ### Moments -/

/-- What a date or time is compared by: the instant in universal time if it names its offset, or
else itself. -/
def Timestamp.moment (t : Timestamp) : Timestamp ⊕ Int :=
  match t.time with
  | none => .inl t
  | some time => if time.offset.isSome then .inr (instant t.daysBefore time) else .inl t

theorem Timestamp.same_iff (s t : Timestamp) : s.same t = true ↔ s.moment = t.moment := by
  by_cases h : s = t
  · subst h
    refine iff_of_true ?_ rfl
    unfold same
    cases s.time <;> simp
  · -- if they differ, both of them must name their offsets
    unfold same moment
    cases s.time with
    | none =>
        cases t.time with
        | none => simp [h]
        | some b => cases hb : b.offset.isSome <;> simp [h, hb]
    | some a =>
        cases t.time with
        | none => cases ha : a.offset.isSome <;> simp [h, ha]
        | some b => cases ha : a.offset.isSome <;> cases hb : b.offset.isSome <;> simp [h, ha, hb]

namespace Value

/-! ### Amounts -/

/-- The amount that a value is, if it is a number. -/
def amount? : Value → Option Amount
  | .float x => Binary64.amount? x
  | v => v.integer?.map fun n => .rational n

section

variable {a b : Value} {m : Int}

theorem bool_or_int_of_integer (ha : a.integer? = some m) : (∃ p, a = .bool p) ∨ a = .int m := by
  cases a <;> simp_all [integer?]

theorem amount?_of_integer (ha : a.integer? = some m) : a.amount? = some (.rational m) := by
  rcases bool_or_int_of_integer ha with ⟨p, rfl⟩ | rfl <;> simp_all [integer?, amount?]

theorem compareNumbers?_integer (ha : a.integer? = some m) (b : Value) :
    compareNumbers? a b = some .eq ↔ b.amount? = some (.rational m) := by
  cases hb : b.integer? with
  | some n =>
      have hpair : compareNumbers? a b = some (compare m n) := by
        rcases bool_or_int_of_integer ha with ⟨p, rfl⟩ | rfl <;>
          rcases bool_or_int_of_integer hb with ⟨q, rfl⟩ | rfl <;> simp_all [compareNumbers?, integer?]
      rw [hpair, amount?_of_integer hb]
      simp only [Option.some.injEq, compare_eq_iff_eq, Amount.rational.injEq, Int.cast_inj]
      exact eq_comm
  | none =>
      rcases bool_or_int_of_integer ha with ⟨p, rfl⟩ | rfl <;>
        cases b <;> simp_all [compareNumbers?, integer?, amount?, Binary64.compareInt?_eq_iff]

theorem compareNumbers?_float (x : Float) (b : Value) : compareNumbers? (.float x) b = some .eq ↔
    ∃ q, Binary64.amount? x = some q ∧ b.amount? = some q := by
  cases b with
  | float y =>
      rw [compareNumbers?, amount?, ← Binary64.beq_iff]
      repeat' split
      all_goals simp_all
  | bool b => simp [compareNumbers?, amount?, integer?, Binary64.compareInt?_eq_iff]
  | int n => simp [compareNumbers?, amount?, integer?, Binary64.compareInt?_eq_iff]
  | _ => simp [compareNumbers?, amount?, integer?]

/-- **Numbers are equal exactly if they are one amount**, whatever their kinds are. -/
theorem compareNumbers?_eq_iff (a b : Value) : compareNumbers? a b = some .eq ↔
    ∃ q, a.amount? = some q ∧ b.amount? = some q := by
  cases a with
  | float x => exact compareNumbers?_float x b
  | bool p => simp [compareNumbers?_integer (a := .bool p) rfl, amount?, integer?]
  | int m => simp [compareNumbers?_integer (a := .int m) rfl, amount?, integer?]
  | _ => cases b <;> simp [compareNumbers?, amount?, integer?]

end

/-! ### Keys -/

/-- What a key stands for. -/
inductive Key where
  | null
  | text (s : String)
  | broken (text : BrokenText)
  | octets (bytes : List UInt8)
  | nan (which : Nat)
  | amount (a : Amount)
  | moment (m : Timestamp ⊕ Int)
  | tuple (items : List Key)

/-- What a date or a number stands for. -/
def plainKey? (v : Value) : Option Key :=
  match v.date? with
  | some t => some (.moment t.moment)
  | none => v.amount?.map .amount

mutual

/-- What a value stands for as a key. -/
def key? : Value → Option Key
  | .null => some .null
  | .str s => some (.text s)
  | .broken text => some (.broken text)
  | .bytes octets => some (.octets octets)
  | .nan which => some (.nan which)
  | .tuple items => (keys? items).map .tuple
  | v => v.plainKey?

/-- What values stand for, item by item. -/
def keys? : List Value → Option (List Key)
  | [] => some []
  | x :: xs => x.key?.bind fun k => (keys? xs).map (k :: ·)

end

variable {a b : Value} {k : Key}

theorem amount?_of_date {t : Timestamp} (h : a.date? = some t) : a.amount? = none := by
  cases a with
  | date t => rfl
  | part graph place => rfl
  | _ => cases h

theorem key?_of_plainKey? (h : a.plainKey? = some k) : a.key? = some k := by
  cases a <;> first | exact h | cases h

/-- What a value stands for tells of what kind it is. -/
theorem kind_of_key? (h : a.key? = some k) :
    match k with
    | .null => a = .null
    | .text s => a = .str s
    | .broken text => a = .broken text
    | .octets octets => a = .bytes octets
    | .nan which => a = .nan which
    | .tuple _ => ∃ items, a = .tuple items
    | _ => a.plainKey? = some k := by
  have hplain : ∀ v : Value, v.plainKey? = some k → (∃ m, k = .moment m) ∨ ∃ q, k = .amount q := by
    intro v hv
    unfold plainKey? at hv
    split at hv
    · cases hv
      exact .inl ⟨_, rfl⟩
    · obtain ⟨q, -, rfl⟩ := Option.map_eq_some_iff.mp hv
      exact .inr ⟨q, rfl⟩
  cases a with
  | null => cases h; rfl
  | str s => cases h; rfl
  | broken text => cases h; rfl
  | bytes octets => cases h; rfl
  | nan which => cases h; rfl
  | tuple items =>
      rw [key?] at h
      obtain ⟨ks, -, rfl⟩ := Option.map_eq_some_iff.mp h
      exact ⟨items, rfl⟩
  | _ =>
      simp only [key?] at h
      rcases hplain _ h with ⟨m, rfl⟩ | ⟨q, rfl⟩ <;> exact h

/-- Two values that are not of one kind of their own stand for the same only as dates or numbers. -/
theorem exists_key?_iff (hnull : a = .null → b = .null → False)
    (htext : ∀ s t, a = .str s → b = .str t → False)
    (hbroken : ∀ s t, a = .broken s → b = .broken t → False)
    (hoctets : ∀ s t, a = .bytes s → b = .bytes t → False)
    (hnan : ∀ m n, a = .nan m → b = .nan n → False)
    (htuple : ∀ xs ys, a = .tuple xs → b = .tuple ys → False) :
    (∃ k, a.key? = some k ∧ b.key? = some k) ↔ ∃ k, a.plainKey? = some k ∧ b.plainKey? = some k := by
  constructor
  · rintro ⟨k, ha, hb⟩
    have ha' := kind_of_key? ha
    have hb' := kind_of_key? hb
    cases k with
    | null => exact (hnull ha' hb').elim
    | text s => exact (htext _ _ ha' hb').elim
    | broken text => exact (hbroken _ _ ha' hb').elim
    | octets octets => exact (hoctets _ _ ha' hb').elim
    | nan which => exact (hnan _ _ ha' hb').elim
    | tuple ks =>
        obtain ⟨xs, hxs⟩ := ha'
        obtain ⟨ys, hys⟩ := hb'
        exact (htuple _ _ hxs hys).elim
    | moment m => exact ⟨_, ha', hb'⟩
    | amount q => exact ⟨_, ha', hb'⟩
  · rintro ⟨k, ha, hb⟩
    exact ⟨k, key?_of_plainKey? ha, key?_of_plainKey? hb⟩

/-- Dates are compared as moments. -/
theorem exists_plainKey?_of_dates {s t : Timestamp} (ha : a.date? = some s) (hb : b.date? = some t) :
    (∃ k, a.plainKey? = some k ∧ b.plainKey? = some k) ↔ s.same t = true := by
  simp only [plainKey?, ha, hb, Option.some.injEq, exists_eq_left', Key.moment.injEq, Timestamp.same_iff]
  exact eq_comm

/-- Where not both are dates, they are compared as numbers. -/
theorem exists_plainKey?_of_not_dates (h : ∀ s t, a.date? = some s → b.date? = some t → False) :
    (∃ k, a.plainKey? = some k ∧ b.plainKey? = some k) ↔ compareNumbers? a b = some .eq := by
  have hnumbers := compareNumbers?_eq_iff a b
  unfold plainKey?
  cases ha : a.date? with
  | some s =>
      rw [amount?_of_date ha] at hnumbers
      cases hb : b.date? with
      | some t => exact (h s t ha hb).elim
      | none => simp [hnumbers]
  | none =>
      cases hb : b.date? with
      | some t =>
          rw [amount?_of_date hb] at hnumbers
          simp [hnumbers]
      | none => simp [hnumbers]

/-- The two sides of the recursion through tuples. -/
theorem same_iff_and_sameItems_iff :
    (∀ a b : Value, b.canBeKey = true → (a.same b = true ↔ ∃ k, a.key? = some k ∧ b.key? = some k)) ∧
      (∀ _ _ : List (Value × Value), True) ∧
      ∀ xs ys : List Value, canAllBeKeys ys = true →
        (sameItems xs ys = true ↔ ∃ ks, keys? xs = some ks ∧ keys? ys = some ks) := by
  refine same.mutual_induct_unfolding
    (fun a b answer => b.canBeKey = true → (answer = true ↔ ∃ k, a.key? = some k ∧ b.key? = some k))
    (fun _ _ _ => True)
    (fun xs ys answer => canAllBeKeys ys = true →
      (answer = true ↔ ∃ ks, keys? xs = some ks ∧ keys? ys = some ks))
    ?null ?text ?broken ?octets ?nan ?list ?tuple ?record ?dates ?others ?nil ?cons ?lengths ?none ?entry
  case null => simp [key?]
  case text =>
    intro s t _
    simp only [key?, beq_iff_eq, Option.some.injEq, exists_eq_left', Key.text.injEq]
    exact eq_comm
  case broken =>
    intro s t _
    simp only [key?, beq_iff_eq, Option.some.injEq, exists_eq_left', Key.broken.injEq]
    exact eq_comm
  case octets =>
    intro s t _
    simp only [key?, beq_iff_eq, Option.some.injEq, exists_eq_left', Key.octets.injEq]
    exact eq_comm
  case nan =>
    intro m n _
    simp only [key?, beq_iff_eq, Option.some.injEq, exists_eq_left', Key.nan.injEq]
    exact eq_comm
  case list =>
    intro xs ys _ h
    cases h
  case tuple =>
    intro xs ys ih h
    rw [canBeKey] at h
    simp [key?, ih h]
  case record =>
    intro es fs _ h
    cases h
  case dates =>
    intro a b hnull htext hbroken hoctets hnan _ htuple _ s t hb ha _
    rw [exists_key?_iff hnull htext hbroken hoctets hnan htuple, exists_plainKey?_of_dates ha hb]
  case others =>
    intro a b hnull htext hbroken hoctets hnan _ htuple _ hdates _
    rw [exists_key?_iff hnull htext hbroken hoctets hnan htuple, exists_plainKey?_of_not_dates hdates, beq_iff_eq]
  case nil => simp [keys?]
  case cons =>
    intro x xs y ys hfirst hrest h
    rw [canAllBeKeys, Bool.and_eq_true] at h
    rw [Bool.and_eq_true, hfirst h.1, hrest h.2]
    simp only [keys?]
    cases x.key? <;> cases y.key? <;> cases keys? xs <;> cases keys? ys <;> simp
  case lengths =>
    intro xs ys hnil hcons _
    cases xs with
    | nil =>
        cases ys with
        | nil => exact (hnil rfl rfl).elim
        | cons y ys =>
            simp only [keys?]
            cases y.key? <;> cases keys? ys <;> simp
    | cons x xs =>
        cases ys with
        | nil =>
            simp only [keys?]
            cases x.key? <;> cases keys? xs <;> simp
        | cons y ys => exact (hcons _ _ _ _ rfl rfl).elim
  case none => exact fun _ => trivial
  case entry => exact fun _ _ _ _ _ _ _ => trivial

/-- **Values are the same exactly if they stand for the same**, where one of them can be a key. -/
theorem same_iff (hb : b.canBeKey = true) :
    a.same b = true ↔ ∃ k, a.key? = some k ∧ b.key? = some k :=
  same_iff_and_sameItems_iff.1 a b hb

/-! ### Records under keys -/

/-- Keys that are the same are the same as the same values. -/
theorem same_congr (ha : a.canBeKey = true) (hb : b.canBeKey = true) (h : a.same b = true) (v : Value) :
    v.same a = v.same b := by
  obtain ⟨k, hak, hbk⟩ := (same_iff hb).mp h
  rw [Bool.eq_iff_iff, same_iff ha, same_iff hb, hak, hbk]

/-- **A record holds under a key what it holds under any that is the same.** -/
theorem lookup?_congr (ha : a.canBeKey = true) (hb : b.canBeKey = true) (h : a.same b = true)
    (entries : List (Value × Value)) : lookup? entries a = lookup? entries b := by
  unfold lookup?
  simp only [same_congr ha hb h]

end Value

end Scorecard
