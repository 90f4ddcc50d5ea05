/-
The cache is not noticed.

What a cache holds is what parsing gives: each entry is a formula with the tree that the
engine would parse it to.  Looking a formula up, keeping a new one, letting the one used
longest ago fall off and keeping nothing of a formula that fails all preserve that, and
so does a session that ends in the middle.  So after any calls the next one is answered
as by an engine that parses every formula afresh.

The rule of the store is `FormulaCache.used`: a formula that parses goes to the front, the
others keep their order, and as many stay as there is room for.  Whether it was found makes
no difference to that.
-/
import Scorecard.Engine.Cache
import Scorecard.Proofs.Value.Texts

namespace Scorecard

/-! ### Keys -/

namespace Value

/-- A key that stands for a formula is the same as itself only. -/
theorem eq_of_same_formula {a b : Value} {text : String} (hkey : a.canBeKey = true)
    (htext : a.formulaText? = some text) (h : a.same b = true) : a = b := by
  cases a with
  | str s => cases b <;> simp_all [same, date?, surface, compareNumbers?, integer?]
  | broken text => cases b <;> simp_all [same, date?, surface, compareNumbers?, integer?]
  | bytes octets => cases b <;> simp_all [same, date?, surface, compareNumbers?, integer?]
  | tuple items =>
      obtain rfl : items = [] := by
        cases items with
        | nil => rfl
        | cons x xs => cases htext
      cases b with
      | tuple others => cases others <;> simp_all [same, sameItems]
      | _ => simp [same, date?, surface, compareNumbers?, integer?] at h
  | part graph place =>
      -- parts are the same only as dates, and no date is a formula
      unfold formulaText? at htext
      unfold same date? at h
      cases hsurface : (Value.part graph place).surface <;> cases b <;>
        simp_all [compareNumbers?, integer?]
  | list items => cases hkey
  | record entries => cases hkey
  | _ => cases htext

end Value

/-- What parses is a text to the parser, and a key where there is a cache. -/
theorem Engine.of_parse_ok {e : Engine} {formula : Value} {tree : Expr}
    (h : e.parse formula = .ok tree) :
    (0 < e.cacheSize → formula.canBeKey = true) ∧ ∃ text, formula.formulaText? = some text := by
  unfold parse at h
  split at h
  · cases h
  · rename_i hkey
    refine ⟨fun hroom => by simpa [hroom] using hkey, ?_⟩
    unfold Value.parseFormula at h
    split at h
    · rename_i text htext
      exact ⟨text, htext⟩
    · cases h

/-! ### The store -/

namespace FormulaCache

/-- The cache holds what its formulas parse to, none of them twice, and no more of them
than there is room for. -/
structure Holds (e : Engine) (cache : FormulaCache) : Prop where
  fresh : ∀ entry ∈ cache, e.parse entry.1 = .ok entry.2
  distinct : cache.Pairwise fun a b => a.1.same b.1 = false
  room : cache.length ≤ e.cacheSize.toNat

/-- The cache after a formula was used: in front of the others if it parses. -/
def used (e : Engine) (cache : FormulaCache) (formula : Value) : FormulaCache :=
  match e.parse formula with
  | .ok tree =>
    ((formula, tree) :: cache.filter fun entry => !entry.1.same formula).take e.cacheSize.toNat
  | .error _ => cache

variable {e : Engine} {cache : FormulaCache} {formula : Value}

theorem holds_nil (e : Engine) : Holds e [] :=
  ⟨by simp, .nil, Nat.zero_le _⟩

/-- An entry that is found is that of the formula. -/
theorem Holds.eq_of_same (h : Holds e cache) {entry : Value × Expr} (hmem : entry ∈ cache)
    (hsame : entry.1.same formula = true) : entry.1 = formula := by
  have hroom : 0 < e.cacheSize := by
    have hlength := h.room
    have hpos := List.length_pos_of_mem hmem
    omega
  obtain ⟨hkey, text, htext⟩ := Engine.of_parse_ok (h.fresh entry hmem)
  exact Value.eq_of_same_formula (hkey hroom) htext hsame

/-- Taking out the entry that is found takes out all that the formula has. -/
theorem Holds.eraseP_eq_filter (h : Holds e cache) :
    cache.eraseP (fun entry => entry.1.same formula) =
      cache.filter fun entry => !entry.1.same formula := by
  have hdistinct := h.distinct
  have hsame : ∀ entry ∈ cache, entry.1.same formula = true → entry.1 = formula :=
    fun _ hmem => h.eq_of_same hmem
  clear h
  induction cache with
  | nil => rfl
  | cons entry rest ih =>
      rw [List.pairwise_cons] at hdistinct
      rw [List.forall_mem_cons] at hsame
      cases hentry : entry.1.same formula with
      | false =>
          rw [List.eraseP_cons, List.filter_cons, hentry, ih hdistinct.2 hsame.2]
          rfl
      | true =>
          have hothers : ∀ other ∈ rest, (!other.1.same formula) = true := by
            intro other hother
            have hapart := hdistinct.1 other hother
            cases hfound : other.1.same formula with
            | false => rfl
            | true =>
                rw [hsame.2 other hother hfound, hentry] at hapart
                cases hapart
          rw [List.eraseP_cons, List.filter_cons, hentry, List.filter_eq_self.mpr hothers]
          rfl

/-- What is used is kept in front, and the cache still holds what it should. -/
theorem Holds.used (h : Holds e cache) (formula : Value) : Holds e (cache.used e formula) := by
  unfold FormulaCache.used
  split
  · rename_i tree htree
    refine ⟨fun entry hentry => ?_, ?_, List.length_take_le _ _⟩
    · rcases List.mem_cons.mp (List.mem_of_mem_take hentry) with rfl | hkept
      · exact htree
      · exact h.fresh entry (List.mem_of_mem_filter hkept)
    · by_cases hroom : 0 < e.cacheSize
      · refine (List.pairwise_cons.mpr ⟨fun entry hkept => ?_, h.distinct.filter _⟩).sublist
          (List.take_sublist _ _)
        have hother : entry.1.same formula = false := by
          simpa using List.of_mem_filter hkept
        obtain ⟨hkey, text, htext⟩ := Engine.of_parse_ok htree
        cases hsame : formula.same entry.1 with
        | false => rfl
        | true =>
            have hformula := Value.eq_of_same_formula (hkey hroom) htext hsame
            rw [← hformula] at hsame hother
            exact hsame.symm.trans hother
      · rw [show e.cacheSize.toNat = 0 by omega, List.take_zero]
        exact .nil
  · exact h

end FormulaCache

/-! ### Steps that use the cache -/

namespace Engine

variable {e : Engine} {cache : FormulaCache}

/-- **A formula has the tree it is parsed to, found or not**, and was used. -/
theorem parseKept_eq (h : cache.Holds e) (formula : Value) :
    e.parseKept cache formula = (e.parse formula, cache.used e formula) := by
  unfold parseKept FormulaCache.used
  by_cases hroom : e.cacheSize ≤ 0
  · obtain rfl : cache = [] := by
      have hlength := h.room
      rw [show e.cacheSize.toNat = 0 by omega] at hlength
      exact List.length_eq_zero_iff.mp (Nat.le_zero.mp hlength)
    rw [if_pos hroom, show e.cacheSize.toNat = 0 by omega]
    cases e.parse formula <;> rfl
  · rw [if_neg hroom]
    cases hfind : cache.find? (·.1.same formula) with
    | some entry =>
        obtain ⟨key, tree⟩ := entry
        have hmem := List.mem_of_find?_eq_some hfind
        have hsame : key.same formula = true := by simpa using List.find?_some hfind
        obtain rfl : key = formula := h.eq_of_same hmem hsame
        -- one entry was taken out, so the one put in front has its room
        have hlength : (cache.eraseP (·.1.same key)).length + 1 ≤ e.cacheSize.toNat := by
          have hroom := h.room
          have hpos := List.length_pos_of_mem hmem
          rw [List.length_eraseP_of_mem hmem hsame]
          omega
        rw [h.fresh _ hmem, ← h.eraseP_eq_filter]
        simp only
        rw [List.take_of_length_le hlength]
    | none =>
        have hothers : cache.filter (fun entry => !entry.1.same formula) = cache := by
          rw [List.filter_eq_self]
          simpa using hfind
        cases e.parse formula with
        | error f => rfl
        | ok tree => simp only [hothers]

/-- The step has this outcome, and the cache behind it holds what it should. -/
structure Unnoticed {α : Type} (e : Engine) (outcome : α) (step : α × FormulaCache) : Prop where
  outcome_eq : step.1 = outcome
  holds : step.2.Holds e

/-- A step that can fail does so with the outcome, and what follows it has the cache behind it. -/
theorem Unnoticed.error_or_ok {α ε : Type} {outcome : Except ε α} {step : Except ε α × FormulaCache}
    (h : Unnoticed e outcome step) :
    (∃ f after, outcome = .error f ∧ step = (.error f, after) ∧ FormulaCache.Holds e after) ∨
      ∃ a after, outcome = .ok a ∧ step = (.ok a, after) ∧ FormulaCache.Holds e after := by
  obtain ⟨result, after⟩ := step
  obtain ⟨rfl, hholds⟩ := h
  cases result with
  | error f => exact .inl ⟨f, after, rfl, rfl, hholds⟩
  | ok a => exact .inr ⟨a, after, rfl, rfl, hholds⟩

theorem parseKept_unnoticed (h : cache.Holds e) (formula : Value) :
    Unnoticed e (e.parse formula) (e.parseKept cache formula) := by
  rw [parseKept_eq h]
  exact ⟨rfl, h.used formula⟩

theorem evaluateKept_unnoticed (h : cache.Holds e) (formula : Value) (bindings : Bindings) :
    Unnoticed e (e.evaluate formula bindings) (e.evaluateKept cache formula bindings) := by
  unfold evaluateKept evaluate
  rcases (parseKept_unnoticed h formula).error_or_ok with ⟨f, after, houtcome, hstep, hafter⟩ |
    ⟨tree, after, houtcome, hstep, hafter⟩
  · rw [houtcome, hstep]
    exact ⟨rfl, hafter⟩
  · rw [houtcome, hstep]
    exact ⟨rfl, hafter⟩

theorem scoreItemKept_unnoticed (h : cache.Holds e) (item : Item) :
    Unnoticed e (e.scoreItem item) (e.scoreItemKept cache item) := by
  unfold scoreItemKept scoreItem
  cases prepare item with
  | error f => exact ⟨rfl, h⟩
  | ok prepared =>
      obtain ⟨formula, bindings, question⟩ := prepared
      simp only
      rcases (evaluateKept_unnoticed h formula bindings).error_or_ok with
        ⟨f, after, houtcome, hstep, hafter⟩ | ⟨value, after, houtcome, hstep, hafter⟩
      · rw [houtcome, hstep]
        exact ⟨rfl, hafter⟩
      · rw [houtcome, hstep]
        exact ⟨rfl, hafter⟩

/-- Item by item, and a session that fails leaves what its items up to there have left. -/
theorem scoreFromKept_unnoticed (h : cache.Holds e) (index : Nat) (items : List Item) :
    Unnoticed e (e.scoreFrom index items) (e.scoreFromKept cache index items) := by
  induction items generalizing cache index with
  | nil => exact ⟨rfl, h⟩
  | cons item rest ih =>
      rw [scoreFromKept, scoreFrom]
      rcases (scoreItemKept_unnoticed h item).error_or_ok with ⟨f, after, houtcome, hstep, hafter⟩ |
        ⟨score, after, houtcome, hstep, hafter⟩
      · rw [houtcome, hstep]
        exact ⟨rfl, hafter⟩
      · rw [houtcome, hstep]
        simp only
        rcases (ih hafter (index + 1)).error_or_ok with ⟨f, last, houtcome, hstep, hlast⟩ |
          ⟨scores, last, houtcome, hstep, hlast⟩
        · rw [houtcome, hstep]
          exact ⟨rfl, hlast⟩
        · rw [houtcome, hstep]
          exact ⟨rfl, hlast⟩

theorem scoreItemsKept_unnoticed (h : cache.Holds e) (items : List Item) (sessionId : Value) :
    Unnoticed e (e.scoreItems items sessionId) (e.scoreItemsKept cache items sessionId) := by
  unfold scoreItemsKept scoreItems
  rcases (scoreFromKept_unnoticed h 0 items).error_or_ok with ⟨f, after, houtcome, hstep, hafter⟩ |
    ⟨answers, after, houtcome, hstep, hafter⟩
  · rw [houtcome, hstep]
    exact ⟨rfl, hafter⟩
  · rw [houtcome, hstep]
    exact ⟨rfl, hafter⟩

end Engine

end Scorecard
