/-
The breakdown shares out the answers.

Each answer goes to the question that it names, and to none but that.  So the answers of the
questions, one question after the other, are the answers of the session in another order.

Doubles do not add up to the same in another order, but whole numbers do as long as every sum on
the way is a double, and up to `2 ^ 53` all of them are.  The sum of the magnitudes bounds every
sum on the way, in whatever order and in whatever groups they are added up.
-/
import Mathlib.Algebra.Order.BigOperators.Group.List
import Scorecard.Proofs.Number.Exact
import Scorecard.Proofs.Score.Sums

namespace Scorecard

/-! ### Whole numbers added up -/

namespace Binary64

theorem representable_intCast {n : ℤ} (h : |n| ≤ 2 ^ 53) : Representable n := by
  have hmagnitude : rational (decide (n < 0)) n.natAbs 0 = n := by
    by_cases hneg : n < 0
    · have habs : (n.natAbs : ℚ) = -n := by
        rw [Nat.cast_natAbs, abs_of_neg hneg, Int.cast_neg]
      rw [rational, decide_eq_true hneg, if_pos rfl, habs]
      simp
    · have habs : (n.natAbs : ℚ) = n := by
        rw [Nat.cast_natAbs, abs_of_nonneg (not_lt.mp hneg)]
      rw [rational, decide_eq_false hneg, if_neg Bool.false_ne_true, habs]
      simp
  rw [← hmagnitude]
  by_cases hsmall : n.natAbs < 2 ^ 53
  · exact representable_of_fits _ hsmall (by decide) (by decide)
  · -- the bound itself has one bit more than a mantissa, but it is even
    rw [Int.abs_eq_natAbs] at h
    have hbound : n.natAbs = 2 ^ 53 := by omega
    have hhalved : rational (decide (n < 0)) (2 ^ 53) 0 = rational (decide (n < 0)) (2 ^ 52) 1 := by
      unfold rational
      split <;> norm_num
    rw [hbound, hhalved]
    exact representable_of_fits _ (by norm_num) (by decide) (by decide)

end Binary64

section

open Binary64

variable {α : Type} {items : List α} {value : α → Float} {whole : α → ℤ}

theorem abs_sum_map_le (items : List α) (whole : α → ℤ) :
    |(items.map whole).sum| ≤ (items.map fun a => |whole a|).sum := by
  have hle := List.le_sum_of_subadditive (fun n : ℤ => |n|) abs_zero.le abs_add_le (items.map whole)
  rwa [List.map_map] at hle

/-- **Whole numbers are added up exactly** while their magnitudes add up to `2 ^ 53` at most. -/
theorem amount?_addUp (h : ∀ a ∈ items, amount? (value a) = some (.rational (whole a)))
    (hbound : (items.map fun a => |whole a|).sum ≤ 2 ^ 53) :
    amount? (addUp (items.map value)) = some (.rational ((items.map whole).sum : ℤ)) := by
  induction items using List.reverseRecOn with
  | nil =>
      have hzero : decode 0.0 = .finite false 0 (-1074) := by rfl
      rw [List.map_nil, List.map_nil, List.sum_nil, Int.cast_zero, ← rational_zero false (-1074)]
      exact amount?_of_decode hzero
  | append_singleton items a ih =>
      rw [List.forall_mem_append, List.forall_mem_singleton] at h
      have hsum : ((items ++ [a]).map whole).sum = (items.map whole).sum + whole a := by simp
      have hbefore : (items.map fun a => |whole a|).sum ≤ 2 ^ 53 := by
        rw [List.map_append, List.sum_append, List.map_singleton, List.sum_singleton] at hbound
        have hnonneg := abs_nonneg (whole a)
        omega
      have hfits : |(items.map whole).sum + whole a| ≤ 2 ^ 53 :=
        hsum ▸ (abs_sum_map_le (items ++ [a]) whole).trans hbound
      have hexact := representable_intCast hfits
      rw [Int.cast_add] at hexact
      rw [List.map_append, List.map_singleton, addUp_concat, hsum, Int.cast_add]
      exact amount?_add (ih h.1 hbefore) h.2 hexact

/-- Added up in groups, the sums are those of the whole list. -/
theorem sum_map_flatMap {β : Type} (groups : List β) (members : β → List α) (whole : α → ℤ) :
    ((groups.flatMap members).map whole).sum = (groups.map fun g => ((members g).map whole).sum).sum := by
  induction groups with
  | nil => rfl
  | cons g groups ih => rw [List.flatMap_cons, List.map_append, List.sum_append, ih, List.map_cons, List.sum_cons]

end

/-! ### Sharing out -/

/-- What is shared out by distinct keys is there exactly once. -/
theorem perm_flatMap_filter {α : Type} {keys : List String} (hkeys : keys.Nodup) (key : α → String)
    (items : List α) :
    (keys.flatMap fun k => items.filter (key · == k)).Perm (items.filter fun a => keys.contains (key a)) := by
  induction keys with
  | nil => simp
  | cons k keys ih =>
      obtain ⟨hnew, hkeys⟩ := List.nodup_cons.mp hkeys
      have hhere : (items.filter fun a => (k :: keys).contains (key a)).filter (key · == k) =
          items.filter (key · == k) := by
        rw [List.filter_filter]
        refine List.filter_congr fun a _ => ?_
        by_cases hk : key a = k <;> simp [hk]
      have hrest : (items.filter fun a => (k :: keys).contains (key a)).filter (fun a => !(key a == k)) =
          items.filter fun a => keys.contains (key a) := by
        rw [List.filter_filter]
        refine List.filter_congr fun a _ => ?_
        by_cases hk : key a = k
        · simp [hk, hnew]
        · simp [hk]
      have hsplit := List.filter_append_perm (key · == k) (items.filter fun a => (k :: keys).contains (key a))
      rw [hhere, hrest] at hsplit
      rw [List.flatMap_cons]
      exact ((ih hkeys).append_left _).trans hsplit

/-! ### Questions -/

/-- The name of an answer's question; without one it is empty. -/
def AnswerScore.questionName (a : AnswerScore) : String :=
  match a.question with
  | .str name => name
  | _ => ""

namespace SessionScore

/-- The names of the questions that were answered, each where it first appears. -/
def questionNames (s : SessionScore) : List String :=
  (s.answers.map (·.questionName)).eraseDups

/-- The answers to a question, in the order of the session. -/
def answersTo (s : SessionScore) (name : String) : List AnswerScore :=
  s.answers.filter (·.questionName == name)

/-- What the answers to a question add up to. -/
def subtotalOf (s : SessionScore) (name : String) : Float :=
  addUp ((s.answersTo name).map (·.value))

variable {s : SessionScore} {a : AnswerScore} {name : String}

theorem groupOf_question (h : a.question.IsTextOrNull) : groupOf a.question = .str a.questionName := by
  unfold groupOf AnswerScore.questionName
  rcases h with hnull | ⟨text, htext⟩
  · rw [hnull]
    rfl
  · rw [htext]
    by_cases hempty : text = ""
    · rw [hempty]
      rfl
    · have hfilled : ¬ Value.isEmpty (.str text) = true := by
        show ¬ text.isEmpty = true
        rwa [String.isEmpty_iff]
      rw [if_neg hfilled]

theorem mem_questionNames_iff : name ∈ s.questionNames ↔ ∃ a ∈ s.answers, a.questionName = name := by
  rw [questionNames, List.mem_eraseDups, List.mem_map]

/-- The groups of the breakdown are the names of the questions. -/
theorem groups_eq (h : ∀ a ∈ s.answers, a.question.IsTextOrNull) :
    s.groups = s.questionNames.map .str := by
  have hnames : (s.answers.map fun a => groupOf a.question) = (s.answers.map (·.questionName)).map .str := by
    rw [List.map_map]
    exact List.map_congr_left fun a ha => groupOf_question (h a ha)
  rw [groups, hnames, Value.distinct_texts, questionNames]

theorem scoresOf_eq (h : ∀ a ∈ s.answers, a.question.IsTextOrNull) (name : String) :
    s.scoresOf (.str name) = (s.answersTo name).map (·.value) := by
  have hfilter : (s.answers.filter fun a => (groupOf a.question).same (.str name)) = s.answersTo name := by
    refine List.filter_congr fun a ha => ?_
    rw [groupOf_question (h a ha), Bool.eq_iff_iff, Value.same_text_iff (Value.isText_str name), beq_iff_eq,
      Value.str.injEq]
  rw [scoresOf, hfilter]

theorem nodup_questionNames (s : SessionScore) : s.questionNames.Nodup :=
  Value.nodup_eraseDups _

/-- The answers to all questions are the answers of the session. -/
theorem perm_answersTo (s : SessionScore) : (s.questionNames.flatMap s.answersTo).Perm s.answers := by
  have hall : (s.answers.filter fun a => s.questionNames.contains a.questionName) = s.answers := by
    refine List.filter_eq_self.mpr fun a ha => ?_
    rw [List.contains_iff_mem]
    exact mem_questionNames_iff.mpr ⟨a, ha, rfl⟩
  have hperm := perm_flatMap_filter s.nodup_questionNames (·.questionName) s.answers
  rwa [hall] at hperm

/-! ### Whole values -/

section

open Binary64

variable {whole : AnswerScore → ℤ}

/-- The subtotals of whole values are exact. -/
theorem amount?_subtotalOf (h : ∀ a ∈ s.answers, amount? a.value = some (.rational (whole a)))
    (hbound : (s.answers.map fun a => |whole a|).sum ≤ 2 ^ 53) (name : String) :
    amount? (s.subtotalOf name) = some (.rational (((s.answersTo name).map whole).sum : ℤ)) := by
  have hsublist : (s.answersTo name).Sublist s.answers := List.filter_sublist
  have hless : ((s.answersTo name).map fun a => |whole a|).sum ≤ (s.answers.map fun a => |whole a|).sum := by
    refine (hsublist.map _).sum_le_sum fun n hn => ?_
    obtain ⟨a, -, rfl⟩ := List.mem_map.mp hn
    exact abs_nonneg _
  exact amount?_addUp (fun a ha => h a (hsublist.subset ha)) (hless.trans hbound)

/-- The subtotals of whole values add up exactly. -/
theorem amount?_addUp_subtotals (h : ∀ a ∈ s.answers, amount? a.value = some (.rational (whole a)))
    (hbound : (s.answers.map fun a => |whole a|).sum ≤ 2 ^ 53) {names : List String}
    (hnames : names.Perm s.questionNames) :
    amount? (addUp (names.map s.subtotalOf)) = some (.rational ((s.answers.map whole).sum : ℤ)) := by
  have hshared : (names.flatMap s.answersTo).Perm s.answers := (hnames.flatMap_right _).trans s.perm_answersTo
  have hsum : (names.map fun name => ((s.answersTo name).map whole).sum).sum = (s.answers.map whole).sum := by
    rw [← sum_map_flatMap]
    exact (hshared.map whole).sum_eq
  rw [← hsum]
  refine amount?_addUp (fun name _ => amount?_subtotalOf h hbound name) ?_
  calc (names.map fun name => |((s.answersTo name).map whole).sum|).sum
      ≤ (names.map fun name => ((s.answersTo name).map fun a => |whole a|).sum).sum :=
        List.sum_le_sum fun name _ => abs_sum_map_le _ _
    _ = (s.answers.map fun a => |whole a|).sum := by
        rw [← sum_map_flatMap]
        exact (hshared.map _).sum_eq
    _ ≤ 2 ^ 53 := hbound

end

/-! ### The breakdown -/

/-- **The breakdown shares out the session.**  It has the name of each question that was answered
once, in the order in which they first appear, so that the names that some first answers have come
first.  Under each of them stands what its answers add up to from zero on, in the order of the
session, and the answers to all of them are the answers of the session, none dropped and none taken
twice.  Where all values are whole and their magnitudes add up to `2 ^ 53` at most, the total and
the subtotals are exact, and the subtotals add up to the total in any order. -/
theorem breakdown_shares (s : SessionScore) (h : ∀ a ∈ s.answers, a.question.IsTextOrNull) :
    s.breakdown = .ok (s.questionNames.map fun name => (.str name, s.subtotalOf name)) ∧
    (s.questionNames.Nodup ∧ ∀ name, name ∈ s.questionNames ↔ ∃ a ∈ s.answers, a.questionName = name) ∧
    (∀ first others, s.answers = first ++ others →
      questionNames ⟨first, s.sessionId⟩ <+: s.questionNames) ∧
    (s.questionNames.flatMap s.answersTo).Perm s.answers ∧
    ∀ whole : AnswerScore → ℤ, (∀ a ∈ s.answers, Binary64.amount? a.value = some (.rational (whole a))) →
      (s.answers.map fun a => |whole a|).sum ≤ 2 ^ 53 →
        Binary64.amount? s.total = some (.rational ((s.answers.map whole).sum : ℤ)) ∧
        (∀ name, Binary64.amount? (s.subtotalOf name) =
          some (.rational (((s.answersTo name).map whole).sum : ℤ))) ∧
        ∀ names : List String, names.Perm s.questionNames → (addUp (names.map s.subtotalOf) == s.total) = true := by
  refine ⟨?_, ⟨s.nodup_questionNames, fun name => mem_questionNames_iff⟩, ?_, s.perm_answersTo, ?_⟩
  · rw [s.breakdown_eq h, subtotals, groups_eq h, List.map_map]
    refine congrArg _ (List.map_congr_left fun name _ => ?_)
    rw [Function.comp_apply, scoresOf_eq h, subtotalOf]
  · intro first others hanswers
    rw [questionNames, questionNames, hanswers, List.map_append, List.eraseDups_append]
    exact List.prefix_append _ _
  · intro whole hwhole hbound
    have htotal := amount?_addUp hwhole hbound
    exact ⟨htotal, amount?_subtotalOf hwhole hbound, fun names hnames =>
      Binary64.beq_iff.mpr ⟨_, amount?_addUp_subtotals hwhole hbound hnames, htotal⟩⟩

/-- Two questions in turn, one of them answered twice, and between them answers without a question
and with an empty one.  The magnitudes add up to the bound. -/
def interleaved : SessionScore :=
  ⟨[⟨.str "x", [], 3, .str "B", .null⟩, ⟨.str "x", [], -5, .null, .null⟩, ⟨.str "x", [], 4, .str "A", .null⟩,
    ⟨.str "x", [], -2, .str "B", .null⟩, ⟨.str "x", [], 9007199254740978, .str "", .null⟩], .null⟩

/-- The theorem for that session. -/
theorem breakdown_shares_interleaved :
    (∀ a ∈ interleaved.answers, a.question.IsTextOrNull) ∧
    interleaved.breakdown = .ok [(.str "B", addUp [3, -2]), (.str "", addUp [-5, 9007199254740978]),
      (.str "A", addUp [4])] ∧
    Binary64.amount? interleaved.total = some (.rational ((9007199254740978 : ℤ) : ℚ)) ∧
    (addUp (interleaved.questionNames.map interleaved.subtotalOf) == interleaved.total) = true := by
  have hquestions : ∀ a ∈ interleaved.answers, a.question.IsTextOrNull := by
    simp only [interleaved, List.forall_mem_cons]
    exact ⟨.inr ⟨_, rfl⟩, .inl rfl, .inr ⟨_, rfl⟩, .inr ⟨_, rfl⟩, .inr ⟨_, rfl⟩, by simp⟩
  have hwhole : ∀ a ∈ interleaved.answers,
      Binary64.amount? a.value = some (.rational ((Binary64.toInt? a.value).getD 0 : ℤ)) := by
    have hequal : ∀ a ∈ interleaved.answers,
        Binary64.compareInt? a.value ((Binary64.toInt? a.value).getD 0) = some .eq := by
      decide +kernel
    exact fun a ha => Binary64.compareInt?_eq_iff.mp (hequal a ha)
  have hbound : (interleaved.answers.map fun a => |(Binary64.toInt? a.value).getD 0|).sum ≤ 2 ^ 53 := by
    decide +kernel
  have hsum : (interleaved.answers.map fun a => (Binary64.toInt? a.value).getD 0).sum = 9007199254740978 := by
    decide +kernel
  obtain ⟨hbreakdown, -, -, -, hexact⟩ := interleaved.breakdown_shares hquestions
  obtain ⟨htotal, -, hsubtotals⟩ := hexact _ hwhole hbound
  rw [hsum] at htotal
  exact ⟨hquestions, hbreakdown, htotal, hsubtotals _ (List.Perm.refl _)⟩

end SessionScore

end Scorecard
