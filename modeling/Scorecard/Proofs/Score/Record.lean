/-
A score read back from its record.

What JSON keeps of a score's record has its fields, and the bindings of each answer, in
the order of their keys.  Fields are asked for by name, so their order does not
matter; the bindings stay in that order, and that is all that changes.  The values are
the same doubles in the same places, so they add up to the same total, and the check
of the stored total passes because a finite double equals itself.

`Sealable` says what a score must be made of: texts where the types promise texts, and
finite doubles.  The type of scores does not say so, since a score that was never
checked can hold anything.
-/
import Scorecard.Score.Record
import Scorecard.Proofs.Json.Writing
import Scorecard.Proofs.Number.Bits

namespace Scorecard

open Value Json

/-! ### Scores that can be sealed -/

/-- A text or null. -/
def Value.IsTextOrNull (v : Value) : Prop :=
  v = .null ∨ ∃ text, v = .str text

/-- An answer's score whose texts are texts and whose numbers are finite doubles. -/
structure AnswerScore.Sealable (a : AnswerScore) : Prop where
  formula : ∃ text, a.formula = .str text
  question : a.question.IsTextOrNull
  answerId : a.answerId.IsTextOrNull
  value : Binary64.isFinite a.value = true
  /-- Bindings map texts to finite doubles. -/
  bindings : ∀ b ∈ a.bindings, (∃ name, b.1 = .str name) ∧
    ∃ x, b.2 = .float x ∧ Binary64.isFinite x = true
  /-- Bindings are a record: no name is bound twice. -/
  distinct : a.bindings.Pairwise fun b c => b.1.same c.1 = false

/-- A session's score whose answers are such, and whose total is finite. -/
structure SessionScore.Sealable (s : SessionScore) : Prop where
  answers : ∀ a ∈ s.answers, a.Sealable
  sessionId : s.sessionId.IsTextOrNull
  total : Binary64.isFinite s.total = true

/-- The same score of an answer: the same formula, question and id, the same double, and
the same bindings, in any order. -/
structure AnswerScore.Equals (a b : AnswerScore) : Prop where
  formula : a.formula = b.formula
  bindings : a.bindings.Perm b.bindings
  value : a.value = b.value
  question : a.question = b.question
  answerId : a.answerId = b.answerId

/-- The same score of a session: the same id, and the same scores of answers in order. -/
structure SessionScore.Equals (s t : SessionScore) : Prop where
  answers : List.Forall₂ AnswerScore.Equals s.answers t.answers
  sessionId : s.sessionId = t.sessionId

/-! ### Fields -/

namespace Value

variable {fields : List (String × Value)} {name : String} {v : Value}

/-- A field is found where no name is there twice. -/
theorem field_of_mem (hnames : (fields.map Prod.fst).Nodup) (h : (name, v) ∈ fields) :
    field? (ofFields fields) name = some v := by
  induction fields with
  | nil => exact absurd h List.not_mem_nil
  | cons f rest ih =>
      rw [List.map_cons, List.nodup_cons] at hnames
      unfold field? lookup?
      show (List.find? _ ((.str f.1, f.2) :: ofFields rest)).map _ = _
      rcases List.mem_cons.mp h with rfl | hmem
      · rw [List.find?_cons_of_pos (by simp)]
        rfl
      · have hne : f.1 ≠ name := by
          rintro rfl
          exact hnames.1 (List.mem_map.mpr ⟨_, hmem, rfl⟩)
        rw [List.find?_cons_of_neg (by simpa using hne)]
        exact ih hnames.2 hmem

theorem fieldOr_of_mem (hnames : (fields.map Prod.fst).Nodup) (h : (name, v) ∈ fields)
    (default : Value) : fieldOr (ofFields fields) name default = v := by
  rw [fieldOr, field_of_mem hnames h]
  rfl

/-- A field is found in what is kept of a record. -/
theorem field_kept (hnames : (fields.map Prod.fst).Nodup) (h : (name, v) ∈ fields) :
    field? (ofFields ((sortByKey fields).map keptField)) name = some v.kept := by
  have hperm := sortByKey_perm fields
  refine field_of_mem ?_ (List.mem_map.mpr ⟨(name, v), hperm.mem_iff.mpr h, rfl⟩)
  rw [List.map_map]
  exact (hperm.map Prod.fst).nodup_iff.mpr hnames

theorem IsTextOrNull.isJson (h : v.IsTextOrNull) : v.IsJson := by
  rcases h with rfl | ⟨text, rfl⟩
  · exact .null
  · exact .str text

theorem IsTextOrNull.wellKeyed (h : v.IsTextOrNull) : v.WellKeyed := by
  rcases h with rfl | ⟨text, rfl⟩
  · exact .null
  · exact .str text

theorem IsTextOrNull.kept (h : v.IsTextOrNull) : v.kept = v := by
  rcases h with rfl | ⟨text, rfl⟩
  · rfl
  · rfl

end Value

/-! ### Answers -/

namespace AnswerScore

/-- The fields of an answer's record. -/
def fields (a : AnswerScore) : List (String × Value) :=
  [("answer_id", a.answerId), ("question", a.question), ("formula", a.formula),
   ("bindings", .record a.bindings), ("value", .float a.value)]

theorem nodup_fields (a : AnswerScore) : (a.fields.map Prod.fst).Nodup := by
  show ["answer_id", "question", "formula", "bindings", "value"].Nodup
  decide

theorem toValue_eq (a : AnswerScore) : a.toValue = .record (ofFields a.fields) := rfl

/-- An answer's score with its bindings in the order of their names. -/
def settled (a : AnswerScore) : AnswerScore :=
  { a with bindings := ofFields (sortByKey (fieldsKept a.bindings)) }

variable {a : AnswerScore}

/-- Bindings as entries under texts, whose values are finite doubles. -/
theorem Sealable.exists_bindings (h : a.Sealable) : ∃ bound : List (String × Value),
    a.bindings = ofFields bound ∧ (bound.map Prod.fst).Nodup ∧
      ∀ b ∈ bound, ∃ x, b.2 = .float x ∧ Binary64.isFinite x = true := by
  obtain ⟨bound, hbound⟩ := exists_ofFields fun b hb => (h.bindings b hb).1
  refine ⟨bound, hbound, ?_, ?_⟩
  · have hdistinct := h.distinct
    rw [hbound] at hdistinct
    exact pairwise_ofFields.mp hdistinct
  · intro b hb
    refine (h.bindings (.str b.1, b.2) ?_).2
    rw [hbound]
    exact mem_ofFields.mpr hb

/-- Doubles are kept as they are. -/
private theorem map_keptField_of_floats {bound : List (String × Value)}
    (h : ∀ b ∈ bound, ∃ x, b.2 = .float x ∧ Binary64.isFinite x = true) :
    bound.map keptField = bound := by
  induction bound with
  | nil => rfl
  | cons b rest ih =>
      obtain ⟨x, hx, -⟩ := h b List.mem_cons_self
      rw [List.map_cons, ih fun c hc => h c (List.mem_cons_of_mem _ hc)]
      obtain ⟨name, v⟩ := b
      subst hx
      rfl

/-- The bindings that are kept are those of the settled score. -/
theorem kept_bindings (a : AnswerScore) :
    (Value.record a.bindings).kept = .record a.settled.bindings := rfl

private theorem readNumbers_of_floats {bound : List (String × Value)}
    (h : ∀ b ∈ bound, ∃ x, b.2 = .float x ∧ Binary64.isFinite x = true) :
    readNumbers (ofFields bound) = .ok (ofFields bound) := by
  induction bound with
  | nil => rfl
  | cons b rest ih =>
      obtain ⟨x, hx, -⟩ := h b List.mem_cons_self
      obtain ⟨name, v⟩ := b
      subst hx
      show (do
        let y ← toFloat (.float x)
        .ok ((Value.str name, Value.float y) :: (← readNumbers (ofFields rest)))) = _
      rw [ih fun c hc => h c (List.mem_cons_of_mem _ hc)]
      rfl

namespace Sealable

/-- Bindings in the order of their names are the same bindings. -/
theorem equals_settled (h : a.Sealable) : a.Equals a.settled := by
  obtain ⟨bound, hbound, -, hfloats⟩ := h.exists_bindings
  refine ⟨rfl, ?_, rfl, rfl, rfl⟩
  show a.bindings.Perm (ofFields (sortByKey (fieldsKept a.bindings)))
  rw [hbound, fieldsKept_ofFields, map_keptField_of_floats hfloats]
  exact ((sortByKey_perm bound).map _).symm

theorem readNumbers_settled (h : a.Sealable) :
    readNumbers a.settled.bindings = .ok a.settled.bindings := by
  obtain ⟨bound, hbound, -, hfloats⟩ := h.exists_bindings
  show readNumbers (ofFields (sortByKey (fieldsKept a.bindings))) =
    .ok (ofFields (sortByKey (fieldsKept a.bindings)))
  rw [hbound, fieldsKept_ofFields, map_keptField_of_floats hfloats]
  apply readNumbers_of_floats
  intro b hb
  exact hfloats b ((sortByKey_perm bound).mem_iff.mp hb)

/-- The record of a score that can be sealed is JSON. -/
theorem isJson (h : a.Sealable) : a.toValue.IsJson := by
  obtain ⟨bound, hbound, -, hfloats⟩ := h.exists_bindings
  obtain ⟨text, hformula⟩ := h.formula
  rw [toValue_eq, isJson_ofFields]
  unfold fields
  rw [hbound, hformula]
  simp only [List.forall_mem_cons]
  refine ⟨h.answerId.isJson, h.question.isJson, .str text, isJson_ofFields.mpr ?_, .float h.value,
    by simp⟩
  intro b hb
  obtain ⟨x, hx, hfinite⟩ := hfloats b hb
  rw [hx]
  exact .float hfinite

theorem wellKeyed (h : a.Sealable) : a.toValue.WellKeyed := by
  obtain ⟨bound, hbound, hdistinct, hfloats⟩ := h.exists_bindings
  obtain ⟨text, hformula⟩ := h.formula
  rw [toValue_eq, wellKeyed_ofFields]
  refine ⟨a.nodup_fields, ?_⟩
  unfold fields
  rw [hbound, hformula]
  simp only [List.forall_mem_cons]
  refine ⟨h.answerId.wellKeyed, h.question.wellKeyed, .str text,
    wellKeyed_ofFields.mpr ⟨hdistinct, ?_⟩, .float a.value, by simp⟩
  intro b hb
  obtain ⟨x, hx, -⟩ := hfloats b hb
  rw [hx]
  exact .float x

/-- **The record of an answer's score is read back as the score, but for the order of
its bindings.** -/
theorem ofValue_kept (h : a.Sealable) : ofValue a.toValue.kept = .ok a.settled := by
  have hfield : ∀ name v, (name, v) ∈ a.fields →
      field? (ofFields ((sortByKey a.fields).map keptField)) name = some v.kept :=
    fun name v hmem => field_kept a.nodup_fields hmem
  have hanswerId := hfield "answer_id" a.answerId (by simp [fields])
  have hquestion := hfield "question" a.question (by simp [fields])
  have hformula := hfield "formula" a.formula (by simp [fields])
  have hbindings := hfield "bindings" (.record a.bindings) (by simp [fields])
  have hvalue := hfield "value" (.float a.value) (by simp [fields])
  obtain ⟨text, htext⟩ := h.formula
  have hkept : a.formula.kept = a.formula := by
    rw [htext]
    rfl
  rw [h.answerId.kept] at hanswerId
  rw [h.question.kept] at hquestion
  rw [hkept] at hformula
  rw [kept_bindings] at hbindings
  have hindexed : ∀ es, indexed (.record es) = .ok es := fun es => rfl
  have hentries : ∀ es, entries (.record es) = .ok es := fun es => rfl
  have hfloat : (Value.float a.value).kept.toFloat = .ok a.value := rfl
  rw [toValue_eq, kept_record]
  unfold ofValue requiredField fieldOr
  simp only [bind, Except.bind, hindexed, hformula, hbindings, Option.getD_some, hentries,
    h.readNumbers_settled, hvalue, hfloat, hquestion, hanswerId]
  rfl

end Sealable

end AnswerScore

/-! ### Sessions -/

namespace SessionScore

/-- The fields of a session's record. -/
def fields (s : SessionScore) : List (String × Value) :=
  [("session_id", s.sessionId), ("answers", .list (s.answers.map AnswerScore.toValue)),
   ("scores", .list (s.scores.map .float)), ("total", .float s.total)]

theorem nodup_fields (s : SessionScore) : (s.fields.map Prod.fst).Nodup := by
  show ["session_id", "answers", "scores", "total"].Nodup
  decide

theorem toValue_eq (s : SessionScore) : s.toValue = .record (ofFields s.fields) := rfl

/-- A session's score with the bindings of each answer in the order of their names. -/
def settled (s : SessionScore) : SessionScore :=
  { s with answers := s.answers.map AnswerScore.settled }

/-- The order of bindings has no part in the values. -/
theorem scores_settled (s : SessionScore) : s.settled.scores = s.scores := by
  show (s.answers.map AnswerScore.settled).map (·.value) = s.answers.map (·.value)
  rw [List.map_map]
  rfl

theorem total_settled (s : SessionScore) : s.settled.total = s.total := by
  unfold total
  rw [scores_settled]

theorem breakdown_settled (s : SessionScore) : s.settled.breakdown = s.breakdown := by
  show (s.answers.map AnswerScore.settled).foldlM addAnswer [] = s.answers.foldlM addAnswer []
  rw [List.foldlM_map]
  rfl

variable {s : SessionScore}

namespace Sealable

theorem equals_settled (h : s.Sealable) : s.Equals s.settled := by
  refine ⟨?_, rfl⟩
  show List.Forall₂ _ s.answers (s.answers.map AnswerScore.settled)
  rw [List.forall₂_map_right_iff, List.forall₂_same]
  intro a ha
  exact (h.answers a ha).equals_settled

/-- Each value is that of an answer, and so it is finite. -/
theorem finite_scores (h : s.Sealable) : ∀ x ∈ s.scores, Binary64.isFinite x = true := by
  intro x hx
  obtain ⟨a, ha, rfl⟩ := List.mem_map.mp hx
  exact (h.answers a ha).value

/-- The record of a score that can be sealed is JSON. -/
theorem isJson (h : s.Sealable) : s.toValue.IsJson := by
  rw [toValue_eq, isJson_ofFields]
  unfold fields
  simp only [List.forall_mem_cons]
  refine ⟨h.sessionId.isJson, .list ?_, .list ?_, .float h.total, by simp⟩
  · intro v hv
    obtain ⟨a, ha, rfl⟩ := List.mem_map.mp hv
    exact (h.answers a ha).isJson
  · intro v hv
    obtain ⟨x, hx, rfl⟩ := List.mem_map.mp hv
    exact .float (h.finite_scores x hx)

theorem wellKeyed (h : s.Sealable) : s.toValue.WellKeyed := by
  rw [toValue_eq, wellKeyed_ofFields]
  refine ⟨s.nodup_fields, ?_⟩
  unfold fields
  simp only [List.forall_mem_cons]
  refine ⟨h.sessionId.wellKeyed, .ofItems ?_, .ofItems ?_, .float s.total, by simp⟩
  · intro v hv
    obtain ⟨a, ha, rfl⟩ := List.mem_map.mp hv
    exact (h.answers a ha).wellKeyed
  · intro v hv
    obtain ⟨x, -, rfl⟩ := List.mem_map.mp hv
    exact .float x

private theorem mapM_ofValue {answers : List AnswerScore} (h : ∀ a ∈ answers, a.Sealable) :
    ((answers.map AnswerScore.toValue).map Value.kept).mapM AnswerScore.ofValue =
      .ok (answers.map AnswerScore.settled) := by
  rw [List.mapM_map, List.mapM_map]
  exact mapM_of_forall fun a ha => (h a ha).ofValue_kept

/-- The stored total is that of the score read back. -/
private theorem checkTotal_settled (h : s.Sealable) :
    checkTotal (.float s.total) s.settled = .ok () := by
  obtain ⟨negative, mantissa, exponent, hdecode⟩ := Binary64.exists_decode h.total
  show (do
    let x ← (Value.float s.total).toFloat
    if x == s.settled.total then .ok ()
    else .error (.totalMismatch (.float s.total) s.settled.total)) = .ok ()
  rw [toFloat_float, total_settled]
  show (if s.total == s.total then _ else _) = _
  rw [if_pos (Binary64.beq_self_of_decode hdecode)]

/-- **The record of a session's score is read back as the score, but for the order of
bindings.** -/
theorem ofValue_kept (h : s.Sealable) : ofValue s.toValue.kept = .ok s.settled := by
  have hfield : ∀ name v, (name, v) ∈ s.fields →
      field? (ofFields ((sortByKey s.fields).map keptField)) name = some v.kept :=
    fun name v hmem => field_kept s.nodup_fields hmem
  have hsessionId := hfield "session_id" s.sessionId (by simp [fields])
  have hanswers := hfield "answers" (.list (s.answers.map AnswerScore.toValue)) (by simp [fields])
  have htotal := hfield "total" (.float s.total) (by simp [fields])
  rw [h.sessionId.kept] at hsessionId
  rw [kept_list] at hanswers
  have hentries : ∀ es, entries (.record es) = .ok es := fun es => rfl
  have hmembers : ∀ xs, members (.list xs) = .ok xs := fun xs => rfl
  have hkept : (Value.float s.total).kept = .float s.total := rfl
  rw [toValue_eq, kept_record]
  unfold ofValue fieldOr
  simp only [bind, Except.bind, hentries, hanswers, Option.getD_some, hmembers,
    mapM_ofValue h.answers, hsessionId, htotal, hkept]
  have hcheck := h.checkTotal_settled
  unfold settled at hcheck
  rw [hcheck]
  rfl

end Sealable

end SessionScore

end Scorecard
