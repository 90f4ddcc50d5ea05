/-
A stored total and the answers beside it.

Whoever stores a score states its total next to its answers, and nobody keeps the two from
drifting apart.  The reader does not take the stored total: it adds up the answers again and
compares.  So the record of a session, whose numbers are doubles, is read unless the total it
states is another number than the sum; and what is no number is never the same as any.

The writer states the sum itself.  A running sum of finite doubles is finite or an infinity, never
without a number, and either is the same as itself, so nothing that was written is refused.
-/
import Scorecard.Proofs.Formula.Evaluation
import Scorecard.Proofs.Number.Amounts
import Scorecard.Proofs.Score.Sums
import Scorecard.Proofs.Value.Fields

namespace Scorecard

open Value

/-! ### Answers -/

namespace AnswerScore

/-- The fields of an answer's record: a formula, a double for the value, and bindings of texts to
doubles, if there are any. -/
structure FieldsStored (es : List (Value × Value)) : Prop where
  formula : ∃ formula, field? es "formula" = some formula
  value : ∃ value, field? es "value" = some value ∧ value.IsDouble
  bindings : ∃ given, (fieldOr es "bindings" (.record [])).entries = .ok given ∧
    ∀ b ∈ given, b.1.IsText ∧ b.2.IsDouble

/-- The value is the record of an answer's score. -/
def Stored (v : Value) : Prop :=
  ∃ es, v.indexed = .ok es ∧ FieldsStored es

/-- The fields of a record are those of an answer's score. -/
structure FieldsDescribe (es : List (Value × Value)) (a : AnswerScore) : Prop where
  formula : field? es "formula" = some a.formula
  value : ∃ stored, field? es "value" = some stored ∧ stored.toFloat = .ok a.value
  bindings : ∃ given, (fieldOr es "bindings" (.record [])).entries = .ok given ∧
    List.Forall₂ ReadsEntry given a.bindings
  question : fieldOr es "question" .null = a.question
  answerId : fieldOr es "answer_id" .null = a.answerId

/-- The value is a record, and describes the score of an answer. -/
def Describes (v : Value) (a : AnswerScore) : Prop :=
  ∃ es, v.indexed = .ok es ∧ FieldsDescribe es a

/-- **Reading an answer's record gives the score that it describes**, and fails where it describes
none. -/
theorem ofValue_eq_ok_iff {v : Value} {a : AnswerScore} : ofValue v = .ok a ↔ Describes v a := by
  unfold ofValue
  simp only [bind_eq_ok_iff, requiredField_eq_ok_iff, readNumbers_eq_ok_iff]
  constructor
  · rintro ⟨es, hes, formula, hformula, given, hgiven, bindings, hbindings, stored, hstored, value,
      hvalue, h⟩
    cases h
    exact ⟨es, hes, hformula, ⟨stored, hstored, hvalue⟩, ⟨given, hgiven, hbindings⟩, rfl, rfl⟩
  · rintro ⟨es, hes, h⟩
    obtain ⟨stored, hstored, hvalue⟩ := h.value
    obtain ⟨given, hgiven, hbindings⟩ := h.bindings
    refine ⟨es, hes, _, h.formula, given, hgiven, _, hbindings, stored, hstored, _, hvalue, ?_⟩
    rw [h.question, h.answerId]

theorem Stored.describes {v : Value} (h : Stored v) : ∃ a, Describes v a := by
  obtain ⟨es, hes, h⟩ := h
  obtain ⟨formula, hformula⟩ := h.formula
  obtain ⟨stored, hstored, hdouble⟩ := h.value
  obtain ⟨given, hgiven, hbindings⟩ := h.bindings
  obtain ⟨x, hx⟩ := hdouble.exists_toFloat
  obtain ⟨bound, hbound⟩ := exists_readNumbers fun b hb => (hbindings b hb).2.exists_toFloat
  exact ⟨⟨formula, bound, x, _, _⟩,
    es, hes, hformula, ⟨stored, hstored, hx⟩, ⟨given, hgiven, readNumbers_eq_ok_iff.mp hbound⟩, rfl, rfl⟩

/-- The score of an answer is a finite double, and its bindings are doubles under texts. -/
structure Numeric (a : AnswerScore) : Prop where
  value : Binary64.isFinite a.value = true
  bindings : ∀ b ∈ a.bindings, b.1.IsText ∧ ∃ x, b.2 = .float x

/-- The record of such a score describes it. -/
theorem Numeric.describes {a : AnswerScore} (h : a.Numeric) : Describes a.toValue a := by
  have hbindings : fieldOr (ofFields a.fields) "bindings" (.record []) = .record a.bindings :=
    fieldOr_of_mem a.nodup_fields (by simp [fields]) _
  refine ⟨ofFields a.fields, rfl, field_of_mem a.nodup_fields (by simp [fields]),
    ⟨.float a.value, field_of_mem a.nodup_fields (by simp [fields]), rfl⟩,
    ⟨a.bindings, by rw [hbindings]; rfl, ?_⟩, fieldOr_of_mem a.nodup_fields (by simp [fields]) _,
    fieldOr_of_mem a.nodup_fields (by simp [fields]) _⟩
  rw [List.forall₂_same]
  intro b hb
  obtain ⟨x, hx⟩ := (h.bindings b hb).2
  exact ⟨rfl, x, by rw [hx]; rfl, hx⟩

/-- The record of such a score is one that can be read. -/
theorem Numeric.stored {a : AnswerScore} (h : a.Numeric) : Stored a.toValue := by
  obtain ⟨es, hes, hfields⟩ := h.describes
  cases hes
  refine ⟨_, rfl, ⟨_, hfields.formula⟩, ⟨.float a.value, rfl, .float _⟩, a.bindings, rfl, ?_⟩
  intro b hb
  obtain ⟨hname, x, hx⟩ := h.bindings b hb
  rw [hx]
  exact ⟨hname, .float x⟩

end AnswerScore

/-! ### Sessions -/

namespace SessionScore

/-- The record of a session's score, and its fields: a list of the records of answers, and a double
for the total, if one is stated. -/
structure Stored (v : Value) (es : List (Value × Value)) : Prop where
  record : v.entries = .ok es
  answers : ∃ items, (fieldOr es "answers" (.list [])).members = .ok items ∧
    ∀ item ∈ items, AnswerScore.Stored item
  total : fieldOr es "total" .null = .null ∨ (fieldOr es "total" .null).IsDouble

/-- A total is stated, and it and the sum are not one number. -/
def Disagrees (stored : Value) (sum : Float) : Prop :=
  stored ≠ .null ∧ ∃ x, stored.toFloat = .ok x ∧
    ¬ ∃ a, Binary64.amount? x = some a ∧ Binary64.amount? sum = some a

variable {stored : Value} {s : SessionScore} {x : Float}

/-- What is no number disagrees with every sum, and every total with a sum that is no number. -/
theorem disagrees_of_no_amount (hnull : stored ≠ .null) (hx : stored.toFloat = .ok x) {sum : Float}
    (h : Binary64.amount? x = none ∨ Binary64.amount? sum = none) : Disagrees stored sum := by
  refine ⟨hnull, x, hx, ?_⟩
  rintro ⟨a, hstored, hsum⟩
  rcases h with h | h
  · rw [h] at hstored
    cases hstored
  · rw [h] at hsum
    cases hsum

theorem checkTotal_of_toFloat (hnull : stored ≠ .null) (hx : stored.toFloat = .ok x) :
    checkTotal stored s = if x == s.total then .ok () else .error (.totalMismatch stored s.total) := by
  unfold checkTotal
  rw [hx]
  cases stored with
  | null => exact absurd rfl hnull
  | _ => rfl

/-- A double, or no total, passes unless it disagrees with the sum. -/
theorem checkTotal_outcome (h : stored = .null ∨ stored.IsDouble) :
    (¬ Disagrees stored s.total ∧ checkTotal stored s = .ok ()) ∨
      (Disagrees stored s.total ∧ checkTotal stored s = .error (.totalMismatch stored s.total)) := by
  by_cases hnull : stored = .null
  · rw [hnull]
    exact .inl ⟨fun hdisagrees => hdisagrees.1 rfl, rfl⟩
  · obtain ⟨x, hx⟩ := (h.resolve_left hnull).exists_toFloat
    rw [checkTotal_of_toFloat hnull hx]
    by_cases hsame : (x == s.total) = true
    · refine .inl ⟨?_, if_pos hsame⟩
      rintro ⟨-, y, hy, hdiffers⟩
      rw [hx] at hy
      cases hy
      exact hdiffers (Binary64.beq_iff.mp hsame)
    · exact .inr ⟨⟨hnull, x, hx, mt Binary64.beq_iff.mpr hsame⟩, if_neg hsame⟩

/-- What is read of a session is settled by its answers, its identifier and its total. -/
theorem ofValue_of_answers {v : Value} {es : List (Value × Value)} {items : List Value}
    {answers : List AnswerScore} (hes : v.entries = .ok es)
    (hitems : (fieldOr es "answers" (.list [])).members = .ok items)
    (hanswers : List.Forall₂ AnswerScore.Describes items answers) :
    ofValue v = (checkTotal (fieldOr es "total" .null) ⟨answers, fieldOr es "session_id" .null⟩).map
      fun _ => ⟨answers, fieldOr es "session_id" .null⟩ := by
  have hread : items.mapM AnswerScore.ofValue = .ok answers :=
    mapM_eq_ok_iff.mpr (hanswers.imp fun _ _ => AnswerScore.ofValue_eq_ok_iff.mpr)
  unfold ofValue
  simp only [bind, Except.bind, hes, hitems, hread]
  cases checkTotal (fieldOr es "total" .null) ⟨answers, fieldOr es "session_id" .null⟩ <;> rfl

/-- The sum of finite doubles equals itself, also where it overflows. -/
theorem beq_total (h : ∀ x ∈ s.scores, Binary64.isFinite x = true) : (s.total == s.total) = true := by
  rcases addUp_finite_or_infinite h with hfinite | ⟨negative, hinfinite⟩
  · obtain ⟨negative, mantissa, exponent, hparts⟩ := Binary64.exists_decode hfinite
    exact Binary64.beq_self_of_decode hparts
  · exact Binary64.beq_of_infinities hinfinite hinfinite

/-- What is written of a session's score is read as that score. -/
theorem ofValue_toValue (h : ∀ a ∈ s.answers, a.Numeric) : ofValue s.toValue = .ok s := by
  have hanswers : fieldOr (ofFields s.fields) "answers" (.list []) =
      .list (s.answers.map AnswerScore.toValue) :=
    fieldOr_of_mem s.nodup_fields (by simp [fields]) _
  have hid : fieldOr (ofFields s.fields) "session_id" .null = s.sessionId :=
    fieldOr_of_mem s.nodup_fields (by simp [fields]) _
  have htotal : fieldOr (ofFields s.fields) "total" .null = .float s.total :=
    fieldOr_of_mem s.nodup_fields (by simp [fields]) _
  have hdescribes : List.Forall₂ AnswerScore.Describes (s.answers.map AnswerScore.toValue) s.answers := by
    rw [List.forall₂_map_left_iff, List.forall₂_same]
    exact fun a ha => (h a ha).describes
  have hscores : ∀ x ∈ s.scores, Binary64.isFinite x = true := by
    intro x hx
    obtain ⟨a, ha, rfl⟩ := List.mem_map.mp hx
    exact (h a ha).value
  have hrecord : s.toValue.entries = .ok (ofFields s.fields) := rfl
  rw [ofValue_of_answers hrecord (by rw [hanswers]; rfl) hdescribes, hid, htotal,
    checkTotal_of_toFloat (by simp) rfl]
  show Except.map _ (if s.total == s.total then _ else _) = _
  rw [if_pos (beq_total hscores)]
  rfl

/--
**A stored total cannot disagree with its answers.**  A session's record is refused if and only if
it states a total that is not the same number as the sum of its answers' values, from zero on and
from left to right; a total or a sum that is no number is never the same.  If it is not refused, the
score has the answers that are stored, in order, and that sum is its total.  The list of values that
may be stored beside them has no part in it.  And the record of a score whose values are finite is
read as that score, even if the total overflows.
-/
theorem ofValue_stored_total :
    (∀ (v : Value) (es : List (Value × Value)), Stored v es →
      ∃ (items : List Value) (answers : List AnswerScore),
        (fieldOr es "answers" (.list [])).members = .ok items ∧
        List.Forall₂ AnswerScore.Describes items answers ∧
        let stored := fieldOr es "total" .null
        let sum := (answers.map (·.value)).foldl (· + ·) 0.0
        (∀ fault, ofValue v = .error fault ↔
          Disagrees stored sum ∧ fault = .totalMismatch stored sum) ∧
        (∀ x, stored ≠ .null → stored.toFloat = .ok x →
          Binary64.amount? x = none ∨ Binary64.amount? sum = none → Disagrees stored sum) ∧
        (¬ Disagrees stored sum → ∃ s, ofValue v = .ok s ∧ s.answers = answers ∧ s.total = sum ∧
          s.sessionId = fieldOr es "session_id" .null) ∧
        ∀ others, (∀ name, name ≠ "scores" → field? others name = field? es name) →
          ofValue (.record others) = ofValue v) ∧
      ∀ s : SessionScore, (∀ a ∈ s.answers, a.Numeric) → ofValue s.toValue = .ok s := by
  refine ⟨?_, fun s h => ofValue_toValue h⟩
  intro v es h
  obtain ⟨items, hitems, hstored⟩ := h.answers
  obtain ⟨answers, hanswers⟩ := exists_forall₂ fun item hitem => (hstored item hitem).describes
  have hread := ofValue_of_answers h.record hitems hanswers
  refine ⟨items, answers, hitems, hanswers, ?_, fun x hnull hx hnone => ?_, ?_, ?_⟩
  · intro fault
    rw [hread]
    rcases checkTotal_outcome (s := ⟨answers, fieldOr es "session_id" .null⟩) h.total with
      ⟨hagrees, hcheck⟩ | ⟨hdisagrees, hcheck⟩
    · rw [hcheck]
      exact iff_of_false nofun fun hfault => hagrees hfault.1
    · rw [hcheck]
      exact ⟨fun hfault => ⟨hdisagrees, (Except.error.inj hfault).symm⟩, fun hfault => hfault.2 ▸ rfl⟩
  · exact disagrees_of_no_amount hnull hx hnone
  · intro hagrees
    rw [hread]
    rcases checkTotal_outcome (s := ⟨answers, fieldOr es "session_id" .null⟩) h.total with
      ⟨-, hcheck⟩ | ⟨hdisagrees, -⟩
    · rw [hcheck]
      exact ⟨_, rfl, rfl, rfl, rfl⟩
    · exact absurd hdisagrees hagrees
  · intro others hothers
    have hsame : ∀ name default, name ≠ "scores" → fieldOr others name default = fieldOr es name default :=
      fun name default hname => congrArg (Option.getD · default) (hothers name hname)
    have hrecord : (Value.record others).entries = .ok others := rfl
    rw [hread, ofValue_of_answers hrecord (by rw [hsame _ _ (by decide)]; exact hitems) hanswers,
      hsame _ _ (by decide), hsame _ _ (by decide)]

/-- Two answers of `1e308` each: their sum is an infinity. -/
def overflowing : SessionScore :=
  ⟨[⟨.str "x", [(.str "x", .float 1e308)], 1e308, .null, .null⟩,
    ⟨.str "x", [(.str "x", .float 1e308)], 1e308, .null, .null⟩], .null⟩

/-- The theorem for two answers whose sum overflows.  Beside them no number is not accepted for a
total, and the infinity that is written is. -/
theorem ofValue_stored_total_overflowing :
    Stored (.record [(.str "answers", .list (overflowing.answers.map AnswerScore.toValue)),
        (.str "total", .nan 0)])
      [(.str "answers", .list (overflowing.answers.map AnswerScore.toValue)), (.str "total", .nan 0)] ∧
    (∃ sum, ofValue (.record [(.str "answers", .list (overflowing.answers.map AnswerScore.toValue)),
        (.str "total", .nan 0)]) = .error (.totalMismatch (.nan 0) sum)) ∧
    (∀ a ∈ overflowing.answers, a.Numeric) ∧ Binary64.isFinite overflowing.total = false ∧
    ofValue overflowing.toValue = .ok overflowing := by
  obtain ⟨hreads, hwritten⟩ := ofValue_stored_total
  have hnumeric : ∀ a ∈ overflowing.answers, a.Numeric := by
    have hfinite : Binary64.isFinite 1e308 = true := by decide +kernel
    intro a ha
    simp only [overflowing, List.mem_cons, List.not_mem_nil, or_false, or_self] at ha
    subst ha
    exact ⟨hfinite, by simp⟩
  have hstored : Stored (.record [(.str "answers", .list (overflowing.answers.map AnswerScore.toValue)),
      (.str "total", .nan 0)])
      [(.str "answers", .list (overflowing.answers.map AnswerScore.toValue)), (.str "total", .nan 0)] := by
    refine ⟨rfl, ⟨_, rfl, ?_⟩, .inr (.nan 0)⟩
    intro item hitem
    obtain ⟨a, ha, rfl⟩ := List.mem_map.mp hitem
    exact (hnumeric a ha).stored
  obtain ⟨items, answers, -, -, hrefused, hnan, -⟩ := hreads _ _ hstored
  refine ⟨hstored, ⟨_, (hrefused _).mpr ⟨?_, rfl⟩⟩, hnumeric, by decide +kernel, hwritten _ hnumeric⟩
  refine hnan (Binary64.encode .nan) (by nofun) rfl (.inl ?_)
  decide +kernel

end SessionScore

end Scorecard
