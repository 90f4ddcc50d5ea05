/-
How far a finite total is promised.

Each value of a session is finite, since evaluation refuses what is not.  The total and the
subtotals are added up afterwards and nobody looks at them, so a total is finite exactly
if none of its running sums overflows, and a subtotal exactly if none of its own does.
Neither decides the other: the huge values of one question may be balanced by another.

An envelope is what shows the difference.  It holds a score if the total is finite, and
otherwise is refused, because JSON has no infinity.
-/
import Scorecard.Proofs.Envelope.Sealing
import Scorecard.Proofs.Score.Session
import Scorecard.Proofs.Score.Sums

namespace Scorecard

/-- The answer is made of texts and finite doubles. -/
structure Answer.Plain (a : Answer) : Prop where
  choice : ∃ p, a.choice = some p ∧ p.formula.IsText ∧ p.question.IsTextOrNull
  values : ∀ b ∈ a.values, b.1.IsText ∧ ∃ x, b.2 = .float x ∧ Binary64.isFinite x = true
  id : a.id.IsTextOrNull

/-- The session has such answers only. -/
structure Session.Plain (s : Session) : Prop where
  id : s.id.IsTextOrNull
  items : ∀ item ∈ s.items, ∃ a, item = .answer a ∧ a.Plain

theorem Session.Plain.recordedId {s : Session} (h : s.Plain) {given : Value}
    (hgiven : given.IsTextOrNull) : (s.recordedId given).IsTextOrNull := by
  rcases hgiven with rfl | ⟨text, rfl⟩
  · exact h.id
  · exact .inr ⟨text, rfl⟩

namespace Engine

variable {e : Engine}

/-! ### Answers -/

/-- The value of a formula is finite. -/
theorem isFinite_of_evaluate (hrules : e.registry.Answers) {formula : Value} (htext : formula.IsText)
    {bound : Bindings} (hbound : ∀ b ∈ bound, b.2.IsDouble) {x : Float}
    (h : e.evaluate formula bound = .ok x) : Binary64.isFinite x = true := by
  obtain ⟨text, rfl⟩ := htext
  cases hparsed : e.parse (.str text) with
  | error f =>
      rw [evaluate, hparsed] at h
      cases h
  | ok tree =>
      have hsettled := settled_evaluate hrules hbound hparsed
      rw [h] at hsettled
      exact hsettled

/-- The score of a plain answer can be sealed. -/
theorem sealable_of_scoreItem (hrules : e.registry.Answers) {a : Answer} (ha : a.Plain)
    {answer : AnswerScore} (h : e.scoreItem (.answer a) = .ok answer) : answer.Sealable := by
  obtain ⟨p, hchoice, hformula, hquestion⟩ := ha.choice
  cases hbound : a.bindings with
  | error f =>
      rw [e.scoreItem_of_bindings_error hbound] at h
      cases h
  | ok bound =>
      have hfloats : ∀ b ∈ a.values, ∃ x, b.2 = .float x := by
        intro b hb
        obtain ⟨-, x, hx, -⟩ := ha.values b hb
        exact ⟨x, hx⟩
      obtain ⟨hkeyed, rfl⟩ := (Answer.bindings_floats_iff hfloats).mp hbound
      have hdoubles : ∀ b ∈ a.values, b.2.IsDouble := by
        intro b hb
        obtain ⟨x, hx⟩ := hfloats b hb
        rw [hx]
        exact .float x
      rw [e.scoreItem_answer hchoice hbound] at h
      split at h
      · cases h
      · rename_i value hvalue
        cases h
        refine ⟨hformula, hquestion, ha.id, isFinite_of_evaluate hrules hformula hdoubles hvalue,
          ha.values, hkeyed.distinct⟩

end Engine

/-! ### Envelopes -/

/-- A score whose answers can be sealed is sealed if its total is finite, and is refused as
meaningless otherwise. -/
theorem Signer.signScore_outcome (signer : Signer) {s : SessionScore}
    (hanswers : ∀ a ∈ s.answers, a.Sealable) (hid : s.sessionId.IsTextOrNull) :
    (Binary64.isFinite s.total = true → ∃ envelope, signer.signScore s = .ok envelope) ∧
      (Binary64.isFinite s.total = false → signer.signScore s = .error .meaningless) := by
  constructor
  · intro htotal
    exact ⟨_, signer.signValue_of_isJson (SessionScore.Sealable.isJson ⟨hanswers, hid, htotal⟩)⟩
  · intro htotal
    have hlisted : Value.IsJson (.list (s.answers.map AnswerScore.toValue)) := by
      refine .list fun v hv => ?_
      obtain ⟨a, ha, rfl⟩ := List.mem_map.mp hv
      exact (hanswers a ha).isJson
    have hscores : Value.IsJson (.list (s.scores.map .float)) := by
      refine .list fun v hv => ?_
      obtain ⟨x, hx, rfl⟩ := List.mem_map.mp hv
      obtain ⟨a, ha, rfl⟩ := List.mem_map.mp hx
      exact .float (hanswers a ha).value
    have hfields : ∀ f ∈ s.fields, f.2.IsJson ∨ ∃ x, f.2 = .float x := by
      simp only [SessionScore.fields, List.forall_mem_cons]
      exact ⟨.inl hid.isJson, .inl hlisted, .inl hscores, .inr ⟨_, rfl⟩, by simp⟩
    have htotalField : ("total", Value.float s.total) ∈ s.fields := by simp [SessionScore.fields]
    unfold signScore signValue
    rw [SessionScore.toValue_eq, Json.canonical_of_not_finite hfields htotalField htotal]
    rfl

/-! ### Amounts -/

/-- The answer that gives an amount to a question. -/
def Answer.amount (question : String) (x : Float) : Answer :=
  ⟨some ⟨"amount", .str question, .str "x", [.str "x"]⟩, [(.str "x", .float x)], .null⟩

/-- Its score. -/
def AnswerScore.amount (question : String) (x : Float) : AnswerScore :=
  ⟨.str "x", [(.str "x", .float x)], x, .str question, .null⟩

/-- The session that gives one amount after the other. -/
def Session.ofAmounts (given : List (String × Float)) : Session :=
  ⟨.null, given.map fun g => .answer (.amount g.1 g.2)⟩

/-- Its score. -/
def SessionScore.ofAmounts (given : List (String × Float)) : SessionScore :=
  ⟨given.map fun g => .amount g.1 g.2, .null⟩

theorem Answer.plain_amount (question : String) {x : Float} (hx : Binary64.isFinite x = true) :
    (Answer.amount question x).Plain := by
  refine ⟨⟨_, rfl, ⟨"x", rfl⟩, .inr ⟨question, rfl⟩⟩, ?_, .inl rfl⟩
  simp only [amount, List.forall_mem_singleton]
  exact ⟨⟨"x", rfl⟩, x, rfl, hx⟩

variable {given : List (String × Float)}

theorem Session.plain_ofAmounts (h : ∀ g ∈ given, Binary64.isFinite g.2 = true) :
    (Session.ofAmounts given).Plain := by
  refine ⟨.inl rfl, fun item hitem => ?_⟩
  obtain ⟨g, hg, rfl⟩ := List.mem_map.mp hitem
  exact ⟨_, rfl, Answer.plain_amount g.1 (h g hg)⟩

namespace Engine

theorem scoreItem_amount (question : String) {x : Float} (hx : Binary64.isFinite x = true) :
    ({} : Engine).scoreItem (.answer (.amount question x)) = .ok (.amount question x) := by
  have hbound : (Answer.amount question x).bindings = .ok [(.str "x", .float x)] := by
    show bindVariable [] (.str "x", .float x) >>= pure = _
    rw [bindVariable_of_not_mem (Value.isText_str "x") List.not_mem_nil rfl]
    rfl
  have hparsed : ({} : Engine).parse (.str "x") = .ok (.variable (.str "x") (some 0)) := by
    cbv
  have hlookup : Value.lookup? [(.str "x", .float x)] (.str "x") = some (.float x) := by
    simp [Value.lookup?]
  have hvalue : ({} : Engine).evaluate (.str "x") [(.str "x", .float x)] = .ok x := by
    rw [evaluate, hparsed]
    show Expr.evaluateVariable _ _ _ = _
    rw [Expr.evaluateVariable, if_pos (Value.isText_str "x").canBeKey, hlookup]
    exact if_pos hx
  exact scoreItem_of_evaluate _ rfl hbound hvalue

theorem scoreFrom_amounts (h : ∀ g ∈ given, Binary64.isFinite g.2 = true) (index : Nat) :
    ({} : Engine).scoreFrom index (Session.ofAmounts given).items =
      .ok (SessionScore.ofAmounts given).answers := by
  induction given generalizing index with
  | nil => rfl
  | cons g rest ih =>
      rw [List.forall_mem_cons] at h
      show ({} : Engine).scoreFrom index (.answer (.amount g.1 g.2) :: (Session.ofAmounts rest).items) = _
      rw [scoreFrom, scoreItem_amount g.1 h.1]
      simp only [ih h.2]
      rfl

/-- Finite amounts are scored as they are. -/
theorem scoreSession_amounts (h : ∀ g ∈ given, Binary64.isFinite g.2 = true) :
    ({} : Engine).scoreSession (.ofAmounts given) .null = .ok (.ofAmounts given) := by
  unfold scoreSession scoreItems
  rw [scoreFrom_amounts h]
  rfl

end Engine

/-! ### Sessions -/

/--
**A total is finite exactly if nothing overflows on the way to it.**  Where a session of
plain answers has a score, each of its values is finite.  Its total is finite if and only if
no running sum of the values overflows; the breakdown has a subtotal for each question, which
is finite if and only if no running sum of that question's values does; and whoever seals the
score gets an envelope if and only if the total is finite.
-/
theorem Engine.scoreSession_sums {e : Engine} (hrules : e.registry.Answers) {session : Session}
    (hsession : session.Plain) {given : Value} (hgiven : given.IsTextOrNull) {s : SessionScore}
    (h : e.scoreSession session given = .ok s) :
    (∀ x ∈ s.scores, Binary64.isFinite x = true) ∧
      (Binary64.isFinite s.total = true ↔ StaysFinite s.scores) ∧
      (s.breakdown = .ok (s.groups.map fun g => (g, addUp (s.scoresOf g))) ∧
        ∀ g, Binary64.isFinite (addUp (s.scoresOf g)) = true ↔ StaysFinite (s.scoresOf g)) ∧
      ∀ signer : Signer,
        (Binary64.isFinite s.total = true → ∃ envelope, signer.signScore s = .ok envelope) ∧
          (Binary64.isFinite s.total = false → signer.signScore s = .error .meaningless) := by
  obtain ⟨hid, hscored⟩ := e.scored_of_scoreSession h
  have hanswers : ∀ a ∈ s.answers, a.Sealable := by
    intro answer hanswer
    obtain ⟨item, hitem, hscore⟩ := hscored answer hanswer
    obtain ⟨a, rfl, ha⟩ := hsession.items item hitem
    exact sealable_of_scoreItem hrules ha hscore
  have hvalues : ∀ x ∈ s.scores, Binary64.isFinite x = true := by
    intro x hx
    obtain ⟨a, ha, rfl⟩ := List.mem_map.mp hx
    exact (hanswers a ha).value
  have hgroup : ∀ g, ∀ x ∈ s.scoresOf g, Binary64.isFinite x = true := by
    intro g x hx
    obtain ⟨a, ha, rfl⟩ := List.mem_map.mp hx
    exact (hanswers a (List.mem_of_mem_filter ha)).value
  refine ⟨hvalues, isFinite_addUp_iff hvalues, ⟨?_, fun g => isFinite_addUp_iff (hgroup g)⟩,
    fun signer => signer.signScore_outcome hanswers (hid ▸ hsession.recordedId hgiven)⟩
  exact s.breakdown_eq fun a ha => (hanswers a ha).question

/-- The theorem for amounts that balance each other.  The total is finite and the score is
sealed, and still the subtotal of one question overflows. -/
theorem Engine.scoreSession_sums_balanced :
    (Session.ofAmounts [("A", 1e308), ("B", -1e308), ("A", 1e308)]).Plain ∧ Value.null.IsTextOrNull ∧
      ({} : Engine).scoreSession (.ofAmounts [("A", 1e308), ("B", -1e308), ("A", 1e308)]) .null =
        .ok (.ofAmounts [("A", 1e308), ("B", -1e308), ("A", 1e308)]) ∧
      StaysFinite [1e308, -1e308, 1e308] ∧ ¬ StaysFinite [1e308, 1e308] ∧
      ∀ signer : Signer, ∃ envelope,
        signer.signScore (.ofAmounts [("A", 1e308), ("B", -1e308), ("A", 1e308)]) = .ok envelope := by
  have hfinite : ∀ g ∈ [("A", (1e308 : Float)), ("B", -1e308), ("A", 1e308)],
      Binary64.isFinite g.2 = true := by
    decide +kernel
  have htotal : Binary64.isFinite (addUp [1e308, -1e308, 1e308]) = true := by decide +kernel
  have hgroup : ¬ Binary64.isFinite (addUp [1e308, 1e308]) = true := by decide +kernel
  have hscores : (SessionScore.ofAmounts [("A", 1e308), ("B", -1e308), ("A", 1e308)]).scoresOf
      (.str "A") = [1e308, 1e308] := by
    have hA : SessionScore.groupOf (.str "A") = .str "A" := rfl
    have hB : SessionScore.groupOf (.str "B") = .str "B" := rfl
    simp [SessionScore.scoresOf, SessionScore.ofAmounts, AnswerScore.amount, hA, hB]
  have hplain := Session.plain_ofAmounts hfinite
  have hscored := Engine.scoreSession_amounts hfinite
  obtain ⟨-, hsum, ⟨-, hgroups⟩, hsigned⟩ :=
    Engine.scoreSession_sums Registry.standard_answers hplain (.inl rfl) hscored
  have hstays := hgroups (.str "A")
  rw [hscores] at hstays
  exact ⟨hplain, .inl rfl, hscored, hsum.mp htotal, mt hstays.mpr hgroup,
    fun signer => (hsigned signer).1 htotal⟩

theorem SessionScore.breakdown_ofAmounts (x y : Float) :
    (SessionScore.ofAmounts [("A", x), ("A", y)]).breakdown = .ok [(.str "A", addUp [x, y])] := by
  have hgroup : SessionScore.groupOf (.str "A") = .str "A" := rfl
  have hquestions : ∀ a ∈ (SessionScore.ofAmounts [("A", x), ("A", y)]).answers,
      a.question.IsTextOrNull := by
    simp [SessionScore.ofAmounts, AnswerScore.amount, Value.IsTextOrNull]
  rw [SessionScore.breakdown_eq _ hquestions]
  simp [SessionScore.subtotals, SessionScore.groups, SessionScore.scoresOf, SessionScore.ofAmounts,
    AnswerScore.amount, hgroup, Value.distinct]

/-- Two answers to one question, each of them finite: the total and the subtotal overflow,
and nobody can seal the score. -/
theorem Engine.scoreSession_overflow :
    (Session.ofAmounts [("A", 1e308), ("A", 1e308)]).Plain ∧
      ∃ s, ({} : Engine).scoreSession (.ofAmounts [("A", 1e308), ("A", 1e308)]) .null = .ok s ∧
        Binary64.isFinite s.total = false ∧
        (∃ x, s.breakdown = .ok [(.str "A", x)] ∧ Binary64.isFinite x = false) ∧
        ∀ signer : Signer, signer.signScore s = .error .meaningless := by
  have hfinite : ∀ g ∈ [("A", (1e308 : Float)), ("A", 1e308)], Binary64.isFinite g.2 = true := by
    decide +kernel
  have htotal : Binary64.isFinite (addUp [1e308, 1e308]) = false := by decide +kernel
  have hanswers : ∀ a ∈ (SessionScore.ofAmounts [("A", 1e308), ("A", 1e308)]).answers, a.Sealable := by
    intro answer hanswer
    obtain ⟨g, hg, rfl⟩ := List.mem_map.mp hanswer
    exact Engine.sealable_of_scoreItem Registry.standard_answers (Answer.plain_amount g.1 (hfinite g hg))
      (Engine.scoreItem_amount g.1 (hfinite g hg))
  exact ⟨Session.plain_ofAmounts hfinite, _, Engine.scoreSession_amounts hfinite, htotal,
    ⟨_, SessionScore.breakdown_ofAmounts 1e308 1e308, htotal⟩,
    fun signer => (signer.signScore_outcome hanswers (.inl rfl)).2 htotal⟩

end Scorecard
