/-
Sums of doubles, for a session and for each of its questions.

A running sum of finite doubles is a finite double until it overflows, and then it is an
infinity for good.  So the sum of a list is finite if and only if none of its running sums
overflows: nothing that is added later makes up for it.

The breakdown keeps such a running sum for each question, all of them in one pass.  The
invariant of the pass is that every group has the sum of its own values so far, so in the
end each subtotal is what adding up that question alone gives.
-/
import Mathlib.Data.List.Induction
import Scorecard.Proofs.Number.Packing
import Scorecard.Proofs.Score.Record
import Scorecard.Proofs.Value.Texts

namespace Scorecard

/-! ### Running sums -/

section

open Binary64

variable {values : List Float}

/-- No running sum leaves the finite doubles. -/
def StaysFinite (values : List Float) : Prop :=
  ∀ n, isFinite (addUp (values.take n)) = true

theorem addUp_append (values more : List Float) :
    addUp (values ++ more) = more.foldl (· + ·) (addUp values) :=
  List.foldl_append

theorem addUp_concat (values : List Float) (x : Float) : addUp (values ++ [x]) = addUp values + x :=
  addUp_append values [x]

/-- An infinity stays what it is, however much is added. -/
theorem decode_foldl_of_infinite (hvalues : ∀ x ∈ values, isFinite x = true) {start : Float}
    {negative : Bool} (hstart : decode start = .infinite negative) :
    decode (values.foldl (· + ·) start) = .infinite negative := by
  induction values generalizing start with
  | nil => exact hstart
  | cons x rest ih =>
      rw [List.forall_mem_cons] at hvalues
      exact ih hvalues.2 (decode_infinite_add hstart hvalues.1)

/-- What is added up is finite in the end, or an infinity. -/
theorem foldl_finite_or_infinite (hvalues : ∀ x ∈ values, isFinite x = true) {start : Float}
    (hstart : isFinite start = true) :
    isFinite (values.foldl (· + ·) start) = true ∨
      ∃ negative, decode (values.foldl (· + ·) start) = .infinite negative := by
  induction values generalizing start with
  | nil => exact .inl hstart
  | cons x rest ih =>
      rw [List.forall_mem_cons] at hvalues
      rw [List.foldl_cons]
      cases hsum : decode (start + x) with
      | nan => exact absurd hsum (decode_add_ne_nan hstart hvalues.1)
      | infinite negative => exact .inr ⟨negative, decode_foldl_of_infinite hvalues.2 hsum⟩
      | finite negative mantissa exponent =>
          exact ih hvalues.2 (by rw [isFinite, hsum])

theorem addUp_finite_or_infinite (hvalues : ∀ x ∈ values, isFinite x = true) :
    isFinite (addUp values) = true ∨ ∃ negative, decode (addUp values) = .infinite negative :=
  foldl_finite_or_infinite hvalues (by decide +kernel)

/-- **A sum is finite if and only if no running sum overflows.** -/
theorem isFinite_addUp_iff (hvalues : ∀ x ∈ values, isFinite x = true) :
    isFinite (addUp values) = true ↔ StaysFinite values := by
  constructor
  · intro hfinite n
    have htake : ∀ x ∈ values.take n, isFinite x = true :=
      fun x hx => hvalues x (List.mem_of_mem_take hx)
    have hdrop : ∀ x ∈ values.drop n, isFinite x = true :=
      fun x hx => hvalues x (List.mem_of_mem_drop hx)
    rcases addUp_finite_or_infinite htake with h | ⟨negative, hover⟩
    · exact h
    · have hsum := decode_foldl_of_infinite hdrop hover
      rw [← addUp_append, List.take_append_drop] at hsum
      rw [isFinite, hsum] at hfinite
      cases hfinite
  · intro h
    have hall := h values.length
    rwa [List.take_length] at hall

end

namespace SessionScore

/-! ### Groups -/

/-- The groups of a breakdown, in order of first appearance. -/
def groups (s : SessionScore) : List Value :=
  Value.distinct (s.answers.map fun a => groupOf a.question)

/-- The values of the answers in a group. -/
def scoresOf (s : SessionScore) (group : Value) : List Float :=
  (s.answers.filter fun a => (groupOf a.question).same group).map (·.value)

theorem isText_groupOf {question : Value} (h : question.IsTextOrNull) : (groupOf question).IsText := by
  unfold groupOf
  split
  · exact Value.isText_str ""
  · rename_i hempty
    rcases h with rfl | ⟨text, rfl⟩
    · exact absurd rfl hempty
    · exact Value.isText_str text

variable {groups : List Value} {group : Value} {x : Float} {f f' : Value → Float}

/-- A value goes to the subtotal of its group, and the others stay. -/
theorem addTo_of_mem (htext : group.IsText) (hnodup : groups.Nodup) (hmem : group ∈ groups)
    (hgroup : f' group = f group + x) (hother : ∀ g ∈ groups, g ≠ group → f' g = f g) :
    addTo group x (groups.map fun g => (g, f g)) = groups.map fun g => (g, f' g) := by
  induction groups with
  | nil => cases hmem
  | cons g rest ih =>
      rw [List.nodup_cons] at hnodup
      rw [List.forall_mem_cons] at hother
      rw [List.map_cons, List.map_cons, addTo]
      split
      · rename_i hhere
        obtain rfl := (Value.same_text_iff htext).mp hhere
        have hrest : ∀ h ∈ rest, (h, f h) = (h, f' h) := by
          intro h hh
          rw [hother.2 h hh (fun heq => hnodup.1 (heq ▸ hh))]
        rw [hgroup, List.map_congr_left hrest]
      · rename_i hdiffers
        have hne : g ≠ group := mt (Value.same_text_iff htext).mpr hdiffers
        have hmem' : group ∈ rest := (List.mem_cons.mp hmem).resolve_left hne.symm
        rw [ih hnodup.2 hmem' hother.2, hother.1 hne]

/-- A group that was not there comes last, with a subtotal of its own. -/
theorem addTo_of_not_mem (htext : group.IsText) (hmem : group ∉ groups)
    (hgroup : f' group = 0.0 + x) (hother : ∀ g ∈ groups, f' g = f g) :
    addTo group x (groups.map fun g => (g, f g)) = (groups ++ [group]).map fun g => (g, f' g) := by
  induction groups with
  | nil =>
      rw [List.nil_append, List.map_singleton, hgroup]
      rfl
  | cons g rest ih =>
      rw [List.mem_cons, not_or] at hmem
      rw [List.forall_mem_cons] at hother
      have hdiffers : ¬ g.same group = true :=
        mt (Value.same_text_iff htext).mp (Ne.symm hmem.1)
      rw [List.map_cons, addTo, if_neg hdiffers, ih hmem.2 hother.2, List.cons_append, List.map_cons,
        hother.1]

variable {s : SessionScore} {answers : List AnswerScore} {a : AnswerScore} {id : Value}

theorem isText_map_groupOf (h : ∀ a ∈ s.answers, a.question.IsTextOrNull) :
    ∀ g ∈ s.answers.map (fun a => groupOf a.question), g.IsText := by
  intro g hg
  obtain ⟨a, ha, rfl⟩ := List.mem_map.mp hg
  exact isText_groupOf (h a ha)

theorem mem_groups_iff (h : ∀ a ∈ s.answers, a.question.IsTextOrNull) :
    group ∈ s.groups ↔ ∃ a ∈ s.answers, groupOf a.question = group := by
  rw [SessionScore.groups, Value.mem_distinct (isText_map_groupOf h), List.mem_map]

/-- Without an answer in it, a group has no values. -/
theorem scoresOf_eq_nil (h : ∀ a ∈ s.answers, a.question.IsTextOrNull) (htext : group.IsText)
    (hmem : group ∉ s.groups) : s.scoresOf group = [] := by
  rw [scoresOf, List.map_eq_nil_iff, List.filter_eq_nil_iff]
  intro a ha hsame
  exact hmem ((mem_groups_iff h).mpr ⟨a, ha, (Value.same_text_iff htext).mp hsame⟩)

/-- One more answer adds its value to its group. -/
theorem scoresOf_append_same (h : (groupOf a.question).same group = true) :
    scoresOf ⟨answers ++ [a], id⟩ group = scoresOf ⟨answers, id⟩ group ++ [a.value] := by
  simp [scoresOf, h]

theorem scoresOf_append_other (h : ¬ (groupOf a.question).same group = true) :
    scoresOf ⟨answers ++ [a], id⟩ group = scoresOf ⟨answers, id⟩ group := by
  simp [scoresOf, h]

/-! ### The breakdown -/

/-- The sum of each group, taken alone. -/
def subtotals (s : SessionScore) : List (Value × Float) :=
  s.groups.map fun g => (g, addUp (s.scoresOf g))

/-- One more answer makes the subtotals of all answers out of those before it. -/
theorem addAnswer_subtotals (h : ∀ b ∈ answers, b.question.IsTextOrNull)
    (ha : a.question.IsTextOrNull) :
    addAnswer (subtotals ⟨answers, id⟩) a = .ok (subtotals ⟨answers ++ [a], id⟩) := by
  have htext : (groupOf a.question).IsText := isText_groupOf ha
  have htexts := isText_map_groupOf (s := ⟨answers, id⟩) h
  have hgroup : addUp (scoresOf ⟨answers ++ [a], id⟩ (groupOf a.question)) =
      addUp (scoresOf ⟨answers, id⟩ (groupOf a.question)) + a.value := by
    rw [scoresOf_append_same ((Value.same_text_iff htext).mpr rfl), addUp_concat]
  have hother : ∀ g ∈ SessionScore.groups ⟨answers, id⟩, g ≠ groupOf a.question →
      addUp (scoresOf ⟨answers ++ [a], id⟩ g) = addUp (scoresOf ⟨answers, id⟩ g) := by
    intro g hg hne
    have hgText : g.IsText := htexts g ((Value.mem_distinct htexts g).mp hg)
    rw [scoresOf_append_other (mt (Value.same_text_iff hgText).mp hne.symm)]
  have hgroups : SessionScore.groups ⟨answers ++ [a], id⟩ = _ :=
    (congrArg Value.distinct List.map_append).trans (Value.distinct_append _ _)
  rw [addAnswer, if_pos htext.canBeKey, subtotals, subtotals, hgroups]
  split
  · rename_i hthere
    have hmem := (Value.any_same_text_iff htext).mp hthere
    exact congrArg _ (addTo_of_mem htext (Value.nodup_distinct htexts) hmem hgroup hother)
  · rename_i hnew
    have hmem := mt (Value.any_same_text_iff htext).mpr hnew
    refine congrArg _ (addTo_of_not_mem htext hmem ?_ fun g hg => hother g hg (fun h => hmem (h ▸ hg)))
    rw [hgroup, scoresOf_eq_nil (s := ⟨answers, id⟩) h htext hmem]
    rfl

/-- **The breakdown has the sum of each group, taken alone.** -/
theorem breakdown_eq (s : SessionScore) (h : ∀ a ∈ s.answers, a.question.IsTextOrNull) :
    s.breakdown = .ok s.subtotals := by
  obtain ⟨answers, id⟩ := s
  induction answers using List.reverseRecOn with
  | nil => rfl
  | append_singleton answers a ih =>
      rw [List.forall_mem_append, List.forall_mem_singleton] at h
      have hbefore : answers.foldlM addAnswer [] = .ok (subtotals ⟨answers, id⟩) := ih h.1
      show (answers ++ [a]).foldlM addAnswer [] = _
      rw [List.foldlM_append, hbefore]
      show addAnswer _ a >>= pure = _
      rw [bind_pure, addAnswer_subtotals h.1 h.2]

end SessionScore

end Scorecard
