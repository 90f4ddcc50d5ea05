/-
Answers whose formula is not looked at.

The bindings of an answer are made first.  Where they are refused, so is the answer, with the same
error, and nothing else of it matters: whatever it chooses, the formula is neither parsed nor looked
up among those that are kept.  So an answer that gives one name twice is always told so, even if its
formula could not be read at all.
-/
import Scorecard.Proofs.Score.FirstFailure

namespace Scorecard

open Value

namespace Engine

/-- The item fails with the error before its formula is looked at: the formulas that are kept
remain as they were, and a session fails at the item if it comes to it. -/
structure FailsUnread (e : Engine) (item : Item) (cause : FormulaError) : Prop where
  alone : e.scoreItem item = .error (.formula cause)
  kept : ∀ cache, e.scoreItemKept cache item = (.error (.formula cause), cache)
  session : ∀ (s : Session) (before after : List Item), s.items = before ++ item :: after →
    (∀ i ∈ before, ∃ score, e.scoreItem i = .ok score) → ∀ sessionId,
      e.scoreSession s sessionId = .error (.scoring before.length item.id cause)

/-- Where the bindings are refused, the answer fails whatever it chooses. -/
theorem failsUnread_of_bindings (e : Engine) {a : Answer} {cause : FormulaError}
    (h : a.bindings = .error (.formula cause)) : e.FailsUnread (.answer a) cause := by
  have hitem : e.scoreItem (.answer a) = .error (.formula cause) := e.scoreItem_of_bindings_error h
  refine ⟨hitem, fun cache => by simp only [scoreItemKept, prepare, h], ?_⟩
  intro s before after hitems hbefore sessionId
  have hfirst : e.FirstFailure s.items before.length (.answer a) (.formula cause) :=
    hitems ▸ firstFailure_append hbefore hitem
  rw [scoreSession, hfirst.scoreItems]
  rfl

end Engine

namespace Answer

/--
**Values are bound without loss, or the first repeated name is refused.**  For names that can be
keys, as texts can, and values that can be read as doubles: the bindings are refused exactly if two
of the values share a name, and the error names the first whose name occurred earlier.  If none do,
there is one binding for each value, in order, with the double that it is read as, and each text is
bound to its own.  Where the bindings are refused, the answer fails with this error under every
engine, whatever formula it chooses and by whatever identifier.
-/
theorem bindings_first_repeated (a : Answer) (hnames : ∀ b ∈ a.values, b.1.canBeKey = true)
    (hvalues : ∀ b ∈ a.values, ∃ x, b.2.toFloat = .ok x) :
    ((∃ name, a.bindings = .error (.formula (.boundTwice name))) ↔ SharesName a.values) ∧
      (∀ name, a.bindings = .error (.formula (.boundTwice name)) ↔ FirstRepeated a.values name) ∧
      (¬ SharesName a.values → ∃ bound, a.bindings = .ok bound ∧
        List.Forall₂ ReadsEntry a.values bound ∧
        ∀ b ∈ bound, b.1.IsText → lookup? bound b.1 = some b.2) ∧
      ∀ name, a.bindings = .error (.formula (.boundTwice name)) →
        ∀ (e : Engine) (choice : Option PossibleAnswer) (id : Value),
          e.FailsUnread (.answer ⟨choice, a.values, id⟩) (.boundTwice name) := by
  have hrefused : ∀ name, a.bindings = .error (.formula (.boundTwice name)) ↔
      FirstRepeated a.values name := fun name =>
    bindings_eq_boundTwice_iff_firstRepeated hnames hvalues
  refine ⟨?_, hrefused, fun hapart => ?_, fun name hbound e choice id => ?_⟩
  · simp only [hrefused]
    exact ⟨fun ⟨name, hfirst⟩ => hfirst.sharesName, SharesName.exists_firstRepeated⟩
  · obtain ⟨bound, hbound, hread⟩ := exists_bindings hnames hvalues hapart
    have hkeyed : Keyed bound :=
      (keyed_iff.mpr ⟨hnames, hapart⟩).of_keys (keys_of_readsEntry hread).1
    refine ⟨bound, hbound, hread, fun b hb htext => hkeyed.lookup? hb ?_⟩
    exact (same_text_iff htext).mpr rfl
  · exact e.failsUnread_of_bindings (a := ⟨choice, a.values, id⟩) hbound

/-- Two names come twice, and the formula is a character that no formula has. -/
def twiceTwice : Answer :=
  ⟨some ⟨"none", .str "A", .str "$", [.str "x", .str "y"]⟩,
    [(.str "x", .float 1), (.str "y", .bool true), (.str "y", .float 3), (.str "x", .float 4)], .str "a"⟩

/-- The name that is repeated first is not the one that came first, and the formula is none. -/
theorem bindings_first_repeated_unreadable :
    (∀ b ∈ twiceTwice.values, b.1.canBeKey = true) ∧
      (∀ b ∈ twiceTwice.values, ∃ x, b.2.toFloat = .ok x) ∧
      SharesName twiceTwice.values ∧
      ({} : Engine).parse (.str "$") = .error (.formula (.lex ⟨0, '$'⟩)) ∧
      ({} : Engine).scoreItem (.answer twiceTwice) = .error (.formula (.boundTwice (.str "y"))) ∧
      ({} : Engine).scoreSession ⟨.null, [.answer twiceTwice]⟩ .null =
        .error (.scoring 0 (.str "a") (.boundTwice (.str "y"))) := by
  have hnames : ∀ b ∈ twiceTwice.values, b.1.canBeKey = true := by
    simp [twiceTwice, canBeKey]
  have hvalues : ∀ b ∈ twiceTwice.values, ∃ x, b.2.toFloat = .ok x := by
    simp [twiceTwice, toFloat]
  have hfirst : FirstRepeated twiceTwice.values (.str "y") := by
    refine ⟨[(.str "x", .float 1), (.str "y", .bool true)], .float 3, [(.str "x", .float 4)], rfl, ?_, ?_⟩
    · simp [hasKey]
    · rw [not_sharesName_iff]
      simp
  have hparsed : ({} : Engine).parse (.str "$") = .error (.formula (.lex ⟨0, '$'⟩)) := by
    cbv
  obtain ⟨hshares, hrefused, -, hfails⟩ := bindings_first_repeated twiceTwice hnames hvalues
  have hbound := (hrefused _).mpr hfirst
  have hunread := hfails _ hbound {} twiceTwice.choice twiceTwice.id
  exact ⟨hnames, hvalues, hshares.mp ⟨_, hbound⟩, hparsed, hunread.alone,
    hunread.session ⟨.null, _⟩ [] [] rfl (by simp) .null⟩

end Answer

end Scorecard
