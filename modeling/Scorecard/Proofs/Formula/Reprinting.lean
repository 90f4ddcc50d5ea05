/-
What a printed formula is read as.

A literal with a huge exponent is read as infinity, and infinity is written as a word.
The word is read as a variable of that name.  So a formula that is printed and read again is
the tree it was, in which each infinite literal has become the variable `inf`; nothing else
changes but the places.

The tree with its infinities turned into variables has the same text as the tree itself,
node by node, and its numbers are finite, so all that is known of such trees is known of it.
No two numbers of a text are told apart only by a sign of zero; that is why the tree that
comes back is equal and not just the same in numbers.
-/
import Scorecard.Proofs.Formula.Limits
import Scorecard.Proofs.Formula.Shortest

namespace Scorecard

namespace Expr

/-! ### Infinite literals -/

/-- How infinity is written. -/
def infinityName : Value :=
  .str "inf"

mutual

/-- The tree with variables for the numbers that are not finite. -/
def lettered : Expr → Expr
  | .missing => .missing
  | .number x position =>
    if Binary64.isFinite x then .number x position else .variable infinityName position
  | .variable name position => .variable name position
  | .negate operand position => .negate operand.lettered position
  | .binary op left right position => .binary op left.lettered right.lettered position
  | .call name arguments position => .call name (allLettered arguments) position

/-- The same of each of some trees. -/
def allLettered : List Expr → List Expr
  | [] => []
  | e :: es => e.lettered :: allLettered es

end

mutual

/-- Where all numbers are finite nothing changes. -/
theorem lettered_eq_self : (e : Expr) → e.LiteralsFinite → e.lettered = e
  | .missing, _ => rfl
  | .number _ _, h => if_pos h
  | .variable _ _, _ => rfl
  | .negate operand _, h => by rw [lettered, lettered_eq_self operand h]
  | .binary _ left right _, h => by
      rw [lettered, lettered_eq_self left h.1, lettered_eq_self right h.2]
  | .call _ arguments _, h => by rw [lettered, allLettered_eq_self arguments h]

theorem allLettered_eq_self : (es : List Expr) → AllLiteralsFinite es → allLettered es = es
  | [], _ => rfl
  | e :: es, h => by rw [allLettered, lettered_eq_self e h.1, allLettered_eq_self es h.2]

end

theorem isName_infinity : IsName infinityName :=
  ⟨"inf", 'i', ['n', 'f'], rfl, rfl, rfl, List.all_eq_true.mp rfl⟩

mutual

/-- The tree with variables is legible, and its numbers are finite. -/
theorem Legible.lettered : (e : Expr) → e.Legible → e.lettered.Legible ∧ e.lettered.LiteralsFinite
  | .missing, h => h.elim
  | .number x _, h => by
      rw [Expr.lettered]
      split
      · rename_i hfinite
        exact ⟨h, hfinite⟩
      · exact ⟨isName_infinity, trivial⟩
  | .variable _ _, h => ⟨h, trivial⟩
  | .negate operand _, h => Legible.lettered operand h
  | .binary _ left right _, h => by
      have hleft := Legible.lettered left h.1
      have hright := Legible.lettered right h.2
      exact ⟨⟨hleft.1, hright.1⟩, hleft.2, hright.2⟩
  | .call _ arguments _, h => by
      have harguments := AllLegible.lettered arguments h.2
      exact ⟨⟨h.1, harguments.1⟩, harguments.2⟩

theorem AllLegible.lettered : (es : List Expr) → AllLegible es →
    AllLegible (allLettered es) ∧ AllLiteralsFinite (allLettered es)
  | [], _ => ⟨trivial, trivial⟩
  | e :: es, h => by
      have hfirst := Legible.lettered e h.1
      have hothers := AllLegible.lettered es h.2
      exact ⟨⟨hfirst.1, hothers.1⟩, hfirst.2, hothers.2⟩

end

/-! ### What a tree and the one with variables have in common -/

/-- A number that is not finite is written as the name. -/
theorem numberText_infinite {x : Float} (h : Binary64.Magnitude x) (hx : Binary64.isFinite x = false) :
    numberText x = infinityName.display := by
  rcases h with hinfinite | ⟨mantissa, exponent, hfinite⟩
  · have hint : Binary64.toInt? x = none := by
      unfold Binary64.toInt?
      rw [hinfinite]
    unfold numberText floatText Layout.text Layout.textWith
    rw [hint, hinfinite]
    rfl
  · unfold Binary64.isFinite at hx
    rw [hfinite] at hx
    cases hx

/-- Two trees that are printed and measured alike, and call the same functions. -/
structure PrintsAlike (registry : Registry) (a b : Expr) : Prop where
  text : a.text = b.text
  precedence : a.precedence = b.precedence
  count : a.tokenCount = b.tokenCount
  depth : a.depth = b.depth
  printable : a.printable = b.printable
  joinable : a.joinable = b.joinable
  calls : a.CallsFit registry → b.CallsFit registry

/-- The same of lists of trees. -/
structure AllPrintAlike (registry : Registry) (as bs : List Expr) : Prop where
  length : as.length = bs.length
  text : argumentsText as = argumentsText bs
  count : argumentsCount as = argumentsCount bs
  depth : greatestDepth as = greatestDepth bs
  printable : allPrintable as = allPrintable bs
  calls : AllCallsFit registry as → AllCallsFit registry bs

namespace PrintsAlike

variable {registry : Registry} {a b c d : Expr} {as bs : List Expr}

theorem self (a : Expr) : PrintsAlike registry a a :=
  ⟨rfl, rfl, rfl, rfl, rfl, rfl, id⟩

theorem infinity {x : Float} (h : Binary64.Magnitude x) (hx : Binary64.isFinite x = false)
    (position : Option Nat) :
    PrintsAlike registry (.number x position) (.variable infinityName position) where
  text := numberText_infinite h hx
  precedence := if_neg h.not_lt_zero
  count := if_neg h.not_lt_zero
  depth := rfl
  printable := rfl
  joinable := rfl
  calls := id

theorem negate (h : PrintsAlike registry a b) (position : Option Nat) :
    PrintsAlike registry (.negate a position) (.negate b position) where
  text := by rw [Expr.text, Expr.text, h.text, h.precedence]
  precedence := rfl
  count := by rw [tokenCount, tokenCount, h.count, h.precedence]
  depth := by rw [Expr.depth, Expr.depth, h.depth]
  printable := by rw [Expr.printable, Expr.printable, h.printable, h.joinable]
  joinable := rfl
  calls := h.calls

theorem binary (hl : PrintsAlike registry a b) (hr : PrintsAlike registry c d) (op : BinaryOp)
    (position : Option Nat) :
    PrintsAlike registry (.binary op a c position) (.binary op b d position) where
  text := by rw [Expr.text, Expr.text, hl.text, hl.precedence, hr.text, hr.precedence]
  precedence := rfl
  count := by rw [tokenCount, tokenCount, hl.count, hl.precedence, hr.count, hr.precedence]
  depth := by rw [Expr.depth, Expr.depth, hl.depth, hr.depth]
  printable := by rw [Expr.printable, Expr.printable, hl.printable, hr.printable]
  joinable := rfl
  calls := And.imp hl.calls hr.calls

theorem call (h : AllPrintAlike registry as bs) (name : Value) (position : Option Nat) :
    PrintsAlike registry (.call name as position) (.call name bs position) where
  text := by rw [Expr.text, Expr.text, h.text]
  precedence := rfl
  count := by rw [tokenCount, tokenCount, h.count]
  depth := by rw [Expr.depth, Expr.depth, h.depth]
  printable := by rw [Expr.printable, Expr.printable, h.printable]
  joinable := rfl
  calls := by
    rintro ⟨hfits, harguments⟩
    rw [h.length] at hfits
    exact ⟨hfits, h.calls harguments⟩

theorem cons (h : PrintsAlike registry a b) (hothers : AllPrintAlike registry as bs) :
    AllPrintAlike registry (a :: as) (b :: bs) where
  length := by rw [List.length_cons, List.length_cons, hothers.length]
  text := by
    cases as with
    | nil =>
        obtain rfl := List.eq_nil_of_length_eq_zero hothers.length.symm
        exact h.text
    | cons f fs =>
        cases bs with
        | nil => cases hothers.length
        | cons g gs =>
            show a.text ++ ", " ++ argumentsText (f :: fs) = b.text ++ ", " ++ argumentsText (g :: gs)
            rw [h.text, hothers.text]
  count := by
    cases as with
    | nil =>
        obtain rfl := List.eq_nil_of_length_eq_zero hothers.length.symm
        exact h.count
    | cons f fs =>
        cases bs with
        | nil => cases hothers.length
        | cons g gs =>
            show a.tokenCount + 1 + argumentsCount (f :: fs) = b.tokenCount + 1 + argumentsCount (g :: gs)
            rw [h.count, hothers.count]
  depth := by rw [greatestDepth, greatestDepth, h.depth, hothers.depth]
  printable := by rw [allPrintable, allPrintable, h.printable, h.joinable, hothers.printable]
  calls := And.imp h.calls hothers.calls

end PrintsAlike

mutual

/-- **The tree with variables is printed like the tree itself.** -/
theorem Legible.printsAlike {registry : Registry} :
    (e : Expr) → e.Legible → PrintsAlike registry e e.lettered
  | .missing, h => h.elim
  | .number x position, h => by
      rw [Expr.lettered]
      split
      · exact .self _
      · rename_i hx
        exact .infinity h (Bool.not_eq_true _ ▸ hx) position
  | .variable _ _, _ => .self _
  | .negate operand position, h => (Legible.printsAlike operand h).negate position
  | .binary op left right position, h =>
      (Legible.printsAlike left h.1).binary (Legible.printsAlike right h.2) op position
  | .call name arguments position, h => .call (AllLegible.printAlike arguments h.2) name position

theorem AllLegible.printAlike {registry : Registry} :
    (es : List Expr) → AllLegible es → AllPrintAlike registry es (allLettered es)
  | [], _ => ⟨rfl, rfl, rfl, rfl, rfl, id⟩
  | e :: es, h => (Legible.printsAlike e h.1).cons (AllLegible.printAlike es h.2)

end

/-- A legible tree is printed as its text. -/
theorem print_of_legible {e : Expr} (h : e.Legible) : e.print = .ok (.str e.text) := by
  obtain ⟨hlegible, hfinite⟩ := Legible.lettered e h
  have halike : PrintsAlike Registry.standard e e.lettered := Legible.printsAlike e h
  have hprintable : e.printable = true :=
    halike.printable.trans (printable_of_writable _ (Legible.writable _ hlegible hfinite)).1
  unfold print
  rw [if_pos hprintable]
  cases e with
  | «variable» name place =>
      obtain ⟨s, -, -, rfl, -⟩ := h
      rfl
  | missing => exact h.elim
  | number x place => rfl
  | negate operand place => rfl
  | binary op left right place => rfl
  | call name arguments place => rfl

/-! ### Trees that are the same -/

theorem eq_of_same_name {m n : Value} (hm : IsName m) (hn : IsName n) (h : m.same n = true) : m = n := by
  obtain ⟨s, -, -, rfl, -⟩ := hm
  obtain ⟨t, -, -, rfl, -⟩ := hn
  rw [Value.same_str, beq_iff_eq] at h
  rw [h]

mutual

/-- Legible trees that are the same differ in places only, where one has finite numbers. -/
theorem withoutPositions_eq_of_same : (a b : Expr) → a.Legible → b.Legible → b.LiteralsFinite →
    a.same b = true → a.withoutPositions = b.withoutPositions
  | .missing, _, ha, _, _, _ => ha.elim
  | .number x _, b, ha, hb, hfinite, h => by
      cases b with
      | number y place => rw [withoutPositions, withoutPositions, ha.eq_of_beq hb hfinite h]
      | _ => cases h
  | .variable m _, b, ha, hb, _, h => by
      cases b with
      | «variable» n place => rw [withoutPositions, withoutPositions, eq_of_same_name ha hb h]
      | _ => cases h
  | .negate a _, b, ha, hb, hfinite, h => by
      cases b with
      | negate c place =>
          rw [withoutPositions, withoutPositions,
            withoutPositions_eq_of_same a c ha hb hfinite (by simpa only [same] using h)]
      | _ => cases h
  | .binary o a b _, e, ha, he, hfinite, h => by
      cases e with
      | binary p c d place =>
          rw [same, Bool.and_eq_true, Bool.and_eq_true, beq_iff_eq] at h
          obtain ⟨⟨rfl, hleft⟩, hright⟩ := h
          rw [withoutPositions, withoutPositions, withoutPositions_eq_of_same a c ha.1 he.1 hfinite.1 hleft,
            withoutPositions_eq_of_same b d ha.2 he.2 hfinite.2 hright]
      | _ => cases h
  | .call m as _, e, ha, he, hfinite, h => by
      cases e with
      | call n bs place =>
          rw [same, Bool.and_eq_true] at h
          rw [withoutPositions, withoutPositions, eq_of_same_name ha.1 he.1 h.1,
            allWithoutPositions_eq_of_same as bs ha.2 he.2 hfinite h.2]
      | _ => cases h

theorem allWithoutPositions_eq_of_same : (as bs : List Expr) → AllLegible as → AllLegible bs →
    AllLiteralsFinite bs → sameAll as bs = true → allWithoutPositions as = allWithoutPositions bs
  | [], bs, _, _, _, h => by
      cases bs with
      | nil => rfl
      | cons b bs => cases h
  | a :: as, bs, ha, hb, hfinite, h => by
      cases bs with
      | nil => cases h
      | cons b bs =>
          rw [sameAll, Bool.and_eq_true] at h
          rw [allWithoutPositions, allWithoutPositions,
            withoutPositions_eq_of_same a b ha.1 hb.1 hfinite.1 h.1,
            allWithoutPositions_eq_of_same as bs ha.2 hb.2 hfinite.2 h.2]

end

/-! ### Reading again -/

variable {registry : Registry} {limits limits' : Limits} {text : String} {e f : Expr}

/--
**A printed formula is read as the tree it was, but for its infinities.**  What was parsed
from a text is printed, the same limits admit what is printed, and under whatever limits it
is read, it is the tree with variables for the literals that are not finite.
-/
theorem parse_reprinted (h : parse registry limits text = .ok e) :
    e.print = .ok (.str e.text) ∧
      (1 ≤ limits.maxDepth → ∃ tree, parse registry limits e.text = .ok tree) ∧
      ∀ limits' tree, parse registry limits' e.text = .ok tree →
        tree.withoutPositions = e.lettered.withoutPositions := by
  -- the tree with variables can be written, and its text is that of the tree itself
  have hread : ∀ {limits : Limits}, 1 ≤ limits.maxDepth → parse registry limits text = .ok e →
      ∃ tree, parse registry limits e.text = .ok tree ∧
        tree.withoutPositions = e.lettered.withoutPositions := by
    intro limits hmax h
    obtain ⟨hlegible, hcalls, hshallow, list, -, hcount, hfew⟩ := of_parse hmax h
    have halike : PrintsAlike registry e e.lettered := Legible.printsAlike e hlegible
    obtain ⟨hlegible', hfinite⟩ := Legible.lettered e hlegible
    rw [halike.count] at hcount
    rw [halike.depth] at hshallow
    obtain ⟨-, tree, -, hparse, hsame⟩ := parse_text hmax (Legible.writable _ hlegible' hfinite)
      (Legible.noneNegative _ hlegible') (halike.calls hcalls) (by omega) hshallow
    rw [← halike.text] at hparse
    exact ⟨tree, hparse, withoutPositions_eq_of_same _ _ (of_parse hmax hparse).1 hlegible' hfinite hsame⟩
  have hleaf : (1 : Int) ≤ max limits.maxDepth 1 := le_max_right _ _
  refine ⟨print_of_legible (of_parse hleaf (parse_of_leaf h)).1, fun hmax => ?_, ?_⟩
  · obtain ⟨tree, hparse, -⟩ := hread hmax h
    exact ⟨tree, hparse⟩
  · intro limits' tree htree
    obtain ⟨tree', hparse, hsame⟩ := hread hleaf (parse_of_leaf h)
    rw [parse_inj htree hparse, hsame]

end Expr

end Scorecard
