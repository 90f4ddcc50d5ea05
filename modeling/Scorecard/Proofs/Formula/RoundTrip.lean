/-
A printed formula is read back.

The printer writes an operand without parentheses where it binds at least as tightly
as its place demands, and on the right of an operator more tightly than the operator.
The grammar asks the same of the phrases in those places, so the text of a tree
derives from the phrase of its root, by induction over the tree.

Parentheses are a nesting of their own, and yet the limit on nesting is met by the
depth of the tree alone.  What saves it is that only operators are ever enclosed, and
an operator's text has less nesting than its tree has depth: one group more is still
within the depth.
-/
import Scorecard.Proofs.Formula.Language
import Scorecard.Proofs.Formula.Printing

namespace Scorecard

namespace Expr

variable {registry : Registry} {p : Phrase} {e : Expr}

/-! ### Numbers -/

/-- A double that is not below zero is read back from its magnitude, but for the sign
of a zero. -/
theorem beq_encode {x : Float} {negative : Bool} {mantissa : ℕ} {exponent : ℤ}
    (hx : Binary64.decode x = .finite negative mantissa exponent) (h : ¬ x < 0) :
    (Binary64.encode (.finite false mantissa exponent) == x) = true := by
  rw [Binary64.lt_zero_iff hx] at h
  cases negative with
  | false =>
      rw [Binary64.encode_of_decode hx]
      exact Binary64.beq_self_of_decode hx
  | true =>
      obtain rfl : mantissa = 0 := by simpa using h
      obtain rfl := (Binary64.canonical_of_decode hx).exponent_of_zero
      have hzero : Binary64.decode (Binary64.encode (.finite false 0 Binary64.leastExponent)) =
          .finite false 0 Binary64.leastExponent := rfl
      exact Binary64.beq_of_zeros hzero hx

/-- Zero is below the bound for whole numbers. -/
theorem abs_zero_lt {x : Float} {negative : Bool} {exponent : ℤ}
    (hx : Binary64.decode x = .finite negative 0 exponent) : x.abs < wholeTextBelow := by
  obtain rfl := (Binary64.canonical_of_decode hx).exponent_of_zero
  rw [← Binary64.encode_of_decode hx]
  cases negative with
  | false => rfl
  | true => rfl

/-- The text of a number is a sign where it is below zero, and a numeral that names it. -/
theorem numberText_spelling {x : Float} {negative : Bool} {mantissa : ℕ} {exponent : ℤ}
    (hx : Binary64.decode x = .finite negative mantissa exponent) :
    ∃ n : Numeral, n.Names mantissa exponent ∧
      (numberText x).toList = signText (decide (x < 0)) ++ n.spelling := by
  have hc := Binary64.canonical_of_decode hx
  have hlt := Binary64.lt_zero_iff hx
  -- in the layout of doubles the sign of a zero would be written
  have hplain : mantissa ≠ 0 → numberText x = floatText x → ∃ n : Numeral,
      n.Names mantissa exponent ∧
        (numberText x).toList = signText (decide (x < 0)) ++ n.spelling := by
    intro hpos htext
    obtain ⟨n, hn, -, hspelling⟩ := Layout.text_plain hx
    refine ⟨n, hn, ?_⟩
    have hsign : decide (x < 0) = negative := by
      cases negative <;> simp [hlt, hpos]
    rw [htext, hsign, ← hspelling]
    simp [floatText]
  unfold numberText at hplain ⊢
  cases hint : Binary64.toInt? x with
  | none =>
      rw [hint] at hplain
      refine hplain ?_ rfl
      rintro rfl
      unfold Binary64.toInt? at hint
      rw [hx] at hint
      simp only [Nat.zero_mul, Nat.zero_mod, Nat.zero_div, if_true, ite_self] at hint
      cases hint
  | some k =>
      rw [hint] at hplain
      simp only at hplain ⊢
      obtain ⟨hsign, hvalue⟩ := Binary64.toInt_eq_some hx hint
      by_cases hsmall : x.abs < wholeTextBelow
      · rw [if_pos hsmall]
        refine ⟨.ofNat k.natAbs, Numeral.names_of_value (Numeral.written_ofNat _) hc ?_, ?_⟩
        · rw [Numeral.value_ofNat, hvalue]
        · have hsame : decide (x < 0) = decide (k < 0) := by
            rw [decide_eq_decide, hlt, hsign]
          rw [hsame, toList_intText]
      · refine hplain ?_ (if_neg hsmall)
        rintro rfl
        exact hsmall (abs_zero_lt hx)

/-! ### Trees -/

/-- The text of a tree is read back as its normal form, and its nesting is within the
depth of that, below it where the text is one that is ever enclosed. -/
def Printed (registry : Registry) (e : Expr) : Prop :=
  ∀ position, ∃ n, Writes registry position e.text.toList e.phrase e.normal n ∧
    n ≤ e.normal.depth ∧ (e.precedence < negationPrecedence → n < e.normal.depth)

/-- The text of arguments is read back as their normal forms. -/
def PrintedArguments (registry : Registry) (es : List Expr) : Prop :=
  ∀ position, ∃ n, WritesArguments registry position (argumentsText es).toList (allNormal es) n ∧
    n ≤ greatestDepth (allNormal es)

theorem one_le_tightness (p : Phrase) : 1 ≤ p.tightness := by
  cases p <;> decide

theorem tightness_le_primary (p : Phrase) : p.tightness ≤ Phrase.primary.tightness := by
  cases p <;> decide

/-- The text of an operand, enclosed where it has to be, derives from the phrase that
its place asks for. -/
theorem Printed.enclosed (h : Printed registry e) (p : Phrase) (needed : Bool)
    (hloose : needed = true → e.precedence < negationPrecedence)
    (htight : needed = false → p.tightness ≤ e.precedence) (position : Nat) :
    ∃ n, Writes registry position (enclose needed e.text).toList p e.normal n ∧
      n ≤ e.normal.depth := by
  cases needed with
  | true =>
      obtain ⟨n, hw, -, hlt⟩ := h (position + 1)
      have hsum : Phrase.sum.tightness ≤ e.phrase.tightness := one_le_tightness _
      have hgroup := (hw.loosen hsum).group.loosen (tightness_le_primary p)
      refine ⟨n + 1, ?_, hlt (hloose rfl)⟩
      simpa [enclose] using hgroup
  | false =>
      obtain ⟨n, hw, hle, -⟩ := h position
      refine ⟨n, hw.loosen ?_, hle⟩
      rw [tightness_phrase]
      exact htight rfl

theorem printed_number {x : Float} (hx : Binary64.isFinite x = true) (place : Option Nat) :
    Printed registry (.number x place) := by
  intro position
  obtain ⟨negative, mantissa, exponent, hparts⟩ := Binary64.exists_decode hx
  obtain ⟨n, hn, htext⟩ := numberText_spelling hparts
  have htoken : ∀ position, (⟨.number (n.toFloat false), String.ofList n.spelling, position⟩ :
      Token).kind = .number (n.toFloat false) := fun _ => rfl
  by_cases hlt : x < 0
  · have hnegative : negative = true := ((Binary64.lt_zero_iff hparts).mp hlt).1
    have hflipped := Binary64.encode_not hparts
    rw [hnegative, Bool.not_true] at hflipped
    have hself : (n.toFloat false == -x) = true := by
      rw [hn.reads, hflipped]
      exact Binary64.beq_self_of_decode (Binary64.decode_neg hparts)
    have hw : Writes registry (position + 1) n.spelling .factor (.number (-x) place) 0 :=
      ⟨_, _, .number hn.written, .primary (.number (htoken _)), by rw [same, hself], trivial⟩
    refine ⟨1, ?_, ?_⟩
    · rw [text, htext, phrase, normal, if_pos hlt, if_pos hlt]
      simpa [signText, hlt] using hw.minus
    · simp [normal, precedence, depth, hlt]
  · have hself : (n.toFloat false == x) = true := by
      rw [hn.reads]
      exact beq_encode hparts hlt
    have hw : Writes registry position n.spelling .primary (.number x place) 0 :=
      ⟨_, _, .number hn.written, .number (htoken _), by rw [same, hself], trivial⟩
    refine ⟨0, ?_, ?_⟩
    · rw [text, htext, phrase, normal, if_neg hlt, if_neg hlt]
      simpa [signText, hlt] using hw
    · simp [normal, precedence, depth, hlt]

theorem printed_variable {name : Value} (h : IsName name) (place : Option Nat) :
    Printed registry (.variable name place) := by
  intro position
  refine ⟨0, .variable h, Nat.zero_le _, fun _ => Nat.zero_lt_one⟩

theorem printed_negate (h : Printed registry e) (place : Option Nat) :
    Printed registry (.negate e place) := by
  intro position
  obtain ⟨n, hw, hle⟩ := h.enclosed .factor
    (decide (e.precedence < negationPrecedence)) (fun hn => of_decide_eq_true hn)
    (fun hn => Nat.le_of_not_lt (of_decide_eq_false hn)) (position + 1)
  refine ⟨n + 1, ?_, ?_, ?_⟩
  · rw [text, String.toList_append]
    exact hw.minus
  · rw [normal, depth]
    omega
  · intro hlt
    exact absurd hlt (Nat.lt_irrefl _)

theorem printed_binary {op : BinaryOp} {left right : Expr} (hl : Printed registry left)
    (hr : Printed registry right) (place : Option Nat) :
    Printed registry (.binary op left right place) := by
  intro position
  have hop : op.precedence < negationPrecedence := by
    cases op <;> decide
  obtain ⟨m, hwl, hml⟩ := hl.enclosed op.phrase
    (decide (left.precedence < op.precedence))
    (fun hn => Nat.lt_trans (of_decide_eq_true hn) hop)
    (fun hn => by rw [op.tightness_phrase]; exact Nat.le_of_not_lt (of_decide_eq_false hn)) position
  obtain ⟨n, hwr, hnr⟩ := hr.enclosed op.operand
    (decide (right.precedence ≤ op.precedence))
    (fun hn => Nat.lt_of_le_of_lt (of_decide_eq_true hn) hop)
    (fun hn => by rw [op.tightness_operand]; exact Nat.lt_of_not_le (of_decide_eq_false hn))
    (position + (enclose (decide (left.precedence < op.precedence)) left.text).toList.length + 3)
  have hdepth : max m n < (normal (.binary op left right place)).depth := by
    rw [normal, depth]
    omega
  refine ⟨max m n, ?_, Nat.le_of_lt hdepth, fun _ => hdepth⟩
  have hw := @Writes.binary _ _ _ _ _ _ _ _ _ place hwl hwr
  rw [text, phrase, normal]
  simpa using hw

theorem printed_call {name : Value} {arguments : List Expr} (h : IsName name)
    (hfits : ∃ function, registry.findNamed? name = some function ∧
      function.arity = arguments.length)
    (hw : PrintedArguments registry arguments) (place : Option Nat) :
    Printed registry (.call name arguments place) := by
  intro position
  obtain ⟨n, hn, hle⟩ := hw (position + name.display.toList.length + 1)
  refine ⟨n + 1, ?_, ?_, ?_⟩
  · rw [← length_allNormal arguments] at hfits
    have hcall := @Writes.call _ _ _ _ _ _ place h hfits hn
    rw [text, normal]
    simpa [phrase] using hcall
  · rw [normal, depth]
    omega
  · intro hlt
    exact absurd hlt (Nat.not_lt.mpr (Nat.le_succ negationPrecedence))

theorem PrintedArguments.cons {es : List Expr} (h : Printed registry e)
    (hw : PrintedArguments registry es) : PrintedArguments registry (e :: es) := by
  intro position
  obtain ⟨m, hm, hmle, -⟩ := h position
  have hsum : Phrase.sum.tightness ≤ e.phrase.tightness := one_le_tightness _
  have hfirst := hm.loosen hsum
  cases es with
  | nil =>
      refine ⟨m, hfirst.last.arguments, ?_⟩
      rw [allNormal, greatestDepth]
      omega
  | cons f fs =>
      obtain ⟨n, hn, hnle⟩ := hw (position + e.text.toList.length + 2)
      refine ⟨max m n, ?_, ?_⟩
      · rw [argumentsText]
        · simpa [allNormal] using (hfirst.cons hn.list).arguments
        · exact List.cons_ne_nil f fs
      · rw [allNormal, greatestDepth]
        omega

mutual

/-- **The text of every tree that can be written derives, with its normal form.** -/
theorem printed : (e : Expr) → e.Writable → e.CallsFit registry → Printed registry e
  | .missing, hw, _ => hw.elim
  | .number _ place, hw, _ => printed_number hw place
  | .variable _ place, hw, _ => printed_variable hw place
  | .negate operand place, hw, hc => printed_negate (printed operand hw hc) place
  | .binary _ left right place, hw, hc =>
      printed_binary (printed left hw.1 hc.1) (printed right hw.2 hc.2) place
  | .call _ arguments place, hw, hc =>
      printed_call hw.1 hc.1 (printedArguments arguments hw.2 hc.2) place

theorem printedArguments : (es : List Expr) → AllWritable es → AllCallsFit registry es →
    PrintedArguments registry es
  | [], _, _ => fun _ => ⟨0, .nil, Nat.le_refl _⟩
  | e :: es, hw, hc => .cons (printed e hw.1 hc.1) (printedArguments es hw.2 hc.2)

end

/-! ### Formulas -/

mutual

/-- No number of the tree is below zero. -/
def NoneNegative : Expr → Prop
  | .missing => True
  | .number x _ => ¬ x < 0
  | .variable _ _ => True
  | .negate operand _ => operand.NoneNegative
  | .binary _ left right _ => left.NoneNegative ∧ right.NoneNegative
  | .call _ arguments _ => AllNoneNegative arguments

/-- The same of each of some trees. -/
def AllNoneNegative : List Expr → Prop
  | [] => True
  | e :: es => e.NoneNegative ∧ AllNoneNegative es

end

mutual

/-- Without negative numbers there is nothing to take apart. -/
theorem normal_eq_self : (e : Expr) → e.NoneNegative → e.normal = e
  | .missing, _ => rfl
  | .number _ _, h => if_neg h
  | .variable _ _, _ => rfl
  | .negate operand _, h => by rw [normal, normal_eq_self operand h]
  | .binary _ left right _, h => by rw [normal, normal_eq_self left h.1, normal_eq_self right h.2]
  | .call _ arguments _, h => by rw [normal, allNormal_eq_self arguments h]

theorem allNormal_eq_self : (es : List Expr) → AllNoneNegative es → allNormal es = es
  | [], _ => rfl
  | e :: es, h => by rw [allNormal, normal_eq_self e h.1, allNormal_eq_self es h.2]

end

mutual

/-- What can be written can be printed, and joined to other text. -/
theorem printable_of_writable : (e : Expr) → e.Writable → e.printable = true ∧ e.joinable = true
  | .missing, h => h.elim
  | .number _ _, _ => ⟨rfl, rfl⟩
  | .variable _ _, h => by
      obtain ⟨s, -, -, rfl, -⟩ := h
      exact ⟨rfl, rfl⟩
  | .negate operand _, h => by
      obtain ⟨hprintable, hjoinable⟩ := printable_of_writable operand h
      exact ⟨by rw [printable, hprintable, hjoinable]; rfl, rfl⟩
  | .binary _ left right _, h => by
      have hleft := (printable_of_writable left h.1).1
      have hright := (printable_of_writable right h.2).1
      exact ⟨by rw [printable, hleft, hright]; rfl, rfl⟩
  | .call _ arguments _, h => ⟨allPrintable_of_writable arguments h.2, rfl⟩

theorem allPrintable_of_writable : (es : List Expr) → AllWritable es → allPrintable es = true
  | [], _ => rfl
  | e :: es, h => by
      obtain ⟨hprintable, hjoinable⟩ := printable_of_writable e h.1
      rw [allPrintable, hprintable, hjoinable, allPrintable_of_writable es h.2]
      rfl

end

/-- What can be written is printed as its text. -/
theorem print_eq_text (h : e.Writable) : e.print = .ok (.str e.text) := by
  unfold print
  rw [if_pos (printable_of_writable e h).1]
  cases e with
  | «variable» name place =>
      obtain ⟨s, -, -, rfl, -⟩ := h
      rfl
  | missing => exact h.elim
  | number x place => rfl
  | negate operand place => rfl
  | binary op left right place => rfl
  | call name arguments place => rfl

/-- Without gaps there is a node. -/
theorem one_le_depth (h : e.Writable) : 1 ≤ e.normal.depth := by
  cases e with
  | missing => exact h.elim
  | number x place =>
      rw [normal]
      split
      · rw [depth]
        omega
      · rw [depth]
  | «variable» name place => rw [normal, depth]
  | negate operand place =>
      rw [normal, depth]
      omega
  | binary op left right place =>
      rw [normal, depth]
      omega
  | call name arguments place =>
      rw [normal, depth]
      omega

/--
**Formatting then parsing is lossless.**  A tree without gaps, with finite numbers, with
names of the alphabet and with calls that fit is printed, its text is cut into tokens,
and within every limit that admits its normal form and that many tokens the text is read
back as the normal form, which is the tree itself if no number is below zero.
-/
theorem parse_print (registry : Registry) (e : Expr) (hw : e.Writable)
    (hc : e.CallsFit registry) :
    (∃ text list, e.print = .ok (.str text) ∧ TokenList.ofText text = .ok list ∧
      ∀ limits : Limits, (e.normal.depth : Int) ≤ limits.maxDepth →
        (list.tokens.length : Int) ≤ limits.maxTokens →
        ∃ tree, Value.parseFormula registry limits (.str text) = .ok tree ∧
          tree.same e.normal = true) ∧
      (e.NoneNegative → e.normal = e) := by
  refine ⟨?_, normal_eq_self e⟩
  obtain ⟨n, ⟨ts, tree, hlex, hd, hsame, hcalls⟩, hn, -⟩ := printed e hw hc 0
  have hsum : Phrase.sum.tightness ≤ e.phrase.tightness := one_le_tightness _
  refine ⟨e.text, ⟨ts, e.text.length⟩, print_eq_text hw, hlex.ofText, ?_⟩
  intro limits hdepth hfew
  refine ⟨tree, ?_, hsame⟩
  have hpositive := one_le_depth hw
  have hadmits : TokenList.Admits registry limits ts tree :=
    ⟨hfew, ⟨n, hd.loosen hsum, by omega⟩, hcalls, by rw [depth_eq_of_same _ _ hsame]; exact hdepth⟩
  have hparse := (@TokenList.parse_eq_ok_iff registry limits (by omega) ⟨ts, e.text.length⟩ tree).mpr
    hadmits
  show Expr.parse registry limits e.text = .ok tree
  unfold Expr.parse
  rw [hlex.ofText]
  exact hparse

/-- A difference of a negative number and a sum, which has to be enclosed. -/
def difference : Expr :=
  .binary .subtract (.number (-2.5) none)
    (.binary .add (.variable (.str "x") none) (.call (.str "floor") [.number 1.5 none] none) none) none

/-- The theorem for a tree that needs parentheses and starts with a sign. -/
theorem parse_print_difference :
    difference.Writable ∧ difference.CallsFit Registry.standard ∧
      ∃ list, TokenList.ofText "-2.5 - (x + floor(1.5))" = .ok list ∧
        ∀ limits : Limits, 4 ≤ limits.maxDepth → (list.tokens.length : Int) ≤ limits.maxTokens →
          ∃ tree, Value.parseFormula Registry.standard limits (.str "-2.5 - (x + floor(1.5))") =
            .ok tree ∧ tree.same difference.normal = true := by
  have hletters : ∀ d ∈ ['l', 'o', 'o', 'r'], Token.continuesName d = true := by
    simp only [List.forall_mem_cons]
    exact ⟨rfl, rfl, rfl, rfl, by simp⟩
  have hw : difference.Writable :=
    ⟨rfl, ⟨"x", 'x', [], rfl, rfl, rfl, by simp⟩, ⟨"floor", 'f', _, rfl, rfl, rfl, hletters⟩, rfl,
      trivial⟩
  have hc : difference.CallsFit Registry.standard :=
    ⟨trivial, trivial, ⟨_, rfl, rfl⟩, trivial, trivial⟩
  obtain ⟨⟨text, list, hprint, hlist, hread⟩, -⟩ := parse_print Registry.standard difference hw hc
  have htext : difference.text = "-2.5 - (x + floor(1.5))" := by decide +kernel
  rw [print_eq_text hw, htext] at hprint
  cases hprint
  refine ⟨hw, hc, list, hlist, fun limits hdepth hfew => hread limits ?_ hfew⟩
  have hfour : difference.normal.depth = 4 := by decide +kernel
  rw [hfour]
  exact hdepth

end Expr

end Scorecard
