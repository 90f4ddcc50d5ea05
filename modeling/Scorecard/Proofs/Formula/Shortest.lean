/-
The printer writes a shortest formula.

A derivation may hold parentheses that leave no node, but it cannot do without those that
the grammar demands: where a tree binds weaker than the phrase in its place, the only way
there leads through a group.  That is the printer's own test.  So the tokens of any
derivation of a tree are at least as many as the printer writes, place by place.

A tree that was parsed can be printed, since its names come from names and its numbers have
no sign.  Its text has no more tokens than the one it was parsed from, and its nesting is
within the depth of the tree, so the limits that admitted the one admit the other.
-/
import Scorecard.Proofs.Formula.RoundTrip
import Scorecard.Proofs.Formula.Tokens
import Scorecard.Proofs.Number.Unsigned

namespace Scorecard

namespace Expr

/-! ### How many tokens are printed -/

/-- A count with the two parentheses, if they are needed. -/
def encloseCount (needed : Bool) (count : Nat) : Nat :=
  if needed then count + 2 else count

mutual

/-- How many tokens the text of a tree has. -/
def tokenCount : Expr → Nat
  | .missing => 0
  | .number x _ => if x < 0 then 2 else 1
  | .variable _ _ => 1
  | .negate operand _ =>
    1 + encloseCount (decide (operand.precedence < negationPrecedence)) operand.tokenCount
  | .binary op left right _ =>
    encloseCount (decide (left.precedence < op.precedence)) left.tokenCount + 1 +
      encloseCount (decide (right.precedence ≤ op.precedence)) right.tokenCount
  | .call _ arguments _ => 3 + argumentsCount arguments

/-- How many tokens the texts of arguments have, a comma between two. -/
def argumentsCount : List Expr → Nat
  | [] => 0
  | [e] => e.tokenCount
  | e :: es => e.tokenCount + 1 + argumentsCount es

end

/-- The piece of text is cut into so many tokens, wherever it stands. -/
def Spells (text : List Char) (count : Nat) : Prop :=
  ∀ position, ∃ ts, Token.Lexes position text ts ∧ ts.length = count

variable {text : List Char} {m n : Nat}

theorem Spells.group (h : Spells text n) : Spells ('(' :: (text ++ [')'])) (n + 2) := by
  intro position
  obtain ⟨ts, hlex, hlength⟩ := h (position + 1)
  exact ⟨_, (hlex.append rfl (.sign rfl .nil)).sign rfl, by simp [hlength]⟩

theorem Spells.minus (h : Spells text n) : Spells ('-' :: text) (1 + n) := by
  intro position
  obtain ⟨ts, hlex, hlength⟩ := h (position + 1)
  exact ⟨_, hlex.sign rfl, by simp [hlength]; omega⟩

theorem Spells.binary (op : BinaryOp) {left right : List Char} (hl : Spells left m)
    (hr : Spells right n) :
    Spells (left ++ ' ' :: (op.symbol.toList ++ ' ' :: right)) (m + 1 + n) := by
  intro position
  obtain ⟨c, hc, hkind⟩ := symbol_eq op
  obtain ⟨ts, hlex, hm⟩ := hl position
  obtain ⟨us, hlex', hn⟩ := hr (position + left.length + 3)
  rw [hc]
  exact ⟨_, hlex.append rfl (.blank (.sign hkind (.blank hlex'))), by simp [hm, hn]; omega⟩

theorem Spells.enclose {s : String} (needed : Bool) (h : Spells s.toList n) :
    Spells (enclose needed s).toList (encloseCount needed n) := by
  cases needed with
  | true => simpa [Expr.enclose, encloseCount] using h.group
  | false => simpa [Expr.enclose, encloseCount] using h

theorem Spells.name {name : Value} (h : IsName name) : Spells name.display.toList 1 := by
  intro position
  obtain ⟨s, c, more, rfl, hs, hc, hmore⟩ := h
  have hdisplay : (Value.str s).display.toList = c :: more := hs
  rw [hdisplay]
  exact ⟨_, .name hc hmore, rfl⟩

theorem Spells.call {name : Value} (hname : IsName name) (h : Spells text n) :
    Spells (name.display.toList ++ '(' :: (text ++ [')'])) (3 + n) := by
  intro position
  obtain ⟨ts, hlex, hts⟩ := Spells.name hname position
  obtain ⟨us, hlex', hus⟩ := h.group (position + name.display.toList.length)
  exact ⟨_, hlex.append rfl hlex', by simp [hts, hus]; omega⟩

theorem Spells.cons {others : List Char} (h : Spells text m) (hothers : Spells others n) :
    Spells (text ++ ',' :: ' ' :: others) (m + 1 + n) := by
  intro position
  obtain ⟨ts, hlex, hts⟩ := h position
  obtain ⟨us, hlex', hus⟩ := hothers (position + text.length + 2)
  exact ⟨_, hlex.append rfl (.sign rfl (.blank hlex')), by simp [hts, hus]; omega⟩

theorem spells_number {x : Float} (hx : Binary64.isFinite x = true) (place : Option Nat) :
    Spells (numberText x).toList (Expr.number x place).tokenCount := by
  obtain ⟨negative, mantissa, exponent, hparts⟩ := Binary64.exists_decode hx
  obtain ⟨numeral, hnumeral, htext⟩ := numberText_spelling hparts
  have hspells : Spells numeral.spelling 1 := fun _ => ⟨_, .number hnumeral.written, rfl⟩
  rw [htext, tokenCount]
  by_cases hlt : x < 0
  · simpa [signText, hlt] using hspells.minus
  · simpa [signText, hlt] using hspells

mutual

/-- **The text of a tree has as many tokens as its nodes and their parentheses.** -/
theorem spells : (e : Expr) → e.Writable → Spells e.text.toList e.tokenCount
  | .missing, hw => hw.elim
  | .number _ place, hw => spells_number hw place
  | .variable _ _, hw => .name hw
  | .negate operand _, hw => by
      rw [text, String.toList_append, tokenCount]
      exact ((spells operand hw).enclose _).minus
  | .binary op left right _, hw => by
      have hspells := Spells.binary op
        ((spells left hw.1).enclose (decide (left.precedence < op.precedence)))
        ((spells right hw.2).enclose (decide (right.precedence ≤ op.precedence)))
      rw [text, tokenCount]
      simpa using hspells
  | .call _ arguments _, hw => by
      rw [text, tokenCount]
      simpa using Spells.call hw.1 (spellsArguments arguments hw.2)

theorem spellsArguments : (es : List Expr) → AllWritable es →
    Spells (argumentsText es).toList (argumentsCount es)
  | [], _ => fun _ => ⟨[], .nil, rfl⟩
  | [e], hw => by simpa [argumentsText, argumentsCount] using spells e hw.1
  | e :: f :: fs, hw => by
      have hothers := spellsArguments (f :: fs) hw.2
      simpa [argumentsText, argumentsCount] using (spells e hw.1).cons hothers

end

/-! ### How many tokens a derivation needs -/

/-- How many tokens a tree takes in the place of a phrase: with parentheses, where it binds
weaker. -/
def countAs (p : Phrase) (e : Expr) : Nat :=
  encloseCount (decide (e.precedence < p.tightness)) e.tokenCount

theorem one_le_precedence (e : Expr) : 1 ≤ e.precedence := by
  rw [← tightness_phrase]
  exact one_le_tightness _

theorem countAs_of_le {p : Phrase} {e : Expr} (h : p.tightness ≤ e.precedence) :
    countAs p e = e.tokenCount := by
  simp [countAs, encloseCount, h]

theorem countAs_sum (e : Expr) : countAs .sum e = e.tokenCount :=
  countAs_of_le (one_le_precedence e)

theorem countAs_le (p : Phrase) (e : Expr) : countAs p e ≤ e.tokenCount + 2 := by
  unfold countAs encloseCount
  split <;> omega

/-- A looser phrase demands no more parentheses. -/
theorem countAs_mono {p q : Phrase} (h : p.tightness ≤ q.tightness) (e : Expr) :
    countAs p e ≤ countAs q e := by
  unfold countAs encloseCount
  simp only [decide_eq_true_eq]
  split <;> split <;> omega

theorem argumentsCount_cons_le (e : Expr) (es : List Expr) :
    argumentsCount (e :: es) ≤ e.tokenCount + 1 + argumentsCount es := by
  cases es with
  | nil =>
      rw [argumentsCount, argumentsCount]
      omega
  | cons f fs => rw [argumentsCount]; simp

theorem countAs_phrase (op : BinaryOp) (e : Expr) :
    countAs op.phrase e = encloseCount (decide (e.precedence < op.precedence)) e.tokenCount := by
  rw [countAs, op.tightness_phrase]

theorem countAs_operand (op : BinaryOp) (e : Expr) :
    countAs op.operand e = encloseCount (decide (e.precedence ≤ op.precedence)) e.tokenCount := by
  rw [countAs, op.tightness_operand]
  simp only [Nat.lt_succ_iff]

end Expr

open Scorecard.Expr

mutual

/-- **No derivation of a tree has fewer tokens than its text.** -/
theorem Derives.countAs_le {p : Phrase} {ts : List Token} {e : Expr} {n : Nat} :
    Derives p ts e n → e.NoneNegative → countAs p e ≤ ts.length
  | .number _, he => by
      rw [countAs_of_le (by rw [precedence, if_neg he]; rfl), tokenCount, if_neg he, List.length_singleton]
  | .variable _, _ => by
      rw [countAs_of_le (by rfl), tokenCount, List.length_singleton]
  | .group (e := e) _ inner _, he => by
      have hinner := inner.countAs_le he
      have hle := Expr.countAs_le .primary e
      rw [countAs_sum] at hinner
      simp only [List.length_cons, List.length_append, List.length_nil]
      omega
  | .call _ _ given _, he => by
      have hgiven := given.count_le he
      rw [countAs_of_le (by rfl), tokenCount]
      simp only [List.length_cons, List.length_append, List.length_nil]
      omega
  | .negate (e := operand) _ inner, he => by
      have hinner : encloseCount (decide (operand.precedence < negationPrecedence)) operand.tokenCount ≤
        _ := inner.countAs_le he
      rw [countAs_of_le (by rfl), tokenCount, List.length_cons]
      omega
  | @Derives.binary op _ _ _ _ _ _ _ left _ right, he => by
      have hleft := left.countAs_le he.1
      have hright := right.countAs_le he.2
      rw [countAs_phrase] at hleft
      rw [countAs_operand] at hright
      rw [countAs_of_le (by rw [op.tightness_phrase]; rfl), tokenCount, List.length_append,
        List.length_cons]
      omega
  | .primary (e := e) h, he => (countAs_mono (by decide) e).trans (h.countAs_le he)
  | .factor (e := e) h, he => (countAs_mono (by decide) e).trans (h.countAs_le he)
  | .product (e := e) h, he => (countAs_mono (by decide) e).trans (h.countAs_le he)

theorem DerivesArguments.count_le {ts : List Token} {es : List Expr} {n : Nat} :
    DerivesArguments ts es n → AllNoneNegative es → argumentsCount es ≤ ts.length
  | .none, _ => Nat.zero_le _
  | .some h, hes => h.count_le hes

theorem DerivesList.count_le {ts : List Token} {es : List Expr} {n : Nat} :
    DerivesList ts es n → AllNoneNegative es → argumentsCount es ≤ ts.length
  | .one h, hes => by
      have hone := h.countAs_le hes.1
      rwa [countAs_sum] at hone
  | @DerivesList.more _ _ _ e es _ _ h _ others, hes => by
      have hfirst := h.countAs_le hes.1
      have hothers := others.count_le hes.2
      have hcount := argumentsCount_cons_le e es
      rw [countAs_sum] at hfirst
      rw [List.length_append, List.length_cons]
      omega

end

/-! ### Trees that were parsed -/

namespace Expr

mutual

/-- The numbers of a tree are finite. -/
def LiteralsFinite : Expr → Prop
  | .missing => True
  | .number x _ => Binary64.isFinite x = true
  | .variable _ _ => True
  | .negate operand _ => operand.LiteralsFinite
  | .binary _ left right _ => left.LiteralsFinite ∧ right.LiteralsFinite
  | .call _ arguments _ => AllLiteralsFinite arguments

/-- The same of each of some trees. -/
def AllLiteralsFinite : List Expr → Prop
  | [] => True
  | e :: es => e.LiteralsFinite ∧ AllLiteralsFinite es

end

mutual

/-- The tree is one that a text can have: its numbers come without a sign, and its names are
names of the alphabet. -/
def Legible : Expr → Prop
  | .missing => False
  | .number x _ => Binary64.Magnitude x
  | .variable name _ => IsName name
  | .negate operand _ => operand.Legible
  | .binary _ left right _ => left.Legible ∧ right.Legible
  | .call name arguments _ => IsName name ∧ AllLegible arguments

/-- The same of each of some trees. -/
def AllLegible : List Expr → Prop
  | [] => True
  | e :: es => e.Legible ∧ AllLegible es

end

mutual

theorem Legible.noneNegative : (e : Expr) → e.Legible → e.NoneNegative
  | .missing, h => h.elim
  | .number _ _, h => Binary64.Magnitude.not_lt_zero h
  | .variable _ _, _ => trivial
  | .negate operand _, h => Legible.noneNegative operand h
  | .binary _ left right _, h => ⟨Legible.noneNegative left h.1, Legible.noneNegative right h.2⟩
  | .call _ arguments _, h => AllLegible.noneNegative arguments h.2

theorem AllLegible.noneNegative : (es : List Expr) → AllLegible es → AllNoneNegative es
  | [], _ => trivial
  | e :: es, h => ⟨Legible.noneNegative e h.1, AllLegible.noneNegative es h.2⟩

end

mutual

/-- A tree that a text can have is written again, if its numbers are finite. -/
theorem Legible.writable : (e : Expr) → e.Legible → e.LiteralsFinite → e.Writable
  | .missing, h, _ => h
  | .number _ _, _, hfinite => hfinite
  | .variable _ _, h, _ => h
  | .negate operand _, h, hfinite => Legible.writable operand h hfinite
  | .binary _ left right _, h, hfinite =>
      ⟨Legible.writable left h.1 hfinite.1, Legible.writable right h.2 hfinite.2⟩
  | .call _ arguments _, h, hfinite => ⟨h.1, AllLegible.writable arguments h.2 hfinite⟩

theorem AllLegible.writable : (es : List Expr) → AllLegible es → AllLiteralsFinite es → AllWritable es
  | [], _, _ => trivial
  | e :: es, h, hfinite => ⟨Legible.writable e h.1 hfinite.1, AllLegible.writable es h.2 hfinite.2⟩

end

end Expr

open Token

mutual

/-- What derives from the tokens of a text is legible. -/
theorem Derives.legible {p : Phrase} {ts : List Token} {e : Expr} {n : Nat} :
    Derives p ts e n → (∀ t ∈ ts, t.Scanned) → e.Legible
  | .number ht, hts => by
      obtain ⟨numeral, rfl⟩ := (hts _ List.mem_cons_self).number _ ht
      exact numeral.toDecimal.magnitude_toFloat
  | .variable ht, hts => by
      obtain ⟨c, more, hspelling, hname⟩ := (hts _ List.mem_cons_self).name ht
      exact ⟨_, c, more, rfl, hspelling, hname⟩
  | .group _ inner _, hts => inner.legible fun t ht => hts t (by simp [ht])
  | .call hf _ given _, hts => by
      obtain ⟨c, more, hspelling, hname⟩ := (hts _ List.mem_cons_self).name hf
      exact ⟨⟨_, c, more, rfl, hspelling, hname⟩, given.legible fun t ht => hts t (by simp [ht])⟩
  | .negate _ inner, hts => inner.legible fun t ht => hts t (List.mem_cons_of_mem _ ht)
  | .binary left _ right, hts =>
      ⟨left.legible fun t ht => hts t (by simp [ht]), right.legible fun t ht => hts t (by simp [ht])⟩
  | .primary h, hts => h.legible hts
  | .factor h, hts => h.legible hts
  | .product h, hts => h.legible hts

theorem DerivesArguments.legible {ts : List Token} {es : List Expr} {n : Nat} :
    DerivesArguments ts es n → (∀ t ∈ ts, t.Scanned) → AllLegible es
  | .none, _ => trivial
  | .some h, hts => h.legible hts

theorem DerivesList.legible {ts : List Token} {es : List Expr} {n : Nat} :
    DerivesList ts es n → (∀ t ∈ ts, t.Scanned) → AllLegible es
  | .one h, hts => ⟨h.legible hts, trivial⟩
  | .more h _ others, hts =>
      ⟨h.legible fun t ht => hts t (by simp [ht]), others.legible fun t ht => hts t (by simp [ht])⟩

end

/-! ### Formulas -/

namespace Expr

/-- The text of a tree that can be written has so many tokens. -/
theorem length_of_text {e : Expr} (hw : e.Writable) {list : TokenList}
    (h : TokenList.ofText e.text = .ok list) : list.tokens.length = e.tokenCount := by
  obtain ⟨ts, hlex, hlength⟩ := spells e hw 0
  rw [hlex.ofText] at h
  cases h
  exact hlength

/-- A tree is read back from its text within limits that admit so many tokens and so deep a
tree. -/
theorem parse_text {registry : Registry} {limits : Limits} {e : Expr} (hmax : 1 ≤ limits.maxDepth)
    (hw : e.Writable) (hnone : e.NoneNegative) (hcalls : e.CallsFit registry)
    (hfew : (e.tokenCount : Int) ≤ limits.maxTokens) (hshallow : (e.depth : Int) ≤ limits.maxDepth) :
    ∃ list tree, TokenList.ofText e.text = .ok list ∧ parse registry limits e.text = .ok tree ∧
      tree.same e = true := by
  obtain ⟨k, ⟨ts, tree, hlex, hd, hsame, hfits⟩, hk, -⟩ := printed e hw hcalls 0
  rw [normal_eq_self e hnone] at hsame hk
  have hlength : ts.length = e.tokenCount := length_of_text hw hlex.ofText
  have hsum : Phrase.sum.tightness ≤ e.phrase.tightness := one_le_tightness _
  have hadmits : TokenList.Admits registry limits ts tree :=
    ⟨by omega, ⟨k, hd.loosen hsum, by omega⟩, hfits, by rwa [depth_eq_of_same _ _ hsame]⟩
  refine ⟨⟨ts, e.text.length⟩, tree, hlex.ofText, ?_, hsame⟩
  unfold parse
  rw [hlex.ofText]
  exact (@TokenList.parse_eq_ok_iff registry limits hmax ⟨ts, e.text.length⟩ tree).mpr hadmits

/-- What a text was parsed as is legible, its calls fit, and it is printed with no more
tokens than the text has. -/
theorem of_parse {registry : Registry} {limits : Limits} {text : String} {e : Expr}
    (hmax : 1 ≤ limits.maxDepth) (h : parse registry limits text = .ok e) :
    e.Legible ∧ e.CallsFit registry ∧ (e.depth : Int) ≤ limits.maxDepth ∧
      ∃ list, TokenList.ofText text = .ok list ∧ e.tokenCount ≤ list.tokens.length ∧
        (list.tokens.length : Int) ≤ limits.maxTokens := by
  unfold parse at h
  split at h
  · cases h
  · rename_i list hlist
    obtain ⟨hfew, ⟨n, hderives, -⟩, hcalls, hshallow⟩ := (TokenList.parse_eq_ok_iff hmax).mp h
    have hlegible := hderives.legible (TokenList.scanned hlist)
    have hcount := hderives.countAs_le (Legible.noneNegative e hlegible)
    rw [countAs_sum] at hcount
    exact ⟨hlegible, hcalls, hshallow, list, hlist, hcount, hfew⟩

/--
**Printing gives a shortest formula, and never leaves the limits.**  What was parsed from a
text, with literals that are finite, is printed as a text with at most as many tokens, which
the same limits admit and which is read back as the same tree.
-/
theorem print_shortest (registry : Registry) (limits : Limits) (text : String) (e : Expr)
    (hmax : 1 ≤ limits.maxDepth) (h : parse registry limits text = .ok e)
    (hfinite : e.LiteralsFinite) :
    ∃ printed list shortest, e.print = .ok (.str printed) ∧ TokenList.ofText text = .ok list ∧
      TokenList.ofText printed = .ok shortest ∧
      shortest.tokens.length ≤ list.tokens.length ∧
      ∃ tree, parse registry limits printed = .ok tree ∧ tree.same e = true := by
  obtain ⟨hlegible, hcalls, hshallow, list, hlist, hcount, hfew⟩ := of_parse hmax h
  have hw := Legible.writable e hlegible hfinite
  obtain ⟨shortest, tree, hshortest, hparse, hsame⟩ :=
    parse_text hmax hw (Legible.noneNegative e hlegible) hcalls (by omega) hshallow
  have hlength := length_of_text hw hshortest
  exact ⟨e.text, list, shortest, print_eq_text hw, hlist, hshortest, by omega, tree, hparse, hsame⟩

/-- The theorem for a variable in parentheses, which the printer leaves out. -/
theorem print_shortest_group :
    (1 : Int) ≤ 2 ∧ (Expr.variable (.str "x") (some 1)).LiteralsFinite ∧
      parse Registry.standard ⟨2, 3⟩ "(x)" = .ok (.variable (.str "x") (some 1)) ∧
        ∃ printed list shortest,
          (Expr.variable (.str "x") (some 1)).print = .ok (.str printed) ∧
            TokenList.ofText "(x)" = .ok list ∧ TokenList.ofText printed = .ok shortest ∧ shortest.tokens.length ≤ list.tokens.length ∧
              ∃ tree, parse Registry.standard ⟨2, 3⟩ printed = .ok tree ∧
                tree.same (.variable (.str "x") (some 1)) = true := by
  have hname : Token.Lexes 1 ['x'] [⟨.name, "x", 1⟩] := .name rfl (by simp)
  have hlexes : Token.Lexes 0 "(x)".toList
      [⟨.opening, "(", 0⟩, ⟨.name, "x", 1⟩, ⟨.closing, ")", 2⟩] :=
    .sign rfl (hname.append rfl (.sign rfl .nil))
  have hgroup : Derives .primary [⟨.opening, "(", 0⟩, ⟨.name, "x", 1⟩, ⟨.closing, ")", 2⟩]
      (.variable (.str "x") (some 1)) 1 :=
    .group rfl (.product (.factor (.primary (.variable rfl)))) rfl
  have hparse : parse Registry.standard ⟨2, 3⟩ "(x)" = .ok (.variable (.str "x") (some 1)) := by
    unfold parse
    rw [hlexes.ofText]
    exact (TokenList.parse_eq_ok_iff (by decide)).mpr
      ⟨by decide, ⟨1, .product (.factor (.primary hgroup)), by decide⟩, trivial, by decide⟩
  exact ⟨by decide, trivial, hparse,
    print_shortest Registry.standard ⟨2, 3⟩ "(x)" _ (by decide) hparse trivial⟩

end Expr

end Scorecard
