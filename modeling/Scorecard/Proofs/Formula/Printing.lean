/-
Texts that derive from the grammar.

The printer and the grammar agree on how tightly a construct binds: the printer has a
number for it and the grammar a phrase, and `Phrase.tightness` ties the two together.
`Writes` says of a text that it is cut into tokens which derive from a phrase with a
given tree, wherever the nodes of the tree stand.  There is one lemma for each way to
build a text: a name, a sign in front, an operator between, a group, a call.

The tree of a text cannot hold a negative number, because the sign is a node of its
own.  So the tree that is given is one in which each negative number is taken apart,
`Expr.normal`.
-/
import Scorecard.Formula.Metrics
import Scorecard.Formula.Printer
import Scorecard.Proofs.Formula.Grammar
import Scorecard.Proofs.Formula.Lexing

namespace Scorecard

/-! ### Tightness -/

/-- How tightly a phrase binds at least, in the printer's numbers. -/
def Phrase.tightness : Phrase → Nat
  | .sum => 1
  | .product => 2
  | .factor => Expr.negationPrecedence
  | .primary => Expr.atomPrecedence

theorem BinaryOp.tightness_phrase (op : BinaryOp) : op.phrase.tightness = op.precedence := by
  cases op <;> rfl

theorem BinaryOp.tightness_operand (op : BinaryOp) : op.operand.tightness = op.precedence + 1 := by
  cases op <;> rfl

/-- What derives from a phrase derives from the looser ones. -/
theorem Derives.loosen {p q : Phrase} {ts : List Token} {e : Expr} {n : Nat}
    (h : p.tightness ≤ q.tightness) (hd : Derives q ts e n) : Derives p ts e n := by
  cases p with
  | primary =>
      cases q with
      | primary => exact hd
      | sum => exact absurd h (by decide)
      | product => exact absurd h (by decide)
      | factor => exact absurd h (by decide)
  | factor =>
      cases q with
      | primary => exact .primary hd
      | factor => exact hd
      | sum => exact absurd h (by decide)
      | product => exact absurd h (by decide)
  | product =>
      cases q with
      | primary => exact .factor (.primary hd)
      | factor => exact .factor hd
      | product => exact hd
      | sum => exact absurd h (by decide)
  | sum =>
      cases q with
      | primary => exact .product (.factor (.primary hd))
      | factor => exact .product (.factor hd)
      | product => exact .product hd
      | sum => exact hd

namespace Expr

/-! ### Trees that can be read back -/

mutual

/-- The tree with a sign of its own in front of each number below zero. -/
def normal : Expr → Expr
  | .missing => .missing
  | .number x position =>
    if x < 0 then .negate (.number (-x) position) position else .number x position
  | .variable name position => .variable name position
  | .negate operand position => .negate operand.normal position
  | .binary op left right position => .binary op left.normal right.normal position
  | .call name arguments position => .call name (allNormal arguments) position

/-- The same of each of some trees. -/
def allNormal : List Expr → List Expr
  | [] => []
  | e :: es => e.normal :: allNormal es

end

theorem length_allNormal (es : List Expr) : (allNormal es).length = es.length := by
  induction es with
  | nil => rfl
  | cons e rest ih => rw [allNormal, List.length_cons, List.length_cons, ih]

/-- The value is a name of the alphabet of formulas: a letter or underscore, then
letters, digits and underscores. -/
def IsName (name : Value) : Prop :=
  ∃ (s : String) (c : Char) (more : List Char), name = .str s ∧ s.toList = c :: more ∧
    Token.startsName c = true ∧ ∀ d ∈ more, Token.continuesName d = true

mutual

/-- The tree has no gaps, its numbers are finite, and its names are names of the
alphabet. -/
def Writable : Expr → Prop
  | .missing => False
  | .number x _ => Binary64.isFinite x = true
  | .variable name _ => IsName name
  | .negate operand _ => operand.Writable
  | .binary _ left right _ => left.Writable ∧ right.Writable
  | .call name arguments _ => IsName name ∧ AllWritable arguments

/-- The same of each of some trees. -/
def AllWritable : List Expr → Prop
  | [] => True
  | e :: es => e.Writable ∧ AllWritable es

end

/-- The phrase that the text of a tree derives from. -/
def phrase : Expr → Phrase
  | .binary op _ _ _ => op.phrase
  | .negate _ _ => .factor
  | .number x _ => if x < 0 then .factor else .primary
  | _ => .primary

theorem tightness_phrase (e : Expr) : e.phrase.tightness = e.precedence := by
  cases e with
  | number x position =>
      simp only [phrase, precedence]
      by_cases h : x < 0
      · rw [if_pos h, if_pos h]
        rfl
      · rw [if_neg h, if_neg h]
        rfl
  | binary op left right position => exact op.tightness_phrase
  | missing => rfl
  | «variable» name position => rfl
  | negate operand position => rfl
  | call name arguments position => rfl

theorem length_eq_of_sameAll {as bs : List Expr} (h : sameAll as bs = true) :
    as.length = bs.length := by
  induction as generalizing bs with
  | nil =>
      cases bs with
      | nil => rfl
      | cons b rest => cases h
  | cons a more ih =>
      cases bs with
      | nil => cases h
      | cons b rest =>
          rw [sameAll, Bool.and_eq_true] at h
          rw [List.length_cons, List.length_cons, ih h.2]

mutual

/-- Trees that are the same have one depth. -/
theorem depth_eq_of_same : (a b : Expr) → a.same b = true → a.depth = b.depth
  | .missing, b, h => by
      cases b <;> first | rfl | cases h
  | .number x _, b, h => by
      cases b <;> first | rfl | cases h
  | .variable m _, b, h => by
      cases b <;> first | rfl | cases h
  | .negate a _, b, h => by
      cases b with
      | negate c place => rw [depth, depth, depth_eq_of_same a c (by simpa [same] using h)]
      | _ => cases h
  | .binary o a b _, e, h => by
      cases e with
      | binary q c d place =>
          rw [same, Bool.and_eq_true, Bool.and_eq_true] at h
          rw [depth, depth, depth_eq_of_same a c h.1.2, depth_eq_of_same b d h.2]
      | _ => cases h
  | .call m as _, e, h => by
      cases e with
      | call n bs place =>
          rw [same, Bool.and_eq_true] at h
          rw [depth, depth, greatestDepth_eq_of_sameAll as bs h.2]
      | _ => cases h

/-- The same of lists of trees. -/
theorem greatestDepth_eq_of_sameAll :
    (as bs : List Expr) → sameAll as bs = true → greatestDepth as = greatestDepth bs
  | [], bs, h => by
      cases bs with
      | nil => rfl
      | cons b rest => cases h
  | a :: as, bs, h => by
      cases bs with
      | nil => cases h
      | cons b rest =>
          rw [sameAll, Bool.and_eq_true] at h
          rw [greatestDepth, greatestDepth, depth_eq_of_same a b h.1,
            greatestDepth_eq_of_sameAll as rest h.2]

end

/-! ### Texts that derive -/

/-- The text at this place is cut into tokens that derive from the phrase with this
nesting, and their tree is the one given, wherever its nodes stand. -/
def Writes (registry : Registry) (position : Nat) (text : List Char) (p : Phrase) (e : Expr)
    (n : Nat) : Prop :=
  ∃ ts tree, Token.Lexes position text ts ∧ Derives p ts tree n ∧ tree.same e = true ∧
    tree.CallsFit registry

/-- The text between the parentheses of a call is cut into tokens that derive as its
arguments. -/
def WritesArguments (registry : Registry) (position : Nat) (text : List Char) (es : List Expr)
    (n : Nat) : Prop :=
  ∃ ts trees, Token.Lexes position text ts ∧ DerivesArguments ts trees n ∧
    sameAll trees es = true ∧ AllCallsFit registry trees

/-- The same of a list that is not empty. -/
def WritesList (registry : Registry) (position : Nat) (text : List Char) (es : List Expr)
    (n : Nat) : Prop :=
  ∃ ts trees, Token.Lexes position text ts ∧ DerivesList ts trees n ∧ sameAll trees es = true ∧
    AllCallsFit registry trees

variable {registry : Registry} {position m n : Nat} {text : List Char} {p q : Phrase} {e : Expr}

theorem Writes.loosen (h : p.tightness ≤ q.tightness) (hw : Writes registry position text q e n) :
    Writes registry position text p e n := by
  obtain ⟨ts, tree, hlex, hd, hsame, hcalls⟩ := hw
  exact ⟨ts, tree, hlex, hd.loosen h, hsame, hcalls⟩

private theorem signKind_opening : Token.signKind? '(' = some .opening := rfl

private theorem signKind_closing : Token.signKind? ')' = some .closing := rfl

private theorem signKind_comma : Token.signKind? ',' = some .comma := rfl

/-- Text between parentheses is a primary, nested once more. -/
theorem Writes.group (hw : Writes registry (position + 1) text .sum e n) :
    Writes registry position ('(' :: (text ++ [')'])) .primary e (n + 1) := by
  obtain ⟨ts, tree, hlex, hd, hsame, hcalls⟩ := hw
  have ho : (⟨.opening, String.ofList ['('], position⟩ : Token).kind = .opening := rfl
  have hc : (⟨.closing, String.ofList [')'], position + 1 + text.length⟩ : Token).kind = .closing :=
    rfl
  have hlexes := (hlex.append rfl (.sign signKind_closing .nil)).sign signKind_opening
  exact ⟨_, tree, hlexes, .group ho hd hc, hsame, hcalls⟩

/-- A sign in front of a factor is a factor, nested once more. -/
theorem Writes.minus {place : Option Nat} (hw : Writes registry (position + 1) text .factor e n) :
    Writes registry position ('-' :: text) .factor (.negate e place) (n + 1) := by
  obtain ⟨ts, tree, hlex, hd, hsame, hcalls⟩ := hw
  have ht : (⟨.minus, String.ofList ['-'], position⟩ : Token).kind = .minus := rfl
  refine ⟨_, _, hlex.sign rfl, .negate ht hd, ?_, hcalls⟩
  rw [same, hsame]

/-- The sign of an operator is one character. -/
theorem symbol_eq (op : BinaryOp) :
    ∃ c, op.symbol.toList = [c] ∧ Token.signKind? c = some op.kind := by
  cases op with
  | add => exact ⟨'+', rfl, rfl⟩
  | subtract => exact ⟨'-', rfl, rfl⟩
  | multiply => exact ⟨'*', rfl, rfl⟩
  | divide => exact ⟨'/', rfl, rfl⟩

/-- Two operands with an operator between them, blanks around it. -/
theorem Writes.binary {op : BinaryOp} {left right : List Char} {a b : Expr} {place : Option Nat}
    (hl : Writes registry position left op.phrase a m)
    (hr : Writes registry (position + left.length + 3) right op.operand b n) :
    Writes registry position (left ++ ' ' :: (op.symbol.toList ++ ' ' :: right)) op.phrase
      (.binary op a b place) (max m n) := by
  obtain ⟨ts, tree, hlex, hd, hsame, hcalls⟩ := hl
  obtain ⟨us, tree', hlex', hd', hsame', hcalls'⟩ := hr
  obtain ⟨c, hc, hkind⟩ := symbol_eq op
  have ht : (⟨op.kind, String.ofList [c], position + left.length + 1⟩ : Token).kind = op.kind := rfl
  have hlexes := hlex.append rfl (.blank (.sign hkind (.blank hlex')))
  rw [hc]
  refine ⟨_, _, hlexes, .binary hd ht hd', ?_, hcalls, hcalls'⟩
  rw [same, hsame, hsame', beq_self_eq_true]
  rfl

/-- A name is a variable. -/
theorem Writes.variable {name : Value} {place : Option Nat} (h : IsName name) :
    Writes registry position name.display.toList .primary (.variable name place) 0 := by
  obtain ⟨s, c, more, rfl, hs, hc, hmore⟩ := h
  have ht : (⟨.name, String.ofList (c :: more), position⟩ : Token).kind = .name := rfl
  have hdisplay : (Value.str s).display.toList = c :: more := hs
  rw [hdisplay]
  refine ⟨_, _, .name hc hmore, .variable ht, ?_, trivial⟩
  rw [same, Value.same_str, ← hs, String.ofList_toList, beq_self_eq_true]

/-- A name and arguments between parentheses are a call, nested once more. -/
theorem Writes.call {name : Value} {es : List Expr} {place : Option Nat} (h : IsName name)
    (hfits : ∃ function, registry.findNamed? name = some function ∧ function.arity = es.length)
    (hw : WritesArguments registry (position + name.display.toList.length + 1) text es n) :
    Writes registry position (name.display.toList ++ '(' :: (text ++ [')'])) .primary
      (.call name es place) (n + 1) := by
  obtain ⟨s, c, more, rfl, hs, hc, hmore⟩ := h
  obtain ⟨ts, trees, hlex, hd, hsame, hcalls⟩ := hw
  have hdisplay : (Value.str s).display.toList = c :: more := hs
  rw [hdisplay] at hlex ⊢
  have hf : (⟨.name, String.ofList (c :: more), position⟩ : Token).kind = .name := rfl
  have ho : (⟨.opening, String.ofList ['('], position + (c :: more).length⟩ : Token).kind =
    .opening := rfl
  have hcl : (⟨.closing, String.ofList [')'],
    position + (c :: more).length + 1 + text.length⟩ : Token).kind = .closing := rfl
  have hlexes := (Token.Lexes.name hc hmore).append rfl
    (.sign signKind_opening (hlex.append rfl (.sign signKind_closing .nil)))
  refine ⟨_, _, hlexes, .call hf ho hd hcl, ?_, ?_, hcalls⟩
  · rw [same, Value.same_str, ← hs, String.ofList_toList, beq_self_eq_true, hsame]
    rfl
  · obtain ⟨function, hfound, harity⟩ := hfits
    refine ⟨function, ?_, ?_⟩
    · rw [← hs, String.ofList_toList]
      exact hfound
    · rw [harity, length_eq_of_sameAll hsame]

/-- Between the parentheses of a call there may be nothing. -/
theorem WritesArguments.nil : WritesArguments registry position [] [] 0 :=
  ⟨[], [], .nil, .none, rfl, trivial⟩

theorem WritesList.arguments {es : List Expr} (hw : WritesList registry position text es n) :
    WritesArguments registry position text es n := by
  obtain ⟨ts, trees, hlex, hd, hsame, hcalls⟩ := hw
  exact ⟨ts, trees, hlex, .some hd, hsame, hcalls⟩

theorem WritesArguments.list {es : List Expr}
    (hw : WritesArguments registry position text (e :: es) n) :
    WritesList registry position text (e :: es) n := by
  obtain ⟨ts, trees, hlex, hd, hsame, hcalls⟩ := hw
  cases hd with
  | none => cases hsame
  | some hd => exact ⟨ts, trees, hlex, hd, hsame, hcalls⟩

/-- The last argument. -/
theorem Writes.last (hw : Writes registry position text .sum e n) :
    WritesList registry position text [e] n := by
  obtain ⟨ts, tree, hlex, hd, hsame, hcalls⟩ := hw
  refine ⟨ts, [tree], hlex, .one hd, ?_, hcalls, trivial⟩
  rw [sameAll, hsame]
  rfl

/-- An argument in front of others, a comma and a blank between. -/
theorem Writes.cons {others : List Char} {es : List Expr}
    (hw : Writes registry position text .sum e m)
    (hothers : WritesList registry (position + text.length + 2) others es n) :
    WritesList registry position (text ++ ',' :: ' ' :: others) (e :: es) (max m n) := by
  obtain ⟨ts, tree, hlex, hd, hsame, hcalls⟩ := hw
  obtain ⟨us, trees, hlex', hd', hsame', hcalls'⟩ := hothers
  have hc : (⟨.comma, String.ofList [','], position + text.length⟩ : Token).kind = .comma := rfl
  have hlexes := hlex.append rfl (.sign signKind_comma (.blank hlex'))
  refine ⟨_, _, hlexes, .more hd hc hd', ?_, hcalls, hcalls'⟩
  rw [sameAll, hsame, hsame']
  rfl

end Expr

end Scorecard
