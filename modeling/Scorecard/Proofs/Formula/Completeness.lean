/-
What the grammar derives, the parser reads.

The loops of the parser lean to the left while it runs to the right, so "the front
derives" does not by itself say what a procedure answers: a sum that derives may be
the left operand of a longer one.  The statement that goes through is that reading a
phrase that derives from the front comes to the same as going on with the loop of
that phrase, from the tree of the front.  A factor has no loop, and there it says
that the tree is read.

What stands behind must not belong to the front: no parenthesis, which would make a
call of a name at the end, and behind a sum no operator that binds tighter.
-/
import Scorecard.Proofs.Formula.Soundness

namespace Scorecard

/-! ### How a phrase starts -/

/-- No operator builds a primary. -/
theorem BinaryOp.phrase_ne_primary (op : BinaryOp) : op.phrase ≠ .primary := by
  cases op <;> simp [BinaryOp.phrase]

/-- No phrase starts with a closing parenthesis, and no primary with a sign. -/
theorem Derives.starts {p : Phrase} {ts : List Token} {e : Expr} {n : Nat} :
    Derives p ts e n →
      ∃ t us, ts = t :: us ∧ t.kind ≠ .closing ∧ (p = .primary → t.kind ≠ .minus)
  | .number ht => ⟨_, _, rfl, by simp [ht], by simp [ht]⟩
  | .variable ht => ⟨_, _, rfl, by simp [ht], by simp [ht]⟩
  | .group ho _ _ => ⟨_, _, rfl, by simp [ho], by simp [ho]⟩
  | .call hf _ _ _ => ⟨_, _, rfl, by simp [hf], by simp [hf]⟩
  | .negate ht _ => ⟨_, _, rfl, by simp [ht], by simp⟩
  | @Derives.binary op _ _ _ _ _ _ _ left _ _ => by
      obtain ⟨t, us, rfl, hc, -⟩ := left.starts
      exact ⟨t, _, rfl, hc, fun h => absurd h op.phrase_ne_primary⟩
  | .primary h => by
      obtain ⟨t, us, rfl, hc, -⟩ := h.starts
      exact ⟨t, us, rfl, hc, by simp⟩
  | .factor h => by
      obtain ⟨t, us, rfl, hc, -⟩ := h.starts
      exact ⟨t, us, rfl, hc, by simp⟩
  | .product h => by
      obtain ⟨t, us, rfl, hc, -⟩ := h.starts
      exact ⟨t, us, rfl, hc, by simp⟩

theorem DerivesList.starts {ts : List Token} {es : List Expr} {n : Nat} :
    DerivesList ts es n → ∃ t us, ts = t :: us ∧ t.kind ≠ .closing
  | .one h => by
      obtain ⟨t, us, rfl, hc, -⟩ := h.starts
      exact ⟨t, us, rfl, hc⟩
  | .more h _ _ => by
      obtain ⟨t, us, rfl, hc, -⟩ := h.starts
      exact ⟨t, _, rfl, hc⟩

namespace Parser

variable {ctx : Context}

/-! ### What may stand behind -/

/-- The tokens do not go on with a phrase that stands in front of them. -/
def EndsBefore (p : Phrase) (rest : List Token) : Prop :=
  ∀ t, rest.head? = some t → t.kind ≠ .opening ∧ (p = .sum → operator? .product t.kind = none)

theorem EndsBefore.nil {p : Phrase} : EndsBefore p [] := by
  intro t ht
  simp at ht

theorem EndsBefore.cons {p : Phrase} {t : Token} {rest : List Token} (ho : t.kind ≠ .opening)
    (hop : p = .sum → operator? .product t.kind = none) : EndsBefore p (t :: rest) := by
  intro u hu
  obtain rfl : t = u := by simpa using hu
  exact ⟨ho, hop⟩

/-- Behind a sum nothing goes on with a phrase that binds tighter either. -/
theorem EndsBefore.tighter {p q : Phrase} {rest : List Token} (h : EndsBefore p rest)
    (hq : q ≠ .sum) : EndsBefore q rest :=
  fun t ht => ⟨(h t ht).1, fun hc => absurd hc hq⟩

/-- Behind a sum the loop of its last product has nothing to do. -/
theorem readRest_product_of_endsBefore {level depth : Nat} {rest : List Token} {e : Expr}
    (h : EndsBefore .sum rest) : readRest ctx level .product e depth rest = .ok ⟨e, depth, rest⟩ := by
  cases rest with
  | nil => rw [readRest_nil]
  | cons t ts => rw [readRest_of_none ctx level ((h t rfl).2 rfl)]

/-- Behind an operand of its own the loop of an operand has nothing to do. -/
theorem readRest_operand {op : BinaryOp} {level depth : Nat} {rest : List Token} {e : Expr}
    (h : EndsBefore op.phrase rest) :
    readRest ctx level op.operand e depth rest = .ok ⟨e, depth, rest⟩ := by
  cases op
  case add | subtract => exact readRest_product_of_endsBefore h
  case multiply | divide => rfl

/-! ### What a derivation says -/

/-- Reading the phrase where these tokens stand in front comes to going on with its
loop from the tree. -/
def Accepts (ctx : Context) (p : Phrase) (ts : List Token) (e : Expr) (n : Nat) : Prop :=
  ∀ level rest, Room ctx level n → (e.depth : Int) ≤ ctx.maxDepth → e.CallsFit ctx.registry →
    EndsBefore p rest → read ctx level p (ts ++ rest) = readRest ctx level p e e.depth rest

/-- The list of arguments is read up to the parenthesis behind it. -/
def AcceptsList (ctx : Context) (ts : List Token) (es : List Expr) (n : Nat) : Prop :=
  ∀ level o c rest, c.kind = .closing → Room ctx level n →
    (Expr.greatestDepth es : Int) ≤ ctx.maxDepth → Expr.AllCallsFit ctx.registry es →
    readList ctx level o (ts ++ c :: rest) = .ok ⟨es, Expr.greatestDepth es, rest⟩

/-- The same for arguments that may be none. -/
def AcceptsArguments (ctx : Context) (ts : List Token) (es : List Expr) (n : Nat) : Prop :=
  ∀ level o c rest, c.kind = .closing → Room ctx level n →
    (Expr.greatestDepth es : Int) ≤ ctx.maxDepth → Expr.AllCallsFit ctx.registry es →
    readArguments ctx level o (ts ++ c :: rest) = .ok ⟨es, Expr.greatestDepth es, rest⟩

theorem Room.opened {level n : Nat} (h : Room ctx level (n + 1)) :
    ¬ ctx.maxDepth < level + 1 ∧ Room ctx (level + 1) n := by
  unfold Room at *
  omega

theorem Room.parts {level m n : Nat} (h : Room ctx level (max m n)) :
    Room ctx level m ∧ Room ctx level n := by
  unfold Room at *
  omega

theorem accepts_group {o c : Token} {ts : List Token} {e : Expr} {n : Nat} (ho : o.kind = .opening)
    (hc : c.kind = .closing) (inner : Accepts ctx .sum ts e n) :
    Accepts ctx .primary (o :: (ts ++ [c])) e (n + 1) := by
  intro level rest hroom hdepth hcalls _
  obtain ⟨hl, hroom⟩ := hroom.opened
  have hread := inner (level + 1) (c :: rest) hroom hdepth hcalls
    (.cons (by simp [hc]) (by simp [hc, operator?, productOp?]))
  rw [readRest_of_none ctx (level + 1) (by simp [hc, operator?, sumOp?])] at hread
  obtain ⟨kind, text, position⟩ := c
  obtain rfl : kind = .closing := hc
  rw [List.cons_append, List.append_assoc, List.singleton_append, read_group ctx level ho, if_neg hl,
    hread]
  rfl

theorem accepts_call {f o c : Token} {ts : List Token} {es : List Expr} {n : Nat}
    (hf : f.kind = .name) (ho : o.kind = .opening) (hc : c.kind = .closing)
    (given : AcceptsArguments ctx ts es n) :
    Accepts ctx .primary (f :: o :: (ts ++ [c])) (.call (.str f.text) es (some f.position)) (n + 1) := by
  intro level rest hroom hdepth hcalls _
  obtain ⟨hl, hroom⟩ := hroom.opened
  obtain ⟨⟨function, hfunction, harity⟩, hargs⟩ := hcalls
  have hfind : ctx.registry.find? f.text = some function := hfunction
  rw [Expr.depth] at hdepth
  have hread := given (level + 1) o c rest hc hroom (by omega) hargs
  rw [List.cons_append, List.cons_append, List.append_assoc, List.singleton_append,
    read_call ctx level hf ho, hfind]
  simp only [if_neg hl, hread]
  rw [if_neg (by simp [harity]), if_neg (by omega), readRest, Expr.depth, Nat.add_comm]
  · simp
  · simp

theorem accepts_negate {t : Token} {ts : List Token} {e : Expr} {n : Nat} (ht : t.kind = .minus)
    (inner : Accepts ctx .factor ts e n) :
    Accepts ctx .factor (t :: ts) (.negate e (some t.position)) (n + 1) := by
  intro level rest hroom hdepth hcalls hrest
  obtain ⟨hl, hroom⟩ := hroom.opened
  rw [Expr.depth] at hdepth
  have hread := inner (level + 1) rest hroom (by omega) hcalls hrest
  rw [List.cons_append, read_minus ctx level ht, if_neg hl, hread, readRest]
  · simp only
    rw [if_neg (by omega), readRest, Expr.depth, Nat.add_comm]
    · simp
    · simp
  · simp
  · simp

theorem accepts_binary {op : BinaryOp} {t : Token} {ts us : List Token} {a b : Expr} {m n : Nat}
    (left : Accepts ctx op.phrase ts a m) (ht : t.kind = op.kind)
    (right : Accepts ctx op.operand us b n) :
    Accepts ctx op.phrase (ts ++ t :: us) (.binary op a b (some t.position)) (max m n) := by
  intro level rest hroom hdepth hcalls hrest
  obtain ⟨hm, hn⟩ := hroom.parts
  rw [Expr.depth] at hdepth
  have hbehind : EndsBefore op.phrase (t :: (us ++ rest)) :=
    .cons (by rw [ht]; cases op <;> simp [BinaryOp.kind])
      (by rw [ht]; cases op <;> simp [BinaryOp.kind, BinaryOp.phrase, operator?, productOp?])
  have hleft := left level (t :: (us ++ rest)) hm (by omega) hcalls.1 hbehind
  have hright := right level rest hn (by omega) hcalls.2
    (hrest.tighter (by cases op <;> simp [BinaryOp.operand]))
  rw [readRest_operand hrest] at hright
  rw [List.append_assoc, List.cons_append, hleft, readRest_operator ctx level ht, hright]
  simp only
  rw [if_neg (by omega), Expr.depth]

/-- A primary does not start with a sign, so reading it as a factor reads a primary. -/
theorem accepts_primary {ts : List Token} {e : Expr} {n : Nat} (h : Derives .primary ts e n)
    (inner : Accepts ctx .primary ts e n) : Accepts ctx .factor ts e n := by
  intro level rest hroom hdepth hcalls hrest
  have hread := inner level rest hroom hdepth hcalls (hrest.tighter (by simp))
  obtain ⟨t, us, rfl, -, hminus⟩ := h.starts
  rw [List.cons_append] at hread ⊢
  rw [read_factor_of_ne_minus ctx level (hminus rfl), hread]
  rfl

theorem accepts_factor {ts : List Token} {e : Expr} {n : Nat} (inner : Accepts ctx .factor ts e n) :
    Accepts ctx .product ts e n := by
  intro level rest hroom hdepth hcalls hrest
  have hread := inner level rest hroom hdepth hcalls (hrest.tighter (by simp))
  have hproduct := read_operators ctx level .multiply (ts ++ rest)
  simp only [BinaryOp.phrase, BinaryOp.operand] at hproduct
  rw [hproduct, hread]
  rfl

theorem accepts_product {ts : List Token} {e : Expr} {n : Nat} (inner : Accepts ctx .product ts e n) :
    Accepts ctx .sum ts e n := by
  intro level rest hroom hdepth hcalls hrest
  have hread := inner level rest hroom hdepth hcalls (hrest.tighter (by simp))
  rw [readRest_product_of_endsBefore hrest] at hread
  have hsum := read_operators ctx level .add (ts ++ rest)
  simp only [BinaryOp.phrase, BinaryOp.operand] at hsum
  rw [hsum, hread]

theorem accepts_one {ts : List Token} {e : Expr} {n : Nat} (h : Accepts ctx .sum ts e n) :
    AcceptsList ctx ts [e] n := by
  intro level o c rest hc hroom hdepth hcalls
  simp only [Expr.greatestDepth, Nat.max_zero] at hdepth ⊢
  have hread := h level (c :: rest) hroom hdepth hcalls.1
    (.cons (by simp [hc]) (by simp [hc, operator?, productOp?]))
  rw [readRest_of_none ctx level (by simp [hc, operator?, sumOp?])] at hread
  rw [readList_eq, hread]
  simp only [hc]

theorem accepts_more {d : Token} {ts us : List Token} {e : Expr} {es : List Expr} {m n : Nat}
    (h : Accepts ctx .sum ts e m) (hd : d.kind = .comma) (others : AcceptsList ctx us es n) :
    AcceptsList ctx (ts ++ d :: us) (e :: es) (max m n) := by
  intro level o c rest hc hroom hdepth hcalls
  obtain ⟨hm, hn⟩ := hroom.parts
  rw [Expr.greatestDepth] at hdepth
  have hread := h level (d :: (us ++ c :: rest)) hm (by omega) hcalls.1
    (.cons (by simp [hd]) (by simp [hd, operator?, productOp?]))
  rw [readRest_of_none ctx level (by simp [hd, operator?, sumOp?])] at hread
  have hothers := others level o c rest hc hn (by omega) hcalls.2
  rw [List.append_assoc, List.cons_append, readList_eq, hread]
  simp only [hd, hothers, Expr.greatestDepth]

end Parser

open Scorecard.Parser

variable {ctx : Context}

mutual

/-- **Whatever the grammar derives within the limits, the parser reads.** -/
theorem Derives.accepts {p : Phrase} {ts : List Token} {e : Expr} {n : Nat} :
    Derives p ts e n → Accepts ctx p ts e n
  | .number ht => fun level rest _ _ _ _ => by
      rw [List.singleton_append, read_number ctx level ht]; rfl
  | .variable ht => fun level rest _ _ _ hrest => by
      rw [List.singleton_append, read_variable ctx level ht fun o ho => (hrest o ho).1]; rfl
  | .group ho inner hc => accepts_group ho hc inner.accepts
  | .call hf ho given hc => accepts_call hf ho hc given.accepts
  | .negate ht inner => accepts_negate ht inner.accepts
  | .binary left ht right => accepts_binary left.accepts ht right.accepts
  | .primary h => accepts_primary h h.accepts
  | .factor h => accepts_factor h.accepts
  | .product h => accepts_product h.accepts

theorem DerivesArguments.accepts {ts : List Token} {es : List Expr} {n : Nat} :
    DerivesArguments ts es n → AcceptsArguments ctx ts es n
  | .none => fun level o c rest hc _ _ _ => readArguments_closing ctx level hc o rest
  | .some h => fun level o c rest hc hroom hdepth hcalls => by
      obtain ⟨t, us, hts, ht⟩ := h.starts
      rw [readArguments_of_not_closing ctx level (by rw [hts]; simpa using ht)]
      exact h.accepts level o c rest hc hroom hdepth hcalls

theorem DerivesList.accepts {ts : List Token} {es : List Expr} {n : Nat} :
    DerivesList ts es n → AcceptsList ctx ts es n
  | .one h => accepts_one h.accepts
  | .more h hd others => accepts_more h.accepts hd others.accepts

end

end Scorecard
