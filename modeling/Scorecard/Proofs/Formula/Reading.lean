/-
The parser's procedures, one equation each.

Every procedure answers with a proof that the rest is shorter, which ends the
recursion and is of no use to anyone else.  A `Reading` is the same answer without
it.  Equations between readings can be rewritten with; equations between steps
cannot, since their types name the tokens.

`Parser.read` is the procedure of a phrase, and `Parser.readRest` the loop that grows
a sum or a product to the right.  Both loops have one equation, in which only the
operators differ.
-/
import Scorecard.Proofs.Formula.Grammar

namespace Scorecard.Parser

/-- What was read from the front of some tokens, its depth, and the tokens behind it. -/
structure Reading (α : Type) where
  found : α
  depth : Nat
  rest : List Token

def Step.reading {tokens : List Token} (s : Step tokens) : Reading Expr :=
  ⟨s.tree, s.depth, s.rest⟩

def Growth.reading {tokens : List Token} (g : Growth tokens) : Reading Expr :=
  ⟨g.tree, g.depth, g.rest⟩

def Arguments.reading {tokens : List Token} (a : Arguments tokens) : Reading (List Expr) :=
  ⟨a.trees, a.depth, a.rest⟩

variable (ctx : Context) (level : Nat)

/-- The procedure of a phrase. -/
def read : Phrase → List Token → Except ParseError (Reading Expr)
  | .sum, tokens => (sum ctx level tokens).map Step.reading
  | .product, tokens => (product ctx level tokens).map Step.reading
  | .factor, tokens => (factor ctx level tokens).map Step.reading
  | .primary, [] => .error (.unexpectedEnd ctx.stop)
  | .primary, t :: ts => (primary ctx level t ts).map Step.reading

/-- The loop that grows a phrase to the right; only sums and products have one. -/
def readRest : Phrase → Expr → Nat → List Token → Except ParseError (Reading Expr)
  | .sum, left, depth, tokens => (sumRest ctx level left depth tokens).map Growth.reading
  | .product, left, depth, tokens => (productRest ctx level left depth tokens).map Growth.reading
  | _, left, depth, tokens => .ok ⟨left, depth, tokens⟩

/-- The arguments behind the opening parenthesis of a call. -/
def readArguments (opening : Token) (tokens : List Token) : Except ParseError (Reading (List Expr)) :=
  (arguments ctx level opening tokens).map Arguments.reading

/-- At least one argument. -/
def readList (opening : Token) (tokens : List Token) : Except ParseError (Reading (List Expr)) :=
  (someArguments ctx level opening tokens).map Arguments.reading

/-- The operator that a token is at a phrase. -/
def operator? : Phrase → Token.Kind → Option BinaryOp
  | .sum => sumOp?
  | .product => productOp?
  | _ => fun _ => none

theorem operator?_eq_some {op : BinaryOp} {p : Phrase} {k : Token.Kind} :
    operator? p k = some op ↔ p = op.phrase ∧ k = op.kind := by
  cases p <;> cases op <;> cases k <;>
    simp [operator?, sumOp?, productOp?, BinaryOp.phrase, BinaryOp.kind]

/-! ### Sums and products -/

theorem read_operators (op : BinaryOp) (tokens : List Token) :
    read ctx level op.phrase tokens =
      match read ctx level op.operand tokens with
      | .error e => .error e
      | .ok r => readRest ctx level op.phrase r.found r.depth r.rest := by
  cases op
  case add | subtract =>
    simp only [BinaryOp.phrase, BinaryOp.operand, read, readRest]
    rw [sum]
    cases product ctx level tokens with
    | error e => rfl
    | ok first =>
        simp only [Except.map, Step.reading]
        cases sumRest ctx level first.tree first.depth first.rest <;> rfl
  case multiply | divide =>
    simp only [BinaryOp.phrase, BinaryOp.operand, read, readRest]
    rw [product]
    cases factor ctx level tokens with
    | error e => rfl
    | ok first =>
        simp only [Except.map, Step.reading]
        cases productRest ctx level first.tree first.depth first.rest <;> rfl

@[simp] theorem readRest_nil (p : Phrase) (left : Expr) (depth : Nat) :
    readRest ctx level p left depth [] = .ok ⟨left, depth, []⟩ := by
  cases p <;> simp [readRest, sumRest, productRest, Except.map, Growth.reading]

theorem readRest_of_none {p : Phrase} {t : Token} (h : operator? p t.kind = none) (left : Expr)
    (depth : Nat) (ts : List Token) :
    readRest ctx level p left depth (t :: ts) = .ok ⟨left, depth, t :: ts⟩ := by
  cases p with
  | sum => simp only [operator?] at h; rw [readRest, sumRest]; simp [h, Except.map, Growth.reading]
  | product =>
      simp only [operator?] at h; rw [readRest, productRest]; simp [h, Except.map, Growth.reading]
  | factor => rfl
  | primary => rfl

theorem readRest_operator {op : BinaryOp} {t : Token} (ht : t.kind = op.kind) (left : Expr)
    (depth : Nat) (ts : List Token) :
    readRest ctx level op.phrase left depth (t :: ts) =
      match read ctx level op.operand ts with
      | .error e => .error e
      | .ok r =>
        if ctx.maxDepth < (1 + max depth r.depth : Nat) then
          .error (.tooDeep ctx.maxDepth t.position)
        else
          readRest ctx level op.phrase (.binary op left r.found (some t.position))
            (1 + max depth r.depth) r.rest := by
  have hop : operator? op.phrase t.kind = some op := operator?_eq_some.mpr ⟨rfl, ht⟩
  cases op
  case add | subtract =>
    simp only [BinaryOp.phrase, BinaryOp.operand, operator?] at hop ⊢
    rw [readRest, sumRest]
    simp only [hop, read]
    cases product ctx level ts with
    | error e => rfl
    | ok right =>
        simp only [Except.map, Step.reading, readRest]
        by_cases hd : ctx.maxDepth < (1 + max depth right.depth : Nat)
        · rw [if_pos hd, if_pos hd]
        · rw [if_neg hd, if_neg hd]
          cases sumRest ctx level _ (1 + max depth right.depth) right.rest <;> rfl
  case multiply | divide =>
    simp only [BinaryOp.phrase, BinaryOp.operand, operator?] at hop ⊢
    rw [readRest, productRest]
    simp only [hop, read]
    cases factor ctx level ts with
    | error e => rfl
    | ok right =>
        simp only [Except.map, Step.reading, readRest]
        by_cases hd : ctx.maxDepth < (1 + max depth right.depth : Nat)
        · rw [if_pos hd, if_pos hd]
        · rw [if_neg hd, if_neg hd]
          cases productRest ctx level _ (1 + max depth right.depth) right.rest <;> rfl

/-! ### Factors and primaries -/

theorem read_factor_nil : read ctx level .factor [] = .error (.unexpectedEnd ctx.stop) := by
  rw [read, factor]; rfl

theorem read_minus {t : Token} (ht : t.kind = .minus) (ts : List Token) :
    read ctx level .factor (t :: ts) =
      if ctx.maxDepth < level + 1 then .error (.nestedTooDeep ctx.maxDepth t.position)
      else
        match read ctx (level + 1) .factor ts with
        | .error e => .error e
        | .ok r =>
          if ctx.maxDepth < r.depth + 1 then .error (.tooDeep ctx.maxDepth t.position)
          else .ok ⟨.negate r.found (some t.position), r.depth + 1, r.rest⟩ := by
  rw [read, factor]
  simp only [ht, read]
  by_cases hl : ctx.maxDepth < level + 1
  · rw [if_pos hl, if_pos hl]; rfl
  · rw [if_neg hl, if_neg hl]
    cases factor ctx (level + 1) ts with
    | error e => rfl
    | ok operand =>
        simp only [Except.map, Step.reading]
        by_cases hd : ctx.maxDepth < operand.depth + 1
        · rw [if_pos hd, if_pos hd]
        · rw [if_neg hd, if_neg hd]

theorem read_factor_of_ne_minus {t : Token} (ht : t.kind ≠ .minus) (ts : List Token) :
    read ctx level .factor (t :: ts) = read ctx level .primary (t :: ts) := by
  rw [read, factor, read]
  split
  · exact absurd ‹_› ht
  · rfl

theorem read_number {t : Token} {x : Float} (ht : t.kind = .number x) (ts : List Token) :
    read ctx level .primary (t :: ts) = .ok ⟨.number x (some t.position), 1, ts⟩ := by
  rw [read, primary.eq_def]
  simp only [ht]
  rfl

theorem read_group {t : Token} (ht : t.kind = .opening) (ts : List Token) :
    read ctx level .primary (t :: ts) =
      if ctx.maxDepth < level + 1 then .error (.nestedTooDeep ctx.maxDepth t.position)
      else
        match read ctx (level + 1) .sum ts with
        | .error e => .error e
        | .ok r =>
          match r.rest with
          | ⟨.closing, _, _⟩ :: behind => .ok ⟨r.found, r.depth, behind⟩
          | others => .error (notClosed t others) := by
  simp only [read]
  rw [primary.eq_def]
  simp only [ht]
  by_cases hl : ctx.maxDepth < level + 1
  · rw [if_pos hl, if_pos hl]; rfl
  · rw [if_neg hl, if_neg hl]
    cases sum ctx (level + 1) ts with
    | error e => rfl
    | ok inner =>
        obtain ⟨tree, depth, rest, _⟩ := inner
        rcases rest with _ | ⟨⟨kind, text, position⟩, behind⟩
        · rfl
        · cases kind <;> rfl

theorem read_variable {t : Token} (ht : t.kind = .name) {ts : List Token}
    (hts : ∀ o, ts.head? = some o → o.kind ≠ .opening) :
    read ctx level .primary (t :: ts) = .ok ⟨.variable (.str t.text) (some t.position), 1, ts⟩ := by
  rw [read, primary.eq_def]
  simp only [ht]
  split
  · exact absurd rfl (hts _ rfl)
  · rfl

theorem read_call {t o : Token} (ht : t.kind = .name) (ho : o.kind = .opening) (ts : List Token) :
    read ctx level .primary (t :: o :: ts) =
      match ctx.registry.find? t.text with
      | none => .error (.unknownFunction t.text t.position)
      | some function =>
        if ctx.maxDepth < level + 1 then .error (.nestedTooDeep ctx.maxDepth o.position)
        else
          match readArguments ctx (level + 1) o ts with
          | .error e => .error e
          | .ok given =>
            if (given.found.length : Int) ≠ function.arity then
              .error (.wrongArity t.text function.arity given.found.length t.position)
            else if ctx.maxDepth < given.depth + 1 then .error (.tooDeep ctx.maxDepth t.position)
            else .ok ⟨.call (.str t.text) given.found (some t.position), given.depth + 1, given.rest⟩ := by
  obtain ⟨kind, text, position⟩ := o
  obtain rfl : kind = .opening := ho
  rw [read, primary]
  simp only [ht]
  rw [call]
  cases ctx.registry.find? t.text with
  | none => rfl
  | some function =>
      simp only [readArguments]
      by_cases hl : ctx.maxDepth < level + 1
      · rw [if_pos hl, if_pos hl]; rfl
      · rw [if_neg hl, if_neg hl]
        cases arguments ctx (level + 1) ⟨.opening, text, position⟩ ts with
        | error e => rfl
        | ok given =>
            simp only [Except.map, Arguments.reading]
            by_cases ha : (given.trees.length : Int) ≠ function.arity
            · rw [if_pos ha, if_pos ha]
            · rw [if_neg ha, if_neg ha]
              by_cases hd : ctx.maxDepth < given.depth + 1
              · rw [if_pos hd, if_pos hd]
              · rw [if_neg hd, if_neg hd]; rfl

/-- Only a sign, a number, a parenthesis or a name can start a factor. -/
theorem read_primary_unexpected {t : Token} (hn : ∀ x, t.kind ≠ .number x) (ho : t.kind ≠ .opening)
    (hf : t.kind ≠ .name) (ts : List Token) :
    read ctx level .primary (t :: ts) = .error (unexpected t) := by
  rw [read, primary.eq_def]
  split
  · exact absurd ‹_› (hn _)
  · exact absurd ‹_› ho
  · exact absurd ‹_› hf
  · rfl

/-! ### Arguments -/

theorem readArguments_closing {c : Token} (hc : c.kind = .closing) (opening : Token) (ts : List Token) :
    readArguments ctx level opening (c :: ts) = .ok ⟨[], 0, ts⟩ := by
  obtain ⟨kind, text, position⟩ := c
  obtain rfl : kind = .closing := hc
  rw [readArguments, arguments]
  rfl

theorem readArguments_of_not_closing {ts : List Token}
    (hts : ∀ c, ts.head? = some c → c.kind ≠ .closing) (opening : Token) :
    readArguments ctx level opening ts = readList ctx level opening ts := by
  rw [readArguments, arguments.eq_def]
  split
  · exact absurd rfl (hts _ rfl)
  · rfl

theorem readList_eq (opening : Token) (ts : List Token) :
    readList ctx level opening ts =
      match read ctx level .sum ts with
      | .error e => .error e
      | .ok first =>
        match first.rest with
        | [] => .error (.unclosed opening.position)
        | t :: rest =>
          match t.kind with
          | .comma =>
            match readList ctx level opening rest with
            | .error e => .error e
            | .ok more => .ok ⟨first.found :: more.found, max first.depth more.depth, more.rest⟩
          | .closing => .ok ⟨[first.found], first.depth, rest⟩
          | _ => .error (unexpected t) := by
  rw [readList, someArguments]
  simp only [read]
  cases sum ctx level ts with
  | error e => rfl
  | ok first =>
      obtain ⟨tree, depth, rest, _⟩ := first
      rcases rest with _ | ⟨⟨kind, text, position⟩, behind⟩
      · rfl
      · cases kind
        case comma =>
          simp only [Except.map, Step.reading, readList]
          cases someArguments ctx level opening behind <;> rfl
        all_goals rfl

/-! ### Whole formulas -/

theorem tree_eq (tokens : List Token) :
    tree ctx tokens =
      match read ctx 0 .sum tokens with
      | .error e => .error e
      | .ok r =>
        match r.rest with
        | [] => .ok r.found
        | ⟨.closing, _, position⟩ :: _ => .error (.unopened position)
        | t :: _ => .error (unexpected t) := by
  rw [tree, read]
  cases sum ctx 0 tokens with
  | error e => rfl
  | ok all =>
      obtain ⟨tree, depth, rest, _⟩ := all
      rcases rest with _ | ⟨⟨kind, text, position⟩, behind⟩
      · rfl
      · cases kind <;> rfl

end Scorecard.Parser
