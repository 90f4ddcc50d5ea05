/-
What the limits do.

A limit is checked in the middle of everything else: before a group is read and after an
operand is, between looking a function up and counting its arguments.  Still it does one
thing only.  Under a tighter limit a formula is refused as too complex, or its outcome is
the one it had, with every place and every word of an error.

A parser that runs under two limits takes the same steps until the tighter one refuses.
`Curbed` says so of two outcomes, it is kept when steps follow one another, and a check
against both limits keeps it.

The other half is how much a limit has to admit.  Each construct is opened by a token of
its own, and so is each node of the tree, so a limit that admits as many levels as there
are tokens refuses nothing.
-/
import Scorecard.Proofs.Formula.Induction
import Scorecard.Proofs.Formula.Lexing
import Scorecard.Proofs.Formula.Trees
import Scorecard.Proofs.Steps

namespace Scorecard

namespace Parser

/-! ### Two limits -/

variable {α β : Type}

/-- The first outcome is that something was too complex, or it is the second one. -/
def Curbed (x y : Except ParseError α) : Prop :=
  (∃ e, x = .error e ∧ e.kind = .tooComplex) ∨ x = y

namespace Curbed

variable {x y : Except ParseError α}

theorem same (x : Except ParseError α) : Curbed x x :=
  .inr rfl

theorem bind {f g : α → Except ParseError β} (h : Curbed x y)
    (hfg : ∀ a, x = .ok a → Curbed (f a) (g a)) : Curbed (x >>= f) (y >>= g) := by
  rcases h with ⟨e, rfl, he⟩ | rfl
  · exact .inl ⟨e, rfl, he⟩
  · cases x with
    | error e => exact same _
    | ok a => exact hfg a rfl

/-- A check that the tighter limit fails first. -/
theorem check {limit limit' count : Int} (hle : limit ≤ limit') {e e' : ParseError}
    (he : e.kind = .tooComplex) (h : Curbed x y) :
    Curbed (if limit < count then .error e else x) (if limit' < count then .error e' else y) := by
  by_cases hlimit : limit < count
  · rw [if_pos hlimit]
    exact .inl ⟨e, rfl, he⟩
  · rw [if_neg hlimit, if_neg (by omega)]
    exact h

end Curbed

variable {ctx : Context}

/-- The same parser under another limit on depth. -/
def Context.within (ctx : Context) (maxDepth : Int) : Context :=
  { ctx with maxDepth }

/-- Every procedure is curbed by the limit, if anything. -/
def curbing (ctx : Context) (maxDepth : Int) : Judgment where
  phrase p tokens := ∀ level, Curbed (read ctx level p tokens) (read (ctx.within maxDepth) level p tokens)
  rest p tokens := ∀ level left depth,
    Curbed (readRest ctx level p left depth tokens)
      (readRest (ctx.within maxDepth) level p left depth tokens)
  list tokens := ∀ level o,
    Curbed (readList ctx level o tokens) (readList (ctx.within maxDepth) level o tokens)

variable {maxDepth : Int}

theorem curbed_arguments {level : Nat} {o : Token} {ts : List Token}
    (h : (curbing ctx maxDepth).Holds ts) :
    Curbed (readArguments ctx level o ts) (readArguments (ctx.within maxDepth) level o ts) := by
  rcases starts_or_not .closing ts with ⟨c, behind, rfl, hc⟩ | hts
  · rw [readArguments_closing _ _ hc, readArguments_closing _ _ hc]
    exact .same _
  · rw [readArguments_of_not_closing _ _ hts, readArguments_of_not_closing _ _ hts]
    exact h.list level o

theorem curbing_steps (hle : ctx.maxDepth ≤ maxDepth) : (curbing ctx maxDepth).Steps where
  nothing level := .same _
  number ht level := by
    rw [read_number _ _ ht, read_number _ _ ht]
    exact .same _
  group ht ih level := by
    rw [read_group_bind _ _ ht, read_group_bind _ _ ht]
    exact .check hle rfl (.bind (ih.tail.phrase .sum (level + 1)) fun r _ => .same _)
  name ht hts level := by
    rw [read_variable _ _ ht hts, read_variable _ _ ht hts]
    exact .same _
  call {t o ts} ht ho ih level := by
    cases hf : ctx.registry.find? t.text with
    | none =>
        rw [read_unknown _ _ ht ho hf, read_unknown (ctx.within maxDepth) _ ht ho hf]
        exact .same _
    | some function =>
        rw [read_call_bind _ _ ht ho hf, read_call_bind (ctx.within maxDepth) _ ht ho hf]
        have hts : (curbing ctx maxDepth).Holds ts := ih ts (by simp only [List.length_cons]; omega)
        refine .check hle rfl (.bind (curbed_arguments hts) fun given _ => ?_)
        split
        · exact .same _
        · exact .check hle rfl (.same _)
  unexpected hn ho hf level := by
    rw [read_primary_unexpected _ _ hn ho hf, read_primary_unexpected _ _ hn ho hf]
    exact .same _
  sign ht ih level := by
    rw [read_minus_bind _ _ ht, read_minus_bind _ _ ht]
    exact .check hle rfl
      (.bind (ih.tail.phrase .factor (level + 1)) fun r _ => .check hle rfl (.same _))
  factor hsign h level := by
    rw [read_factor_of_head _ _ hsign, read_factor_of_head _ _ hsign]
    exact h level
  operators op tokens ih h level := by
    rw [read_operators_bind, read_operators_bind]
    exact .bind (h level) fun r hr => (ih r.rest (length_rest_lt hr)).rest op.phrase level _ _
  done hts level left depth := by
    rw [readRest_of_head _ _ hts, readRest_of_head _ _ hts]
    exact .same _
  grow {op t ts} ht ih level left depth := by
    rw [readRest_bind _ _ ht, readRest_bind _ _ ht]
    refine .bind (ih.tail.phrase op.operand level) fun r hr => .check hle rfl ?_
    have hshorter := length_rest_lt hr
    exact (ih r.rest (by simp only [List.length_cons]; omega)).rest op.phrase level _ _
  list {tokens} ih h level o := by
    rw [readList_bind, readList_bind]
    refine .bind (h level) fun first hfirst => ?_
    have hshorter := length_rest_lt hfirst
    unfold readMore
    split
    · exact .same _
    · rename_i t rest hrest
      rw [hrest, List.length_cons] at hshorter
      split
      · exact .bind ((ih rest (by omega)).list level o) fun more _ => .same _
      · exact .same _
      · exact .same _

/-- **A tighter limit on depth makes a tree too complex, if anything.** -/
theorem curbed_tree (hle : ctx.maxDepth ≤ maxDepth) (tokens : List Token) :
    Curbed (tree ctx tokens) (tree (ctx.within maxDepth) tokens) := by
  rw [tree_bind, tree_bind]
  exact .bind (((curbing_steps hle).holds tokens).phrase .sum 0) fun r _ => .same _

/-! ### Limits that admit everything -/

/-- Nothing was too complex, and what was read is no deeper than the tokens it took, of
`count`. -/
def Spared (count : Nat) (x : Except ParseError (Reading α)) : Prop :=
  Yields (·.kind ≠ .tooComplex) (fun r => r.depth + r.rest.length ≤ count) x

/-- No procedure finds anything too complex where the limit admits a level for every token
that is left. -/
def sparing (ctx : Context) : Judgment where
  phrase p tokens := ∀ level : Nat, (level + tokens.length : Int) ≤ ctx.maxDepth →
    Spared tokens.length (read ctx level p tokens)
  rest p tokens := ∀ (level : Nat) left (depth : Nat), (level + tokens.length : Int) ≤ ctx.maxDepth →
    (depth + tokens.length : Int) ≤ ctx.maxDepth →
    Spared (depth + tokens.length) (readRest ctx level p left depth tokens)
  list tokens := ∀ (level : Nat) o, (level + tokens.length : Int) ≤ ctx.maxDepth →
    Spared (tokens.length - 1) (readList ctx level o tokens)

theorem spared_arguments (level : Nat) (o : Token) {ts : List Token} (h : (sparing ctx).Holds ts)
    (hroom : (level + ts.length : Int) ≤ ctx.maxDepth) :
    Spared (ts.length - 1) (readArguments ctx level o ts) := by
  rcases starts_or_not .closing ts with ⟨c, behind, rfl, hc⟩ | hts
  · rw [readArguments_closing _ _ hc]
    exact .of_ok (by simp)
  · rw [readArguments_of_not_closing _ _ hts]
    exact h.list level o hroom

theorem spared_closeGroup {o : Token} {r : Reading Expr} {count : Nat}
    (h : r.depth + r.rest.length ≤ count) : Spared count (closeGroup o r) := by
  unfold closeGroup
  split
  · rename_i hrest
    rw [hrest, List.length_cons] at h
    exact .of_ok (by simp only; omega)
  · unfold notClosed
    split <;> exact .of_error (by simp [ParseError.kind, unexpected])

theorem sparing_steps : (sparing ctx).Steps where
  nothing level _ := .of_error (by simp [ParseError.kind])
  number ht level _ := by
    rw [read_number _ _ ht]
    exact .of_ok (by simp only [List.length_cons]; omega)
  group ht ih level hroom := by
    simp only [List.length_cons] at hroom ⊢
    rw [read_group_bind _ _ ht]
    refine .check (fun h => by omega) fun _ => ?_
    have hinner := ih.tail.phrase .sum (level + 1) (by push_cast; omega)
    exact .bind hinner fun r _ hr => spared_closeGroup (by omega)
  name ht hts level _ := by
    rw [read_variable _ _ ht hts]
    exact .of_ok (by simp only [List.length_cons]; omega)
  call {t o ts} ht ho ih level hroom := by
    simp only [List.length_cons] at hroom ⊢
    cases hf : ctx.registry.find? t.text with
    | none =>
        rw [read_unknown _ _ ht ho hf]
        exact .of_error (by simp [ParseError.kind])
    | some function =>
        rw [read_call_bind _ _ ht ho hf]
        have hts : (sparing ctx).Holds ts := ih ts (by simp only [List.length_cons]; omega)
        have hgiven := spared_arguments (level + 1) o hts (by push_cast; omega)
        refine .check (fun h => by omega) fun _ => .bind hgiven fun given _ hg => ?_
        exact .check (fun _ => by simp [ParseError.kind]) fun _ =>
          .check (fun h => by omega) fun _ => .of_ok (by simp only; omega)
  unexpected hn ho hf level _ := by
    rw [read_primary_unexpected _ _ hn ho hf]
    exact .of_error (by simp [ParseError.kind, Parser.unexpected])
  sign ht ih level hroom := by
    simp only [List.length_cons] at hroom ⊢
    rw [read_minus_bind _ _ ht]
    refine .check (fun h => by omega) fun _ => ?_
    have hoperand := ih.tail.phrase .factor (level + 1) (by push_cast; omega)
    exact .bind hoperand fun r _ hr =>
      .check (fun h => by omega) fun _ => .of_ok (by simp only; omega)
  factor hsign h level hroom := by
    rw [read_factor_of_head _ _ hsign]
    exact h level hroom
  operators op tokens ih h level hroom := by
    rw [read_operators_bind]
    refine .bind (h level hroom) fun r hr hfits => ?_
    have hshorter := length_rest_lt hr
    have hrest := (ih r.rest hshorter).rest op.phrase level r.found r.depth (by omega) (by omega)
    exact hrest.mono (fun _ he => he) fun _ hr => hr.trans hfits
  done hts level left depth _ _ := by
    rw [readRest_of_head _ _ hts]
    exact .of_ok (le_refl _)
  grow {op t ts} ht ih level left depth hlevel hdepth := by
    simp only [List.length_cons] at hlevel hdepth ⊢
    rw [readRest_bind _ _ ht]
    have hoperand := ih.tail.phrase op.operand level (by omega)
    refine .bind hoperand fun r hr hfits => .check (fun h => by omega) fun _ => ?_
    have hshorter := length_rest_lt hr
    have hrest := (ih r.rest (by simp only [List.length_cons]; omega)).rest op.phrase level
      (.binary op left r.found (some t.position)) (1 + max depth r.depth) (by omega) (by omega)
    exact hrest.mono (fun _ he => he) fun _ hr => hr.trans (by omega)
  list {tokens} ih h level o hroom := by
    rw [readList_bind]
    refine .bind (h level hroom) fun first hfirst hfits => ?_
    have hshorter := length_rest_lt hfirst
    unfold readMore
    split
    · exact .of_error (by simp [ParseError.kind])
    · rename_i t rest hrest
      rw [hrest, List.length_cons] at hshorter hfits
      split
      · refine .bind ((ih rest (by omega)).list level o (by omega)) fun more _ hmore => ?_
        exact .of_ok (by simp only; omega)
      · exact .of_ok (by simp only; omega)
      · exact .of_error (by simp [ParseError.kind, unexpected])

/-- **A limit that admits a level for every token makes no tree too complex.** -/
theorem kind_of_tree {tokens : List Token} (hroom : (tokens.length : Int) ≤ ctx.maxDepth)
    {e : ParseError} (h : tree ctx tokens = .error e) : e.kind ≠ .tooComplex := by
  have hsum := (sparing_steps.holds tokens).phrase .sum 0 (by simpa using hroom)
  rw [tree_bind] at h
  rcases bind_eq_error_iff.mp h with herror | ⟨r, -, hfinish⟩
  · exact hsum.error e herror
  · unfold finish at hfinish
    split at hfinish
    · cases hfinish
    · cases hfinish
      simp [ParseError.kind]
    · cases hfinish
      simp [ParseError.kind, unexpected]

end Parser

/-! ### Formulas -/

namespace TokenList

variable {registry : Registry} {limits limits' : Limits}

theorem parse_curbed (list : TokenList) (hdepth : limits.maxDepth ≤ limits'.maxDepth)
    (hpos : 0 ≤ limits.maxTokens) (htokens : limits.maxTokens ≤ limits'.maxTokens) :
    (∃ e, list.parse registry limits = .error (.formula (.parse e)) ∧ e.kind = .tooComplex) ∨
      list.parse registry limits = list.parse registry limits' := by
  unfold TokenList.parse
  by_cases hmany : limits.maxTokens < list.tokens.length
  · obtain ⟨position, hposition⟩ := list.exists_positionAt hpos (by omega)
    rw [if_pos hmany, hposition]
    exact .inl ⟨_, rfl, rfl⟩
  · rw [if_neg hmany, if_neg (by omega)]
    have htree := @Parser.curbed_tree ⟨registry, limits.maxDepth, list.stop⟩ _ hdepth list.tokens
    rcases htree with ⟨e, herror, he⟩ | hsame
    · rw [herror]
      exact .inl ⟨e, rfl, he⟩
    · rw [hsame]
      exact .inr rfl

theorem kind_of_parse {list : TokenList} (hdepth : (list.tokens.length : Int) ≤ limits.maxDepth)
    (htokens : (list.tokens.length : Int) ≤ limits.maxTokens) {e : ParseError}
    (h : list.parse registry limits = .error (.formula (.parse e))) : e.kind ≠ .tooComplex := by
  unfold TokenList.parse at h
  rw [if_neg (by omega)] at h
  split at h
  · cases h
  · rename_i herror
    cases h
    exact Parser.kind_of_tree hdepth herror

end TokenList

namespace Expr

/--
**Limits only ever make a formula too complex.**  Under tighter limits a text is refused as
too complex, or its outcome is the very one it has under the wider limits; and limits that
admit as many levels and tokens as the text has tokens refuse nothing as too complex.
-/
theorem parse_under_limits (registry : Registry) (limits limits' : Limits) (text : String)
    (hdepth : limits.maxDepth ≤ limits'.maxDepth) (hpos : 0 ≤ limits.maxTokens)
    (htokens : limits.maxTokens ≤ limits'.maxTokens) :
    ((∃ e, parse registry limits text = .error (.formula (.parse e)) ∧ e.kind = .tooComplex) ∨
        parse registry limits text = parse registry limits' text) ∧
      ∀ list, TokenList.ofText text = .ok list → (list.tokens.length : Int) ≤ limits'.maxDepth →
        (list.tokens.length : Int) ≤ limits'.maxTokens →
        ∀ e, parse registry limits' text = .error (.formula (.parse e)) → e.kind ≠ .tooComplex := by
  unfold parse
  constructor
  · split
    · exact .inr rfl
    · rename_i list _
      exact list.parse_curbed hdepth hpos htokens
  · intro list hlist hd ht e he
    rw [hlist] at he
    exact list.kind_of_parse hd ht he

/-- The theorem for a sign, whose two tokens make a tree of two levels: a limit of one level
may refuse it, a limit of two does not. -/
theorem parse_sign_under_limits :
    (1 : Int) ≤ 2 ∧ (0 : Int) ≤ 2 ∧
      ((∃ e, parse Registry.standard ⟨1, 2⟩ "-x" = .error (.formula (.parse e)) ∧
            e.kind = .tooComplex) ∨
          parse Registry.standard ⟨1, 2⟩ "-x" = parse Registry.standard ⟨2, 2⟩ "-x") ∧
        ∀ e, parse Registry.standard ⟨2, 2⟩ "-x" = .error (.formula (.parse e)) →
          e.kind ≠ .tooComplex := by
  obtain ⟨hcurbed, hspared⟩ := parse_under_limits Registry.standard ⟨1, 2⟩ ⟨2, 2⟩ "-x" (by decide)
    (by decide) (by decide)
  have hlexes : Token.Lexes 0 "-x".toList [⟨.minus, "-", 0⟩, ⟨.name, "x", 1⟩] :=
    .sign rfl (.name rfl (by simp))
  exact ⟨by decide, by decide, hcurbed, hspared _ hlexes.ofText (by decide) (by decide)⟩

/-! ### One tree -/

variable {registry : Registry} {limits limits' : Limits} {text : String} {e f : Expr}

/-- Wider limits read the same tree. -/
theorem parse_of_wider (h : parse registry limits text = .ok e)
    (hdepth : limits.maxDepth ≤ limits'.maxDepth) (htokens : limits.maxTokens ≤ limits'.maxTokens) :
    parse registry limits' text = .ok e := by
  unfold parse at h ⊢
  split at h
  · cases h
  · rename_i list hlist
    have hpos : 0 ≤ limits.maxTokens := by
      by_contra hneg
      unfold TokenList.parse at h
      rw [if_pos (by omega)] at h
      split at h <;> cases h
    rcases @TokenList.parse_curbed registry _ _ list hdepth hpos htokens with ⟨refusal, herror, -⟩ | hsame
    · rw [h] at herror
      cases herror
    · exact hsame.symm.trans h

/-- A text has one tree, whatever limits admit it. -/
theorem parse_inj (he : parse registry limits text = .ok e) (hf : parse registry limits' text = .ok f) :
    e = f := by
  let both : Limits := ⟨max limits.maxDepth limits'.maxDepth, max limits.maxTokens limits'.maxTokens⟩
  have hwide : parse registry both text = .ok e := parse_of_wider he (le_max_left _ _) (le_max_left _ _)
  rw [parse_of_wider hf (le_max_right _ _) (le_max_right _ _)] at hwide
  cases hwide
  rfl

/-- The limits with room for a leaf at least. -/
theorem parse_of_leaf (h : parse registry limits text = .ok e) :
    parse registry ⟨max limits.maxDepth 1, limits.maxTokens⟩ text = .ok e :=
  parse_of_wider h (le_max_left _ _) le_rfl

/-- Whatever the limits, a tree that was parsed derives from the tokens of its text. -/
theorem exists_derives (h : parse registry limits text = .ok e) :
    ∃ list, TokenList.ofText text = .ok list ∧ ∃ n, Derives .sum list.tokens e n := by
  have hleaf := parse_of_leaf h
  unfold parse at hleaf
  split at hleaf
  · cases hleaf
  · rename_i list hlist
    obtain ⟨n, hderives, -⟩ := ((TokenList.parse_eq_ok_iff (le_max_right _ _)).mp hleaf).derives
    exact ⟨list, hlist, n, hderives⟩

end Expr

end Scorecard
