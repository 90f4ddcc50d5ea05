/-
Where a syntax error points.

The parser and the walk along the frontiers read the same tokens.  While a procedure runs,
the walk gets to an operand that has ended, with the same parentheses open around it as
before; and where the procedure finds a syntax error, the walk has no next frontier either.
So an unexpected token is the first one with which no formula goes on, and an unmatched
opening parenthesis is the innermost one that is still open at the end.

A procedure stops only where its phrase cannot go on: in front of no operator that it would
take, and behind a name in front of no parenthesis.  Whatever stands there is therefore
wrong for whoever called the procedure and wanted something else.
-/
import Scorecard.Proofs.Formula.Induction
import Scorecard.Proofs.Formula.Prefixes
import Scorecard.Proofs.Formula.Printing
import Scorecard.Proofs.Formula.Tokens
import Scorecard.Proofs.Steps

namespace Scorecard

namespace Parser

open Frontier

/-! ### Syntax errors -/

/-- The place of the first token, or the end. -/
def placeOf (stop : Nat) : List Token → Nat
  | [] => stop
  | t :: _ => t.position

/-- The walk cannot go on: the next token may not come, or there is none where an operand is
due. -/
def Stuck (f : Frontier) : List Token → Prop
  | [] => ¬ f.turn.Over
  | t :: _ => f.next t = none

/-- From a frontier on, the tokens are wrong where the error says: an unexpected token is
where the walk gets stuck, and an unmatched parenthesis the innermost that is left open. -/
structure Blames (stop : Nat) (f : Frontier) (tokens : List Token) (e : ParseError) : Prop where
  unexpected : e.kind = .unexpectedToken → ∃ front behind g, tokens = front ++ behind ∧
    f.walk front = some g ∧ Stuck g behind ∧ e.position = placeOf stop behind
  unmatched : e.kind = .unmatchedParen → ∃ g o outer, f.walk tokens = some g ∧
    g.openings = o :: outer ∧ e.position = o.position

namespace Blames

variable {stop : Nat} {f g : Frontier} {tokens ts : List Token} {e : ParseError}

/-- An error that is not one of syntax blames no token. -/
theorem other (h : e.kind ≠ .unexpectedToken) (h' : e.kind ≠ .unmatchedParen) :
    Blames stop f tokens e :=
  ⟨fun hk => absurd hk h, fun hk => absurd hk h'⟩

theorem tooComplex (h : e.kind = .tooComplex) : Blames stop f tokens e :=
  other (by simp [h]) (by simp [h])

theorem here (hkind : e.kind = .unexpectedToken) (hplace : e.position = placeOf stop tokens)
    (hstuck : Stuck f tokens) : Blames stop f tokens e :=
  ⟨fun _ => ⟨[], tokens, f, rfl, walk_nil f, hstuck, hplace⟩, fun hk => by simp [hkind] at hk⟩

theorem unclosed {o : Token} {outer : List Token} (hwalk : f.walk tokens = some g)
    (hopen : g.openings = o :: outer) : Blames stop f tokens (.unclosed o.position) :=
  ⟨fun hk => by simp [ParseError.kind] at hk, fun _ => ⟨g, o, outer, hwalk, hopen, rfl⟩⟩

/-- What is wrong behind some tokens is wrong with them in front. -/
theorem behind (hwalk : f.walk ts = some g) (h : Blames stop g tokens e) :
    Blames stop f (ts ++ tokens) e where
  unexpected hk := by
    obtain ⟨front, rest, g', rfl, hfront, hstuck, hplace⟩ := h.unexpected hk
    exact ⟨ts ++ front, rest, g', by simp, by rw [walk_of_walk hwalk, hfront], hstuck, hplace⟩
  unmatched hk := by
    obtain ⟨g', o, outer, htokens, hopen, hplace⟩ := h.unmatched hk
    exact ⟨g', o, outer, by rw [walk_of_walk hwalk, htokens], hopen, hplace⟩

/-- Before the first argument the tokens are wrong as they are in any other. -/
theorem arguments {around : List Enclosure} (hts : ∀ t, tokens.head? = some t → t.kind ≠ .closing)
    (h : Blames stop ⟨.operand, around⟩ tokens e) : Blames stop ⟨.arguments, around⟩ tokens e where
  unexpected hk := by
    obtain ⟨front, rest, g, rfl, hwalk, hstuck, hplace⟩ := h.unexpected hk
    cases front with
    | nil =>
        cases hwalk
        refine ⟨[], rest, ⟨.arguments, around⟩, rfl, walk_nil _, ?_, hplace⟩
        cases rest with
        | nil => exact id
        | cons t rest => exact (next_arguments (hts t rfl)).trans hstuck
    | cons t front =>
        rw [← walk_arguments (hts t rfl)] at hwalk
        exact ⟨t :: front, rest, g, rfl, hwalk, hstuck, hplace⟩
  unmatched hk := by
    obtain ⟨g, o, outer, hwalk, hopen, hplace⟩ := h.unmatched hk
    cases tokens with
    | nil =>
        cases hwalk
        exact ⟨⟨.arguments, around⟩, o, outer, walk_nil _, hopen, hplace⟩
    | cons t tokens =>
        rw [← walk_arguments (hts t rfl)] at hwalk
        exact ⟨g, o, outer, hwalk, hopen, hplace⟩

theorem next {t : Token} (hnext : f.next t = some g) (h : Blames stop g tokens e) :
    Blames stop f (t :: tokens) e :=
  behind (walk_single hnext) h

end Blames

/-! ### Where a procedure stops -/

/-- Behind an operand that ended so, the phrase does not go on with the tokens. -/
def Halts (p : Phrase) (turn : Turn) (rest : List Token) : Prop :=
  ∀ t, rest.head? = some t →
    (turn = .name → t.kind ≠ .opening) ∧ ∀ op : BinaryOp, t.kind = op.kind → op.precedence < p.tightness

/-- The walk from the frontier reads a front of the tokens that ends with an operand, and
the phrase does not go on with the others. -/
def Reaches (p : Phrase) (f : Frontier) (tokens rest : List Token) : Prop :=
  ∃ front turn, tokens = front ++ rest ∧ Turn.Over turn ∧ f.walk front = some ⟨turn, f.around⟩ ∧
    Halts p turn rest

variable {ctx : Context} {level : Nat} {around outer : List Enclosure} {turn : Turn} {o t : Token}
  {ts tokens rest : List Token} {p : Phrase}

/-- Behind a sum only a comma or a closing parenthesis may come next. -/
theorem Halts.next_eq_none (hover : turn.Over) (h : Halts .sum turn (t :: rest))
    (hclosing : t.kind ≠ .closing) (hcomma : t.kind = .comma → around.head?.any (·.call) = false) :
    next ⟨turn, around⟩ t = none := by
  obtain ⟨hopening, hop⟩ := h t rfl
  have hnone : ∀ op : BinaryOp, t.kind ≠ op.kind := by
    intro op hk
    have hlt := hop op hk
    cases op <;> simp [BinaryOp.precedence, Phrase.tightness] at hlt
  have hplus := hnone .add
  have hminus := hnone .subtract
  have hstar := hnone .multiply
  have hslash := hnone .divide
  rw [next_over hover hopening]
  unfold goOn
  split <;> simp_all [BinaryOp.kind]

theorem reaches_one {f : Frontier} (hnext : f.next t = some ⟨turn, f.around⟩) (hover : turn.Over)
    (h : Halts p turn rest) : Reaches p f (t :: rest) rest :=
  ⟨[t], turn, rfl, hover, walk_single hnext, h⟩

theorem Reaches.behind {f g : Frontier} (hwalk : f.walk ts = some g) (haround : g.around = f.around)
    (h : Reaches p g tokens rest) : Reaches p f (ts ++ tokens) rest := by
  obtain ⟨front, turn, rfl, hover, hfront, hhalts⟩ := h
  exact ⟨ts ++ front, turn, by simp, hover, by rw [walk_of_walk hwalk, hfront, haround], hhalts⟩

/-- The walk reads a front of the tokens that ends by closing the innermost parenthesis. -/
def Closes (f : Frontier) (outer : List Enclosure) (tokens rest : List Token) : Prop :=
  ∃ front, tokens = front ++ rest ∧ f.walk front = some ⟨.complete, outer⟩

/-! ### One lemma for each procedure -/

/-- Every procedure blames the right token, or stops where its phrase does. -/
def blaming (ctx : Context) : Judgment where
  phrase p tokens := (p = .primary → ∀ t, tokens.head? = some t → t.kind ≠ .minus) →
    ∀ level around, Yields (Blames ctx.stop ⟨.operand, around⟩ tokens)
      (fun r => Reaches p ⟨.operand, around⟩ tokens r.rest) (read ctx level p tokens)
  rest p tokens := ∀ op : BinaryOp, p = op.phrase → ∀ level left depth around (turn : Turn), turn.Over →
    Halts op.operand turn tokens → Yields (Blames ctx.stop ⟨turn, around⟩ tokens)
      (fun r => Reaches p ⟨turn, around⟩ tokens r.rest) (readRest ctx level p left depth tokens)
  list tokens := ∀ level o outer, Yields (Blames ctx.stop ⟨.operand, ⟨true, o⟩ :: outer⟩ tokens)
    (fun r => Closes ⟨.operand, ⟨true, o⟩ :: outer⟩ outer tokens r.rest) (readList ctx level o tokens)

/-- What stands behind a factor goes on with no factor, but for the parenthesis of a call. -/
theorem halts_factor (hp : Expr.negationPrecedence ≤ p.tightness)
    (h : turn = .name → ∀ t, rest.head? = some t → t.kind ≠ .opening) : Halts p turn rest := by
  intro t ht
  refine ⟨fun hn => h hn t ht, fun op _ => Nat.lt_of_lt_of_le ?_ hp⟩
  cases op <;> decide

/-- Behind what has an end of its own no phrase goes on that is as tight as a factor. -/
theorem halts_complete (hp : Expr.negationPrecedence ≤ p.tightness) : Halts p .complete rest :=
  halts_factor hp nofun

/-- What may not come behind a sum is unexpected. -/
theorem blames_unexpected {stop : Nat} {f : Frontier} (hwalk : f.walk ts = some ⟨turn, around⟩)
    (hover : turn.Over) (h : Halts .sum turn (t :: rest)) (hclosing : t.kind ≠ .closing)
    (hcomma : t.kind = .comma → around.head?.any (·.call) = false) :
    Blames stop f (ts ++ t :: rest) (unexpected t) :=
  .behind hwalk (.here rfl rfl (h.next_eq_none hover hclosing hcomma))

theorem explained_group {stop : Nat} {r : Reading Expr} (ho : o.kind = .opening)
    (h : Reaches .sum ⟨.operand, ⟨false, o⟩ :: around⟩ ts r.rest) :
    Yields (Blames stop ⟨.operand, around⟩ (o :: ts))
      (fun r => Reaches .primary ⟨.operand, around⟩ (o :: ts) r.rest) (closeGroup o r) := by
  obtain ⟨front, turn, rfl, hover, hwalk, hhalts⟩ := h
  have hopen : walk ⟨.operand, around⟩ (o :: front) = some ⟨turn, ⟨false, o⟩ :: around⟩ := by
    rw [walk_of_next (next_group ho), hwalk]
  unfold closeGroup notClosed
  split
  · rename_i text position behind hrest
    have hgroup : Passes around .complete _ :=
      .group (c := ⟨.closing, text, position⟩) ho ⟨hover, hwalk⟩ rfl
    exact .of_ok ⟨_, .complete, by simp [hrest], hgroup.1, hgroup.2, halts_complete (by decide)⟩
  · rename_i hclosing
    split
    · rename_i hrest
      refine .of_error (.unclosed (g := ⟨turn, ⟨false, o⟩ :: around⟩) ?_ rfl)
      rw [hrest, List.append_nil, hopen]
    · rename_i t behind hrest
      rw [hrest] at hhalts ⊢
      exact .of_error (blames_unexpected hopen hover hhalts
        (fun ht => hclosing t.text t.position behind (by rw [hrest, ← ht])) fun _ => rfl)

theorem explained_arguments (level : Nat) (o : Token) (outer : List Enclosure)
    (h : (blaming ctx).Holds ts) :
    Yields (Blames ctx.stop ⟨.arguments, ⟨true, o⟩ :: outer⟩ ts)
      (fun r => Closes ⟨.arguments, ⟨true, o⟩ :: outer⟩ outer ts r.rest)
      (readArguments ctx level o ts) := by
  rcases starts_or_not .closing ts with ⟨c, behind, rfl, hc⟩ | hts
  · rw [readArguments_closing _ _ hc]
    exact .of_ok ⟨[c], rfl, walk_arguments_closing hc⟩
  · rw [readArguments_of_not_closing _ _ hts]
    refine (h.list level o outer).mono (fun e he => he.arguments hts) fun r hr => ?_
    obtain ⟨front, rfl, hwalk⟩ := hr
    refine ⟨front, rfl, ?_⟩
    cases front with
    | nil => cases hwalk
    | cons t front => rw [walk_arguments (hts t rfl), hwalk]

theorem explained_more {r : Reading Expr} (ih : ∀ us, us.length < r.rest.length → (blaming ctx).Holds us)
    (h : Reaches .sum ⟨.operand, ⟨true, o⟩ :: outer⟩ ts r.rest) :
    Yields (Blames ctx.stop ⟨.operand, ⟨true, o⟩ :: outer⟩ ts)
      (fun r => Closes ⟨.operand, ⟨true, o⟩ :: outer⟩ outer ts r.rest) (readMore ctx level o r) := by
  obtain ⟨front, turn, rfl, hover, hwalk, hhalts⟩ := h
  unfold readMore
  split
  · rename_i hrest
    refine .of_error (.unclosed (g := ⟨turn, ⟨true, o⟩ :: outer⟩) ?_ rfl)
    rw [hrest, List.append_nil, hwalk]
  · rename_i t behind hrest
    have hbehind := ih behind (by simp [hrest])
    rw [hrest] at hhalts ⊢
    rw [List.append_cons]
    split
    · rename_i ht
      have hcomma : walk ⟨.operand, ⟨true, o⟩ :: outer⟩ (front ++ [t]) =
          some ⟨.operand, ⟨true, o⟩ :: outer⟩ := by
        rw [walk_of_walk hwalk, walk_of_next (next_comma hover ht), walk_nil]
      refine .bind ((hbehind.list level o outer).mono (fun e he => he.behind hcomma) fun _ hr => hr)
        fun more _ hmore => ?_
      obtain ⟨others, rfl, hothers⟩ := hmore
      exact .of_ok ⟨front ++ [t] ++ others, by simp, by rw [walk_of_walk hcomma, hothers]⟩
    · rename_i ht
      refine .of_ok ⟨front ++ [t], rfl, ?_⟩
      rw [walk_of_walk hwalk, walk_of_next (next_closing hover ht), walk_nil]
    · rename_i hcomma hclosing
      rw [← List.append_cons]
      exact .of_error (blames_unexpected hwalk hover hhalts hclosing fun ht => absurd ht hcomma)

/-- Where the loop of an operator finds none of its level, its phrase is at an end. -/
theorem Halts.done {op : BinaryOp} (h : Halts op.operand turn rest)
    (hrest : ∀ t, rest.head? = some t → operator? op.phrase t.kind = none) :
    Halts op.phrase turn rest := by
  intro t ht
  refine ⟨(h t ht).1, fun op' hop' => ?_⟩
  have hlt := (h t ht).2 op' hop'
  rw [op.tightness_operand] at hlt
  rw [op.tightness_phrase]
  have hne : op'.precedence ≠ op.precedence := by
    intro heq
    have hphrase : op.phrase = op'.phrase := by cases op <;> cases op' <;> first | rfl | cases heq
    exact absurd (hrest t ht) (by rw [operator?_eq_some.mpr ⟨hphrase, hop'⟩]; simp)
  omega

theorem blaming_steps (ctx : Context) : (blaming ctx).Steps where
  nothing _ level around := .of_error (.here rfl rfl id)
  number {t x ts} ht _ level around := by
    rw [read_number _ _ ht]
    exact .of_ok (reaches_one (next_number ht) trivial (halts_complete (by decide)))
  group {t ts} ht ih _ level around := by
    rw [read_group_bind _ _ ht]
    refine .check (fun _ => .tooComplex rfl) fun _ => ?_
    have hinner := ih.tail.phrase .sum (by simp) (level + 1) (⟨false, t⟩ :: around)
    exact .bind (hinner.mono (fun e he => he.next (next_group ht)) fun _ hr => hr) fun r _ hr =>
      explained_group ht hr
  name ht hts _ level around := by
    rw [read_variable _ _ ht hts]
    exact .of_ok (reaches_one (next_name ht) trivial
      (halts_factor (by decide) fun _ => hts))
  call {t o ts} ht ho ih _ level around := by
    cases hf : ctx.registry.find? t.text with
    | none =>
        rw [read_unknown _ _ ht ho hf]
        exact .of_error (.other nofun nofun)
    | some function =>
        rw [read_call_bind _ _ ht ho hf]
        refine .check (fun _ => .tooComplex rfl) fun _ => ?_
        have hts : (blaming ctx).Holds ts := ih ts (by simp only [List.length_cons]; omega)
        have hgiven := explained_arguments (level + 1) o around hts
        refine .bind (hgiven.mono (fun e he => (he.next (next_call ho)).next (next_name ht))
          fun _ hr => hr) fun given _ hg => ?_
        refine .check (fun _ => .other nofun nofun) fun _ => .check (fun _ => .tooComplex rfl) fun _ => ?_
        obtain ⟨front, hfront, hwalk⟩ := hg
        have hcall := Passes.call ht ho hwalk
        exact .of_ok ⟨t :: o :: front, .complete, by simp [hfront], hcall.1, hcall.2,
          halts_complete (by decide)⟩
  unexpected {t ts} hn ho hf hsign level around := by
    rw [read_primary_unexpected _ _ hn ho hf]
    have hminus := hsign rfl t rfl
    refine .of_error (.here rfl rfl ?_)
    show start around t = none
    unfold start
    split <;> simp_all
  sign {t ts} ht ih _ level around := by
    rw [read_minus_bind _ _ ht]
    refine .check (fun _ => .tooComplex rfl) fun _ => ?_
    have hoperand := ih.tail.phrase .factor (by simp) (level + 1) around
    refine .bind (hoperand.mono (fun e he => he.next (next_minus ht)) fun _ hr => hr) fun r _ hr => ?_
    refine .check (fun _ => .tooComplex rfl) fun _ => ?_
    exact .of_ok (hr.behind (walk_single (next_minus ht)) rfl)
  factor hsign h _ level around := by
    rw [read_factor_of_head _ _ hsign]
    have hprimary := h (fun _ => hsign) level around
    refine hprimary.mono (fun _ he => he) fun r hr => ?_
    obtain ⟨front, turn, htokens, hover, hwalk, hhalts⟩ := hr
    exact ⟨front, turn, htokens, hover, hwalk, halts_factor (by decide) fun hn t ht => (hhalts t ht).1 hn⟩
  operators op tokens ih h _ level around := by
    rw [read_operators_bind]
    have hoperand := h (fun hp => by cases op <;> cases hp) level around
    refine .bind hoperand fun r hread hr => ?_
    have hshorter := length_rest_lt hread
    obtain ⟨front, turn, htokens, hover, hwalk, hhalts⟩ := hr
    have hrest := (ih r.rest hshorter).rest op.phrase op rfl level r.found r.depth around turn hover hhalts
    rw [htokens]
    exact hrest.mono (fun e he => he.behind hwalk) fun _ hr => hr.behind hwalk rfl
  done {p tokens} hts op hp level left depth around turn hover hhalts := by
    subst hp
    rw [readRest_of_head _ _ hts]
    exact .of_ok ⟨[], turn, rfl, hover, walk_nil _, hhalts.done hts⟩
  grow {op t ts} ht ih op' hop level left depth around turn hover hhalts := by
    rw [readRest_bind _ _ ht]
    have hnext : next ⟨turn, around⟩ t = some ⟨.operand, around⟩ := next_operator hover ht
    have hoperand := ih.tail.phrase op.operand (fun hp => by cases op <;> cases hp) level around
    refine .bind (hoperand.mono (fun e he => he.next hnext) fun _ hr => hr) fun r hread hr => ?_
    refine .check (fun _ => .tooComplex rfl) fun _ => ?_
    have hshorter := length_rest_lt hread
    obtain ⟨front, turn', hts, hover', hwalk, hhalts'⟩ := hr
    have hrest := (ih r.rest (by simp only [List.length_cons]; omega)).rest op.phrase op rfl level
      (.binary op left r.found (some t.position)) (1 + max depth r.depth) around turn' hover' hhalts'
    have hgrown : walk ⟨turn, around⟩ (t :: front) = some ⟨turn', around⟩ := by
      rw [walk_of_next hnext, hwalk]
    rw [hts, ← List.cons_append]
    exact hrest.mono (fun e he => he.behind hgrown) fun _ hr => hr.behind hgrown rfl
  list {tokens} ih h level o outer := by
    rw [readList_bind]
    refine .bind (h (by simp) level (⟨true, o⟩ :: outer)) fun first hfirst hr => ?_
    have hshorter := length_rest_lt hfirst
    exact explained_more (fun us hus => ih us (hus.trans hshorter)) hr

/-- **A syntax error blames the right token**, or it is about a closing parenthesis behind a
formula that is complete. -/
theorem blames_of_tree {e : ParseError} (h : tree ctx tokens = .error e) :
    Blames ctx.stop first tokens e ∨ ∃ front c behind, tokens = front ++ c :: behind ∧
      c.kind = .closing ∧ IsFormula front ∧ e = .unopened c.position := by
  have hsum := ((blaming_steps ctx).holds tokens).phrase .sum (by simp) 0 []
  rw [tree_bind] at h
  rcases bind_eq_error_iff.mp h with herror | ⟨r, hr, hfinish⟩
  · exact .inl (hsum.error e herror)
  · obtain ⟨front, turn, rfl, hover, hwalk, hhalts⟩ := hsum.ok r hr
    unfold finish at hfinish
    split at hfinish
    · cases hfinish
    · rename_i text position behind hrest
      cases hfinish
      exact .inr ⟨front, ⟨.closing, text, position⟩, behind, by rw [hrest], rfl,
        isFormula_iff.mpr ⟨turn, hover, hwalk⟩, rfl⟩
    · rename_i t behind hclosing hrest
      cases hfinish
      rw [hrest] at hhalts ⊢
      exact .inl (blames_unexpected hwalk hover hhalts (fun ht => hclosing t.text t.position (by rw [← ht]))
        fun _ => rfl)

end Parser

open Frontier Scorecard.Parser

/-! ### Formulas -/

namespace TokenList

/-- The token at the index is the first with which no formula goes on: what stands before it
begins one, and with it no longer, or there is no such token and the formula is not complete. -/
structure FirstImpossible (tokens : List Token) (i : Nat) : Prop where
  before : IsStart (tokens.take i)
  token : i < tokens.length → ¬ IsStart (tokens.take (i + 1))
  stop : i = tokens.length → ¬ IsFormula tokens

/-- The parenthesis at the index has no partner: it closes behind a complete formula, or it
is the innermost one that is open behind the beginning of one. -/
def Unmatched (tokens : List Token) (i : Nat) (t : Token) : Prop :=
  (t.kind = .closing ∧ IsFormula (tokens.take i)) ∨
    (t.kind = .opening ∧ IsStart tokens ∧ ¬ IsFormula tokens ∧ (unclosed tokens).head? = some t)

variable {list : TokenList} {front behind : List Token}

theorem positionAt?_placeOf (h : list.tokens = front ++ behind) :
    list.positionAt? front.length = some (placeOf list.stop behind) := by
  rw [positionAt?_natCast, places, h]
  cases behind with
  | nil => simp [placeOf]
  | cons t ts => simp [placeOf]

/-- Where the walk gets stuck, no formula goes on. -/
theorem firstImpossible_of_stuck {f : Frontier} (hwalk : first.walk front = some f)
    (hstuck : Stuck f behind) : FirstImpossible (front ++ behind) front.length where
  before := by
    rw [List.take_left]
    exact isStart_iff.mpr ⟨f, hwalk⟩
  token hlt hstart := by
    cases behind with
    | nil => simp at hlt
    | cons t ts =>
        rw [List.append_cons, List.take_left' (by simp)] at hstart
        obtain ⟨g, hg⟩ := isStart_iff.mp hstart
        have hnone : f.next t = none := hstuck
        rw [walk_of_walk hwalk, walk_cons, hnone] at hg
        cases hg
  stop hlength hformula := by
    cases behind with
    | nil =>
        obtain ⟨turn, hover, hturn⟩ := isFormula_iff.mp hformula
        rw [List.append_nil, hwalk] at hturn
        cases hturn
        exact hstuck hover
    | cons t ts => simp at hlength

/-- What the walk leaves open makes the tokens no formula. -/
theorem unmatched_of_open {tokens : List Token} {f : Frontier} {o : Token} {outer : List Token}
    (hwalk : first.walk tokens = some f) (hopen : f.openings = o :: outer) (i : Nat) :
    Unmatched tokens i o := by
  have hunclosed : unclosed tokens = o :: outer := by rw [unclosed_of_walk hwalk, hopen]
  have hmem : o ∈ unclosed tokens := by rw [hunclosed]; exact List.mem_cons_self
  refine .inr ⟨(mem_unclosed hmem).2, isStart_iff.mpr ⟨f, hwalk⟩, ?_,
    by rw [hunclosed, List.head?_cons]⟩
  intro hformula
  have hnil := hformula.unclosed
  rw [hunclosed] at hnil
  cases hnil

/-- A syntax error of some tokens is where they go wrong, and nowhere else. -/
theorem error_place_of_parse {text : String} {registry : Registry} {limits : Limits}
    (hlist : ofText text = .ok list) {e : ParseError}
    (h : list.parse registry limits = .error (.formula (.parse e))) :
    (e.kind = .unexpectedToken →
        (∃ i : Nat, list.positionAt? i = some e.position) ∧
          ∀ i : Nat, list.positionAt? i = some e.position → FirstImpossible list.tokens i) ∧
      (e.kind = .unmatchedParen →
        (∃ (i : Nat) (t : Token), list.tokens[i]? = some t ∧ t.position = e.position) ∧
          ∀ (i : Nat) (t : Token), list.tokens[i]? = some t → t.position = e.position →
            Unmatched list.tokens i t) := by
  unfold TokenList.parse at h
  split at h
  · split at h
    · cases h
      exact ⟨nofun, nofun⟩
    · cases h
  · split at h
    · cases h
    · rename_i herror
      cases h
      rcases blames_of_tree herror with hblames | ⟨front, c, behind, htokens, hc, hformula, rfl⟩
      · constructor
        · intro hkind
          obtain ⟨front, behind, f, htokens, hwalk, hstuck, hplace⟩ := hblames.unexpected hkind
          have hat := positionAt?_placeOf htokens
          rw [← hplace] at hat
          refine ⟨⟨_, hat⟩, fun i hi => ?_⟩
          obtain rfl := positionAt?_inj hlist hi hat
          rw [htokens]
          exact firstImpossible_of_stuck hwalk hstuck
        · intro hkind
          obtain ⟨f, o, outer, hwalk, hopen, hplace⟩ := hblames.unmatched hkind
          have hunmatched := unmatched_of_open hwalk hopen
          have hmem : o ∈ list.tokens := by
            refine (mem_unclosed ?_).1
            rw [unclosed_of_walk hwalk, hopen]
            exact List.mem_cons_self
          obtain ⟨i, hi⟩ := List.mem_iff_getElem?.mp hmem
          refine ⟨⟨i, o, hi, hplace.symm⟩, fun j t hj ht => ?_⟩
          obtain ⟨-, rfl⟩ := getElem?_inj hlist hj hi (ht.trans hplace)
          exact hunmatched j
      · refine ⟨nofun, fun _ => ?_⟩
        have hat : list.tokens[front.length]? = some c := by rw [htokens]; simp
        refine ⟨⟨_, c, hat, rfl⟩, fun i t hi ht => ?_⟩
        obtain ⟨rfl, rfl⟩ := getElem?_inj hlist hi hat ht
        exact .inl ⟨hc, by rw [htokens, List.take_left]; exact hformula⟩

end TokenList

namespace Expr

/--
**Syntax errors point at the first impossible token.**  Whatever may be called and whatever
the limits are: an unexpected token is the first with which no formula goes on, and an
unmatched parenthesis is one that closes behind a complete formula, or the innermost that is
open at the end.
-/
theorem parse_error_place (registry : Registry) (limits : Limits) (text : String) (list : TokenList)
    (e : ParseError) (hlist : TokenList.ofText text = .ok list)
    (h : parse registry limits text = .error (.formula (.parse e))) :
    (e.kind = .unexpectedToken →
        (∃ i : Nat, list.positionAt? i = some e.position) ∧
          ∀ i : Nat, list.positionAt? i = some e.position → TokenList.FirstImpossible list.tokens i) ∧
      (e.kind = .unmatchedParen →
        (∃ (i : Nat) (t : Token), list.tokens[i]? = some t ∧ t.position = e.position) ∧
          ∀ (i : Nat) (t : Token), list.tokens[i]? = some t → t.position = e.position →
            TokenList.Unmatched list.tokens i t) := by
  unfold parse at h
  rw [hlist] at h
  exact TokenList.error_place_of_parse hlist h

/-- The theorem for a variable with a closing parenthesis behind it. -/
theorem parse_closing_place :
    TokenList.ofText "x)" = .ok ⟨[⟨.name, "x", 0⟩, ⟨.closing, ")", 1⟩], 2⟩ ∧
      parse Registry.standard {} "x)" = .error (.formula (.parse (.unopened 1))) ∧
        TokenList.Unmatched [⟨.name, "x", 0⟩, ⟨.closing, ")", 1⟩] 1 ⟨.closing, ")", 1⟩ := by
  have hname : Token.Lexes 0 ['x'] [⟨.name, "x", 0⟩] := .name rfl (by simp)
  have hlexes : Token.Lexes 0 "x)".toList [⟨.name, "x", 0⟩, ⟨.closing, ")", 1⟩] :=
    hname.append rfl (.sign rfl .nil)
  have hlist : TokenList.ofText "x)" = .ok ⟨[⟨.name, "x", 0⟩, ⟨.closing, ")", 1⟩], 2⟩ := hlexes.ofText
  have hvariable : Derives .sum [⟨.name, "x", 0⟩] (.variable (.str "x") (some 0)) 0 :=
    .product (.factor (.primary (.variable rfl)))
  have haccepts : Accepts ⟨Registry.standard, 64, 2⟩ _ _ _ _ := hvariable.accepts
  have hread := haccepts 0 [⟨.closing, ")", 1⟩] (.inl rfl) (by decide) trivial
    (.cons nofun fun _ => rfl)
  rw [readRest_of_none _ _ rfl, List.singleton_append] at hread
  have herror : parse Registry.standard {} "x)" = .error (.formula (.parse (.unopened 1))) := by
    unfold parse TokenList.parse
    rw [hlist]
    simp only
    rw [if_neg (by decide), tree_bind, hread]
    rfl
  exact ⟨hlist, herror, ((parse_error_place _ _ _ _ _ hlist herror).2 rfl).2 1 _ rfl rfl⟩

end Expr

end Scorecard
