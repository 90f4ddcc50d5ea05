/-
Moving the tokens of a formula.

The parser looks at the kinds and the words of its tokens.  Where they stand it only writes down,
in nodes and in errors.  So whatever map the places go through, the outcome goes through the same
one: each node moves with the token it was made of, and an error with the token it is about.
Nothing is asked of the map; even tokens that come to stand on each other parse as before.

One use of that is to tell where an error may stand.  If a map moves no token and not the end,
nothing has happened, and the error has not moved either.
-/
import Mathlib
import Scorecard.Proofs.Formula.Induction
import Scorecard.Proofs.Formula.Tokens

namespace Scorecard

variable (f : Nat → Nat)

/-! ### What moves -/

/-- The token at another place. -/
def Token.move (t : Token) : Token :=
  { t with position := f t.position }

/-- The tokens at other places, and the end as well. -/
def TokenList.move (list : TokenList) : TokenList :=
  ⟨list.tokens.map (Token.move f), f list.stop⟩

namespace Expr

mutual

/-- The tree with its nodes at other places. -/
def move : Expr → Expr
  | .missing => .missing
  | .number x position => .number x (position.map f)
  | .variable name position => .variable name (position.map f)
  | .negate operand position => .negate operand.move (position.map f)
  | .binary op left right position => .binary op left.move right.move (position.map f)
  | .call name arguments position => .call name (moveAll arguments) (position.map f)

/-- The trees with their nodes at other places. -/
def moveAll : List Expr → List Expr
  | [] => []
  | e :: es => e.move :: moveAll es

end

mutual

@[simp] theorem withoutPositions_move : (e : Expr) → (e.move f).withoutPositions = e.withoutPositions
  | .missing => rfl
  | .number _ _ => rfl
  | .variable _ _ => rfl
  | .negate operand _ => by
      rw [move, withoutPositions, withoutPositions, withoutPositions_move operand]
  | .binary _ left right _ => by
      rw [move, withoutPositions, withoutPositions, withoutPositions_move left, withoutPositions_move right]
  | .call _ arguments _ => by
      rw [move, withoutPositions, withoutPositions, allWithoutPositions_moveAll arguments]

theorem allWithoutPositions_moveAll : (es : List Expr) →
    allWithoutPositions (moveAll f es) = allWithoutPositions es
  | [] => rfl
  | e :: es => by
      rw [moveAll, allWithoutPositions, allWithoutPositions, withoutPositions_move e,
        allWithoutPositions_moveAll es]

end

theorem length_moveAll (es : List Expr) : (moveAll f es).length = es.length := by
  induction es with
  | nil => rfl
  | cons e es ih => rw [moveAll, List.length_cons, List.length_cons, ih]

end Expr

namespace ParseError

/-- The error at another place. -/
def move : ParseError → ParseError
  | .unexpected text p => .unexpected text (f p)
  | .unexpectedEnd p => .unexpectedEnd (f p)
  | .unopened p => .unopened (f p)
  | .unclosed p => .unclosed (f p)
  | .unknownFunction name p => .unknownFunction name (f p)
  | .wrongArity name arity given p => .wrongArity name arity given (f p)
  | .nestedTooDeep limit p => .nestedTooDeep limit (f p)
  | .tooDeep limit p => .tooDeep limit (f p)
  | .tooManyTokens count limit p => .tooManyTokens count limit (f p)

@[simp] theorem kind_move (e : ParseError) : (e.move f).kind = e.kind := by
  cases e <;> rfl

@[simp] theorem name_move (e : ParseError) : (e.move f).name? = e.name? := by
  cases e <;> rfl

@[simp] theorem position_move (e : ParseError) : (e.move f).position = f e.position := by
  cases e <;> rfl

end ParseError

namespace Parser

variable {α α' β β' : Type}

/-- The parser of a text that ends at another place. -/
def Context.move (ctx : Context) : Context :=
  { ctx with stop := f ctx.stop }

/-- A tree that was read and the tokens behind it, at other places. -/
def Reading.move (r : Reading Expr) : Reading Expr :=
  ⟨r.found.move f, r.depth, r.rest.map (Token.move f)⟩

/-- Trees that were read and the tokens behind them, at other places. -/
def Reading.moveAll (r : Reading (List Expr)) : Reading (List Expr) :=
  ⟨Expr.moveAll f r.found, r.depth, r.rest.map (Token.move f)⟩

/-! ### Outcomes that move -/

/-- The second outcome is the first one moved: an error has its place moved, and a success is
what `g` makes of it. -/
inductive Moved (g : α → α') : Except ParseError α → Except ParseError α' → Prop
  | error (e : ParseError) : Moved g (.error e) (.error (e.move f))
  | ok (a : α) : Moved g (.ok a) (.ok (g a))

namespace Moved

variable {f} {g : α → α'} {g' : β → β'} {x : Except ParseError α} {y : Except ParseError α'}

theorem bind {k : α → Except ParseError β} {k' : α' → Except ParseError β'} (h : Moved f g x y)
    (hk : ∀ a, x = .ok a → Moved f g' (k a) (k' (g a))) : Moved f g' (x >>= k) (y >>= k') := by
  cases h with
  | error e => exact .error e
  | ok a => exact hk a rfl

theorem check {c : Prop} [Decidable c] {e : ParseError} (h : Moved f g x y) :
    Moved f g (if c then .error e else x) (if c then .error (e.move f) else y) := by
  split
  · exact .error e
  · exact h

end Moved

/-! ### One lemma for each construct -/

variable {f} {ctx : Context} {level : Nat} {ts : List Token} {o t : Token}

theorem head_move {p : Token.Kind → Prop} (h : ∀ t, ts.head? = some t → p t.kind) :
    ∀ t, (ts.map (Token.move f)).head? = some t → p t.kind := by
  intro t ht
  rw [List.head?_map] at ht
  obtain ⟨u, hu, rfl⟩ := Option.map_eq_some_iff.mp ht
  exact h u hu

variable (f)

/-- Every procedure reads moved tokens as it read them before, and what it answers has moved. -/
def moving (ctx : Context) : Judgment where
  phrase p tokens := ∀ level, Moved f (Reading.move f) (read ctx level p tokens)
    (read (ctx.move f) level p (tokens.map (Token.move f)))
  rest p tokens := ∀ level left depth, Moved f (Reading.move f) (readRest ctx level p left depth tokens)
    (readRest (ctx.move f) level p (left.move f) depth (tokens.map (Token.move f)))
  list tokens := ∀ level o, Moved f (Reading.moveAll f) (readList ctx level o tokens)
    (readList (ctx.move f) level (o.move f) (tokens.map (Token.move f)))

variable {f}

theorem moved_closeGroup (o : Token) (r : Reading Expr) :
    Moved f (Reading.move f) (closeGroup o r) (closeGroup (o.move f) (r.move f)) := by
  obtain ⟨found, depth, rest⟩ := r
  cases rest with
  | nil => exact .error _
  | cons t behind =>
      obtain ⟨kind, text, position⟩ := t
      cases kind with
      | closing => exact .ok _
      | _ => exact .error _

theorem moved_arguments (h : (moving f ctx).Holds ts) (level : Nat) (o : Token) :
    Moved f (Reading.moveAll f) (readArguments ctx level o ts)
      (readArguments (ctx.move f) level (o.move f) (ts.map (Token.move f))) := by
  rcases starts_or_not .closing ts with ⟨c, behind, rfl, hc⟩ | hts
  · rw [List.map_cons, readArguments_closing _ _ hc, readArguments_closing _ _ (c := c.move f) hc]
    exact .ok _
  · rw [readArguments_of_not_closing _ _ hts,
      readArguments_of_not_closing _ _ (head_move (p := (· ≠ .closing)) hts)]
    exact h.list level o

theorem moved_more {r : Reading Expr} (ih : ∀ us, us.length < r.rest.length → (moving f ctx).Holds us)
    (level : Nat) (o : Token) : Moved f (Reading.moveAll f) (readMore ctx level o r)
      (readMore (ctx.move f) level (o.move f) (r.move f)) := by
  obtain ⟨found, depth, rest⟩ := r
  cases rest with
  | nil => exact .error _
  | cons t behind =>
      obtain ⟨kind, text, position⟩ := t
      cases kind with
      | comma => exact .bind ((ih behind (by simp)).list level o) fun more _ => .ok _
      | closing => exact .ok _
      | _ => exact .error _

theorem moving_steps (ctx : Context) : (moving f ctx).Steps where
  nothing level := .error _
  number {t x ts} ht level := by
    rw [List.map_cons, read_number _ _ ht, read_number _ _ (t := t.move f) ht]
    exact .ok _
  group {t ts} ht ih level := by
    rw [List.map_cons, read_group_bind _ _ ht, read_group_bind _ _ (t := t.move f) ht]
    exact .check (.bind (ih.tail.phrase .sum (level + 1)) fun r _ => moved_closeGroup t r)
  name {t ts} ht hts level := by
    rw [List.map_cons, read_variable _ _ ht hts,
      read_variable _ _ (t := t.move f) ht (head_move (p := (· ≠ .opening)) hts)]
    exact .ok _
  call {t o ts} ht ho ih level := by
    rw [List.map_cons, List.map_cons]
    cases hf : ctx.registry.find? t.text with
    | none =>
        rw [read_unknown _ _ ht ho hf, read_unknown (ctx.move f) _ (t := t.move f) (o := o.move f) ht ho hf]
        exact .error _
    | some function =>
        rw [read_call_bind _ _ ht ho hf,
          read_call_bind (ctx.move f) _ (t := t.move f) (o := o.move f) ht ho hf]
        have hts : (moving f ctx).Holds ts := ih ts (by simp only [List.length_cons]; omega)
        refine .check (.bind (moved_arguments hts (level + 1) o) fun given _ => ?_)
        have hcount : (given.moveAll f).found.length = given.found.length := Expr.length_moveAll f _
        rw [hcount]
        exact .check (.check (.ok _))
  unexpected {t ts} hn ho hf level := by
    rw [List.map_cons, read_primary_unexpected _ _ hn ho hf,
      read_primary_unexpected _ _ (t := t.move f) hn ho hf]
    exact .error _
  sign {t ts} ht ih level := by
    rw [List.map_cons, read_minus_bind _ _ ht, read_minus_bind _ _ (t := t.move f) ht]
    exact .check (.bind (ih.tail.phrase .factor (level + 1)) fun r _ => .check (.ok _))
  factor hsign h level := by
    rw [read_factor_of_head _ _ hsign,
      read_factor_of_head _ _ (head_move (p := (· ≠ .minus)) hsign)]
    exact h level
  operators op tokens ih h level := by
    rw [read_operators_bind, read_operators_bind]
    exact .bind (h level) fun r hread =>
      (ih r.rest (length_rest_lt hread)).rest op.phrase level r.found r.depth
  done {p _} hts level left depth := by
    rw [readRest_of_head _ _ hts, readRest_of_head _ _ (head_move (p := (operator? p · = none)) hts)]
    exact .ok _
  grow {op t ts} ht ih level left depth := by
    rw [List.map_cons, readRest_bind _ _ ht, readRest_bind _ _ (t := t.move f) ht]
    refine .bind (ih.tail.phrase op.operand level) fun r hread => .check ?_
    have hshorter := length_rest_lt hread
    have hbelow := ih r.rest (by simp only [List.length_cons]; omega)
    exact hbelow.rest op.phrase level _ _
  list {tokens} ih h level o := by
    rw [readList_bind, readList_bind]
    refine .bind (h level) fun first hread => ?_
    have hshorter := length_rest_lt hread
    exact moved_more (fun us hus => ih us (hus.trans hshorter)) level o

theorem moved_finish (r : Reading Expr) : Moved f (Expr.move f) (finish r) (finish (r.move f)) := by
  obtain ⟨found, depth, rest⟩ := r
  cases rest with
  | nil => exact .ok _
  | cons t behind =>
      obtain ⟨kind, text, position⟩ := t
      cases kind <;> exact .error _

/-- **The tree of moved tokens is the tree moved.** -/
theorem moved_tree (f : Nat → Nat) (ctx : Context) (tokens : List Token) :
    Moved f (Expr.move f) (tree ctx tokens) (tree (ctx.move f) (tokens.map (Token.move f))) := by
  rw [tree_bind, tree_bind]
  exact .bind (((moving_steps ctx).holds tokens).phrase .sum 0) fun r _ => moved_finish r

end Parser

/-! ### Token lists -/

namespace TokenList

variable {f} {registry : Registry} {limits : Limits}

@[simp] theorem places_move (f : Nat → Nat) (list : TokenList) : (list.move f).places = list.places.map f := by
  simp [places, move, Token.move, Function.comp_def]

theorem positionAt?_move (f : Nat → Nat) (list : TokenList) (index : Int) :
    (list.move f).positionAt? index = (list.positionAt? index).map f := by
  have hplaces : (list.move f).tokens.map (·.position) ++ [(list.move f).stop] =
      (list.tokens.map (·.position) ++ [list.stop]).map f := list.places_move f
  unfold positionAt?
  simp only [hplaces, List.length_map, List.getElem?_map]
  generalize (if index < 0 then index + _ else index) = i
  split <;> rfl

/-- What parsing tokens came to, and what it came to after they were moved. -/
inductive MovedOutcome (f : Nat → Nat) : Except Failure Expr → Except Failure Expr → Prop
  | tree (e : Expr) : MovedOutcome f (.ok e) (.ok (e.move f))
  | refusal (e : ParseError) :
      MovedOutcome f (.error (.formula (.parse e))) (.error (.formula (.parse (e.move f))))
  | fault (cause : Fault) : MovedOutcome f (.error (.fault cause)) (.error (.fault cause))

theorem MovedOutcome.eq_of_refusal {e : ParseError} {y : Except Failure Expr}
    (h : MovedOutcome f (.error (.formula (.parse e))) y) : y = .error (.formula (.parse (e.move f))) := by
  cases h
  rfl

/-- **Parsing moved tokens has the outcome moved.** -/
theorem moved_parse (f : Nat → Nat) (list : TokenList) (registry : Registry) (limits : Limits) :
    MovedOutcome f (list.parse registry limits) ((list.move f).parse registry limits) := by
  have hlength : (list.move f).tokens.length = list.tokens.length := List.length_map _
  unfold TokenList.parse
  rw [hlength, positionAt?_move]
  split
  · cases list.positionAt? limits.maxTokens with
    | none => exact .fault .outOfRange
    | some position => exact .refusal (.tooManyTokens list.tokens.length limits.maxTokens position)
  · have htree : Parser.Moved f (Expr.move f)
        (Parser.tree ⟨registry, limits.maxDepth, list.stop⟩ list.tokens)
        (Parser.tree ⟨registry, limits.maxDepth, (list.move f).stop⟩ (list.move f).tokens) :=
      Parser.moved_tree f ⟨registry, limits.maxDepth, list.stop⟩ list.tokens
    generalize Parser.tree ⟨registry, limits.maxDepth, list.stop⟩ list.tokens = x at htree ⊢
    generalize Parser.tree _ (list.move f).tokens = y at htree ⊢
    cases htree with
    | error e => exact .refusal e
    | ok e => exact .tree e

/-- Where a map moves no token and not the end, nothing moves. -/
theorem move_eq_self {list : TokenList} (h : ∀ p ∈ list.places, f p = p) : list.move f = list := by
  obtain ⟨tokens, stop⟩ := list
  simp only [places, List.forall_mem_append, List.forall_mem_map, List.forall_mem_singleton] at h
  have htokens : tokens.map (Token.move f) = tokens := by
    refine (List.map_congr_left fun t ht => ?_).trans (List.map_id tokens)
    rw [Token.move, h.1 t ht, id]
  rw [move, htokens, h.2]

/-- An error stands at a token or at the end. -/
theorem position_mem_places {list : TokenList} {e : ParseError}
    (h : list.parse registry limits = .error (.formula (.parse e))) : e.position ∈ list.places := by
  by_contra hout
  -- moving what is neither a token nor the end would move the error, and nothing else
  let away : Nat → Nat := fun p => if p ∈ list.places then p else p + 1
  have hself : list.move away = list := move_eq_self fun p hp => if_pos hp
  have hmoved := list.moved_parse away registry limits
  rw [hself, h] at hmoved
  have hsame : e = e.move away := by simpa using hmoved.eq_of_refusal
  have hplace := e.position_move away
  rw [← hsame, show away e.position = e.position + 1 from if_neg hout] at hplace
  omega

end TokenList

end Scorecard
