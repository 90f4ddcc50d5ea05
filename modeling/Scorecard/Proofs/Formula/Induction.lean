/-
One induction for all procedures of the parser.

The procedures call each other on the same tokens only in the direction of the grammar,
from sums down to primaries, and on fewer tokens everywhere else.  Whatever is said of
each of them can therefore be shown one construct at a time: what every procedure does
with fewer tokens may be assumed, and besides it what the next tighter phrase does with
the same ones.

A `Judgment` is such a statement.  `Judgment.Steps` lists the constructs, and
`Judgment.Steps.holds` is the induction.  `Yields` says what the errors and the successes of
one procedure are like, and how that carries over to steps one after the other.
-/
import Scorecard.Proofs.Formula.Reading

namespace Scorecard.Parser

/-! ### Outcomes -/

variable {α β : Type}

/-- Every error is a bad one of some kind, and every success a good one. -/
structure Yields (bad : ParseError → Prop) (good : α → Prop) (x : Except ParseError α) : Prop where
  error : ∀ e, x = .error e → bad e
  ok : ∀ a, x = .ok a → good a

namespace Yields

variable {bad bad' : ParseError → Prop} {good good' : α → Prop} {x : Except ParseError α}

theorem of_error {e : ParseError} (h : bad e) : Yields bad good (.error e) :=
  ⟨fun _ he => Except.error.inj he ▸ h, nofun⟩

theorem of_ok {a : α} (h : good a) : Yields bad good (.ok a) :=
  ⟨nofun, fun _ ha => Except.ok.inj ha ▸ h⟩

theorem bind {f : α → Except ParseError β} {good' : β → Prop} (h : Yields bad good x)
    (hf : ∀ a, x = .ok a → good a → Yields bad good' (f a)) : Yields bad good' (x >>= f) := by
  cases x with
  | error e => exact of_error (h.error e rfl)
  | ok a => exact hf a rfl (h.ok a rfl)

theorem check {c : Prop} [Decidable c] {e : ParseError} (he : c → bad e)
    (h : ¬ c → Yields bad good x) : Yields bad good (if c then .error e else x) := by
  by_cases hc : c
  · rw [if_pos hc]
    exact of_error (he hc)
  · rw [if_neg hc]
    exact h hc

theorem mono (h : Yields bad good x) (hbad : ∀ e, bad e → bad' e) (hgood : ∀ a, good a → good' a) :
    Yields bad' good' x :=
  ⟨fun e he => hbad e (h.error e he), fun a ha => hgood a (h.ok a ha)⟩

end Yields

/-- The tokens start with one of the kind, or they do not. -/
theorem starts_or_not (kind : Token.Kind) (ts : List Token) :
    (∃ t rest, ts = t :: rest ∧ t.kind = kind) ∨ ∀ t, ts.head? = some t → t.kind ≠ kind := by
  cases ts with
  | nil => exact .inr (by simp)
  | cons t rest =>
      by_cases ht : t.kind = kind
      · exact .inl ⟨t, rest, rfl, ht⟩
      · exact .inr (by simpa using ht)

/-! ### Judgments -/

/-- What is said of reading a phrase, of the loop of a phrase, and of reading at least one
argument, each from the front of some tokens. -/
structure Judgment where
  phrase : Phrase → List Token → Prop
  rest : Phrase → List Token → Prop
  list : List Token → Prop

namespace Judgment

/-- All of it is so of these tokens. -/
structure Holds (J : Judgment) (tokens : List Token) : Prop where
  phrase : ∀ p, J.phrase p tokens
  rest : ∀ p, J.rest p tokens
  list : J.list tokens

/-- All of it is so of fewer tokens. -/
def Below (J : Judgment) (tokens : List Token) : Prop :=
  ∀ us : List Token, us.length < tokens.length → J.Holds us

/-- Every construct keeps to the judgment. -/
structure Steps (J : Judgment) : Prop where
  nothing : J.phrase .primary []
  number : ∀ {t : Token} {x : Float} {ts : List Token}, t.kind = .number x →
    J.phrase .primary (t :: ts)
  group : ∀ {t : Token} {ts : List Token}, t.kind = .opening → J.Below (t :: ts) →
    J.phrase .primary (t :: ts)
  name : ∀ {t : Token} {ts : List Token}, t.kind = .name →
    (∀ o, ts.head? = some o → o.kind ≠ .opening) → J.phrase .primary (t :: ts)
  call : ∀ {t o : Token} {ts : List Token}, t.kind = .name → o.kind = .opening →
    J.Below (t :: o :: ts) → J.phrase .primary (t :: o :: ts)
  unexpected : ∀ {t : Token} {ts : List Token}, (∀ x, t.kind ≠ .number x) → t.kind ≠ .opening →
    t.kind ≠ .name → J.phrase .primary (t :: ts)
  sign : ∀ {t : Token} {ts : List Token}, t.kind = .minus → J.Below (t :: ts) →
    J.phrase .factor (t :: ts)
  factor : ∀ {tokens : List Token}, (∀ t, tokens.head? = some t → t.kind ≠ .minus) →
    J.phrase .primary tokens → J.phrase .factor tokens
  operators : ∀ (op : BinaryOp) {tokens : List Token}, J.Below tokens →
    J.phrase op.operand tokens → J.phrase op.phrase tokens
  done : ∀ {p : Phrase} {tokens : List Token},
    (∀ t, tokens.head? = some t → operator? p t.kind = none) → J.rest p tokens
  grow : ∀ {op : BinaryOp} {t : Token} {ts : List Token}, t.kind = op.kind → J.Below (t :: ts) →
    J.rest op.phrase (t :: ts)
  list : ∀ {tokens : List Token}, J.Below tokens → J.phrase .sum tokens → J.list tokens

variable {J : Judgment} {tokens : List Token}

theorem Steps.primary (h : J.Steps) (ih : J.Below tokens) : J.phrase .primary tokens := by
  cases tokens with
  | nil => exact h.nothing
  | cons t ts =>
      cases ht : t.kind with
      | number x => exact h.number ht
      | opening => exact h.group ht ih
      | name =>
          rcases starts_or_not .opening ts with ⟨o, rest, rfl, ho⟩ | hts
          · exact h.call ht ho ih
          · exact h.name ht hts
      | _ => exact h.unexpected (by simp [ht]) (by simp [ht]) (by simp [ht])

theorem Steps.factors (h : J.Steps) (ih : J.Below tokens) : J.phrase .factor tokens := by
  rcases starts_or_not .minus tokens with ⟨t, ts, rfl, ht⟩ | hsign
  · exact h.sign ht ih
  · exact h.factor hsign (h.primary ih)

theorem Steps.rests (h : J.Steps) (ih : J.Below tokens) (p : Phrase) : J.rest p tokens := by
  by_cases hdone : ∀ t, tokens.head? = some t → operator? p t.kind = none
  · exact h.done hdone
  · obtain ⟨t, hhead, op, hop⟩ :
        ∃ t, tokens.head? = some t ∧ ∃ op, operator? p t.kind = some op := by
      simpa [Option.ne_none_iff_exists'] using hdone
    obtain ⟨rfl, ht⟩ := operator?_eq_some.mp hop
    obtain ⟨ts, rfl⟩ := List.head?_eq_some_iff.mp hhead
    exact h.grow ht ih

/-- **What every construct keeps to holds of all tokens.** -/
theorem Steps.holds (h : J.Steps) (tokens : List Token) : J.Holds tokens := by
  induction hlen : tokens.length using Nat.strongRecOn generalizing tokens with
  | _ len ih =>
      have below : J.Below tokens := fun us hus => ih us.length (by omega) us rfl
      have product : J.phrase .product tokens := h.operators .multiply below (h.factors below)
      have sum : J.phrase .sum tokens := h.operators .add below product
      refine ⟨fun p => ?_, h.rests below, h.list below sum⟩
      cases p with
      | sum => exact sum
      | product => exact product
      | factor => exact h.factors below
      | primary => exact h.primary below

theorem Below.tail {t : Token} {ts : List Token} (h : J.Below (t :: ts)) : J.Holds ts :=
  h ts (by simp)

end Judgment

/-! ### The equations, by construct

What a procedure does behind a success of another is a step of its own, and an error ends
them both.
-/

variable (ctx : Context) (level : Nat) {p : Phrase} {tokens : List Token}

theorem read_operators_bind (op : BinaryOp) (tokens : List Token) :
    read ctx level op.phrase tokens =
      read ctx level op.operand tokens >>= fun r =>
        readRest ctx level op.phrase r.found r.depth r.rest := by
  rw [read_operators]
  cases read ctx level op.operand tokens <;> rfl

theorem readRest_of_head (h : ∀ t, tokens.head? = some t → operator? p t.kind = none) (left : Expr)
    (depth : Nat) : readRest ctx level p left depth tokens = .ok ⟨left, depth, tokens⟩ := by
  cases tokens with
  | nil => exact readRest_nil ctx level p left depth
  | cons t ts => exact readRest_of_none ctx level (h t rfl) left depth ts

theorem readRest_bind {op : BinaryOp} {t : Token} (ht : t.kind = op.kind) (left : Expr) (depth : Nat)
    (ts : List Token) :
    readRest ctx level op.phrase left depth (t :: ts) =
      read ctx level op.operand ts >>= fun r =>
        if ctx.maxDepth < (1 + max depth r.depth : Nat) then .error (.tooDeep ctx.maxDepth t.position)
        else
          readRest ctx level op.phrase (.binary op left r.found (some t.position))
            (1 + max depth r.depth) r.rest := by
  rw [readRest_operator ctx level ht]
  cases read ctx level op.operand ts <;> rfl

theorem read_factor_of_head (h : ∀ t, tokens.head? = some t → t.kind ≠ .minus) :
    read ctx level .factor tokens = read ctx level .primary tokens := by
  cases tokens with
  | nil => rw [read_factor_nil]; rfl
  | cons t ts => exact read_factor_of_ne_minus ctx level (h t rfl) ts

theorem read_minus_bind {t : Token} (ht : t.kind = .minus) (ts : List Token) :
    read ctx level .factor (t :: ts) =
      if ctx.maxDepth < level + 1 then .error (.nestedTooDeep ctx.maxDepth t.position)
      else
        read ctx (level + 1) .factor ts >>= fun r =>
          if ctx.maxDepth < r.depth + 1 then .error (.tooDeep ctx.maxDepth t.position)
          else .ok ⟨.negate r.found (some t.position), r.depth + 1, r.rest⟩ := by
  rw [read_minus ctx level ht]
  cases read ctx (level + 1) .factor ts <;> rfl

/-- What was read in a group, once its parenthesis is closed. -/
def closeGroup (opening : Token) (r : Reading Expr) : Except ParseError (Reading Expr) :=
  match r.rest with
  | ⟨.closing, _, _⟩ :: behind => .ok ⟨r.found, r.depth, behind⟩
  | others => .error (notClosed opening others)

theorem read_group_bind {t : Token} (ht : t.kind = .opening) (ts : List Token) :
    read ctx level .primary (t :: ts) =
      if ctx.maxDepth < level + 1 then .error (.nestedTooDeep ctx.maxDepth t.position)
      else read ctx (level + 1) .sum ts >>= closeGroup t := by
  rw [read_group ctx level ht]
  cases read ctx (level + 1) .sum ts <;> rfl

theorem read_unknown {t o : Token} (ht : t.kind = .name) (ho : o.kind = .opening)
    (hf : ctx.registry.find? t.text = none) (ts : List Token) :
    read ctx level .primary (t :: o :: ts) = .error (.unknownFunction t.text t.position) := by
  rw [read_call ctx level ht ho, hf]

theorem read_call_bind {t o : Token} (ht : t.kind = .name) (ho : o.kind = .opening)
    {function : Function} (hf : ctx.registry.find? t.text = some function) (ts : List Token) :
    read ctx level .primary (t :: o :: ts) =
      if ctx.maxDepth < level + 1 then .error (.nestedTooDeep ctx.maxDepth o.position)
      else
        readArguments ctx (level + 1) o ts >>= fun given =>
          if (given.found.length : Int) ≠ function.arity then
            .error (.wrongArity t.text function.arity given.found.length t.position)
          else if ctx.maxDepth < given.depth + 1 then .error (.tooDeep ctx.maxDepth t.position)
          else .ok ⟨.call (.str t.text) given.found (some t.position), given.depth + 1, given.rest⟩ := by
  rw [read_call ctx level ht ho, hf]
  cases readArguments ctx (level + 1) o ts <;> rfl

/-- What follows an argument: another one behind a comma, or the end of the list. -/
def readMore (opening : Token) (first : Reading Expr) : Except ParseError (Reading (List Expr)) :=
  match first.rest with
  | [] => .error (.unclosed opening.position)
  | t :: rest =>
    match t.kind with
    | .comma =>
      readList ctx level opening rest >>= fun more =>
        .ok ⟨first.found :: more.found, max first.depth more.depth, more.rest⟩
    | .closing => .ok ⟨[first.found], first.depth, rest⟩
    | _ => .error (unexpected t)

theorem readList_bind (opening : Token) (ts : List Token) :
    readList ctx level opening ts = read ctx level .sum ts >>= readMore ctx level opening := by
  rw [readList_eq]
  cases read ctx level .sum ts with
  | error e => rfl
  | ok first =>
      obtain ⟨tree, depth, rest⟩ := first
      rcases rest with _ | ⟨⟨kind, text, position⟩, behind⟩
      · rfl
      · cases kind
        case comma =>
          simp only [bind, Except.bind, readMore]
          cases readList ctx level opening behind <;> rfl
        all_goals rfl

/-- A whole formula leaves no token behind. -/
def finish (r : Reading Expr) : Except ParseError Expr :=
  match r.rest with
  | [] => .ok r.found
  | ⟨.closing, _, position⟩ :: _ => .error (.unopened position)
  | t :: _ => .error (unexpected t)

theorem tree_bind (tokens : List Token) : tree ctx tokens = read ctx 0 .sum tokens >>= finish := by
  rw [tree_eq]
  cases read ctx 0 .sum tokens <;> rfl

/-! ### What is left -/

variable {ctx : Context} {level : Nat}

/-- A procedure uses up at least one token. -/
theorem length_rest_lt {r : Reading Expr} (h : read ctx level p tokens = .ok r) :
    r.rest.length < tokens.length := by
  have shorter : ∀ {us : List Token} {x : Except ParseError (Step us)},
      x.map Step.reading = .ok r → r.rest.length < us.length := by
    intro us x hx
    cases x with
    | error e => cases hx
    | ok s =>
        cases hx
        exact s.shorter
  cases p with
  | primary =>
      cases tokens with
      | nil => cases h
      | cons t ts => exact shorter h
  | _ => exact shorter h

end Scorecard.Parser
