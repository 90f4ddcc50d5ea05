/-
The parser by index.

Here the tokens stand on a tape, with a mark behind them that is no token.  A procedure starts
at an index and answers with the index where it stopped.  It looks at one mark, or at the next
one, wherever it happens to be, and it calls others as long as it pleases.  So two things might
go wrong that cannot with a list that gets shorter: a look beyond the end of the tape, which
stops the run, and calls in calls without end.  How deep calls may go is the fuel of a run; if
no fuel is enough, the run would never end.
-/
import Scorecard.Proofs.Formula.Induction
import Scorecard.Proofs.Formula.Tokens

namespace Scorecard

/-! ### The tape -/

/-- What stands on a tape: a token, or the mark behind all of them, which has no kind. -/
structure Mark where
  kind : Option Token.Kind
  text : String
  position : Nat

/-- The mark that a token is. -/
def Token.mark (t : Token) : Mark :=
  ⟨some t.kind, t.text, t.position⟩

/-- The tokens, and the end behind them. -/
def TokenList.marks (list : TokenList) : List Mark :=
  list.tokens.map Token.mark ++ [⟨none, "", list.stop⟩]

/-- A tape, and what stays the same while it is read. -/
structure Tape where
  registry : Registry
  maxDepth : Int
  marks : List Mark

open Scorecard.Parser

namespace Tape

/-- What stops a run: the formula is refused, or there is nothing at an index. -/
inductive Stop where
  | refused (e : ParseError)
  | outside (index : Int)

/-- A run that may be stopped.  One that is out of fuel has no outcome. -/
abbrev Run (α : Type) := ExceptT Stop Option α

/-- No outcome. -/
def exhausted {α : Type} : Run α :=
  (none : Option (Except Stop α))

/-- What was found, its depth, and the index behind it. -/
structure Visit (α : Type) where
  found : α
  depth : Nat
  next : Nat

variable (tape : Tape)

/-- The mark at an index. -/
def look (i : Nat) : Run Mark :=
  match tape.marks[i]? with
  | some m => pure m
  | none => throw (.outside i)

/-- The refusal of a mark that nothing can start or continue with. -/
def unexpected (m : Mark) : Stop :=
  match m.kind with
  | some _ => .refused (.unexpected m.text m.position)
  | none => .refused (.unexpectedEnd m.position)

/-- The refusal of a mark where the parenthesis opened at `opening` should close. -/
def notClosed (opening m : Mark) : Stop :=
  match m.kind with
  | some _ => unexpected m
  | none => .refused (.unclosed opening.position)

/-- A construct that opens at a mark must not be nested too deeply. -/
def checkLevel (level : Int) (m : Mark) : Run Unit :=
  if tape.maxDepth < level then throw (.refused (.nestedTooDeep tape.maxDepth m.position)) else pure ()

/-- A node made of a mark must not be too deep. -/
def checkDepth (depth : Int) (m : Mark) : Run Unit :=
  if tape.maxDepth < depth then throw (.refused (.tooDeep tape.maxDepth m.position)) else pure ()

mutual

/-- A phrase from an index on. -/
def phrase (fuel : Nat) (p : Phrase) (level i : Nat) : Run (Visit Expr) :=
  match fuel with
  | 0 => exhausted
  | fuel + 1 => do
    match p with
    | .sum =>
      let first ← phrase fuel .product level i
      loop fuel .sum level first.found first.depth first.next
    | .product =>
      let first ← phrase fuel .factor level i
      loop fuel .product level first.found first.depth first.next
    | .factor =>
      let m ← tape.look i
      match m.kind with
      | some .minus =>
        tape.checkLevel (level + 1) m
        let operand ← phrase fuel .factor (level + 1) (i + 1)
        tape.checkDepth (operand.depth + 1) m
        return ⟨.negate operand.found (some m.position), operand.depth + 1, operand.next⟩
      | _ => phrase fuel .primary level i
    | .primary =>
      let m ← tape.look i
      match m.kind with
      | some (.number x) => return ⟨.number x (some m.position), 1, i + 1⟩
      | some .opening =>
        tape.checkLevel (level + 1) m
        let inner ← phrase fuel .sum (level + 1) (i + 1)
        let close ← tape.look inner.next
        match close.kind with
        | some .closing => return ⟨inner.found, inner.depth, inner.next + 1⟩
        | _ => throw (notClosed m close)
      | some .name =>
        let following ← tape.look (i + 1)
        match following.kind with
        | some .opening => call fuel level i
        | _ => return ⟨.variable (.str m.text) (some m.position), 1, i + 1⟩
      | _ => throw (unexpected m)

/-- What grows a phrase to the right. -/
def loop (fuel : Nat) (p : Phrase) (level : Nat) (left : Expr) (depth i : Nat) : Run (Visit Expr) :=
  match fuel with
  | 0 => exhausted
  | fuel + 1 => do
    let m ← tape.look i
    match m.kind.bind (operator? p) with
    | none => return ⟨left, depth, i⟩
    | some op =>
      let right ← phrase fuel op.operand level (i + 1)
      tape.checkDepth (1 + max depth right.depth : Nat) m
      loop fuel p level (.binary op left right.found (some m.position)) (1 + max depth right.depth)
        right.next

/-- A call, from its name on. -/
def call (fuel level i : Nat) : Run (Visit Expr) :=
  match fuel with
  | 0 => exhausted
  | fuel + 1 => do
    let name ← tape.look i
    let opening ← tape.look (i + 1)
    match tape.registry.find? name.text with
    | none => throw (.refused (.unknownFunction name.text name.position))
    | some function =>
      tape.checkLevel (level + 1) opening
      let given ← arguments fuel (level + 1) opening (i + 2)
      if (given.found.length : Int) ≠ function.arity then
        throw (.refused (.wrongArity name.text function.arity given.found.length name.position))
      else
        tape.checkDepth (given.depth + 1) name
        return ⟨.call (.str name.text) given.found (some name.position), given.depth + 1, given.next⟩

/-- The arguments of a call and the closing parenthesis; there may be none. -/
def arguments (fuel level : Nat) (opening : Mark) (i : Nat) : Run (Visit (List Expr)) :=
  match fuel with
  | 0 => exhausted
  | fuel + 1 => do
    let m ← tape.look i
    match m.kind with
    | some .closing => return ⟨[], 0, i + 1⟩
    | _ => someArguments fuel level opening i

/-- At least one argument, and the closing parenthesis. -/
def someArguments (fuel level : Nat) (opening : Mark) (i : Nat) : Run (Visit (List Expr)) :=
  match fuel with
  | 0 => exhausted
  | fuel + 1 => do
    let first ← phrase fuel .sum level i
    let m ← tape.look first.next
    match m.kind with
    | some .comma =>
      let more ← someArguments fuel level opening (first.next + 1)
      return ⟨first.found :: more.found, max first.depth more.depth, more.next⟩
    | some .closing => return ⟨[first.found], first.depth, first.next + 1⟩
    | _ => throw (notClosed opening m)

end

/-- A whole formula, up to the end mark. -/
def formula (fuel : Nat) : Run Expr := do
  let all ← tape.phrase fuel .sum 0 0
  let m ← tape.look all.next
  match m.kind with
  | none => return all.found
  | some .closing => throw (.refused (.unopened m.position))
  | some _ => throw (unexpected m)

end Tape

/-- The tape of a text's tokens. -/
def TokenList.tape (list : TokenList) (registry : Registry) (maxDepth : Int) : Tape :=
  ⟨registry, maxDepth, list.marks⟩

/-- The tree of a text's tokens, read by index. -/
def TokenList.run (registry : Registry) (limits : Limits) (list : TokenList) (fuel : Nat) :
    Tape.Run Expr :=
  if limits.maxTokens < (list.marks.length - 1 : Nat) then
    match list.positionAt? limits.maxTokens with
    | some position =>
      throw (.refused (.tooManyTokens (list.marks.length - 1) limits.maxTokens position))
    | none => throw (.outside limits.maxTokens)
  else (list.tape registry limits.maxDepth).formula fuel

/-! ### One equation for each construct -/

namespace Tape

section Equations

variable {tape : Tape} {m : Mark} {level i : Nat} (fuel : Nat)

theorem phrase_operators (tape : Tape) (op : BinaryOp) (level i : Nat) :
    tape.phrase (fuel + 1) op.phrase level i = tape.phrase fuel op.operand level i >>= fun first =>
      tape.loop fuel op.phrase level first.found first.depth first.next := by
  cases op <;> rw [BinaryOp.phrase, phrase] <;> rfl

theorem phrase_minus (hi : tape.look i = pure m) (hm : m.kind = some .minus) :
    tape.phrase (fuel + 1) .factor level i = tape.checkLevel (level + 1) m >>= fun _ =>
      tape.phrase fuel .factor (level + 1) (i + 1) >>= fun operand =>
        tape.checkDepth (operand.depth + 1) m >>= fun _ =>
          pure ⟨.negate operand.found (some m.position), operand.depth + 1, operand.next⟩ := by
  rw [phrase]
  simp only [hi, pure_bind, hm]

theorem phrase_factor (hi : tape.look i = pure m) (hm : m.kind ≠ some .minus) :
    tape.phrase (fuel + 1) .factor level i = tape.phrase fuel .primary level i := by
  rw [phrase]
  simp only [hi, pure_bind]

theorem phrase_number {x : Float} (hi : tape.look i = pure m) (hm : m.kind = some (.number x)) :
    tape.phrase (fuel + 1) .primary level i = pure ⟨.number x (some m.position), 1, i + 1⟩ := by
  rw [phrase]
  simp only [hi, pure_bind, hm]

/-- What was found in a group, once its parenthesis is closed. -/
def close (tape : Tape) (opening : Mark) (inner : Visit Expr) : Run (Visit Expr) := do
  let m ← tape.look inner.next
  match m.kind with
  | some .closing => return ⟨inner.found, inner.depth, inner.next + 1⟩
  | _ => throw (notClosed opening m)

theorem phrase_group (hi : tape.look i = pure m) (hm : m.kind = some .opening) :
    tape.phrase (fuel + 1) .primary level i = tape.checkLevel (level + 1) m >>= fun _ =>
      tape.phrase fuel .sum (level + 1) (i + 1) >>= tape.close m := by
  rw [phrase]
  simp only [hi, pure_bind, hm]
  rfl

theorem phrase_call {o : Mark} (hi : tape.look i = pure m) (hm : m.kind = some .name)
    (hnext : tape.look (i + 1) = pure o) (ho : o.kind = some .opening) :
    tape.phrase (fuel + 1) .primary level i = tape.call fuel level i := by
  rw [phrase]
  simp only [hi, pure_bind, hm, hnext, ho]

theorem phrase_variable {o : Mark} (hi : tape.look i = pure m) (hm : m.kind = some .name)
    (hnext : tape.look (i + 1) = pure o) (ho : o.kind ≠ some .opening) :
    tape.phrase (fuel + 1) .primary level i =
      pure ⟨.variable (.str m.text) (some m.position), 1, i + 1⟩ := by
  rw [phrase]
  simp only [hi, pure_bind, hm, hnext]

theorem phrase_unexpected (hi : tape.look i = pure m) (hn : ∀ x, m.kind ≠ some (.number x))
    (ho : m.kind ≠ some .opening) (hf : m.kind ≠ some .name) :
    tape.phrase (fuel + 1) .primary level i = throw (unexpected m) := by
  rw [phrase]
  simp only [hi, pure_bind]

theorem loop_done {p : Phrase} (hi : tape.look i = pure m) (hm : m.kind.bind (operator? p) = none)
    (left : Expr) (depth : Nat) :
    tape.loop (fuel + 1) p level left depth i = pure ⟨left, depth, i⟩ := by
  rw [loop]
  simp only [hi, pure_bind, hm]

theorem loop_grow {op : BinaryOp} (hi : tape.look i = pure m) (hm : m.kind = some op.kind)
    (left : Expr) (depth : Nat) :
    tape.loop (fuel + 1) op.phrase level left depth i =
      tape.phrase fuel op.operand level (i + 1) >>= fun right =>
        tape.checkDepth (1 + max depth right.depth : Nat) m >>= fun _ =>
          tape.loop fuel op.phrase level (.binary op left right.found (some m.position))
            (1 + max depth right.depth) right.next := by
  have hop : m.kind.bind (operator? op.phrase) = some op := by
    rw [hm]
    exact operator?_eq_some.mpr ⟨rfl, rfl⟩
  rw [loop]
  simp only [hi, pure_bind, hop]

theorem call_unknown {o : Mark} (hi : tape.look i = pure m) (hnext : tape.look (i + 1) = pure o)
    (hf : tape.registry.find? m.text = none) :
    tape.call (fuel + 1) level i = throw (.refused (.unknownFunction m.text m.position)) := by
  rw [call]
  simp only [hi, hnext, pure_bind, hf]

theorem call_known {o : Mark} {function : Function} (hi : tape.look i = pure m)
    (hnext : tape.look (i + 1) = pure o) (hf : tape.registry.find? m.text = some function) :
    tape.call (fuel + 1) level i = tape.checkLevel (level + 1) o >>= fun _ =>
      tape.arguments fuel (level + 1) o (i + 2) >>= fun given =>
        if (given.found.length : Int) ≠ function.arity then
          throw (.refused (.wrongArity m.text function.arity given.found.length m.position))
        else
          tape.checkDepth (given.depth + 1) m >>= fun _ =>
            pure ⟨.call (.str m.text) given.found (some m.position), given.depth + 1, given.next⟩ := by
  rw [call]
  simp only [hi, hnext, pure_bind, hf]

theorem arguments_closing (hi : tape.look i = pure m) (hm : m.kind = some .closing) (opening : Mark) :
    tape.arguments (fuel + 1) level opening i = pure ⟨[], 0, i + 1⟩ := by
  rw [arguments]
  simp only [hi, pure_bind, hm]

theorem arguments_some (hi : tape.look i = pure m) (hm : m.kind ≠ some .closing) (opening : Mark) :
    tape.arguments (fuel + 1) level opening i = tape.someArguments fuel level opening i := by
  rw [arguments]
  simp only [hi, pure_bind]

/-- What follows an argument: another one behind a comma, or the end of the list. -/
def more (tape : Tape) (level : Nat) (opening : Mark) (fuel : Nat) (first : Visit Expr) :
    Run (Visit (List Expr)) := do
  let m ← tape.look first.next
  match m.kind with
  | some .comma =>
    let more ← tape.someArguments fuel level opening (first.next + 1)
    return ⟨first.found :: more.found, max first.depth more.depth, more.next⟩
  | some .closing => return ⟨[first.found], first.depth, first.next + 1⟩
  | _ => throw (notClosed opening m)

theorem someArguments_bind (tape : Tape) (level : Nat) (opening : Mark) (i : Nat) :
    tape.someArguments (fuel + 1) level opening i =
      tape.phrase fuel .sum level i >>= tape.more level opening fuel := by
  rw [someArguments]
  rfl

end Equations

end Tape

end Scorecard
