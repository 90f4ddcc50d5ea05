/-
From tokens to a tree.

    sum       =  product  { ( "+" | "-" ) product }
    product   =  factor   { ( "*" | "/" ) factor }
    factor    =  "-" factor  |  primary
    primary   =  number  |  name  |  name "(" [ sum { "," sum } ] ")"  |  "(" sum ")"

Both loops lean to the left, and a group leaves no node.  Each procedure takes the
tokens that are left and answers with a tree, its depth, and the tokens behind it; a
`Step` carries the proof that these are fewer, which is what ends the recursion.

Two limits protect whoever walks the tree later.  Groups, calls and signs may be
nested only so deep, which is checked when one opens, before anything behind it is
read.  The tree may be only so deep, which also catches long chains that lean to the
left, and is checked when a node is built.

Parsing and whatever walks a tree call themselves on what stands inside, and an
interpreter allows only so many calls within calls.  That limit is no part of this model:
the limits here may be set as high as one likes, and no formula is too deep to be parsed,
evaluated or written.
-/
import Scorecard.Formula.Expr
import Scorecard.Formula.Registry
import Scorecard.Formula.Token

namespace Scorecard

namespace Parser

/-- What stays the same while a formula is parsed: the functions that may be called,
the limit on depth, and the place where the text ends. -/
structure Context where
  registry : Registry
  maxDepth : Int
  stop : Nat

/-- A tree read from the front of `tokens`, its depth, and the tokens behind it. -/
structure Step (tokens : List Token) where
  tree : Expr
  depth : Nat
  rest : List Token
  shorter : rest.length < tokens.length

/-- A tree that was there already, grown by what stood at the front of `tokens`. -/
structure Growth (tokens : List Token) where
  tree : Expr
  depth : Nat
  rest : List Token
  notLonger : rest.length ≤ tokens.length

/-- The arguments of a call, the greatest of their depths, and what stands behind
the closing parenthesis. -/
structure Arguments (tokens : List Token) where
  trees : List Expr
  depth : Nat
  rest : List Token
  shorter : rest.length < tokens.length

/-- A step through tokens that themselves stand behind others. -/
def Step.weaken {some all : List Token} (s : Step some) (h : some.length ≤ all.length) : Step all :=
  ⟨s.tree, s.depth, s.rest, Nat.lt_of_lt_of_le s.shorter h⟩

/-- The operator that joins products. -/
def sumOp? : Token.Kind → Option BinaryOp
  | .plus => some .add
  | .minus => some .subtract
  | _ => none

/-- The operator that joins factors. -/
def productOp? : Token.Kind → Option BinaryOp
  | .star => some .multiply
  | .slash => some .divide
  | _ => none

/-- The error of a token that nothing can start or continue with. -/
def unexpected (token : Token) : ParseError :=
  .unexpected token.text token.position

/-- The error of finding something else where the parenthesis opened at `opening`
should close. -/
def notClosed (opening : Token) : List Token → ParseError
  | [] => .unclosed opening.position
  | token :: _ => unexpected token

mutual

/-- Products joined by `+` and `-`. -/
def sum (ctx : Context) (level : Nat) (tokens : List Token) : Except ParseError (Step tokens) :=
  match product ctx level tokens with
  | .error e => .error e
  | .ok first =>
    match sumRest ctx level first.tree first.depth first.rest with
    | .error e => .error e
    | .ok all =>
      .ok ⟨all.tree, all.depth, all.rest, Nat.lt_of_le_of_lt all.notLonger first.shorter⟩
termination_by (tokens.length, 4)
decreasing_by
  · exact Prod.Lex.right _ (by omega)
  · exact Prod.Lex.left _ _ first.shorter

/-- What is added to a sum so far. -/
def sumRest (ctx : Context) (level : Nat) (left : Expr) (depth : Nat) (tokens : List Token) :
    Except ParseError (Growth tokens) :=
  match tokens with
  | [] => .ok ⟨left, depth, [], Nat.le_refl _⟩
  | token :: rest =>
    match sumOp? token.kind with
    | none => .ok ⟨left, depth, token :: rest, Nat.le_refl _⟩
    | some op =>
      match product ctx level rest with
      | .error e => .error e
      | .ok right =>
        let grown := 1 + max depth right.depth
        if ctx.maxDepth < grown then .error (.tooDeep ctx.maxDepth token.position)
        else
          match sumRest ctx level (.binary op left right.tree (some token.position)) grown right.rest with
          | .error e => .error e
          | .ok all =>
            .ok ⟨all.tree, all.depth, all.rest,
              Nat.le_trans all.notLonger (Nat.le_trans (Nat.le_of_lt right.shorter) (Nat.le_succ _))⟩
termination_by (tokens.length, 0)
decreasing_by
  · exact Prod.Lex.left _ _ (Nat.lt_succ_self _)
  · exact Prod.Lex.left _ _ (Nat.lt_succ_of_lt right.shorter)

/-- Factors joined by `*` and `/`. -/
def product (ctx : Context) (level : Nat) (tokens : List Token) : Except ParseError (Step tokens) :=
  match factor ctx level tokens with
  | .error e => .error e
  | .ok first =>
    match productRest ctx level first.tree first.depth first.rest with
    | .error e => .error e
    | .ok all =>
      .ok ⟨all.tree, all.depth, all.rest, Nat.lt_of_le_of_lt all.notLonger first.shorter⟩
termination_by (tokens.length, 3)
decreasing_by
  · exact Prod.Lex.right _ (by omega)
  · exact Prod.Lex.left _ _ first.shorter

/-- What a product so far is multiplied with or divided by. -/
def productRest (ctx : Context) (level : Nat) (left : Expr) (depth : Nat) (tokens : List Token) :
    Except ParseError (Growth tokens) :=
  match tokens with
  | [] => .ok ⟨left, depth, [], Nat.le_refl _⟩
  | token :: rest =>
    match productOp? token.kind with
    | none => .ok ⟨left, depth, token :: rest, Nat.le_refl _⟩
    | some op =>
      match factor ctx level rest with
      | .error e => .error e
      | .ok right =>
        let grown := 1 + max depth right.depth
        if ctx.maxDepth < grown then .error (.tooDeep ctx.maxDepth token.position)
        else
          match productRest ctx level (.binary op left right.tree (some token.position)) grown right.rest with
          | .error e => .error e
          | .ok all =>
            .ok ⟨all.tree, all.depth, all.rest,
              Nat.le_trans all.notLonger (Nat.le_trans (Nat.le_of_lt right.shorter) (Nat.le_succ _))⟩
termination_by (tokens.length, 0)
decreasing_by
  · exact Prod.Lex.left _ _ (Nat.lt_succ_self _)
  · exact Prod.Lex.left _ _ (Nat.lt_succ_of_lt right.shorter)

/-- A primary behind any number of signs. -/
def factor (ctx : Context) (level : Nat) (tokens : List Token) : Except ParseError (Step tokens) :=
  match tokens with
  | [] => .error (.unexpectedEnd ctx.stop)
  | token :: rest =>
    match token.kind with
    | .minus =>
      if ctx.maxDepth < level + 1 then .error (.nestedTooDeep ctx.maxDepth token.position)
      else
        match factor ctx (level + 1) rest with
        | .error e => .error e
        | .ok operand =>
          if ctx.maxDepth < operand.depth + 1 then .error (.tooDeep ctx.maxDepth token.position)
          else
            .ok ⟨.negate operand.tree (some token.position), operand.depth + 1, operand.rest,
              Nat.lt_succ_of_lt operand.shorter⟩
    | _ => primary ctx level token rest
termination_by (tokens.length, 2)
decreasing_by
  · exact Prod.Lex.left _ _ (Nat.lt_succ_self _)
  · exact Prod.Lex.right _ (by omega)

/-- A number, a variable, a call or a group. -/
def primary (ctx : Context) (level : Nat) (token : Token) (rest : List Token) :
    Except ParseError (Step (token :: rest)) :=
  match token.kind with
  | .number value => .ok ⟨.number value (some token.position), 1, rest, Nat.lt_succ_self _⟩
  | .opening =>
    if ctx.maxDepth < level + 1 then .error (.nestedTooDeep ctx.maxDepth token.position)
    else
      match sum ctx (level + 1) rest with
      | .error e => .error e
      | .ok inner =>
        match hr : inner.rest with
        | ⟨.closing, _, _⟩ :: behind =>
          .ok ⟨inner.tree, inner.depth, behind, by
            have := inner.shorter; simp [hr] at this ⊢; omega⟩
        | others => .error (notClosed token others)
  | .name =>
    match rest with
    | ⟨.opening, text, position⟩ :: behind =>
      match call ctx level token ⟨.opening, text, position⟩ behind with
      | .error e => .error e
      | .ok step => .ok (step.weaken (Nat.le_succ _))
    | others => .ok ⟨.variable (.str token.text) (some token.position), 1, others, Nat.lt_succ_self _⟩
  | _ => .error (unexpected token)
termination_by (rest.length + 1, 1)
decreasing_by
  · exact Prod.Lex.left _ _ (Nat.lt_succ_self _)
  · exact Prod.Lex.left _ _ (by simp only [List.length_cons]; omega)

/-- A call, behind its opening parenthesis. -/
def call (ctx : Context) (level : Nat) (name opening : Token) (tokens : List Token) :
    Except ParseError (Step (opening :: tokens)) :=
  match ctx.registry.find? name.text with
  | none => .error (.unknownFunction name.text name.position)
  | some function =>
    if ctx.maxDepth < level + 1 then .error (.nestedTooDeep ctx.maxDepth opening.position)
    else
      match arguments ctx (level + 1) opening tokens with
      | .error e => .error e
      | .ok given =>
        if (given.trees.length : Int) ≠ function.arity then
          .error (.wrongArity name.text function.arity given.trees.length name.position)
        else if ctx.maxDepth < given.depth + 1 then
          .error (.tooDeep ctx.maxDepth name.position)
        else
          .ok ⟨.call (.str name.text) given.trees (some name.position), given.depth + 1, given.rest,
            Nat.lt_succ_of_lt given.shorter⟩
termination_by (tokens.length, 7)
decreasing_by
  · exact Prod.Lex.right _ (by omega)

/-- The arguments of a call and its closing parenthesis; there may be none. -/
def arguments (ctx : Context) (level : Nat) (opening : Token) (tokens : List Token) :
    Except ParseError (Arguments tokens) :=
  match tokens with
  | ⟨.closing, _, _⟩ :: rest => .ok ⟨[], 0, rest, Nat.lt_succ_self _⟩
  | others => someArguments ctx level opening others
termination_by (tokens.length, 6)
decreasing_by
  · exact Prod.Lex.right _ (by omega)

/-- At least one argument, commas between them, and the closing parenthesis. -/
def someArguments (ctx : Context) (level : Nat) (opening : Token) (tokens : List Token) :
    Except ParseError (Arguments tokens) :=
  match sum ctx level tokens with
  | .error e => .error e
  | .ok first =>
    match hr : first.rest with
    | [] => .error (.unclosed opening.position)
    | token :: rest =>
      match token.kind with
      | .comma =>
        match someArguments ctx level opening rest with
        | .error e => .error e
        | .ok more =>
          .ok ⟨first.tree :: more.trees, max first.depth more.depth, more.rest, by
            have := first.shorter; have := more.shorter; simp [hr] at *; omega⟩
      | .closing =>
        .ok ⟨[first.tree], first.depth, rest, by
          have := first.shorter; simp [hr] at this; omega⟩
      | _ => .error (unexpected token)
termination_by (tokens.length, 5)
decreasing_by
  · exact Prod.Lex.right _ (by omega)
  · exact Prod.Lex.left _ _ (by have := first.shorter; simp [hr] at this; omega)

end

/-- The tree of a list of tokens. -/
def tree (ctx : Context) (tokens : List Token) : Except ParseError Expr :=
  match sum ctx 0 tokens with
  | .error e => .error e
  | .ok all =>
    match all.rest with
    | [] => .ok all.tree
    | ⟨.closing, _, position⟩ :: _ => .error (.unopened position)
    | token :: _ => .error (unexpected token)

end Parser

/-! ### Formulas

A formula comes as any value.  Text is read.  Something empty that has a length reads
like empty text, and anything else is no formula at all.
-/

/-- How large a formula may be: the depth of nesting and tree, and the number of tokens. -/
structure Limits where
  maxDepth : Int := 64
  maxTokens : Int := 4096

/-- The place of the token at an index that may count from the end; the place where
the text stops stands for the last. -/
def TokenList.positionAt? (list : TokenList) (index : Int) : Option Nat :=
  let positions := list.tokens.map (·.position) ++ [list.stop]
  let i := if index < 0 then index + positions.length else index
  if i < 0 then none else positions[i.toNat]?

/-- The tree of a text's tokens. -/
def TokenList.parse (registry : Registry) (limits : Limits) (list : TokenList) : Except Failure Expr :=
  if limits.maxTokens < list.tokens.length then
    match list.positionAt? limits.maxTokens with
    | some position =>
      .error (.formula (.parse (.tooManyTokens list.tokens.length limits.maxTokens position)))
    | none => .error (.fault .outOfRange)
  else
    match Parser.tree ⟨registry, limits.maxDepth, list.stop⟩ list.tokens with
    | .ok e => .ok e
    | .error e => .error (.formula (.parse e))

/-- The tree of a formula's text. -/
def Expr.parse (registry : Registry) (limits : Limits) (text : String) : Except Failure Expr :=
  match TokenList.ofText text with
  | .error e => .error (.formula (.lex e))
  | .ok list => list.parse registry limits

/-- The text that a value stands for as a formula.  Half of a surrogate pair is no more a
part of a formula than the replacement character is. -/
def Value.formulaText? (v : Value) : Option String :=
  match v.surface with
  | .str text => some text
  | .broken text => some text.shown
  | .bytes [] => some ""
  | .list [] => some ""
  | .tuple [] => some ""
  | .record [] => some ""
  | _ => none

/-- The tree of a formula that may not be text. -/
def Value.parseFormula (registry : Registry) (limits : Limits) (formula : Value) : Except Failure Expr :=
  match formula.formulaText? with
  | some text => Expr.parse registry limits text
  | none => .error (.fault .wrongKind)

end Scorecard
