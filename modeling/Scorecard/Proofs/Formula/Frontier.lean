/-
Frontiers: what may come next in a formula.

Whether some tokens are the beginning of a formula can be told while they are read from
left to right, without a tree.  All that matters is whether an operand is due or one has
just ended, and which parentheses stand open: of a group or of a call, since only a call
may go on behind a comma.  That is a `Frontier`, and `Frontier.next` says which tokens may
come next.
-/
import Scorecard.Proofs.Formula.Grammar

namespace Scorecard

/-! ### Frontiers -/

/-- What is due behind some tokens. -/
inductive Turn where
  | operand
  /-- The first argument of a call, or its closing parenthesis. -/
  | arguments
  /-- An operand has ended, with a name that a parenthesis could make a call. -/
  | name
  /-- An operand has ended. -/
  | complete

/-- An operand has ended. -/
def Turn.Over : Turn → Prop
  | .name => True
  | .complete => True
  | _ => False

/-- A parenthesis that stands open: of a call or of a group, and the token itself. -/
structure Enclosure where
  call : Bool
  opening : Token

/-- What is due, and the parentheses that stand open, the innermost first. -/
structure Frontier where
  turn : Turn
  around : List Enclosure

variable {f g : Frontier} {e : Enclosure} {around : List Enclosure} {t : Token} {ts : List Token}
  {turn : Turn}

namespace Frontier

/-- An operand starts. -/
def start (around : List Enclosure) (t : Token) : Option Frontier :=
  match t.kind with
  | .number _ => some ⟨.complete, around⟩
  | .name => some ⟨.name, around⟩
  | .opening => some ⟨.operand, ⟨false, t⟩ :: around⟩
  | .minus => some ⟨.operand, around⟩
  | _ => none

/-- The innermost parenthesis closes. -/
def close : List Enclosure → Option Frontier
  | [] => none
  | _ :: outer => some ⟨.complete, outer⟩

/-- Something goes on behind an operand. -/
def goOn (around : List Enclosure) (t : Token) : Option Frontier :=
  match t.kind with
  | .plus | .minus | .star | .slash => some ⟨.operand, around⟩
  | .closing => close around
  | .comma => if around.head?.any (·.call) then some ⟨.operand, around⟩ else none
  | _ => none

/-- The frontier behind one more token, if it may come next. -/
def next (f : Frontier) (t : Token) : Option Frontier :=
  match f.turn, t.kind with
  | .operand, _ => start f.around t
  | .arguments, .closing => close f.around
  | .arguments, _ => start f.around t
  | .name, .opening => some ⟨.arguments, ⟨true, t⟩ :: f.around⟩
  | .name, _ => goOn f.around t
  | .complete, _ => goOn f.around t

/-- Before the first token. -/
def first : Frontier :=
  ⟨.operand, []⟩

/-- The frontier behind some tokens more. -/
def walk (f : Frontier) (ts : List Token) : Option Frontier :=
  ts.foldlM next f

theorem walk_nil (f : Frontier) : f.walk [] = some f :=
  rfl

theorem walk_cons (f : Frontier) (t : Token) (ts : List Token) :
    f.walk (t :: ts) = (f.next t).bind (·.walk ts) :=
  List.foldlM_cons ..

theorem walk_append (f : Frontier) (ts us : List Token) :
    f.walk (ts ++ us) = (f.walk ts).bind (·.walk us) :=
  List.foldlM_append ..

/-! ### One token more -/

theorem next_number {x : Float} (ht : t.kind = .number x) :
    next ⟨.operand, around⟩ t = some ⟨.complete, around⟩ := by
  simp [next, start, ht]

theorem next_name (ht : t.kind = .name) : next ⟨.operand, around⟩ t = some ⟨.name, around⟩ := by
  simp [next, start, ht]

theorem next_minus (ht : t.kind = .minus) :
    next ⟨.operand, around⟩ t = some ⟨.operand, around⟩ := by
  simp [next, start, ht]

theorem next_group (ht : t.kind = .opening) :
    next ⟨.operand, around⟩ t = some ⟨.operand, ⟨false, t⟩ :: around⟩ := by
  simp [next, start, ht]

theorem next_call (ht : t.kind = .opening) :
    next ⟨.name, around⟩ t = some ⟨.arguments, ⟨true, t⟩ :: around⟩ := by
  simp [next, ht]

/-- Behind an operand anything but the parenthesis that makes it a call goes on. -/
theorem next_over (hover : turn.Over) (ht : turn = .name → t.kind ≠ .opening) :
    next ⟨turn, around⟩ t = goOn around t := by
  cases turn with
  | operand => exact hover.elim
  | arguments => exact hover.elim
  | name =>
      have hopening := ht rfl
      cases hk : t.kind <;> simp_all [next]
  | complete => rfl

theorem next_operator (hover : turn.Over) {op : BinaryOp} (ht : t.kind = op.kind) :
    next ⟨turn, around⟩ t = some ⟨.operand, around⟩ := by
  have hkind : t.kind ≠ .opening := by rw [ht]; cases op <;> simp [BinaryOp.kind]
  rw [next_over hover fun _ => hkind]
  cases op <;> simp [goOn, ht, BinaryOp.kind]

theorem next_closing (hover : turn.Over) (ht : t.kind = .closing) :
    next ⟨turn, e :: around⟩ t = some ⟨.complete, around⟩ := by
  rw [next_over hover (by simp [ht])]
  simp [goOn, ht, close]

theorem next_comma {o : Token} (hover : turn.Over) (ht : t.kind = .comma) :
    next ⟨turn, ⟨true, o⟩ :: around⟩ t = some ⟨.operand, ⟨true, o⟩ :: around⟩ := by
  rw [next_over hover (by simp [ht])]
  simp [goOn, ht]

theorem walk_of_next (h : f.next t = some g) (ts : List Token) : f.walk (t :: ts) = g.walk ts := by
  rw [walk_cons, h, Option.bind_some]

theorem walk_single (h : f.next t = some g) : f.walk [t] = some g := by
  rw [walk_of_next h, walk_nil]

theorem walk_of_walk (h : f.walk ts = some g) (us : List Token) : f.walk (ts ++ us) = g.walk us := by
  rw [walk_append, h, Option.bind_some]

/-- Before the first argument, a token that does not close the call is read as in any other. -/
theorem next_arguments (ht : t.kind ≠ .closing) :
    next ⟨.arguments, around⟩ t = next ⟨.operand, around⟩ t := by
  cases hk : t.kind <;> simp_all [next]

theorem walk_arguments (ht : t.kind ≠ .closing) (ts : List Token) :
    walk ⟨.arguments, around⟩ (t :: ts) = walk ⟨.operand, around⟩ (t :: ts) := by
  rw [walk_cons, walk_cons, next_arguments ht]

/-- A call may close without any argument. -/
theorem walk_arguments_closing (ht : t.kind = .closing) :
    walk ⟨.arguments, e :: around⟩ [t] = some ⟨.complete, around⟩ := by
  simp [walk_cons, walk_nil, next, ht, close]

end Frontier

/-! ### Open parentheses -/

/-- The parentheses that stand open behind one token more, the innermost first. -/
def bracket (inner : List Token) (t : Token) : List Token :=
  match t.kind with
  | .opening => t :: inner
  | .closing => inner.tail
  | _ => inner

/-- The opening parentheses that no token closes, the innermost first. -/
def unclosed (ts : List Token) : List Token :=
  ts.foldl bracket []

namespace Frontier

/-- The parentheses that stand open around a frontier. -/
def openings (f : Frontier) : List Token :=
  f.around.map (·.opening)

theorem openings_start (h : start around t = some g) :
    g.openings = bracket (around.map (·.opening)) t := by
  unfold start at h
  split at h <;> cases h <;> simp_all [openings, bracket]

theorem openings_close (h : close around = some g) (ht : t.kind = .closing) :
    g.openings = bracket (around.map (·.opening)) t := by
  cases around with
  | nil => cases h
  | cons e outer =>
      cases h
      simp [openings, bracket, ht]

theorem openings_goOn (h : goOn around t = some g) :
    g.openings = bracket (around.map (·.opening)) t := by
  unfold goOn at h
  split at h
  case h_5 hclosing => exact openings_close h hclosing
  case h_6 hcomma =>
    split at h <;> cases h
    simp [openings, bracket, hcomma]
  all_goals cases h
  all_goals simp_all [openings, bracket]

theorem openings_next (h : f.next t = some g) : g.openings = bracket f.openings t := by
  unfold next at h
  split at h
  case h_2 hclosing => exact openings_close h hclosing
  case h_4 hopening =>
    cases h
    simp [openings, bracket, hopening]
  all_goals first | exact openings_start h | exact openings_goOn h

/-- A walk keeps the open parentheses on record. -/
theorem openings_walk (h : f.walk ts = some g) : g.openings = ts.foldl bracket f.openings := by
  induction ts generalizing f with
  | nil =>
      obtain rfl : f = g := by simpa [walk_nil] using h
      rfl
  | cons t ts ih =>
      rw [walk_cons, Option.bind_eq_some_iff] at h
      obtain ⟨f', hnext, hwalk⟩ := h
      rw [List.foldl_cons, ← openings_next hnext, ih hwalk]

theorem unclosed_of_walk (h : first.walk ts = some f) : unclosed ts = f.openings :=
  (openings_walk h).symm

end Frontier

theorem mem_bracket {o : Token} {inner : List Token} (h : o ∈ ts.foldl bracket inner) :
    o ∈ inner ∨ o ∈ ts ∧ o.kind = .opening := by
  induction ts generalizing inner with
  | nil => exact .inl h
  | cons t ts ih =>
      rcases ih h with hinner | ⟨hts, ho⟩
      · unfold bracket at hinner
        split at hinner
        · rcases List.mem_cons.mp hinner with rfl | hinner
          · exact .inr ⟨List.mem_cons_self, ‹_›⟩
          · exact .inl hinner
        · exact .inl (List.mem_of_mem_tail hinner)
        · exact .inl hinner
      · exact .inr ⟨List.mem_cons_of_mem _ hts, ho⟩

/-- What stands open is an opening parenthesis among the tokens. -/
theorem mem_unclosed {o : Token} (h : o ∈ unclosed ts) : o ∈ ts ∧ o.kind = .opening :=
  (mem_bracket h).resolve_left List.not_mem_nil

end Scorecard
