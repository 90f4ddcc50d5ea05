/-
The tokens that a formula can begin with.

The walk along the frontiers tells exactly the beginnings of formulas.  In one direction
every derivation is a walk.  In the other, each frontier says what the tokens so far can
still become: behind an open parenthesis, a formula for whatever factor is put in its
place.  Precedence is no matter there, because an operator and a factor extend a formula
to the right however tight the operator binds.
-/
import Scorecard.Proofs.Formula.Completeness
import Scorecard.Proofs.Formula.Frontier

namespace Scorecard

/-! ### Formulas and their beginnings -/

/-- The tokens derive from the phrase. -/
def Phrase.Covers (p : Phrase) (ts : List Token) : Prop :=
  ∃ e n, Derives p ts e n

/-- The tokens are a formula, whatever it may call. -/
def IsFormula (ts : List Token) : Prop :=
  Phrase.sum.Covers ts

/-- Some formula begins with the tokens. -/
def IsStart (ts : List Token) : Prop :=
  ∃ more, IsFormula (ts ++ more)

/-- The tokens are a list of arguments, at least one. -/
def IsList (ts : List Token) : Prop :=
  ∃ es n, DerivesList ts es n

variable {ts us : List Token} {t : Token}

namespace Phrase.Covers

theorem negate (ht : t.kind = .minus) (h : Phrase.factor.Covers ts) :
    Phrase.factor.Covers (t :: ts) := by
  obtain ⟨e, n, h⟩ := h
  exact ⟨_, _, .negate ht h⟩

theorem product (h : Phrase.factor.Covers ts) : Phrase.product.Covers ts := by
  obtain ⟨e, n, h⟩ := h
  exact ⟨e, n, .factor h⟩

theorem isFormula (h : Phrase.product.Covers ts) : IsFormula ts := by
  obtain ⟨e, n, h⟩ := h
  exact ⟨e, n, .product h⟩

theorem binary {op : BinaryOp} {p q : Phrase} (hp : op.phrase = p) (hq : op.operand = q)
    (h : p.Covers ts) (ht : t.kind = op.kind) (hus : q.Covers us) : p.Covers (ts ++ t :: us) := by
  subst hp hq
  obtain ⟨a, m, ha⟩ := h
  obtain ⟨b, n, hb⟩ := hus
  exact ⟨_, _, .binary ha ht hb⟩

end Phrase.Covers

/-- A formula ends in a product, in whose place another may stand. -/
theorem Derives.lastProduct {p : Phrase} {e : Expr} {n : Nat} (h : Derives p ts e n) (hp : p = .sum) :
    ∃ front last, ts = front ++ last ∧ Phrase.product.Covers last ∧
      ∀ other, Phrase.product.Covers other → IsFormula (front ++ other) := by
  cases h with
  | product h => exact ⟨[], ts, rfl, ⟨_, _, h⟩, fun _ hother => hother.isFormula⟩
  | @binary op t front last _ _ _ _ left ht right =>
      have hlast : op.operand = .product := by cases op <;> first | rfl | cases hp
      refine ⟨front ++ [t], last, by simp, hlast ▸ ⟨_, _, right⟩, fun other hother => ?_⟩
      rw [List.append_assoc, List.singleton_append]
      exact .binary hp hlast (hp ▸ ⟨_, _, left⟩) ht hother
  | _ => cases hp

/-- An operator and a factor extend a formula, however tight the operator binds. -/
theorem IsFormula.extend {op : BinaryOp} (h : IsFormula ts) (ht : t.kind = op.kind)
    (hus : Phrase.factor.Covers us) : IsFormula (ts ++ t :: us) := by
  cases op
  case add | subtract => exact .binary rfl rfl h ht hus.product
  case multiply | divide =>
    obtain ⟨e, n, h⟩ := h
    obtain ⟨front, last, rfl, hlast, hother⟩ := h.lastProduct rfl
    rw [List.append_assoc]
    exact hother _ (.binary rfl rfl hlast ht hus)

/-- Arguments end in a sum, in whose place others may stand. -/
theorem DerivesList.lastArgument {es : List Expr} {n : Nat} (h : DerivesList ts es n) :
    ∃ front last, ts = front ++ last ∧ IsFormula last ∧
      ∀ others, IsList others → IsList (front ++ others) := by
  induction es generalizing ts n with
  | nil => cases h
  | cons e es ih =>
      cases h with
      | one h => exact ⟨[], ts, rfl, ⟨_, _, h⟩, fun _ hothers => hothers⟩
      | @more c first rest _ _ _ _ h hc others =>
          obtain ⟨front, last, rfl, hlast, hlist⟩ := ih others
          refine ⟨first ++ c :: front, last, by simp, hlast, fun other hother => ?_⟩
          obtain ⟨fs, k, hmore⟩ := hlist other hother
          rw [List.append_assoc, List.cons_append]
          exact ⟨_, _, .more h hc hmore⟩

/-- An operator and a factor extend the last argument. -/
theorem IsList.extend {op : BinaryOp} (h : IsList ts) (ht : t.kind = op.kind)
    (hus : Phrase.factor.Covers us) : IsList (ts ++ t :: us) := by
  obtain ⟨es, n, h⟩ := h
  obtain ⟨front, last, rfl, hlast, hlist⟩ := h.lastArgument
  obtain ⟨e, m, hextended⟩ := hlast.extend ht hus
  rw [List.append_assoc]
  exact hlist _ ⟨_, _, .one hextended⟩

/-- A comma and a formula are one argument more. -/
theorem IsList.another (h : IsList ts) (ht : t.kind = .comma) (hus : IsFormula us) :
    IsList (ts ++ t :: us) := by
  obtain ⟨es, n, h⟩ := h
  obtain ⟨front, last, rfl, ⟨e, m, hlast⟩, hlist⟩ := h.lastArgument
  obtain ⟨f, k, hus⟩ := hus
  rw [List.append_assoc]
  exact hlist _ ⟨_, _, .more hlast ht (.one hus)⟩

/-! ### What a frontier says -/

/-- The tokens from the one that opens the parenthesis, or the call, on: what stands inside
is complete so far. -/
inductive Enclosure.Holds : Enclosure → List Token → Prop where
  | group {o : Token} {ts : List Token} (ho : o.kind = .opening) (inner : IsFormula ts) :
      Holds ⟨false, o⟩ (o :: ts)
  | call {f o : Token} {ts : List Token} (hf : f.kind = .name) (ho : o.kind = .opening)
      (given : IsList ts) : Holds ⟨true, o⟩ (f :: o :: ts)

/-- The tokens could end here, once every parenthesis around them is closed. -/
def Completes : List Enclosure → List Token → Prop
  | [], ts => IsFormula ts
  | e :: outer, ts =>
    ∃ front held, ts = front ++ held ∧ e.Holds held ∧
      ∀ us, Phrase.factor.Covers us → Completes outer (front ++ us)

/-- They could do so behind any factor. -/
def Wants (around : List Enclosure) (ts : List Token) : Prop :=
  ∀ us, Phrase.factor.Covers us → Completes around (ts ++ us)

/-- What the frontier says of the tokens before it. -/
def Frontier.Stands : Frontier → List Token → Prop
  | ⟨.operand, around⟩, ts => Wants around ts
  | ⟨.arguments, around⟩, ts =>
    ∃ front f o outer, ts = front ++ [f, o] ∧ f.kind = .name ∧ o.kind = .opening ∧
      around = ⟨true, o⟩ :: outer ∧ Wants outer front
  | ⟨.name, around⟩, ts => ∃ front f, ts = front ++ [f] ∧ f.kind = .name ∧ Wants around front
  | ⟨.complete, around⟩, ts => Completes around ts

variable {e : Enclosure} {around : List Enclosure} {f g : Frontier} {turn : Turn}

theorem Phrase.Covers.number {x : Float} (ht : t.kind = .number x) : Phrase.factor.Covers [t] :=
  ⟨_, _, .primary (.number ht)⟩

theorem Phrase.Covers.name (ht : t.kind = .name) : Phrase.factor.Covers [t] :=
  ⟨_, _, .primary (.variable ht)⟩

/-- A parenthesis that closes makes a factor of what it holds. -/
theorem Enclosure.Holds.closed {c : Token} (h : e.Holds ts) (hc : c.kind = .closing) :
    Phrase.factor.Covers (ts ++ [c]) := by
  cases h with
  | group ho inner =>
      obtain ⟨e, n, inner⟩ := inner
      exact ⟨_, _, .primary (.group ho inner hc)⟩
  | call hf ho given =>
      obtain ⟨es, n, given⟩ := given
      exact ⟨_, _, .primary (.call hf ho (.some given) hc)⟩

theorem Enclosure.Holds.extend {op : BinaryOp} (h : e.Holds ts) (ht : t.kind = op.kind)
    (hus : Phrase.factor.Covers us) : e.Holds (ts ++ t :: us) := by
  cases h with
  | group ho inner => exact .group ho (inner.extend ht hus)
  | call hf ho given => exact .call hf ho (given.extend ht hus)

theorem Completes.extend (op : BinaryOp) (h : Completes around ts) (ht : t.kind = op.kind) :
    Wants around (ts ++ [t]) := by
  intro us hus
  rw [List.append_assoc, List.singleton_append]
  cases around with
  | nil => exact IsFormula.extend h ht hus
  | cons e outer =>
      obtain ⟨front, held, rfl, hheld, houter⟩ := h
      exact ⟨front, held ++ t :: us, by simp, hheld.extend ht hus, houter⟩

/-- Behind a comma another argument is due. -/
theorem Completes.another {o : Token} (h : Completes (⟨true, o⟩ :: around) ts)
    (ht : t.kind = .comma) : Wants (⟨true, o⟩ :: around) (ts ++ [t]) := by
  intro us hus
  obtain ⟨front, held, rfl, hheld, houter⟩ := h
  cases hheld with
  | @call f _ given hf ho hgiven =>
      exact ⟨front, f :: o :: (given ++ t :: us), by simp,
        .call hf ho (hgiven.another ht hus.product.isFormula), houter⟩

theorem Completes.closed {c : Token} (h : Completes (e :: around) ts) (hc : c.kind = .closing) :
    Completes around (ts ++ [c]) := by
  obtain ⟨front, held, rfl, hheld, houter⟩ := h
  rw [List.append_assoc]
  exact houter _ (hheld.closed hc)

/-- Behind a sign a factor is due as before. -/
theorem Wants.negate (h : Wants around ts) (ht : t.kind = .minus) : Wants around (ts ++ [t]) := by
  intro us hus
  rw [List.append_assoc, List.singleton_append]
  exact h _ (hus.negate ht)

theorem Wants.group {o : Token} (h : Wants around ts) (ho : o.kind = .opening) :
    Wants (⟨false, o⟩ :: around) (ts ++ [o]) :=
  fun us hus => ⟨ts, o :: us, by simp, .group ho hus.product.isFormula, h⟩

theorem Wants.call {n o : Token} (h : Wants around ts) (hn : n.kind = .name) (ho : o.kind = .opening) :
    Wants (⟨true, o⟩ :: around) (ts ++ [n, o]) := by
  intro us hus
  obtain ⟨a, k, hus⟩ := hus.product.isFormula
  exact ⟨ts, n :: o :: us, by simp, .call hn ho ⟨_, _, .one hus⟩, h⟩

namespace Frontier

/-! ### One token more -/

theorem stands_start (h : Wants around ts) (hstart : start around t = some g) :
    g.Stands (ts ++ [t]) := by
  unfold start at hstart
  split at hstart
  · cases hstart
    exact h _ (.number ‹_›)
  · cases hstart
    exact ⟨ts, t, rfl, ‹_›, h⟩
  · cases hstart
    exact h.group ‹_›
  · cases hstart
    exact h.negate ‹_›
  · cases hstart

theorem stands_close (h : Completes around ts) (ht : t.kind = .closing)
    (hclose : close around = some g) : g.Stands (ts ++ [t]) := by
  cases around with
  | nil => cases hclose
  | cons e outer =>
      cases hclose
      exact h.closed ht

theorem stands_goOn (h : Completes around ts) (hgo : goOn around t = some g) :
    g.Stands (ts ++ [t]) := by
  unfold goOn at hgo
  split at hgo
  · cases hgo; exact h.extend .add ‹_›
  · cases hgo; exact h.extend .subtract ‹_›
  · cases hgo; exact h.extend .multiply ‹_›
  · cases hgo; exact h.extend .divide ‹_›
  · exact stands_close h ‹_› hgo
  · split at hgo
    · cases hgo
      rename_i ht hcall
      rcases around with _ | ⟨⟨call, opening⟩, outer⟩
      · cases hcall
      · obtain rfl : call = true := by simpa using hcall
        exact h.another ht
    · cases hgo
  · cases hgo

/-- A token that may come next leaves a frontier that stands. -/
theorem stands_next (h : f.Stands ts) (hnext : f.next t = some g) : g.Stands (ts ++ [t]) := by
  obtain ⟨turn, around⟩ := f
  unfold next at hnext
  cases turn with
  | operand => exact stands_start h hnext
  | arguments =>
      obtain ⟨front, n, o, outer, rfl, hn, ho, rfl, houter⟩ := h
      split at hnext
      · cases ‹Turn.arguments = _›
      · rename_i hc
        cases hnext
        rw [List.append_assoc]
        have hcall := Derives.call hn ho .none hc
        exact houter _ ⟨_, _, .primary hcall⟩
      · exact stands_start (houter.call hn ho) hnext
      all_goals cases ‹Turn.arguments = _›
  | name =>
      obtain ⟨front, n, rfl, hn, houter⟩ := h
      split at hnext
      · cases ‹Turn.name = _›
      · cases ‹Turn.name = _›
      · cases ‹Turn.name = _›
      · cases hnext
        exact ⟨front, n, t, around, by simp, hn, ‹_›, rfl, houter⟩
      · exact stands_goOn (houter _ (.name hn)) hnext
      · cases ‹Turn.name = _›
  | complete => exact stands_goOn h hnext

/-- **Whatever a walk reads, its frontier says of the tokens so far.** -/
theorem stands_walk (h : f.Stands ts) (hwalk : f.walk us = some g) : g.Stands (ts ++ us) := by
  induction us generalizing f ts with
  | nil =>
      obtain rfl : f = g := by simpa [walk_nil] using hwalk
      simpa using h
  | cons t us ih =>
      rw [walk_cons, Option.bind_eq_some_iff] at hwalk
      obtain ⟨f', hnext, hwalk⟩ := hwalk
      simpa using ih (stands_next h hnext) hwalk

theorem stands_first : first.Stands [] :=
  fun _ hus => hus.product.isFormula

/-! ### Ends that make a formula -/

theorem isStart_of_completes (h : Completes around ts) : IsStart ts := by
  induction around generalizing ts with
  | nil =>
      have hformula : IsFormula ts := h
      exact ⟨[], by simpa using hformula⟩
  | cons e outer ih =>
      obtain ⟨more, hmore⟩ := ih (h.closed (c := ⟨.closing, ")", 0⟩) rfl)
      exact ⟨_, by simpa using hmore⟩

theorem isStart_of_wants (h : Wants around ts) : IsStart ts := by
  have hnumber : Phrase.factor.Covers [⟨.number 0, "0", 0⟩] := .number rfl
  obtain ⟨more, hmore⟩ := isStart_of_completes (h _ hnumber)
  exact ⟨_, by simpa using hmore⟩

theorem Stands.isStart (h : f.Stands ts) : IsStart ts := by
  obtain ⟨turn, around⟩ := f
  cases turn with
  | operand => exact isStart_of_wants h
  | arguments =>
      obtain ⟨front, n, o, outer, rfl, hn, ho, rfl, houter⟩ := h
      exact isStart_of_wants (houter.call hn ho)
  | name =>
      obtain ⟨front, n, rfl, hn, houter⟩ := h
      exact isStart_of_completes (houter _ (.name hn))
  | complete => exact isStart_of_completes h

theorem Stands.isFormula (h : f.Stands ts) (hover : f.turn.Over) (haround : f.around = []) :
    IsFormula ts := by
  obtain ⟨turn, around⟩ := f
  obtain rfl : around = [] := haround
  cases turn with
  | operand => exact hover.elim
  | arguments => exact hover.elim
  | name =>
      obtain ⟨front, n, rfl, hn, houter⟩ := h
      exact houter _ (.name hn)
  | complete => exact h

end Frontier

/-! ### Every derivation is a walk -/

namespace Frontier

/-- Where an operand is due the tokens end with an operand, and open or close nothing
around it. -/
def Passes (around : List Enclosure) (turn : Turn) (ts : List Token) : Prop :=
  turn.Over ∧ walk ⟨.operand, around⟩ ts = some ⟨turn, around⟩

theorem Passes.group {o c : Token} (ho : o.kind = .opening)
    (h : Passes (⟨false, o⟩ :: around) turn ts) (hc : c.kind = .closing) :
    Passes around .complete (o :: (ts ++ [c])) := by
  refine ⟨trivial, ?_⟩
  rw [walk_of_next (next_group ho), walk_of_walk h.2, walk_of_next (next_closing h.1 hc), walk_nil]

theorem Passes.call {n o : Token} (hn : n.kind = .name) (ho : o.kind = .opening)
    (h : walk ⟨.arguments, ⟨true, o⟩ :: around⟩ ts = some ⟨.complete, around⟩) :
    Passes around .complete (n :: o :: ts) := by
  refine ⟨trivial, ?_⟩
  rw [walk_of_next (next_name hn), walk_of_next (next_call ho), h]

theorem Passes.negate (ht : t.kind = .minus) (h : Passes around turn ts) :
    Passes around turn (t :: ts) := by
  refine ⟨h.1, ?_⟩
  rw [walk_of_next (next_minus ht), h.2]

theorem Passes.binary {turn' : Turn} {op : BinaryOp} (h : Passes around turn ts)
    (ht : t.kind = op.kind) (hus : Passes around turn' us) : Passes around turn' (ts ++ t :: us) := by
  refine ⟨hus.1, ?_⟩
  rw [walk_of_walk h.2, walk_of_next (next_operator h.1 ht), hus.2]

theorem Passes.comma {turn' : Turn} {o : Token} (h : Passes (⟨true, o⟩ :: around) turn ts)
    (ht : t.kind = .comma) (hus : Passes (⟨true, o⟩ :: around) turn' us) :
    Passes (⟨true, o⟩ :: around) turn' (ts ++ t :: us) := by
  refine ⟨hus.1, ?_⟩
  rw [walk_of_walk h.2, walk_of_next (next_comma h.1 ht), hus.2]

end Frontier

open Frontier

mutual

theorem Derives.passes {p : Phrase} {ts : List Token} {a : Expr} {n : Nat} :
    Derives p ts a n → ∀ around, ∃ turn, Passes around turn ts
  | .number ht, around => ⟨.complete, trivial, walk_single (next_number ht)⟩
  | .variable ht, around => ⟨.name, trivial, walk_single (next_name ht)⟩
  | .group (o := o) ho inner hc, around => by
      obtain ⟨turn, hinner⟩ := inner.passes (⟨false, o⟩ :: around)
      exact ⟨_, hinner.group ho hc⟩
  | .call (o := o) hf ho given hc, around => ⟨_, .call hf ho (given.walks hc o around)⟩
  | .negate ht inner, around => by
      obtain ⟨turn, hinner⟩ := inner.passes around
      exact ⟨turn, hinner.negate ht⟩
  | .binary left ht right, around => by
      obtain ⟨_, hleft⟩ := left.passes around
      obtain ⟨turn, hright⟩ := right.passes around
      exact ⟨turn, hleft.binary ht hright⟩
  | .primary h, around => h.passes around
  | .factor h, around => h.passes around
  | .product h, around => h.passes around

theorem DerivesArguments.walks {ts : List Token} {es : List Expr} {n : Nat} {c : Token} :
    DerivesArguments ts es n → c.kind = .closing → ∀ o around,
      walk ⟨.arguments, ⟨true, o⟩ :: around⟩ (ts ++ [c]) = some ⟨.complete, around⟩
  | .none, hc, _, _ => walk_arguments_closing hc
  | .some h, hc, o, around => by
      obtain ⟨turn, hover, hwalk⟩ := h.passes o around
      obtain ⟨t, us, rfl, ht⟩ := h.starts
      rw [List.cons_append, walk_arguments ht, ← List.cons_append, walk_of_walk hwalk,
        walk_of_next (next_closing hover hc), walk_nil]

theorem DerivesList.passes {ts : List Token} {es : List Expr} {n : Nat} :
    DerivesList ts es n → ∀ o around, ∃ turn, Passes (⟨true, o⟩ :: around) turn ts
  | .one h, o, around => h.passes (⟨true, o⟩ :: around)
  | .more h hc others, o, around => by
      obtain ⟨_, hfirst⟩ := h.passes (⟨true, o⟩ :: around)
      obtain ⟨turn, hothers⟩ := others.passes o around
      exact ⟨turn, hfirst.comma hc hothers⟩

end

/-! ### Both directions -/

/-- **The walk ends behind a formula exactly if the tokens are one.** -/
theorem isFormula_iff : IsFormula ts ↔
    ∃ turn : Turn, turn.Over ∧ first.walk ts = some ⟨turn, []⟩ := by
  constructor
  · rintro ⟨a, n, h⟩
    exact h.passes []
  · rintro ⟨turn, hover, hwalk⟩
    have hstands := stands_walk stands_first hwalk
    exact hstands.isFormula hover rfl

/-- **The walk gets through the beginnings of formulas, and only those.** -/
theorem isStart_iff : IsStart ts ↔ ∃ f, first.walk ts = some f := by
  constructor
  · rintro ⟨more, h⟩
    obtain ⟨turn, -, hwalk⟩ := isFormula_iff.mp h
    rw [walk_append, Option.bind_eq_some_iff] at hwalk
    obtain ⟨f, hf, -⟩ := hwalk
    exact ⟨f, hf⟩
  · rintro ⟨f, hwalk⟩
    exact Stands.isStart (stands_walk stands_first hwalk)

/-- A formula leaves no parenthesis open. -/
theorem IsFormula.unclosed (h : IsFormula ts) : unclosed ts = [] := by
  obtain ⟨turn, -, hwalk⟩ := isFormula_iff.mp h
  exact unclosed_of_walk hwalk

end Scorecard
