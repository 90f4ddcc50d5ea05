/-
What a formula looks up.

The parser asks the registry for the names that stand in front of an opening parenthesis,
and for no others: a name elsewhere is a variable, whatever the registry holds.  The
evaluator asks it for the functions that the tree calls, which are the same names, and it
asks the bindings for the variables.

So two registries that agree on the called names read a text alike, to the places and the
words of an error, and two runs that agree on whatever a tree looks up have the same
outcome.  The parser runs under the two registries step by step, as it does under two limits.
What a procedure leaves behind is an end of its tokens, so what is called there was called
in them.
-/
import Scorecard.Proofs.Formula.Limits
import Scorecard.Proofs.Formula.Meaning

namespace Scorecard

variable {registry registry' : Registry} {ts us : List Token}

/-! ### Called names -/

namespace Token

/-- The name stands in front of an opening parenthesis. -/
def Calls (tokens : List Token) (name : String) : Prop :=
  ∃ f o, [f, o] <:+: tokens ∧ f.kind = .name ∧ o.kind = .opening ∧ f.text = name

theorem Calls.mono {name : String} (h : Calls ts name) (hts : ts <:+: us) : Calls us name := by
  obtain ⟨f, o, hinfix, hf, ho, hname⟩ := h
  exact ⟨f, o, hinfix.trans hts, hf, ho, hname⟩

@[simp] theorem not_calls_nil (name : String) : ¬ Calls [] name := by
  rintro ⟨f, o, hinfix, -⟩
  simpa using hinfix.length_le

@[simp] theorem calls_cons {t : Token} {name : String} : Calls (t :: ts) name ↔
    (t.kind = .name ∧ t.text = name ∧ ∃ o, ts.head? = some o ∧ o.kind = .opening) ∨ Calls ts name := by
  simp only [Calls, List.infix_cons_iff, List.cons_prefix_cons, List.singleton_prefix_iff_head?_eq_some]
  constructor
  · rintro ⟨f, o, ⟨rfl, hhead⟩ | hinfix, hf, ho, hname⟩
    · exact .inl ⟨hf, hname, o, hhead, ho⟩
    · exact .inr ⟨f, o, hinfix, hf, ho, hname⟩
  · rintro (⟨hf, hname, o, hhead, ho⟩ | ⟨f, o, hinfix, hf, ho, hname⟩)
    · exact ⟨t, o, .inl ⟨rfl, hhead⟩, hf, ho, hname⟩
    · exact ⟨f, o, .inr hinfix, hf, ho, hname⟩

/-- The tokens call each of the names. -/
def CallsAll (tokens : List Token) (names : List Value) : Prop :=
  ∀ name ∈ names, ∃ s, name = .str s ∧ Calls tokens s

namespace CallsAll

variable {names names' : List Value}

theorem nil (tokens : List Token) : CallsAll tokens [] :=
  fun _ hname => absurd hname List.not_mem_nil

theorem mono (h : CallsAll ts names) (hts : ts <:+: us) : CallsAll us names := by
  intro name hname
  obtain ⟨s, hs, hcalls⟩ := h name hname
  exact ⟨s, hs, hcalls.mono hts⟩

theorem append (h : CallsAll ts names) (h' : CallsAll ts names') : CallsAll ts (names ++ names') :=
  List.forall_mem_append.mpr ⟨h, h'⟩

end CallsAll

end Token

open Token

mutual

/-- A derived tree calls what its tokens call. -/
theorem Derives.callsAll {p : Phrase} {ts : List Token} {e : Expr} {n : Nat} :
    Derives p ts e n → CallsAll ts e.callOccurrences
  | .number _ => .nil _
  | .variable _ => .nil _
  | .group _ inner _ => inner.callsAll.mono ⟨[_], [_], rfl⟩
  | .call hf ho given _ => by
      rw [Expr.callOccurrences]
      refine List.forall_mem_cons.mpr ⟨⟨_, rfl, _, _, ⟨[], _, rfl⟩, hf, ho, rfl⟩, ?_⟩
      exact given.callsAll.mono ⟨[_, _], [_], rfl⟩
  | .negate _ inner => by
      rw [Expr.callOccurrences]
      exact inner.callsAll.mono (List.suffix_cons _ _).isInfix
  | .binary left _ right => by
      rw [Expr.callOccurrences]
      exact (left.callsAll.mono (List.prefix_append _ _).isInfix).append
        (right.callsAll.mono ((List.suffix_cons _ _).trans (List.suffix_append _ _)).isInfix)
  | .primary h => h.callsAll
  | .factor h => h.callsAll
  | .product h => h.callsAll

theorem DerivesArguments.callsAll {ts : List Token} {es : List Expr} {n : Nat} :
    DerivesArguments ts es n → CallsAll ts (Expr.allCallOccurrences es)
  | .none => .nil _
  | .some h => h.callsAll

theorem DerivesList.callsAll {ts : List Token} {es : List Expr} {n : Nat} :
    DerivesList ts es n → CallsAll ts (Expr.allCallOccurrences es)
  | .one h => by
      rw [Expr.allCallOccurrences, Expr.allCallOccurrences, List.append_nil]
      exact h.callsAll
  | .more h _ others => by
      rw [Expr.allCallOccurrences]
      exact (h.callsAll.mono (List.prefix_append _ _).isInfix).append
        (others.callsAll.mono ((List.suffix_cons _ _).trans (List.suffix_append _ _)).isInfix)

end

/-! ### Registries that agree -/

/-- The registries have the same functions for the names that the tokens call. -/
def Registry.AgreeOn (registry registry' : Registry) (tokens : List Token) : Prop :=
  ∀ name, Calls tokens name → registry.find? name = registry'.find? name

theorem Registry.AgreeOn.mono (h : registry.AgreeOn registry' us) (hts : ts <:+: us) :
    registry.AgreeOn registry' ts :=
  fun name hname => h name (hname.mono hts)

/-- They have the same functions for the names that a tree calls. -/
theorem Registry.AgreeOn.findNamed {names : List Value} (h : registry.AgreeOn registry' ts)
    (hnames : CallsAll ts names) :
    ∀ name ∈ names, registry.findNamed? name = registry'.findNamed? name := by
  intro name hname
  obtain ⟨s, rfl, hcalls⟩ := hnames name hname
  exact h s hcalls

/-! ### Reading under two registries -/

namespace Parser

variable {α β : Type} {ctx : Context}

/-- The outcomes are the same, and what is left behind is an end of the tokens. -/
structure Alike (tokens : List Token) (x y : Except ParseError (Reading α)) : Prop where
  same : x = y
  leaves : ∀ r, x = .ok r → r.rest <:+ tokens

namespace Alike

variable {x y : Except ParseError (Reading α)}

theorem of_error (e : ParseError) : Alike ts (.error e : Except ParseError (Reading α)) (.error e) :=
  ⟨rfl, nofun⟩

theorem of_ok {r : Reading α} (h : r.rest <:+ ts) : Alike ts (.ok r) (.ok r) :=
  ⟨rfl, fun _ hr => Except.ok.inj hr ▸ h⟩

theorem mono (h : Alike ts x y) (hts : ts <:+ us) : Alike us x y :=
  ⟨h.same, fun r hr => (h.leaves r hr).trans hts⟩

theorem bind {f g : Reading α → Except ParseError (Reading β)} (h : Alike ts x y)
    (hfg : ∀ r, x = .ok r → r.rest <:+ ts → Alike us (f r) (g r)) : Alike us (x >>= f) (y >>= g) := by
  obtain ⟨rfl, hleaves⟩ := h
  cases x with
  | error e => exact of_error e
  | ok r => exact hfg r rfl (hleaves r rfl)

theorem check {c : Prop} [Decidable c] {e : ParseError} (h : Alike ts x y) :
    Alike ts (if c then .error e else x) (if c then .error e else y) := by
  split
  · exact of_error e
  · exact h

end Alike

/-- The same parser with another registry. -/
def Context.asking (ctx : Context) (registry : Registry) : Context :=
  { ctx with registry }

/-- Every procedure reads alike under two registries that agree on what its tokens call. -/
def asking (ctx : Context) (registry : Registry) : Judgment where
  phrase p tokens := ctx.registry.AgreeOn registry tokens → ∀ level,
    Alike tokens (read ctx level p tokens) (read (ctx.asking registry) level p tokens)
  rest p tokens := ctx.registry.AgreeOn registry tokens → ∀ level left depth,
    Alike tokens (readRest ctx level p left depth tokens)
      (readRest (ctx.asking registry) level p left depth tokens)
  list tokens := ctx.registry.AgreeOn registry tokens → ∀ level o,
    Alike tokens (readList ctx level o tokens) (readList (ctx.asking registry) level o tokens)

theorem alike_arguments (level : Nat) (o : Token) (h : (asking ctx registry).Holds ts)
    (hagree : ctx.registry.AgreeOn registry ts) :
    Alike ts (readArguments ctx level o ts) (readArguments (ctx.asking registry) level o ts) := by
  rcases starts_or_not .closing ts with ⟨c, behind, rfl, hc⟩ | hts
  · rw [readArguments_closing _ _ hc, readArguments_closing _ _ hc]
    exact .of_ok (List.suffix_cons _ _)
  · rw [readArguments_of_not_closing _ _ hts, readArguments_of_not_closing _ _ hts]
    exact h.list hagree level o

theorem alike_closeGroup (o : Token) {r : Reading Expr} (h : r.rest <:+ ts) :
    Alike ts (closeGroup o r) (closeGroup o r) := by
  unfold closeGroup
  split
  · rename_i hrest
    rw [hrest] at h
    exact .of_ok ((List.suffix_cons _ _).trans h)
  · exact .of_error _

theorem alike_more (level : Nat) (o : Token) {r : Reading Expr} (hleaves : r.rest <:+ ts)
    (ih : ∀ us, us.length < r.rest.length → (asking ctx registry).Holds us)
    (hagree : ctx.registry.AgreeOn registry ts) :
    Alike ts (readMore ctx level o r) (readMore (ctx.asking registry) level o r) := by
  unfold readMore
  split
  · exact .of_error _
  · rename_i t rest hrest
    rw [hrest] at hleaves ih
    have hbehind : rest <:+ ts := (List.suffix_cons t rest).trans hleaves
    split
    · have hothers := (ih rest (by simp)).list (hagree.mono hbehind.isInfix) level o
      exact .bind hothers fun more _ hmore => .of_ok (hmore.trans hbehind)
    · exact .of_ok hbehind
    · exact .of_error _

theorem asking_steps (ctx : Context) (registry : Registry) : (asking ctx registry).Steps where
  nothing _ level := .of_error _
  number ht _ level := by
    rw [read_number _ _ ht, read_number _ _ ht]
    exact .of_ok (List.suffix_cons _ _)
  group {t ts} ht ih hagree level := by
    rw [read_group_bind _ _ ht, read_group_bind _ _ ht]
    have htail : ts <:+ t :: ts := List.suffix_cons _ _
    have hinner := ih.tail.phrase .sum (hagree.mono htail.isInfix) (level + 1)
    exact .check (.bind hinner fun r _ hr => alike_closeGroup t (hr.trans htail))
  name ht hts _ level := by
    rw [read_variable _ _ ht hts, read_variable _ _ ht hts]
    exact .of_ok (List.suffix_cons _ _)
  call {t o ts} ht ho ih hagree level := by
    have hsame : ctx.registry.find? t.text = registry.find? t.text :=
      hagree t.text ⟨t, o, ⟨[], ts, rfl⟩, ht, ho, rfl⟩
    have hts : ts <:+ t :: o :: ts := ⟨[t, o], rfl⟩
    cases hf : ctx.registry.find? t.text with
    | none =>
        rw [read_unknown _ _ ht ho hf, read_unknown (ctx.asking registry) _ ht ho (hsame ▸ hf)]
        exact .of_error _
    | some function =>
        rw [read_call_bind _ _ ht ho hf, read_call_bind (ctx.asking registry) _ ht ho (hsame ▸ hf)]
        have hbelow : (asking ctx registry).Holds ts := ih ts (by simp only [List.length_cons]; omega)
        have hgiven := alike_arguments (level + 1) o hbelow (hagree.mono hts.isInfix)
        refine .check (.bind hgiven fun given _ hrest => .check (.check (.of_ok ?_)))
        exact hrest.trans hts
  unexpected hn ho hf _ level := by
    rw [read_primary_unexpected _ _ hn ho hf, read_primary_unexpected _ _ hn ho hf]
    exact .of_error _
  sign {t ts} ht ih hagree level := by
    rw [read_minus_bind _ _ ht, read_minus_bind _ _ ht]
    have htail : ts <:+ t :: ts := List.suffix_cons _ _
    have hoperand := ih.tail.phrase .factor (hagree.mono htail.isInfix) (level + 1)
    exact .check (.bind hoperand fun r _ hr => .check (.of_ok (hr.trans htail)))
  factor hsign h hagree level := by
    rw [read_factor_of_head _ _ hsign, read_factor_of_head _ _ hsign]
    exact h hagree level
  operators op tokens ih h hagree level := by
    rw [read_operators_bind, read_operators_bind]
    refine .bind (h hagree level) fun r hread hr => ?_
    have hrest := (ih r.rest (length_rest_lt hread)).rest op.phrase (hagree.mono hr.isInfix) level
    exact (hrest r.found r.depth).mono hr
  done hts _ level left depth := by
    rw [readRest_of_head _ _ hts, readRest_of_head _ _ hts]
    exact .of_ok List.suffix_rfl
  grow {op t ts} ht ih hagree level left depth := by
    rw [readRest_bind _ _ ht, readRest_bind _ _ ht]
    have htail : ts <:+ t :: ts := List.suffix_cons _ _
    have hoperand := ih.tail.phrase op.operand (hagree.mono htail.isInfix) level
    refine .bind hoperand fun r hread hr => .check ?_
    have hshorter := length_rest_lt hread
    have hbelow := ih r.rest (by simp only [List.length_cons]; omega)
    have hrest := hbelow.rest op.phrase (hagree.mono (hr.trans htail).isInfix) level
    exact (hrest _ _).mono (hr.trans htail)
  list {tokens} ih h hagree level o := by
    rw [readList_bind, readList_bind]
    refine .bind (h hagree level) fun first hread hfirst => ?_
    have hshorter := length_rest_lt hread
    exact alike_more level o hfirst (fun us hus => ih us (hus.trans hshorter)) hagree

theorem tree_congr (hagree : ctx.registry.AgreeOn registry ts) :
    tree ctx ts = tree (ctx.asking registry) ts := by
  have hsum := ((asking_steps ctx registry).holds ts).phrase .sum hagree 0
  rw [tree_bind, tree_bind, hsum.same]

end Parser

/-! ### Formulas -/

theorem TokenList.parse_congr {list : TokenList} (hagree : registry.AgreeOn registry' list.tokens)
    (limits : Limits) : list.parse registry limits = list.parse registry' limits := by
  unfold TokenList.parse
  rw [@Parser.tree_congr registry' list.tokens ⟨registry, limits.maxDepth, list.stop⟩ hagree]
  rfl

namespace Expr

/-- **Reading a text depends only on the functions that it calls.** -/
theorem parse_congr {text : String}
    (hagree : ∀ list, TokenList.ofText text = .ok list → registry.AgreeOn registry' list.tokens)
    (limits : Limits) : parse registry limits text = parse registry' limits text := by
  unfold parse
  split
  · rfl
  · rename_i list hlist
    exact TokenList.parse_congr (hagree list hlist) limits

variable {bindings bindings' : Bindings}

theorem evaluateVariable_congr {name : Value}
    (h : Value.lookup? bindings name = Value.lookup? bindings' name) (position : Option Nat) :
    evaluateVariable bindings name position = evaluateVariable bindings' name position := by
  unfold evaluateVariable
  rw [h]

mutual

/-- **Evaluating a tree depends only on the functions that it calls and on the values of its
variables.** -/
theorem evaluate_congr : (e : Expr) →
    (∀ name ∈ e.callOccurrences, registry.findNamed? name = registry'.findNamed? name) →
    (∀ name ∈ e.variableOccurrences, Value.lookup? bindings name = Value.lookup? bindings' name) →
    evaluate registry bindings e = evaluate registry' bindings' e
  | .missing, _, _ => rfl
  | .number _ _, _, _ => rfl
  | .variable name position, _, hvariables =>
      evaluateVariable_congr (hvariables name (by simp [variableOccurrences])) position
  | .negate operand _, hcalls, hvariables => by
      rw [evaluate_negate, evaluate_negate, evaluate_congr operand hcalls hvariables]
  | .binary _ left right _, hcalls, hvariables => by
      rw [callOccurrences, List.forall_mem_append] at hcalls
      rw [variableOccurrences, List.forall_mem_append] at hvariables
      rw [evaluate_binary, evaluate_binary, evaluate_congr left hcalls.1 hvariables.1,
        evaluate_congr right hcalls.2 hvariables.2]
  | .call name arguments _, hcalls, hvariables => by
      rw [callOccurrences, List.forall_mem_cons] at hcalls
      rw [evaluate_call, evaluate_call, hcalls.1, evaluateAll_congr arguments hcalls.2 hvariables]

theorem evaluateAll_congr : (es : List Expr) →
    (∀ name ∈ allCallOccurrences es, registry.findNamed? name = registry'.findNamed? name) →
    (∀ name ∈ allVariableOccurrences es, Value.lookup? bindings name = Value.lookup? bindings' name) →
    evaluateAll registry bindings es = evaluateAll registry' bindings' es
  | [], _, _ => rfl
  | e :: es, hcalls, hvariables => by
      rw [allCallOccurrences, List.forall_mem_append] at hcalls
      rw [allVariableOccurrences, List.forall_mem_append] at hvariables
      rw [evaluateAll_cons, evaluateAll_cons, evaluate_congr e hcalls.1 hvariables.1,
        evaluateAll_congr es hcalls.2 hvariables.2]

end

end Expr

end Scorecard
