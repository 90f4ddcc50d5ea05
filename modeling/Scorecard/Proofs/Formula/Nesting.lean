/-
What is nested too deeply is refused where it opens.

The check on nesting comes before anything behind the opening token is read.  So a formula that
nests too deeply is refused because of the tokens up to the one that goes too far, and whatever
stands behind them, the refusal is the same.

A procedure that succeeds has looked one token ahead at most.  With other tokens behind that one
it takes the same steps, and leaves the others behind.  `Decided` says both of two runs, one of
known tokens and one of any that start like them, and it is kept when steps follow one another:
what the first step leaves is where the second one looks for its cause.
-/
import Scorecard.Proofs.Formula.Spacing

namespace Scorecard

namespace Parser

variable {α β : Type} {ts us : List Token} {t o : Token}

/-! ### What is decided by the front -/

/-- The second run, of any tokens, comes to the same as the first one, of `tokens`, if they start
alike.  For a nesting that is too deep they have to agree up to the token that goes too far, and
for a success up to the first token that is left. -/
structure Decided (tokens : List Token) (x : Except ParseError (Reading α))
    (run : List Token → Except ParseError (Reading α)) : Prop where
  nested : ∀ limit place, x = .error (.nestedTooDeep limit place) →
    ∃ front t behind, tokens = front ++ t :: behind ∧ t.position = place ∧
      ∀ others, run (front ++ t :: others) = .error (.nestedTooDeep limit place)
  found : ∀ r, x = .ok r → ∃ front, tokens = front ++ r.rest ∧
    ∀ others, others.head? = r.rest.head? → run (front ++ others) = .ok ⟨r.found, r.depth, others⟩

namespace Decided

variable {x : Except ParseError (Reading α)} {run run' : List Token → Except ParseError (Reading α)}

/-- An error that is not about nesting decides nothing. -/
theorem of_error {e : ParseError} (h : ∀ limit place, e ≠ .nestedTooDeep limit place) :
    Decided ts (.error e) run :=
  ⟨fun limit place he => absurd (Except.error.inj he) (h limit place), nofun⟩

theorem of_ok {r : Reading α} (front : List Token) (hts : ts = front ++ r.rest)
    (h : ∀ others, others.head? = r.rest.head? →
      run (front ++ others) = .ok ⟨r.found, r.depth, others⟩) : Decided ts (.ok r) run :=
  ⟨nofun, fun _ hr => Except.ok.inj hr ▸ ⟨front, hts, h⟩⟩

/-- Behind a token the run may go on as another one. -/
theorem behind (h : Decided ts x run) (hrun : ∀ others, run' (t :: others) = run others) :
    Decided (t :: ts) x run' where
  nested limit place hx := by
    obtain ⟨front, u, rest, rfl, hplace, hothers⟩ := h.nested limit place hx
    exact ⟨t :: front, u, rest, rfl, hplace, fun others => (hrun _).trans (hothers others)⟩
  found r hx := by
    obtain ⟨front, rfl, hothers⟩ := h.found r hx
    exact ⟨t :: front, rfl, fun others hhead => (hrun _).trans (hothers others hhead)⟩

/-- One token may be looked at before the run begins. -/
theorem ahead (h : Decided ts x run) (hrun : ∀ us, us.head? = ts.head? → run' us = run us) :
    Decided ts x run' where
  nested limit place hx := by
    obtain ⟨front, t, rest, rfl, hplace, hothers⟩ := h.nested limit place hx
    refine ⟨front, t, rest, rfl, hplace, fun others => (hrun _ ?_).trans (hothers others)⟩
    cases front <;> rfl
  found r hx := by
    obtain ⟨front, rfl, hothers⟩ := h.found r hx
    refine ⟨front, rfl, fun others hhead => (hrun _ ?_).trans (hothers others hhead)⟩
    cases front with
    | nil => exact hhead
    | cons t front => rfl

/-- The next step looks at what the first one left. -/
theorem bind {k g : Reading α → Except ParseError (Reading β)} (h : Decided ts x run)
    (hk : ∀ r, x = .ok r → Decided r.rest (k r) fun us => g ⟨r.found, r.depth, us⟩) :
    Decided ts (x >>= k) fun us => run us >>= g := by
  cases x with
  | error e =>
      refine ⟨fun limit place hx => ?_, nofun⟩
      obtain ⟨front, t, rest, hts, hplace, hothers⟩ := h.nested limit place (congrArg _ (Except.error.inj hx))
      exact ⟨front, t, rest, hts, hplace, fun others => by rw [hothers]; rfl⟩
  | ok r =>
      obtain ⟨front, rfl, hrun⟩ := h.found r rfl
      have hnext := hk r rfl
      -- the first run leaves the front of the second one untouched, and one token more than it
      -- has to see
      have hstep : ∀ more others, (more ++ others).head? = r.rest.head? →
          (run (front ++ (more ++ others)) >>= g) = g ⟨r.found, r.depth, more ++ others⟩ := by
        intro more others hhead
        rw [hrun _ hhead]
        rfl
      refine ⟨fun limit place hx => ?_, fun s hx => ?_⟩
      · obtain ⟨more, t, rest, hrest, hplace, hothers⟩ := hnext.nested limit place hx
        refine ⟨front ++ more, t, rest, by rw [hrest, List.append_assoc], hplace, fun others => ?_⟩
        rw [List.append_assoc, hstep more _ (by rw [hrest]; cases more <;> rfl), hothers]
      · obtain ⟨more, hrest, hothers⟩ := hnext.found s hx
        refine ⟨front ++ more, by rw [hrest, List.append_assoc], fun others hhead => ?_⟩
        have hsame : (more ++ others).head? = r.rest.head? := by
          rw [hrest]
          cases more with
          | nil => exact hhead
          | cons u more => rfl
        rw [List.append_assoc, hstep more others hsame, hothers others hhead]

/-- A check that refuses both runs for something else. -/
theorem check {c : Prop} [Decidable c] {e : ParseError} (he : ∀ limit place, e ≠ .nestedTooDeep limit place)
    (h : Decided ts x run) :
    Decided ts (if c then .error e else x) fun us => if c then .error e else run us := by
  by_cases hc : c
  · rw [if_pos hc]
    exact of_error he
  · simp only [if_neg hc]
    exact h

/-- The check on nesting, at the last token that both runs have seen. -/
theorem level {c : Prop} [Decidable c] {limit : Int}
    (hrun : ∀ others, run' (t :: others) =
      if c then .error (.nestedTooDeep limit t.position) else run others)
    (h : Decided ts x run) :
    Decided (t :: ts) (if c then .error (.nestedTooDeep limit t.position) else x) run' := by
  by_cases hc : c
  · simp only [if_pos hc] at hrun ⊢
    refine ⟨fun l place he => ?_, nofun⟩
    cases he
    exact ⟨[], t, ts, rfl, rfl, hrun⟩
  · simp only [if_neg hc] at hrun ⊢
    exact h.behind hrun

end Decided

/-! ### One lemma for each construct -/

/-- The parser of a text that ends elsewhere. -/
def Context.endingAt (ctx : Context) (stop : Nat) : Context :=
  { ctx with stop }

/-- Every procedure is decided by the front of the tokens, wherever the text may end. -/
def deciding (ctx : Context) (stop : Nat) : Judgment where
  phrase p tokens := ∀ level, Decided tokens (read ctx level p tokens) (read (ctx.endingAt stop) level p)
  rest p tokens := ∀ level left depth, Decided tokens (readRest ctx level p left depth tokens)
    (readRest (ctx.endingAt stop) level p left depth)
  list tokens := ∀ level o, Decided tokens (readList ctx level o tokens)
    (readList (ctx.endingAt stop) level o)

variable {ctx : Context} {stop : Nat}

theorem decided_closeGroup (o : Token) (r : Reading Expr) :
    Decided r.rest (closeGroup o r) fun us => closeGroup o ⟨r.found, r.depth, us⟩ := by
  obtain ⟨found, depth, rest⟩ := r
  cases rest with
  | nil => exact .of_error nofun
  | cons t behind =>
      obtain ⟨kind, text, position⟩ := t
      cases kind with
      | closing => exact .of_ok [_] rfl fun others _ => rfl
      | _ => exact .of_error nofun

theorem decided_arguments (h : (deciding ctx stop).Holds ts) (level : Nat) (o : Token) :
    Decided ts (readArguments ctx level o ts) (readArguments (ctx.endingAt stop) level o) := by
  rcases starts_or_not .closing ts with ⟨c, behind, rfl, hc⟩ | hts
  · rw [readArguments_closing _ _ hc]
    exact .of_ok [c] rfl fun others _ => readArguments_closing _ _ hc o others
  · rw [readArguments_of_not_closing _ _ hts]
    refine (h.list level o).ahead fun us hhead => readArguments_of_not_closing _ _ ?_ o
    rwa [hhead]

theorem decided_more {r : Reading Expr} (ih : ∀ us, us.length < r.rest.length → (deciding ctx stop).Holds us)
    (level : Nat) (o : Token) : Decided r.rest (readMore ctx level o r)
      fun us => readMore (ctx.endingAt stop) level o ⟨r.found, r.depth, us⟩ := by
  obtain ⟨found, depth, rest⟩ := r
  cases rest with
  | nil => exact .of_error nofun
  | cons t behind =>
      obtain ⟨kind, text, position⟩ := t
      cases kind with
      | comma =>
          have hmore := (ih behind (by simp)).list level o
          exact .behind (hmore.bind (g := fun more => .ok ⟨found :: more.found, max depth more.depth, more.rest⟩)
            fun more _ => .of_ok [] rfl fun others _ => rfl) fun others => rfl
      | closing => exact .of_ok [_] rfl fun others _ => rfl
      | _ => exact .of_error nofun

theorem deciding_steps (ctx : Context) (stop : Nat) : (deciding ctx stop).Steps where
  nothing level := .of_error nofun
  number {t x ts} ht level := by
    rw [read_number _ _ ht]
    exact .of_ok [t] rfl fun others _ => read_number _ _ ht others
  group {t ts} ht ih level := by
    rw [read_group_bind _ _ ht]
    exact .level (fun others => read_group_bind _ _ ht others)
      (.bind (ih.tail.phrase .sum (level + 1)) fun r _ => decided_closeGroup t r)
  name {t ts} ht hts level := by
    rw [read_variable _ _ ht hts]
    refine .of_ok [t] rfl fun others hhead => ?_
    rw [← show others.head? = ts.head? from hhead] at hts
    exact read_variable _ _ ht hts
  call {t o ts} ht ho ih level := by
    cases hf : ctx.registry.find? t.text with
    | none =>
        rw [read_unknown _ _ ht ho hf]
        exact .of_error nofun
    | some function =>
        have hts : (deciding ctx stop).Holds ts := ih ts (by simp only [List.length_cons]; omega)
        rw [read_call_bind _ _ ht ho hf]
        refine .behind (.level (fun others => read_call_bind (ctx.endingAt stop) level ht ho hf others) ?_)
          fun others => rfl
        refine .bind (decided_arguments hts (level + 1) o) fun given _ => ?_
        exact .check nofun (.check nofun (.of_ok [] rfl fun others _ => rfl))
  unexpected {t ts} hn ho hf level := by
    rw [read_primary_unexpected _ _ hn ho hf]
    exact .of_error nofun
  sign {t ts} ht ih level := by
    rw [read_minus_bind _ _ ht]
    refine .level (fun others => read_minus_bind _ _ ht others) ?_
    refine .bind (ih.tail.phrase .factor (level + 1)) fun r _ => .check nofun ?_
    exact .of_ok [] rfl fun others _ => rfl
  factor {ts} hsign h level := by
    rw [read_factor_of_head _ _ hsign]
    refine (h level).ahead fun us hhead => read_factor_of_head _ _ ?_
    rwa [hhead]
  operators op tokens ih h level := by
    rw [read_operators_bind]
    have hbind := (h level).bind
      (g := fun r => readRest (ctx.endingAt stop) level op.phrase r.found r.depth r.rest) fun r hread =>
        (ih r.rest (length_rest_lt hread)).rest op.phrase level r.found r.depth
    exact hbind.ahead fun us _ => read_operators_bind _ _ op us
  done {p ts} hts level left depth := by
    rw [readRest_of_head _ _ hts]
    refine .of_ok [] rfl fun others hhead => ?_
    rw [← show others.head? = ts.head? from hhead] at hts
    exact readRest_of_head _ _ hts left depth
  grow {op t ts} ht ih level left depth := by
    rw [readRest_bind _ _ ht]
    refine .behind ?_ fun others => readRest_bind _ _ ht left depth others
    refine .bind (ih.tail.phrase op.operand level) fun r hread => .check nofun ?_
    have hshorter := length_rest_lt hread
    have hbelow := ih r.rest (by simp only [List.length_cons]; omega)
    exact hbelow.rest op.phrase level _ _
  list {ts} ih h level o := by
    rw [readList_bind]
    refine .ahead (.bind (h level) fun first hread => ?_) fun us _ => readList_bind _ _ o us
    have hshorter := length_rest_lt hread
    exact decided_more (fun us hus => ih us (hus.trans hshorter)) level o

theorem ne_nested_of_finish {r : Reading Expr} {limit : Int} {place : Nat} :
    finish r ≠ .error (.nestedTooDeep limit place) := by
  obtain ⟨found, depth, rest⟩ := r
  cases rest with
  | nil => exact nofun
  | cons t behind =>
      obtain ⟨kind, text, position⟩ := t
      cases kind <;> exact nofun

/-- **A formula is nested too deeply because of its front.** -/
theorem tree_nested {limit : Int} {place : Nat} (h : tree ctx ts = .error (.nestedTooDeep limit place))
    (stop : Nat) : ∃ front t behind, ts = front ++ t :: behind ∧ t.position = place ∧
      ∀ others, tree (ctx.endingAt stop) (front ++ t :: others) = .error (.nestedTooDeep limit place) := by
  have hdecided := ((deciding_steps ctx stop).holds ts).phrase .sum 0
  rw [tree_bind] at h
  cases hread : read ctx 0 .sum ts with
  | ok r =>
      rw [hread] at h
      exact absurd h ne_nested_of_finish
  | error e =>
      rw [hread] at h
      obtain rfl : e = .nestedTooDeep limit place := Except.error.inj h
      obtain ⟨front, t, behind, hts, hplace, hothers⟩ := hdecided.nested limit place hread
      refine ⟨front, t, behind, hts, hplace, fun others => ?_⟩
      rw [tree_bind, hothers]
      rfl

end Parser

/-! ### Texts that start alike -/

/-- How a token is written, and where. -/
def Token.seen (t : Token) : String × Nat :=
  (t.text, t.position)

namespace TokenList

variable {registry : Registry} {limits : Limits} {text text' : String} {list list' : TokenList}
  {limit : Int} {place : Nat}

/-- A token of a text is known when its spelling and its place are. -/
theorem eq_of_seen (hlist : ofText text = .ok list) (hlist' : ofText text' = .ok list')
    {t u : Token} (ht : t ∈ list.tokens) (hu : u ∈ list'.tokens) (h : t.seen = u.seen) : t = u := by
  have hkind := Token.isLexeme_of_scanFrom (ofText_eq_ok_iff.mp hlist).1 t ht
  have hkind' := Token.isLexeme_of_scanFrom (ofText_eq_ok_iff.mp hlist').1 u hu
  obtain ⟨kind, text, position⟩ := t
  obtain ⟨kind', text', position'⟩ := u
  obtain ⟨rfl, rfl⟩ := Prod.mk.inj h
  obtain rfl : kind = kind' := hkind.kind_unique hkind'
  rfl

/-- Tokens of texts are the same as far as they look alike. -/
theorem eq_of_map_seen (hlist : ofText text = .ok list) (hlist' : ofText text' = .ok list')
    {ts us : List Token} (hts : ts ⊆ list.tokens) (hus : us ⊆ list'.tokens)
    (h : ts.map Token.seen = us.map Token.seen) : ts = us := by
  induction ts generalizing us with
  | nil => exact (List.map_eq_nil_iff.mp h.symm).symm
  | cons t ts ih =>
      obtain ⟨u, us, rfl, hhead, htail⟩ := List.map_eq_cons_iff.mp h.symm
      obtain ⟨ht, hts⟩ := List.cons_subset.mp hts
      obtain ⟨hu, hus⟩ := List.cons_subset.mp hus
      rw [eq_of_seen hlist hlist' ht hu hhead.symm, ih hts hus htail.symm]

/-- A text that starts like another one has its tokens, and then others. -/
theorem exists_others (hlist : ofText text = .ok list) (hlist' : ofText text' = .ok list')
    {front behind : List Token} {t : Token} (htokens : list.tokens = front ++ t :: behind)
    (hseen : (list'.tokens.take (front.length + 1)).map Token.seen =
      (list.tokens.take (front.length + 1)).map Token.seen) :
    ∃ others, list'.tokens = front ++ t :: others := by
  have hsame := eq_of_map_seen hlist' hlist (List.take_subset ..) (List.take_subset ..) hseen
  have htake : list.tokens.take (front.length + 1) = front ++ [t] := by
    rw [htokens, List.take_length_add_append]
    rfl
  refine ⟨list'.tokens.drop (front.length + 1), ?_⟩
  conv_lhs => rw [← List.take_append_drop (front.length + 1) list'.tokens, hsame, htake]
  exact List.append_assoc ..

/-- The tokens of a text are nested too deeply because of their front, wherever the text ends. -/
theorem tree_nested {ctx : Parser.Context} (hlist : ofText text = .ok list)
    (h : Parser.tree ctx list.tokens = .error (.nestedTooDeep limit place)) :
    ∃ front t behind, list.tokens = front ++ t :: behind ∧ t.position = place ∧ ∀ stop others,
      Parser.tree (ctx.endingAt stop) (front ++ t :: others) = .error (.nestedTooDeep limit place) := by
  obtain ⟨front, t, behind, htokens, hplace, -⟩ := Parser.tree_nested h 0
  refine ⟨front, t, behind, htokens, hplace, fun stop => ?_⟩
  -- no two tokens share a place, so the front is the same for every end
  obtain ⟨front', t', behind', htokens', hplace', hothers⟩ := Parser.tree_nested h stop
  have ht : list.tokens[front.length]? = some t := by rw [htokens]; simp
  have ht' : list.tokens[front'.length]? = some t' := by rw [htokens']; simp
  obtain ⟨hlength, rfl⟩ := getElem?_inj hlist ht ht' (hplace.trans hplace'.symm)
  obtain rfl : front = front' := List.append_inj_left (htokens.symm.trans htokens') hlength
  exact hothers

/-- Too many tokens are refused for that, and otherwise it is the tree that is nested too deeply. -/
theorem parse_eq_nested_iff :
    list.parse registry limits = .error (.formula (.parse (.nestedTooDeep limit place))) ↔
      (list.tokens.length : Int) ≤ limits.maxTokens ∧
        Parser.tree ⟨registry, limits.maxDepth, list.stop⟩ list.tokens =
          .error (.nestedTooDeep limit place) := by
  unfold TokenList.parse
  by_cases hmany : limits.maxTokens < list.tokens.length
  · rw [if_pos hmany]
    have hnot : ¬ (list.tokens.length : Int) ≤ limits.maxTokens := by omega
    cases list.positionAt? limits.maxTokens <;> simp [hnot]
  · rw [if_neg hmany]
    have hfew : (list.tokens.length : Int) ≤ limits.maxTokens := by omega
    cases Parser.tree ⟨registry, limits.maxDepth, list.stop⟩ list.tokens <;> simp [hfew]

end TokenList

namespace Expr

/-- **A formula that nests too deeply is refused whatever follows.**  The refusal stands at one of
its tokens.  Any text whose tokens up to that one are written alike and stand at the same places is
refused in the same way, if it can be cut into tokens at all and does not have too many. -/
theorem parse_nested_too_deep {registry : Registry} {limits : Limits} {text : String} {limit : Int}
    {place : Nat}
    (h : parse registry limits text = .error (.formula (.parse (.nestedTooDeep limit place)))) :
    ∃ list i t, TokenList.ofText text = .ok list ∧ list.tokens[i]? = some t ∧ t.position = place ∧
      ∀ text' list', TokenList.ofText text' = .ok list' →
        (list'.tokens.length : Int) ≤ limits.maxTokens →
        (list'.tokens.take (i + 1)).map Token.seen = (list.tokens.take (i + 1)).map Token.seen →
        parse registry limits text' = .error (.formula (.parse (.nestedTooDeep limit place))) := by
  unfold parse at h
  split at h
  · cases h
  · rename_i list hlist
    obtain ⟨-, htree⟩ := TokenList.parse_eq_nested_iff.mp h
    obtain ⟨front, t, behind, htokens, hplace, hothers⟩ := TokenList.tree_nested hlist htree
    have ht : list.tokens[front.length]? = some t := by rw [htokens]; simp
    refine ⟨list, front.length, t, hlist, ht, hplace, fun text' list' hlist' hfew hseen => ?_⟩
    obtain ⟨others, hothers'⟩ := TokenList.exists_others hlist hlist' htokens hseen
    have htree' : Parser.tree ⟨registry, limits.maxDepth, list'.stop⟩ list'.tokens =
        .error (.nestedTooDeep limit place) := by
      rw [hothers']
      exact hothers list'.stop others
    unfold parse
    rw [hlist']
    exact TokenList.parse_eq_nested_iff.mpr ⟨hfew, htree'⟩

/-- The theorem for a call in a group behind a sign, where two levels are allowed, and a text that
goes on from there as no formula does. -/
theorem parse_nested_too_deep_call :
    parse Registry.standard ⟨2, 16⟩ "-(floor(x))" = .error (.formula (.parse (.nestedTooDeep 2 7))) ∧
      parse Registry.standard ⟨2, 16⟩ "-(floor(*," = .error (.formula (.parse (.nestedTooDeep 2 7))) := by
  have h : parse Registry.standard ⟨2, 16⟩ "-(floor(x))" =
      .error (.formula (.parse (.nestedTooDeep 2 7))) := by cbv
  let front : List Token :=
    [⟨.minus, "-", 0⟩, ⟨.opening, "(", 1⟩, ⟨.name, "floor", 2⟩, ⟨.opening, "(", 7⟩]
  have hlist : TokenList.ofText "-(floor(x))" = .ok ⟨front ++ [⟨.name, "x", 8⟩, ⟨.closing, ")", 9⟩,
      ⟨.closing, ")", 10⟩], 11⟩ := by cbv
  have hother : TokenList.ofText "-(floor(*," =
      .ok ⟨front ++ [⟨.star, "*", 8⟩, ⟨.comma, ",", 9⟩], 10⟩ := by cbv
  obtain ⟨list, i, t, hfound, hi, ht, hothers⟩ := parse_nested_too_deep h
  obtain rfl := Except.ok.inj (hlist.symm.trans hfound)
  obtain ⟨rfl, -⟩ := TokenList.getElem?_inj hlist (i := 3) rfl hi ht.symm
  exact ⟨h, hothers _ _ hother (by decide) rfl⟩

end Expr

end Scorecard
