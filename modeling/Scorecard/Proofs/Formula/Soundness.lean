/-
What the parser reads, the grammar derives.

A reading that succeeds has taken a front of the tokens.  That front derives from the
phrase, with the tree that was found, and the tree stays within the limits: its calls
fit the registry, its depth is the one that was counted on the side, and nothing was
nested beyond what the level leaves room for.

The procedures call each other on the same tokens only in the direction of the
grammar, from sums down to primaries, and on fewer tokens everywhere else.  So the
proof is one induction on the length of the tokens, and inside it one lemma for each
procedure, in the order in which they rest on each other.
-/
import Scorecard.Formula.Metrics
import Scorecard.Proofs.Formula.Reading

namespace Scorecard

/-- A derivation uses up at least one token. -/
theorem Derives.ne_nil {p : Phrase} {ts : List Token} {e : Expr} {n : Nat} :
    Derives p ts e n → ts ≠ []
  | .number _ => by simp
  | .variable _ => by simp
  | .group .. => by simp
  | .call .. => by simp
  | .negate .. => by simp
  | .binary .. => by simp
  | .primary h => h.ne_nil
  | .factor h => h.ne_nil
  | .product h => h.ne_nil

namespace Parser

/-! ### Limits -/

/-- Constructs nested `nesting` deep have room inside of `level` others. -/
def Room (ctx : Context) (level nesting : Nat) : Prop :=
  nesting = 0 ∨ (level + nesting : Int) ≤ ctx.maxDepth

/-- A tree that may be built inside of `level` constructs, from tokens that nest
`nesting` constructs more; `depth` is what the parser counted. -/
structure Within (ctx : Context) (level : Nat) (e : Expr) (depth nesting : Nat) : Prop where
  counted : depth = e.depth
  shallow : (e.depth : Int) ≤ ctx.maxDepth
  room : Room ctx level nesting
  calls : e.CallsFit ctx.registry

/-- The same of several trees. -/
structure AllWithin (ctx : Context) (level : Nat) (es : List Expr) (depth nesting : Nat) : Prop where
  counted : depth = Expr.greatestDepth es
  room : Room ctx level nesting
  calls : Expr.AllCallsFit ctx.registry es

variable {ctx : Context} {level : Nat}

theorem Room.both {m n : Nat} (hm : Room ctx level m) (hn : Room ctx level n) :
    Room ctx level (max m n) := by
  unfold Room at *
  omega

/-- A construct may hold what has room one level deeper. -/
theorem Room.enclose {n : Nat} (hl : ¬ ctx.maxDepth < level + 1) (hn : Room ctx (level + 1) n) :
    Room ctx level (n + 1) := by
  unfold Room at *
  omega

theorem Within.binary {op : BinaryOp} {a b : Expr} {m n da db : Nat} {position : Option Nat}
    (ha : Within ctx level a da m) (hb : Within ctx level b db n)
    (hd : ¬ ctx.maxDepth < (1 + max da db : Nat)) :
    Within ctx level (.binary op a b position) (1 + max da db) (max m n) where
  counted := by rw [ha.counted, hb.counted, Expr.depth]
  shallow := by rw [Expr.depth, ← ha.counted, ← hb.counted]; omega
  room := ha.room.both hb.room
  calls := ⟨ha.calls, hb.calls⟩

/-! ### What a success says -/

/-- The reading took a front of the tokens that derives from the phrase. -/
def Takes (ctx : Context) (level : Nat) (p : Phrase) (tokens : List Token) (r : Reading Expr) : Prop :=
  ∃ front n, tokens = front ++ r.rest ∧ Derives p front r.found n ∧ Within ctx level r.found r.depth n

/-- The same for a loop that started from a tree that derives from `front` already. -/
def Grows (ctx : Context) (level : Nat) (p : Phrase) (front tokens : List Token) (r : Reading Expr) :
    Prop :=
  ∃ more n, tokens = more ++ r.rest ∧ Derives p (front ++ more) r.found n ∧
    Within ctx level r.found r.depth n

/-- The same for a list of arguments and the parenthesis behind it. -/
def TakesList (ctx : Context) (level : Nat) (tokens : List Token) (r : Reading (List Expr)) : Prop :=
  ∃ front c n, tokens = front ++ c :: r.rest ∧ c.kind = .closing ∧ DerivesList front r.found n ∧
    AllWithin ctx level r.found r.depth n

/-- Whatever is read from these tokens, by any procedure, is derived. -/
structure Sound (ctx : Context) (tokens : List Token) : Prop where
  phrase : ∀ level p r, read ctx level p tokens = .ok r → Takes ctx level p tokens r
  rest : ∀ level p left depth front m r, Derives p front left m → Within ctx level left depth m →
    readRest ctx level p left depth tokens = .ok r → Grows ctx level p front tokens r
  list : ∀ level o r, readList ctx level o tokens = .ok r → TakesList ctx level tokens r

theorem Takes.length_lt {p : Phrase} {tokens : List Token} {r : Reading Expr}
    (h : Takes ctx level p tokens r) : r.rest.length < tokens.length := by
  obtain ⟨front, n, rfl, hd, -⟩ := h
  have := List.length_pos_iff.mpr hd.ne_nil
  simp only [List.length_append]
  omega

/-! ### One lemma for each procedure -/

variable {tokens : List Token}

theorem takes_number (hmax : 1 ≤ ctx.maxDepth) {t : Token} {x : Float} (ht : t.kind = .number x)
    (ts : List Token) :
    Takes ctx level .primary (t :: ts) ⟨.number x (some t.position), 1, ts⟩ :=
  ⟨[t], 0, rfl, .number ht, rfl, by simpa [Expr.depth] using hmax, .inl rfl, trivial⟩

theorem takes_variable (hmax : 1 ≤ ctx.maxDepth) {t : Token} (ht : t.kind = .name) (ts : List Token) :
    Takes ctx level .primary (t :: ts) ⟨.variable (.str t.text) (some t.position), 1, ts⟩ :=
  ⟨[t], 0, rfl, .variable ht, rfl, by simpa [Expr.depth] using hmax, .inl rfl, trivial⟩

theorem takes_group {o : Token} {ts : List Token} (ih : Sound ctx ts) (ho : o.kind = .opening)
    {r : Reading Expr} (h : read ctx level .primary (o :: ts) = .ok r) :
    Takes ctx level .primary (o :: ts) r := by
  rw [read_group ctx level ho] at h
  split at h
  · cases h
  · rename_i hl
    split at h
    · cases h
    · rename_i inner hinner
      split at h
      · rename_i text position behind hrest
        cases h
        obtain ⟨front, n, hts, hd, hw⟩ := ih.phrase _ _ _ hinner
        rw [hrest] at hts
        refine ⟨o :: (front ++ [⟨.closing, text, position⟩]), n + 1, by simp [hts], ?_, ?_⟩
        · exact .group ho hd rfl
        · exact ⟨hw.counted, hw.shallow, hw.room.enclose hl, hw.calls⟩
      · cases h

theorem takes_arguments {o : Token} {ts : List Token} (ih : Sound ctx ts) {r : Reading (List Expr)}
    (h : readArguments ctx level o ts = .ok r) :
    ∃ front c n, ts = front ++ c :: r.rest ∧ c.kind = .closing ∧ DerivesArguments front r.found n ∧
      AllWithin ctx level r.found r.depth n := by
  by_cases hts : ∀ c, ts.head? = some c → c.kind ≠ .closing
  · rw [readArguments_of_not_closing ctx level hts] at h
    obtain ⟨front, c, n, hfront, hc, hd, hw⟩ := ih.list _ _ _ h
    exact ⟨front, c, n, hfront, hc, .some hd, hw⟩
  · obtain ⟨c, hhead, hc⟩ : ∃ c, ts.head? = some c ∧ c.kind = .closing := by simpa using hts
    obtain ⟨tail, rfl⟩ := List.head?_eq_some_iff.mp hhead
    rw [readArguments_closing ctx level hc] at h
    cases h
    exact ⟨[], c, 0, rfl, hc, .none, rfl, .inl rfl, trivial⟩

theorem takes_call {t o : Token} {ts : List Token} (ih : Sound ctx ts) (ht : t.kind = .name)
    (ho : o.kind = .opening) {r : Reading Expr}
    (h : read ctx level .primary (t :: o :: ts) = .ok r) :
    Takes ctx level .primary (t :: o :: ts) r := by
  rw [read_call ctx level ht ho] at h
  split at h
  · cases h
  · rename_i function hf
    split at h
    · cases h
    · rename_i hl
      split at h
      · cases h
      · rename_i given hgiven
        split at h
        · cases h
        · rename_i harity
          split at h
          · cases h
          · rename_i hd
            cases h
            obtain ⟨front, c, n, rfl, hc, hargs, hw⟩ := takes_arguments ih hgiven
            refine ⟨t :: o :: (front ++ [c]), n + 1, by simp, .call ht ho hargs hc, ?_, ?_, ?_, ?_⟩
            · rw [Expr.depth, hw.counted, Nat.add_comm]
            · rw [Expr.depth, ← hw.counted]; omega
            · exact hw.room.enclose hl
            · exact ⟨⟨function, hf, (Decidable.not_not.mp harity).symm⟩, hw.calls⟩

theorem sound_primary (hmax : 1 ≤ ctx.maxDepth)
    (ih : ∀ us : List Token, us.length < tokens.length → Sound ctx us) {r : Reading Expr}
    (h : read ctx level .primary tokens = .ok r) : Takes ctx level .primary tokens r := by
  cases tokens with
  | nil => cases h
  | cons t ts =>
      have hts : Sound ctx ts := ih ts (by simp)
      cases ht : t.kind with
      | number x =>
          rw [read_number ctx level ht] at h
          cases h
          exact takes_number hmax ht ts
      | opening => exact takes_group hts ht h
      | name =>
          by_cases hcall : ∀ o, ts.head? = some o → o.kind ≠ .opening
          · rw [read_variable ctx level ht hcall] at h
            cases h
            exact takes_variable hmax ht ts
          · obtain ⟨o, hhead, ho⟩ : ∃ o, ts.head? = some o ∧ o.kind = .opening := by
              simpa using hcall
            obtain ⟨tail, rfl⟩ := List.head?_eq_some_iff.mp hhead
            exact takes_call (ih tail (by simp only [List.length_cons]; omega)) ht ho h
      | _ =>
          rw [read_primary_unexpected ctx level (by simp [ht]) (by simp [ht]) (by simp [ht])] at h
          cases h

theorem sound_factor (hmax : 1 ≤ ctx.maxDepth)
    (ih : ∀ us : List Token, us.length < tokens.length → Sound ctx us) {r : Reading Expr}
    (h : read ctx level .factor tokens = .ok r) : Takes ctx level .factor tokens r := by
  cases tokens with
  | nil => rw [read_factor_nil] at h; cases h
  | cons t ts =>
      by_cases ht : t.kind = .minus
      · rw [read_minus ctx level ht] at h
        split at h
        · cases h
        · rename_i hl
          split at h
          · cases h
          · rename_i operand hoperand
            split at h
            · cases h
            · rename_i hd
              cases h
              obtain ⟨front, n, rfl, hder, hw⟩ := (ih ts (by simp)).phrase _ _ _ hoperand
              refine ⟨t :: front, n + 1, rfl, .negate ht hder, ?_, ?_, hw.room.enclose hl, hw.calls⟩
              · rw [Expr.depth, hw.counted, Nat.add_comm]
              · rw [Expr.depth, ← hw.counted]; omega
      · rw [read_factor_of_ne_minus ctx level ht] at h
        obtain ⟨front, n, hts, hd, hw⟩ := sound_primary hmax ih h
        exact ⟨front, n, hts, .primary hd, hw⟩

/-- A loop that finds no operator of its level leaves everything as it is. -/
theorem grows_self {p : Phrase} {left : Expr} {depth m : Nat} {front : List Token}
    (hd : Derives p front left m) (hw : Within ctx level left depth m) :
    Grows ctx level p front tokens ⟨left, depth, tokens⟩ :=
  ⟨[], m, rfl, by simpa using hd, hw⟩

theorem sound_rest (ih : ∀ us : List Token, us.length < tokens.length → Sound ctx us) {p : Phrase}
    {left : Expr} {depth m : Nat} {front : List Token} {r : Reading Expr} (hd : Derives p front left m)
    (hw : Within ctx level left depth m) (h : readRest ctx level p left depth tokens = .ok r) :
    Grows ctx level p front tokens r := by
  cases tokens with
  | nil =>
      rw [readRest_nil] at h
      cases h
      exact grows_self hd hw
  | cons t ts =>
      cases hop : operator? p t.kind with
      | none =>
          rw [readRest_of_none ctx level hop] at h
          cases h
          exact grows_self hd hw
      | some op =>
          obtain ⟨rfl, ht⟩ := operator?_eq_some.mp hop
          rw [readRest_operator ctx level ht] at h
          split at h
          · cases h
          · rename_i right hright
            split at h
            · cases h
            · rename_i hlimit
              have htaken := (ih ts (by simp)).phrase _ _ _ hright
              have hshorter := htaken.length_lt
              obtain ⟨us, n, rfl, hder, hwr⟩ := htaken
              have hbinary := Derives.binary hd ht hder
              have hrest := ih right.rest (by simp only [List.length_cons]; omega)
              obtain ⟨more, k, hmore, hgrown, hwg⟩ :=
                hrest.rest _ _ _ _ _ _ _ hbinary (hw.binary hwr hlimit) h
              refine ⟨t :: (us ++ more), k, by simp [← hmore], by simpa using hgrown, hwg⟩

theorem sound_operators (op : BinaryOp)
    (ih : ∀ us : List Token, us.length < tokens.length → Sound ctx us)
    (hlift : ∀ {ts : List Token} {e : Expr} {n : Nat}, Derives op.operand ts e n → Derives op.phrase ts e n)
    (hoperand : ∀ {r : Reading Expr}, read ctx level op.operand tokens = .ok r →
      Takes ctx level op.operand tokens r)
    {r : Reading Expr} (h : read ctx level op.phrase tokens = .ok r) :
    Takes ctx level op.phrase tokens r := by
  rw [read_operators] at h
  split at h
  · cases h
  · rename_i first hfirst
    have htaken := hoperand hfirst
    have hshorter := htaken.length_lt
    obtain ⟨front, m, hfront, hd, hw⟩ := htaken
    obtain ⟨more, n, hmore, hgrown, hwg⟩ := (ih first.rest hshorter).rest _ _ _ _ _ _ _ (hlift hd) hw h
    exact ⟨front ++ more, n, by rw [hfront, hmore, List.append_assoc], hgrown, hwg⟩

theorem sound_list (ih : ∀ us : List Token, us.length < tokens.length → Sound ctx us)
    (hsum : ∀ {r : Reading Expr}, read ctx level .sum tokens = .ok r → Takes ctx level .sum tokens r)
    {o : Token} {r : Reading (List Expr)} (h : readList ctx level o tokens = .ok r) :
    TakesList ctx level tokens r := by
  rw [readList_eq] at h
  split at h
  · cases h
  · rename_i first hfirst
    have htaken := hsum hfirst
    have hshorter := htaken.length_lt
    obtain ⟨front, m, hfront, hd, hw⟩ := htaken
    split at h
    · cases h
    · rename_i t behind hrest
      rw [hrest] at hfront hshorter
      split at h
      · rename_i ht
        split at h
        · cases h
        · rename_i more hmore
          cases h
          obtain ⟨us, c, n, rfl, hc, hlist, hwl⟩ :=
            (ih behind (by simp at hshorter ⊢; omega)).list _ _ _ hmore
          refine ⟨front ++ t :: us, c, max m n, by simp [hfront], hc, .more hd ht hlist, ?_, ?_, ?_⟩
          · rw [Expr.greatestDepth, hw.counted, hwl.counted]
          · exact hw.room.both hwl.room
          · exact ⟨hw.calls, hwl.calls⟩
      · rename_i ht
        cases h
        refine ⟨front, t, m, hfront, ht, .one hd, ?_, hw.room, hw.calls, trivial⟩
        rw [Expr.greatestDepth, Expr.greatestDepth, hw.counted, Nat.max_zero]
      · cases h

/-- **Whatever the parser reads, the grammar derives.** -/
theorem sound (hmax : 1 ≤ ctx.maxDepth) (tokens : List Token) : Sound ctx tokens := by
  induction hlen : tokens.length using Nat.strongRecOn generalizing tokens with
  | _ len ih =>
      have shorter : ∀ us : List Token, us.length < tokens.length → Sound ctx us :=
        fun us hus => ih us.length (by omega) us rfl
      have primary : ∀ level r, read ctx level .primary tokens = .ok r →
          Takes ctx level .primary tokens r := fun _ _ h => sound_primary hmax shorter h
      have factor : ∀ level r, read ctx level .factor tokens = .ok r →
          Takes ctx level .factor tokens r := fun _ _ h => sound_factor hmax shorter h
      have product : ∀ level r, read ctx level .product tokens = .ok r →
          Takes ctx level .product tokens r :=
        fun level _ h => sound_operators .multiply shorter .factor (factor level _) h
      have sum : ∀ level r, read ctx level .sum tokens = .ok r → Takes ctx level .sum tokens r :=
        fun level _ h => sound_operators .add shorter .product (product level _) h
      refine ⟨fun level p r h => ?_, fun _ _ _ _ _ _ _ hd hw h => sound_rest shorter hd hw h,
        fun level _ _ h => sound_list shorter (sum level _) h⟩
      cases p with
      | sum => exact sum level r h
      | product => exact product level r h
      | factor => exact factor level r h
      | primary => exact primary level r h

end Parser

end Scorecard
