/-
No index gets beyond the end.

Wherever on the tape a procedure starts, with enough fuel it comes to what reading the tokens from
there comes to.  `Follows` says so of one procedure, and one induction over all constructs shows
it: only the end mark lacks a kind, so whoever steps over a mark because of its kind does not step
over the end.
-/
import Mathlib
import Scorecard.Proofs.Formula.Moving
import Scorecard.Proofs.Formula.Tape
import Scorecard.Proofs.Formula.Trees

namespace Scorecard

open Scorecard.Parser

/-! ### Where the tokens left stand -/

namespace TokenList

variable {list : TokenList} {t : Token} {us : List Token}

/-- The index where the last tokens start, or the end mark if there are none. -/
def indexOf (list : TokenList) (us : List Token) : Nat :=
  list.tokens.length - us.length

/-- The mark there. -/
def markOf (list : TokenList) : List Token → Mark
  | [] => ⟨none, "", list.stop⟩
  | t :: _ => t.mark

theorem length_marks (list : TokenList) : list.marks.length = list.tokens.length + 1 := by
  simp [marks]

theorem marks_indexOf (h : us <:+ list.tokens) : list.marks[list.indexOf us]? = some (list.markOf us) := by
  obtain ⟨front, hfront⟩ := h
  have hindex : list.indexOf us = front.length := by
    rw [indexOf, ← hfront, List.length_append, Nat.add_sub_cancel]
  rw [marks, hindex, ← hfront]
  cases us <;> simp [markOf]

theorem indexOf_cons (h : t :: us <:+ list.tokens) : list.indexOf (t :: us) + 1 = list.indexOf us := by
  have hlength := h.length_le
  rw [List.length_cons] at hlength
  rw [indexOf, indexOf, List.length_cons]
  omega

/-- Where fewer tokens are left, the index is greater. -/
theorem indexOf_lt {vs : List Token} (h : us <:+ list.tokens) (hlt : vs.length < us.length) :
    list.indexOf us < list.indexOf vs := by
  have hlength := h.length_le
  rw [indexOf, indexOf]
  omega

theorem indexOf_lt_length (list : TokenList) (us : List Token) : list.indexOf us < list.marks.length := by
  rw [indexOf, length_marks]
  omega

/-- At every index of the tape some last tokens start. -/
theorem exists_indexOf {i : Nat} (h : i < list.marks.length) :
    ∃ us, us <:+ list.tokens ∧ list.indexOf us = i := by
  rw [length_marks] at h
  refine ⟨list.tokens.drop i, List.drop_suffix i list.tokens, ?_⟩
  rw [indexOf, List.length_drop]
  omega

theorem places_eq_map_marks (list : TokenList) : list.places = list.marks.map (·.position) := by
  simp [places, marks, Token.mark, Function.comp_def]

theorem position_mem_places_of_suffix (h : t :: us <:+ list.tokens) : t.position ∈ list.places :=
  List.mem_append_left _ (List.mem_map_of_mem (h.subset List.mem_cons_self))

/-- A mark is no token of a kind if the tokens do not start with one. -/
theorem kind_markOf_ne {kind : Token.Kind} (h : ∀ t, us.head? = some t → t.kind ≠ kind) :
    (list.markOf us).kind ≠ some kind := by
  cases us with
  | nil => exact nofun
  | cons t us => exact fun hkind => h t rfl (Option.some.inj hkind)

end TokenList

/-! ### Enough fuel -/

namespace Tape

variable {α β : Type}

/-- With enough fuel, and however much more, the run comes to an outcome. -/
def ComesTo (y : Nat → Run α) (x : Run α) : Prop :=
  ∃ enough, ∀ fuel, enough ≤ fuel → y fuel = x

namespace ComesTo

variable {y y' : Nat → Run α} {x : Run α}

theorem const (x : Run α) : ComesTo (fun _ => x) x :=
  ⟨0, fun _ _ => rfl⟩

/-- A run that calls another one takes one more. -/
theorem succ (hy : ∀ fuel, y' (fuel + 1) = y fuel) (h : ComesTo y x) : ComesTo y' x := by
  obtain ⟨n, hn⟩ := h
  refine ⟨n + 1, fun fuel hfuel => ?_⟩
  obtain ⟨less, rfl⟩ := Nat.exists_eq_add_of_le' (Nat.le_of_add_left_le hfuel)
  rw [hy, hn less (Nat.le_of_succ_le_succ hfuel)]

/-- Behind a success the run is that of the next step. -/
theorem bind {k : Nat → α → Run β} {a : α} {x : Run β} (h : ComesTo y (pure a))
    (hk : ComesTo (fun fuel => k fuel a) x) : ComesTo (fun fuel => y fuel >>= k fuel) x := by
  obtain ⟨n, hn⟩ := h
  obtain ⟨m, hm⟩ := hk
  refine ⟨max n m, fun fuel hfuel => ?_⟩
  show y fuel >>= k fuel = x
  rw [hn fuel (le_trans (le_max_left n m) hfuel), pure_bind]
  exact hm fuel (le_trans (le_max_right n m) hfuel)

/-- A run that was stopped takes no further step. -/
theorem stop {k : Nat → α → Run β} {s : Stop} (h : ComesTo y (throw s)) :
    ComesTo (fun fuel => y fuel >>= k fuel) (throw s) := by
  obtain ⟨n, hn⟩ := h
  refine ⟨n, fun fuel hfuel => ?_⟩
  show y fuel >>= k fuel = throw s
  rw [hn fuel hfuel]
  rfl

end ComesTo

/-! ### Runs that follow readings -/

variable {list : TokenList} {us vs : List Token}

/-- The run comes to what reading some last tokens came to.  It is stopped by the same error,
which stands at a mark, or it finds the same and stands in front of what was left. -/
inductive Follows (list : TokenList) (us : List Token) :
    Except ParseError (Reading α) → (Nat → Run (Visit α)) → Prop
  | refused {y : Nat → Run (Visit α)} (e : ParseError) (h : e.position ∈ list.places)
      (hy : ComesTo y (throw (.refused e))) : Follows list us (.error e) y
  | found {y : Nat → Run (Visit α)} (r : Reading α) (h : r.rest <:+ us)
      (hy : ComesTo y (pure ⟨r.found, r.depth, list.indexOf r.rest⟩)) : Follows list us (.ok r) y

namespace Follows

variable {x : Except ParseError (Reading α)} {y y' : Nat → Run (Visit α)}

theorem of_error {e : ParseError} (h : e.position ∈ list.places) :
    Follows (α := α) list us (.error e) fun _ => throw (.refused e) :=
  .refused e h (.const _)

theorem of_ok {r : Reading α} (h : r.rest <:+ us) :
    Follows list us (.ok r) fun _ => pure ⟨r.found, r.depth, list.indexOf r.rest⟩ :=
  .found r h (.const _)

theorem mono (h : Follows list us x y) (hus : us <:+ vs) : Follows list vs x y := by
  cases h with
  | refused e he hy => exact .refused e he hy
  | found r hr hy => exact .found r (hr.trans hus) hy

theorem succ (hy : ∀ fuel, y' (fuel + 1) = y fuel) (h : Follows list us x y) : Follows list us x y' := by
  cases h with
  | refused e he h => exact .refused e he (.succ hy h)
  | found r hr h => exact .found r hr (.succ hy h)

theorem bind {k : Reading α → Except ParseError (Reading β)} {k' : Nat → Visit α → Run (Visit β)}
    (h : Follows list us x y)
    (hk : ∀ r, x = .ok r → r.rest <:+ us →
      Follows list vs (k r) fun fuel => k' fuel ⟨r.found, r.depth, list.indexOf r.rest⟩) :
    Follows list vs (x >>= k) fun fuel => y fuel >>= k' fuel := by
  cases h with
  | refused e he hy => exact .refused e he hy.stop
  | found r hr hy =>
      have hnext := hk r rfl hr
      show Follows list vs (k r) _
      generalize k r = z at hnext ⊢
      cases hnext with
      | refused e he hz => exact .refused e he (.bind hy hz)
      | found s hs hz => exact .found s hs (.bind hy hz)

/-- A check that refuses both. -/
theorem refusal {c : Prop} [Decidable c] {e : ParseError} (he : e.position ∈ list.places)
    (h : Follows list us x y) : Follows list us (if c then .error e else x)
      fun fuel => if c then throw (.refused e) else y fuel := by
  by_cases hc : c
  · simp only [if_pos hc]
    exact of_error he
  · simp only [if_neg hc]
    exact h

/-- The same where the check is a step of its own. -/
theorem check {c : Prop} [Decidable c] {e : ParseError} (he : e.position ∈ list.places)
    (h : Follows list us x y) : Follows list us (if c then .error e else x)
      fun fuel => (if c then throw (.refused e) else pure ()) >>= fun _ => y fuel := by
  have hstep : ∀ fuel, ((if c then throw (.refused e) else pure ()) >>= fun _ => y fuel) =
      if c then throw (.refused e) else y fuel := by
    intro fuel
    split <;> rfl
  simp only [hstep]
  exact h.refusal he

end Follows

/-- Every procedure, started where some last tokens stand, follows the reading of them. -/
def following (list : TokenList) (registry : Registry) (maxDepth : Int) : Judgment where
  phrase p us := us <:+ list.tokens → ∀ level,
    Follows list us (read ⟨registry, maxDepth, list.stop⟩ level p us)
      fun fuel => (list.tape registry maxDepth).phrase fuel p level (list.indexOf us)
  rest p us := us <:+ list.tokens → ∀ level left depth,
    Follows list us (readRest ⟨registry, maxDepth, list.stop⟩ level p left depth us)
      fun fuel => (list.tape registry maxDepth).loop fuel p level left depth (list.indexOf us)
  list us := us <:+ list.tokens → ∀ level o, o.position ∈ list.places →
    Follows list us (readList ⟨registry, maxDepth, list.stop⟩ level o us)
      fun fuel => (list.tape registry maxDepth).someArguments fuel level o.mark (list.indexOf us)

variable {registry : Registry} {maxDepth : Int} {level : Nat} {t o : Token} {ts : List Token}

theorem look_indexOf (h : us <:+ list.tokens) :
    (list.tape registry maxDepth).look (list.indexOf us) = pure (list.markOf us) := by
  unfold look TokenList.tape
  rw [TokenList.marks_indexOf h]

theorem look_indexOf_succ (h : t :: us <:+ list.tokens) :
    (list.tape registry maxDepth).look (list.indexOf (t :: us) + 1) = pure (list.markOf us) := by
  rw [TokenList.indexOf_cons h]
  exact look_indexOf ((List.suffix_cons t us).trans h)

/-! ### One lemma for each procedure -/

theorem follows_close {r : Reading Expr} (ho : o.position ∈ list.places) (hr : r.rest <:+ us)
    (hus : us <:+ list.tokens) :
    Follows list us (closeGroup o r)
      fun _ => (list.tape registry maxDepth).close o.mark ⟨r.found, r.depth, list.indexOf r.rest⟩ := by
  obtain ⟨found, depth, rest⟩ := r
  unfold close
  rw [look_indexOf (hr.trans hus), pure_bind]
  cases rest with
  | nil => exact .of_error ho
  | cons u behind =>
      have hplace := TokenList.position_mem_places_of_suffix (hr.trans hus)
      have hindex := TokenList.indexOf_cons (hr.trans hus)
      obtain ⟨kind, text, position⟩ := u
      cases kind with
      | closing =>
          show Follows list us _ fun _ =>
            pure ⟨found, depth, list.indexOf (⟨.closing, text, position⟩ :: behind) + 1⟩
          rw [hindex]
          exact .of_ok (r := ⟨found, depth, behind⟩) ((List.suffix_cons _ _).trans hr)
      | _ => exact .of_error hplace

theorem follows_arguments (h : (following list registry maxDepth).Holds us) (hus : us <:+ list.tokens)
    (level : Nat) (ho : o.position ∈ list.places) :
    Follows list us (readArguments ⟨registry, maxDepth, list.stop⟩ level o us)
      fun fuel => (list.tape registry maxDepth).arguments fuel level o.mark (list.indexOf us) := by
  rcases starts_or_not .closing us with ⟨c, behind, rfl, hc⟩ | hclosing
  · rw [readArguments_closing _ _ hc]
    refine .succ (fun fuel => arguments_closing fuel (look_indexOf hus) (congrArg some hc) o.mark) ?_
    rw [TokenList.indexOf_cons hus]
    exact .of_ok (List.suffix_cons _ _)
  · rw [readArguments_of_not_closing _ _ hclosing]
    refine .succ (fun fuel => ?_) (h.list hus level o ho)
    exact arguments_some fuel (look_indexOf hus) (TokenList.kind_markOf_ne hclosing) o.mark

theorem follows_more {r : Reading Expr}
    (ih : ∀ vs, vs.length < r.rest.length → (following list registry maxDepth).Holds vs)
    (hr : r.rest <:+ us) (hus : us <:+ list.tokens) (level : Nat) (ho : o.position ∈ list.places) :
    Follows list us (readMore ⟨registry, maxDepth, list.stop⟩ level o r) fun fuel =>
      (list.tape registry maxDepth).more level o.mark fuel ⟨r.found, r.depth, list.indexOf r.rest⟩ := by
  obtain ⟨found, depth, rest⟩ := r
  unfold more
  rw [look_indexOf (hr.trans hus)]
  simp only [pure_bind]
  cases rest with
  | nil => exact .of_error ho
  | cons u behind =>
      have hplace := TokenList.position_mem_places_of_suffix (hr.trans hus)
      have hindex := TokenList.indexOf_cons (hr.trans hus)
      have hbehind : behind <:+ us := (List.suffix_cons u behind).trans hr
      obtain ⟨kind, text, position⟩ := u
      cases kind with
      | comma =>
          have hothers := (ih behind (by simp)).list (hbehind.trans hus) level o ho
          rw [← hindex] at hothers
          exact .bind hothers fun more _ hmore => .of_ok (hmore.trans hbehind)
      | closing =>
          show Follows list us _ fun _ =>
            pure ⟨[found], depth, list.indexOf (⟨.closing, text, position⟩ :: behind) + 1⟩
          rw [hindex]
          exact .of_ok (r := ⟨[found], depth, behind⟩) hbehind
      | _ => exact .of_error hplace

/-- A call is followed from its name on. -/
theorem follows_call (ht : t.kind = .name) (ho : o.kind = .opening)
    (hts : (following list registry maxDepth).Holds ts) (h : t :: o :: ts <:+ list.tokens) (level : Nat) :
    Follows list (t :: o :: ts) (read ⟨registry, maxDepth, list.stop⟩ level .primary (t :: o :: ts))
      fun fuel => (list.tape registry maxDepth).call fuel level (list.indexOf (t :: o :: ts)) := by
  have hbehind : ts <:+ t :: o :: ts := ⟨[t, o], rfl⟩
  have hopening : o :: ts <:+ list.tokens := (List.suffix_cons t _).trans h
  have hplace := TokenList.position_mem_places_of_suffix h
  have hindex : list.indexOf (t :: o :: ts) + 2 = list.indexOf ts := by
    rw [← TokenList.indexOf_cons hopening, ← TokenList.indexOf_cons h]
  cases hf : registry.find? t.text with
  | none =>
      rw [read_unknown _ _ ht ho hf]
      exact .succ (fun fuel => call_unknown fuel (look_indexOf h) (look_indexOf_succ h) hf) (.of_error hplace)
  | some function =>
      rw [read_call_bind _ _ ht ho hf]
      refine .succ (fun fuel => call_known fuel (look_indexOf h) (look_indexOf_succ h) hf) ?_
      rw [hindex]
      have hgiven := follows_arguments hts (hbehind.trans h) (level + 1)
        (TokenList.position_mem_places_of_suffix hopening)
      refine .check (TokenList.position_mem_places_of_suffix hopening) (.bind hgiven fun given _ hrest => ?_)
      exact .refusal hplace (.check hplace (.of_ok (hrest.trans hbehind)))

theorem following_steps (list : TokenList) (registry : Registry) (maxDepth : Int) :
    (following list registry maxDepth).Steps where
  nothing h level := by
    refine .succ (fun fuel => phrase_unexpected fuel (look_indexOf h) nofun nofun nofun) ?_
    exact .of_error (by simp [TokenList.places, ParseError.position])
  number {t x ts} ht h level := by
    rw [read_number _ _ ht]
    refine .succ (fun fuel => phrase_number fuel (look_indexOf h) (congrArg some ht)) ?_
    rw [TokenList.indexOf_cons h]
    exact .of_ok (List.suffix_cons _ _)
  group {t ts} ht ih h level := by
    have htail : ts <:+ t :: ts := List.suffix_cons _ _
    have hplace := TokenList.position_mem_places_of_suffix h
    rw [read_group_bind _ _ ht]
    refine .succ (fun fuel => phrase_group fuel (look_indexOf h) (congrArg some ht)) ?_
    rw [TokenList.indexOf_cons h]
    refine .check hplace (.bind (ih.tail.phrase .sum (htail.trans h) (level + 1)) fun r _ hr => ?_)
    exact follows_close hplace (hr.trans htail) h
  name {t ts} ht hts h level := by
    rw [read_variable _ _ ht hts]
    refine .succ (fun fuel => phrase_variable fuel (look_indexOf h) (congrArg some ht)
      (look_indexOf_succ h) (TokenList.kind_markOf_ne hts)) ?_
    rw [TokenList.indexOf_cons h]
    exact .of_ok (List.suffix_cons _ _)
  call {t o ts} ht ho ih h level := by
    refine .succ (fun fuel => phrase_call fuel (look_indexOf h) (congrArg some ht) (look_indexOf_succ h)
      (congrArg some ho)) ?_
    exact follows_call ht ho (ih ts (by simp only [List.length_cons]; omega)) h level
  unexpected hn ho hf h level := by
    rw [read_primary_unexpected _ _ hn ho hf]
    refine .succ (fun fuel => phrase_unexpected fuel (look_indexOf h) ?_ ?_ ?_)
      (.of_error (TokenList.position_mem_places_of_suffix h))
    all_goals simpa [TokenList.markOf, Token.mark]
  sign {t ts} ht ih h level := by
    have htail : ts <:+ t :: ts := List.suffix_cons _ _
    have hplace := TokenList.position_mem_places_of_suffix h
    rw [read_minus_bind _ _ ht]
    refine .succ (fun fuel => phrase_minus fuel (look_indexOf h) (congrArg some ht)) ?_
    rw [TokenList.indexOf_cons h]
    refine .check hplace (.bind (ih.tail.phrase .factor (htail.trans h) (level + 1)) fun r _ hr => ?_)
    exact .check hplace (.of_ok (hr.trans htail))
  factor hsign hp h level := by
    rw [read_factor_of_head _ _ hsign]
    exact .succ (fun fuel => phrase_factor fuel (look_indexOf h) (TokenList.kind_markOf_ne hsign)) (hp h level)
  operators op tokens ih hp h level := by
    rw [read_operators_bind]
    refine .succ (fun fuel => phrase_operators fuel _ op level _) (.bind (hp h level) fun r hread hr => ?_)
    exact ((ih r.rest (length_rest_lt hread)).rest op.phrase (hr.trans h) level _ _).mono hr
  done {p us} hus h level left depth := by
    have hnone : (list.markOf us).kind.bind (operator? p) = none := by
      cases us with
      | nil => rfl
      | cons t ts => exact hus t rfl
    rw [readRest_of_head _ _ hus]
    exact .succ (fun fuel => loop_done fuel (look_indexOf h) hnone left depth) (.of_ok List.suffix_rfl)
  grow {op t ts} ht ih h level left depth := by
    have htail : ts <:+ t :: ts := List.suffix_cons _ _
    have hplace := TokenList.position_mem_places_of_suffix h
    rw [readRest_bind _ _ ht]
    refine .succ (fun fuel => loop_grow fuel (look_indexOf h) (congrArg some ht) left depth) ?_
    rw [TokenList.indexOf_cons h]
    refine .bind (ih.tail.phrase op.operand (htail.trans h) level) fun r hread hr => .check hplace ?_
    have hshorter := length_rest_lt hread
    have hbelow := ih r.rest (by simp only [List.length_cons]; omega)
    exact (hbelow.rest op.phrase ((hr.trans htail).trans h) level _ _).mono (hr.trans htail)
  list {tokens} ih hp h level o ho := by
    rw [readList_bind]
    refine .succ (fun fuel => someArguments_bind fuel _ level o.mark _)
      (.bind (hp h level) fun first hread hfirst => ?_)
    have hshorter := length_rest_lt hread
    exact follows_more (fun us hus => ih us (hus.trans hshorter)) hfirst h level ho

theorem follows_phrase (list : TokenList) (registry : Registry) (maxDepth : Int) (p : Phrase)
    (level : Nat) (h : us <:+ list.tokens) :
    Follows list us (read ⟨registry, maxDepth, list.stop⟩ level p us)
      fun fuel => (list.tape registry maxDepth).phrase fuel p level (list.indexOf us) :=
  ((following_steps list registry maxDepth).holds us).phrase p h level

/-! ### Inside the tape -/

/-- A run from an index comes to an end, and not for want of a mark.  What it finds stands in
front of a mark further on, or the formula is refused for one of the marks. -/
def Inside (marks : List Mark) (i : Nat) (y : Nat → Run (Visit α)) : Prop :=
  (∃ v, ComesTo y (pure v) ∧ i < v.next ∧ v.next < marks.length) ∨
    ∃ e, ComesTo y (throw (.refused e)) ∧ ∃ m ∈ marks, e.position = m.position

theorem Follows.inside {x : Except ParseError (Reading α)} {y : Nat → Run (Visit α)}
    (h : Follows list us x y) (hus : us <:+ list.tokens)
    (hshorter : ∀ r, x = .ok r → r.rest.length < us.length) :
    Inside list.marks (list.indexOf us) y := by
  cases h with
  | refused e he hy =>
      rw [TokenList.places_eq_map_marks] at he
      obtain ⟨m, hm, hposition⟩ := List.mem_map.mp he
      exact .inr ⟨e, hy, m, hm, hposition.symm⟩
  | found r hr hy =>
      exact .inl ⟨_, hy, TokenList.indexOf_lt hus (hshorter r rfl), list.indexOf_lt_length r.rest⟩

theorem inside_phrase (list : TokenList) (registry : Registry) (maxDepth : Int) (p : Phrase)
    (level : Nat) {i : Nat} (hi : i < list.marks.length) :
    Inside list.marks i fun fuel => (list.tape registry maxDepth).phrase fuel p level i := by
  obtain ⟨us, hus, rfl⟩ := TokenList.exists_indexOf hi
  exact (follows_phrase list registry maxDepth p level hus).inside hus fun r hr => length_rest_lt hr

/-- A call is followed from the index of a name in front of an opening parenthesis. -/
theorem inside_call (list : TokenList) (registry : Registry) (maxDepth : Int) (level : Nat) {i : Nat}
    (ht : list.tokens[i]? = some t) (ho : list.tokens[i + 1]? = some o) (hname : t.kind = .name)
    (hopening : o.kind = .opening) :
    Inside list.marks i fun fuel => (list.tape registry maxDepth).call fuel level i := by
  obtain ⟨hi, htoken⟩ := List.getElem?_eq_some_iff.mp ht
  obtain ⟨hsucc, hnext⟩ := List.getElem?_eq_some_iff.mp ho
  have hdrop : list.tokens.drop i = t :: o :: list.tokens.drop (i + 2) := by
    rw [List.drop_eq_getElem_cons hi, htoken, List.drop_eq_getElem_cons hsucc, hnext]
  have hsuffix : t :: o :: list.tokens.drop (i + 2) <:+ list.tokens :=
    hdrop ▸ List.drop_suffix i list.tokens
  have hindex : list.indexOf (t :: o :: list.tokens.drop (i + 2)) = i := by
    rw [← hdrop, TokenList.indexOf, List.length_drop]
    omega
  have hcall := follows_call hname hopening ((following_steps list registry maxDepth).holds _) hsuffix level
  rw [hindex] at hcall
  have hinside := hcall.inside hsuffix fun r hr => length_rest_lt hr
  rwa [hindex] at hinside

/-- **Reading by index comes to the tree that the tokens have.** -/
theorem formula_comesTo (list : TokenList) (registry : Registry) (maxDepth : Int) :
    ComesTo (list.tape registry maxDepth).formula
      (match tree ⟨registry, maxDepth, list.stop⟩ list.tokens with
        | .ok e => pure e
        | .error e => throw (.refused e)) := by
  have hsum := follows_phrase list registry maxDepth .sum 0 List.suffix_rfl
  have hstart : list.indexOf list.tokens = 0 := Nat.sub_self _
  rw [hstart] at hsum
  rw [tree_bind]
  generalize read ⟨registry, maxDepth, list.stop⟩ 0 .sum list.tokens = x at hsum ⊢
  unfold formula
  cases hsum with
  | refused e he hy => exact hy.stop
  | found r hr hy =>
      refine hy.bind ?_
      rw [look_indexOf hr, pure_bind]
      obtain ⟨found, depth, rest⟩ := r
      cases rest with
      | nil => exact .const _
      | cons u behind =>
          obtain ⟨kind, text, position⟩ := u
          cases kind <;> exact .const _

end Tape

namespace TokenList

open Tape (ComesTo Inside)

/-- The whole run comes to what parsing comes to, unless the limit on tokens is negative. -/
theorem run_comesTo (registry : Registry) {limits : Limits} (list : TokenList)
    (h : 0 ≤ limits.maxTokens) :
    (∃ e, ComesTo (list.run registry limits) (pure e) ∧ list.parse registry limits = .ok e) ∨
      ∃ e, ComesTo (list.run registry limits) (throw (.refused e)) ∧
        list.parse registry limits = .error (.formula (.parse e)) := by
  have hcount : list.marks.length - 1 = list.tokens.length := by rw [length_marks, Nat.add_sub_cancel]
  unfold run TokenList.parse
  rw [hcount]
  split
  · rename_i hmany
    obtain ⟨position, hposition⟩ := list.exists_positionAt h (by omega)
    rw [hposition]
    exact .inr ⟨_, .const _, rfl⟩
  · have hformula := Tape.formula_comesTo list registry limits.maxDepth
    generalize tree ⟨registry, limits.maxDepth, list.stop⟩ list.tokens = x at hformula ⊢
    cases x with
    | ok e => exact .inl ⟨e, hformula, rfl⟩
    | error e => exact .inr ⟨e, hformula, rfl⟩

/--
**The parser ends inside of its tokens.**  Read by index, with nothing to keep it from looking
beyond the end mark or from calling itself forever, a list of tokens still comes to its tree or to
its refusal, which stands at one of the marks.  Every procedure that is started at a mark comes to
an end as well; if it answers, it has moved on and stands in front of a mark again.  A call is
only started at a name in front of an opening parenthesis.
-/
theorem run_stays_inside (registry : Registry) (limits : Limits) (list : TokenList)
    (h : 0 ≤ limits.maxTokens) :
    ((∃ e, ComesTo (list.run registry limits) (pure e) ∧ list.parse registry limits = .ok e) ∨
      ∃ e, ComesTo (list.run registry limits) (throw (.refused e)) ∧
        list.parse registry limits = .error (.formula (.parse e)) ∧
        ∃ m ∈ list.marks, e.position = m.position) ∧
    (∀ p level i, i < list.marks.length →
      Inside list.marks i fun fuel => (list.tape registry limits.maxDepth).phrase fuel p level i) ∧
    ∀ (level i : Nat) (t o : Token), list.tokens[i]? = some t → list.tokens[i + 1]? = some o →
      t.kind = .name → o.kind = .opening →
      Inside list.marks i fun fuel => (list.tape registry limits.maxDepth).call fuel level i := by
  refine ⟨?_, fun p level i => Tape.inside_phrase list registry limits.maxDepth p level,
    fun level i t o => Tape.inside_call list registry limits.maxDepth level⟩
  rcases run_comesTo registry list h with htree | ⟨e, hrun, hparse⟩
  · exact .inl htree
  · have hplace := position_mem_places hparse
    rw [places_eq_map_marks] at hplace
    obtain ⟨m, hm, hposition⟩ := List.mem_map.mp hplace
    exact .inr ⟨e, hrun, hparse, m, hm, hposition.symm⟩

/-- The theorem for a call whose last comma has no argument behind it: the run is refused at the
parenthesis, in front of the end mark. -/
theorem run_stays_inside_comma :
    (0 : Int) ≤ ({} : Limits).maxTokens ∧
    ComesTo (run Registry.standard {} ⟨[⟨.name, "floor", 0⟩, ⟨.opening, "(", 5⟩, ⟨.name, "x", 6⟩,
      ⟨.comma, ",", 7⟩, ⟨.closing, ")", 8⟩], 9⟩) (throw (.refused (.unexpected ")" 8))) := by
  have hparse : TokenList.parse Registry.standard {} ⟨[⟨.name, "floor", 0⟩, ⟨.opening, "(", 5⟩,
      ⟨.name, "x", 6⟩, ⟨.comma, ",", 7⟩, ⟨.closing, ")", 8⟩], 9⟩ =
      .error (.formula (.parse (.unexpected ")" 8))) := by
    cbv
  have hlimit : (0 : Int) ≤ ({} : Limits).maxTokens := by decide
  refine ⟨hlimit, ?_⟩
  rcases (run_stays_inside Registry.standard {} _ hlimit).1 with ⟨e, -, he⟩ | ⟨e, hrun, he, -⟩
  · rw [hparse] at he
    cases he
  · rw [hparse] at he
    cases he
    exact hrun

end TokenList

end Scorecard
