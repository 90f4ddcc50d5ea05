/-
Extending a registry.

Functions are added one after the other, each in the place of its namesake or at the end.
So a name stands for the function that was added last under it, and where none was, for the
one that it stood for before.

A formula that calls none of the added functions cannot tell: it is read and evaluated as
before.  A variable may well be named like one of them.
-/
import Mathlib
import Scorecard.Proofs.Formula.Lookups

namespace Scorecard

namespace Registry

/-! ### Looking up an added function -/

theorem find_put (f : Function) (fs : List Function) (name : String) :
    (put f fs).find? (·.name == name) =
      if f.name = name then some f else fs.find? (·.name == name) := by
  induction fs with
  | nil => by_cases hname : f.name = name <;> simp [put, hname]
  | cons g rest ih =>
      rw [put]
      by_cases hplace : g.name = f.name
      · -- the old function is under another name than the one looked up, or it is the new one
        rw [if_pos (beq_iff_eq.mpr hplace)]
        by_cases hname : f.name = name
        · simp [hname]
        · simp [hplace, hname]
      · rw [if_neg (by simpa using hplace)]
        by_cases hother : g.name = name
        · simp [hother, Ne.symm (hother ▸ hplace)]
        · simp [hother, ih]

theorem find_insert {r r' : Registry} {f : Function} (h : r.insert f = .ok r') (name : String) :
    r'.find? name = if f.name = name then some f else r.find? name := by
  unfold insert at h
  split at h
  · cases h
  · cases h
    exact find_put f r.functions name

/-- A name stands for what was added last under it, or for what it stood for. -/
theorem find_extend {r r' : Registry} {added : List Function} (h : r.extend added = .ok r')
    (name : String) : r'.find? name = (added.reverse.find? (·.name == name)).or (r.find? name) := by
  induction added generalizing r with
  | nil =>
      cases h
      rfl
  | cons f fs ih =>
      rw [extend, List.foldlM_cons] at h
      obtain ⟨first, hfirst, hothers⟩ := bind_eq_ok_iff.mp h
      rw [ih hothers, find_insert hfirst, List.reverse_cons, List.find?_append, Option.or_assoc]
      by_cases hname : f.name = name <;> simp [hname]

/-- Only a negative number of arguments is refused. -/
theorem exists_extend {added : List Function} (hadded : ∀ f ∈ added, 0 ≤ f.arity) (r : Registry) :
    ∃ r', r.extend added = .ok r' := by
  induction added generalizing r with
  | nil => exact ⟨r, rfl⟩
  | cons f fs ih =>
      rw [List.forall_mem_cons] at hadded
      obtain ⟨r', hr'⟩ := ih hadded.2 ⟨put f r.functions⟩
      refine ⟨r', ?_⟩
      rw [extend, List.foldlM_cons, insert, if_neg (by omega)]
      exact hr'

/-- The registries agree on tokens that call no added function. -/
theorem agreeOn_extend {r r' : Registry} {added : List Function} {tokens : List Token}
    (h : r.extend added = .ok r') (huncalled : ∀ f ∈ added, ¬ Token.Calls tokens f.name) :
    r'.AgreeOn r tokens := by
  intro name hname
  have hnone : added.reverse.find? (·.name == name) = none := by
    rw [List.find?_eq_none]
    intro f hf hsame
    have hadded : f ∈ added := List.mem_reverse.mp hf
    exact huncalled f hadded ((beq_iff_eq.mp hsame) ▸ hname)
  rw [find_extend h, hnone, Option.none_or]

/-! ### Formulas that call no added function -/

/--
**Extending a registry is conservative.**  Where no name in front of an opening parenthesis is
that of an added function, the text is read as before, to the places of the tree and the words
of an error, and whatever its variables are bound to, the tree is evaluated as before.
-/
theorem extend_conservative (r : Registry) (added : List Function) (limits : Limits) (text : String)
    (hadded : ∀ f ∈ added, 0 ≤ f.arity)
    (huncalled : ∀ list, TokenList.ofText text = .ok list →
      ∀ f ∈ added, ¬ Token.Calls list.tokens f.name) :
    ∃ r', r.extend added = .ok r' ∧ Expr.parse r' limits text = Expr.parse r limits text ∧
      ∀ tree, Expr.parse r limits text = .ok tree → ∀ bindings : Bindings,
        tree.evaluate r' bindings = tree.evaluate r bindings := by
  obtain ⟨r', hextend⟩ := exists_extend hadded r
  have hagree : ∀ list, TokenList.ofText text = .ok list → r'.AgreeOn r list.tokens :=
    fun list hlist => agreeOn_extend hextend (huncalled list hlist)
  refine ⟨r', hextend, Expr.parse_congr hagree limits, fun tree htree bindings => ?_⟩
  obtain ⟨list, hlist, n, hderives⟩ := Expr.exists_derives htree
  exact Expr.evaluate_congr tree ((hagree list hlist).findNamed hderives.callsAll) fun _ _ => rfl

/-- The theorem for a formula that calls one function and has a variable named like an added
one. -/
theorem extend_conservative_product :
    ∃ r', standard.extend [⟨"x", 1, Rule.unary fun x => x⟩] = .ok r' ∧
      ∃ tree, Expr.parse standard {} "x * floor(x)" = .ok tree ∧
        Expr.parse r' {} "x * floor(x)" = .ok tree ∧
        ∀ bindings : Bindings, tree.evaluate r' bindings = tree.evaluate standard bindings := by
  have hparsed : Expr.parse standard {} "x * floor(x)" = .ok (.binary .multiply
      (.variable (.str "x") (some 0)) (.call (.str "floor") [.variable (.str "x") (some 10)] (some 4))
      (some 2)) := by
    cbv
  have hlexes : TokenList.ofText "x * floor(x)" = .ok ⟨[⟨.name, "x", 0⟩, ⟨.star, "*", 2⟩,
      ⟨.name, "floor", 4⟩, ⟨.opening, "(", 9⟩, ⟨.name, "x", 10⟩, ⟨.closing, ")", 11⟩], 12⟩ := by
    cbv
  obtain ⟨r', hextend, hparse, hevaluate⟩ := extend_conservative standard
    [⟨"x", 1, Rule.unary fun x => x⟩] {} "x * floor(x)" (by simp) fun list hlist f hf hcalls => by
      rw [hlexes] at hlist
      cases hlist
      obtain rfl := List.mem_singleton.mp hf
      simp at hcalls
  exact ⟨r', hextend, _, hparsed, hparse.trans hparsed, hevaluate _ hparsed⟩

end Registry

end Scorecard
