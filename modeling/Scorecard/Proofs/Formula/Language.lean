/-
The language of the parser.

Soundness and completeness together: a formula parses exactly when its tokens are
few enough and derive from the grammar, with a nesting and a tree that stay within
the limit on depth, and with calls that fit the registry.  The tree of the derivation
is the one that comes out, places included, so no two trees can be derived within
the same limits from the same tokens.

The limit on depth must admit a single leaf, because leaves are never checked.
-/
import Scorecard.Proofs.Formula.Completeness

namespace Scorecard

namespace Parser

variable {ctx : Context} {tokens : List Token} {e : Expr}

/-- A whole formula read from its tokens leaves none behind. -/
theorem tree_eq_ok_iff_read :
    tree ctx tokens = .ok e ↔ ∃ depth, read ctx 0 .sum tokens = .ok ⟨e, depth, []⟩ := by
  rw [tree_eq]
  constructor
  · intro h
    split at h
    · cases h
    · rename_i r hr
      obtain ⟨found, depth, rest⟩ := r
      split at h
      · rename_i hrest
        cases h
        obtain rfl : rest = [] := hrest
        exact ⟨depth, hr⟩
      · cases h
      · cases h
  · rintro ⟨depth, hr⟩
    rw [hr]

theorem tree_eq_ok_iff (hmax : 1 ≤ ctx.maxDepth) :
    tree ctx tokens = .ok e ↔
      (∃ n : Nat, Derives .sum tokens e n ∧ (n : Int) ≤ ctx.maxDepth) ∧ e.CallsFit ctx.registry ∧
        (e.depth : Int) ≤ ctx.maxDepth := by
  rw [tree_eq_ok_iff_read]
  constructor
  · rintro ⟨depth, hr⟩
    obtain ⟨front, n, hfront, hd, hw⟩ := (sound hmax tokens).phrase _ _ _ hr
    obtain rfl : tokens = front := by simpa using hfront
    refine ⟨⟨n, hd, ?_⟩, hw.calls, hw.shallow⟩
    rcases hw.room with hzero | hroom
    · omega
    · simpa using hroom
  · rintro ⟨⟨n, hd, hn⟩, hcalls, hdepth⟩
    have hread := hd.accepts 0 [] (.inr (by simpa using hn)) hdepth hcalls .nil
    rw [List.append_nil, readRest_nil] at hread
    exact ⟨e.depth, hread⟩

end Parser

namespace TokenList

/-- The tokens are a formula that the registry and the limits admit, with this tree. -/
structure Admits (registry : Registry) (limits : Limits) (tokens : List Token) (e : Expr) : Prop where
  /-- There are not too many tokens. -/
  few : (tokens.length : Int) ≤ limits.maxTokens
  /-- They derive, and no construct stands inside of too many others. -/
  derives : ∃ n : Nat, Derives .sum tokens e n ∧ (n : Int) ≤ limits.maxDepth
  /-- Every function is known and has its number of arguments. -/
  calls : e.CallsFit registry
  /-- The tree is not too deep. -/
  shallow : (e.depth : Int) ≤ limits.maxDepth

theorem parse_eq_ok_iff {registry : Registry} {limits : Limits} (hmax : 1 ≤ limits.maxDepth)
    {list : TokenList} {e : Expr} :
    list.parse registry limits = .ok e ↔ Admits registry limits list.tokens e := by
  have htree : Parser.tree ⟨registry, limits.maxDepth, list.stop⟩ list.tokens = .ok e ↔ _ :=
    Parser.tree_eq_ok_iff hmax
  unfold TokenList.parse
  constructor
  · intro h
    split at h
    · split at h <;> cases h
    · rename_i hfew
      split at h
      · rename_i tree hparsed
        cases h
        obtain ⟨hderives, hcalls, hshallow⟩ := htree.mp hparsed
        exact ⟨by omega, hderives, hcalls, hshallow⟩
      · cases h
  · intro h
    rw [if_neg (by have := h.few; omega), htree.mpr ⟨h.derives, h.calls, h.shallow⟩]

/--
**The parser accepts exactly its grammar**, and there is only one way to read a
formula.
-/
theorem parse_eq_ok_iff_admits (registry : Registry) (limits : Limits) (hmax : 1 ≤ limits.maxDepth)
    (list : TokenList) :
    (∀ e, list.parse registry limits = .ok e ↔ Admits registry limits list.tokens e) ∧
      ∀ e f, Admits registry limits list.tokens e → Admits registry limits list.tokens f → e = f := by
  refine ⟨fun e => parse_eq_ok_iff hmax, fun e f he hf => ?_⟩
  have hsame := ((parse_eq_ok_iff hmax).mpr he).symm.trans ((parse_eq_ok_iff hmax).mpr hf)
  cases hsame
  rfl

/-- The theorem where both limits are just met: five tokens, and a tree of three levels
that leans to the left. -/
theorem parse_differences_at_limits :
    (1 : Int) ≤ 3 ∧
      TokenList.parse Registry.standard ⟨3, 5⟩
          ⟨[⟨.name, "x", 0⟩, ⟨.minus, "-", 2⟩, ⟨.name, "y", 4⟩, ⟨.minus, "-", 6⟩, ⟨.name, "z", 8⟩], 9⟩ =
        .ok (.binary .subtract
          (.binary .subtract (.variable (.str "x") (some 0)) (.variable (.str "y") (some 4)) (some 2))
          (.variable (.str "z") (some 8)) (some 6)) := by
  refine ⟨by decide, ((parse_eq_ok_iff_admits Registry.standard ⟨3, 5⟩ (by decide) _).1 _).mpr ?_⟩
  have hname : ∀ (text : String) (position : Nat),
      Derives .factor [⟨.name, text, position⟩] (.variable (.str text) (some position)) 0 :=
    fun text position => .primary (.variable rfl)
  have hminus : ∀ position, (⟨.minus, "-", position⟩ : Token).kind = BinaryOp.subtract.kind :=
    fun _ => rfl
  have hleft : Derives BinaryOp.subtract.phrase _ _ 0 := .product (.factor (hname "x" 0))
  have hinner := hleft.binary (hminus 2) (.factor (hname "y" 4))
  have houter := hinner.binary (hminus 6) (.factor (hname "z" 8))
  exact ⟨by decide, ⟨0, houter, by decide⟩, ⟨⟨trivial, trivial⟩, trivial⟩, by decide⟩

end TokenList

end Scorecard
