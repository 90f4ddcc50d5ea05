/-
Which node an evaluation error is about.

An error names a place.  In a parsed tree that is the place of one node, and no other node
stands there, so the error can be traced: it is the node at which evaluation broke off.  Its
operands have values, and so has every tree to the left of the way down to it.

A node is named by its address, the children to go down to from the root.  One tree may be
equal to another one elsewhere, but its address is its own.
-/
import Scorecard.Proofs.Formula.Places
import Scorecard.Proofs.Formula.Reached

namespace Scorecard

namespace Expr

/-! ### Addresses -/

/-- The trees right below the root, from left to right. -/
def children : Expr → List Expr
  | .missing => []
  | .number _ _ => []
  | .variable _ _ => []
  | .negate operand _ => [operand]
  | .binary _ left right _ => [left, right]
  | .call _ arguments _ => arguments

/-- The tree at an address, which says which child to go down to, one after the other. -/
def subtree? : Expr → List Nat → Option Expr
  | e, [] => some e
  | e, i :: address =>
    match e.children[i]? with
    | none => none
    | some child => child.subtree? address

/-- The second address branches off to the left from the way to the first: it is that of an
earlier sibling, of the tree there or of one around it. -/
def LeftOf (address other : List Nat) : Prop :=
  ∃ above i below j, address = above ++ i :: below ∧ j < i ∧ other = above ++ [j]

theorem subtree?_cons {e child : Expr} {i : Nat} (h : e.children[i]? = some child) (address : List Nat) :
    e.subtree? (i :: address) = child.subtree? address := by
  rw [subtree?, h]

theorem exists_child {e sub : Expr} {i : Nat} {address : List Nat}
    (h : e.subtree? (i :: address) = some sub) :
    ∃ child, e.children[i]? = some child ∧ child.subtree? address = some sub := by
  rw [subtree?] at h
  split at h
  · cases h
  · rename_i child hchild
    exact ⟨child, hchild, h⟩

theorem not_leftOf_nil (other : List Nat) : ¬ LeftOf [] other := by
  rintro ⟨above, i, below, j, h, -, -⟩
  simp at h

theorem leftOf_cons {i : Nat} {address other : List Nat} : LeftOf (i :: address) other ↔
    (∃ j, j < i ∧ other = [j]) ∨ ∃ rest, LeftOf address rest ∧ other = i :: rest := by
  constructor
  · rintro ⟨above, k, below, j, haddress, hj, rfl⟩
    cases above with
    | nil =>
        cases haddress
        exact .inl ⟨j, hj, rfl⟩
    | cons first above =>
        cases haddress
        exact .inr ⟨above ++ [j], ⟨above, k, below, j, rfl, hj, rfl⟩, rfl⟩
  · rintro (⟨j, hj, rfl⟩ | ⟨rest, ⟨above, k, below, j, rfl, hj, rfl⟩, rfl⟩)
    · exact ⟨[], i, address, j, rfl, hj, rfl⟩
    · exact ⟨i :: above, k, below, j, rfl, hj, rfl⟩

/-! ### The positions in a tree -/

/-- The positions of the nodes, in source order. -/
def positions (e : Expr) : List Nat :=
  e.inOrder.filterMap position

theorem allInOrder_eq_flatMap (es : List Expr) : allInOrder es = es.flatMap inOrder := by
  induction es with
  | nil => rfl
  | cons e es ih => rw [allInOrder, List.flatMap_cons, ih]

/-- The nodes are the root and those below its children, in some order. -/
theorem inOrder_perm {e : Expr} (h : e ≠ .missing) :
    e.inOrder.Perm (e :: e.children.flatMap inOrder) := by
  cases e with
  | missing => exact absurd rfl h
  | number x place => exact .rfl
  | «variable» name place => exact .rfl
  | negate operand place => simp [inOrder, children]
  | binary op left right place =>
      simp only [inOrder, children, List.flatMap_cons, List.flatMap_nil, List.append_nil]
      exact List.perm_middle
  | call name arguments place => rw [inOrder, children, allInOrder_eq_flatMap]

theorem filterMap_position_cons (e : Expr) (es : List Expr) :
    (e :: es).filterMap position = e.position.toList ++ es.filterMap position := by
  rw [List.filterMap_cons]
  cases e.position <;> rfl

/-- So the positions are that of the root and those below its children. -/
theorem positions_perm (e : Expr) :
    e.positions.Perm (e.position.toList ++ e.children.flatMap positions) := by
  by_cases h : e = .missing
  · subst h
    exact .nil
  · have hperm := (inOrder_perm h).filterMap position
    rwa [filterMap_position_cons, List.filterMap_flatMap] at hperm

/-- What has an address is a node, or a gap. -/
theorem mem_inOrder {address : List Nat} : ∀ {e sub : Expr}, e.subtree? address = some sub →
    sub ≠ .missing → sub ∈ e.inOrder := by
  induction address with
  | nil =>
      intro e sub h hsub
      cases h
      exact (inOrder_perm hsub).mem_iff.mpr List.mem_cons_self
  | cons i address ih =>
      intro e sub h hsub
      obtain ⟨child, hchild, hbelow⟩ := exists_child h
      have hroot : e ≠ .missing := by
        rintro rfl
        cases hchild
      refine (inOrder_perm hroot).mem_iff.mpr (List.mem_cons_of_mem _ ?_)
      exact List.mem_flatMap.mpr ⟨child, List.mem_of_getElem? hchild, ih hbelow hsub⟩

theorem mem_positions {e sub : Expr} {address : List Nat} {p : Nat} (h : e.subtree? address = some sub)
    (hp : sub.position = some p) : p ∈ e.positions := by
  have hsub : sub ≠ .missing := by
    rintro rfl
    cases hp
  exact List.mem_filterMap.mpr ⟨sub, mem_inOrder h hsub, hp⟩

/-- **Where no position comes twice, it belongs to one address.** -/
theorem address_unique {address : List Nat} : ∀ {other : List Nat} {e sub twin : Expr} {p : Nat},
    e.positions.Nodup → e.subtree? address = some sub → sub.position = some p →
    e.subtree? other = some twin → twin.position = some p → other = address := by
  -- a position of the root is none of a child's, and two children share none
  have below : ∀ {e : Expr} {i : Nat} {rest : List Nat} {sub : Expr} {p : Nat}, e.positions.Nodup →
      e.subtree? (i :: rest) = some sub → sub.position = some p → e.position ≠ some p := by
    intro e i rest sub p hnodup hsub hp hroot
    obtain ⟨child, hchild, hsub⟩ := exists_child hsub
    have hparts := List.nodup_append.mp ((positions_perm e).nodup_iff.mp hnodup)
    refine hparts.2.2 p (by simp [hroot]) p ?_ rfl
    exact List.mem_flatMap.mpr ⟨child, List.mem_of_getElem? hchild, mem_positions hsub hp⟩
  induction address with
  | nil =>
      intro other e sub twin p hnodup hsub hp htwin hq
      cases hsub
      cases other with
      | nil => rfl
      | cons i rest => exact absurd hp (below hnodup htwin hq)
  | cons i address ih =>
      intro other e sub twin p hnodup hsub hp htwin hq
      cases other with
      | nil =>
          cases htwin
          exact absurd hq (below hnodup hsub hp)
      | cons j rest =>
          obtain ⟨child, hchild, hsub⟩ := exists_child hsub
          obtain ⟨sibling, hsibling, htwin⟩ := exists_child htwin
          have hchildren := (List.nodup_append.mp ((positions_perm e).nodup_iff.mp hnodup)).2.1
          obtain ⟨heach, hapart⟩ := List.nodup_flatMap.mp hchildren
          have hin : p ∈ child.positions := mem_positions hsub hp
          have hin' : p ∈ sibling.positions := mem_positions htwin hq
          rw [List.pairwise_iff_getElem] at hapart
          obtain ⟨hi, rfl⟩ := List.getElem?_eq_some_iff.mp hchild
          obtain ⟨hj, rfl⟩ := List.getElem?_eq_some_iff.mp hsibling
          rcases Nat.lt_trichotomy i j with hlt | rfl | hlt
          · exact absurd hin' (hapart i j hi hj hlt hin)
          · rw [ih (heach _ (List.getElem_mem hi)) hsub hp htwin hq]
          · exact absurd hin (hapart j i hj hi hlt hin')

/-- Each node of a parsed tree has a position, and no two of them the same. -/
theorem positions_of_parse {registry : Registry} {limits : Limits} {text : String} {e : Expr}
    (h : parse registry limits text = .ok e) :
    e.inOrder.map position = e.positions.map some ∧ e.positions.Nodup := by
  obtain ⟨list, hlist, n, hderives⟩ := exists_derives h
  have hplaces : e.inOrder.map position = list.significant.map (some ·.position) := by
    rw [← List.forall₂_eq_eq_eq, List.forall₂_map_left_iff, List.forall₂_map_right_iff]
    exact hderives.standsFor.imp fun _ _ => StandsFor.position
  have hpositions : e.positions = list.significant.map (·.position) := by
    simpa [positions, List.filterMap_map, Function.comp_def] using congrArg (List.filterMap id) hplaces
  constructor
  · rw [hplaces, hpositions, List.map_map]
    rfl
  · rw [hpositions]
    have htokens : (list.tokens.map (·.position)).Nodup :=
      (List.nodup_append.mp (TokenList.nodup_places hlist)).1
    exact htokens.sublist (List.filter_sublist.map _)

/-! ### The node that fails -/

variable {registry : Registry} {bindings : Bindings} {e sub : Expr}

/-- Every tree to the left of the address has a value. -/
def ClearTo (registry : Registry) (bindings : Bindings) (e : Expr) (address : List Nat) : Prop :=
  ∀ other left, LeftOf address other → e.subtree? other = some left →
    ∃ x, left.evaluate registry bindings = .ok x

theorem clearTo_nil (e : Expr) : ClearTo registry bindings e [] :=
  fun other _ hleft _ => absurd hleft (not_leftOf_nil other)

/-- One level further down: earlier siblings have values as well. -/
theorem ClearTo.cons {child : Expr} {i : Nat} {address : List Nat} (hchild : e.children[i]? = some child)
    (hbefore : ∀ j < i, ∀ sibling, e.children[j]? = some sibling →
      ∃ x, sibling.evaluate registry bindings = .ok x)
    (h : ClearTo registry bindings child address) : ClearTo registry bindings e (i :: address) := by
  intro other left hleft hother
  rcases leftOf_cons.mp hleft with ⟨j, hj, rfl⟩ | ⟨rest, hrest, rfl⟩
  · obtain ⟨sibling, hsibling, hself⟩ := exists_child hother
    cases hself
    exact hbefore j hj _ hsibling
  · rw [subtree?_cons hchild] at hother
    exact h rest left hrest hother

/-- Trees that have values together have one each. -/
theorem exists_value_of_evaluateAll {es : List Expr} {xs : List Float}
    (h : evaluateAll registry bindings es = .ok xs) :
    ∀ e ∈ es, ∃ x, e.evaluate registry bindings = .ok x := by
  induction es generalizing xs with
  | nil => simp
  | cons e es ih =>
      rw [evaluateAll_cons] at h
      obtain ⟨x, hx, hrest⟩ := bind_eq_ok_iff.mp h
      obtain ⟨others, hothers, -⟩ := bind_eq_ok_iff.mp hrest
      exact List.forall_mem_cons.mpr ⟨⟨x, hx⟩, ih hothers⟩

/-- What evaluation comes to has an address, and it is clear up to there. -/
theorem Reaches.exists_address (h : Reaches registry bindings e sub) :
    ∃ address, e.subtree? address = some sub ∧ ClearTo registry bindings e address := by
  induction h with
  | self e => exact ⟨[], rfl, clearTo_nil e⟩
  | operand h ih =>
      obtain ⟨address, hsub, hclear⟩ := ih
      exact ⟨0 :: address, hsub, .cons rfl (fun j hj => by omega) hclear⟩
  | left h ih =>
      obtain ⟨address, hsub, hclear⟩ := ih
      exact ⟨0 :: address, hsub, .cons rfl (fun j hj => by omega) hclear⟩
  | right hleft h ih =>
      obtain ⟨address, hsub, hclear⟩ := ih
      refine ⟨1 :: address, hsub, .cons rfl (fun j hj sibling hsibling => ?_) hclear⟩
      obtain rfl : j = 0 := by omega
      cases hsibling
      exact ⟨_, hleft⟩
  | @argument name before after e sub position function xs hkey hfound hbefore h ih =>
      obtain ⟨address, hsub, hclear⟩ := ih
      have hchild : (Expr.call name (before ++ e :: after) position).children[before.length]? = some e := by
        simp [children]
      refine ⟨before.length :: address, (subtree?_cons hchild address).trans hsub,
        .cons hchild (fun j hj sibling hsibling => ?_) hclear⟩
      rw [children, List.getElem?_append_left hj] at hsibling
      exact exists_value_of_evaluateAll hbefore sibling (List.mem_of_getElem? hsibling)

theorem position_of_finite {what : EvalError.Producer} {position : Option Nat} {x : Float}
    {refusal : EvalError} (h : finite what position x = .error (.formula (.eval refusal))) :
    refusal.position = position := by
  unfold finite at h
  split at h
  · cases h
  · cases h
    rfl

theorem position_of_variable {name : Value} {position : Option Nat} {refusal : EvalError}
    (h : evaluateVariable bindings name position = .error (.formula (.eval refusal))) :
    refusal.position = position := by
  unfold evaluateVariable at h
  split at h
  · split at h
    · cases h
      rfl
    · split at h
      · exact position_of_finite h
      · cases h
  · cases h

theorem position_of_applyOp {op : BinaryOp} {position : Option Nat} {a b : Float} {refusal : EvalError}
    (h : applyOp op position a b = .error (.formula (.eval refusal))) : refusal.position = position := by
  unfold applyOp at h
  split at h
  · cases h
    rfl
  · exact position_of_finite h

theorem position_of_applyFunction {function : Function} {name : Value} {position : Option Nat}
    {xs : List Float} {refusal : EvalError}
    (h : applyFunction function name position xs = .error (.formula (.eval refusal))) :
    refusal.position = position := by
  unfold applyFunction at h
  split at h
  · exact position_of_finite h
  · cases h
    rfl
  · cases h

/-- A node breaks with an error at its own place, and if what it calls is registered, its
children have values. -/
theorem Breaks.blame {refusal : EvalError} (h : Breaks registry bindings e (.formula (.eval refusal)))
    (hcalls : e.CallsFit registry) : refusal.position = e.position ∧
      ∀ child ∈ e.children, ∃ x, child.evaluate registry bindings = .ok x := by
  cases h with
  | number h => exact ⟨position_of_finite h, by simp [children]⟩
  | «variable» h => exact ⟨position_of_variable h, by simp [children]⟩
  | operator hleft hright h =>
      refine ⟨position_of_applyOp h, ?_⟩
      simp only [children, List.forall_mem_cons]
      exact ⟨⟨_, hleft⟩, ⟨_, hright⟩, by simp⟩
  | unregistered hkey hfound =>
      obtain ⟨⟨function, hfits, -⟩, -⟩ := hcalls
      rw [hfound] at hfits
      cases hfits
  | function hkey hfound harguments h =>
      exact ⟨position_of_applyFunction h, exists_value_of_evaluateAll harguments⟩

/--
**An evaluation error blames the first node that fails.**  It names the place of one node of the
parsed formula and of no other.  That node by itself fails with the very error, though each of
its children has a value, and so has every tree to the left of it, an earlier sibling of the node
or of one around it.
-/
theorem evaluate_blames (registry : Registry) (limits : Limits) (text : String) (bindings : Bindings)
    {e : Expr} (h : parse registry limits text = .ok e) {refusal : EvalError}
    (hrefused : e.evaluate registry bindings = .error (.formula (.eval refusal))) :
    ∃ p, refusal.position = some p ∧ ∃ address node, e.subtree? address = some node ∧
      node.position = some p ∧
      (∀ other twin, e.subtree? other = some twin → twin.position = some p → other = address) ∧
      node.evaluate registry bindings = .error (.formula (.eval refusal)) ∧
      (∀ child ∈ node.children, ∃ x, child.evaluate registry bindings = .ok x) ∧
      ∀ other left, LeftOf address other → e.subtree? other = some left →
        ∃ x, left.evaluate registry bindings = .ok x := by
  obtain ⟨node, hreaches, hbreaks⟩ := evaluate_eq_error_iff.mp hrefused
  obtain ⟨hwhole, hcalls⟩ := whole_of_parse h
  obtain ⟨hnodeWhole, hnodeCalls⟩ := hreaches.whole hwhole hcalls
  obtain ⟨hplace, hchildren⟩ := hbreaks.blame hnodeCalls
  obtain ⟨address, hnode, hclear⟩ := hreaches.exists_address
  obtain ⟨hpositions, hnodup⟩ := positions_of_parse h
  obtain ⟨p, -, hp⟩ : ∃ p ∈ e.positions, some p = node.position := by
    have hnotMissing : node ≠ .missing := by
      rintro rfl
      exact hnodeWhole
    rw [← List.mem_map, ← hpositions]
    exact List.mem_map_of_mem (mem_inOrder hnode hnotMissing)
  exact ⟨p, hplace.trans hp.symm, address, node, hnode, hp.symm,
    fun other twin htwin hq => address_unique hnodup hnode hp.symm htwin hq,
    hbreaks.evaluate, hchildren, hclear⟩

/-- The tree of `a + b / (b - b) * c`. -/
def twoFaults : Expr :=
  .binary .add (.variable (.str "a") (some 0))
    (.binary .multiply
      (.binary .divide (.variable (.str "b") (some 4))
        (.binary .subtract (.variable (.str "b") (some 9)) (.variable (.str "b") (some 13)) (some 11))
        (some 6))
      (.variable (.str "c") (some 18)) (some 16))
    (some 2)

/-- The theorem for a formula that divides by zero and has an unknown variable behind that. -/
theorem evaluate_blames_quotient :
    parse Registry.standard {} "a + b / (b - b) * c" = .ok twoFaults ∧
      twoFaults.evaluate Registry.standard [(.str "a", .float 1), (.str "b", .float 2)] =
        .error (.formula (.eval (.divisionByZero (some 6)))) ∧
      ∃ address node, twoFaults.subtree? address = some node ∧ node.position = some 6 ∧
        ∀ other left, LeftOf address other → twoFaults.subtree? other = some left →
          ∃ x, left.evaluate Registry.standard [(.str "a", .float 1), (.str "b", .float 2)] = .ok x := by
  have hparsed : parse Registry.standard {} "a + b / (b - b) * c" = .ok twoFaults := by
    cbv
  have hrefused : twoFaults.evaluate Registry.standard [(.str "a", .float 1), (.str "b", .float 2)] =
      .error (.formula (.eval (.divisionByZero (some 6)))) := by
    have hone : Binary64.isFinite 1 = true := by decide +kernel
    have htwo : Binary64.isFinite 2 = true := by decide +kernel
    have hfinite : Binary64.isFinite (2 - 2) = true := by decide +kernel
    have hzero : ((2 - 2 : Float) == 0.0) = true := by decide +kernel
    simp [twoFaults, evaluate, evaluateVariable, Value.lookup?, Value.canBeKey, finite, applyOp,
      BinaryOp.apply, failWith, hone, htwo, hfinite, hzero]
  obtain ⟨p, hp, address, node, hnode, hplace, -, -, -, hclear⟩ :=
    evaluate_blames Registry.standard {} _ _ hparsed hrefused
  cases hp
  exact ⟨hparsed, hrefused, address, node, hnode, hplace, hclear⟩

end Expr

end Scorecard
