/-
Sorting where all can be compared.

A sort takes a run from the front and puts the others in their places, each found by halving.
Nothing about a single comparison says that the places exist: values of two kinds have no order.
Where every element has a rank and is below another exactly if its rank is, no comparison fails,
the run is in order once it is turned round, and the halving keeps the place between what is not
above the element and what is.  So the result has the same elements, in the order of their ranks.

Texts are such elements, with themselves as their ranks.
-/
import Scorecard.Value.Order
import Mathlib.Data.List.InsertIdx
import Mathlib.Data.List.Sort
import Mathlib.Data.String.Basic

namespace Scorecard.Value

variable {α β : Type} [LinearOrder β] {key : α → Value} {rank : α → β} {P : α → Prop}

/-- Elements of a kind are below each other exactly if their ranks are. -/
def RanksBelow (key : α → Value) (rank : α → β) (P : α → Prop) : Prop :=
  ∀ x y, P x → P y → below? (key x) (key y) = some (decide (rank x < rank y))

/-- The ranks never go down. -/
def InOrder (rank : α → β) (items : List α) : Prop :=
  items.Pairwise fun x y => rank x ≤ rank y

/-- One element goes on behind another in a run. -/
def GoesOn (rank : α → β) (down : Bool) (x y : α) : Prop :=
  if down then rank y < rank x else rank x ≤ rank y

section

variable {x y : α} {items : List α}

theorem GoesOn.trans {down : Bool} {z : α} (hxy : GoesOn rank down x y) (hyz : GoesOn rank down y z) :
    GoesOn rank down x z := by
  cases down with
  | true => exact lt_trans hyz hxy
  | false => exact le_trans hxy hyz

theorem goesOn_iff {down : Bool} : GoesOn rank down x y ↔ decide (rank y < rank x) = down := by
  cases down <;> simp [GoesOn]

/-! ### The run at the front -/

/-- As many elements as are counted go on one after the other. -/
theorem runLength?_goesOn (hbelow : RanksBelow key rank P) (down : Bool) (hx : P x) (hitems : ∀ y ∈ items, P y) :
    ∃ n, runLength? key down x items = some n ∧ (x :: items.take n).Pairwise (GoesOn rank down) := by
  induction items generalizing x with
  | nil => exact ⟨0, rfl, List.pairwise_singleton _ x⟩
  | cons y rest ih =>
      obtain ⟨hy, hrest⟩ := List.forall_mem_cons.mp hitems
      obtain ⟨n, hn, hrun⟩ := ih hy hrest
      by_cases hgoes : GoesOn rank down x y
      · refine ⟨n + 1, ?_, ?_⟩
        · simp only [runLength?, hbelow y x hy hx, Option.bind_eq_bind, Option.bind_some, hn, beq_iff_eq,
            goesOn_iff.mp hgoes, if_true]
        · rw [List.take_succ_cons, List.pairwise_cons]
          refine ⟨List.forall_mem_cons.mpr ⟨hgoes, fun z hz => ?_⟩, hrun⟩
          exact hgoes.trans ((List.pairwise_cons.mp hrun).1 z hz)
      · refine ⟨0, ?_, List.pairwise_singleton _ x⟩
        simp only [runLength?, hbelow y x hy hx, Option.bind_eq_bind, Option.bind_some, beq_iff_eq,
          mt goesOn_iff.mpr hgoes, if_false]

/-- The run is in order, and nothing is lost. -/
theorem frontRun?_inOrder (hbelow : RanksBelow key rank P) (hitems : ∀ x ∈ items, P x) :
    ∃ run others, frontRun? key items = some (run, others) ∧ InOrder rank run ∧ (run ++ others).Perm items := by
  match items, hitems with
  | [], _ => exact ⟨[], [], rfl, .nil, .nil⟩
  | [x], _ => exact ⟨[x], [], rfl, List.pairwise_singleton _ x, .refl _⟩
  | x :: y :: rest, hitems =>
      rw [List.forall_mem_cons, List.forall_mem_cons] at hitems
      obtain ⟨hx, hy, hrest⟩ := hitems
      have hgoes : GoesOn rank (decide (rank y < rank x)) x y := goesOn_iff.mpr rfl
      generalize hdown : decide (rank y < rank x) = down at hgoes
      obtain ⟨n, hn, hrun⟩ := runLength?_goesOn hbelow down hy hrest
      have hpairwise : (x :: y :: rest.take n).Pairwise (GoesOn rank down) := by
        refine List.pairwise_cons.mpr ⟨List.forall_mem_cons.mpr ⟨hgoes, fun z hz => ?_⟩, hrun⟩
        exact hgoes.trans ((List.pairwise_cons.mp hrun).1 z hz)
      have hfront : frontRun? key (x :: y :: rest) = some
          (if down then (x :: y :: rest.take n).reverse else x :: y :: rest.take n, rest.drop n) := by
        simp only [frontRun?, hbelow y x hy hx, hdown, Option.bind_eq_bind, Option.bind_some, hn,
          List.splitAt_eq, List.take_succ_cons, List.drop_succ_cons]
      have hall : (x :: y :: rest.take n) ++ rest.drop n = x :: y :: rest := by simp
      refine ⟨_, _, hfront, ?_, ?_⟩
      · cases down with
        | true => exact List.pairwise_reverse.mpr (hpairwise.imp fun h => le_of_lt h)
        | false => exact hpairwise
      · cases down with
        | true => exact ((List.reverse_perm _).append_right _).trans (.of_eq hall)
        | false => exact .of_eq hall

end

/-! ### The place of an element -/

/-- What stands in front of the place is not above the element, and what stands behind it is. -/
structure Fits (rank : α → β) (sorted : Array α) (x : α) (low high : Nat) : Prop where
  bounds : low ≤ high ∧ high ≤ sorted.size
  front : ∀ i y, sorted[i]? = some y → i < low → rank y ≤ rank x
  behind : ∀ i y, sorted[i]? = some y → high ≤ i → rank x < rank y

variable {sorted : Array α} {x : α}

/-- In order, an earlier element has no higher rank than a later one. -/
theorem InOrder.rank_le (horder : InOrder rank sorted.toList) {i j : Nat} {y z : α} (hy : sorted[i]? = some y)
    (hz : sorted[j]? = some z) (hle : i ≤ j) : rank y ≤ rank z := by
  obtain ⟨hi, rfl⟩ := Array.getElem?_eq_some_iff.mp hy
  obtain ⟨hj, rfl⟩ := Array.getElem?_eq_some_iff.mp hz
  rcases hle.lt_or_eq with hlt | rfl
  · exact List.pairwise_iff_getElem.mp horder i j (by simpa using hi) (by simpa using hj) hlt
  · exact le_rfl

/-- Halving keeps the place between the two, and ends at it. -/
theorem placeBetween?_fits (hbelow : RanksBelow key rank P) (hx : P x) (hall : ∀ y ∈ sorted, P y)
    (horder : InOrder rank sorted.toList) {low high : Nat} (h : Fits rank sorted x low high) :
    ∃ place, placeBetween? key sorted x low high = some place ∧ Fits rank sorted x place place := by
  induction hwidth : high - low using Nat.strong_induction_on generalizing low high with
  | _ width ih =>
      obtain ⟨⟨hle, hhigh⟩, hfront, hbehind⟩ := h
      rw [placeBetween?.eq_def]
      by_cases hlt : low < high
      · have hmiddle : (low + high) / 2 < sorted.size := by omega
        have hfound := Array.getElem?_eq_getElem hmiddle
        generalize sorted[(low + high) / 2] = y at hfound
        have hy : P y := hall y (Array.mem_of_getElem? hfound)
        rw [if_pos hlt]
        simp only [hfound, hbelow x y hx hy, Option.bind_eq_bind, Option.bind_some]
        by_cases hxy : rank x < rank y
        · rw [if_pos (decide_eq_true hxy)]
          refine ih _ (by omega) ⟨⟨by omega, by omega⟩, hfront, fun i z hz hi => ?_⟩ rfl
          exact hxy.trans_le (horder.rank_le hfound hz hi)
        · rw [if_neg (by simpa using hxy)]
          refine ih _ (by omega) ⟨⟨by omega, by omega⟩, fun i z hz hi => ?_, hbehind⟩ rfl
          exact (horder.rank_le hz hfound (by omega)).trans (not_lt.mp hxy)
      · obtain rfl : low = high := by omega
        rw [if_neg hlt]
        exact ⟨low, rfl, ⟨le_rfl, hhigh⟩, hfront, hbehind⟩

/-- An element that fits leaves the list in order. -/
theorem pairwise_insertIdx {items : List α} {place : Nat} (horder : InOrder rank items)
    (hfront : ∀ i y, items[i]? = some y → i < place → rank y ≤ rank x)
    (hbehind : ∀ i y, items[i]? = some y → place ≤ i → rank x ≤ rank y) :
    InOrder rank (items.insertIdx place x) := by
  induction items generalizing place with
  | nil =>
      cases place with
      | zero => exact List.pairwise_singleton _ x
      | succ place => exact .nil
  | cons y rest ih =>
      obtain ⟨hy, hrest⟩ := List.pairwise_cons.mp horder
      cases place with
      | zero =>
          refine List.pairwise_cons.mpr ⟨fun z hz => ?_, horder⟩
          obtain ⟨i, hi⟩ := List.mem_iff_getElem?.mp hz
          exact hbehind i z hi (Nat.zero_le i)
      | succ place =>
          rw [List.insertIdx_succ_cons]
          refine List.pairwise_cons.mpr ⟨fun z hz => ?_, ih hrest ?_ ?_⟩
          · rcases List.eq_or_mem_of_mem_insertIdx hz with rfl | hmem
            · exact hfront 0 y rfl (Nat.succ_pos place)
            · exact hy z hmem
          · intro i z hz hi
            exact hfront (i + 1) z hz (by omega)
          · intro i z hz hi
            exact hbehind (i + 1) z hz (by omega)

/-- An element is put in its place. -/
theorem insertSorted?_inOrder (hbelow : RanksBelow key rank P) (hx : P x) (hall : ∀ y ∈ sorted, P y)
    (horder : InOrder rank sorted.toList) :
    ∃ after, insertSorted? key sorted x = some after ∧ InOrder rank after.toList ∧
      after.toList.Perm (x :: sorted.toList) := by
  have hwhole : Fits rank sorted x 0 sorted.size := by
    refine ⟨⟨Nat.zero_le _, le_rfl⟩, fun i y _ hi => absurd hi (Nat.not_lt_zero i), fun i y hy hi => ?_⟩
    rw [Array.getElem?_eq_none hi] at hy
    cases hy
  obtain ⟨place, hplace, ⟨-, hsize⟩, hfront, hbehind⟩ := placeBetween?_fits hbelow hx hall horder hwhole
  have hinsert : (sorted.insertIdxIfInBounds place x).toList = sorted.toList.insertIdx place x := by
    obtain ⟨items⟩ := sorted
    rw [List.insertIdxIfInBounds_toArray]
  refine ⟨sorted.insertIdxIfInBounds place x, ?_, ?_, ?_⟩
  · simp only [insertSorted?, hplace, Option.bind_eq_bind, Option.bind_some]
  · rw [hinsert]
    refine pairwise_insertIdx horder (fun i y hy hi => hfront i y (by simpa using hy) hi) fun i y hy hi => ?_
    exact (hbehind i y (by simpa using hy) hi).le
  · rw [hinsert]
    exact List.perm_insertIdx x sorted.toList (by simpa using hsize)

/-! ### Sorting -/

/-- The others are put in their places one after the other. -/
theorem foldlM_insertSorted? (hbelow : RanksBelow key rank P) {others : List α} (hothers : ∀ y ∈ others, P y)
    (hall : ∀ y ∈ sorted, P y) (horder : InOrder rank sorted.toList) :
    ∃ after, others.foldlM (insertSorted? key) sorted = some after ∧ InOrder rank after.toList ∧
      after.toList.Perm (sorted.toList ++ others) := by
  induction others generalizing sorted with
  | nil => exact ⟨sorted, rfl, horder, by simp⟩
  | cons x rest ih =>
      obtain ⟨hx, hrest⟩ := List.forall_mem_cons.mp hothers
      obtain ⟨next, hnext, hnextOrder, hnextPerm⟩ := insertSorted?_inOrder hbelow hx hall horder
      have hnextAll : ∀ y ∈ next, P y := by
        intro y hy
        rcases List.mem_cons.mp (hnextPerm.mem_iff.mp (by simpa using hy)) with rfl | hmem
        · exact hx
        · exact hall y (by simpa using hmem)
      obtain ⟨after, hafter, hafterOrder, hafterPerm⟩ := ih hrest hnextAll hnextOrder
      refine ⟨after, ?_, hafterOrder, ?_⟩
      · simp only [List.foldlM_cons, hnext, Option.bind_eq_bind, Option.bind_some, hafter]
      · exact hafterPerm.trans ((hnextPerm.append_right rest).trans List.perm_middle.symm)

/-- **Where all can be compared, sorting puts all of them in order.** -/
theorem sortBy?_inOrder (hbelow : RanksBelow key rank P) {items : List α} (hitems : ∀ x ∈ items, P x) :
    ∃ sorted, sortBy? key items = some sorted ∧ InOrder rank sorted ∧ sorted.Perm items := by
  obtain ⟨run, others, hfront, horder, hperm⟩ := frontRun?_inOrder hbelow hitems
  have hmem : ∀ y ∈ run ++ others, P y := fun y hy => hitems y (hperm.mem_iff.mp hy)
  rw [List.forall_mem_append] at hmem
  obtain ⟨after, hafter, hafterOrder, hafterPerm⟩ :=
    foldlM_insertSorted? hbelow hmem.2 (by simpa using hmem.1 : ∀ y ∈ run.toArray, P y) horder
  refine ⟨after.toList, ?_, hafterOrder, hafterPerm.trans hperm⟩
  simp only [sortBy?, hfront, Option.bind_eq_bind, Option.bind_some, hafter]

/-! ### Texts -/

/-- The text of an entry's key. -/
def keyRank {γ : Type} (e : Value × γ) : String :=
  match e.1 with
  | .str s => s
  | _ => ""

theorem ranksBelow_text {γ : Type} :
    RanksBelow (fun e : Value × γ => e.1) keyRank fun e => ∃ s, e.1 = .str s := by
  rintro ⟨_, _⟩ ⟨_, _⟩ ⟨s, rfl⟩ ⟨t, rfl⟩
  exact congrArg some (decide_eq_decide.mpr Iff.rfl)

end Scorecard.Value
