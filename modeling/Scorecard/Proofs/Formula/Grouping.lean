/-
Registries built step by step.

A registry can be extended over and over, or made at once of all the functions.  It comes to the
same, although a registry that is extended is one where namesakes were already replaced: a function
that was replaced had its place taken, and the later one stands where it would have stood.  So a
registry is as good as the functions it was made of, and making it anew changes nothing.

Of functions under one name the first gives the place and the last one the meaning.  The first
function that takes a negative number of arguments is the one that is complained about.  Registries
are values: whatever they are extended to, and whatever is refused, they stay what they are.
-/
import Scorecard.Proofs.Formula.Extension
import Scorecard.Proofs.Value.Texts

namespace Scorecard

namespace Registry

variable {r r' base : Registry} {f : Function} {fs added before after : List Function}

/-! ### Places -/

/-- A function takes the place of its namesake, or the last. -/
theorem names_put (f : Function) (fs : List Function) : (put f fs).map (·.name) =
    if f.name ∈ fs.map (·.name) then fs.map (·.name) else fs.map (·.name) ++ [f.name] := by
  induction fs with
  | nil => rfl
  | cons g rest ih =>
      rw [put]
      by_cases hplace : g.name = f.name
      · simp [hplace]
      · rw [if_neg (by simpa using hplace), List.map_cons, ih, List.map_cons]
        by_cases hrest : f.name ∈ rest.map (·.name)
        · rw [if_pos hrest, if_pos (List.mem_cons_of_mem _ hrest)]
        · rw [if_neg hrest, if_neg (by simp only [List.mem_cons, not_or]; exact ⟨Ne.symm hplace, hrest⟩)]
          rfl

/-- A function without a namesake comes last. -/
theorem put_of_not_mem (h : f.name ∉ fs.map (·.name)) : put f fs = fs ++ [f] := by
  induction fs with
  | nil => rfl
  | cons g rest ih =>
      rw [List.map_cons, List.mem_cons, not_or] at h
      rw [put, if_neg (by simpa using Ne.symm h.1), ih h.2, List.cons_append]

theorem mem_of_mem_put {g : Function} (h : g ∈ put f fs) : g = f ∨ g ∈ fs := by
  induction fs with
  | nil => exact .inl (List.mem_singleton.mp h)
  | cons e rest ih =>
      rw [put] at h
      split at h
      · exact (List.mem_cons.mp h).imp_right (List.mem_cons_of_mem _)
      · rcases List.mem_cons.mp h with rfl | h
        · exact .inr List.mem_cons_self
        · exact (ih h).imp_right (List.mem_cons_of_mem _)

/-! ### Steps -/

theorem insert_eq_ok_iff : r.insert f = .ok r' ↔ 0 ≤ f.arity ∧ r' = ⟨put f r.functions⟩ := by
  unfold insert
  by_cases harity : f.arity < 0
  · simp [harity]
  · rw [if_neg harity]
    simp [Int.not_lt.mp harity, eq_comm]

/-- Two groups are added one after the other. -/
theorem extend_append (r : Registry) (fs gs : List Function) :
    r.extend (fs ++ gs) = r.extend fs >>= fun r' => r'.extend gs :=
  List.foldlM_append

theorem extend_singleton (r : Registry) (f : Function) : r.extend [f] = r.insert f := by
  rw [extend, List.foldlM_cons]
  cases r.insert f <;> rfl

/-- The first function with a negative number of arguments is refused. -/
theorem extend_of_negative (hbefore : ∀ g ∈ before, 0 ≤ g.arity) (hf : f.arity < 0) (r : Registry)
    (after : List Function) : r.extend (before ++ f :: after) = .error (.negativeArity f.name) := by
  obtain ⟨r', hr'⟩ := exists_extend hbefore r
  have hrefused : r'.insert f = .error (.negativeArity f.name) := by
    rw [insert, if_pos hf]
  rw [extend_append, hr']
  show r'.extend (f :: after) = _
  rw [extend, List.foldlM_cons, hrefused]
  rfl

/-- **Groups of functions are added as one group is.** -/
theorem foldlM_extend (r : Registry) (groups : List (List Function)) :
    groups.foldlM extend r = r.extend groups.flatten := by
  induction groups generalizing r with
  | nil => rfl
  | cons fs groups ih =>
      rw [List.foldlM_cons, List.flatten_cons, extend_append]
      exact congrArg _ (funext ih)

/-! ### Registries that are made anew -/

/-- No two functions are namesakes, and none takes a negative number of arguments. -/
structure WellFormed (r : Registry) : Prop where
  nodup : r.names.Nodup
  arity : ∀ f ∈ r.functions, 0 ≤ f.arity

namespace WellFormed

theorem empty : WellFormed empty :=
  ⟨List.nodup_nil, nofun⟩

theorem insert (hr : r.WellFormed) (h : r.insert f = .ok r') : r'.WellFormed := by
  obtain ⟨harity, rfl⟩ := insert_eq_ok_iff.mp h
  refine ⟨?_, fun g hg => ?_⟩
  · rw [names, names_put]
    split
    · exact hr.nodup
    · exact hr.nodup.append (List.nodup_singleton _) (by simpa using ‹_›)
  · rcases mem_of_mem_put hg with rfl | hg
    · exact harity
    · exact hr.arity g hg

theorem extend (hr : r.WellFormed) (h : r.extend fs = .ok r') : r'.WellFormed := by
  induction fs generalizing r with
  | nil =>
      cases h
      exact hr
  | cons f fs ih =>
      rw [Registry.extend, List.foldlM_cons] at h
      obtain ⟨first, hfirst, hothers⟩ := bind_eq_ok_iff.mp h
      exact ih (hr.insert hfirst) hothers

theorem ofList (h : ofList fs = .ok r) : r.WellFormed :=
  empty.extend h

/-- **What a registry holds makes that registry again.** -/
theorem ofList_functions (hr : r.WellFormed) : Registry.ofList r.functions = .ok r := by
  obtain ⟨functions⟩ := r
  induction functions using List.reverseRecOn with
  | nil => rfl
  | append_singleton fs f ih =>
      have hnames : (fs.map (·.name) ++ [f.name]).Nodup := by simpa [names] using hr.nodup
      have hfs : WellFormed ⟨fs⟩ :=
        ⟨hnames.of_append_left, fun g hg => hr.arity g (List.mem_append_left _ hg)⟩
      have hnew : f.name ∉ fs.map (·.name) := by simpa using List.disjoint_of_nodup_append hnames
      have harity : 0 ≤ f.arity := hr.arity f (by simp)
      have hinsert : Registry.insert ⟨fs⟩ f = .ok ⟨fs ++ [f]⟩ :=
        insert_eq_ok_iff.mpr ⟨harity, by rw [put_of_not_mem hnew]⟩
      rw [Registry.ofList, extend_append, ← Registry.ofList, ih hfs]
      exact (extend_singleton _ f).trans hinsert

/-- **Extending a registry is making one anew**, of what it holds and what is added. -/
theorem extend_eq_ofList (hr : r.WellFormed) (added : List Function) :
    r.extend added = Registry.ofList (r.functions ++ added) := by
  rw [Registry.ofList, extend_append, ← Registry.ofList, hr.ofList_functions]
  rfl

end WellFormed

/-! ### What is found under a name -/

/-- Each name is there once, where it came first. -/
theorem names_ofList (h : ofList fs = .ok r) : r.names = (fs.map (·.name)).eraseDups := by
  induction fs using List.reverseRecOn generalizing r with
  | nil =>
      cases h
      rfl
  | append_singleton fs f ih =>
      rw [ofList, extend_append] at h
      obtain ⟨r', hr', hf⟩ := bind_eq_ok_iff.mp h
      obtain ⟨-, rfl⟩ := insert_eq_ok_iff.mp ((extend_singleton r' f).symm.trans hf)
      have hnames : r'.functions.map (·.name) = (fs.map (·.name)).eraseDups := ih hr'
      rw [names, names_put, hnames, List.map_append, List.map_singleton, Value.eraseDups_concat]
      simp only [List.mem_eraseDups]

/-- Each name stands for what came last under it. -/
theorem find_ofList (h : ofList fs = .ok r) (name : String) :
    r.find? name = fs.reverse.find? (·.name == name) := by
  rw [find_extend h]
  exact Option.or_none

/-! ### Groups -/

/-- The registry made anew, of what it holds and what is added. -/
def anew (r : Registry) (added : List Function) : Except Fault Registry :=
  ofList (r.functions ++ added)

/-- It makes no difference whether every group makes the registry anew. -/
theorem foldlM_anew (hr : r.WellFormed) (groups : List (List Function)) :
    groups.foldlM anew r = groups.foldlM extend r := by
  induction groups generalizing r with
  | nil => rfl
  | cons fs groups ih =>
      rw [List.foldlM_cons, List.foldlM_cons, anew, ← hr.extend_eq_ofList]
      cases h : r.extend fs with
      | error fault => rfl
      | ok r' => exact ih (hr.extend h)

/--
**A registry does not depend on how its functions were grouped.**  Groups that are added to a
registry one after the other, each to what it holds or to the registry made anew, come to what one
group comes to, and to what is made of all functions at once: each name once, where it came first,
and it stands for what came last under it.  Where a function takes a negative number of arguments,
the groups before it come to a registry, and the group with the first such function is refused in
its name.
-/
theorem extend_in_groups {functions : List Function} (hbase : ofList functions = .ok base) :
    (∀ groups : List (List Function), (∀ fs ∈ groups, ∀ f ∈ fs, 0 ≤ f.arity) →
      ∃ r, groups.foldlM extend base = .ok r ∧ groups.foldlM anew base = .ok r ∧
        base.extend groups.flatten = .ok r ∧ ofList (base.functions ++ groups.flatten) = .ok r ∧
        r.names = ((base.functions ++ groups.flatten).map (·.name)).eraseDups ∧
        r.functions.length = ((base.functions ++ groups.flatten).map (·.name)).eraseDups.length ∧
        ∀ name, r.find? name = (base.functions ++ groups.flatten).reverse.find? (·.name == name)) ∧
    ∀ (groups others : List (List Function)) (before after : List Function) (f : Function),
      (∀ fs ∈ groups, ∀ g ∈ fs, 0 ≤ g.arity) → (∀ g ∈ before, 0 ≤ g.arity) → f.arity < 0 →
      ∃ r, groups.foldlM extend base = .ok r ∧
        r.extend (before ++ f :: after) = .error (.negativeArity f.name) ∧
        r.anew (before ++ f :: after) = .error (.negativeArity f.name) ∧
        (groups ++ (before ++ f :: after) :: others).foldlM extend base = .error (.negativeArity f.name) := by
  have hwell := WellFormed.ofList hbase
  have hbuilt : ∀ groups : List (List Function), (∀ fs ∈ groups, ∀ f ∈ fs, 0 ≤ f.arity) →
      ∃ r, groups.foldlM extend base = .ok r ∧ base.extend groups.flatten = .ok r := by
    intro groups hgroups
    obtain ⟨r, hr⟩ := exists_extend (List.forall_mem_flatten.mpr hgroups) base
    exact ⟨r, (foldlM_extend base groups).trans hr, hr⟩
  refine ⟨fun groups hgroups => ?_, fun groups others before after f hgroups hbefore hf => ?_⟩
  · obtain ⟨r, hfold, hr⟩ := hbuilt groups hgroups
    have hlist : ofList (base.functions ++ groups.flatten) = .ok r :=
      (hwell.extend_eq_ofList groups.flatten).symm.trans hr
    have hnames := names_ofList hlist
    refine ⟨r, hfold, (foldlM_anew hwell groups).trans hfold, hr, hlist, hnames, ?_, find_ofList hlist⟩
    rw [← hnames, names, List.length_map]
  · obtain ⟨r, hfold, hr⟩ := hbuilt groups hgroups
    have hrefused := extend_of_negative hbefore hf r after
    refine ⟨r, hfold, hrefused, ((hwell.extend hr).extend_eq_ofList _).symm.trans hrefused, ?_⟩
    rw [List.foldlM_append, hfold]
    show ((before ++ f :: after) :: others).foldlM extend r = _
    rw [List.foldlM_cons, hrefused]
    rfl

/-- The theorem for two groups that replace a function of each other and a standard one, and for a
group that is refused. -/
theorem extend_in_groups_overlapping :
    ofList standard.functions = .ok standard ∧
    (∃ r, [[⟨"max", 2, Rule.binary max⟩, ⟨"sin", 0, Rule.constant 0⟩],
        [⟨"sin", 1, Rule.unary Float.sin⟩, ⟨"max", 1, Rule.unary Float.abs⟩]].foldlM extend standard = .ok r ∧
      r.names = ["floor", "ceil", "round", "sin", "max"] ∧
      r.find? "max" = some ⟨"max", 1, Rule.unary Float.abs⟩) ∧
    [[⟨"max", 2, Rule.binary max⟩], [⟨"min", 2, Rule.binary min⟩, ⟨"up", -1, Rule.constant 1⟩]].foldlM
      extend standard = .error (.negativeArity "up") := by
  have hstandard : ofList standard.functions = .ok standard :=
    WellFormed.ofList_functions ⟨by decide, by decide⟩
  obtain ⟨hgroups, hrefused⟩ := extend_in_groups hstandard
  refine ⟨hstandard, ?_, ?_⟩
  · obtain ⟨r, hr, -, -, -, hnames, -, hfind⟩ := hgroups
      [[⟨"max", 2, Rule.binary max⟩, ⟨"sin", 0, Rule.constant 0⟩],
        [⟨"sin", 1, Rule.unary Float.sin⟩, ⟨"max", 1, Rule.unary Float.abs⟩]] (by simp)
    exact ⟨r, hr, hnames.trans (by decide), hfind "max"⟩
  · obtain ⟨r, -, -, -, hfold⟩ := hrefused [[⟨"max", 2, Rule.binary max⟩]] [] [⟨"min", 2, Rule.binary min⟩] []
      ⟨"up", -1, Rule.constant 1⟩ (by simp) (by simp) (by decide)
    exact hfold

end Registry

end Scorecard
