/-
Texts are read back, and tell apart what does not agree.

What is read from the text of a value is what was kept of it, in whatever style it was
spelt.  The induction follows the value; for each way to build one the reader has a
rule, and the follow condition travels along: behind a number stands nothing that a
number could go on with, because behind any part of a text stands its end, a comma or a
closing bracket or brace.

Since equal texts are read as the same value, they are texts of values that agree.
In the other direction, the text of a record depends on its entries only up to their
order, because the keys settle it.

The canonical text is the compact one, so all of this is said of it again at the end.
-/
import Scorecard.Proofs.Json.Numbers
import Scorecard.Proofs.Json.Reading
import Scorecard.Proofs.Json.Spelling
import Scorecard.Proofs.Json.Strings

namespace Scorecard.Json

open Value

variable {style : Style} {ofText : List Point → Value}

/-- Those who read take a text without halves for that text. -/
def KeepsText (ofText : List Point → Value) : Prop :=
  ∀ s : String, ofText (s.toList.map .char) = .str s

theorem keepsText_ofPoints : KeepsText Value.ofPoints := by
  intro s
  rw [Value.ofPoints_map_char, String.ofList_toList]

theorem keepsText_ofShown : KeepsText Value.ofShown := by
  intro s
  rw [Value.ofShown_map_char, String.ofList_toList]

/-! ### Reading -/

/-- The text of the value is read as what is kept of it, wherever it may stand. -/
def ReadsBack (style : Style) (ofText : List Point → Value) (v : Value) : Prop :=
  ∀ rest, Numeral.Ends rest → Reads (readValue ofText (spelt style v ++ rest)) v.kept rest

private theorem ends_of_closing {c : Char} (hc : c = ',' ∨ c = ']' ∨ c = '}') (rest : List Char) :
    Numeral.Ends (c :: rest) := by
  intro d hd
  rw [List.head?_cons, Option.some.injEq] at hd
  subst hd
  rcases hc with rfl | rfl | rfl <;> decide

/-- The items of a list are read back. -/
private theorem reads_items (rest : List Char) :
    ∀ (items : List Value) (x : Value), (∀ y ∈ x :: items, ReadsBack style ofText y) →
      Reads (readItems ofText (join (',' :: style.gap) ((x :: items).map (spelt style)) ++ ']' :: rest))
        ((x :: items).map kept) rest := by
  intro items
  induction items with
  | nil =>
      intro x h
      exact Reads.lastItem (h x List.mem_cons_self _ (ends_of_closing (by simp) rest))
  | cons y more ih =>
      intro x h
      have htext : join (',' :: style.gap) ((x :: y :: more).map (spelt style)) ++ ']' :: rest =
          spelt style x ++ ',' ::
            (style.gap ++ (join (',' :: style.gap) ((y :: more).map (spelt style)) ++ ']' :: rest)) := by
        simp [join]
      have hmore := ih y fun z hz => h z (List.mem_cons_of_mem _ hz)
      rw [htext]
      refine Reads.moreItems (h x List.mem_cons_self _ (ends_of_closing (by simp) _)) ?_
      rw [skipGap_append style.blank, hmore.skipGap_items]
      exact hmore

/-- An entry starts with the quote of its key, and its value stands behind the colon. -/
private theorem entrySpelt_append (f : String × Value) (rest : List Char) :
    entrySpelt style f ++ rest =
      '"' :: (f.1.toList.flatMap (escape style.asciiOnly) ++
        '"' :: ':' :: (style.gap ++ (spelt style f.2 ++ rest))) := by
  simp [entrySpelt, string]

private theorem stringBody_key (style : Style) (key : String) (rest : List Char) :
    stringBody? [] (key.toList.flatMap (escape style.asciiOnly) ++ '"' :: rest) = some (key.toList.map .char, rest) :=
  stringBody_string style.asciiOnly key.toList [] rest

/-- The value of an entry is read behind the colon and the blanks. -/
private theorem reads_entryValue {f : String × Value} (h : ReadsBack style ofText f.2) {rest : List Char}
    (hrest : Numeral.Ends rest) :
    Reads (readValue ofText (skipGap (style.gap ++ (spelt style f.2 ++ rest)))) f.2.kept rest := by
  have hvalue := h rest hrest
  rw [skipGap_append style.blank, hvalue.skipGap]
  exact hvalue

/-- The entries of a record are read back. -/
private theorem reads_entries (hkeeps : KeepsText ofText) (rest : List Char) :
    ∀ (fields : List (String × Value)) (f : String × Value),
      (∀ g ∈ f :: fields, ReadsBack style ofText g.2) →
      Reads (readEntries ofText (join (',' :: style.gap) ((f :: fields).map (entrySpelt style)) ++ '}' :: rest))
        (ofFields ((f :: fields).map keptField)) rest := by
  intro fields
  induction fields with
  | nil =>
      intro f h
      have hvalue := reads_entryValue (h f List.mem_cons_self) (@ends_of_closing '}' (by simp) rest)
      have hentry := Reads.lastEntry (stringBody_key style f.1 _) hvalue
      rw [hkeeps] at hentry
      show Reads (readEntries ofText (entrySpelt style f ++ '}' :: rest)) [(.str f.1, f.2.kept)] rest
      rw [entrySpelt_append]
      exact hentry
  | cons g more ih =>
      intro f h
      have htext : join (',' :: style.gap) ((f :: g :: more).map (entrySpelt style)) ++ '}' :: rest =
          entrySpelt style f ++ ',' ::
            (style.gap ++ (join (',' :: style.gap) ((g :: more).map (entrySpelt style)) ++ '}' :: rest)) := by
        simp [join]
      have hbehind : skipGap (join (',' :: style.gap) ((g :: more).map (entrySpelt style)) ++ '}' :: rest) =
          join (',' :: style.gap) ((g :: more).map (entrySpelt style)) ++ '}' :: rest := by
        cases more <;> rfl
      have hmore := ih g fun e he => h e (List.mem_cons_of_mem _ he)
      rw [← hbehind, ← skipGap_append style.blank] at hmore
      have hvalue := reads_entryValue (h f List.mem_cons_self) (@ends_of_closing ',' (by simp)
        (style.gap ++ (join (',' :: style.gap) ((g :: more).map (entrySpelt style)) ++ '}' :: rest)))
      have hentry := Reads.moreEntries (stringBody_key style f.1 _) hvalue hmore
      rw [hkeeps] at hentry
      rw [htext, entrySpelt_append]
      exact hentry

/-- A new key is stored behind the others. -/
private theorem store_of_new {entries : List (Value × Value)} {key v : Value}
    (h : ∀ e ∈ entries, e.1.same key = false) : store entries key v = entries ++ [(key, v)] := by
  induction entries with
  | nil => rfl
  | cons e rest ih =>
      have hfirst : e.1.same key = false := h e List.mem_cons_self
      rw [store, hfirst, ih fun f hf => h f (List.mem_cons_of_mem _ hf)]
      rfl

/-- Entries without a key twice are stored as they are. -/
theorem storeAll_eq_self {entries : List (Value × Value)}
    (h : entries.Pairwise fun e f => e.1.same f.1 = false) : storeAll entries = entries := by
  have hfold : ∀ stored : List (Value × Value),
      (stored ++ entries).Pairwise (fun e f => e.1.same f.1 = false) →
      entries.foldl (fun stored e => store stored e.1 e.2) stored = stored ++ entries := by
    clear h
    induction entries with
    | nil => intro stored _; exact (List.append_nil stored).symm
    | cons e rest ih =>
        intro stored h
        have hnew : ∀ f ∈ stored, f.1.same e.1 = false := fun f hf =>
          (List.pairwise_append.mp h).2.2 f hf e List.mem_cons_self
        rw [List.foldl_cons, store_of_new hnew, ih _ (by rw [List.append_assoc]; exact h),
          List.append_assoc]
        rfl
  exact hfold [] h

private theorem reads_list (rest : List Char) {items : List Value} (h : ∀ x ∈ items, ReadsBack style ofText x) :
    Reads (readValue ofText ('[' :: (join (',' :: style.gap) (items.map (spelt style)) ++ [']']) ++ rest))
      (.list (items.map kept)) rest := by
  cases items with
  | nil => exact Reads.emptyList
  | cons x more =>
      have hitems := reads_items rest more x h
      rw [List.cons_append, List.append_assoc]
      exact Reads.list hitems

private theorem reads_record (hkeeps : KeepsText ofText) (rest : List Char) {fields : List (String × Value)}
    (h : ∀ f ∈ fields, ReadsBack style ofText f.2) (hkeys : (fields.map Prod.fst).Nodup) :
    Reads (readValue ofText ('{' :: (join (',' :: style.gap) (fields.map (entrySpelt style)) ++ ['}']) ++ rest))
      (.record (ofFields (fields.map keptField))) rest := by
  cases fields with
  | nil => exact Reads.emptyRecord
  | cons f more =>
      have hentries := reads_entries hkeeps rest more f h
      have hstored : storeAll (ofFields ((f :: more).map keptField)) =
          ofFields ((f :: more).map keptField) := by
        refine storeAll_eq_self (pairwise_ofFields.mpr ?_)
        rw [List.map_map]
        exact hkeys
      obtain ⟨tail, htail⟩ : ∃ tail,
          join (',' :: style.gap) ((f :: more).map (entrySpelt style)) ++ '}' :: rest = '"' :: tail := by
        cases more <;> exact ⟨_, rfl⟩
      rw [List.cons_append, List.append_assoc]
      show Reads (readValue ofText ('{' ::
        (join (',' :: style.gap) ((f :: more).map (entrySpelt style)) ++ '}' :: rest))) _ rest
      rw [htail] at hentries ⊢
      rw [← hstored]
      exact Reads.record hentries

/-- **What is spelt is read as what is kept of it.** -/
theorem readsBack (hkeeps : KeepsText ofText) {v : Value} (h : v.IsLenient) (hkeyed : v.WellKeyed) :
    ReadsBack style ofText v := by
  induction h with
  | null =>
      intro rest hrest
      exact Reads.scalar scalar_null
  | bool b =>
      intro rest hrest
      exact Reads.scalar (scalar_bool b)
  | int hn =>
      intro rest hrest
      exact Reads.scalar (scalar_integer hrest hn)
  | float hx =>
      intro rest hrest
      exact Reads.scalar (scalar_double hrest hx)
  | nan =>
      intro rest hrest
      exact Reads.scalar scalar_nan
  | str s =>
      intro rest hrest
      have hread : Reads (readValue ofText _) _ _ := Reads.string (stringBody_key style s rest)
      have hspelt : spelt style (.str s) ++ rest =
          '"' :: (s.toList.flatMap (escape style.asciiOnly) ++ '"' :: rest) := by
        simp [spelt, string]
      rw [hkeeps] at hread
      rw [hspelt]
      exact hread
  | list hparts ih =>
      intro rest hrest
      rw [spelt_list, kept_list]
      exact reads_list rest fun x hx => ih x hx (hkeyed.item x hx)
  | tuple hparts ih =>
      intro rest hrest
      rw [spelt_tuple, kept_tuple]
      exact reads_list rest fun x hx => ih x hx (hkeyed.place x hx)
  | record hkeys hparts ih =>
      intro rest hrest
      obtain ⟨fields, rfl⟩ := exists_ofFields hkeys
      have hperm := sortByKey_perm fields
      rw [spelt_record, kept_record]
      obtain ⟨hnodup, hfields⟩ := wellKeyed_ofFields.mp hkeyed
      refine reads_record hkeeps rest ?_ ((hperm.map Prod.fst).nodup_iff.mpr hnodup)
      intro f hf
      have hmem : f ∈ fields := hperm.mem_iff.mp hf
      exact ih (.str f.1, f.2) (mem_ofFields.mpr hmem) (hfields f hmem)

/-! ### Whole texts -/

variable {v a b : Value}

theorem read_spelt (hkeeps : KeepsText ofText) (h : v.IsLenient) (hkeyed : v.WellKeyed) :
    read ofText (spelt style v) = .ok v.kept := by
  have hread : Reads (readValue ofText (spelt style v ++ [])) v.kept [] :=
    readsBack hkeeps h hkeyed [] Numeral.Ends.nil
  rw [List.append_nil] at hread
  rw [← hread.skipGap] at hread
  obtain ⟨shorter, hread⟩ := hread
  unfold read
  rw [hread]
  rfl

/-- A list and a tuple of the same items have the same text. -/
private theorem spelt_sequence (style : Style) {ys : List Value} (hshape : b = .list ys ∨ b = .tuple ys)
    (hb : b.IsLenient) (hkeyed : b.WellKeyed) :
    spelt style b = '[' :: (join (',' :: style.gap) (ys.map (spelt style)) ++ [']']) ∧
      ∀ y ∈ ys, y.IsLenient ∧ y.WellKeyed := by
  rcases hshape with rfl | rfl
  · cases hb with
    | list hparts => exact ⟨spelt_list style ys, fun y hy => ⟨hparts y hy, hkeyed.item y hy⟩⟩
  · cases hb with
    | tuple hparts => exact ⟨spelt_tuple style ys, fun y hy => ⟨hparts y hy, hkeyed.place y hy⟩⟩

private theorem map_spelt_eq {xs ys : List Value}
    (h : ∀ x ∈ xs, ∀ y ∈ ys, x.Agrees y → spelt style x = spelt style y) (hagree : AgreeItems xs ys) :
    xs.map (spelt style) = ys.map (spelt style) := by
  induction xs generalizing ys with
  | nil =>
      rw [AgreeItems] at hagree
      rw [hagree]
  | cons x xs ih =>
      rw [AgreeItems] at hagree
      obtain ⟨y, rest, rfl, hx, hxs⟩ := hagree
      rw [List.map_cons, List.map_cons, h x List.mem_cons_self y List.mem_cons_self hx, ih ?_ hxs]
      intro z hz w hw
      exact h z (List.mem_cons_of_mem _ hz) w (List.mem_cons_of_mem _ hw)

/-- Entries that agree under distinct keys are written the same. -/
private theorem map_entrySpelt_eq {fs gs : List (String × Value)}
    (h : ∀ f ∈ fs, ∀ g ∈ gs, f.2.Agrees g.2 → spelt style f.2 = spelt style g.2)
    (hkeys : (fs.map Prod.fst).Nodup) (hlength : fs.length = gs.length)
    (hagree : ∀ f ∈ fs, ∃ w, (f.1, w) ∈ gs ∧ f.2.Agrees w) :
    (sortByKey fs).map (entrySpelt style) = (sortByKey gs).map (entrySpelt style) := by
  have hperm : (fs.map fun f => (f.1, spelt style f.2)).Perm (gs.map fun g => (g.1, spelt style g.2)) := by
    refine List.Subperm.perm_of_length_le (List.subperm_of_subset ?_ ?_) (by simp [hlength])
    · refine List.Nodup.of_map Prod.fst ?_
      rw [List.map_map]
      exact hkeys
    · intro e he
      obtain ⟨f, hf, rfl⟩ := List.mem_map.mp he
      obtain ⟨w, hw, hfw⟩ := hagree f hf
      exact List.mem_map.mpr ⟨(f.1, w), hw, by rw [h f hf (f.1, w) hw hfw]⟩
  have hsorted := sortByKey_eq_of_perm hperm (by rw [List.map_map]; exact hkeys)
  rw [sortByKey_map, sortByKey_map] at hsorted
  have hentry : ∀ l : List (String × Value), l.map (entrySpelt style) =
      (l.map fun f => (f.1, spelt style f.2)).map fun e =>
        string style.asciiOnly e.1.toList ++ ':' :: (style.gap ++ e.2) := by
    intro l
    rw [List.map_map]
    rfl
  rw [hentry, hentry, hsorted]

/-- **Values that agree have the same text.** -/
theorem spelt_eq_of_agrees (ha : a.IsLenient) (hb : b.IsLenient) (haKeyed : a.WellKeyed)
    (hbKeyed : b.WellKeyed) (h : a.Agrees b) : spelt style a = spelt style b := by
  induction ha generalizing b with
  | @list xs hparts ih =>
      rw [Agrees] at h
      obtain ⟨ys, hshape, hitems⟩ := h
      obtain ⟨htext, hys⟩ := spelt_sequence style hshape hb hbKeyed
      rw [spelt_list, htext, map_spelt_eq ?_ hitems]
      intro x hx y hy
      exact ih x hx (hys y hy).1 (haKeyed.item x hx) (hys y hy).2
  | @tuple xs hparts ih =>
      rw [Agrees] at h
      obtain ⟨ys, hshape, hitems⟩ := h
      obtain ⟨htext, hys⟩ := spelt_sequence style hshape hb hbKeyed
      rw [spelt_tuple, htext, map_spelt_eq ?_ hitems]
      intro x hx y hy
      exact ih x hx (hys y hy).1 (haKeyed.place x hx) (hys y hy).2
  | record hkeys hparts ih =>
      obtain ⟨fs, rfl⟩ := exists_ofFields hkeys
      rw [Agrees] at h
      obtain ⟨entries, rfl, hlength, hentries⟩ := h
      cases hb with
      | record hkeys' hparts' =>
          obtain ⟨gs, rfl⟩ := exists_ofFields hkeys'
          rw [agreeEntries_ofFields] at hentries
          have hgs := isLenient_ofFields.mp (.record hkeys' hparts')
          have hfsKeyed := wellKeyed_ofFields.mp haKeyed
          have hgsKeyed := wellKeyed_ofFields.mp hbKeyed
          rw [spelt_record, spelt_record,
            map_entrySpelt_eq ?_ hfsKeyed.1 (by simpa [ofFields] using hlength) hentries]
          intro f hf g hg
          exact ih (.str f.1, f.2) (mem_ofFields.mpr hf) (hgs g hg) (hfsKeyed.2 f hf)
            (hgsKeyed.2 g hg)
  | _ =>
      rw [Agrees.eq_def] at h
      rw [h]

/-! ### Canonical texts -/

theorem read_wording (h : v.IsJson) (hkeyed : v.WellKeyed) :
    read Value.ofPoints (wording v) = .ok v.kept := by
  rw [wording_eq_spelt h, read_spelt keepsText_ofPoints h.isLenient hkeyed]

/-- **Texts are equal just if the values agree.** -/
theorem wording_eq_iff (ha : a.IsJson) (hb : b.IsJson) (haKeyed : a.WellKeyed)
    (hbKeyed : b.WellKeyed) : wording a = wording b ↔ a.Agrees b := by
  constructor
  · intro h
    refine ha.agrees_of_kept_eq hb (@Except.ok.inj Fault _ _ _ ?_)
    rw [← read_wording ha haKeyed, h, read_wording hb hbKeyed]
  · intro h
    rw [wording_eq_spelt ha, wording_eq_spelt hb,
      spelt_eq_of_agrees ha.isLenient hb.isLenient haKeyed hbKeyed h]

/-- What is kept has the same text. -/
theorem wording_kept (h : v.IsJson) (hkeyed : v.WellKeyed) : wording v.kept = wording v :=
  ((wording_eq_iff h h.kept hkeyed (hkeyed.kept h)).mpr h.agrees_kept).symm

end Scorecard.Json
