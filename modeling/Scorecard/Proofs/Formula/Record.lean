/-
Trees survive as data.

The reader of records asks for the fields of a node by name, so it does not matter in which
order they stand.  What it needs is that texts, doubles and null are found as they were, lists
with their items in order, and records with their fields.  Data can be looked at in two ways that
keep all of this: as it was written, and as canonical JSON keeps it, with the fields of every
record in the order of their names.  One induction on the tree serves both.

What comes out has no places.  A tree that was read has none either, so writing it and reading
it again changes nothing more.
-/
import Scorecard.Formula.Record
import Scorecard.Proofs.Formula.Shortest
import Scorecard.Proofs.Json.Canonical
import Scorecard.Proofs.Number.Amounts
import Scorecard.Proofs.Score.Record
import Scorecard.Proofs.Value.Fields
import Scorecard.Proofs.Value.Texts

namespace Scorecard

open Value Json

/-! ### Views of data -/

/-- A way to look at data that leaves what has no parts as it is, keeps the items of a list in
order, and finds the fields of a record under their names. -/
structure Value.KeepsFields (view : Value → Value) : Prop where
  null : view .null = .null
  str : ∀ s, view (.str s) = .str s
  float : ∀ x, view (.float x) = .float x
  list : ∀ items, view (.list items) = .list (items.map view)
  record : ∀ fields : List (String × Value), (fields.map Prod.fst).Nodup →
    ∃ es, view (.record (ofFields fields)) = .record es ∧
      ∀ f ∈ fields, field? es f.1 = some (view f.2)

theorem Value.keepsFields_id : KeepsFields id where
  null := rfl
  str _ := rfl
  float _ := rfl
  list items := by rw [List.map_id]; rfl
  record fields hnames := ⟨_, rfl, fun _ hf => field_of_mem hnames hf⟩

/-- Canonical JSON may move the fields of a record, but finds them all. -/
theorem Value.keepsFields_kept : KeepsFields Value.kept where
  null := rfl
  str _ := rfl
  float _ := rfl
  list := kept_list
  record fields hnames := ⟨_, kept_record fields, fun _ hf => field_kept hnames hf⟩

namespace Expr

/-! ### Reading a node

What is read depends on the fields of the record alone, wherever they stand in it.
-/

/-- The tree that a field describes is that of the value found under its name. -/
theorem ofField_eq (name : String) (es : List (Value × Value)) :
    ofField name es = requiredField es name >>= ofValue := by
  induction es with
  | nil => rfl
  | cons entry rest ih =>
      obtain ⟨k, v⟩ := entry
      rw [ofField, ih, requiredField, requiredField, field?_cons]
      split <;> rfl

/-- The arguments of a call are what their field holds, and none without it. -/
theorem ofArgumentsField_eq (es : List (Value × Value)) :
    ofArgumentsField es = ofMembers (fieldOr es "arguments" (.list [])) := by
  induction es with
  | nil => rfl
  | cons entry rest ih =>
      obtain ⟨k, v⟩ := entry
      rw [ofArgumentsField, ih, fieldOr, fieldOr, field?_cons]
      split <;> rfl

theorem ofSymbol_symbol (op : BinaryOp) : BinaryOp.ofSymbol? op.symbol = some op := by
  cases op <;> rfl

section

variable {es : List (Value × Value)} {x : Float} {name v w : Value} {op : BinaryOp} {a b : Expr}
  {vs : List Value} {as : List Expr}

theorem ofValue_number (htype : field? es "type" = some (.str "num"))
    (hvalue : field? es "value" = some (.float x)) : ofValue (.record es) = .ok (.number x none) := by
  simp only [ofValue, fieldOr, htype, Option.getD_some, requiredField, hvalue, toFloat_float, bind, Except.bind]

theorem ofValue_variable (htype : field? es "type" = some (.str "var"))
    (hname : field? es "name" = some name) : ofValue (.record es) = .ok (.variable name none) := by
  simp only [ofValue, fieldOr, htype, Option.getD_some, requiredField, hname, bind, Except.bind]

theorem ofValue_negate (htype : field? es "type" = some (.str "unary"))
    (hop : field? es "operator" = some (.str negationSymbol))
    (hoperand : field? es "operand" = some v) (ha : ofValue v = .ok a) :
    ofValue (.record es) = .ok (.negate a none) := by
  simp only [ofValue, fieldOr, htype, Option.getD_some, ofField_eq, requiredField, hop, hoperand,
    checkNegation, if_true, bind, Except.bind, ha]

theorem ofValue_binary (htype : field? es "type" = some (.str "binary"))
    (hop : field? es "operator" = some (.str op.symbol))
    (hleft : field? es "left" = some v) (ha : ofValue v = .ok a)
    (hright : field? es "right" = some w) (hb : ofValue w = .ok b) :
    ofValue (.record es) = .ok (.binary op a b none) := by
  simp only [ofValue, fieldOr, htype, Option.getD_some, ofField_eq, requiredField, hop, hleft, hright,
    operatorOf, ofSymbol_symbol, bind, Except.bind, ha, hb]

theorem ofValue_call (htype : field? es "type" = some (.str "call"))
    (hname : field? es "name" = some name)
    (harguments : field? es "arguments" = some (.list vs)) (has : ofItems vs = .ok as) :
    ofValue (.record es) = .ok (.call name as none) := by
  simp only [ofValue, fieldOr, htype, Option.getD_some, ofArgumentsField_eq, harguments, ofMembers, has,
    requiredField, hname, bind, Except.bind]

end

/-! ### Writing a node -/

/-- The fields that a node is written with; a gap is not a record and has none. -/
def fields : Expr → List (String × Value)
  | .missing => []
  | .number x _ => [("type", .str "num"), ("value", .float x)]
  | .variable name _ => [("type", .str "var"), ("name", name)]
  | .negate operand _ =>
    [("type", .str "unary"), ("operator", .str negationSymbol), ("operand", operand.toValue)]
  | .binary op left right _ =>
    [("type", .str "binary"), ("operator", .str op.symbol), ("left", left.toValue), ("right", right.toValue)]
  | .call name arguments _ =>
    [("type", .str "call"), ("name", name), ("arguments", .list (allToValues arguments))]

theorem nodup_fields (e : Expr) : (e.fields.map Prod.fst).Nodup := by
  cases e with
  | missing => exact List.nodup_nil
  | number x place => show ["type", "value"].Nodup; decide
  | «variable» name place => show ["type", "name"].Nodup; decide
  | negate operand place => show ["type", "operator", "operand"].Nodup; decide
  | binary op left right place => show ["type", "operator", "left", "right"].Nodup; decide
  | call name arguments place => show ["type", "name", "arguments"].Nodup; decide

mutual

/-- The names of a tree are texts, and each of its numbers is a number. -/
def Storable : Expr → Prop
  | .missing => True
  | .number x _ => Binary64.decode x ≠ .nan
  | .variable name _ => name.IsText
  | .negate operand _ => operand.Storable
  | .binary _ left right _ => left.Storable ∧ right.Storable
  | .call name arguments _ => name.IsText ∧ AllStorable arguments

/-- The same of each of some trees. -/
def AllStorable : List Expr → Prop
  | [] => True
  | e :: es => e.Storable ∧ AllStorable es

end

/-! ### Reading what was written -/

section

variable {view : Value → Value}

/-- The record of a node is seen as a record that has all of its fields. -/
theorem exists_view (hview : KeepsFields view) {e : Expr} (h : e.toValue = .record (ofFields e.fields)) :
    ∃ es, view e.toValue = .record es ∧ ∀ f ∈ e.fields, field? es f.1 = some (view f.2) := by
  rw [h]
  exact hview.record _ e.nodup_fields

mutual

/-- **A tree is read back from any view of what was written**, without its places. -/
theorem ofValue_view (hview : KeepsFields view) : (e : Expr) → e.Storable →
    ofValue (view e.toValue) = .ok e.withoutPositions
  | .missing, _ => by
      rw [toValue, hview.null]
      rfl
  | .number x place, _ => by
      -- here and below: the view shows a record, its fields are those of the node, and are read
      obtain ⟨es, hrecord, hfields⟩ := exists_view hview (e := .number x place) rfl
      simp only [fields, List.forall_mem_cons, hview.str, hview.float] at hfields
      obtain ⟨htype, hvalue, -⟩ := hfields
      rw [hrecord]
      exact ofValue_number htype hvalue
  | .variable name place, h => by
      obtain ⟨text, rfl⟩ := h
      obtain ⟨es, hrecord, hfields⟩ := exists_view hview (e := .variable (.str text) place) rfl
      simp only [fields, List.forall_mem_cons, hview.str] at hfields
      obtain ⟨htype, hname, -⟩ := hfields
      rw [hrecord]
      exact ofValue_variable htype hname
  | .negate operand place, h => by
      obtain ⟨es, hrecord, hfields⟩ := exists_view hview (e := .negate operand place) rfl
      simp only [fields, List.forall_mem_cons, hview.str] at hfields
      obtain ⟨htype, hop, hoperand, -⟩ := hfields
      rw [hrecord]
      exact ofValue_negate htype hop hoperand (ofValue_view hview operand h)
  | .binary op left right place, h => by
      obtain ⟨es, hrecord, hfields⟩ := exists_view hview (e := .binary op left right place) rfl
      simp only [fields, List.forall_mem_cons, hview.str] at hfields
      obtain ⟨htype, hop, hleft, hright, -⟩ := hfields
      rw [hrecord]
      exact ofValue_binary htype hop hleft (ofValue_view hview left h.1) hright (ofValue_view hview right h.2)
  | .call name arguments place, h => by
      obtain ⟨⟨text, rfl⟩, harguments⟩ := h
      obtain ⟨es, hrecord, hfields⟩ := exists_view hview (e := .call (.str text) arguments place) rfl
      simp only [fields, List.forall_mem_cons, hview.str, hview.list] at hfields
      obtain ⟨htype, hname, hlisted, -⟩ := hfields
      rw [hrecord]
      exact ofValue_call htype hname hlisted (ofItems_view hview arguments harguments)

/-- The same of the arguments of a call. -/
theorem ofItems_view (hview : KeepsFields view) : (es : List Expr) → AllStorable es →
    ofItems ((allToValues es).map view) = .ok (allWithoutPositions es)
  | [], _ => rfl
  | e :: es, h => by
      rw [allToValues, List.map_cons, ofItems, ofValue_view hview e h.1, ofItems_view hview es h.2]
      rfl

end
end

/-! ### What was read

No place is ever read, whatever the data was.
-/

/-- Given a record for the arguments of a call, its keys are taken, and of these only null
describes a tree. -/
theorem withoutPositions_of_keys {es : List (Value × Value)} {as : List Expr}
    (h : ofMembers (.record es) = .ok as) : allWithoutPositions as = as := by
  rw [ofMembers, mapM_eq_ok_iff] at h
  induction h with
  | nil => rfl
  | @cons entry a _ _ hkey _ ih =>
      have ha : a = .missing := by
        obtain ⟨k, v⟩ := entry
        cases k with
        | null => exact (Except.ok.inj hkey).symm
        | _ => cases hkey
      rw [allWithoutPositions, ih, ha]
      rfl

mutual

/-- A tree that was read has no places. -/
theorem withoutPositions_of_ofValue : (v : Value) → {e : Expr} → ofValue v = .ok e → e.withoutPositions = e
  | .null, e, h => by
      cases h
      rfl
  | .record es, e, h => by
      rw [ofValue] at h
      -- the kinds of nodes, in the order in which the reader looks for them, and any other
      split at h
      · simp only [bind_eq_ok_iff] at h
        obtain ⟨-, -, op, -, left, hleft, right, hright, h⟩ := h
        cases h
        rw [withoutPositions, withoutPositions_of_ofField "left" es hleft,
          withoutPositions_of_ofField "right" es hright]
      · simp only [bind_eq_ok_iff] at h
        obtain ⟨name, -, h⟩ := h
        cases h
        rfl
      · simp only [bind_eq_ok_iff] at h
        obtain ⟨-, -, x, -, h⟩ := h
        cases h
        rfl
      · simp only [bind_eq_ok_iff] at h
        obtain ⟨-, -, -, -, operand, hoperand, h⟩ := h
        cases h
        rw [withoutPositions, withoutPositions_of_ofField "operand" es hoperand]
      · simp only [bind_eq_ok_iff] at h
        obtain ⟨arguments, harguments, name, -, h⟩ := h
        cases h
        rw [withoutPositions, withoutPositions_of_ofArgumentsField es harguments]
      · cases h
  | .bool _, _, h | .int _, _, h | .float _, _, h | .nan _, _, h | .str _, _, h | .bytes _, _, h
  | .list _, _, h | .tuple _, _, h | .date _, _, h | .part _ _, _, h | .loop _, _, h => by cases h

theorem withoutPositions_of_ofField (name : String) : (es : List (Value × Value)) → {e : Expr} →
    ofField name es = .ok e → e.withoutPositions = e
  | [], _, h => by cases h
  | (k, v) :: es, e, h => by
      rw [ofField] at h
      split at h
      · exact withoutPositions_of_ofValue v h
      · exact withoutPositions_of_ofField name es h

theorem withoutPositions_of_ofArgumentsField : (es : List (Value × Value)) → {as : List Expr} →
    ofArgumentsField es = .ok as → allWithoutPositions as = as
  | [], _, h => by
      cases h
      rfl
  | (k, v) :: es, as, h => by
      rw [ofArgumentsField] at h
      split at h
      · exact withoutPositions_of_ofMembers v h
      · exact withoutPositions_of_ofArgumentsField es h

theorem withoutPositions_of_ofMembers : (v : Value) → {as : List Expr} →
    ofMembers v = .ok as → allWithoutPositions as = as
  | .list items, as, h => withoutPositions_of_ofItems items h
  | .tuple items, as, h => withoutPositions_of_ofItems items h
  | .str s, as, h => by
      rw [ofMembers] at h
      split at h <;> cases h
      rfl
  | .bytes bs, as, h => by
      rw [ofMembers] at h
      split at h <;> cases h
      rfl
  | .record es, as, h => withoutPositions_of_keys h
  | .bool _, _, h | .int _, _, h | .float _, _, h | .nan _, _, h | .null, _, h 
  | .date _, _, h | .part _ _, _, h | .loop _, _, h => by cases h

theorem withoutPositions_of_ofItems : (vs : List Value) → {as : List Expr} →
    ofItems vs = .ok as → allWithoutPositions as = as
  | [], _, h => by
      cases h
      rfl
  | v :: vs, as, h => by
      simp only [ofItems, bind_eq_ok_iff] at h
      obtain ⟨e, he, es, hes, h⟩ := h
      cases h
      rw [allWithoutPositions, withoutPositions_of_ofValue v he, withoutPositions_of_ofItems vs hes]

end

/-! ### Comparing -/

theorem ne_nan_of_isFinite {x : Float} (h : Binary64.isFinite x = true) : Binary64.decode x ≠ .nan := by
  intro hnan
  rw [Binary64.isFinite, hnan] at h
  cases h

/-- Every double but no number is the same as itself. -/
theorem beq_self_of_ne_nan {x : Float} (h : Binary64.decode x ≠ .nan) : (x == x) = true := by
  rw [Binary64.beq_iff]
  unfold Binary64.amount?
  cases hx : Binary64.decode x with
  | nan => exact absurd hx h
  | infinite negative => exact ⟨_, rfl, rfl⟩
  | finite negative mantissa exponent => exact ⟨_, rfl, rfl⟩

mutual

/-- A tree without its places is the same tree. -/
theorem same_withoutPositions : (e : Expr) → e.Storable → e.withoutPositions.same e = true
  | .missing, _ => rfl
  | .number x _, h => beq_self_of_ne_nan h
  | .variable name _, h => (same_text_iff h).mpr rfl
  | .negate operand _, h => by
      rw [withoutPositions, same]
      exact same_withoutPositions operand h
  | .binary op left right _, h => by
      rw [withoutPositions, same, same_withoutPositions left h.1, same_withoutPositions right h.2]
      simp
  | .call name arguments _, h => by
      rw [withoutPositions, same, (same_text_iff h.1).mpr rfl, sameAll_withoutPositions arguments h.2]
      rfl

theorem sameAll_withoutPositions : (es : List Expr) → AllStorable es → sameAll (allWithoutPositions es) es = true
  | [], _ => rfl
  | e :: es, h => by
      rw [allWithoutPositions, sameAll, same_withoutPositions e h.1, sameAll_withoutPositions es h.2]
      rfl

end

/-! ### Writing as JSON -/

/-- Data that JSON has, with no key twice. -/
structure IsCoded (v : Value) : Prop where
  json : v.IsJson
  keyed : v.WellKeyed

theorem isCoded_record {e : Expr} (h : e.toValue = .record (ofFields e.fields))
    (hfields : ∀ f ∈ e.fields, IsCoded f.2) : IsCoded e.toValue := by
  rw [h]
  exact ⟨isJson_ofFields.mpr fun f hf => (hfields f hf).json,
    wellKeyed_ofFields.mpr ⟨e.nodup_fields, fun f hf => (hfields f hf).keyed⟩⟩

theorem isCoded_str (s : String) : IsCoded (.str s) :=
  ⟨.str s, .str s⟩

mutual

/-- A tree with finite numbers is written as data that JSON has. -/
theorem isCoded_toValue : (e : Expr) → e.Storable → e.LiteralsFinite → IsCoded e.toValue
  | .missing, _, _ => ⟨.null, .null⟩
  | .number x place, _, hfinite => by
      refine isCoded_record rfl ?_
      simp only [fields, List.forall_mem_cons]
      exact ⟨isCoded_str _, ⟨.float hfinite, .float x⟩, by simp⟩
  | .variable name place, h, _ => by
      obtain ⟨text, rfl⟩ := h
      refine isCoded_record rfl ?_
      simp only [fields, List.forall_mem_cons]
      exact ⟨isCoded_str _, isCoded_str _, by simp⟩
  | .negate operand place, h, hfinite => by
      refine isCoded_record rfl ?_
      simp only [fields, List.forall_mem_cons]
      exact ⟨isCoded_str _, isCoded_str _, isCoded_toValue operand h hfinite, by simp⟩
  | .binary op left right place, h, hfinite => by
      refine isCoded_record rfl ?_
      simp only [fields, List.forall_mem_cons]
      exact ⟨isCoded_str _, isCoded_str _, isCoded_toValue left h.1 hfinite.1, isCoded_toValue right h.2 hfinite.2,
        by simp⟩
  | .call name arguments place, h, hfinite => by
      obtain ⟨⟨text, rfl⟩, harguments⟩ := h
      have hlisted := isCoded_allToValues arguments harguments hfinite
      refine isCoded_record rfl ?_
      simp only [fields, List.forall_mem_cons]
      exact ⟨isCoded_str _, isCoded_str _,
        ⟨.list fun v hv => (hlisted v hv).json, .ofItems fun v hv => (hlisted v hv).keyed⟩, by simp⟩

theorem isCoded_allToValues : (es : List Expr) → AllStorable es → AllLiteralsFinite es →
    ∀ v ∈ allToValues es, IsCoded v
  | [], _, _ => by simp [allToValues]
  | e :: es, h, hfinite => by
      rw [allToValues]
      exact List.forall_mem_cons.mpr ⟨isCoded_toValue e h.1 hfinite.1, isCoded_allToValues es h.2 hfinite.2⟩

end

/-! ### The round trips -/

/-- **Trees survive as data.**  A tree whose names are texts and none of whose numbers is no number
is read back from its record without its places, and is the same as before.  Where its numbers are
finite, the same tree is read back from its canonical JSON.  What any data was read as is written
and read again as the very same, so that reading normalises in one step. -/
theorem toValue_survives :
    (∀ e : Expr, e.Storable → ofValue e.toValue = .ok e.withoutPositions ∧ e.withoutPositions.same e = true) ∧
    (∀ e : Expr, e.Storable → e.LiteralsFinite →
      ∃ text read, e.toValue.canonical = .ok text ∧
        Value.ofOctets (textOctets text) = .ok read ∧ ofValue read = .ok e.withoutPositions) ∧
    ∀ (v : Value) (e : Expr), ofValue v = .ok e → e.Storable →
      e.withoutPositions = e ∧ ofValue e.toValue = .ok e := by
  have hplain : ∀ e : Expr, e.Storable → ofValue e.toValue = .ok e.withoutPositions :=
    ofValue_view keepsFields_id
  refine ⟨fun e h => ⟨hplain e h, same_withoutPositions e h⟩, ?_, ?_⟩
  · intro e h hfinite
    obtain ⟨hjson, hkeyed⟩ := isCoded_toValue e h hfinite
    have htext : e.toValue.canonical = .ok (String.ofList (wording e.toValue)) := by
      rw [canonical_eq_ok_iff, hjson.unfolded_eq]
      exact ⟨hjson, rfl⟩
    exact ⟨_, _, htext, hjson.ofJson_canonical hkeyed rfl, ofValue_view keepsFields_kept e h⟩
  · intro v e hread h
    have hplaceless : e.withoutPositions = e := withoutPositions_of_ofValue v hread
    exact ⟨hplaceless, (hplain e h).trans (congrArg _ hplaceless)⟩

/-- A call with a name that JSON escapes, a gap for its first argument, a negated zero that is
negative already, and a sum of a name and a number that is not exact in binary. -/
def awkward : Expr :=
  .call (.str "m\u00e9 \"x\"") [.missing, .negate (.number (-0.0) (some 9)) (some 8),
    .binary .add (.variable (.str "") (some 12)) (.number 0.1 none) (some 13)] (some 0)

/-- The theorem for a call with all kinds of arguments, through its record and through JSON, and for
a record with its fields in another order, a field too many, and a tuple of arguments. -/
theorem toValue_survives_awkward :
    awkward.Storable ∧ awkward.LiteralsFinite ∧ ofValue awkward.toValue = .ok awkward.withoutPositions ∧
    (∃ text read, awkward.toValue.canonical = .ok text ∧
      Value.ofOctets (textOctets text) = .ok read ∧ ofValue read = .ok awkward.withoutPositions) ∧
    ofValue (.record [(.str "arguments", .tuple [.null]), (.str "name", .str "f"), (.str "type", .str "call"),
      (.str "position", .int 3)]) = .ok (.call (.str "f") [.missing] none) ∧
    ofValue (toValue (.call (.str "f") [.missing] none)) = .ok (.call (.str "f") [.missing] none) := by
  obtain ⟨hplain, hjson, hread⟩ := toValue_survives
  have hzero : Binary64.isFinite (-0.0) = true := by decide +kernel
  have htenth : Binary64.isFinite 0.1 = true := by decide +kernel
  have hstorable : awkward.Storable :=
    ⟨⟨_, rfl⟩, trivial, ne_nan_of_isFinite hzero, ⟨⟨_, rfl⟩, ne_nan_of_isFinite htenth⟩, trivial⟩
  have hfinite : awkward.LiteralsFinite := ⟨trivial, hzero, ⟨trivial, htenth⟩, trivial⟩
  exact ⟨hstorable, hfinite, (hplain awkward hstorable).1, hjson awkward hstorable hfinite, rfl,
    (hread (.record [(.str "arguments", .tuple [.null]), (.str "name", .str "f"), (.str "type", .str "call"),
      (.str "position", .int 3)]) _ rfl ⟨⟨_, rfl⟩, trivial, trivial⟩).2⟩

end Expr

end Scorecard
