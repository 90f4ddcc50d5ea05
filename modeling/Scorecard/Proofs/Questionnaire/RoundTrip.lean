/-
Questionnaires survive JSON.

The reader is lenient: fields may be missing, identifiers may be anything that can be
shown, and the variables of a possible answer may be whatever has members.  So what is
written again is not what was read.  But everything in a questionnaire was a part of
the data that was read, or stands in for a part that was missing, and all of that has names in
JSON.  So the questionnaire is written, and what is kept of its data is read as the
questionnaire with each part as it is kept.

That agrees with it part by part, in the order of its lists, and what agrees has
the same text.  One reading settles the data; from then on it stays.
-/
import Scorecard.Questionnaire.Json
import Scorecard.Proofs.Json.Parsed
import Scorecard.Proofs.Json.Readable
import Scorecard.Proofs.Score.Record
import Scorecard.Proofs.Value.Fields

namespace Scorecard

open Value Json

/-! ### Variables -/

namespace Variable

/-- The fields of a variable's record. -/
def fields (x : Variable) : List (String × Value) :=
  [("name", x.name), ("description", x.description)]

theorem nodup_fields (x : Variable) : (x.fields.map Prod.fst).Nodup := by
  show ["name", "description"].Nodup
  decide

theorem toValue_eq (x : Variable) : x.toValue = .record (ofFields x.fields) := rfl

/-- A variable with its parts as they are kept. -/
def kept (x : Variable) : Variable :=
  ⟨x.name.kept, x.description.kept⟩

/-- The same variable as data. -/
structure Agrees (x y : Variable) : Prop where
  name : x.name.Agrees y.name
  description : x.description.Agrees y.description

variable {x y : Variable} {v : Value}

theorem Agrees.toValue (h : x.Agrees y) : x.toValue.Agrees y.toValue := by
  rw [toValue_eq, toValue_eq]
  exact agrees_ofFields (.cons ⟨rfl, h.name⟩ (.cons ⟨rfl, h.description⟩ .nil))

/-- The parts of a variable that was read can be read. -/
theorem isRead_toValue (hv : v.IsRead) (h : ofValue v = .ok x) : x.toValue.IsRead := by
  simp only [ofValue, bind_eq_ok_iff, requiredField_eq_ok_iff] at h
  obtain ⟨es, hes, name, hname, h⟩ := h
  cases h
  have hrecord := hv.of_indexed hes
  rw [toValue_eq]
  refine .ofFields (nodup_fields _) ?_
  simp only [fields, List.forall_mem_cons]
  exact ⟨hrecord.field hname, hrecord.fieldOr (.ofLeaf .null rfl), by simp⟩

theorem ofValue_kept (x : Variable) : ofValue x.toValue.kept = .ok x.kept := by
  have hname := field_kept x.nodup_fields (by simp [fields] : ("name", x.name) ∈ x.fields)
  have hdescription := field_kept x.nodup_fields
    (by simp [fields] : ("description", x.description) ∈ x.fields)
  rw [toValue_eq, kept_record]
  simp only [ofValue, indexed, surface, requiredField, fieldOr, hname, hdescription, bind, Except.bind,
    Option.getD_some, kept]

theorem agrees_kept (h : x.toValue.IsRead) : x.Agrees x.kept := by
  rw [toValue_eq] at h
  have hfields := isLenient_ofFields.mp h.lenient
  simp only [fields, List.forall_mem_cons] at hfields
  exact ⟨hfields.1.agrees_kept, hfields.2.1.agrees_kept⟩

end Variable

/-! ### Questions -/

namespace Question

/-- The fields of a question's record. -/
def fields (x : Question) : List (String × Value) :=
  [("name", x.name), ("text", x.text)]

theorem nodup_fields (x : Question) : (x.fields.map Prod.fst).Nodup := by
  show ["name", "text"].Nodup
  decide

theorem toValue_eq (x : Question) : x.toValue = .record (ofFields x.fields) := rfl

/-- A question with its parts as they are kept. -/
def kept (x : Question) : Question :=
  ⟨x.name.kept, x.text.kept⟩

/-- The same question as data. -/
structure Agrees (x y : Question) : Prop where
  name : x.name.Agrees y.name
  text : x.text.Agrees y.text

variable {x y : Question} {v : Value}

theorem Agrees.toValue (h : x.Agrees y) : x.toValue.Agrees y.toValue := by
  rw [toValue_eq, toValue_eq]
  exact agrees_ofFields (.cons ⟨rfl, h.name⟩ (.cons ⟨rfl, h.text⟩ .nil))

/-- The parts of a question that was read can be read. -/
theorem isRead_toValue (hv : v.IsRead) (h : ofValue v = .ok x) : x.toValue.IsRead := by
  simp only [ofValue, bind_eq_ok_iff, requiredField_eq_ok_iff] at h
  obtain ⟨es, hes, name, hname, h⟩ := h
  cases h
  have hrecord := hv.of_indexed hes
  rw [toValue_eq]
  refine .ofFields (nodup_fields _) ?_
  simp only [fields, List.forall_mem_cons]
  exact ⟨hrecord.field hname, hrecord.fieldOr (.str ""), by simp⟩

theorem ofValue_kept (x : Question) : ofValue x.toValue.kept = .ok x.kept := by
  have hname := field_kept x.nodup_fields (by simp [fields] : ("name", x.name) ∈ x.fields)
  have htext := field_kept x.nodup_fields (by simp [fields] : ("text", x.text) ∈ x.fields)
  rw [toValue_eq, kept_record]
  simp only [ofValue, indexed, surface, requiredField, fieldOr, hname, htext, bind, Except.bind,
    Option.getD_some, kept]

theorem agrees_kept (h : x.toValue.IsRead) : x.Agrees x.kept := by
  rw [toValue_eq] at h
  have hfields := isLenient_ofFields.mp h.lenient
  simp only [fields, List.forall_mem_cons] at hfields
  exact ⟨hfields.1.agrees_kept, hfields.2.1.agrees_kept⟩

end Question

/-! ### Possible answers -/

namespace PossibleAnswer

/-- The fields of a possible answer's record. -/
def fields (p : PossibleAnswer) : List (String × Value) :=
  [("id", .str p.id), ("question", p.question), ("formula", p.formula), ("variables", .list p.variableNames)]

theorem nodup_fields (p : PossibleAnswer) : (p.fields.map Prod.fst).Nodup := by
  show ["id", "question", "formula", "variables"].Nodup
  decide

theorem toValue_eq (p : PossibleAnswer) : p.toValue = .record (ofFields p.fields) := rfl

/-- A possible answer with its parts as they are kept. -/
def kept (p : PossibleAnswer) : PossibleAnswer :=
  ⟨p.id, p.question.kept, p.formula.kept, p.variableNames.map Value.kept⟩

/-- The same possible answer as data: the same identifier, and the same variables in order. -/
structure Agrees (p q : PossibleAnswer) : Prop where
  id : p.id = q.id
  question : p.question.Agrees q.question
  formula : p.formula.Agrees q.formula
  variableNames : List.Forall₂ Value.Agrees p.variableNames q.variableNames

variable {p q : PossibleAnswer} {v : Value}

theorem Agrees.toValue (h : p.Agrees q) : p.toValue.Agrees q.toValue := by
  rw [toValue_eq, toValue_eq]
  have hid : (Value.str p.id).Agrees (.str q.id) := by rw [h.id, Value.Agrees.eq_def]
  exact agrees_ofFields (.cons ⟨rfl, hid⟩ (.cons ⟨rfl, h.question⟩ (.cons ⟨rfl, h.formula⟩
    (.cons ⟨rfl, agrees_list h.variableNames⟩ .nil))))

/-- The parts of a possible answer that was read can be read; its identifier is a text now. -/
theorem isRead_toValue (hv : v.IsRead) (h : ofValue v = .ok p) : p.toValue.IsRead := by
  simp only [ofValue, bind_eq_ok_iff, requiredField_eq_ok_iff] at h
  obtain ⟨es, hes, given, -, id, -, question, hquestion, formula, hformula, names, hnames, h⟩ := h
  cases h
  have hrecord := hv.of_indexed hes
  have hlisted : (Value.fieldOr es "variables" (.list [])).IsRead := hrecord.fieldOr .emptyList
  rw [toValue_eq]
  refine .ofFields (nodup_fields _) ?_
  simp only [fields, List.forall_mem_cons]
  exact ⟨.str _, hrecord.field hquestion, hrecord.field hformula, .ofItems (hlisted.of_members hnames), by simp⟩

theorem ofValue_kept (p : PossibleAnswer) : ofValue p.toValue.kept = .ok p.kept := by
  have hfield : ∀ name v, (name, v) ∈ p.fields →
      field? (ofFields ((sortByKey p.fields).map keptField)) name = some v.kept :=
    fun name v hmem => field_kept p.nodup_fields hmem
  have hid := hfield "id" (.str p.id) (by simp [fields])
  have hquestion := hfield "question" p.question (by simp [fields])
  have hformula := hfield "formula" p.formula (by simp [fields])
  have hnames := hfield "variables" (.list p.variableNames) (by simp [fields])
  have hread : readId (Value.str p.id).kept = .ok p.id := rfl
  rw [kept_list] at hnames
  rw [toValue_eq, kept_record]
  simp only [ofValue, indexed, surface, requiredField, fieldOr, hid, hquestion, hformula, hnames, hread,
    bind, Except.bind, Option.getD_some, members, kept]

theorem agrees_kept (h : p.toValue.IsRead) : p.Agrees p.kept := by
  rw [toValue_eq] at h
  have hfields := isLenient_ofFields.mp h.lenient
  simp only [fields, List.forall_mem_cons] at hfields
  obtain ⟨-, hquestion, hformula, hnames, -⟩ := hfields
  refine ⟨rfl, hquestion.agrees_kept, hformula.agrees_kept, ?_⟩
  rw [kept, List.forall₂_map_right_iff, List.forall₂_same]
  cases hnames with
  | list hparts => exact fun x hx => (hparts x hx).agrees_kept

end PossibleAnswer

/-! ### Questionnaires -/

namespace Questionnaire

/-- The fields of a questionnaire's record. -/
def fields (q : Questionnaire) : List (String × Value) :=
  [("name", q.name), ("variables", .list (q.declaredVariables.map (·.toValue))),
   ("questions", .list (q.questions.map (·.toValue))),
   ("possible_answers", .list (q.possibleAnswers.map (·.toValue))), ("metadata", q.metadata)]

theorem nodup_fields (q : Questionnaire) : (q.fields.map Prod.fst).Nodup := by
  show ["name", "variables", "questions", "possible_answers", "metadata"].Nodup
  decide

theorem toValue_eq (q : Questionnaire) : q.toValue = .record (ofFields q.fields) := rfl

/-- A questionnaire with its parts as they are kept. -/
def kept (q : Questionnaire) : Questionnaire where
  name := q.name.kept
  declaredVariables := q.declaredVariables.map (·.kept)
  questions := q.questions.map (·.kept)
  possibleAnswers := q.possibleAnswers.map (·.kept)
  metadata := q.metadata.kept

/-- The same questionnaire as data: the same variables, questions and possible answers in order. -/
structure Agrees (q r : Questionnaire) : Prop where
  name : q.name.Agrees r.name
  declaredVariables : List.Forall₂ Variable.Agrees q.declaredVariables r.declaredVariables
  questions : List.Forall₂ Question.Agrees q.questions r.questions
  possibleAnswers : List.Forall₂ PossibleAnswer.Agrees q.possibleAnswers r.possibleAnswers
  metadata : q.metadata.Agrees r.metadata

/-- Lists agree as data if their items do. -/
private theorem agrees_map {α : Type} {R : α → α → Prop} {toValue : α → Value} {xs ys : List α}
    (hitems : ∀ x y, R x y → (toValue x).Agrees (toValue y)) (h : List.Forall₂ R xs ys) :
    (Value.list (xs.map toValue)).Agrees (.list (ys.map toValue)) := by
  refine agrees_list ?_
  rw [List.forall₂_map_left_iff, List.forall₂_map_right_iff]
  exact h.imp hitems

variable {q r : Questionnaire} {v : Value}

theorem Agrees.toValue (h : q.Agrees r) : q.toValue.Agrees r.toValue := by
  rw [toValue_eq, toValue_eq]
  exact agrees_ofFields (.cons ⟨rfl, h.name⟩
    (.cons ⟨rfl, agrees_map (fun _ _ => Variable.Agrees.toValue) h.declaredVariables⟩
    (.cons ⟨rfl, agrees_map (fun _ _ => Question.Agrees.toValue) h.questions⟩
    (.cons ⟨rfl, agrees_map (fun _ _ => PossibleAnswer.Agrees.toValue) h.possibleAnswers⟩
    (.cons ⟨rfl, h.metadata⟩ .nil)))))

/-- Where each item is read into what can be read again, the list of them can. -/
private theorem isRead_list {α : Type} {one : Value → Except Fault α} {toValue : α → Value}
    {listed : Value} {items : List Value} {xs : List α} (hlisted : listed.IsRead)
    (hitems : listed.members = .ok items) (hread : items.mapM one = .ok xs)
    (hone : ∀ item x, item.IsRead → one item = .ok x → (toValue x).IsRead) :
    IsRead (.list (xs.map toValue)) := by
  refine .ofItems fun y hy => ?_
  obtain ⟨x, hx, rfl⟩ := List.mem_map.mp hy
  obtain ⟨item, hitem, hx⟩ := exists_of_forall₂ (mapM_eq_ok_iff.mp hread).flip x hx
  exact hone item x (hlisted.of_members hitems item hitem) hx

/-- **The data of a questionnaire that was read can be read.** -/
theorem isRead_toValue (hv : v.IsRead) (h : ofValue v = .ok q) : q.toValue.IsRead := by
  simp only [ofValue, bind_eq_ok_iff] at h
  obtain ⟨es, hes, declared, ⟨listed, hlisted, hdeclared⟩, questions, ⟨asked, hasked, hquestions⟩, answers,
    ⟨offered, hoffered, hanswers⟩, h⟩ := h
  cases h
  have hrecord := hv.of_entries hes
  have hlist : ∀ name, (Value.fieldOr es name (.list [])).IsRead := fun name =>
    hrecord.fieldOr .emptyList
  rw [toValue_eq]
  refine .ofFields (nodup_fields _) ?_
  simp only [fields, List.forall_mem_cons]
  exact ⟨hrecord.fieldOr (.str ""),
    isRead_list (hlist _) hlisted hdeclared fun _ _ => Variable.isRead_toValue,
    isRead_list (hlist _) hasked hquestions fun _ _ => Question.isRead_toValue,
    isRead_list (hlist _) hoffered hanswers fun _ _ => PossibleAnswer.isRead_toValue,
    hrecord.fieldOr .emptyRecord, by simp⟩

/-- Where each item is kept as it is read, a list of them is. -/
private theorem mapM_kept {α : Type} {one : Value → Except Fault α} {toValue : α → Value} {kept : α → α}
    (h : ∀ x, one (toValue x).kept = .ok (kept x)) (xs : List α) :
    ((xs.map toValue).map Value.kept).mapM one = .ok (xs.map kept) := by
  rw [List.map_map, List.mapM_map]
  exact mapM_of_forall fun x _ => h x

/-- **What is kept of a questionnaire's data is read as the questionnaire with each part as it
is kept.** -/
theorem ofValue_kept (q : Questionnaire) : ofValue q.toValue.kept = .ok q.kept := by
  have hfield : ∀ name v, (name, v) ∈ q.fields →
      field? (ofFields ((sortByKey q.fields).map keptField)) name = some v.kept :=
    fun name v hmem => field_kept q.nodup_fields hmem
  have hname := hfield "name" q.name (by simp [fields])
  have hvariables := hfield "variables" (.list (q.declaredVariables.map (·.toValue))) (by simp [fields])
  have hquestions := hfield "questions" (.list (q.questions.map (·.toValue))) (by simp [fields])
  have hanswers := hfield "possible_answers" (.list (q.possibleAnswers.map (·.toValue))) (by simp [fields])
  have hmetadata := hfield "metadata" q.metadata (by simp [fields])
  rw [kept_list] at hvariables hquestions hanswers
  rw [toValue_eq, kept_record]
  simp only [ofValue, entries, surface, fieldOr, hname, hvariables, hquestions, hanswers, hmetadata, bind,
    Except.bind, Option.getD_some, members, mapM_kept Variable.ofValue_kept, mapM_kept Question.ofValue_kept,
    mapM_kept PossibleAnswer.ofValue_kept, kept]

/-- Where the data of each item can be read, a list of them agrees with what is kept. -/
private theorem forall₂_kept {α : Type} {R : α → α → Prop} {toValue : α → Value} {kept : α → α}
    {xs : List α} (hone : ∀ x, (toValue x).IsRead → R x (kept x)) (h : IsRead (.list (xs.map toValue))) :
    List.Forall₂ R xs (xs.map kept) := by
  rw [List.forall₂_map_right_iff, List.forall₂_same]
  exact fun x hx => hone x (h.item _ (List.mem_map_of_mem hx))

theorem agrees_kept (h : q.toValue.IsRead) : q.Agrees q.kept := by
  rw [toValue_eq] at h
  have hfields : ∀ f ∈ q.fields, f.2.IsRead := fun f hf => (h.entry _ (mem_ofFields.mpr hf)).2
  simp only [fields, List.forall_mem_cons] at hfields
  obtain ⟨hname, hvariables, hquestions, hanswers, hmetadata, -⟩ := hfields
  exact ⟨hname.lenient.agrees_kept, forall₂_kept (fun _ => Variable.agrees_kept) hvariables,
    forall₂_kept (fun _ => Question.agrees_kept) hquestions,
    forall₂_kept (fun _ => PossibleAnswer.agrees_kept) hanswers, hmetadata.lenient.agrees_kept⟩

/-! ### Texts -/

theorem ofJson_eq_ok_iff {text : String} :
    ofJson text = .ok q ↔ ∃ v, Json.read Value.ofShown text.toList = .ok v ∧ ofValue v = .ok q :=
  bind_eq_ok_iff

/--
**Questionnaires survive JSON.**  A questionnaire that was read from JSON can be written, and what is
written is read again.  The questionnaire that is read then has the same data: the same variables,
questions and possible answers in order, each with the same parts, the same identifiers and the same
variables in order.  That data has no key twice and no tuple.  Written once more it has the same text.
-/
theorem ofJson_toJson {text : String} (h : ofJson text = .ok q) :
    ∃ written again, q.toJson = .ok written ∧ ofJson written = .ok again ∧ again.toJson = .ok written ∧
      q.Agrees again ∧ q.toValue.Agrees again.toValue ∧ q.toValue.IsRead ∧ again.toValue.IsRead := by
  obtain ⟨v, hv, hq⟩ := ofJson_eq_ok_iff.mp h
  have hdata : q.toValue.IsRead := isRead_toValue (isRead_of_read hv) hq
  have hkept : q.kept.toValue.IsRead := isRead_toValue hdata.kept q.ofValue_kept
  have hagrees : q.Agrees q.kept := agrees_kept hdata
  refine ⟨String.ofList (spelt .spaced q.toValue), q.kept, readable_of_isLenient hdata.lenient hdata.keyed,
    ofJson_eq_ok_iff.mpr ⟨_, read_readable hdata.lenient hdata.keyed, q.ofValue_kept⟩, ?_, hagrees,
    hagrees.toValue, hdata, hkept⟩
  rw [toJson, readable_of_isLenient hkept.lenient hkept.keyed,
    spelt_eq_of_agrees hdata.lenient hkept.lenient hdata.keyed hkept.keyed hagrees.toValue]

/-- A record that leaves out most, has a number for an identifier and names its variables in one
text. -/
def casual : Value :=
  .record (ofFields
    [("metadata", .record (ofFields [("best", .float (Binary64.encode (.infinite false))), ("worst", .nan 0)])),
     ("possible_answers", .list
       [.record (ofFields
         [("formula", .str "n + 1"), ("id", .int 7), ("question", .null), ("variables", .str "n😀")])])])

/-- That record as a text. -/
def casualText : String :=
  "\x7b\"metadata\": \x7b\"best\": Infinity, \"worst\": NaN\x7d, " ++
    "\"possible_answers\": [\x7b\"formula\": \"n + 1\", \"id\": 7, \"question\": null, \"variables\": \"n\\ud83d\\ude00\"\x7d]\x7d"

/-- The questionnaire that it describes. -/
def ofCasual : Questionnaire where
  name := .str ""
  declaredVariables := []
  questions := []
  possibleAnswers := [⟨"7", .null, .str "n + 1", [.str "n", .str "😀"]⟩]
  metadata := .record [(.str "best", .float (Binary64.encode (.infinite false))), (.str "worst", .nan 0)]

theorem isRead_casual : casual.IsRead := by
  refine .ofFields (by decide) ?_
  simp only [List.forall_mem_cons]
  refine ⟨.ofFields (by decide) ?_, .ofItems (List.forall_mem_singleton.mpr (.ofFields (by decide) ?_)), by simp⟩
  · simp only [List.forall_mem_cons]
    exact ⟨isRead_names ("Infinity".toList, _) (by simp [Json.names]), .ofLeaf .nan rfl, by simp⟩
  · simp only [List.forall_mem_cons]
    exact ⟨.str _, .ofLeaf (.int (by decide +kernel)) rfl, .ofLeaf .null rfl, .str _, by simp⟩

theorem ofValue_casual : ofValue casual = .ok ofCasual := by
  have hid : PossibleAnswer.readId (.int 7) = .ok "7" := by
    unfold PossibleAnswer.readId
    rw [identifier?_int (by decide +kernel)]
    rfl
  show (([_].mapM PossibleAnswer.ofValue : Except Fault (List PossibleAnswer)) >>= _) = _
  rw [mapM_of_forall (g := fun _ => ⟨"7", .null, .str "n + 1", [.str "n", .str "😀"]⟩)]
  · rfl
  · refine List.forall_mem_singleton.mpr ?_
    show (PossibleAnswer.readId (.int 7) >>= _) = _
    rw [hid]
    rfl

theorem ofJson_casualText : ofJson casualText = .ok ofCasual := by
  have hbest : spelt .spaced (.float (Binary64.encode (.infinite false))) = "Infinity".toList :=
    float_infinite (Binary64.decode_encode_infinite false)
  -- The keys of all three records stand in order already.
  have htext : casualText = String.ofList (spelt .spaced casual) := by
    unfold casual
    rw [spelt_record, sortByKey_eq_self (by decide)]
    simp only [List.map_cons, List.map_nil, entrySpelt, spelt_record, spelt_list]
    rw [sortByKey_eq_self (by decide), sortByKey_eq_self (by decide)]
    simp only [List.map_cons, List.map_nil, entrySpelt, hbest]
    cbv
  have hkept : casual.kept = casual := by
    unfold casual
    rw [kept_record, sortByKey_eq_self (by decide)]
    simp only [List.map_cons, List.map_nil, keptField, kept_record, kept_list]
    rw [sortByKey_eq_self (by decide), sortByKey_eq_self (by decide)]
    rfl
  refine ofJson_eq_ok_iff.mpr ⟨casual, ?_, ofValue_casual⟩
  rw [htext, read_readable isRead_casual.lenient isRead_casual.keyed, hkept]

/-- The theorem for that text: the identifier and the variables are texts from then on. -/
theorem ofJson_toJson_casual :
    ofJson casualText = .ok ofCasual ∧
      ∃ written again, ofCasual.toJson = .ok written ∧ ofJson written = .ok again ∧
        again.toJson = .ok written ∧ ofCasual.Agrees again := by
  obtain ⟨written, again, hwritten, hagain, hsame, hagrees, -⟩ := ofJson_toJson ofJson_casualText
  exact ⟨ofJson_casualText, written, again, hwritten, hagain, hsame, hagrees⟩

end Questionnaire

end Scorecard
