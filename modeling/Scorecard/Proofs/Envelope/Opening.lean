/-
How opening a score can fail.

What comes out of a genuine envelope is any data at all, and the reader of scores takes
it apart without looking at its shape first.  Every fault of a wrong shape is of a family
that makes the envelope malformed.  One fault is of no such family: an integer beyond all
doubles, where a number is read.  Numbers are read in three places of a score's record: the
value of an answer, its bindings, and the stored total.  Everywhere else an integer may be
as large as the reader of JSON lets it be.

The reader of JSON does not let it be of any size.  An integer with too many digits in a
genuine payload is no value, wherever it stands, and that fault is not turned into a refusal
either; nor is it where such an integer would have to be shown, as part of a tag.
-/
import Scorecard.Proofs.Envelope.Tokens
import Scorecard.Proofs.Value.Fields
import Scorecard.Proofs.Value.Numbers

namespace Scorecard

open Value

/-! ### Integers beyond all doubles -/

/-- The record of an answer has such an integer where a number is read. -/
inductive AnswerScore.Overflows (v : Value) : Prop
  | value {es : List (Value × Value)} {x : Value} (record : v.indexed = .ok es)
      (field : field? es "value" = some x) (huge : x.IsHuge)
  | binding {es bound : List (Value × Value)} {b : Value × Value} (record : v.indexed = .ok es)
      (field : (fieldOr es "bindings" (.record [])).entries = .ok bound) (mem : b ∈ bound)
      (huge : b.2.IsHuge)

/-- The record of a session has such an integer where a number is read. -/
inductive SessionScore.Overflows (v : Value) : Prop
  | total {es : List (Value × Value)} (record : v.entries = .ok es)
      (huge : (fieldOr es "total" .null).IsHuge)
  | answer {es : List (Value × Value)} {answers : List Value} {a : Value}
      (record : v.entries = .ok es) (field : (fieldOr es "answers" (.list [])).members = .ok answers)
      (mem : a ∈ answers) (overflows : AnswerScore.Overflows a)

/-- An integer has too many digits where it would be text: in a tag that is refused, or in a
payload with its own digest. -/
inductive Presented.TooLong (signer : Signer) (p : Presented) : Prop
  | tag (other : p.algorithm.same (.str envelopeTag) = false) (long : p.algorithm.hasLiteral = false)
  | payload {e : Envelope} {document : String} (tagged : p.check = .ok e)
      (genuine : e.mac = Hmac.mac signer.key e.payload) (octets : octetsText? e.payload = some document)
      (long : Value.ofJson document = .error .tooManyDigits) (digits : Json.Overlong document.toList)

/-! ### Faults of the wrong shape -/

/-- A fault makes the payload no score, or it is that of a number that is too large. -/
def Fault.Spoils (f : Fault) (overflows : Prop) : Prop :=
  f.family ∈ Signer.refusedFamilies ∨ f = .tooLarge ∧ overflows

theorem Fault.Spoils.imp {f : Fault} {p q : Prop} (h : f.Spoils p) (hpq : p → q) : f.Spoils q :=
  Or.imp_right (And.imp_right hpq) h

namespace Value

variable {v : Value} {f : Fault}

theorem family_of_indexed (h : v.indexed = .error f) : f.family ∈ Signer.refusedFamilies := by
  unfold indexed at h
  split at h <;> cases h
  decide

theorem family_of_entries (h : v.entries = .error f) : f.family ∈ Signer.refusedFamilies := by
  unfold entries at h
  split at h <;> cases h
  decide

theorem family_of_members (h : v.members = .error f) : f.family ∈ Signer.refusedFamilies := by
  unfold members at h
  split at h <;> cases h
  decide

theorem family_of_requiredField {es : List (Value × Value)} {name : String}
    (h : requiredField es name = .error f) : f.family ∈ Signer.refusedFamilies := by
  unfold requiredField at h
  split at h <;> cases h
  simp [Signer.refusedFamilies, Fault.family]

/-- What is no number has no meaning as one, or is of the wrong kind. -/
theorem spoils_of_toFloat (h : v.toFloat = .error f) : f.Spoils v.IsHuge := by
  by_cases hlarge : f = .tooLarge
  · subst hlarge
    exact .inr ⟨rfl, isHuge_of_toFloat h⟩
  · left
    unfold toFloat at h
    split at h <;> try split at h
    all_goals cases h
    all_goals first | decide | exact absurd rfl hlarge

theorem spoils_of_readNumbers {entries : List (Value × Value)} (h : readNumbers entries = .error f) :
    f.Spoils (∃ e ∈ entries, e.2.IsHuge) := by
  induction entries with
  | nil => cases h
  | cons e rest ih =>
      obtain ⟨name, value⟩ := e
      rw [readNumbers] at h
      rcases bind_eq_error_iff.mp h with hvalue | ⟨x, -, h⟩
      · exact (spoils_of_toFloat hvalue).imp fun hhuge => ⟨_, List.mem_cons_self, hhuge⟩
      rcases bind_eq_error_iff.mp h with hrest | ⟨more, -, h⟩
      · refine (ih hrest).imp fun hhuge => ?_
        obtain ⟨e, he, hlarge⟩ := hhuge
        exact ⟨e, List.mem_cons_of_mem _ he, hlarge⟩
      · cases h

end Value

theorem AnswerScore.spoils_of_ofValue {v : Value} {f : Fault} (h : ofValue v = .error f) :
    f.Spoils (Overflows v) := by
  unfold ofValue at h
  rcases bind_eq_error_iff.mp h with hrecord | ⟨es, hrecord, h⟩
  · exact .inl (family_of_indexed hrecord)
  rcases bind_eq_error_iff.mp h with hformula | ⟨formula, -, h⟩
  · exact .inl (family_of_requiredField hformula)
  rcases bind_eq_error_iff.mp h with hgiven | ⟨given, hgiven, h⟩
  · exact .inl (family_of_entries hgiven)
  rcases bind_eq_error_iff.mp h with hbindings | ⟨bindings, -, h⟩
  · exact (spoils_of_readNumbers hbindings).imp fun ⟨b, hb, hhuge⟩ => .binding hrecord hgiven hb hhuge
  rcases bind_eq_error_iff.mp h with hfield | ⟨x, hfield, h⟩
  · exact .inl (family_of_requiredField hfield)
  rcases bind_eq_error_iff.mp h with hvalue | ⟨value, -, h⟩
  · exact (spoils_of_toFloat hvalue).imp fun hhuge => .value hrecord (requiredField_eq_ok_iff.mp hfield) hhuge
  · cases h

namespace SessionScore

theorem spoils_of_checkTotal {stored : Value} {s : SessionScore} {f : Fault}
    (h : checkTotal stored s = .error f) : f.Spoils stored.IsHuge := by
  unfold checkTotal at h
  split at h
  · cases h
  · rcases bind_eq_error_iff.mp h with hstored | ⟨x, -, h⟩
    · exact spoils_of_toFloat hstored
    · split at h
      · cases h
      · cases h
        left
        simp [Signer.refusedFamilies, Fault.family]

/-- **A payload of any wrong shape is no score, and an integer is too large only where a number
is read.** -/
theorem spoils_of_ofValue {v : Value} {f : Fault} (h : ofValue v = .error f) : f.Spoils (Overflows v) := by
  unfold ofValue at h
  rcases bind_eq_error_iff.mp h with hrecord | ⟨es, hrecord, h⟩
  · exact .inl (family_of_entries hrecord)
  rcases bind_eq_error_iff.mp h with hmembers | ⟨members, hmembers, h⟩
  · exact .inl (family_of_members hmembers)
  rcases bind_eq_error_iff.mp h with hanswers | ⟨answers, -, h⟩
  · obtain ⟨a, ha, hfault⟩ := exists_of_mapM_error hanswers
    exact (AnswerScore.spoils_of_ofValue hfault).imp fun hoverflows => .answer hrecord hmembers ha hoverflows
  rcases bind_eq_error_iff.mp h with htotal | ⟨-, -, h⟩
  · exact (spoils_of_checkTotal htotal).imp fun hhuge => .total hrecord hhuge
  · cases h

end SessionScore

/-! ### Opening -/

namespace Signer

theorem scoreOf_outcome (payload : Value) :
    (∃ score, scoreOf payload = .ok score) ∨ (∃ e, scoreOf payload = .error (.integrity e)) ∨
      scoreOf payload = .error (.fault .tooLarge) ∧ SessionScore.Overflows payload := by
  unfold scoreOf
  split
  · rename_i score _
    exact .inl ⟨score, rfl⟩
  · rename_i f hfault
    rcases SessionScore.spoils_of_ofValue hfault with hfamily | ⟨rfl, hoverflows⟩
    · exact .inr (.inl ⟨_, if_pos hfamily⟩)
    · exact .inr (.inr ⟨if_neg (by decide), hoverflows⟩)

/-- An envelope is verified, or refused, or an integer in it is too long to be text. -/
theorem read_outcome (signer : Signer) (p : Presented) :
    (∃ payload, signer.read p = .ok payload) ∨ (∃ e, signer.read p = .error (.integrity e)) ∨
      signer.read p = .error (.fault .tooManyDigits) ∧ p.TooLong signer := by
  cases hread : signer.read p with
  | ok payload => exact .inl ⟨payload, rfl⟩
  | error failure =>
      cases failure with
      | integrity e => exact .inr (.inl ⟨e, rfl⟩)
      | fault f =>
          right
          right
          rcases bind_eq_error_iff.mp hread with hcheck | ⟨e, hcheck, hverify⟩
          · unfold Presented.check at hcheck
            split at hcheck
            · split at hcheck <;> cases hcheck
            · rename_i hother
              split at hcheck
              · cases hcheck
              · rename_i hlong
                cases hcheck
                exact ⟨rfl, .tag (Bool.eq_false_of_not_eq_true hother) (Bool.eq_false_of_not_eq_true hlong)⟩
          · obtain ⟨hmac, rfl, hoctets⟩ := signer.verify_eq_fault_iff.mp hverify
            rcases of_ofOctets_error hoctets with hjson | ⟨-, document, hdocument, hlong, hdigits⟩
            · cases hjson
            · exact ⟨rfl, .payload hcheck hmac hdocument hlong hdigits⟩

/-- **Opening gives a score or a refusal, but for integers that are too large.**  Of every
envelope, whatever its payload is, comes a score, or an integrity error, or one of two
faults.  A number is too large only if the envelope is genuine and its payload has an
integer beyond all doubles where a number is read; and there are too many digits only in
an integer of a genuine payload, or of a tag that is not this library's. -/
theorem readScore_outcome (signer : Signer) (p : Presented) :
    (∃ score, signer.readScore p = .ok score) ∨
    (∃ e, signer.readScore p = .error (.integrity e)) ∨
    (signer.readScore p = .error (.fault .tooLarge) ∧
      ∃ payload, signer.read p = .ok payload ∧ SessionScore.Overflows payload) ∨
    (signer.readScore p = .error (.fault .tooManyDigits) ∧ p.TooLong signer) := by
  unfold readScore
  rcases signer.read_outcome p with ⟨payload, hread⟩ | ⟨e, hread⟩ | ⟨hread, hlong⟩
  · rw [hread]
    rcases scoreOf_outcome payload with hscore | hrefused | ⟨hfault, hoverflows⟩
    · exact .inl hscore
    · exact .inr (.inl hrefused)
    · exact .inr (.inr (.inl ⟨hfault, payload, rfl, hoverflows⟩))
  · rw [hread]
    exact .inr (.inl ⟨e, rfl⟩)
  · rw [hread]
    exact .inr (.inr (.inr ⟨rfl, hlong⟩))

/-- A record that states a total beyond all doubles is sealed, and then not opened. -/
theorem readScore_of_huge_total (signer : Signer) {n : Int} (hshort : Decimal.isShort n = true)
    (hn : Binary64.ofInt? n = none) :
    ∃ e, signer.signValue (.record [(.str "total", .int n)]) = .ok e ∧
      signer.readScore e.present = .error (.fault .tooLarge) := by
  have hjson : Value.IsJson (.record [(.str "total", .int n)]) := by
    refine .record (by simp) ?_
    simp only [List.forall_mem_cons]
    exact ⟨.int hshort, by simp⟩
  have hkeyed : Value.WellKeyed (.record [(.str "total", .int n)]) := by
    refine .ofEntries (by simp) ?_
    simp only [List.forall_mem_cons]
    exact ⟨WellKeyed.int _, by simp⟩
  have hkept : (Value.record [(.str "total", .int n)]).kept = .record [(.str "total", .int n)] := by
    simp [kept, fieldsKept, Json.sortByKey, ofFields]
  have hfloat : (Value.int n).toFloat = .error .tooLarge := by
    rw [toFloat, hn]
  refine ⟨_, signValue_of_isJson signer hjson, ?_⟩
  unfold readScore
  rw [read_sign _ hjson hkeyed, hkept]
  simp [scoreOf, SessionScore.ofValue, SessionScore.checkTotal, entries, surface, members, fieldOr,
    field?, lookup?, bind, Except.bind, pure, Except.pure, hfloat, refusedFamilies, Fault.family]

/-- A sealed record that states a total of 311 digits is neither read as a score nor refused. -/
theorem readScore_huge_total :
    ∃ e, (Signer.mk [107] (by decide)).signValue
        (.record [(.str "total", .int (10 ^ 155 * 10 ^ 155))]) = .ok e ∧
      (∀ score, (Signer.mk [107] (by decide)).readScore e.present ≠ .ok score) ∧
      ∀ error, (Signer.mk [107] (by decide)).readScore e.present ≠ .error (.integrity error) := by
  have hhuge : Binary64.ofInt? (10 ^ 155 * 10 ^ 155) = none := by decide +kernel
  have hshort : Decimal.isShort (10 ^ 155 * 10 ^ 155) = true := by decide +kernel
  obtain ⟨e, hsealed, hfault⟩ := readScore_of_huge_total (Signer.mk [107] (by decide)) hshort hhuge
  exact ⟨e, hsealed, by simp [hfault], by simp [hfault]⟩

end Signer

end Scorecard
