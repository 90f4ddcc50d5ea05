/-
Which lines of text are accepted.

A line is cut at its points, and two of the three segments are read as octets.  Both
steps can be taken back: the segments joined by points are the line, and a segment that is
read as octets is the text of those octets and of no others.  So an envelope has one
line, and a line that is accepted is the line of a payload with its own digest.

Everything else is refused, with one exception.  A payload may have its own digest and
still be no value, because an integer in it has too many digits; that is a fault, and no
refusal of the line.  Of the refusals, a digest that is not the payload's is the one thing
told apart from all the others; and no refusal says more than which check failed, how many
segments there were, or which tag stood in front.
-/
import Scorecard.Proofs.Envelope.Sealing
import Scorecard.Proofs.Json.Refusals

namespace Scorecard

namespace Envelope

/-! ### Segments -/

theorem segments_ne_nil (text : List Char) : segments text ≠ [] := by
  cases text with
  | nil => simp [segments]
  | cons c rest =>
      rw [segments]
      split
      · simp
      · split
        · simp
        · simp

/-- The first segment reaches to the first point, and the others are those of what stands
behind it. -/
theorem of_segments_eq_cons {text first : List Char} {others : List (List Char)}
    (h : segments text = first :: others) :
    '.' ∉ first ∧
      (text = first ∧ others = [] ∨ ∃ rest, text = first ++ '.' :: rest ∧ segments rest = others) := by
  induction text generalizing first with
  | nil =>
      cases h
      exact ⟨List.not_mem_nil, .inl ⟨rfl, rfl⟩⟩
  | cons c rest ih =>
      rw [segments] at h
      split at h
      · rename_i hc
        cases h
        exact ⟨List.not_mem_nil, .inr ⟨rest, by rw [hc]; rfl, rfl⟩⟩
      · rename_i hc
        split at h
        · rename_i hrest
          exact absurd hrest (segments_ne_nil rest)
        · rename_i front more hrest
          cases h
          obtain ⟨hfront, hcases⟩ := ih hrest
          refine ⟨?_, ?_⟩
          · rw [List.mem_cons, not_or]
            exact ⟨Ne.symm hc, hfront⟩
          · rcases hcases with ⟨rfl, rfl⟩ | ⟨behind, rfl, rfl⟩
            · exact .inl ⟨rfl, rfl⟩
            · exact .inr ⟨behind, rfl, rfl⟩

/-- A text has three segments if it is three texts without points, joined by points. -/
theorem segments_eq_three_iff {text a b c : List Char} :
    segments text = [a, b, c] ↔
      text = a ++ '.' :: (b ++ '.' :: c) ∧ '.' ∉ a ∧ '.' ∉ b ∧ '.' ∉ c := by
  constructor
  · intro h
    obtain ⟨ha, ⟨-, hnone⟩ | ⟨rest, rfl, hrest⟩⟩ := of_segments_eq_cons h
    · cases hnone
    obtain ⟨hb, ⟨-, hnone⟩ | ⟨last, rfl, hlast⟩⟩ := of_segments_eq_cons hrest
    · cases hnone
    obtain ⟨hc, ⟨rfl, -⟩ | ⟨more, rfl, hmore⟩⟩ := of_segments_eq_cons hlast
    · exact ⟨rfl, ha, hb, hc⟩
    · exact absurd hmore (segments_ne_nil more)
  · rintro ⟨rfl, ha, hb, hc⟩
    rw [segments_append ha, segments_append hb, segments_of_no_point hc]

/-- A segment is read as octets if it is the text of those octets. -/
theorem decodeSegment_eq_ok_iff {segment : List Char} {octets : List UInt8} :
    decodeSegment segment = .ok octets ↔ segment = Base64Url.encode octets := by
  rw [← Base64Url.decode_eq_some_iff]
  unfold decodeSegment
  constructor
  · intro h
    split at h
    · rename_i found hfound
      cases h
      exact hfound
    · split at h <;> cases h
  · intro h
    rw [h]

/-! ### Lines -/

/-- **The line of an envelope is the only text that is read as it.** -/
theorem ofToken_eq_ok_iff {text : String} {e : Envelope} :
    ofToken text = .ok e ↔ text = e.token ∧ '.' ∉ e.algorithm.toList := by
  constructor
  · intro h
    unfold ofToken at h
    split at h
    · rename_i algorithm payload mac hsegments
      simp only [bind, Except.bind] at h
      split at h
      · cases h
      · rename_i octets hpayload
        split at h
        · cases h
        · rename_i digest hmac
          cases h
          obtain rfl := decodeSegment_eq_ok_iff.mp hpayload
          obtain rfl := decodeSegment_eq_ok_iff.mp hmac
          obtain ⟨htext, halgorithm, -, -⟩ := segments_eq_three_iff.mp hsegments
          refine ⟨?_, by rw [String.toList_ofList]; exact halgorithm⟩
          unfold token
          rw [String.toList_ofList, ← htext, String.ofList_toList]
    · cases h
  · rintro ⟨rfl, h⟩
    exact ofToken_token e h

/-- The line "HS256-CJ1.payload.mac" of a payload and a digest. -/
def line (payload mac : List UInt8) : String :=
  "HS256-CJ1." ++ String.ofList (Base64Url.encode payload) ++ "." ++
    String.ofList (Base64Url.encode mac)

theorem token_eq_line (payload mac : List UInt8) :
    token ⟨envelopeTag, payload, mac⟩ = line payload mac := by
  rw [← String.toList_inj]
  simp [token, line, envelopeTag, String.toList_append]

theorem ofToken_eq_tagged_iff {text : String} {payload mac : List UInt8} :
    ofToken text = .ok ⟨envelopeTag, payload, mac⟩ ↔ text = line payload mac := by
  have htag : '.' ∉ envelopeTag.toList := by decide
  rw [ofToken_eq_ok_iff, token_eq_line]
  exact and_iff_left htag

end Envelope

/-! ### Refusals -/

/-- A refusal says which check failed, and of the text at most how many segments it has,
or the segment in front. -/
def IntegrityError.Discreet (text : String) : IntegrityError → Prop
  | .segmentCount count => count = (Envelope.segments text.toList).length
  | .unsupportedAlgorithm algorithm =>
    ∃ first others, Envelope.segments text.toList = first :: others ∧ algorithm = .str (String.ofList first)
  | _ => True

namespace Envelope

/-- A text that is no line of any envelope is malformed. -/
theorem of_ofToken_error {text : String} {e : IntegrityError} (h : ofToken text = .error e) :
    e.kind = .malformed ∧ e.Discreet text := by
  have hsegment : ∀ {segment : List Char} {e : IntegrityError}, decodeSegment segment = .error e →
      e = .segmentNotCanonical ∨ e = .segmentNotBase64 := by
    intro segment e h
    unfold decodeSegment at h
    split at h
    · cases h
    · split at h
      · cases h
        exact .inl rfl
      · cases h
        exact .inr rfl
  unfold ofToken at h
  split at h
  · simp only [bind, Except.bind] at h
    split at h
    · rename_i hpayload
      cases h
      rcases hsegment hpayload with rfl | rfl
      · exact ⟨rfl, trivial⟩
      · exact ⟨rfl, trivial⟩
    · split at h
      · rename_i hmac
        cases h
        rcases hsegment hmac with rfl | rfl
        · exact ⟨rfl, trivial⟩
        · exact ⟨rfl, trivial⟩
      · cases h
  · cases h
    exact ⟨rfl, rfl⟩

/-- A line with half of a surrogate pair in it is malformed. -/
theorem kind_brokenLine (text : BrokenText) : (brokenLine text).kind = .malformed := by
  unfold brokenLine
  split
  · rename_i e he
    exact (of_ofToken_error he).1
  · rfl

end Envelope

/-! ### Payloads -/

namespace Value

variable {octets : List UInt8} {f : Fault}

/-- Octets are read as a value if they are those of a text that is. -/
theorem ofOctets_eq_ok_iff {v : Value} :
    ofOctets octets = .ok v ↔ ∃ document, octetsText? octets = some document ∧ ofJson document = .ok v := by
  unfold ofOctets
  cases octetsText? octets <;> simp

/-- Octets that are no value are no JSON, or the octets of a text with too many digits in it. -/
theorem of_ofOctets_error (h : ofOctets octets = .error f) :
    f = .badJson ∨ f = .tooManyDigits ∧ ∃ document, octetsText? octets = some document ∧
      ofJson document = .error .tooManyDigits ∧ Json.Overlong document.toList := by
  unfold ofOctets at h
  split at h
  · rename_i document hdocument
    cases Json.refused_of_read h with
    | badJson => exact .inl rfl
    | tooManyDigits long => exact .inr ⟨rfl, document, hdocument, h, long⟩
  · cases h
    exact .inl rfl

/-- A text that is an integer with too many digits is no value. -/
theorem ofOctets_of_digits {digits : List Char} (hdigits : ∀ c ∈ digits, isDigit c = true)
    (hlead : digits.head? ≠ some '0') (hlong : Decimal.digitLimit < digits.length) :
    ofOctets (textOctets (String.ofList digits)) = .error .tooManyDigits := by
  unfold ofOctets
  rw [octetsText_textOctets]
  show ofJson (String.ofList digits) = _
  rw [ofJson, String.toList_ofList, Json.read_of_digits hdigits hlead hlong]

end Value

/-! ### Opening a line -/

theorem IntegrityError.kind_eq_signatureMismatch {e : IntegrityError} :
    e.kind = .signatureMismatch ↔ e = .signatureMismatch := by
  cases e <;> simp [kind]

namespace Signer

variable (signer : Signer) {algorithm : String} {payload mac : List UInt8}

/-- A line is opened as the envelope that it is read as, if the tag is right. -/
theorem readToken_eq (text : String) :
    signer.readToken (.str text) =
      match Envelope.ofToken text with
      | .error e => .error (.integrity e)
      | .ok ⟨algorithm, payload, mac⟩ =>
        if algorithm = envelopeTag then signer.verify ⟨envelopeTag, payload, mac⟩
        else .error (.integrity (.unsupportedAlgorithm (.str algorithm))) := by
  show ((Envelope.ofToken text).mapError Failure.integrity).bind (fun e => signer.read e.present) = _
  cases Envelope.ofToken text with
  | error e => rfl
  | ok e =>
      show e.present.check.bind signer.verify = _
      unfold Presented.check Envelope.present
      simp only [Value.same_str, beq_iff_eq]
      by_cases htag : e.algorithm = envelopeTag
      · rw [if_pos htag, if_pos htag]
        rfl
      · rw [if_neg htag, if_neg htag]
        rfl

/-- A payload is shown if the digest is its own and it is a text that JSON reads. -/
theorem verify_eq_ok_iff {v : Value} :
    signer.verify ⟨algorithm, payload, mac⟩ = .ok v ↔
      mac = Hmac.mac signer.key payload ∧ Value.ofOctets payload = .ok v := by
  unfold verify
  constructor
  · intro h
    split at h
    · rename_i hmac
      split at h
      · rename_i found hfound
        cases h
        exact ⟨hmac.symm, hfound⟩
      · cases h
      · cases h
    · cases h
  · rintro ⟨hmac, hread⟩
    rw [if_pos hmac.symm, hread]

/-- A refusal of an envelope is a mismatch just if the digest is not that of the payload. -/
theorem verify_eq_mismatch_iff :
    signer.verify ⟨algorithm, payload, mac⟩ = .error (.integrity .signatureMismatch) ↔
      mac ≠ Hmac.mac signer.key payload := by
  unfold verify
  by_cases hmac : Hmac.mac signer.key payload = mac
  · rw [if_pos hmac]
    constructor
    · intro h
      split at h <;> cases h
    · intro hne
      exact absurd hmac.symm hne
  · rw [if_neg hmac]
    exact iff_of_true rfl (Ne.symm hmac)

/-- A fault is that of too many digits, in a payload with its own digest. -/
theorem verify_eq_fault_iff {f : Fault} :
    signer.verify ⟨algorithm, payload, mac⟩ = .error (.fault f) ↔
      mac = Hmac.mac signer.key payload ∧ f = .tooManyDigits ∧
        Value.ofOctets payload = .error .tooManyDigits := by
  unfold verify
  constructor
  · intro h
    split at h
    · rename_i hmac
      split at h
      · cases h
      · cases h
      · rename_i g hjson hread
        cases h
        rcases Value.of_ofOctets_error hread with rfl | ⟨rfl, -⟩
        · exact absurd rfl hjson
        · exact ⟨hmac.symm, rfl, hread⟩
    · cases h
  · rintro ⟨hmac, rfl, hread⟩
    rw [if_pos hmac.symm, hread]

theorem of_verify_refused {e : Envelope} {error : IntegrityError}
    (h : signer.verify e = .error (.integrity error)) :
    error = .signatureMismatch ∨ error = .payloadNotJson := by
  unfold verify at h
  split at h
  · split at h
    · cases h
    · cases h
      exact .inr rfl
    · cases h
  · cases h
    exact .inl rfl

variable {signer} {text : String}

/-- The line of a payload is opened by verifying it. -/
theorem readToken_line (payload mac : List UInt8) :
    signer.readToken (.str (Envelope.line payload mac)) = signer.verify ⟨envelopeTag, payload, mac⟩ := by
  rw [readToken_eq, Envelope.ofToken_eq_tagged_iff.mpr rfl]
  exact if_pos rfl

/-- What is no refusal of a line comes from verifying the payload that it is the line of. -/
theorem exists_line {answer : Except Failure Value} (h : signer.readToken (.str text) = answer)
    (hanswer : ∀ e, answer = .error (.integrity e) → e = .signatureMismatch) :
    ∃ payload mac, text = Envelope.line payload mac ∧
      signer.verify ⟨envelopeTag, payload, mac⟩ = answer := by
  rw [readToken_eq] at h
  split at h
  · rename_i e he
    rw [hanswer e h.symm] at he
    exact absurd (Envelope.of_ofToken_error he).1 (by simp [IntegrityError.kind])
  · rename_i algorithm payload mac he
    split at h
    · rename_i htag
      subst htag
      exact ⟨payload, mac, Envelope.ofToken_eq_tagged_iff.mp he, h⟩
    · cases hanswer _ h.symm

/-- **A line is accepted if it is that of a payload with its own digest**, and the payload
is JSON in octets. -/
theorem readToken_eq_ok_iff {v : Value} :
    signer.readToken (.str text) = .ok v ↔
      ∃ payload document, text = Envelope.line payload (Hmac.mac signer.key payload) ∧
        octetsText? payload = some document ∧ Value.ofJson document = .ok v := by
  constructor
  · intro h
    obtain ⟨payload, mac, rfl, hverified⟩ := exists_line h (by simp)
    obtain ⟨rfl, hread⟩ := signer.verify_eq_ok_iff.mp hverified
    obtain ⟨document, hdocument, hv⟩ := Value.ofOctets_eq_ok_iff.mp hread
    exact ⟨payload, document, rfl, hdocument, hv⟩
  · rintro ⟨payload, document, rfl, hdocument, hv⟩
    rw [readToken_line, verify_eq_ok_iff]
    exact ⟨rfl, Value.ofOctets_eq_ok_iff.mpr ⟨document, hdocument, hv⟩⟩

/-- A line is refused as a mismatch if it is that of a payload with another digest. -/
theorem readToken_eq_mismatch_iff :
    signer.readToken (.str text) = .error (.integrity .signatureMismatch) ↔
      ∃ payload mac, text = Envelope.line payload mac ∧ mac ≠ Hmac.mac signer.key payload := by
  constructor
  · intro h
    obtain ⟨payload, mac, rfl, hverified⟩ := exists_line h (by simp)
    exact ⟨payload, mac, rfl, signer.verify_eq_mismatch_iff.mp hverified⟩
  · rintro ⟨payload, mac, rfl, hmac⟩
    rw [readToken_line, verify_eq_mismatch_iff]
    exact hmac

/-- A line is neither accepted nor refused if it is that of a payload with its own digest,
and an integer in the payload has too many digits. -/
theorem readToken_eq_fault_iff {f : Fault} :
    signer.readToken (.str text) = .error (.fault f) ↔
      f = .tooManyDigits ∧ ∃ payload document, text = Envelope.line payload (Hmac.mac signer.key payload) ∧
        octetsText? payload = some document ∧ Value.ofJson document = .error .tooManyDigits ∧
        Json.Overlong document.toList := by
  constructor
  · intro h
    obtain ⟨payload, mac, rfl, hverified⟩ := exists_line h (by simp)
    obtain ⟨rfl, rfl, hread⟩ := signer.verify_eq_fault_iff.mp hverified
    rcases Value.of_ofOctets_error hread with hjson | ⟨-, document, hdocument, hlong⟩
    · cases hjson
    · exact ⟨rfl, payload, document, rfl, hdocument, hlong⟩
  · rintro ⟨rfl, payload, document, rfl, hdocument, hread, -⟩
    rw [readToken_line, verify_eq_fault_iff]
    refine ⟨rfl, rfl, ?_⟩
    unfold Value.ofOctets
    rw [hdocument]
    exact hread

/-- No refusal says anything of the payload. -/
theorem discreet_of_readToken {e : IntegrityError}
    (h : signer.readToken (.str text) = .error (.integrity e)) : e.Discreet text := by
  rw [readToken_eq] at h
  split at h
  · rename_i error herror
    cases h
    exact (Envelope.of_ofToken_error herror).2
  · rename_i algorithm payload mac hfound
    split at h
    · rcases signer.of_verify_refused h with rfl | rfl
      · trivial
      · trivial
    · cases h
      obtain ⟨htext, hpoint⟩ := Envelope.ofToken_eq_ok_iff.mp hfound
      refine ⟨algorithm.toList,
        Envelope.segments (Base64Url.encode payload ++ '.' :: Base64Url.encode mac), ?_,
        by rw [String.ofList_toList]⟩
      rw [htext]
      unfold Envelope.token
      rw [String.toList_ofList]
      exact Envelope.segments_append hpoint

/-- **Exactly the signed lines are accepted, one for each payload, but for integers with too many
digits.**  A line is accepted with a value if it joins the tag, a payload that JSON reads as
that value, and the payload's own digest, both in their only spelling; two accepted lines
that carry one payload are one line.  A line that carries another digest than the payload's
is a mismatch.  A line that carries the payload's own digest is neither accepted nor refused
if the payload is not read for the digits of an integer; then they stand in it.  Every
other line is malformed, also one that has half of a surrogate pair in it, and no refusal says
anything of the payload. -/
theorem readToken_accepts_signed (signer : Signer) (text : String) :
    (∀ v, signer.readToken (.str text) = .ok v ↔
      ∃ payload document, text = Envelope.line payload (Hmac.mac signer.key payload) ∧
        octetsText? payload = some document ∧ Value.ofJson document = .ok v) ∧
    (∀ (other : String) (a b : Envelope) (v w : Value),
      signer.readToken (.str text) = .ok v → Envelope.ofToken text = .ok a →
      signer.readToken (.str other) = .ok w → Envelope.ofToken other = .ok b →
      a.payload = b.payload → text = other) ∧
    ((∃ e, signer.readToken (.str text) = .error (.integrity e) ∧ e.kind = .signatureMismatch) ↔
      ∃ payload mac, text = Envelope.line payload mac ∧ mac ≠ Hmac.mac signer.key payload) ∧
    (∀ f, signer.readToken (.str text) = .error (.fault f) ↔
      f = .tooManyDigits ∧ ∃ payload document, text = Envelope.line payload (Hmac.mac signer.key payload) ∧
        octetsText? payload = some document ∧ Value.ofJson document = .error .tooManyDigits ∧
        Json.Overlong document.toList) ∧
    ((∃ e, signer.readToken (.str text) = .error (.integrity e) ∧ e.kind = .malformed) ↔
      (∀ v, signer.readToken (.str text) ≠ .ok v) ∧
        (∀ f, signer.readToken (.str text) ≠ .error (.fault f)) ∧
        ¬ ∃ payload mac, text = Envelope.line payload mac ∧ mac ≠ Hmac.mac signer.key payload) ∧
    (∀ broken : BrokenText,
      ∃ e, signer.readToken (.broken broken) = .error (.integrity e) ∧ e.kind = .malformed) ∧
    (∀ e, signer.readToken (.str text) = .error (.integrity e) → e.Discreet text) := by
  have haccepted : ∀ {text : String} {v : Value} {e : Envelope},
      signer.readToken (.str text) = .ok v → Envelope.ofToken text = .ok e →
        text = Envelope.line e.payload (Hmac.mac signer.key e.payload) := by
    intro text v e hread he
    obtain ⟨payload, document, htext, -, -⟩ := readToken_eq_ok_iff.mp hread
    rw [Envelope.ofToken_eq_tagged_iff.mpr htext] at he
    cases he
    exact htext
  have hmismatch : (∃ e, signer.readToken (.str text) = .error (.integrity e) ∧ e.kind = .signatureMismatch) ↔
      ∃ payload mac, text = Envelope.line payload mac ∧ mac ≠ Hmac.mac signer.key payload := by
    rw [← readToken_eq_mismatch_iff]
    constructor
    · rintro ⟨e, he, hkind⟩
      rw [he, IntegrityError.kind_eq_signatureMismatch.mp hkind]
    · intro h
      exact ⟨_, h, rfl⟩
  refine ⟨fun v => readToken_eq_ok_iff, ?_, hmismatch, fun f => readToken_eq_fault_iff, ?_,
    fun broken => ⟨Envelope.brokenLine broken, rfl, Envelope.kind_brokenLine broken⟩,
    fun e => discreet_of_readToken⟩
  · intro other a b v w htext ha hother hb hpayload
    rw [haccepted htext ha, haccepted hother hb, hpayload]
  · rw [← hmismatch]
    constructor
    · rintro ⟨e, he, hkind⟩
      refine ⟨by simp [he], by simp [he], ?_⟩
      rintro ⟨f, hf, hmismatched⟩
      rw [he] at hf
      cases hf
      rw [hkind] at hmismatched
      cases hmismatched
    · rintro ⟨hrefused, hread, hother⟩
      cases hanswer : signer.readToken (.str text) with
      | ok v => exact absurd hanswer (hrefused v)
      | error failure =>
          cases failure with
          | fault f => exact absurd hanswer (hread f)
          | integrity e =>
              refine ⟨e, rfl, ?_⟩
              cases hkind : e.kind with
              | malformed => rfl
              | signatureMismatch => exact absurd ⟨e, hanswer, hkind⟩ hother

/-- The line of five thousand ones with their own digest is neither accepted nor refused. -/
theorem readToken_of_ones :
    let payload := textOctets (String.ofList (List.replicate 5000 '1'))
    let line := Envelope.line payload (Hmac.mac [107] payload)
    (∀ v, (Signer.mk [107] (by decide)).readToken (.str line) ≠ .ok v) ∧
      ∀ e, (Signer.mk [107] (by decide)).readToken (.str line) ≠ .error (.integrity e) := by
  intro payload line
  have hread : Value.ofOctets payload = .error .tooManyDigits := by
    refine Value.ofOctets_of_digits ?_ ?_ ?_
    · intro c hc
      rw [List.eq_of_mem_replicate hc]
      rfl
    · rw [List.head?_replicate]
      decide
    · rw [List.length_replicate, Decimal.digitLimit]
      decide
  have hfault : (Signer.mk [107] (by decide)).readToken (.str line) = .error (.fault .tooManyDigits) := by
    rw [readToken_line, verify_eq_fault_iff]
    exact ⟨rfl, rfl, hread⟩
  simp [hfault]

end Signer

end Scorecard
