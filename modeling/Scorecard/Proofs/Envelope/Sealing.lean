/-
What is sealed can be opened.

An envelope travels as one line of text.  No point stands inside a segment, so the
line falls into the three segments that were joined, and each is read as the octets that
were written.  Under the same key the digest is the same, so the payload is shown, and
it is what JSON keeps of the value that was sealed.

For a score that is all that is needed: what is kept of its record is read back as
the score, with its bindings in the order of their names.
-/
import Scorecard.Proofs.Json.Canonical
import Scorecard.Proofs.Score.Record

namespace Scorecard

open Json Value

/-! ### Lines of text -/

namespace Envelope

theorem segments_of_no_point {text : List Char} (h : '.' ∉ text) : segments text = [text] := by
  induction text with
  | nil => rfl
  | cons c rest ih =>
      rw [List.mem_cons, not_or] at h
      rw [segments, if_neg (Ne.symm h.1), ih h.2]

/-- A text is cut at its first point. -/
theorem segments_append {text rest : List Char} (h : '.' ∉ text) :
    segments (text ++ '.' :: rest) = text :: segments rest := by
  induction text with
  | nil =>
      show segments ('.' :: rest) = _
      rw [segments, if_pos rfl]
  | cons c more ih =>
      rw [List.mem_cons, not_or] at h
      rw [List.cons_append, segments, if_neg (Ne.symm h.1), ih h.2]

theorem decodeSegment_encode (octets : List UInt8) :
    decodeSegment (Base64Url.encode octets) = .ok octets := by
  unfold decodeSegment
  rw [Base64Url.decode_encode]

/-- **An envelope is read back from its line of text.** -/
theorem ofToken_token (e : Envelope) (h : '.' ∉ e.algorithm.toList) : ofToken e.token = .ok e := by
  unfold ofToken token
  rw [String.toList_ofList, segments_append h,
    segments_append (Base64Url.point_not_mem_encode e.payload),
    segments_of_no_point (Base64Url.point_not_mem_encode e.mac)]
  show (do
    let payload ← decodeSegment (Base64Url.encode e.payload)
    let mac ← decodeSegment (Base64Url.encode e.mac)
    Except.ok (Envelope.mk (String.ofList e.algorithm.toList) payload mac)) = _
  rw [decodeSegment_encode, decodeSegment_encode, String.ofList_toList]
  rfl

end Envelope

namespace Signer

/-! ### Values -/

/-- The envelope of what is JSON once spelt out. -/
theorem signValue_eq (signer : Signer) {v : Value} (h : v.unfolded.IsJson) :
    signer.signValue v = .ok (signer.sign (textOctets (String.ofList (wording v.unfolded)))) := by
  unfold signValue
  rw [canonical_eq_ok_iff.mpr ⟨h, rfl⟩]
  rfl

/-- The envelope of JSON. -/
theorem signValue_of_isJson (signer : Signer) {v : Value} (h : v.IsJson) :
    signer.signValue v = .ok (signer.sign (textOctets (String.ofList (wording v)))) := by
  have hsealed := signer.signValue_eq (v := v) (by rwa [h.unfolded_eq])
  rwa [h.unfolded_eq] at hsealed

/-- Of a signed envelope only digest and payload are in question, whoever reads it. -/
theorem read_signed (signer other : Signer) (payload : List UInt8) :
    other.read (signer.sign payload).present = other.verify (signer.sign payload) := by
  have hcheck : (signer.sign payload).present.check = .ok (signer.sign payload) := by
    unfold Presented.check
    show (if (Value.str envelopeTag).same (.str envelopeTag) then _ else _) = _
    rw [if_pos (by simp)]
    rfl
  unfold read
  rw [hcheck]
  rfl

/-- **The payload of a genuine envelope is shown.** -/
theorem read_sign (signer : Signer) {v : Value} (h : v.IsJson) (hkeyed : v.WellKeyed) :
    signer.read (signer.sign (textOctets (String.ofList (wording v)))).present = .ok v.kept := by
  rw [read_signed]
  unfold verify sign
  rw [if_pos rfl, h.ofJson_canonical hkeyed rfl]

/-! ### Scores -/

/-- **A score survives its envelope.**  Whoever holds the key reads the same score from
the line of text that was sealed: the same values in the same order, the same
bindings as records, and so the same total and breakdown. -/
theorem readScore_signScore (signer : Signer) (s : SessionScore) (h : s.Sealable) :
    ∃ e e' t, signer.signScore s = .ok e ∧ Envelope.ofToken e.token = .ok e' ∧
      signer.readScore e'.present = .ok t ∧ s.Equals t ∧ t.total = s.total ∧
      t.breakdown = s.breakdown := by
  have hjson := h.isJson
  have hread := signer.read_sign hjson h.wellKeyed
  have htag : '.' ∉ envelopeTag.toList := by decide
  refine ⟨_, _, s.settled, signer.signValue_of_isJson hjson, Envelope.ofToken_token _ htag, ?_,
    h.equals_settled, s.total_settled, s.breakdown_settled⟩
  unfold readScore
  rw [hread]
  show scoreOf s.toValue.kept = _
  unfold scoreOf
  rw [h.ofValue_kept]

/-- The score of one answer, under a key of one octet. -/
theorem readScore_signScore_single :
    (⟨[⟨.str "2 * x", [(.str "x", .float 0.5)], 1.0, .str "Q", .null⟩], .str "s"⟩ :
      SessionScore).Sealable ∧
    ∃ e e' t, (Signer.mk [1] (by decide)).signScore
        ⟨[⟨.str "2 * x", [(.str "x", .float 0.5)], 1.0, .str "Q", .null⟩], .str "s"⟩ = .ok e ∧
      Envelope.ofToken e.token = .ok e' ∧
      (Signer.mk [1] (by decide)).readScore e'.present = .ok t ∧
      t.sessionId = .str "s" := by
  have hsealable : (⟨[⟨.str "2 * x", [(.str "x", .float 0.5)], 1.0, .str "Q", .null⟩], .str "s"⟩ :
      SessionScore).Sealable := by
    refine ⟨?_, .inr ⟨_, rfl⟩, by decide +kernel⟩
    intro a ha
    rw [List.mem_singleton] at ha
    subst ha
    refine ⟨⟨_, rfl⟩, .inr ⟨_, rfl⟩, .inl rfl, by decide +kernel, ?_, List.pairwise_singleton _ _⟩
    intro b hb
    rw [List.mem_singleton] at hb
    subst hb
    exact ⟨⟨_, rfl⟩, _, rfl, by decide +kernel⟩
  obtain ⟨e, e', t, hsign, htoken, hread, hequals, -, -⟩ :=
    readScore_signScore (Signer.mk [1] (by decide)) _ hsealable
  exact ⟨hsealable, e, e', t, hsign, htoken, hread, hequals.sessionId.symm⟩

end Signer

end Scorecard
