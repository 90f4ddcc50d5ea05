/-
Canonical JSON as a code.

The code words are the octets of canonical texts.  Every value that JSON has gets
one, unless an integer with too many digits stands in it, and nothing else does; the
reader takes a code word back to the value, with lists for tuples and the entries in
some order; and two values share a code word just if they agree, so whoever compares
code words compares values.

The code is that of data spelt out: a part that hangs in several places is written
at each of them, and is read as that many parts.
-/
import Scorecard.Proofs.Envelope.Octets
import Scorecard.Proofs.Json.RoundTrip

namespace Scorecard.Value

open Json

/-- What is read back is what was kept. -/
theorem IsJson.ofJson_canonical {v : Value} (h : v.IsJson) (hkeyed : v.WellKeyed) {text : String}
    (htext : text = String.ofList (wording v)) :
    Value.ofOctets (textOctets text) = .ok v.kept := by
  unfold ofOctets
  rw [octetsText_textOctets]
  show ofJson text = _
  rw [ofJson, htext, String.toList_ofList]
  exact read_wording h hkeyed

theorem canonical_of_long {n : Int} (h : ¬ Decimal.isShort n = true) :
    (Value.int n).canonical = .error .tooManyDigits := by
  show (shortInteger n).bind _ = _
  rw [shortInteger, if_neg h]
  rfl

/-- **Canonical text has an inverse, and equal texts mean equal data.**  A value is
written if and only if it is made of what JSON has and its integers are no longer than the
limit; what JSON has and is not written has an integer that is too long.  What is written is
read as data that agrees with it, without tuples, and written again it is the same text.
The octets of two texts are the same if and only if the values agree. -/
theorem canonical_inverse (v : Value) :
    ((∃ text, v.canonical = .ok text) ↔
      v.unfolded.JsonLike ∧ ∀ n, Inside (.int n) v.unfolded → Decimal.isShort n = true) ∧
    (v.unfolded.JsonLike →
      (∃ text, v.canonical = .ok text) ∨ v.canonical = .error .tooManyDigits) ∧
    (∀ text, v.unfolded.WellKeyed → v.canonical = .ok text →
      ∃ w, ofOctets (textOctets text) = .ok w ∧
        v.unfolded.Agrees w ∧ w.TupleFree ∧ w.WellKeyed ∧ w.canonical = .ok text) ∧
    (∀ (other : Value) (s t : String), v.unfolded.WellKeyed → other.unfolded.WellKeyed →
      v.canonical = .ok s → other.canonical = .ok t →
      (textOctets s = textOctets t ↔ v.unfolded.Agrees other.unfolded)) := by
  refine ⟨?_, canonical_of_jsonLike, ?_, ?_⟩
  · rw [← isJson_iff]
    constructor
    · rintro ⟨text, htext⟩
      exact (canonical_eq_ok_iff.mp htext).1
    · intro hjson
      exact ⟨_, canonical_eq_ok_iff.mpr ⟨hjson, rfl⟩⟩
  · intro text hkeyed htext
    obtain ⟨hjson, htext⟩ := canonical_eq_ok_iff.mp htext
    refine ⟨v.unfolded.kept, hjson.ofJson_canonical hkeyed htext, hjson.agrees_kept,
      hjson.tupleFree_kept, hkeyed.kept hjson, ?_⟩
    rw [canonical_eq_ok_iff, hjson.kept.unfolded_eq, wording_kept hjson hkeyed]
    exact ⟨hjson.kept, htext⟩
  · intro other s t hkeyed hotherKeyed hs ht
    obtain ⟨hv, rfl⟩ := canonical_eq_ok_iff.mp hs
    obtain ⟨hother, rfl⟩ := canonical_eq_ok_iff.mp ht
    rw [textOctets_inj, String.ofList_inj]
    exact wording_eq_iff hv hother hkeyed hotherKeyed

/-- A record with its entries in two orders, once with a tuple and once with a list, has
one code word.  An integer and the double that equals it have two, and so have the two
zeros among the doubles. -/
theorem canonical_inverse_order_and_kind :
    (∃ s t w, (Value.record [(.str "b", .tuple [.int 1]), (.str "a", .null)]).canonical = .ok s ∧
      (Value.record [(.str "a", .null), (.str "b", .list [.int 1])]).canonical = .ok t ∧
      textOctets s = textOctets t ∧
      ofOctets (textOctets s) = .ok w ∧ w.canonical = .ok s) ∧
    (∃ s t, (Value.int 1).canonical = .ok s ∧ (Value.float 1.0).canonical = .ok t ∧
      textOctets s ≠ textOctets t) ∧
    (∃ s t, (Value.float 0.0).canonical = .ok s ∧ (Value.float (-0.0)).canonical = .ok t ∧
      textOctets s ≠ textOctets t) := by
  have hwritten {v : Value} (hv : v.IsJson) : ∃ text, v.canonical = .ok text :=
    (canonical_inverse v).1.mpr (isJson_iff.mp (hv.unfolded_eq.symm ▸ hv))
  have hone : IsJson (.int 1) := .int (by decide +kernel)
  refine ⟨?_, ?_, ?_⟩
  · have hv : IsJson (.record [(.str "b", .tuple [.int 1]), (.str "a", .null)]) := by
      refine .record (by simp) ?_
      simp only [List.forall_mem_cons]
      exact ⟨.tuple (by simpa using hone), .null, by simp⟩
    have hw : IsJson (.record [(.str "a", .null), (.str "b", .list [.int 1])]) := by
      refine .record (by simp) ?_
      simp only [List.forall_mem_cons]
      exact ⟨.null, .list (by simpa using hone), by simp⟩
    have hvKeyed : WellKeyed (.record [(.str "b", .tuple [.int 1]), (.str "a", .null)]) := by
      refine .ofEntries (by simp) ?_
      simp only [List.forall_mem_cons]
      exact ⟨.ofPlaces (by simpa using WellKeyed.int 1), WellKeyed.null, by simp⟩
    have hwKeyed : WellKeyed (.record [(.str "a", .null), (.str "b", .list [.int 1])]) := by
      refine .ofEntries (by simp) ?_
      simp only [List.forall_mem_cons]
      exact ⟨WellKeyed.null, .ofItems (by simpa using WellKeyed.int 1), by simp⟩
    obtain ⟨s, hs⟩ := hwritten hv
    obtain ⟨t, ht⟩ := hwritten hw
    rw [← hv.unfolded_eq] at hvKeyed
    rw [← hw.unfolded_eq] at hwKeyed
    obtain ⟨-, -, hreads, htells⟩ :=
      canonical_inverse (.record [(.str "b", .tuple [.int 1]), (.str "a", .null)])
    obtain ⟨w, hread, -, -, -, hagain⟩ := hreads s hvKeyed hs
    refine ⟨s, t, w, hs, ht, (htells _ s t hvKeyed hwKeyed hs ht).mpr ?_, hread, hagain⟩
    rw [hv.unfolded_eq, hw.unfolded_eq]
    simp [Agrees, AgreeEntries, AgreeItems]
  · obtain ⟨s, hs⟩ := hwritten hone
    obtain ⟨t, ht⟩ := hwritten (v := .float 1.0) (.float (by decide +kernel))
    refine ⟨s, t, hs, ht, fun hsame => ?_⟩
    have hagree := ((canonical_inverse (.int 1)).2.2.2 (.float 1.0) s t (.int 1) (.float 1.0)
      hs ht).mp hsame
    simp [unfolded, Agrees] at hagree
  · obtain ⟨s, hs⟩ := hwritten (v := .float 0.0) (.float (by decide +kernel))
    obtain ⟨t, ht⟩ := hwritten (v := .float (-0.0)) (.float (by decide +kernel))
    refine ⟨s, t, hs, ht, fun hsame => ?_⟩
    have hagree := ((canonical_inverse (.float 0.0)).2.2.2 (.float (-0.0)) s t (.float _) (.float _)
      hs ht).mp hsame
    have hzeros : (0.0 : Float) ≠ -0.0 := by decide +kernel
    simp only [unfolded, Agrees, Value.float.injEq] at hagree
    exact hzeros hagree

/-- An integer with one digit too many has no text, though JSON would have one. -/
theorem canonical_beyond_limit :
    (Value.int (10 ^ 4300)).unfolded.JsonLike ∧
      (Value.int (10 ^ 4300)).canonical = .error .tooManyDigits ∧
      ¬ ∃ text, (Value.int (10 ^ 4300)).canonical = .ok text := by
  have hlong : ¬ Decimal.isShort (10 ^ 4300) = true := by
    rw [Decimal.isShort_pow, Decimal.digitLimit]
    decide
  have hfault := canonical_of_long hlong
  refine ⟨.int _, hfault, ?_⟩
  rintro ⟨text, htext⟩
  rw [hfault] at htext
  cases htext

end Scorecard.Value
