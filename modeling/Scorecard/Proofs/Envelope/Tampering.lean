/-
A letter of the digest that was changed.

Letters hold six bits and octets eight, so the last letter of a segment may hold bits beyond the
last octet.  A digest of 32 octets takes 43 letters, and two bits of the last one are such.  These
have to be zero, and a last letter where they are not makes the line malformed.  No other letter
is restricted in any way: with any of them changed the segment spells other octets, so the line is
that of the same payload with another digest, which is a forgery.
-/
import Mathlib
import Scorecard.Proofs.Envelope.Tokens
import Scorecard.Proofs.Steps
import Scorecard.Walkthrough

namespace Scorecard

namespace Base64Url

variable {text front back : List Char} {octets : List UInt8} {old new : Char}

/-! ### Texts of octets -/

/-- How many bits the letters hold beyond the last octet. -/
def spareBits (text : List Char) : Nat :=
  6 * text.length % 8

/-- The spare bits are zero. -/
def Filled (text : List Char) : Prop :=
  ∀ c n, text.getLast? = some c → value? c = some n → n % 2 ^ spareBits text = 0

theorem filled_iff {c : Char} (h : text.getLast? = some c) :
    Filled text ↔ ∀ n, value? c = some n → n % 2 ^ spareBits text = 0 := by
  constructor
  · exact fun hfilled n => hfilled c n h
  · intro hlast d n hd
    obtain rfl : d = c := Option.some.inj (hd.symm.trans h)
    exact hlast n

theorem exists_value_iff {c : Char} {p : Nat → Prop} :
    (∃ n, value? c = some n ∧ p n) ↔ (value? c).isSome ∧ ∀ n, value? c = some n → p n := by
  cases value? c <;> simp

/-- **A text is read if it consists of letters, the last of which is needed and holds nothing
beyond the last octet.** -/
theorem isSome_decode_iff : (decode? text).isSome ↔
    (∀ c ∈ text, (value? c).isSome) ∧ spareBits text ≠ 6 ∧ Filled text := by
  induction text using decode?.induct with
  | case1 a b c d rest ih =>
      have hspare : spareBits (a :: b :: c :: d :: rest) = spareBits rest := by
        simp only [spareBits, List.length_cons]
        omega
      have hfilled : Filled (a :: b :: c :: d :: rest) ↔ Filled rest := by
        unfold Filled
        rw [hspare]
        cases rest with
        | nil => simp [spareBits, Nat.mod_one]
        | cons e rest => simp only [List.getLast?_cons_cons]
      have hread : (decode? (a :: b :: c :: d :: rest)).isSome ↔
          (value? a).isSome ∧ (value? b).isSome ∧ (value? c).isSome ∧ (value? d).isSome ∧
            (decode? rest).isSome := by
        simp [decode?, Option.isSome_iff_exists, Option.bind_eq_some_iff]
      rw [hread, ih, hspare, hfilled]
      simp only [List.forall_mem_cons, and_assoc]
  | case2 a b c =>
      have hread : (decode? [a, b, c]).isSome ↔ (value? a).isSome ∧ (value? b).isSome ∧
          ∃ n, value? c = some n ∧ n % 4 = 0 := by
        simp [decode?, Option.isSome_iff_exists, Option.bind_eq_some_iff]
      rw [hread, exists_value_iff, filled_iff rfl]
      simp [spareBits, and_assoc]
  | case3 a b =>
      have hread : (decode? [a, b]).isSome ↔ (value? a).isSome ∧
          ∃ n, value? b = some n ∧ n % 16 = 0 := by
        simp [decode?, Option.isSome_iff_exists, Option.bind_eq_some_iff]
      rw [hread, exists_value_iff, filled_iff rfl]
      simp [spareBits, and_assoc]
  | case4 a => simp [decode?, spareBits]
  | case5 => simp [decode?, spareBits, Filled]

/-- A text spells octets under the same conditions. -/
theorem exists_encode_iff : (∃ octets, text = encode octets) ↔
    (∀ c ∈ text, (value? c).isSome) ∧ spareBits text ≠ 6 ∧ Filled text := by
  rw [← isSome_decode_iff, Option.isSome_iff_exists]
  exact exists_congr fun octets => decode_eq_some_iff.symm

/-- The characters that may stand in a segment. -/
def InAlphabet (c : Char) : Prop :=
  c.isAlphanum = true ∨ c = '-' ∨ c = '_'

instance (c : Char) : Decidable (InAlphabet c) :=
  inferInstanceAs (Decidable (_ ∨ _ ∨ _))

theorem isSome_value {c : Char} (h : InAlphabet c) : (value? c).isSome := by
  rcases h with halnum | rfl | rfl
  · have hranges : (('A' ≤ c ∧ c ≤ 'Z') ∨ ('a' ≤ c ∧ c ≤ 'z')) ∨ ('0' ≤ c ∧ c ≤ '9') := by
      simpa [Char.isAlphanum, Char.isAlpha, Char.isUpper, Char.isLower, Char.isDigit, Char.le_def] using halnum
    unfold value?
    rcases hranges with (hupper | hlower) | hdigit
    · simp [hupper]
    · simp only [hlower]
      split <;> simp
    · simp only [hdigit]
      split
      · simp
      split <;> simp
  · rfl
  · rfl

/-- **With a letter changed that is not the last, a text spells other octets.** -/
theorem exists_encode_altered (h : encode octets = front ++ old :: back) (hback : back ≠ [])
    (hnew : InAlphabet new) (hne : new ≠ old) :
    ∃ altered, altered ≠ octets ∧ encode altered = front ++ new :: back := by
  obtain ⟨hletters, hspare, hfilled⟩ := exists_encode_iff.mp ⟨octets, h.symm⟩
  have hlength : (front ++ new :: back).length = (front ++ old :: back).length := by simp
  have hlast : (front ++ new :: back).getLast? = (front ++ old :: back).getLast? := by
    obtain ⟨c, rest, rfl⟩ := List.exists_cons_of_ne_nil hback
    simp
  obtain ⟨altered, haltered⟩ : ∃ altered, front ++ new :: back = encode altered := by
    refine exists_encode_iff.mpr ⟨?_, ?_, ?_⟩
    · simp only [List.forall_mem_append, List.forall_mem_cons] at hletters ⊢
      exact ⟨hletters.1, isSome_value hnew, hletters.2.2⟩
    · rwa [spareBits, hlength]
    · rw [Filled, spareBits, hlength, hlast]
      exact hfilled
  refine ⟨altered, ?_, haltered.symm⟩
  rintro rfl
  obtain ⟨hsame, -⟩ := List.cons.inj (List.append_cancel_left (haltered.trans h))
  exact hne hsame

end Base64Url

namespace Envelope

open Base64Url (encode InAlphabet)

variable {e : Envelope} {before back : List Char} {old new : Char}

/-- A line up to its second point. -/
def front (e : Envelope) : List Char :=
  e.algorithm.toList ++ '.' :: (encode e.payload ++ ['.'])

theorem toList_token (e : Envelope) : e.token.toList = e.front ++ encode e.mac := by
  simp [token, front]

theorem count_front (htag : '.' ∉ e.algorithm.toList) : e.front.count '.' = 2 := by
  have hpayload := List.count_eq_zero.mpr (Base64Url.point_not_mem_encode e.payload)
  simp [front, List.count_eq_zero.mpr htag, hpayload]

theorem getLast_front (e : Envelope) : e.front.getLast? = some '.' := by
  have hlast : e.front = (e.algorithm.toList ++ '.' :: encode e.payload) ++ ['.'] := by simp [front]
  rw [hlast]
  exact List.getLast?_concat

/-- Behind the second point of a line stand the letters of the digest. -/
theorem letters_of_token (htag : '.' ∉ e.algorithm.toList) (h : e.token.toList = before ++ old :: back)
    (hpoints : before.count '.' = 2) :
    ∃ letters, before = e.front ++ letters ∧ encode e.mac = letters ++ old :: back := by
  rw [toList_token] at h
  rcases List.append_eq_append_iff.mp h with ⟨letters, rfl, hmac⟩ | ⟨x, hx, htail⟩
  · exact ⟨letters, rfl, hmac⟩
  · -- both points were passed, and the front ends with the second
    have hnopoint : '.' ∉ x := by
      have hcount := count_front htag
      rw [hx, List.count_append, hpoints] at hcount
      exact List.count_eq_zero.mp (by omega)
    obtain rfl : x = [] := by
      by_contra hne
      have hends := e.getLast_front
      rw [hx, List.getLast?_append_of_ne_nil before hne] at hends
      exact hnopoint (List.mem_of_getLast? hends)
    exact ⟨[], by rw [hx, List.append_nil, List.append_nil], htail.symm⟩

/-- With a letter of the digest changed a line is that of another digest. -/
theorem ofToken_altered (htag : '.' ∉ e.algorithm.toList) (h : e.token.toList = before ++ old :: back)
    (hpoints : before.count '.' = 2) (hback : back ≠ []) (hnew : InAlphabet new) (hne : new ≠ old) :
    ∃ mac, mac ≠ e.mac ∧
      ofToken (String.ofList (before ++ new :: back)) = .ok ⟨e.algorithm, e.payload, mac⟩ := by
  obtain ⟨letters, rfl, hmac⟩ := letters_of_token htag h hpoints
  obtain ⟨mac, hother, hletters⟩ := Base64Url.exists_encode_altered hmac hback hnew hne
  refine ⟨mac, hother, ofToken_eq_ok_iff.mpr ⟨?_, htag⟩⟩
  rw [← String.toList_inj, toList_token, hletters, String.toList_ofList, List.append_assoc]
  rfl

end Envelope

namespace Signer

variable (signer : Signer) {v : Value} {e : Envelope}

theorem exists_payload (h : signer.signValue v = .ok e) : ∃ payload, e = signer.sign payload := by
  obtain ⟨document, -, he⟩ := bind_eq_ok_iff.mp h
  exact ⟨textOctets document, (Except.ok.inj he).symm⟩

/-- **A signed line with a letter of the digest changed is a forgery**, unless it is the last. -/
theorem readToken_altered {payload : List UInt8} {before back : List Char} {old new : Char}
    (h : (signer.sign payload).token.toList = before ++ old :: back) (hpoints : before.count '.' = 2)
    (hback : back ≠ []) (hnew : Base64Url.InAlphabet new) (hne : new ≠ old) :
    ∃ mac, mac ≠ (signer.sign payload).mac ∧
      Envelope.ofToken (String.ofList (before ++ new :: back)) = .ok ⟨envelopeTag, payload, mac⟩ ∧
      signer.readToken (.str (String.ofList (before ++ new :: back))) = .error (.integrity .signatureMismatch) := by
  have htag : '.' ∉ envelopeTag.toList := by decide
  obtain ⟨mac, hother, hread⟩ :=
    Envelope.ofToken_altered (e := signer.sign payload) htag h hpoints hback hnew hne
  refine ⟨mac, hother, hread, ?_⟩
  exact readToken_eq_mismatch_iff.mpr ⟨payload, mac, Envelope.ofToken_eq_tagged_iff.mp hread, hother⟩

end Signer

/-! ### The walk -/

namespace Walkthrough

open Base64Url (encode InAlphabet)

/-- The walk changes the last letter but one. -/
theorem tampered_concat {text : String} {front : List Char} {old last : Char}
    (h : text.toList = front ++ old :: [last]) :
    tampered text = String.ofList (front ++ (if old = 'A' then 'B' else 'A') :: [last]) := by
  unfold tampered
  rw [h]
  simp

theorem inAlphabet_changed (old : Char) : InAlphabet (if old = 'A' then 'B' else 'A') := by
  split <;> decide

theorem changed_ne (old : Char) : (if old = 'A' then 'B' else 'A') ≠ old := by
  split
  · rename_i hold
    rw [hold]
    decide
  · rename_i hother
    exact Ne.symm hother

/-- A digest takes two letters at least. -/
theorem exists_last_two {octets : List UInt8} (h : octets ≠ []) :
    ∃ letters old last, encode octets = letters ++ old :: [last] := by
  have htwo : 2 ≤ (encode octets).length := by
    match octets with
    | [p] => simp [encode]
    | [p, q] => simp [encode]
    | p :: q :: r :: rest => simp [encode]
  obtain ⟨front, last, hfront⟩ := (List.eq_nil_or_concat (encode octets)).resolve_left (by grind)
  obtain ⟨letters, old, hletters⟩ := (List.eq_nil_or_concat front).resolve_left (by grind)
  exact ⟨letters, old, last, by simp [hfront, hletters]⟩

/-- The last two letters of a sealed line are the digest's. -/
theorem exists_split (signer : Signer) (payload : List UInt8) : ∃ before old last,
    (signer.sign payload).token.toList = before ++ old :: [last] ∧ before.count '.' = 2 := by
  have hlength : (signer.sign payload).mac.length = 32 := Hmac.length_mac _ _
  have hne : (signer.sign payload).mac ≠ [] := by
    intro hnil
    rw [hnil] at hlength
    cases hlength
  obtain ⟨letters, old, last, hletters⟩ := exists_last_two hne
  refine ⟨(signer.sign payload).front ++ letters, old, last, ?_, ?_⟩
  · rw [Envelope.toList_token, hletters, List.append_assoc]
  · have hpoint : '.' ∉ letters := fun hmem =>
      Base64Url.point_not_mem_encode _ (hletters ▸ List.mem_append_left _ hmem)
    have htag : '.' ∉ envelopeTag.toList := by decide
    rw [List.count_append, Envelope.count_front htag, List.count_eq_zero.mpr hpoint]

/-- What the walk makes of a sealed line is a mismatch. -/
theorem readToken_tampered (signer : Signer) (payload : List UInt8) :
    signer.readToken (.str (tampered (signer.sign payload).token)) = .error (.integrity .signatureMismatch) := by
  obtain ⟨before, old, last, htoken, hpoints⟩ := exists_split signer payload
  obtain ⟨mac, -, -, hrefused⟩ := signer.readToken_altered htoken hpoints (List.cons_ne_nil _ _)
    (inAlphabet_changed old) (changed_ne old)
  rw [tampered_concat htoken]
  exact hrefused

/-- The last line of sealing. -/
theorem getLast_of_sealLines {signer : Signer} {s : SessionScore} {lines : List String}
    (h : sealLines signer s = .ok lines) :
    lines.getLast? = some "   ✓ Tampered token rejected: signature_mismatch" := by
  obtain ⟨e, hsealed, h⟩ := bind_eq_ok_iff.mp h
  obtain ⟨payload, rfl⟩ := signer.exists_payload hsealed
  have hlines : tamperedLines signer (signer.sign payload).token =
      .ok ["   ✓ Tampered token rejected: signature_mismatch"] := by
    unfold tamperedLines
    rw [readToken_tampered]
    rfl
  obtain ⟨told, htold, h⟩ := bind_eq_ok_iff.mp h
  obtain rfl := Except.ok.inj (hlines.symm.trans htold)
  obtain rfl := Except.ok.inj h
  exact List.getLast?_concat

/-- A walk that gets to sealing ends with it. -/
theorem exists_sealLines {config : Config} {otherKey : String} {w : Walkthrough}
    (h : walkthrough config otherKey = .ok w) (hcode : w.code = 0)
    (hkey : (if config.signingKey.isEmpty then otherKey else config.signingKey) ≠ "") :
    ∃ signer s scored lines, sealLines signer s = .ok lines ∧ w.lines = scored ++ lines := by
  obtain ⟨engine, -, h⟩ := bind_eq_ok_iff.mp h
  obtain ⟨report, -, h⟩ := bind_eq_ok_iff.mp h
  split at h
  · cases h
  · cases h
    cases hcode
  · rename_i score _
    obtain ⟨scored, -, h⟩ := bind_eq_ok_iff.mp h
    have hnonempty : ¬ (if config.signingKey.isEmpty then otherKey else config.signingKey).isEmpty := by
      simpa [String.isEmpty_iff] using hkey
    rw [if_neg hnonempty] at h
    obtain ⟨signer, -, h⟩ := bind_eq_ok_iff.mp h
    obtain ⟨lines, hlines, h⟩ := bind_eq_ok_iff.mp h
    exact ⟨signer, score, _, lines, hlines, (congrArg Walkthrough.lines (Except.ok.inj h)).symm⟩

end Walkthrough

namespace Signer

open Base64Url (InAlphabet)

/--
**A changed letter of the digest is a forgery.**  Of a sealed line any letter behind the second
point may be changed to another one of the alphabet, but for the last: the line is then read as an
envelope with the same tag and payload and another digest, and refused as a mismatch.  So it goes
with what the walk changes, whoever sealed it, and a walk that gets to sealing ends with saying so.
-/
theorem altered_is_forged :
    (∀ (signer : Signer) (v : Value) (e : Envelope), signer.signValue v = .ok e →
      (∀ (before back : List Char) (old new : Char), e.token.toList = before ++ old :: back →
        before.count '.' = 2 → back ≠ [] → InAlphabet new → new ≠ old →
        ∃ mac, mac ≠ e.mac ∧
          Envelope.ofToken (String.ofList (before ++ new :: back)) = .ok ⟨e.algorithm, e.payload, mac⟩ ∧
          signer.readToken (.str (String.ofList (before ++ new :: back))) = .error (.integrity .signatureMismatch)) ∧
      signer.readToken (.str (Walkthrough.tampered e.token)) = .error (.integrity .signatureMismatch)) ∧
    ∀ (config : Config) (otherKey : String) (w : Walkthrough), walkthrough config otherKey = .ok w →
      w.code = 0 → (if config.signingKey.isEmpty then otherKey else config.signingKey) ≠ "" →
      w.lines.getLast? = some "   ✓ Tampered token rejected: signature_mismatch" := by
  refine ⟨fun signer v e hsealed => ?_, fun config otherKey w hwalk hcode hkey => ?_⟩
  · obtain ⟨payload, rfl⟩ := signer.exists_payload hsealed
    exact ⟨fun before back old new => signer.readToken_altered, Walkthrough.readToken_tampered signer payload⟩
  · obtain ⟨signer, s, scored, lines, hlines, hw⟩ := Walkthrough.exists_sealLines hwalk hcode hkey
    have hlast := Walkthrough.getLast_of_sealLines hlines
    rw [hw, List.getLast?_append, hlast]
    rfl

/-- The theorem for a sealed null under a key of one octet, and the last letter but one. -/
theorem altered_is_forged_null :
    ∃ (e : Envelope) (before back : List Char) (old new : Char),
      (Signer.mk [1] (by decide)).signValue .null = .ok e ∧ e.token.toList = before ++ old :: back ∧
      before.count '.' = 2 ∧ back ≠ [] ∧ InAlphabet new ∧ new ≠ old ∧
      (Signer.mk [1] (by decide)).readToken (.str (String.ofList (before ++ new :: back))) =
        .error (.integrity .signatureMismatch) := by
  have hsealed := (Signer.mk [1] (by decide)).signValue_eq (v := .null) .null
  obtain ⟨before, old, last, htoken, hpoints⟩ := Walkthrough.exists_split (.mk [1] (by decide)) _
  have hnew := Walkthrough.inAlphabet_changed old
  have hne := Walkthrough.changed_ne old
  obtain ⟨mac, -, -, hrefused⟩ := (altered_is_forged.1 _ _ _ hsealed).1 before [last] old _ htoken hpoints
    (List.cons_ne_nil _ _) hnew hne
  exact ⟨_, before, [last], old, _, hsealed, htoken, hpoints, List.cons_ne_nil _ _, hnew, hne, hrefused⟩

end Signer

end Scorecard
