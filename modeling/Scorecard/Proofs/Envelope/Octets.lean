/-
Text as octets, and octets as text.

On its way out a payload is encoded twice: its text as octets, and the octets as
letters that fit into a line.  Both encodings are taken back by their decoders, so
no two texts have the same octets and no two runs of octets the same letters.  No
letter is the point that stands between the segments of a line.
-/
import Scorecard.Envelope

namespace Scorecard

/-! ### Octets of a text -/

private theorem toList_loop (octets : ByteArray) :
    ∀ (count place : Nat) (read : List UInt8), octets.size ≤ place + count →
      ByteArray.toList.loop octets place read = read.reverse ++ octets.data.toList.drop place := by
  intro count
  induction count with
  | zero =>
      intro place read hplace
      rw [ByteArray.toList.loop, if_neg (by omega), List.drop_of_length_le, List.append_nil]
      exact hplace
  | succ count ih =>
      intro place read hplace
      rw [ByteArray.toList.loop]
      by_cases hin : place < octets.size
      · have hfirst : octets.data.toList.drop place =
            octets.get! place :: octets.data.toList.drop (place + 1) := by
          rw [List.drop_eq_getElem_cons hin]
          show _ = octets.data[place]! :: _
          rw [getElem!_pos octets.data place hin, Array.getElem_toList]
        rw [if_pos hin, ih (place + 1) _ (by omega), hfirst, List.reverse_cons, List.append_assoc]
        rfl
      · rw [if_neg hin, List.drop_of_length_le, List.append_nil]
        exact Nat.le_of_not_lt hin

theorem toList_toArray (octets : ByteArray) : (⟨octets.toList.toArray⟩ : ByteArray) = octets := by
  unfold ByteArray.toList
  rw [toList_loop octets octets.size 0 [] (by omega)]
  rfl

/-- **The octets of a text are read as that text.** -/
theorem octetsText_textOctets (text : String) : octetsText? (textOctets text) = some text := by
  unfold octetsText? textOctets
  rw [toList_toArray]
  unfold String.fromUTF8?
  rw [String.toUTF8_eq_toByteArray, dif_pos text.isValidUTF8]
  rfl

/-- Texts with the same octets are the same. -/
theorem textOctets_inj {s t : String} : textOctets s = textOctets t ↔ s = t := by
  constructor
  · intro h
    refine Option.some.inj ?_
    rw [← octetsText_textOctets s, h, octetsText_textOctets]
  · intro h
    rw [h]

/-! ### Letters of octets -/

namespace Base64Url

/-- Each letter has the number that it was made of. -/
theorem value_char {n : Nat} (h : n < 64) : value? (char n) = some n := by
  revert n
  decide

/-- An octet from a number that it has. -/
private theorem ofNat_eq {n : Nat} {octet : UInt8} (h : n = octet.toNat) :
    UInt8.ofNat n = octet := by
  rw [h, UInt8.ofNat_toNat]

/-- **The letters of octets are read as those octets.** -/
theorem decode_encode (octets : List UInt8) : decode? (encode octets) = some octets := by
  induction octets using encode.induct with
  | case1 p q r rest ih =>
      have hp := p.toNat_lt
      have hq := q.toNat_lt
      have hr := r.toNat_lt
      rw [encode, decode?, value_char (by omega), value_char (by omega), value_char (by omega),
        value_char (by omega), ih]
      simp only [Option.bind_eq_bind, Option.bind_some]
      rw [@ofNat_eq _ p (by omega), @ofNat_eq _ q (by omega), @ofNat_eq _ r (by omega)]
  | case2 p q =>
      have hp := p.toNat_lt
      have hq := q.toNat_lt
      rw [encode, decode?, value_char (by omega), value_char (by omega), value_char (by omega)]
      simp only [Option.bind_eq_bind, Option.bind_some]
      rw [if_pos (by omega), @ofNat_eq _ p (by omega), @ofNat_eq _ q (by omega)]
  | case3 p =>
      have hp := p.toNat_lt
      rw [encode, decode?, value_char (by omega), value_char (by omega)]
      simp only [Option.bind_eq_bind, Option.bind_some]
      rw [if_pos (by omega), @ofNat_eq _ p (by omega)]
  | case4 => rfl

/-- A letter is made of the number that it has. -/
theorem char_of_value {c : Char} {n : Nat} (h : value? c = some n) : n < 64 ∧ char n = c := by
  have hupper : 'A' ≤ c ∧ c ≤ 'Z' ↔ 65 ≤ c.toNat ∧ c.toNat ≤ 90 := Iff.rfl
  have hlower : 'a' ≤ c ∧ c ≤ 'z' ↔ 97 ≤ c.toNat ∧ c.toNat ≤ 122 := Iff.rfl
  have hdigit : '0' ≤ c ∧ c ≤ '9' ↔ 48 ≤ c.toNat ∧ c.toNat ≤ 57 := Iff.rfl
  unfold value? at h
  simp only [Bool.and_eq_true, decide_eq_true_eq, hupper, hlower, hdigit, Char.reduceToNat] at h
  unfold char
  simp only [Char.reduceToNat]
  split at h
  · cases h
    rw [if_pos (by omega), Nat.add_sub_cancel' (by omega), Char.ofNat_toNat]
    exact ⟨by omega, rfl⟩
  split at h
  · cases h
    rw [if_neg (by omega), if_pos (by omega), Nat.add_sub_cancel, Nat.add_sub_cancel' (by omega),
      Char.ofNat_toNat]
    exact ⟨by omega, rfl⟩
  split at h
  · cases h
    rw [if_neg (by omega), if_neg (by omega), if_pos (by omega), Nat.add_sub_cancel,
      Nat.add_sub_cancel' (by omega), Char.ofNat_toNat]
    exact ⟨by omega, rfl⟩
  split at h
  · rename_i hc
    cases h
    exact ⟨by omega, hc.symm⟩
  split at h
  · rename_i hc
    cases h
    exact ⟨by omega, hc.symm⟩
  · cases h

private theorem toNat_octet {n : Nat} (h : n < 256) : (UInt8.ofNat n).toNat = n :=
  UInt8.toNat_ofNat_of_lt' h

/-- **Only the letters of octets are read as those octets.**  What the last letter holds
beyond the last octet is zero, so it has no other spelling. -/
theorem encode_of_decode {text : List Char} {octets : List UInt8} (h : decode? text = some octets) :
    text = encode octets := by
  induction text using decode?.induct generalizing octets with
  | case1 a b c d rest ih =>
      rw [decode?] at h
      simp only [Option.bind_eq_bind, Option.bind_eq_some_iff] at h
      obtain ⟨i, hi, j, hj, k, hk, l, hl, tail, htail, h⟩ := h
      cases h
      obtain ⟨hi, rfl⟩ := char_of_value hi
      obtain ⟨hj, rfl⟩ := char_of_value hj
      obtain ⟨hk, rfl⟩ := char_of_value hk
      obtain ⟨hl, rfl⟩ := char_of_value hl
      have hfirst : (i * 4 + j / 16) / 4 = i := by omega
      have hsecond : (i * 4 + j / 16) % 4 * 16 + (j % 16 * 16 + k / 4) / 16 = j := by omega
      have hthird : (j % 16 * 16 + k / 4) % 16 * 4 + (k % 4 * 64 + l) / 64 = k := by omega
      have hfourth : (k % 4 * 64 + l) % 64 = l := by omega
      rw [encode, toNat_octet (by omega), toNat_octet (by omega), toNat_octet (by omega), hfirst,
        hsecond, hthird, hfourth, ← ih htail]
  | case2 a b c =>
      rw [decode?] at h
      simp only [Option.bind_eq_bind, Option.bind_eq_some_iff] at h
      obtain ⟨i, hi, j, hj, k, hk, h⟩ := h
      split at h
      · rename_i hzero
        cases h
        obtain ⟨hi, rfl⟩ := char_of_value hi
        obtain ⟨hj, rfl⟩ := char_of_value hj
        obtain ⟨hk, rfl⟩ := char_of_value hk
        have hfirst : (i * 4 + j / 16) / 4 = i := by omega
        have hsecond : (i * 4 + j / 16) % 4 * 16 + (j % 16 * 16 + k / 4) / 16 = j := by omega
        have hthird : (j % 16 * 16 + k / 4) % 16 * 4 = k := by omega
        rw [encode, toNat_octet (by omega), toNat_octet (by omega), hfirst, hsecond, hthird]
      · cases h
  | case3 a b =>
      rw [decode?] at h
      simp only [Option.bind_eq_bind, Option.bind_eq_some_iff] at h
      obtain ⟨i, hi, j, hj, h⟩ := h
      split at h
      · rename_i hzero
        cases h
        obtain ⟨hi, rfl⟩ := char_of_value hi
        obtain ⟨hj, rfl⟩ := char_of_value hj
        have hfirst : (i * 4 + j / 16) / 4 = i := by omega
        have hsecond : (i * 4 + j / 16) % 4 * 16 = j := by omega
        rw [encode, toNat_octet (by omega), hfirst, hsecond]
      · cases h
  | case4 => cases h
  | case5 =>
      cases h
      rfl

/-- Reading takes back writing, and writing takes back reading. -/
theorem decode_eq_some_iff {text : List Char} {octets : List UInt8} :
    decode? text = some octets ↔ text = encode octets := by
  constructor
  · exact encode_of_decode
  · rintro rfl
    exact decode_encode octets

private theorem point_ne_char {n : Nat} (h : n < 64) : '.' ≠ char n := by
  intro hpoint
  have hvalue := value_char h
  rw [← hpoint] at hvalue
  cases hvalue

/-- No letter is a point. -/
theorem point_not_mem_encode (octets : List UInt8) : '.' ∉ encode octets := by
  induction octets using encode.induct with
  | case1 p q r rest ih =>
      have hp := p.toNat_lt
      have hq := q.toNat_lt
      have hr := r.toNat_lt
      rw [encode]
      simp only [List.mem_cons, not_or]
      exact ⟨point_ne_char (by omega), point_ne_char (by omega), point_ne_char (by omega),
        point_ne_char (by omega), ih⟩
  | case2 p q =>
      have hp := p.toNat_lt
      have hq := q.toNat_lt
      rw [encode]
      simp only [List.mem_cons, List.not_mem_nil, not_or, not_false_eq_true, and_true]
      exact ⟨point_ne_char (by omega), point_ne_char (by omega), point_ne_char (by omega)⟩
  | case3 p =>
      have hp := p.toNat_lt
      rw [encode]
      simp only [List.mem_cons, List.not_mem_nil, not_or, not_false_eq_true, and_true]
      exact ⟨point_ne_char (by omega), point_ne_char (by omega)⟩
  | case4 => exact List.not_mem_nil

end Base64Url

end Scorecard
