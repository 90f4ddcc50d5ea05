/-
Envelopes of another key.

A keyed digest depends on its key through the block that the key fills, and keys of more
than one kind fill the same block: a key and the same key with zeros behind it, or a key
longer than a block and its own digest.  Who holds such a key opens the other's envelopes.

No other keys are interchangeable.  The blocks stand in front of what is digested last, so
two keys with different blocks digest different octets, and if the digests are the same all
the same, these octets are a collision of the digest, and can be named.
-/
import Scorecard.Proofs.Envelope.Tokens

namespace Scorecard

open Json Value

/-- Different octets with the same digest. -/
def Sha256.Collide (a b : List UInt8) : Prop :=
  a ≠ b ∧ Sha256.hash a = Sha256.hash b

namespace Hmac

variable {key other message : List UInt8}

/-! ### Blocks of keys -/

/-- What of a key goes into its block: the key, or the digest of a long one. -/
def core (key : List UInt8) : List UInt8 :=
  if 64 < key.length then Sha256.hash key else key

theorem core_of_le (h : key.length ≤ 64) : core key = key :=
  if_neg (Nat.not_lt.mpr h)

theorem core_of_lt (h : 64 < key.length) : core key = Sha256.hash key :=
  if_pos h

theorem length_core_le (key : List UInt8) : (core key).length ≤ 64 := by
  by_cases h : 64 < key.length
  · rw [core_of_lt h, Sha256.length_hash]
    decide
  · rw [core_of_le (Nat.le_of_not_lt h)]
    exact Nat.le_of_not_lt h

theorem blockKey_eq (key : List UInt8) :
    blockKey key = core key ++ List.replicate (64 - (core key).length) 0 :=
  rfl

theorem length_blockKey (key : List UInt8) : (blockKey key).length = 64 := by
  rw [blockKey_eq, List.length_append, List.length_replicate]
  exact Nat.add_sub_cancel' (length_core_le key)

/-- Two keys that are told apart by zeros at the end only, if at all, in what goes into the
block. -/
def FillAlike (key other : List UInt8) : Prop :=
  ∃ m n, core key ++ List.replicate m 0 = core other ++ List.replicate n 0

/-- **Keys fill the same block if they differ in zeros at the end.** -/
theorem blockKey_eq_iff : blockKey key = blockKey other ↔ FillAlike key other := by
  -- however many zeros stand behind what goes in, the block is the first 64 octets
  have htake : ∀ (key : List UInt8) (m : Nat),
      (core key ++ List.replicate (m + 64) 0).take 64 = blockKey key := by
    intro key m
    have hlength := length_core_le key
    rw [List.take_append, List.take_of_length_le hlength, List.take_replicate, blockKey_eq]
    congr 2
    omega
  constructor
  · intro h
    exact ⟨_, _, h⟩
  · rintro ⟨m, n, h⟩
    have hmore : core key ++ List.replicate (m + 64) 0 = core other ++ List.replicate (n + 64) 0 := by
      rw [← List.replicate_append_replicate, ← List.append_assoc, h, List.append_assoc,
        List.replicate_append_replicate]
    rw [← htake key m, hmore, htake other n]

/-- Zeros behind a short key do not count. -/
theorem fillAlike_zeros {n : Nat} (h : key.length + n ≤ 64) :
    FillAlike key (key ++ List.replicate n 0) := by
  refine ⟨n, 0, ?_⟩
  rw [core_of_le (by omega), core_of_le (by simpa using h), List.replicate_zero, List.append_nil]

/-- The digest of a long key stands for the key. -/
theorem fillAlike_hash (h : 64 < key.length) : FillAlike key (Sha256.hash key) := by
  refine ⟨0, 0, ?_⟩
  rw [core_of_lt h, core_of_le (by simp)]

/-- Short keys that fill the same block are the same, if neither ends in a zero. -/
theorem FillAlike.eq_of_short (h : FillAlike key other) (hkey : key.length ≤ 64)
    (hother : other.length ≤ 64) (hlast : key.getLast? ≠ some 0) (hlast' : other.getLast? ≠ some 0) :
    key = other := by
  have hnil : ∀ {a b : List UInt8} {m n : Nat}, (a ++ b).getLast? ≠ some 0 →
      List.replicate m 0 = b ++ List.replicate n 0 → b = [] := by
    intro a b m n hend hzeros
    have hb := (List.replicate_eq_append_iff.mp hzeros).2.1
    cases hcount : b.length with
    | zero => exact List.eq_nil_of_length_eq_zero hcount
    | succ count =>
        rw [hcount, List.replicate_succ'] at hb
        rw [hb, ← List.append_assoc, List.getLast?_concat] at hend
        exact absurd rfl hend
  obtain ⟨m, n, h⟩ := h
  rw [core_of_le hkey, core_of_le hother] at h
  rcases List.append_eq_append_iff.mp h with ⟨more, rfl, hzeros⟩ | ⟨more, rfl, hzeros⟩
  · rw [hnil hlast' hzeros, List.append_nil]
  · rw [hnil hlast hzeros, List.append_nil]

/-- Long keys that fill the same block have the same digest. -/
theorem FillAlike.hash_eq (h : FillAlike key other) (hkey : 64 < key.length) (hother : 64 < other.length) :
    Sha256.hash key = Sha256.hash other := by
  obtain ⟨m, n, h⟩ := h
  rw [core_of_lt hkey, core_of_lt hother] at h
  exact (List.append_inj h (by simp)).1

/-! ### Digests under two keys -/

/-- What is digested last: the block of the key, and a digest of the message under it. -/
def outerMessage (key message : List UInt8) : List UInt8 :=
  (blockKey key).map (· ^^^ 0x5C) ++ Sha256.hash ((blockKey key).map (· ^^^ 0x36) ++ message)

/-- Keys with the same block digest alike. -/
theorem mac_congr (h : blockKey key = blockKey other) (message : List UInt8) :
    mac key message = mac other message := by
  unfold mac
  rw [h]

theorem blockKey_of_outerMessage (h : outerMessage key message = outerMessage other message) :
    blockKey key = blockKey other := by
  have hxor : ∀ x y : UInt8, x ^^^ 0x5C = y ^^^ 0x5C → x = y := by
    intro x y hxy
    rw [← UInt8.xor_zero (a := x), ← UInt8.xor_self (a := 0x5C), ← UInt8.xor_assoc, hxy,
      UInt8.xor_assoc, UInt8.xor_self, UInt8.xor_zero]
  have hlengths : ((blockKey key).map (· ^^^ 0x5C)).length =
      ((blockKey other).map (· ^^^ 0x5C)).length := by
    rw [List.length_map, List.length_map, length_blockKey, length_blockKey]
  exact (List.map_inj_right hxor).mp (List.append_inj h hlengths).1

/-- **Two keys digest a message alike if they fill the same block, or else by a collision.** -/
theorem mac_eq_iff :
    mac key message = mac other message ↔
      FillAlike key other ∨ Sha256.Collide (outerMessage key message) (outerMessage other message) := by
  rw [← blockKey_eq_iff]
  constructor
  · intro h
    by_cases hblocks : blockKey key = blockKey other
    · exact .inl hblocks
    · exact .inr ⟨fun hsame => hblocks (blockKey_of_outerMessage hsame), h⟩
  · rintro (hblocks | ⟨-, hdigests⟩)
    · exact mac_congr hblocks message
    · exact hdigests

end Hmac

/-! ### Opening another's envelopes -/

namespace Signer

variable (signer other : Signer)

theorem read_signed_eq_mismatch_iff {payload : List UInt8} :
    other.read (signer.sign payload).present = .error (.integrity .signatureMismatch) ↔
      Hmac.mac signer.key payload ≠ Hmac.mac other.key payload := by
  rw [read_signed]
  exact other.verify_eq_mismatch_iff

/-- Signers whose keys fill the same block open the same envelopes, with the same outcome. -/
theorem read_of_fillAlike {signer other : Signer} (h : Hmac.FillAlike signer.key other.key) (p : Presented) :
    other.read p = signer.read p := by
  have hverify : other.verify = signer.verify := by
    funext e
    unfold verify
    rw [Hmac.mac_congr (Hmac.blockKey_eq_iff.mpr h) e.payload]
  unfold read
  rw [hverify]

/--
**Another key's envelope is refused, unless the keys are interchangeable.**  A sealed value
is refused as a mismatch by every signer whose key fills another block, but for a collision
of the digest between the two texts that are named here; and a signer whose key fills the
same block opens whatever its owner opens.
-/
theorem read_foreign {v : Value} (h : v.unfolded.IsJson) :
    ∃ e, signer.signValue v = .ok e ∧
      (other.read e.present = .error (.integrity .signatureMismatch) ↔
        ¬ Hmac.FillAlike signer.key other.key ∧
          ¬ Sha256.Collide (Hmac.outerMessage signer.key e.payload)
            (Hmac.outerMessage other.key e.payload)) ∧
      (Hmac.FillAlike signer.key other.key → ∀ p, other.read p = signer.read p) := by
  refine ⟨_, signer.signValue_eq h, ?_, read_of_fillAlike⟩
  rw [read_signed_eq_mismatch_iff, ne_eq, Hmac.mac_eq_iff, not_or]
  rfl

/-- The theorem for a sealed null and keys of one octet. -/
theorem read_foreign_octet :
    Value.null.unfolded.IsJson ∧
      ∃ e, (Signer.mk [1] (by decide)).signValue .null = .ok e ∧
        ((Signer.mk [2] (by decide)).read e.present = .error (.integrity .signatureMismatch) ↔
          ¬ Sha256.Collide (Hmac.outerMessage [1] e.payload) (Hmac.outerMessage [2] e.payload)) := by
  have hjson : Value.null.unfolded.IsJson := .null
  have hapart : ¬ Hmac.FillAlike [1] [2] := by
    intro h
    exact absurd (h.eq_of_short (by decide) (by decide) (by decide) (by decide)) (by decide)
  obtain ⟨e, hsealed, hrefused, -⟩ :=
    read_foreign (Signer.mk [1] (by decide)) (Signer.mk [2] (by decide)) hjson
  exact ⟨hjson, e, hsealed, hrefused.trans (and_iff_right hapart)⟩

/-- A key of 17 octets, and the same with a zero behind it. -/
def plainKey : List UInt8 :=
  [0x70, 0x72, 0x6F, 0x70, 0x65, 0x72, 0x74, 0x79, 0x2D, 0x74, 0x65, 0x73, 0x74, 0x2D, 0x6B, 0x65, 0x79]

/-- What is sealed under a key with a zero behind it is opened with the key alone. -/
theorem read_foreign_zero :
    plainKey ++ [0] ≠ plainKey ∧
      ∃ e, (Signer.mk (plainKey ++ [0]) (by decide)).signValue .null = .ok e ∧
        (Signer.mk plainKey (by decide)).read e.present = .ok .null := by
  have halike : Hmac.FillAlike plainKey (plainKey ++ [0]) := Hmac.fillAlike_zeros (n := 1) (by decide)
  have hsame := @read_of_fillAlike (.mk plainKey (by decide)) (.mk (plainKey ++ [0]) (by decide)) halike
  refine ⟨by decide, _, signValue_eq _ .null, ?_⟩
  rw [← hsame]
  exact read_sign _ .null WellKeyed.null

end Signer

end Scorecard
