/-
Keyed digests.

HMAC puts the key in front of a message, digests it, puts the key in front of that
digest and digests again.  The key fills a block of 64 octets: a shorter one is
followed by zeros, a longer one is replaced by its own digest first.
-/
import Scorecard.Digest.Sha256

namespace Scorecard.Hmac

/-- A key that fills a block. -/
def blockKey (key : List UInt8) : List UInt8 :=
  let short := if 64 < key.length then Sha256.hash key else key
  short ++ List.replicate (64 - short.length) 0

/-- The digest of a message under a key. -/
def mac (key message : List UInt8) : List UInt8 :=
  let inner := (blockKey key).map (· ^^^ 0x36)
  let outer := (blockKey key).map (· ^^^ 0x5C)
  Sha256.hash (outer ++ Sha256.hash (inner ++ message))

/-- A keyed digest has 32 octets. -/
@[simp] theorem length_mac (key message : List UInt8) : (mac key message).length = 32 := rfl

end Scorecard.Hmac
