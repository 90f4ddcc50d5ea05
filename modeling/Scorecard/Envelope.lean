/-
Signed envelopes.

A payload goes out as canonical JSON with a digest of it under a secret key.  Who
holds the key can tell later that the payload is still the one that was sealed.  As
one line of text an envelope is three segments with points between them:

    HS256-CJ1 . payload . mac

The tag names the digest and the encoding of the payload; the other two are octets
in base 64.  Verification is all or nothing: nothing of a payload is shown unless tag,
types and digest are right.

Not every failure is a rejection.  The tag of an envelope and the payload may have integers
in them with too many digits to be turned into text or out of it; nobody expects that, and
the fault gets past the signer.
-/
import Scorecard.Digest.Hmac
import Scorecard.Json.Canonical
import Scorecard.Json.Reader
import Scorecard.Score.Record
import Scorecard.Text.Base64Url

namespace Scorecard

/-- The tag of this library's envelopes. -/
def envelopeTag : String := "HS256-CJ1"

/-- A tag, a payload, and the digest that vouches for it. -/
structure Envelope where
  algorithm : String
  payload : List UInt8
  mac : List UInt8

/-- The classes of integrity errors. -/
inductive IntegrityError.Kind where
  | signatureMismatch
  | malformed
deriving DecidableEq

/-- The name of a kind. -/
def IntegrityError.Kind.text : IntegrityError.Kind → String
  | .signatureMismatch => "signature_mismatch"
  | .malformed => "malformed"

/-- Why an envelope is rejected. -/
inductive IntegrityError where
  | tokenNotText
  | segmentCount (count : Nat)
  | segmentNotBase64
  | segmentNotCanonical
  | notAnEnvelope
  | unsupportedAlgorithm (algorithm : Value)
  | fieldsNotOctets
  | signatureMismatch
  | payloadNotJson
  | payloadNotAScore

namespace IntegrityError

def kind : IntegrityError → Kind
  | .signatureMismatch => .signatureMismatch
  | _ => .malformed

def message : IntegrityError → String
  | .tokenNotText => "Envelope token must be a string"
  | .segmentCount count => s!"Envelope token must have 3 segments, got {count}"
  | .segmentNotBase64 => "Invalid base64 segment"
  | .segmentNotCanonical => "Non-canonical base64 segment"
  | .notAnEnvelope => "Not an envelope"
  | .unsupportedAlgorithm algorithm => s!"Unsupported envelope algorithm: {algorithm.literal}"
  | .fieldsNotOctets => "Envelope fields must be bytes"
  | .signatureMismatch => "Envelope signature mismatch"
  | .payloadNotJson => "Envelope payload is not canonical JSON"
  | .payloadNotAScore => "Payload is not a session score"

end IntegrityError

/-- Why an envelope is not opened: it is rejected, or a fault is not turned into a
rejection. -/
inductive Signer.Failure where
  | integrity (e : IntegrityError)
  | fault (f : Fault)

/-! ### Tokens -/

namespace Envelope

/-- The octets of a segment. -/
def decodeSegment (segment : List Char) : Except IntegrityError (List UInt8) :=
  match Base64Url.decode? segment with
  | some octets => .ok octets
  | none =>
    if Base64Url.isSloppy segment then .error .segmentNotCanonical else .error .segmentNotBase64

/-- The parts of a text between its points. -/
def segments : List Char → List (List Char)
  | [] => [[]]
  | c :: rest =>
    if c = '.' then [] :: segments rest
    else
      match segments rest with
      | [] => [[c]]
      | first :: others => (c :: first) :: others

/-- An envelope as one line of text. -/
def token (e : Envelope) : String :=
  String.ofList (e.algorithm.toList ++
    '.' :: (Base64Url.encode e.payload ++ '.' :: Base64Url.encode e.mac))

/-- The envelope of a line of text. -/
def ofToken (text : String) : Except IntegrityError Envelope :=
  match segments text.toList with
  | [algorithm, payload, mac] => do
    let payload ← decodeSegment payload
    let mac ← decodeSegment mac
    .ok ⟨String.ofList algorithm, payload, mac⟩
  | others => .error (.segmentCount others.length)

/-- The refusal of a line of text that has half of a surrogate pair in it.  No letter is one
and neither is a point, so the line is cut and read like any other; if nothing else is
wrong with it, the half stands in the tag. -/
def brokenLine (text : BrokenText) : IntegrityError :=
  match ofToken text.shown with
  | .error e => e
  | .ok _ => .unsupportedAlgorithm (Value.ofPoints (text.points.takeWhile (· ≠ .char '.')))

/-- The envelope of a value, which must be text. -/
def ofTokenValue : Value → Except IntegrityError Envelope
  | .str text => ofToken text
  | .broken text => .error (brokenLine text)
  | _ => .error .tokenNotText

end Envelope

/-! ### Envelopes that nobody has checked -/

/-- An envelope as it was handed in, its fields of any kind. -/
structure Presented where
  algorithm : Value
  payload : Value
  mac : Value

namespace Presented

/-- The same envelope, field by field. -/
def same (a b : Presented) : Bool :=
  a.payload.same b.payload && a.mac.same b.mac && a.algorithm.same b.algorithm

/-- An envelope with this library's tag and octets in both fields.  A tag that is refused is
shown. -/
def check (p : Presented) : Except Signer.Failure Envelope :=
  if p.algorithm.same (.str envelopeTag) then
    match p.payload, p.mac with
    | .bytes payload, .bytes mac => .ok ⟨envelopeTag, payload, mac⟩
    | _, _ => .error (.integrity .fieldsNotOctets)
  else if p.algorithm.hasLiteral then .error (.integrity (.unsupportedAlgorithm p.algorithm))
  else .error (.fault .tooManyDigits)

/-- The line of text of an envelope whose fields allow it. -/
def token (p : Presented) : Except Fault String :=
  match p.algorithm, p.payload, p.mac with
  | .str algorithm, .bytes payload, .bytes mac => .ok (Envelope.token ⟨algorithm, payload, mac⟩)
  | _, _, _ => .error .wrongKind

end Presented

/-- An envelope, presented. -/
def Envelope.present (e : Envelope) : Presented :=
  ⟨.str e.algorithm, .bytes e.payload, .bytes e.mac⟩

/-! ### Signing -/

/-- The octets of a text. -/
def textOctets (text : String) : List UInt8 :=
  text.toUTF8.toList

/-- The text of octets, if they are one. -/
def octetsText? (octets : List UInt8) : Option String :=
  String.fromUTF8? ⟨octets.toArray⟩

/-- The value that octets write in JSON. -/
def Value.ofOctets (octets : List UInt8) : Except Fault Value :=
  match octetsText? octets with
  | some text => ofJson text
  | none => .error .badJson

/-- Who seals and opens envelopes: the holder of a key that is not empty. -/
structure Signer where
  key : List UInt8
  key_ne_nil : key ≠ []

namespace Signer

/-- The signer of a key. -/
def ofKey (key : List UInt8) : Except Fault Signer :=
  if h : key = [] then .error .emptySigningKey else .ok ⟨key, h⟩

/-- The signer of a key that is text or octets. -/
def ofValue : Value → Except Fault Signer
  | .str text => ofKey (textOctets text)
  | .bytes key => ofKey key
  | .broken _ => .error .meaningless
  | v => if v.isEmpty then .error .emptySigningKey else .error .wrongKind

/-- The signer's own text, which does not show the key. -/
def text (_ : Signer) : String :=
  s!"EnvelopeSigner(algorithm={Quoted.text envelopeTag})"

/-- Sign a payload. -/
def sign (s : Signer) (payload : List UInt8) : Envelope :=
  ⟨envelopeTag, payload, Hmac.mac s.key payload⟩

/-- Encode and sign a value. -/
def signValue (s : Signer) (v : Value) : Except Fault Envelope := do
  .ok (s.sign (textOctets (← v.canonical)))

/-- The payload of an envelope, once its digest is found right.  What is no JSON makes the
envelope malformed; no other fault of reading does. -/
def verify (s : Signer) (e : Envelope) : Except Failure Value :=
  if Hmac.mac s.key e.payload = e.mac then
    match Value.ofOctets e.payload with
    | .ok v => .ok v
    | .error .badJson => .error (.integrity .payloadNotJson)
    | .error f => .error (.fault f)
  else .error (.integrity .signatureMismatch)

/-- Verify an envelope and show its payload. -/
def read (s : Signer) (p : Presented) : Except Failure Value := do
  s.verify (← p.check)

/-- Verify the envelope of a line of text and show its payload. -/
def readToken (s : Signer) (token : Value) : Except Failure Value := do
  s.read (← (Envelope.ofTokenValue token).mapError .integrity).present

/-! ### Scores in envelopes -/

/-- Seal a session's score. -/
def signScore (s : Signer) (score : SessionScore) : Except Fault Envelope :=
  s.signValue score.toValue

/-- The families of faults that make a payload no score. -/
def refusedFamilies : List Fault.Family :=
  [.notFound, .wrongType, .badValue, .notSupported]

/-- The score that a payload describes.  A payload that is no score makes the envelope
malformed. -/
def scoreOf (payload : Value) : Except Failure SessionScore :=
  match SessionScore.ofValue payload with
  | .ok score => .ok score
  | .error f =>
    if f.family ∈ refusedFamilies then .error (.integrity .payloadNotAScore) else .error (.fault f)

/-- Verify an envelope and read the score in it. -/
def readScore (s : Signer) (p : Presented) : Except Failure SessionScore := do
  scoreOf (← s.read p)

end Signer

end Scorecard
