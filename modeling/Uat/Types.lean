import Uat.Base.Duplex
import Uat.Base.Base64Url

/-! # The wire vocabulary — codes, validated newtypes, messages, outcomes

    `uat-core`'s data model.  The newtypes reject at construction: `Deadline`,
    `ContentType` and `Credential` carry the bound their constructor checks, so a
    value out of range cannot be built.  Base64 comes from a third-party crate and is
    a parameter of the model (`Base64Engine`); nothing is assumed of it here. -/

namespace UatTypes

/-- Raw bytes: a Rust `Vec<u8>` or `&[u8]`. -/
abbrev Bytes := List UInt8

/-- What a callee can say about the task, inside `Failed`. -/
inductive FailureCode where
  | unauthorized
  | rejected
  | deadlineExceeded
  | handlerError
  deriving DecidableEq, Repr

/-- What either side can say about the connection. -/
inductive CloseCode where
  | normal
  | rateLimited
  | frameTooLarge
  | malformedFrame
  | protocolViolation
  | timeout
  deriving DecidableEq, Repr

/-- Terminal call outcomes shared by both state machines. -/
inductive Outcome where
  | completed
  | failed (code : FailureCode)
  | canceled
  | closed (code : CloseCode)
  | peerLost
  deriving DecidableEq, Repr

/-- Rejections of the wire newtypes' constructors. -/
inductive TypeError where
  | taskIdBadHex
  | deadlineTooLarge (got max : Nat)
  | contentTypeTooLong (got max : Nat)
  | credentialBadEncoding
  | credentialTooLong (got max : Nat)
  deriving DecidableEq, Repr

/-- A node identity: 32 raw bytes of a public key. -/
structure NodeId where
  bytes : Bytes
  length_eq : bytes.length = 32
  deriving DecidableEq

/-- `MAX_DEADLINE_MS`: ten minutes. -/
def maxDeadlineMs : Nat := 600000

/-- `MAX_CONTENT_TYPE_LEN`, in bytes. -/
def maxContentTypeLen : Nat := 64

/-- `MAX_CREDENTIAL_DECODED_LEN`, in bytes. -/
def maxCredentialDecodedLen : Nat := 2048

/-- The `u128` call identity. -/
structure TaskId where
  value : Nat
  isLt : value < 2 ^ 128
  deriving DecidableEq

/-- Callee budget in milliseconds. -/
structure Deadline where
  ms : Nat
  le_max : ms ≤ maxDeadlineMs
  deriving DecidableEq

def Deadline.new (ms : Nat) : Except TypeError Deadline :=
  if h : ms ≤ maxDeadlineMs then .ok ⟨ms, h⟩
  else .error (.deadlineTooLarge ms maxDeadlineMs)

/-- A content type of at most 64 bytes. -/
structure ContentType where
  value : String
  le_max : value.utf8ByteSize ≤ maxContentTypeLen
  deriving DecidableEq

def ContentType.new (value : String) : Except TypeError ContentType :=
  if h : value.utf8ByteSize ≤ maxContentTypeLen then .ok ⟨value, h⟩
  else .error (.contentTypeTooLong value.utf8ByteSize maxContentTypeLen)

/-- The validating constructors rebuild every value they once built. -/
theorem deadline_new_eq (d : Deadline) : Deadline.new d.ms = .ok d := dif_pos d.le_max

/-- A content type passes its own check. -/
theorem contentType_new_eq (c : ContentType) : ContentType.new c.value = .ok c :=
  dif_pos c.le_max

/-- Values for runs on concrete inputs. -/
def taskOne : TaskId := ⟨1, by decide⟩

def oneSecond : Deadline := ⟨1000, by decide⟩

def plain : ContentType := ⟨"text/plain", by decide⟩

def sampleNode (b : UInt8) : NodeId := ⟨List.replicate 32 b, List.length_replicate⟩

/-- The `base64` crate's `URL_SAFE_NO_PAD` engine, of which the model uses only the
    decoder on raw bytes. -/
class Base64Engine where
  decode : Bytes → Option Bytes

/-- The engine as its documentation describes it, for runs on concrete inputs. -/
@[reducible] def urlSafeNoPad : Base64Engine := ⟨Base64Url.decode⟩

/-- The bytes of a Rust string. -/
def asBytes (s : String) : Bytes := s.toByteArray.data.toList

/-- A string's byte size is the length of its bytes. -/
theorem length_asBytes (s : String) : (asBytes s).length = s.utf8ByteSize := rfl

variable [Base64Engine]

/-- Bearer credential: a base64url string whose decoding is at most 2 KiB long. -/
structure Credential where
  encoded : String
  decodes : ∃ raw, Base64Engine.decode (asBytes encoded) = some raw ∧
    raw.length ≤ maxCredentialDecodedLen
  deriving DecidableEq

/-- `Credential::new`: the text must decode, and not to too much. -/
def Credential.new (encoded : String) : Except TypeError Credential :=
  match h : Base64Engine.decode (asBytes encoded) with
  | none => .error .credentialBadEncoding
  | some raw =>
      if hl : raw.length ≤ maxCredentialDecodedLen then .ok ⟨encoded, raw, h, hl⟩
      else .error (.credentialTooLong raw.length maxCredentialDecodedLen)

def Credential.decode (c : Credential) : Except TypeError Bytes :=
  match Base64Engine.decode (asBytes c.encoded) with
  | some raw => .ok raw
  | none => .error .credentialBadEncoding

/-- Wire messages for one call.  `body` travels outside the JSON header. -/
inductive Message where
  | submit (task : TaskId) (deadline : Deadline) (contentType : ContentType)
      (credential : Option Credential) (body : Bytes)
  | accepted
  | progress
  | needInput
  | input (body : Bytes)
  | completed (body : Bytes)
  | failed (code : FailureCode)
  | cancel
  | canceled
  deriving DecidableEq

/-- A credential passes its own check. -/
theorem credential_new_eq (c : Credential) : Credential.new c.encoded = .ok c := by
  obtain ⟨raw, hraw, hlen⟩ := c.decodes
  rw [Credential.new]
  split
  · next h => rw [hraw] at h; cases h
  · next raw' h =>
      obtain rfl : raw = raw' := Option.some.inj (hraw.symm.trans h)
      rw [dif_pos hlen]

end UatTypes
