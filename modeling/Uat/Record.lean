import Uat.Policy
import Uat.RecvStream

/-! # Call errors and the audit record

    What a call can fail with, how a connection error maps to a close code, and the
    record guard that both ends fill in.  The record keeps what the code decides; its
    time stamps, byte counts and transport path are measured, not decided, and are left
    out. -/

namespace UatRecord

open UatTypes UatPolicy UatCodec UatStream

/-! ## Connection errors -/

/-- A QUIC variable-length integer. -/
structure VarInt where
  value : Nat
  isLt : value < 2 ^ 62
  deriving DecidableEq

/-- Why the transport ended the connection. -/
inductive ConnectionError where
  | applicationClosed (errorCode : VarInt)
  | timedOut
  | other
  deriving DecidableEq

/-- `CloseCode::from_u32`: six codes are known. -/
def CloseCode.fromU32 : Nat → Option CloseCode
  | 0 => some .normal
  | 1 => some .rateLimited
  | 2 => some .frameTooLarge
  | 3 => some .malformedFrame
  | 4 => some .protocolViolation
  | 5 => some .timeout
  | _ => none

def CloseCode.asU32 : CloseCode → Nat
  | .normal => 0
  | .rateLimited => 1
  | .frameTooLarge => 2
  | .malformedFrame => 3
  | .protocolViolation => 4
  | .timeout => 5

/-- A close code survives its numeric form. -/
theorem fromU32_asU32 (code : CloseCode) :
    CloseCode.fromU32 (CloseCode.asU32 code) = some code := by
  cases code <;> rfl

/-- The application code is narrowed to 32 bits before it is looked up. -/
def closeCodeFromConnErr : ConnectionError → CloseCode
  | .applicationClosed errorCode =>
      (CloseCode.fromU32 (errorCode.value % 2 ^ 32)).getD .protocolViolation
  | .timedOut => .timeout
  | .other => .protocolViolation

/-- The error a peer sees after `close_with(conn, code)`. -/
def closedBy (code : CloseCode) : ConnectionError :=
  .applicationClosed ⟨CloseCode.asU32 code, by cases code <;> decide⟩

/-- A close code survives the wire. -/
theorem closeCodeFromConnErr_closedBy (code : CloseCode) :
    closeCodeFromConnErr (closedBy code) = code := by
  cases code <;> rfl

/-! ## Call errors -/

/-- Errors from driving a call. -/
inductive CallError where
  | streamSetup (reason : String)
  | frame (err : FrameIoError)
  | illegal
  | unauthorized
  | cancelled
  | connection (reason : String)
  | networkTimeout
  deriving DecidableEq

/-- The `Display` text of a codec error. -/
def CodecError.text : CodecError → String
  | .frameTooLarge => "frame too large"
  | .truncated => "truncated frame"
  | .badLength => "len inconsistent with hdr_len"
  | .malformedHeader => "malformed header json"
  | .headerTooLarge => "header too large to encode"
  | .encodeTooLarge => "frame too large to encode"
  | .submitDenied => "submit denied before body copy"

/-- The `Display` text of a frame error. -/
def FrameIoError.text : FrameIoError → String
  | .codec err => CodecError.text err
  | .read _ => "stream read failed"
  | .write => "stream write failed"
  | .unexpectedEnd => "stream ended before frame complete"

/-- The `Display` text of a call error, which the daemon's responses quote. -/
def CallError.text : CallError → String
  | .streamSetup reason => "stream setup failed: " ++ reason
  | .frame err => FrameIoError.text err
  | .illegal => "illegal state transition"
  | .unauthorized => "peer not authorized"
  | .cancelled => "call cancelled"
  | .connection reason => "connection failed: " ++ reason
  | .networkTimeout => "network operation timed out"

/-- Map a call error onto the closest outcome for the audit record. -/
def outcomeFromCallError : CallError → Outcome
  | .cancelled => .canceled
  | .unauthorized => .failed .unauthorized
  | .networkTimeout => .closed .timeout
  | .illegal => .closed .protocolViolation
  | .frame err =>
      match err.closeCode with
      | some code => .closed code
      | none =>
          match err with
          | .unexpectedEnd | .read _ | .write => .peerLost
          | .codec _ => .closed .protocolViolation
  | .streamSetup _ | .connection _ => .peerLost

/-- **What an error is recorded as.**  A cancelled call and a refused one have outcomes of their
    own; every other error is a lost peer or a close, and no close is that of a rate limit. -/
theorem outcomeFromCallError_cases (err : CallError) :
    (err = .cancelled ∧ outcomeFromCallError err = .canceled) ∨
      (err = .unauthorized ∧ outcomeFromCallError err = .failed .unauthorized) ∨
      outcomeFromCallError err = .peerLost ∨
      ∃ code ∈ [CloseCode.frameTooLarge, .malformedFrame, .protocolViolation, .timeout],
        outcomeFromCallError err = .closed code := by
  cases err with
  | cancelled => exact Or.inl ⟨rfl, rfl⟩
  | unauthorized => exact Or.inr (Or.inl ⟨rfl, rfl⟩)
  | streamSetup _ | connection _ => exact Or.inr (Or.inr (Or.inl rfl))
  | illegal | networkTimeout => exact Or.inr (Or.inr (Or.inr ⟨_, by decide, rfl⟩))
  | frame fe =>
      cases fe with
      | codec err => cases err <;> exact Or.inr (Or.inr (Or.inr ⟨_, by decide, rfl⟩))
      | write => exact Or.inr (Or.inr (Or.inl rfl))
      | unexpectedEnd => exact Or.inr (Or.inr (Or.inr ⟨_, by decide, rfl⟩))
      | read source =>
          cases source with
          | finishedEarly n => exact Or.inr (Or.inr (Or.inr ⟨_, by decide, rfl⟩))
          | _ => exact Or.inr (Or.inr (Or.inl rfl))

/-! ## The record guard -/

/-- Whether this node was dialed or dialed itself. -/
inductive Direction where
  | outbound
  | inbound
  deriving DecidableEq, Repr

/-- Result of the authorization check for a connection. -/
inductive AuthOutcome where
  | allowed (rule : AuthRule)
  | denied (reason : String)
  | notReached
  deriving DecidableEq

/-- One audit record per accepted or opened connection. -/
structure CallRecord where
  task : Option TaskId
  direction : Direction
  peer : NodeId
  authorization : AuthOutcome
  outcome : Outcome
  deriving DecidableEq

/-- Builds a record and emits it once, at the latest when it is dropped. -/
structure CallRecordGuard where
  record : CallRecord
  emitted : Bool
  deriving DecidableEq

/-- `CallRecordGuard::new`: no task yet, and `PeerLost` until the outcome is known. -/
def CallRecordGuard.new (direction : Direction) (peer : NodeId) (authorization : AuthOutcome) :
    CallRecordGuard :=
  ⟨⟨none, direction, peer, authorization, .peerLost⟩, false⟩

def CallRecordGuard.setTask (g : CallRecordGuard) (task : TaskId) : CallRecordGuard :=
  { g with record := { g.record with task := some task } }

def CallRecordGuard.clearTask (g : CallRecordGuard) : CallRecordGuard :=
  { g with record := { g.record with task := none } }

def CallRecordGuard.setAuthorization (g : CallRecordGuard) (authorization : AuthOutcome) :
    CallRecordGuard :=
  { g with record := { g.record with authorization := authorization } }

def CallRecordGuard.setOutcome (g : CallRecordGuard) (outcome : Outcome) : CallRecordGuard :=
  { g with record := { g.record with outcome := outcome } }

/-- `observe_result`: whatever outcome was set before is overwritten. -/
def CallRecordGuard.observeResult (g : CallRecordGuard) :
    Except CallError Outcome → CallRecordGuard
  | .ok outcome => g.setOutcome outcome
  | .error err => g.setOutcome (outcomeFromCallError err)

/-- What a guard keeps until it emits: that it has not, and whose connection it records. -/
def CallRecordGuard.identity (g : CallRecordGuard) : Bool × Direction × NodeId :=
  (g.emitted, g.record.direction, g.record.peer)

/-- `emit_now`: what the sink has received after it. -/
def CallRecordGuard.emitNow (g : CallRecordGuard) (sink : List CallRecord) :
    CallRecordGuard × List CallRecord :=
  if g.emitted then (g, sink) else ({ g with emitted := true }, sink ++ [g.record])

/-- The sink has received one record of the connection if its call is over, else none. -/
def OneRecord (direction : Direction) (peer : NodeId) (ended : Bool) (sink : List CallRecord) :
    Prop :=
  (ended = true → ∃ record, sink = [record] ∧ record.direction = direction ∧ record.peer = peer) ∧
  (ended = false → sink = [])

/-- A guard that has not emitted does so once, and in the connection's name. -/
theorem emitNow_oneRecord {g : CallRecordGuard} {direction : Direction} {peer : NodeId}
    (h : g.identity = (false, direction, peer)) :
    OneRecord direction peer true (g.emitNow []).2 := by
  have hemitted : g.emitted = false := congrArg Prod.fst h
  refine ⟨fun _ => ⟨g.record, ?_, ?_, ?_⟩, nofun⟩
  · rw [CallRecordGuard.emitNow]
    rw [if_neg (by rw [hemitted]; nofun)]
    rfl
  · exact congrArg (·.2.1) h
  · exact congrArg (·.2.2) h

section

variable (g : CallRecordGuard)

/-- The result of a call says nothing of the authorization. -/
@[simp] theorem observeResult_authorization (r : Except CallError Outcome) :
    (g.observeResult r).record.authorization = g.record.authorization := by
  cases r <;> rfl

@[simp] theorem setTask_identity (task : TaskId) : (g.setTask task).identity = g.identity := rfl

@[simp] theorem clearTask_identity : g.clearTask.identity = g.identity := rfl

/-- The result of a call leaves alone whose connection it was. -/
@[simp] theorem observeResult_identity (r : Except CallError Outcome) :
    (g.observeResult r).identity = g.identity := by
  cases r <;> rfl

end

end UatRecord
