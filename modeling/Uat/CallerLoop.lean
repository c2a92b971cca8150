import Uat.Record
import Uat.State
import Uat.Base.StepRun

/-! # `caller_loop` — the caller's select loop, poll by poll

    The loop as the state machine its task is: where it is suspended (`Await`), its local
    variables, and what its environment has made ready.  Bytes arrive, the connection
    closes, timers fire and the cancel hook resolves at any moment; a poll takes the
    first ready branch of the biased `select`.

    A branch that completes drops the futures of the others.  The read future holds the
    bytes it has taken off the stream, so the one branch that goes on looping, the cancel
    hook, loses a frame it falls into the middle of.
    `framing_survives_boundary_cancels` is the positive half: in every run in which the
    hook fires only between frames, the messages handed to `caller_step` are a prefix of
    those the callee wrote. -/

namespace UatCallerLoop

open UatTypes UatState UatCodec UatHeader UatStream UatRecvStream UatRecord Checked StepRun

/-- The receiver of `request_cancel`. -/
inductive Hook where
  | waiting
  | sent
  | dropped
  /-- Polled to completion; polling it again panics. -/
  | resolved
  deriving DecidableEq, Repr

/-- Where `caller_loop` is suspended. -/
inductive Await where
  | writeSubmit
  | select (read : ReadFrame)
  | writeCancel
  | returned (result : Except CallError Outcome)
  | panicked

/-- The loop has not returned, and did not panic. -/
def Await.running : Await → Bool
  | .returned _ | .panicked => false
  | _ => true

/-- The bytes that are lost when the loop leaves the await it is in. -/
def Await.held : Await → Bytes
  | .select read => read.held
  | _ => []

section

variable [Base64Engine]

/-- The task of one caller, its environment, and a log of the messages handed over. -/
structure Caller where
  task : TaskId
  state : CallerState
  requestCancel : Option Hook
  record : CallRecordGuard
  await : Await
  /-- `cancel.cancelled()` and `call_timer` are ready. -/
  shutdown : Bool
  timer : Bool
  /-- `conn.close_reason()`, and the code this side closed with. -/
  closed : Option ConnectionError
  closedWith : Option CloseCode
  recv : RecvStream
  /-- Bytes the callee wrote that are still on their way. -/
  inFlight : Bytes
  /-- Messages handed to `caller_step` as `Recv`, and the frame error of a read. -/
  handed : List Message
  readError : Option FrameIoError

/-- `conn.close`: the first code counts. -/
def Caller.closeWith (c : Caller) (code : CloseCode) : Caller :=
  { c with closedWith := c.closedWith.or (some code) }

/-- `close_on_frame_err`: some errors have a code of their own. -/
def Caller.closeOnFrameErr (c : Caller) (err : FrameIoError) : Caller :=
  match err.closeCode with
  | some code => c.closeWith code
  | none => c

def Caller.ret (c : Caller) (result : Except CallError Outcome) : Caller :=
  { c with await := .returned result }

/-- The top of the loop: return a terminal outcome, else build the futures anew. -/
def Caller.loopTop (c : Caller) : Caller :=
  match c.state with
  | .terminal outcome => (c.closeWith .normal).ret (.ok outcome)
  | _ => { c with await := .select .fresh }

/-- `caller_loop` up to its first await, on a stream the callee will put `wire` on. -/
def callerLoop (submit : Message) (requestCancel : Option Hook) (record : CallRecordGuard)
    (wire : Bytes) : Except CallError Caller :=
  match submit with
  | .submit task _ _ _ _ =>
      match callerStep .dialing (.send submit) with
      | .ok step =>
          .ok ⟨task, step.state, requestCancel, record, .writeSubmit, false, false, none, none,
            ⟨[], none⟩, wire, [], none⟩
      | .error _ => .error .illegal
  | _ => .error .illegal

/-! ## The branches -/

/-- How an awaited write ends: `await_network(budget, write_message(..))`. -/
inductive WriteEnd where
  | done
  | failed (err : FrameIoError)
  | timedOut

/-- What the write returns to the loop. -/
def WriteEnd.result : WriteEnd → Except CallError Unit
  | .done => .ok ()
  | .failed err => .error (.frame err)
  | .timedOut => .error .networkTimeout

/-- Did the peer close with `RateLimited`? -/
def Caller.rateLimited (c : Caller) : Bool :=
  match c.closed with
  | some err => closeCodeFromConnErr err == .rateLimited
  | none => false

/-- A failed write closes the connection with the frame error's code. -/
def Caller.writeFailed (c : Caller) (err : CallError) : Caller :=
  match err with
  | .frame fe => (c.closeOnFrameErr fe).ret (.error err)
  | _ => c.ret (.error err)

/-- After the write of the `Submit`. -/
def Caller.submitWritten (c : Caller) (w : WriteEnd) : Caller :=
  match w.result with
  | .error err =>
      if c.rateLimited then
        { c with record := c.record.clearTask.setOutcome (.closed .rateLimited) }.ret
          (.error (.connection (CallError.text err)))
      else c.writeFailed err
  | .ok _ =>
      if c.rateLimited then
        { c with record := c.record.clearTask.setOutcome (.closed .rateLimited) }.ret
          (.ok (.closed .rateLimited))
      else { c with record := c.record.setTask c.task }.loopTop

/-- After the write of a `Cancel`. -/
def Caller.cancelWritten (c : Caller) (w : WriteEnd) : Caller :=
  match w.result with
  | .error err => c.writeFailed err
  | .ok _ => c.loopTop

/-- `call_timer` fires: the call is closed with `Timeout`. -/
def Caller.onTimer (c : Caller) : Caller :=
  match callerStep c.state .timeout with
  | .ok step =>
      let c := { c with state := step.state }.closeWith .timeout
      match step.state with
      | .terminal outcome => c.ret (.ok outcome)
      | _ => c.ret (.ok (.closed .timeout))
  | .error _ => (c.closeWith .protocolViolation).ret (.error .illegal)

/-- The step that a lost connection is, and its outcome. -/
def Caller.connLost (c : Caller) (code : CloseCode) : Caller :=
  match callerStep c.state (.connLost code) with
  | .ok step =>
      match step.state with
      | .terminal outcome => c.ret (.ok outcome)
      | _ => c.ret (.error .illegal)
  | .error _ => c.ret (.error .illegal)

/-- The connection is closed; one refused for its rate has no task. -/
def Caller.onClosed (c : Caller) (err : ConnectionError) : Caller :=
  if closeCodeFromConnErr err = .rateLimited then
    { c with record := c.record.clearTask }.connLost (closeCodeFromConnErr err)
  else c.connLost (closeCodeFromConnErr err)

/-- The hook was used: step, then write `Cancel`. -/
def Caller.onCancelReq (c : Caller) : Caller :=
  let c := { c with requestCancel := none }
  match callerStep c.state (.send .cancel) with
  | .ok step => { c with state := step.state, await := .writeCancel }
  | .error _ => (c.closeWith .protocolViolation).ret (.error .illegal)

/-! ## What the branches leave alone -/

/-- The step touched neither the stream nor the log, it holds no byte of a frame, and a
    hook that resolved stays so. -/
structure Quiet (c c' : Caller) : Prop where
  handed : c'.handed = c.handed
  readError : c'.readError = c.readError
  recv : c'.recv = c.recv
  inFlight : c'.inFlight = c.inFlight
  fresh : ∀ read, c'.await = .select read → read = .fresh
  hook : c.requestCancel = some .resolved → c'.requestCancel = some .resolved

/-- Behind a quiet step no byte of a frame is held. -/
theorem Quiet.held {c c' : Caller} (h : Quiet c c') : c'.await.held = [] := by
  have hfresh := h.fresh
  cases hawait : c'.await with
  | select read =>
      rw [hawait] at hfresh
      obtain rfl := hfresh read rfl
      rfl
  | _ => rfl

/-- Returning touches no stream. -/
theorem ret_quiet (c : Caller) (r : Except CallError Outcome) : Quiet c (c.ret r) :=
  ⟨rfl, rfl, rfl, rfl, fun _ h => (nomatch h), id⟩

theorem closeOnFrameErr_ret_quiet (c : Caller) (err : FrameIoError)
    (r : Except CallError Outcome) : Quiet c ((c.closeOnFrameErr err).ret r) := by
  rw [Caller.closeOnFrameErr]
  cases err.closeCode with
  | none => exact ret_quiet c r
  | some code => exact ⟨rfl, rfl, rfl, rfl, fun _ h => (nomatch h), id⟩

theorem loopTop_quiet (c : Caller) : Quiet c c.loopTop := by
  rw [Caller.loopTop]
  cases c.state with
  | terminal o => exact ⟨rfl, rfl, rfl, rfl, fun _ h => (nomatch h), id⟩
  | _ => exact ⟨rfl, rfl, rfl, rfl, fun _ h => by cases h; rfl, id⟩

theorem writeFailed_quiet (c : Caller) (err : CallError) : Quiet c (c.writeFailed err) := by
  cases err with
  | frame fe => exact closeOnFrameErr_ret_quiet c fe _
  | _ => exact ret_quiet c _

/-- A quiet step after a change of fields outside the stream and the log. -/
theorem Quiet.of_eq {c₀ c c' : Caller} (h : Quiet c c') (hhanded : c.handed = c₀.handed)
    (hread : c.readError = c₀.readError) (hrecv : c.recv = c₀.recv)
    (hflight : c.inFlight = c₀.inFlight)
    (hhook : c₀.requestCancel = some .resolved → c.requestCancel = some .resolved) :
    Quiet c₀ c' :=
  ⟨h.handed.trans hhanded, h.readError.trans hread, h.recv.trans hrecv,
    h.inFlight.trans hflight, h.fresh, fun h₀ => h.hook (hhook h₀)⟩

theorem submitWritten_quiet (c : Caller) (w : WriteEnd) : Quiet c (c.submitWritten w) := by
  rw [Caller.submitWritten]
  cases w.result with
  | error err =>
      dsimp only
      split
      · exact (ret_quiet _ _).of_eq rfl rfl rfl rfl id
      · exact writeFailed_quiet c err
  | ok _ =>
      dsimp only
      split
      · exact (ret_quiet _ _).of_eq rfl rfl rfl rfl id
      · exact (loopTop_quiet _).of_eq rfl rfl rfl rfl id

theorem cancelWritten_quiet (c : Caller) (w : WriteEnd) : Quiet c (c.cancelWritten w) := by
  rw [Caller.cancelWritten]
  cases w.result with
  | error err => exact writeFailed_quiet c err
  | ok _ => exact loopTop_quiet c

/-- The timer branch returns. -/
theorem onTimer_quiet (c : Caller) : Quiet c c.onTimer ∧ c.onTimer.await.running = false := by
  rw [Caller.onTimer]
  cases callerStep c.state .timeout with
  | error _ => exact ⟨(ret_quiet _ _).of_eq rfl rfl rfl rfl id, rfl⟩
  | ok step =>
      dsimp only
      cases step.state <;> exact ⟨(ret_quiet _ _).of_eq rfl rfl rfl rfl id, rfl⟩

theorem connLost_quiet (c : Caller) (code : CloseCode) :
    Quiet c (c.connLost code) ∧ (c.connLost code).await.running = false := by
  rw [Caller.connLost]
  cases callerStep c.state (.connLost code) with
  | error _ => exact ⟨ret_quiet _ _, rfl⟩
  | ok step =>
      dsimp only
      cases step.state <;> exact ⟨ret_quiet _ _, rfl⟩

/-- The branch of a closed connection returns. -/
theorem onClosed_quiet (c : Caller) (err : ConnectionError) :
    Quiet c (c.onClosed err) ∧ (c.onClosed err).await.running = false := by
  rw [Caller.onClosed]
  split
  · exact ⟨(connLost_quiet _ _).1.of_eq rfl rfl rfl rfl id, (connLost_quiet _ _).2⟩
  · exact connLost_quiet c _

/-- A request to cancel drops the read, and with it only what the read held. -/
theorem onCancelReq_quiet {c : Caller} (h : c.requestCancel = some .sent) :
    Quiet c c.onCancelReq := by
  have hhook : c.requestCancel = some .resolved → none = some Hook.resolved :=
    fun hr => nomatch h.symm.trans hr
  rw [Caller.onCancelReq]
  dsimp only
  cases callerStep c.state (.send .cancel) with
  | error _ => exact (ret_quiet _ _).of_eq rfl rfl rfl rfl hhook
  | ok step => exact ⟨rfl, rfl, rfl, rfl, fun _ h => (nomatch h), hhook⟩

/-! ## One poll -/

variable [text : JsonText]

/-- The read branch completed. -/
def Caller.onRead (c : Caller) : Exec FrameIoError Message → Caller
  | .ok msg =>
      let c := { c with handed := c.handed ++ [msg] }
      match callerStep c.state (.recv msg) with
      | .ok step => { c with state := step.state }.loopTop
      | .error _ => (c.closeWith .protocolViolation).ret (.error .illegal)
  | .error (.err err) =>
      ({ c with readError := some err }.closeOnFrameErr err).ret (.error (.frame err))
  | .error .panic => { c with await := .panicked }

/-- The read branch: `await_network(budget, read_message(recv, &AllowAll))`, where
    `expired` says whether the budget has run out. -/
def Caller.pollRead (c : Caller) (read : ReadFrame) (expired : Bool) : Caller :=
  match pollMessage read c.recv with
  | (.ready r, recv) => { c with recv := recv }.onRead r
  | (.pending read, recv) =>
      if expired then
        ({ c with recv := recv }.closeWith .timeout).ret (.ok (.closed .timeout))
      else { c with recv := recv, await := .select read }

/-- One poll of the biased `select`. -/
def Caller.pollSelect (c : Caller) (read : ReadFrame) (expired : Bool) : Caller :=
  if c.shutdown then c.ret (.error .cancelled)
  else if c.timer then c.onTimer
  else
    match c.closed with
    | some err => c.onClosed err
    | none =>
        match c.requestCancel with
        | some .sent => c.onCancelReq
        -- The sender is gone: nothing is sent and the receiver stays in place.
        | some .dropped => { c with requestCancel := some .resolved }.loopTop
        | some .resolved => { c with await := .panicked }
        | some .waiting | none => c.pollRead read expired

/-! ## Steps -/

/-- What can happen to the caller's task. -/
inductive Ev where
  /-- The next `n` bytes arrive. -/
  | arrive (n : Nat)
  /-- The callee finished the stream, and all it wrote has arrived. -/
  | finish
  | lose
  | close (err : ConnectionError)
  | shutdown
  | timer
  | hookSend
  | hookDrop
  | wrote (w : WriteEnd)
  | poll (expired : Bool)

/-- One step of `caller_loop` and of what is around it. -/
def step (c : Caller) : Ev → Option Caller
  | .arrive n =>
      if c.recv.ended = none ∧ n ≤ c.inFlight.length then
        some { c with
          recv := { c.recv with arrived := c.recv.arrived ++ c.inFlight.take n }
          inFlight := c.inFlight.drop n }
      else none
  | .finish =>
      if c.recv.ended = none ∧ c.inFlight = [] then
        some { c with recv := { c.recv with ended := some .finished } }
      else none
  | .lose =>
      if c.recv.ended = none then some { c with recv := { c.recv with ended := some .lost } }
      else none
  | .close err => if c.closed = none then some { c with closed := some err } else none
  | .shutdown => some { c with shutdown := true }
  | .timer => some { c with timer := true }
  | .hookSend =>
      if c.requestCancel = some .waiting then some { c with requestCancel := some .sent } else none
  | .hookDrop =>
      if c.requestCancel = some .waiting then some { c with requestCancel := some .dropped }
      else none
  | .wrote w =>
      match c.await with
      | .writeSubmit => some (c.submitWritten w)
      | .writeCancel => some (c.cancelWritten w)
      | _ => none
  | .poll expired =>
      match c.await with
      | .select read => some (c.pollSelect read expired)
      | _ => none

/-- A write that ends was the `Submit`'s or a `Cancel`'s. -/
theorem step_wrote {c c' : Caller} {w : WriteEnd} (hs : step c (.wrote w) = some c') :
    (c.await = .writeSubmit ∧ c' = c.submitWritten w) ∨
      (c.await = .writeCancel ∧ c' = c.cancelWritten w) := by
  rw [step] at hs
  cases hawait : c.await with
  | writeSubmit =>
      rw [hawait] at hs
      exact Or.inl ⟨rfl, (Option.some.inj hs).symm⟩
  | writeCancel =>
      rw [hawait] at hs
      exact Or.inr ⟨rfl, (Option.some.inj hs).symm⟩
  | select _ | returned _ | panicked =>
      rw [hawait] at hs
      cases hs

/-- What is polled is the `select`. -/
theorem step_poll {c c' : Caller} {expired : Bool} (hs : step c (.poll expired) = some c') :
    ∃ read, c.await = .select read ∧ c' = c.pollSelect read expired := by
  rw [step] at hs
  cases hawait : c.await with
  | select read =>
      rw [hawait] at hs
      exact ⟨read, rfl, (Option.some.inj hs).symm⟩
  | writeSubmit | writeCancel | returned _ | panicked =>
      rw [hawait] at hs
      cases hs

/-! ## The loop on a stream of frames -/

/-- A read can fail for another reason than the bytes it got: the connection was lost, or
    the stream ended after the last message. -/
def StreamOver (written handed : List Message) (err : FrameIoError) : Prop :=
  err = .read .readError ∨ (err = .unexpectedEnd ∧ handed = written)

/-- **The property.** The messages handed over are a prefix of those the callee wrote, and
    no read failed on the callee's bytes. -/
structure FramingKept (written : List Message) (c : Caller) : Prop where
  handed : c.handed <+: written
  errors : ∀ err, c.readError = some err → StreamOver written c.handed err

/-- While the loop can still read, the bytes it holds and those to come are the frames of
    the messages not yet handed over.  Once the hook has resolved without a request the
    loop reads no more: it would poll the hook first. -/
structure Aligned (written : List Message) (c : Caller) : Prop extends
    FramingKept written c where
  noError : c.await.running = true → c.readError = none
  bytes : c.await.running = true → c.requestCancel ≠ some .resolved →
    ∃ rest payloads, written = c.handed ++ rest ∧ List.Forall₂ Frames rest payloads ∧
      c.await.held ++ c.recv.arrived ++ c.inFlight = (payloads.map frameOf).flatten
  whole : ∀ read, c.await = .select read → read.Partial
  finished : c.recv.ended = some .finished → c.inFlight = []

/-- A quiet step out of an await that holds nothing keeps the alignment. -/
theorem aligned_of_quiet {written : List Message} {c c' : Caller} (h : Aligned written c)
    (hq : Quiet c c') (hrun : c.await.running = true)
    (hheld : c'.await.running = true → c'.requestCancel ≠ some .resolved → c.await.held = []) :
    Aligned written c' := by
  obtain ⟨⟨hhanded, herrors⟩, hnone, hbytes, -, hfinished⟩ := h
  refine ⟨⟨?_, ?_⟩, ?_, ?_, ?_, ?_⟩
  · rw [hq.handed]
    exact hhanded
  · rw [hq.handed, hq.readError]
    exact herrors
  · intro _
    rw [hq.readError]
    exact hnone hrun
  · intro hrun' hhook
    obtain ⟨rest, payloads, hrest, hframes, hflat⟩ := hbytes hrun fun h => hhook (hq.hook h)
    refine ⟨rest, payloads, by rw [hq.handed]; exact hrest, hframes, ?_⟩
    rw [hq.held, hq.recv, hq.inFlight, ← hheld hrun' hhook]
    exact hflat
  · intro read hread
    obtain rfl := hq.fresh read hread
    exact Nat.zero_le _
  · rw [hq.recv, hq.inFlight]
    exact hfinished

/-- A message was handed over: the frames of the others are still to come. -/
theorem aligned_of_message {written rest : List Message} {payloads : List Bytes}
    {c c' : Caller} (hq : Quiet c c') (hnone : c.readError = none)
    (hwritten : written = c.handed ++ rest) (hframes : List.Forall₂ Frames rest payloads)
    (hbytes : c.recv.arrived ++ c.inFlight = (payloads.map frameOf).flatten)
    (hfinished : c.recv.ended = some .finished → c.inFlight = []) : Aligned written c' := by
  refine ⟨⟨?_, ?_⟩, ?_, ?_, ?_, ?_⟩
  · rw [hq.handed, hwritten]
    exact List.prefix_append _ _
  · intro err herr
    rw [hq.readError, hnone] at herr
    cases herr
  · intro _
    exact hq.readError.trans hnone
  · intro _ _
    refine ⟨rest, payloads, by rw [hq.handed]; exact hwritten, hframes, ?_⟩
    rw [hq.held, hq.recv, hq.inFlight, List.nil_append]
    exact hbytes
  · intro read hread
    obtain rfl := hq.fresh read hread
    exact Nat.zero_le _
  · rw [hq.recv, hq.inFlight]
    exact hfinished

/-- The loop stopped, and whatever read failed did so for another reason than its bytes. -/
theorem aligned_of_stop {written : List Message} {c c' : Caller} (h : Aligned written c)
    (hhanded : c'.handed = c.handed)
    (herrors : ∀ err, c'.readError = some err → StreamOver written c.handed err)
    (hstop : c'.await.running = false) (hended : c'.recv.ended = c.recv.ended)
    (hflight : c'.inFlight = c.inFlight) : Aligned written c' := by
  refine ⟨⟨?_, ?_⟩, ?_, ?_, ?_, ?_⟩
  · rw [hhanded]
    exact h.handed
  · rw [hhanded]
    exact herrors
  · exact fun htrue => absurd (hstop.symm.trans htrue) nofun
  · exact fun htrue => absurd (hstop.symm.trans htrue) nofun
  · intro read hread
    rw [hread] at hstop
    cases hstop
  · rw [hended, hflight]
    exact h.finished

/-- Does a poll of the `select` take the branch that sends `Cancel`? -/
def Caller.cancelFires (c : Caller) : Prop :=
  c.shutdown = false ∧ c.timer = false ∧ c.closed = none ∧ c.requestCancel = some .sent

/-- A request to cancel is taken only while the read holds no byte of a frame. -/
def AtBoundary (c : Caller) (e : Ev) : Prop :=
  ∀ expired read, e = .poll expired → c.await = .select read → c.cancelFires → read = .fresh

/-- A read that failed for another reason than its bytes ends the loop. -/
theorem onRead_error_aligned {written : List Message} {c : Caller} {err : FrameIoError}
    {recv : RecvStream} (h : Aligned written c) (hended : recv.ended = c.recv.ended)
    (hover : StreamOver written c.handed err) :
    Aligned written ({ c with recv := recv }.onRead (fail err)) := by
  have herrors : ∀ err', some err = some err' → StreamOver written c.handed err' := by
    intro err' herr
    obtain rfl := Option.some.inj herr
    exact hover
  show Aligned written (Caller.ret (Caller.closeOnFrameErr _ err) _)
  rw [Caller.closeOnFrameErr]
  cases err.closeCode with
  | none => exact aligned_of_stop h rfl herrors rfl hended rfl
  | some code => exact aligned_of_stop h rfl herrors rfl hended rfl

/-- **The read branch** hands over the next message, waits, or finds the stream over. -/
theorem pollRead_aligned {written : List Message} {c : Caller} {read : ReadFrame}
    (expired : Bool) (h : Aligned written c) (hawait : c.await = .select read)
    (hhook : c.requestCancel ≠ some .resolved) : Aligned written (c.pollRead read expired) := by
  have hrun : c.await.running = true := by rw [hawait]; rfl
  obtain ⟨rest, payloads, hrest, hframes, hbytes⟩ := h.bytes hrun hhook
  rw [hawait] at hbytes
  -- The bytes on hand start at a frame boundary, so a read sees whole frames.
  have hpolls := pollMessage_frames (h.whole read hawait) hframes hbytes
  rw [Caller.pollRead]
  generalize pollMessage read c.recv = polled at hpolls ⊢
  cases hpolls with
  | @message m ms payloads' arrived hms hframes' hbytes' =>
      have hwritten : written = (c.handed ++ [m]) ++ ms := by
        rw [hrest, hms, List.append_assoc, List.singleton_append]
      have hmsg : ∀ {c' : Caller}, Quiet { c with
          recv := { c.recv with arrived := arrived }, handed := c.handed ++ [m] } c' →
          Aligned written c' := fun hq =>
        aligned_of_message hq (h.noError hrun) hwritten hframes' hbytes' h.finished
      dsimp only [Caller.onRead]
      split
      · exact hmsg ((loopTop_quiet _).of_eq rfl rfl rfl rfl id)
      · exact hmsg ((ret_quiet _ _).of_eq rfl rfl rfl rfl id)
  | @waits read' _ hpart hheld =>
      dsimp only
      split
      · exact aligned_of_stop h rfl h.errors rfl rfl rfl
      · refine ⟨⟨h.handed, h.errors⟩, fun _ => h.noError hrun, fun _ _ =>
          ⟨rest, payloads, hrest, hframes, ?_⟩, ?_, h.finished⟩
        · show read'.held ++ [] ++ c.inFlight = _
          rw [List.append_nil, hheld]
          exact hbytes
        · intro read'' hread
          cases hread
          exact hpart
  | finished hended hlast =>
      refine onRead_error_aligned h rfl (Or.inr ⟨rfl, ?_⟩)
      rw [hrest, hlast (h.finished hended), List.append_nil]
  | lost hended => exact onRead_error_aligned h rfl (Or.inl rfl)

/-- **One poll.**  Every branch before the read returns, or leaves a read that holds
    nothing, or leaves a hook that lets no read happen. -/
theorem pollSelect_aligned {written : List Message} {c : Caller} {read : ReadFrame}
    (expired : Bool) (h : Aligned written c) (hawait : c.await = .select read)
    (hboundary : c.cancelFires → read = .fresh) : Aligned written (c.pollSelect read expired) := by
  have hrun : c.await.running = true := by rw [hawait]; rfl
  -- The branches that return: nothing is read any more, so nothing can be lost.
  have hstop : ∀ {c' : Caller}, Quiet c c' → c'.await.running = false → Aligned written c' := by
    intro c' hq hfalse
    exact aligned_of_quiet h hq hrun fun htrue => absurd (hfalse.symm.trans htrue) nofun
  rw [Caller.pollSelect]
  split
  · exact hstop (ret_quiet _ _) rfl
  split
  · exact hstop (onTimer_quiet c).1 (onTimer_quiet c).2
  next hshutdown htimer =>
  split
  · next err _ => exact hstop (onClosed_quiet c err).1 (onClosed_quiet c err).2
  next hclosed =>
  split
  · next hhook =>
      -- The `Cancel` is written with the read dropped: `AtBoundary` says it held nothing.
      have hfires : c.cancelFires :=
        ⟨Bool.eq_false_iff.mpr hshutdown, Bool.eq_false_iff.mpr htimer, hclosed, hhook⟩
      refine aligned_of_quiet h (onCancelReq_quiet hhook) hrun fun _ _ => ?_
      rw [hawait, hboundary hfires]
      rfl
  · refine aligned_of_quiet h ((loopTop_quiet _).of_eq rfl rfl rfl rfl fun _ => rfl) hrun
      fun _ hhook => absurd ?_ hhook
    exact (loopTop_quiet _).hook rfl
  · exact hstop ⟨rfl, rfl, rfl, rfl, fun _ h => (nomatch h), id⟩ rfl
  · next hhook => exact pollRead_aligned expired h hawait (by rw [hhook]; nofun)
  · next hhook => exact pollRead_aligned expired h hawait (by rw [hhook]; nofun)

/-- What the environment does keeps the alignment, as long as no byte gets lost. -/
theorem aligned_of_environment {written : List Message} {c c' : Caller}
    (h : Aligned written c) (hhanded : c'.handed = c.handed)
    (hread : c'.readError = c.readError) (hawait : c'.await = c.await)
    (hbytes : c'.recv.arrived ++ c'.inFlight = c.recv.arrived ++ c.inFlight)
    (hfinished : c'.recv.ended = some .finished → c'.inFlight = [])
    (hhook : c.requestCancel = some .resolved → c'.requestCancel = some .resolved) :
    Aligned written c' := by
  refine ⟨⟨?_, ?_⟩, ?_, ?_, ?_, hfinished⟩
  · rw [hhanded]
    exact h.handed
  · rw [hhanded, hread]
    exact h.errors
  · rw [hawait, hread]
    exact h.noError
  · rw [hawait, hhanded]
    intro hrun hne
    obtain ⟨rest, payloads, hrest, hframes, hflat⟩ := h.bytes hrun fun h => hne (hhook h)
    refine ⟨rest, payloads, hrest, hframes, ?_⟩
    rw [List.append_assoc, hbytes, ← List.append_assoc]
    exact hflat
  · rw [hawait]
    exact h.whole

/-- **The step lemma.**  A step at which the hook does not fall into a frame keeps the
    alignment. -/
theorem step_aligned {written : List Message} {c c' : Caller} {e : Ev} (h : Aligned written c)
    (hboundary : AtBoundary c e) (hs : step c e = some c') : Aligned written c' := by
  -- The environment moves bytes, a write moves none, a poll reads.
  cases e with
  | arrive n =>
      obtain ⟨⟨hopen, -⟩, hs⟩ := Option.ite_none_right_eq_some.mp hs
      obtain rfl := Option.some.inj hs
      refine aligned_of_environment h rfl rfl rfl ?_ (fun hended => ?_) id
      · rw [List.append_assoc, List.take_append_drop]
      · cases hopen.symm.trans hended
  | finish =>
      obtain ⟨⟨-, hflight⟩, hs⟩ := Option.ite_none_right_eq_some.mp hs
      obtain rfl := Option.some.inj hs
      exact aligned_of_environment h rfl rfl rfl rfl (fun _ => hflight) id
  | lose =>
      obtain ⟨-, hs⟩ := Option.ite_none_right_eq_some.mp hs
      obtain rfl := Option.some.inj hs
      exact aligned_of_environment h rfl rfl rfl rfl (fun hended => nomatch hended) id
  | close err =>
      obtain ⟨-, hs⟩ := Option.ite_none_right_eq_some.mp hs
      obtain rfl := Option.some.inj hs
      exact aligned_of_environment h rfl rfl rfl rfl h.finished id
  | hookSend | hookDrop =>
      obtain ⟨hwaiting, hs⟩ := Option.ite_none_right_eq_some.mp hs
      obtain rfl := Option.some.inj hs
      exact aligned_of_environment h rfl rfl rfl rfl h.finished
        fun hr => nomatch hwaiting.symm.trans hr
  | shutdown | timer =>
      obtain rfl := Option.some.inj hs
      exact aligned_of_environment h rfl rfl rfl rfl h.finished id
  | wrote w =>
      rcases step_wrote hs with ⟨hawait, rfl⟩ | ⟨hawait, rfl⟩
      · exact aligned_of_quiet h (submitWritten_quiet c w) (by rw [hawait]; rfl)
          fun _ _ => by rw [hawait]; rfl
      · exact aligned_of_quiet h (cancelWritten_quiet c w) (by rw [hawait]; rfl)
          fun _ _ => by rw [hawait]; rfl
  | poll expired =>
      obtain ⟨read, hawait, rfl⟩ := step_poll hs
      exact pollSelect_aligned expired h hawait (hboundary expired read rfl hawait)

/-- The callee's frames are on their way and nothing was read yet. -/
theorem callerLoop_aligned (htext : ReadsBack text) {written : List Message} {wire : Bytes}
    (hwire : encodeAll written [] = .ok wire) {submit : Message} {requestCancel : Option Hook}
    {record : CallRecordGuard} {c : Caller}
    (hc : callerLoop submit requestCancel record wire = .ok c) : Aligned written c := by
  obtain ⟨payloads, hframes, hall⟩ := encodeAll_frames htext (encodeAll_each hwire)
  obtain rfl : wire = (payloads.map frameOf).flatten := Except.ok.inj (hwire.symm.trans (hall []))
  cases submit with
  | submit task deadline contentType credential body =>
      obtain rfl := Except.ok.inj hc
      exact ⟨⟨List.nil_prefix, fun _ h => (nomatch h)⟩, fun _ => rfl, fun _ _ =>
        ⟨written, payloads, rfl, hframes, rfl⟩, fun _ h => (nomatch h), fun h => (nomatch h)⟩
  | _ => cases hc

/-- **FRAMING SURVIVES A CANCEL BETWEEN FRAMES.**  For every list of messages the callee
    writes and every run, whatever the chunks and whenever the hook fires: if it never
    fires while the read holds a part of a frame, the messages handed over are a prefix
    of the list and no read fails on its bytes. -/
theorem framing_survives_boundary_cancels (htext : ReadsBack text) (written : List Message)
    (wire : Bytes) (hwire : encodeAll written [] = .ok wire) (submit : Message)
    (requestCancel : Option Hook) (record : CallRecordGuard) (c₀ : Caller)
    (hc₀ : callerLoop submit requestCancel record wire = .ok c₀) (es : List Ev) (c : Caller)
    (hboundary : EveryStep step AtBoundary c₀ es) (hrun : runFrom step c₀ es = some c) :
    FramingKept written c :=
  (run_invariant_of (fun _ _ _ h hb hs => step_aligned h hb hs) es c₀ c
    (callerLoop_aligned htext hwire hc₀) hboundary hrun).toFramingKept

end

section

local instance : Base64Engine := urlSafeNoPad

local instance : JsonText := compactJson

def remote : NodeId := sampleNode 3

/-- `Accepted` arrives in two pieces and the cancel request falls between them. -/
def cutAccepted : List Ev :=
  [.wrote .done, .arrive 3, .poll false, .hookSend, .poll false, .wrote .done, .arrive 22,
    .poll false]

/-- The second read takes the last length byte and the header length for a length. -/
theorem cancel_in_frame_breaks_framing :
    ¬ ∀ (written : List Message) (wire : Bytes), encodeAll written [] = .ok wire →
      ∀ (submit : Message) (requestCancel : Option Hook) (record : CallRecordGuard)
        (c₀ : Caller), callerLoop submit requestCancel record wire = .ok c₀ →
      ∀ (es : List Ev) (c : Caller), runFrom step c₀ es = some c → FramingKept written c := by
  intro h
  have hkept := h [.accepted] _ rfl (.submit taskOne oneSecond plain none []) (some .waiting)
    (.new .outbound remote .notReached) _ rfl cutAccepted _ rfl
  rcases hkept.errors (.codec .frameTooLarge) rfl with hlost | ⟨hend, -⟩
  · cases hlost
  · cases hend

/-- The same two pieces, with the request after the whole frame was read. -/
def wholeAccepted : List Ev :=
  [.wrote .done, .arrive 3, .poll false, .arrive 22, .poll false, .hookSend, .poll false]

theorem framing_survives_boundary_cancels_accepted :
    ∃ wire c₀ c, encodeAll [.accepted] [] = .ok wire ∧
      callerLoop (.submit taskOne oneSecond plain none []) (some .waiting)
        (.new .outbound remote .notReached) wire = .ok c₀ ∧
      runFrom step c₀ wholeAccepted = some c ∧ c.handed = [.accepted] ∧
      FramingKept [.accepted] c := by
  refine ⟨_, _, _, rfl, rfl, rfl, rfl, ?_⟩
  refine framing_survives_boundary_cancels compactJson_readsBack [.accepted] _ rfl
    (.submit taskOne oneSecond plain none []) (some .waiting) (.new .outbound remote .notReached)
    _ rfl wholeAccepted _ ?_ rfl
  have hother : ∀ c e, (∀ expired, e ≠ .poll expired) → AtBoundary c e :=
    fun _ _ hne expired _ h => absurd h (hne expired)
  refine .cons (hother _ _ nofun) rfl <| .cons (hother _ _ nofun) rfl <|
    .cons (fun _ _ _ _ h => nomatch h.2.2.2) rfl <| .cons (hother _ _ nofun) rfl <|
    .cons (fun _ _ _ _ h => nomatch h.2.2.2) rfl <| .cons (hother _ _ nofun) rfl <|
    .cons (fun _ _ _ h _ => ?_) rfl trivial
  cases h
  rfl

end

end UatCallerLoop
