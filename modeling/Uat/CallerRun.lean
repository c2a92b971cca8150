import Uat.CalleeRun

/-! # `run_caller_with` — one outbound call, from the connection to its audit record

    The caller's task around `caller_loop`: the wait for `open_bi`, the loop, the join of
    the second-stream watcher, and the guard that emits when the task returns, unwinds or
    is dropped at an await.

    Every exit leaves one record (`step_accounted`).  What the record says is decided in
    several places: the branches before the loop set the outcome and return past
    `observe_result`, the loop sets it and is observed again. -/

namespace UatCallerRun

open UatTypes UatState UatHeader UatStream UatRecvStream UatRecord UatCallerLoop
open Checked StepRun
open UatCalleeRun (SetupEnd)

/-- A record at the moment it reaches the sink, and whether the loss of the connection had
    reached this side before the call was over. -/
structure Audited where
  record : CallRecord
  lost : Bool

/-- `run_caller_with` while `open_bi` is awaited, and its environment. -/
structure Opening where
  record : CallRecordGuard
  requestCancel : Option Hook
  shutdown : Bool
  closed : Option ConnectionError

section

variable [Base64Engine]

/-- Where the task is. -/
inductive Stage where
  | openBi (o : Opening)
  | looping (c : Caller)
  /-- `stream_guard.await`, after `caller_loop` returned. -/
  | joinGuard (record : CallRecordGuard) (lost : Bool) (result : Except CallError Outcome)
  | unwinding (record : CallRecordGuard) (lost : Bool)
  | returned (result : Except CallError Outcome)
  | dropped

/-- The task is over: it returned, or was dropped. -/
def Stage.over : Stage → Bool
  | .returned _ | .dropped => true
  | _ => false

/-- The connection is gone: closed, or a read on it will fail for that. -/
def isLost (c : Caller) : Bool := c.closed.isSome || decide (c.recv.ended = some .lost)

/-- The guard, as long as it is alive, and whether the connection is gone. -/
def Stage.guard : Stage → Option (CallRecordGuard × Bool)
  | .openBi o => some (o.record, o.closed.isSome)
  | .looping c => some (c.record, isLost c)
  | .joinGuard record lost _ | .unwinding record lost => some (record, lost)
  | .returned _ | .dropped => none

/-- The task of one caller and what its sink has received. -/
structure CallerRun where
  stage : Stage
  audit : List Audited

/-- The guard is dropped, and emits its record as it stands. -/
def finish (audit : List Audited) (record : CallRecordGuard) (lost : Bool) (stage : Stage) :
    CallerRun :=
  ⟨stage, audit ++ (record.emitNow []).2.map fun r => ⟨r, lost⟩⟩

/-- After a step of `caller_loop`: it goes on, returned, or panicked. -/
def CallerRun.settle (s : CallerRun) (c : Caller) : CallerRun :=
  match c.await with
  | .returned result => { s with stage := .joinGuard c.record (isLost c) result }
  | .panicked => { s with stage := .unwinding c.record (isLost c) }
  | _ => { s with stage := .looping c }

/-- What can happen to the task. -/
inductive Ev where
  | setup (r : SetupEnd)
  | call (e : UatCallerLoop.Ev)
  | guardJoined
  /-- The future is dropped at the await it is in. -/
  | drop
  /-- The panic has unwound `run_caller_with`. -/
  | unwound

/-- `run_caller_with` up to its first await; `closed` is `conn.close_reason()` by then. -/
def runCallerWith (peer : NodeId) (submit : Message) (requestCancel : Option Hook)
    (closed : Option ConnectionError) : CallerRun :=
  let record := CallRecordGuard.new .outbound peer .notReached
  match submit with
  | .submit .. => ⟨.openBi ⟨record, requestCancel, false, closed⟩, []⟩
  | _ =>
      finish [] (record.setOutcome (.closed .protocolViolation)) closed.isSome
        (.returned (.error .illegal))

/-- What the environment can do while `open_bi` is awaited. -/
def Opening.step (o : Opening) : UatCallerLoop.Ev → Option Opening
  | .close err => if o.closed = none then some { o with closed := some err } else none
  | .shutdown => some { o with shutdown := true }
  | .hookSend =>
      if o.requestCancel = some .waiting then some { o with requestCancel := some .sent } else none
  | .hookDrop =>
      if o.requestCancel = some .waiting then some { o with requestCancel := some .dropped }
      else none
  | _ => none

/-- `open_bi` failed, or took too long: a close code is preferred to the error. -/
def Opening.failed (o : Opening) (s : CallerRun) (err : CallError) (reason : String) : CallerRun :=
  match o.closed with
  | some closed =>
      finish s.audit (o.record.setOutcome (.closed (closeCodeFromConnErr closed))) true
        (.returned (.error err))
  | none =>
      finish s.audit (o.record.setOutcome (outcomeFromCallError (.streamSetup reason))) false
        (.returned (.error (.streamSetup reason)))

/-! ## The record in the loop -/

section

variable (c : Caller)

/-- The loop leaves the record to the code around it; a frame error closes the connection. -/
@[simp] theorem closeOnFrameErr_record (err : FrameIoError) :
    (c.closeOnFrameErr err).record = c.record := by
  rw [Caller.closeOnFrameErr]
  cases err.closeCode <;> rfl

@[simp] theorem loopTop_record : c.loopTop.record = c.record := by
  rw [Caller.loopTop]
  cases c.state <;> rfl

@[simp] theorem writeFailed_record (err : CallError) : (c.writeFailed err).record = c.record := by
  cases err with
  | frame fe => exact closeOnFrameErr_record c fe
  | _ => rfl

@[simp] theorem cancelWritten_record (w : WriteEnd) : (c.cancelWritten w).record = c.record := by
  rw [Caller.cancelWritten]
  cases w.result with
  | error err => exact writeFailed_record c err
  | ok _ => exact loopTop_record c

@[simp] theorem onTimer_record : c.onTimer.record = c.record := by
  rw [Caller.onTimer]
  cases callerStep c.state .timeout with
  | error _ => rfl
  | ok step =>
      dsimp only
      cases step.state <;> rfl

@[simp] theorem connLost_record (code : CloseCode) : (c.connLost code).record = c.record := by
  rw [Caller.connLost]
  cases callerStep c.state (.connLost code) with
  | error _ => rfl
  | ok step =>
      dsimp only
      cases step.state <;> rfl

@[simp] theorem onCancelReq_record : c.onCancelReq.record = c.record := by
  rw [Caller.onCancelReq]
  dsimp only
  cases callerStep c.state (.send .cancel) <;> rfl

@[simp] theorem onRead_record (r : Exec FrameIoError Message) : (c.onRead r).record = c.record := by
  match r with
  | .ok msg =>
      rw [Caller.onRead]
      dsimp only
      cases callerStep c.state (.recv msg) with
      | error _ => rfl
      | ok step => exact loopTop_record _
  | .error (.err err) => exact closeOnFrameErr_record _ err
  | .error .panic => rfl

/-- The `Submit` write may set an outcome, but not whose connection is recorded. -/
theorem submitWritten_identity (w : WriteEnd) :
    (c.submitWritten w).record.identity = c.record.identity := by
  rw [Caller.submitWritten]
  cases w.result with
  | error err =>
      dsimp only
      split
      · rfl
      · rw [writeFailed_record]
  | ok _ =>
      dsimp only
      split
      · rfl
      · rw [loopTop_record, setTask_identity]

/-- A close may set an outcome, but not whose connection is recorded. -/
theorem onClosed_identity (err : ConnectionError) :
    (c.onClosed err).record.identity = c.record.identity := by
  rw [Caller.onClosed]
  split
  · rw [connLost_record, clearTask_identity]
  · rw [connLost_record]

end

section

variable [text : JsonText] (c : Caller)

/-- A poll of the read leaves the record alone, whatever it comes upon. -/
@[simp] theorem pollRead_record (read : ReadFrame) (expired : Bool) :
    (c.pollRead read expired).record = c.record := by
  rw [Caller.pollRead]
  split
  · exact onRead_record _ _
  · split <;> rfl

/-- A pass through the select keeps whose connection is recorded. -/
theorem pollSelect_identity (read : ReadFrame) (expired : Bool) :
    (c.pollSelect read expired).record.identity = c.record.identity := by
  rw [Caller.pollSelect]
  split
  · rfl
  split
  · rw [onTimer_record]
  split
  · exact onClosed_identity c _
  split
  · rw [onCancelReq_record]
  · rw [loopTop_record]
  · rfl
  · rw [pollRead_record]
  · rw [pollRead_record]

end

end

section

variable [Base64Engine] [text : JsonText]

/-- **The step lemma of the loop.**  The guard stays whose it is, and has not emitted. -/
theorem loop_step_identity {c c' : Caller} {e : UatCallerLoop.Ev}
    (hs : UatCallerLoop.step c e = some c') : c'.record.identity = c.record.identity := by
  cases e with
  | arrive n | finish | lose | close err | hookSend | hookDrop =>
      obtain ⟨-, hs⟩ := Option.ite_none_right_eq_some.mp hs
      obtain rfl := Option.some.inj hs
      rfl
  | shutdown | timer =>
      obtain rfl := Option.some.inj hs
      rfl
  | wrote w =>
      rcases UatCallerLoop.step_wrote hs with ⟨-, rfl⟩ | ⟨-, rfl⟩
      · exact submitWritten_identity c w
      · rw [cancelWritten_record]
  | poll expired =>
      obtain ⟨read, -, rfl⟩ := UatCallerLoop.step_poll hs
      exact pollSelect_identity c read expired

end

section

variable [Base64Engine] [text : JsonText] (submit : Message) (wire : Bytes)

/-! ## The run -/


/-- The stream is open: `caller_loop` starts, in the environment as it is by then. -/
def Opening.opened (o : Opening) (s : CallerRun) : CallerRun :=
  match callerLoop submit o.requestCancel o.record wire with
  | .ok c => { s with stage := .looping { c with shutdown := o.shutdown, closed := o.closed } }
  | .error err => { s with stage := .joinGuard o.record o.closed.isSome (.error err) }

/-- One step of `run_caller_with`. -/
def step (s : CallerRun) : Ev → Option CallerRun
  | .setup r =>
      match s.stage with
      | .openBi o =>
          match r with
          | .opened => some (o.opened submit wire s)
          | .failed reason => some (o.failed s (.connection reason) reason)
          | .timedOut => some (o.failed s .networkTimeout "open_bi timed out")
      | _ => none
  | .call e =>
      match s.stage with
      | .openBi o => (o.step e).map fun o => { s with stage := .openBi o }
      | .looping c => (UatCallerLoop.step c e).map s.settle
      | _ => none
  | .guardJoined =>
      match s.stage with
      | .joinGuard record lost result =>
          some (finish s.audit (record.observeResult result) lost (.returned result))
      | _ => none
  | .drop =>
      match s.stage with
      | .openBi o => some (finish s.audit o.record o.closed.isSome .dropped)
      | .looping c => some (finish s.audit c.record (isLost c) .dropped)
      | .joinGuard record lost _ => some (finish s.audit record lost .dropped)
      | _ => none
  | .unwound =>
      match s.stage with
      | .unwinding record lost => some (finish s.audit record lost .dropped)
      | _ => none

variable {submit wire} {s s' : CallerRun}

/-- The wait for `open_bi` ends with a stream, or with the connection or its time. -/
theorem step_setup {r : SetupEnd} (hs : step submit wire s (.setup r) = some s') :
    ∃ o, s.stage = .openBi o ∧
      ((r = .opened ∧ s' = o.opened submit wire s) ∨
        (r ≠ .opened ∧ ∃ err reason, s' = o.failed s err reason)) := by
  cases hstage : s.stage with
  | openBi o =>
      simp only [step, hstage] at hs
      refine ⟨o, rfl, ?_⟩
      cases r with
      | opened => exact Or.inl ⟨rfl, (Option.some.inj hs).symm⟩
      | failed reason | timedOut => exact Or.inr ⟨nofun, _, _, (Option.some.inj hs).symm⟩
  | _ => simp only [step, hstage] at hs; cases hs

/-- What happens to the call happens to its environment, or to the loop. -/
theorem step_call {e : UatCallerLoop.Ev} (hs : step submit wire s (.call e) = some s') :
    (∃ o o', s.stage = .openBi o ∧ o.step e = some o' ∧ s' = { s with stage := .openBi o' }) ∨
      (∃ c c', s.stage = .looping c ∧ UatCallerLoop.step c e = some c' ∧ s' = s.settle c') := by
  cases hstage : s.stage with
  | openBi o =>
      simp only [step, hstage] at hs
      obtain ⟨o', ho, rfl⟩ := Option.map_eq_some_iff.mp hs
      exact Or.inl ⟨o, o', rfl, ho, rfl⟩
  | looping c =>
      simp only [step, hstage] at hs
      obtain ⟨c', hc, rfl⟩ := Option.map_eq_some_iff.mp hs
      exact Or.inr ⟨c, c', rfl, hc, rfl⟩
  | _ => simp only [step, hstage] at hs; cases hs

/-- The guard task is joined once, and the result of the call goes into the record. -/
theorem step_joined (hs : step submit wire s .guardJoined = some s') :
    ∃ record lost result, s.stage = .joinGuard record lost result ∧
      s' = finish s.audit (record.observeResult result) lost (.returned result) := by
  cases hstage : s.stage with
  | joinGuard record lost result =>
      simp only [step, hstage] at hs
      exact ⟨record, lost, result, rfl, (Option.some.inj hs).symm⟩
  | _ => simp only [step, hstage] at hs; cases hs

/-- A future that is dropped drops the guard it holds. -/
theorem step_dropped (hs : step submit wire s .drop = some s') :
    ∃ record lost, s.stage.guard = some (record, lost) ∧
      s' = finish s.audit record lost .dropped := by
  cases hstage : s.stage <;> simp only [step, hstage] at hs <;>
    first | exact ⟨_, _, rfl, (Option.some.inj hs).symm⟩ | cases hs

/-- Unwinding emits the record as it stands. -/
theorem step_unwound (hs : step submit wire s .unwound = some s') :
    ∃ record lost, s.stage = .unwinding record lost ∧
      s' = finish s.audit record lost .dropped := by
  cases hstage : s.stage with
  | unwinding record lost =>
      simp only [step, hstage] at hs
      exact ⟨record, lost, rfl, (Option.some.inj hs).symm⟩
  | _ => simp only [step, hstage] at hs; cases hs

end

/-! ## One record -/

/-- Nothing that happens while the stream opens changes the record. -/
theorem opening_step_record {o o' : Opening} {e : UatCallerLoop.Ev} (hs : o.step e = some o') :
    o'.record = o.record := by
  cases e with
  | shutdown =>
      obtain rfl := Option.some.inj hs
      rfl
  | close err | hookSend | hookDrop =>
      obtain ⟨-, hs⟩ := Option.ite_none_right_eq_some.mp hs
      obtain rfl := Option.some.inj hs
      rfl
  | _ => cases hs

section

variable [Base64Engine] {peer : NodeId}

/-- While the guard is alive nothing reached the sink; afterwards one record did. -/
structure Accounted (peer : NodeId) (s : CallerRun) : Prop where
  alive : ∀ record lost, s.stage.guard = some (record, lost) →
    s.audit = [] ∧ record.identity = (false, .outbound, peer)
  gone : s.stage.guard = none → OneRecord .outbound peer true (s.audit.map Audited.record)

/-- The guard is gone exactly when the call is over. -/
theorem guard_eq_none_iff {stage : Stage} : stage.guard = none ↔ stage.over = true := by
  cases stage <;> simp [Stage.guard, Stage.over]

/-- While the guard lives, nothing has been emitted and it knows its connection. -/
theorem accounted_of_guard {s : CallerRun} {record : CallRecordGuard} {lost : Bool}
    (hguard : s.stage.guard = some (record, lost)) (haudit : s.audit = [])
    (hidentity : record.identity = (false, .outbound, peer)) : Accounted peer s := by
  refine ⟨fun _ _ h => ⟨haudit, ?_⟩, fun h => (by cases hguard.symm.trans h)⟩
  obtain ⟨rfl, -⟩ := Prod.mk.inj (Option.some.inj (hguard.symm.trans h))
  exact hidentity

/-- The guard that is dropped emits the one record. -/
theorem finish_accounted {record : CallRecordGuard} {lost : Bool} {stage : Stage}
    (hidentity : record.identity = (false, .outbound, peer)) (hover : stage.over = true) :
    Accounted peer (finish [] record lost stage) := by
  have hguard : stage.guard = none := guard_eq_none_iff.mpr hover
  refine ⟨fun _ _ h => (by cases hguard.symm.trans h), fun _ => ?_⟩
  have hsink : (finish [] record lost stage).audit.map Audited.record = (record.emitNow []).2 := by
    rw [finish]
    simp [Function.comp_def]
  rw [hsink]
  exact emitNow_oneRecord hidentity

/-- A call starts with its guard alive and nothing emitted. -/
theorem start_accounted (peer : NodeId) (submit : Message) (requestCancel : Option Hook)
    (closed : Option ConnectionError) :
    Accounted peer (runCallerWith peer submit requestCancel closed) := by
  cases submit with
  | submit task deadline contentType credential body => exact accounted_of_guard rfl rfl rfl
  | _ => exact finish_accounted rfl rfl

/-- Whatever the loop comes to, the guard goes along with it. -/
theorem settle_guard (s : CallerRun) (c : Caller) :
    ∃ lost, (s.settle c).stage.guard = some (c.record, lost) ∧ (s.settle c).audit = s.audit := by
  rw [CallerRun.settle]
  cases c.await <;> exact ⟨_, rfl, rfl⟩

/-- A stream that did not open ends with the one record. -/
theorem failed_accounted {o : Opening} {s : CallerRun} (haudit : s.audit = [])
    (hidentity : o.record.identity = (false, .outbound, peer)) (err : CallError)
    (reason : String) : Accounted peer (o.failed s err reason) := by
  rw [Opening.failed]
  rw [haudit]
  cases o.closed <;> exact finish_accounted hidentity rfl

/-- Opening the stream hands the guard on to the loop. -/
theorem opened_guard {submit : Message} {wire : Bytes} (o : Opening) (s : CallerRun) :
    ∃ lost, (o.opened submit wire s).stage.guard = some (o.record, lost) ∧
      (o.opened submit wire s).audit = s.audit := by
  rw [Opening.opened]
  cases submit with
  | submit task deadline contentType credential body => exact ⟨_, rfl, rfl⟩
  | _ => exact ⟨_, rfl, rfl⟩

variable [text : JsonText] {submit : Message} {wire : Bytes}

/-- **The step lemma.**  A step keeps the guard alive and the sink empty, or drops the guard
    and fills the sink. -/
theorem step_accounted {s s' : CallerRun} {e : Ev} (h : Accounted peer s)
    (hs : step submit wire s e = some s') : Accounted peer s' := by
  -- One case per event; only the three ends of the task emit.
  cases e with
  | setup r =>
      obtain ⟨o, hstage, hend⟩ := step_setup hs
      obtain ⟨haudit, hidentity⟩ := h.alive o.record o.closed.isSome (by rw [hstage]; rfl)
      rcases hend with ⟨-, rfl⟩ | ⟨-, err, reason, rfl⟩
      · obtain ⟨lost, hguard, haudit'⟩ := opened_guard o s
        exact accounted_of_guard hguard (haudit'.trans haudit) hidentity
      · exact failed_accounted haudit hidentity _ _
  | call e =>
      rcases step_call hs with ⟨o, o', hstage, ho, rfl⟩ | ⟨c, c', hstage, hc, rfl⟩
      · obtain ⟨haudit, hidentity⟩ := h.alive o.record o.closed.isSome (by rw [hstage]; rfl)
        have hidentity' : o'.record.identity = (false, .outbound, peer) := by
          rw [opening_step_record ho]
          exact hidentity
        exact accounted_of_guard rfl haudit hidentity'
      · obtain ⟨haudit, hidentity⟩ := h.alive c.record (isLost c) (by rw [hstage]; rfl)
        obtain ⟨lost, hguard, haudit'⟩ := settle_guard s c'
        exact accounted_of_guard hguard (haudit'.trans haudit)
          ((loop_step_identity hc).trans hidentity)
  | guardJoined =>
      obtain ⟨record, lost, result, hstage, rfl⟩ := step_joined hs
      obtain ⟨haudit, hidentity⟩ := h.alive record lost (by rw [hstage]; rfl)
      rw [haudit]
      exact finish_accounted ((observeResult_identity _ _).trans hidentity) rfl
  | drop =>
      obtain ⟨record, lost, hguard, rfl⟩ := step_dropped hs
      obtain ⟨haudit, hidentity⟩ := h.alive record lost hguard
      rw [haudit]
      exact finish_accounted hidentity rfl
  | unwound =>
      obtain ⟨record, lost, hstage, rfl⟩ := step_unwound hs
      obtain ⟨haudit, hidentity⟩ := h.alive record lost (by rw [hstage]; rfl)
      rw [haudit]
      exact finish_accounted hidentity rfl

/-- Every run of the caller's task leaves one record, or none while it goes on. -/
theorem caller_one_record {peer : NodeId} {requestCancel : Option Hook}
    {closed : Option ConnectionError} {es : List Ev} {s : CallerRun}
    (hrun : runFrom (step submit wire) (runCallerWith peer submit requestCancel closed) es =
      some s) :
    OneRecord .outbound peer s.stage.over (s.audit.map Audited.record) := by
  have hacc : Accounted peer s :=
    run_invariant _ (fun _ _ _ h hs => step_accounted h hs) es _ s
      (start_accounted peer submit requestCancel closed) hrun
  -- No guard: the task is over and the record is out.  A guard: neither.
  cases hguard : s.stage.guard with
  | none =>
      rw [guard_eq_none_iff.mp hguard]
      exact hacc.gone hguard
  | some guard =>
      obtain ⟨haudit, -⟩ := hacc.alive guard.1 guard.2 hguard
      have hover : s.stage.over = false := by
        refine Bool.eq_false_iff.mpr fun hover => ?_
        cases hguard.symm.trans (guard_eq_none_iff.mpr hover)
      rw [hover, haudit]
      exact ⟨(by intro h; cases h), fun _ => rfl⟩

end

end UatCallerRun
