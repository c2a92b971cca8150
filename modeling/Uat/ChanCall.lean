import Uat.CalleeRun

/-! # `drive_chan_call` — both sides over channels, poll by poll

    The in-memory driver: `drive_caller_chan` and `drive_callee_chan` are two tasks that
    talk over unbounded channels and keep their own timers.  Each is the state machine of
    its `select` loop; a poll takes the first ready branch, in the order of the source.
    `closed` is never notified by the driver, but both loops listen to it. -/

namespace UatChanCall

open UatTypes UatState UatRecord StepRun
open UatCallerLoop (Hook)
open UatCalleeRun (CalleeBehavior)

/-- Clock readings and durations, in nanoseconds. -/
abbrev Nanos := Nat

/-- Milliseconds, in nanoseconds. -/
def millis (ms : Nat) : Nanos := ms * 10 ^ 6

/-- `GRACE_MS`. -/
def graceMs : Nat := 5000

/-- Callee budget: `deadline` milliseconds from receipt of the `Submit`. -/
def calleeBudget (deadline : Deadline) : Nanos := millis deadline.ms

/-- Caller budget: `deadline + GRACE` from the send of the `Submit`; the sum saturates. -/
def callerBudget (deadline : Deadline) : Nanos :=
  millis (min (deadline.ms + graceMs) (2 ^ 64 - 1))

/-- No deadline is near saturation: the caller waits exactly the grace longer. -/
theorem callerBudget_eq (deadline : Deadline) :
    callerBudget deadline = calleeBudget deadline + millis graceMs := by
  have hmax := deadline.le_max
  have hfits : deadline.ms + graceMs ≤ 2 ^ 64 - 1 := by
    rw [maxDeadlineMs] at hmax
    rw [graceMs]
    omega
  rw [callerBudget, calleeBudget, min_eq_left hfits, millis, millis, millis, Nat.add_mul]

/-- Side-channel event of the driver. -/
inductive TimerEvent where
  | calleeDeadlineFired
  | callerGraceFired
  deriving DecidableEq, Repr

/-- A spawned task. -/
inductive Task where
  | running
  | returned (result : Except CallError Outcome)
  | panicked

section

variable [Base64Engine]

/-- The receiving end of a channel: what has arrived and was not received yet, and whether
    the sender is gone with nothing left on its way. -/
structure Rx where
  arrived : List Message
  ended : Bool

/-! ## `drive_caller_chan` -/

/-- The task of one caller, its channel, and a log of what it sent. -/
structure ChanCaller where
  state : CallerState
  requestCancel : Option Hook
  /-- When `call_timer` fires. -/
  callTimer : Nanos
  task : Task
  rx : Rx
  closed : Bool
  sent : List Message
  events : List TimerEvent

def ChanCaller.ret (c : ChanCaller) (result : Except CallError Outcome) : ChanCaller :=
  { c with task := .returned result }

/-- The top of the loop. -/
def ChanCaller.loopTop (c : ChanCaller) : ChanCaller :=
  match c.state with
  | .terminal outcome => c.ret (.ok outcome)
  | _ => c

/-- `drive_caller_chan` up to its first `select`. -/
def driveCallerChan (submit : Message) (requestCancel : Option Hook) (now : Nanos)
    (calleeGone : Bool) : Except CallError ChanCaller :=
  match submit with
  | .submit _ deadline _ _ _ =>
      match callerStep .dialing (.send submit) with
      | .ok step =>
          if calleeGone then .error (.connection "callee gone")
          else .ok ⟨step.state, requestCancel, now + callerBudget deadline, .running, ⟨[], false⟩,
            false, [submit], []⟩
      | .error _ => .error .illegal
  | _ => .error .illegal

/-- The timer fires: the grace is over. -/
def ChanCaller.onTimer (c : ChanCaller) : ChanCaller :=
  let c := { c with events := c.events ++ [TimerEvent.callerGraceFired] }
  match callerStep c.state .timeout with
  | .ok step =>
      let c := { c with state := step.state }
      match step.state with
      | .terminal outcome => c.ret (.ok outcome)
      | _ => c.ret (.ok (.closed .timeout))
  | .error _ => c.ret (.error .illegal)

/-- The hook was used.  Whether the `Cancel` can still be sent does not matter. -/
def ChanCaller.onCancelReq (c : ChanCaller) : ChanCaller :=
  let c := { c with requestCancel := none }
  match callerStep c.state (.send .cancel) with
  | .ok step => { c with state := step.state, sent := c.sent ++ [Message.cancel] }.loopTop
  | .error _ => c.ret (.error .illegal)

/-- A message was received. -/
def ChanCaller.onRecv (c : ChanCaller) (msg : Message) : ChanCaller :=
  match callerStep c.state (.recv msg) with
  | .ok step => { c with state := step.state }.loopTop
  | .error _ => c.ret (.error .illegal)

/-- The channel ended, or `closed` was notified. -/
def ChanCaller.onEnd (c : ChanCaller) : ChanCaller :=
  match callerStep c.state (.connLost .normal) with
  | .ok step =>
      match step.state with
      | .terminal outcome => c.ret (.ok outcome)
      | _ => c.ret (.ok .peerLost)
  | .error _ => c.ret (.error .illegal)

/-- The `recv` and `closed` branches. -/
def ChanCaller.pollRecv (c : ChanCaller) : ChanCaller :=
  match c.rx.arrived with
  | msg :: rest => { c with rx := { c.rx with arrived := rest } }.onRecv msg
  | [] => if c.rx.ended || c.closed then c.onEnd else c

/-- One poll of the biased `select`, at `now`. -/
def ChanCaller.poll (c : ChanCaller) (now : Nanos) : ChanCaller :=
  if c.callTimer ≤ now then c.onTimer
  else
    match c.requestCancel with
    | some .sent => c.onCancelReq
    -- The sender is gone: nothing is sent and the receiver stays in place.
    | some .dropped => { c with requestCancel := some .resolved }.loopTop
    | some .resolved => { c with task := .panicked }
    | some .waiting | none => c.pollRecv

/-! ## `drive_callee_chan` -/

/-- Where `drive_callee_chan` is suspended. -/
inductive CalleeAwait where
  | submit
  | select
  | returned (result : Except CallError Outcome)

/-- The task of one callee, its channel, and a log of what it sent. -/
structure ChanCallee where
  state : CalleeState
  behavior : CalleeBehavior
  callTimer : Nanos
  await : CalleeAwait
  rx : Rx
  closed : Bool
  sent : List Message
  events : List TimerEvent

/-- `drive_callee_chan` up to its first await; the state and the timer come with the
    `Submit`. -/
def driveCalleeChan (behavior : CalleeBehavior) : ChanCallee :=
  ⟨.offered, behavior, 0, .submit, ⟨[], false⟩, false, [], []⟩

def ChanCallee.ret (c : ChanCallee) (result : Except CallError Outcome) : ChanCallee :=
  { c with await := .returned result }

def ChanCallee.loopTop (c : ChanCallee) : ChanCallee :=
  match c.state with
  | .terminal outcome => c.ret (.ok outcome)
  | _ => { c with await := .select }

/-- `send_step` for each message in turn, then the top of the loop. -/
def ChanCallee.sendSteps (c : ChanCallee) (callerGone : Bool) : List Message → ChanCallee
  | [] => c.loopTop
  | msg :: rest =>
      match calleeStep c.state (.send msg) with
      | .ok step =>
          let c := { c with state := step.state }
          if callerGone then c.ret (.error (.connection "caller gone"))
          else { c with sent := c.sent ++ [msg] }.sendSteps callerGone rest
      | .error _ => c.ret (.error .illegal)

/-- The first message arrived. -/
def ChanCallee.onSubmit (c : ChanCallee) (now : Nanos) (callerGone : Bool) (msg : Message) :
    ChanCallee :=
  match msg with
  | .submit _ deadline _ _ _ =>
      { c with callTimer := now + calleeBudget deadline, state := .offered }.sendSteps callerGone
        c.behavior.emits
  | _ => c.ret (.error .illegal)

/-- Send what a step emits; nobody may be there to receive it. -/
def ChanCallee.emit (c : ChanCallee) (step : Step CalleeState) : ChanCallee :=
  { c with state := step.state, sent := c.sent ++ step.emit.toList }

/-- The timer fires: the deadline is over, and the caller is told. -/
def ChanCallee.onTimer (c : ChanCallee) : ChanCallee :=
  let c := { c with events := c.events ++ [TimerEvent.calleeDeadlineFired] }
  match calleeStep c.state .timeout with
  | .ok step =>
      match step.state with
      | .terminal outcome => (c.emit step).ret (.ok outcome)
      | _ => (c.emit step).ret (.error .illegal)
  | .error _ => c.ret (.error .illegal)

/-- A message was received; what the table replies is sent. -/
def ChanCallee.onRecv (c : ChanCallee) (msg : Message) : ChanCallee :=
  match calleeStep c.state (.recv msg) with
  | .ok step => (c.emit step).loopTop
  | .error _ => c.ret (.error .illegal)

/-- The channel ended, or `closed` was notified. -/
def ChanCallee.onEnd (c : ChanCallee) : ChanCallee :=
  match calleeStep c.state (.connLost .normal) with
  | .ok step =>
      match step.state with
      | .terminal outcome => c.ret (.ok outcome)
      | _ => c.ret (.ok .peerLost)
  | .error _ => c.ret (.error .illegal)

/-- `SilentHang` never looks at its channel. -/
def ChanCallee.silent (c : ChanCallee) : Bool := c.behavior == .silentHang

/-- One poll at `now`: of the first `recv`, or of the biased `select`. -/
def ChanCallee.poll (c : ChanCallee) (now : Nanos) (callerGone : Bool) : ChanCallee :=
  match c.await with
  | .submit =>
      match c.rx.arrived with
      | msg :: rest => { c with rx := { c.rx with arrived := rest } }.onSubmit now callerGone msg
      | [] => if c.rx.ended then c.ret (.error (.connection "caller gone")) else c
  | .select =>
      if c.callTimer ≤ now then c.onTimer
      else if c.silent then if c.closed then c.onEnd else c
      else
        match c.rx.arrived with
        | msg :: rest => { c with rx := { c.rx with arrived := rest } }.onRecv msg
        | [] => if c.rx.ended || c.closed then c.onEnd else c
  | .returned _ => c

end

end UatChanCall
