import Uat.ChanCall

/-! # `drive_chan_call` on a clock — two tasks, two channels that take time

    Both drivers of `drive_chan_call` on one clock, over channels that take time: every
    message arrives at a moment of the network's choosing, in the order of sending.  The
    two tasks are polled in any order, each as soon as one of its branches is ready, and
    the clock moves only when nothing is left to do.

    * **`TimedCall`**, **`step`** — the call and what can happen next.
    * **`Prompt`** — the one condition on the network: what the `Submit` and the callee's
      last message took together is less than the grace. -/

namespace UatChanClock

open UatTypes UatState UatRecord UatChanCall
open UatCallerLoop (Hook)
open UatCalleeRun (CalleeBehavior)

/-! ## Two tasks, two channels, one clock -/

section

variable [Base64Engine]

/-- Messages on their way, the oldest first, each with the time it arrives at. -/
abbrev InFlight := List (Nanos × Message)

/-- The clock, the two tasks, and the messages on their way between them. -/
structure TimedCall where
  now : Nanos
  caller : ChanCaller
  callee : ChanCallee
  toCallee : InFlight
  toCaller : InFlight

/-- The arguments of `drive_chan_call`, the time of the call and what its `Submit` takes. -/
structure Setup where
  task : TaskId
  deadline : Deadline
  contentType : ContentType
  credential : Option Credential
  body : Bytes
  behavior : CalleeBehavior
  requestCancel : Option Hook
  now : Nanos
  submitDelay : Nanos

/-- The `Submit` of the call. -/
def Setup.submit (u : Setup) : Message :=
  .submit u.task u.deadline u.contentType u.credential u.body

/-- Both tasks at their first await, and the `Submit` sent. -/
def start (u : Setup) : Except CallError TimedCall :=
  (driveCallerChan u.submit u.requestCancel u.now false).map fun caller =>
    ⟨u.now, caller, driveCalleeChan u.behavior, [(u.now + u.submitDelay, u.submit)], []⟩

/-- When the `Submit` arrives. -/
def Setup.submitAt (u : Setup) : Nanos := u.now + u.submitDelay

/-- The callee's timer fires by then. -/
def Setup.calleeBy (u : Setup) : Nanos := u.submitAt + calleeBudget u.deadline

/-- The caller's timer fires then. -/
def Setup.callerBy (u : Setup) : Nanos := u.now + callerBudget u.deadline

/-- **The inequality between the two budgets.** -/
theorem Setup.callerBy_eq (u : Setup) :
    u.callerBy + u.submitDelay = u.calleeBy + millis graceMs := by
  rw [callerBy, calleeBy, submitAt, callerBudget_eq, ← Nat.add_assoc, Nat.add_right_comm,
    Nat.add_right_comm u.now]

/-- The caller has sent the `Submit` and set its timer; the callee waits. -/
def started (u : Setup) : TimedCall :=
  ⟨u.now, ⟨.submitted, u.requestCancel, u.callerBy, .running, ⟨[], false⟩, false, [u.submit], []⟩,
    driveCalleeChan u.behavior, [(u.submitAt, u.submit)], []⟩

/-- The start does not fail. -/
theorem start_eq (u : Setup) : start u = .ok (started u) := rfl

end

/-- The caller's task has not ended. -/
def isRunning : Task → Bool
  | .running => true
  | _ => false

section

variable [Base64Engine]

/-- The branch of the `oneshot` receiver has something to return. -/
def hookReady (requestCancel : Option Hook) : Bool :=
  match requestCancel with
  | some .waiting | none => false
  | _ => true

/-- Some branch of the `select` is ready: the task is woken. -/
def callerReady (c : ChanCaller) (now : Nanos) : Bool :=
  isRunning c.task && (decide (c.callTimer ≤ now) || hookReady c.requestCancel ||
    !c.rx.arrived.isEmpty || c.rx.ended || c.closed)

/-- The same for the callee, which hears nothing while it is silent. -/
def calleeReady (c : ChanCallee) (now : Nanos) : Bool :=
  match c.await with
  | .submit => !c.rx.arrived.isEmpty || c.rx.ended
  | .select =>
      decide (c.callTimer ≤ now) || (!c.silent && (!c.rx.arrived.isEmpty || c.rx.ended)) ||
        c.closed
  | .returned _ => false

/-- What `drive_chan_call` returns: it awaits the caller's task, and then the callee's. -/
def TimedCall.joined (s : TimedCall) : Option (Except CallError (Outcome × Outcome)) :=
  match s.caller.task, s.callee.await with
  | .panicked, _ => some (.error (.connection "panic"))
  | .returned callerOut, .returned calleeOut => some do
      let callerOut ← callerOut
      let calleeOut ← calleeOut
      .ok (callerOut, calleeOut)
  | _, _ => none

/-- The caller's end of the channels is dropped with its task. -/
def TimedCall.callerGone (s : TimedCall) : Bool := !isRunning s.caller.task

/-- The callee, once there is one. -/
def calleeView (c : ChanCallee) : Option CalleeState :=
  match c.await with
  | .submit => none
  | _ => some c.state

/-- What is on its way to a side, received by its channel or not. -/
def TimedCall.forCaller (s : TimedCall) : List Message :=
  s.caller.rx.arrived ++ s.toCaller.map Prod.snd

/-- The same for the callee. -/
def TimedCall.forCallee (s : TimedCall) : List Message :=
  s.callee.rx.arrived ++ s.toCallee.map Prod.snd

/-- What the next poll of a task sends. -/
def TimedCall.callerSends (s : TimedCall) : List Message :=
  (s.caller.poll s.now).sent.drop s.caller.sent.length

/-- The same for the callee's task. -/
def TimedCall.calleeSends (s : TimedCall) : List Message :=
  (s.callee.poll s.now s.callerGone).sent.drop s.callee.sent.length

/-- Arrival times for new messages behind those in flight: none is early, and the order is
    kept. -/
def Scheduled (now : Nanos) (queue : InFlight) (arrivals : List Nanos) (new : List Message) :
    Prop :=
  arrivals.length = new.length ∧ (∀ a ∈ arrivals, now ≤ a) ∧
    (queue.map Prod.fst ++ arrivals).Pairwise (· ≤ ·)

instance (now : Nanos) (queue : InFlight) (arrivals : List Nanos) (new : List Message) :
    Decidable (Scheduled now queue arrivals new) :=
  inferInstanceAs (Decidable (_ ∧ _ ∧ _))

/-- The moments something happens at by itself: an arrival, or a timer. -/
def TimedCall.wakeUps (s : TimedCall) : List Nanos :=
  (s.toCallee.take 1).map Prod.fst ++ (s.toCaller.take 1).map Prod.fst ++
    (if isRunning s.caller.task then [s.caller.callTimer] else []) ++
    (match s.callee.await with
      | .select => [s.callee.callTimer]
      | _ => [])

/-- What can happen next. -/
inductive Ev where
  /-- The oldest message in flight has arrived. -/
  | deliverCallee
  | deliverCaller
  /-- The sender is gone and the channel is empty. -/
  | hangUpCallee
  | hangUpCaller
  /-- The holder of `request_cancel`'s sender uses it. -/
  | useHook
  /-- A task is polled; what it sends arrives at the given times. -/
  | pollCaller (arrivals : List Nanos)
  | pollCallee (arrivals : List Nanos)
  /-- Nothing is left to do at this moment, and the clock moves on. -/
  | advance (now : Nanos)
  deriving DecidableEq, Repr

/-- One step of the two tasks and the clock. -/
def step (s : TimedCall) : Ev → Option TimedCall
  | .deliverCallee =>
      match s.toCallee with
      | (due, msg) :: rest =>
          if due ≤ s.now then
            some { s with
              toCallee := rest
              callee := { s.callee with
                rx := { s.callee.rx with arrived := s.callee.rx.arrived ++ [msg] } } }
          else none
      | [] => none
  | .deliverCaller =>
      match s.toCaller with
      | (due, msg) :: rest =>
          if due ≤ s.now then
            some { s with
              toCaller := rest
              caller := { s.caller with
                rx := { s.caller.rx with arrived := s.caller.rx.arrived ++ [msg] } } }
          else none
      | [] => none
  | .hangUpCallee =>
      if s.callerGone = true ∧ s.toCallee = [] ∧ s.callee.rx.ended = false then
        some { s with callee := { s.callee with rx := { s.callee.rx with ended := true } } }
      else none
  | .hangUpCaller =>
      match s.callee.await with
      | .returned _ =>
          if s.toCaller = [] ∧ s.caller.rx.ended = false then
            some { s with caller := { s.caller with rx := { s.caller.rx with ended := true } } }
          else none
      | _ => none
  | .useHook =>
      if s.caller.requestCancel = some .waiting then
        some { s with caller := { s.caller with requestCancel := some .sent } }
      else none
  | .pollCaller arrivals =>
      if callerReady s.caller s.now = true ∧
          Scheduled s.now s.toCallee arrivals s.callerSends then
        some { s with
          caller := s.caller.poll s.now
          toCallee := s.toCallee ++ arrivals.zip s.callerSends }
      else none
  | .pollCallee arrivals =>
      if calleeReady s.callee s.now = true ∧
          Scheduled s.now s.toCaller arrivals s.calleeSends then
        some { s with
          callee := s.callee.poll s.now s.callerGone
          toCaller := s.toCaller ++ arrivals.zip s.calleeSends }
      else none
  | .advance now =>
      if s.joined.isNone = true ∧ s.now < now ∧ callerReady s.caller s.now = false ∧
          calleeReady s.callee s.now = false ∧ ∀ due ∈ s.wakeUps, now ≤ due then
        some { s with now := now }
      else none

/-- A message that ends the call. -/
def endsCall : Message → Bool
  | .completed _ | .failed _ | .canceled => true
  | _ => false

/-- What the `Submit` and the callee's last message take together is less than the grace. -/
def Prompt (submitDelay : Nanos) (s : TimedCall) : Ev → Prop
  | .pollCallee arrivals => ∀ p ∈ arrivals.zip s.calleeSends, endsCall p.2 = true →
      submitDelay + (p.1 - s.now) < millis graceMs
  | _ => True

instance (submitDelay : Nanos) (s : TimedCall) (e : Ev) : Decidable (Prompt submitDelay s e) :=
  match e with
  | .pollCallee arrivals => inferInstanceAs (Decidable (∀ p ∈ arrivals.zip s.calleeSends, _))
  | .deliverCallee | .deliverCaller | .hangUpCallee | .hangUpCaller | .useHook
  | .pollCaller _ | .advance _ => .isTrue trivial

end

end UatChanClock
