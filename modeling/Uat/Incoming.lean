import Uat.RateLimit
import Uat.CalleeRun

/-! # `handle_incoming` — an accepted connection, from the gate to the inbox

    The handler asks the verifier, then the rate limiter, and then drives the callee side
    of the call.  A refusal writes its record by hand and closes the connection; past the
    two gates the record is the business of `run_callee_with`, which asks the verifier
    again.

    `incoming_one_record` counts the records of both kinds of path. -/

namespace UatIncoming

open UatTypes UatState UatPolicy UatRateLimit UatRecord UatHeader UatCalleeRun StepRun

/-- How the handler of a connection ends, apart from success. -/
inductive DaemonError where
  | call (err : CallError)

/-- Notification of a finished inbound call; the source keeps `peer` in its printed form. -/
structure InboxEvent where
  peer : NodeId
  outcome : Outcome
  deriving DecidableEq

/-- What the handler makes of the result of `run_callee_with`: its own result, and the
    event it offers to the inbox. -/
def afterCall (peer : NodeId) :
    Except CallError Outcome → Except DaemonError Unit × Option InboxEvent
  | .ok outcome => (.ok (), some ⟨peer, outcome⟩)
  | .error .cancelled => (.ok (), none)
  | .error err => (.error (.call err), none)

section

variable [Base64Engine]

/-- The task of one accepted connection. -/
inductive Handling where
  /-- Refused before a call task: the connection is closed with `code`. -/
  | refused (code : CloseCode) (record : CallRecord)
  /-- In `run_callee_with`, with the permit held. -/
  | calling (permit : RateLimitPermit) (c : Callee)

/-- What the sink has received from this connection. -/
def Handling.audit : Handling → List CallRecord
  | .refused _ record => [record]
  | .calling _ c => c.audit.map UatCalleeRun.Audited.record

/-- The connection was refused, or its call is over. -/
def Handling.over : Handling → Bool
  | .refused _ _ => true
  | .calling _ c => c.await.over

/-- The event offered to the inbox once the call has returned. -/
def Handling.inboxEvent (peer : NodeId) : Handling → Option InboxEvent
  | .refused _ _ => none
  | .calling _ c =>
      match c.await with
      | .returned result => (afterCall peer result).2
      | _ => none

/-- The record of a peer that the gate turns away. -/
def notAllowed (peer : NodeId) : CallRecord :=
  ⟨none, .inbound, peer, .denied "not on allowlist", .closed .normal⟩

/-- The record of a connection over the limits: no task yet, no stream accepted. -/
def overLimits (peer : NodeId) : CallRecord :=
  ⟨none, .inbound, peer, .notReached, .closed .rateLimited⟩

section

variable {Key : Type} [BiscuitEngine Key] (policy : Policy Key)

/-- `handle_incoming` from the accepted connection to its next await.  `verified` is what
    `verify_peer` answered; `run_callee_with` asks on its own. -/
def handleIncoming (verified : Bool) (limiter : RateLimiter) (peer : NodeId) (now : Instant)
    (spent : MemorySpentSet) : Handling × RateLimiter :=
  if ¬ verified then (.refused .normal (notAllowed peer), limiter)
  else
    match limiter.tryAdmitAt peer now with
    | (.ok permit, limiter) => (.calling permit (runCalleeWith policy peer spent), limiter)
    | (.error _, limiter) => (.refused .rateLimited (overLimits peer), limiter)

end

variable [text : JsonText] {Key : Type} [BiscuitEngine Key] (policy : Policy Key)
  (peer : NodeId) (behavior : CalleeBehavior)

/-- A refused connection takes no further step. -/
def step (h : Handling) (e : UatCalleeRun.Ev) : Option Handling :=
  match h with
  | .refused _ _ => none
  | .calling permit c => (UatCalleeRun.step policy peer behavior c e).map (.calling permit)

end

/-! ## One record -/

section

variable [Base64Engine] {peer : NodeId}

/-- While the call goes on the guard is the connection's and nothing reached the sink;
    afterwards one record did. -/
structure Accounted (peer : NodeId) (c : Callee) : Prop where
  running : c.await.over = false →
    c.audit = [] ∧ c.record.identity = (false, .inbound, peer)
  ended : c.await.over = true →
    OneRecord .inbound peer true (c.audit.map UatCalleeRun.Audited.record)

/-- Emission from a guard that has not emitted. -/
theorem emitRecord_oneRecord {c : Callee} (haudit : c.audit = [])
    (hidentity : c.record.identity = (false, .inbound, peer)) :
    OneRecord .inbound peer true (c.emitRecord.audit.map UatCalleeRun.Audited.record) := by
  have hsink : c.emitRecord.audit.map UatCalleeRun.Audited.record =
      (c.record.emitNow []).2 := by
    rw [Callee.emitRecord]
    simp [haudit, Function.comp_def]
  rw [hsink]
  exact emitNow_oneRecord hidentity

/-- A step of the call goes on with the guard, or ends with its record. -/
theorem Accounted.of_moves {Key : Type} {policy : Policy Key} {c c' : Callee}
    {e : UatCalleeRun.Ev} (h : Accounted peer c) (hm : Moves policy peer c c' e) :
    Accounted peer c' := by
  cases hm with
  | goesOn _ haudit hidentity hover _ =>
      refine ⟨fun hrun => ?_, fun hend => ?_⟩
      · obtain ⟨hempty, hguard⟩ := h.running (hover.symm.trans hrun)
        exact ⟨haudit.trans hempty, hidentity.trans hguard⟩
      · rw [haudit]
        exact h.ended (hover.symm.trans hend)
  | ends c₁ _ hover haudit _ hidentity _ haudit' hover' =>
      obtain ⟨hempty, hguard⟩ := h.running hover
      refine ⟨fun hrun => (by cases hrun.symm.trans hover'), fun _ => ?_⟩
      rw [haudit']
      exact emitRecord_oneRecord (haudit.trans hempty) (hidentity.trans hguard)

/-- What is accounted for has its one record once it is over. -/
theorem Accounted.oneRecord {c : Callee} (h : Accounted peer c) :
    OneRecord .inbound peer c.await.over (c.audit.map UatCalleeRun.Audited.record) := by
  cases hover : c.await.over with
  | true => exact h.ended hover
  | false =>
      rw [(h.running hover).1]
      exact ⟨(by intro h; cases h), fun _ => rfl⟩

/-- A callee starts accounted for. -/
theorem runCalleeWith_accounted {Key : Type} (policy : Policy Key) (peer : NodeId)
    (spent : MemorySpentSet) : Accounted peer (runCalleeWith policy peer spent) := by
  rw [runCalleeWith]
  split
  · exact ⟨(by intro h; cases h), fun _ => emitRecord_oneRecord rfl rfl⟩
  · exact ⟨fun _ => ⟨rfl, rfl⟩, (by intro h; cases h)⟩

/-- A refused connection has its record, one in the call an accounted guard. -/
def Handling.Counted (peer : NodeId) : Handling → Prop
  | .refused code record => OneRecord .inbound peer true (Handling.audit (.refused code record))
  | .calling _ c => Accounted peer c

/-- An incoming connection starts accounted for, refused or not. -/
theorem handleIncoming_counted {Key : Type} (policy : Policy Key) (verified : Bool)
    (limiter : RateLimiter) (peer : NodeId) (now : Instant) (spent : MemorySpentSet) :
    (handleIncoming policy verified limiter peer now spent).1.Counted peer := by
  have hrefused : ∀ code record, record.direction = .inbound → record.peer = peer →
      (Handling.refused code record).Counted peer :=
    fun _ record hdirection hpeer =>
      ⟨fun _ => ⟨record, rfl, hdirection, hpeer⟩, (by intro h; cases h)⟩
  rw [handleIncoming]
  split
  · exact hrefused .normal (notAllowed peer) rfl rfl
  split
  · exact runCalleeWith_accounted policy peer spent
  · exact hrefused .rateLimited (overLimits peer) rfl rfl

variable [text : JsonText] {Key : Type} [BiscuitEngine Key] {policy : Policy Key}
  {behavior : CalleeBehavior}

/-- **Step lemma.** It stays accounted for. -/
theorem step_counted {h h' : Handling} {e : UatCalleeRun.Ev} (hcount : h.Counted peer)
    (hs : step policy peer behavior h e = some h') : h'.Counted peer := by
  cases h with
  | refused code record => cases hs
  | calling permit c =>
      obtain ⟨c', hc, rfl⟩ := Option.map_eq_some_iff.mp hs
      exact Accounted.of_moves hcount (step_moves hc)

/-- Every run of a handler leaves one record, or none while the call goes on. -/
theorem incoming_one_record {verified : Bool} {limiter : RateLimiter} {now : Instant}
    {spent : MemorySpentSet} {es : List UatCalleeRun.Ev} {h : Handling}
    (hrun : runFrom (step policy peer behavior)
      (handleIncoming policy verified limiter peer now spent).1 es = some h) :
    OneRecord .inbound peer h.over h.audit := by
  have hcount : h.Counted peer :=
    run_invariant _ (fun _ _ _ hc hs => step_counted hc hs) es _ h
      (handleIncoming_counted policy verified limiter peer now spent) hrun
  cases h with
  | refused code record => exact hcount
  | calling permit c => exact Accounted.oneRecord hcount

end

end UatIncoming
