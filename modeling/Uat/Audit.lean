import Uat.CallerRun
import Uat.Incoming

/-! # The audit of both ends of a connection

    `one_record_per_connection` puts the two ends side by side: whatever happens to the
    task of a connection, its sink has one record when the task is over.

    The rest of the file is about a connection that the callee refuses for its rate.  The
    caller learns of it by the close code alone, at whatever await it is in.
    `refusal_audited_alike_iff` tells the awaits at which its record says so from those at
    which it does not. -/

namespace UatAudit

open UatTypes UatState UatPolicy UatVerify UatRateLimit UatHeader UatStream UatRecvStream UatRecord
open UatCallerLoop UatCallerRun UatIncoming Checked StepRun
open UatAttenuation (plainText oneRoot epoch)
open UatOneShot (stranger)

section

variable [Base64Engine] [text : JsonText]

/-- **EXACTLY ONE AUDIT RECORD PER CONNECTION.**  For every connection that is dialed or
    accepted and every order of events at its task, the sink has received one record with
    the connection's direction and peer once the task is over, and none before. -/
theorem one_record_per_connection :
    (∀ (peer : NodeId) (submit : Message) (requestCancel : Option Hook)
        (closed : Option ConnectionError) (wire : Bytes) (es : List UatCallerRun.Ev)
        (s : CallerRun),
      runFrom (UatCallerRun.step submit wire) (runCallerWith peer submit requestCancel closed) es =
          some s →
        OneRecord .outbound peer s.stage.over (s.audit.map UatCallerRun.Audited.record)) ∧
    ∀ (Key : Type) [BiscuitEngine Key] (policy : Policy Key)
      (behavior : UatCalleeRun.CalleeBehavior) (verified : Bool) (limiter : RateLimiter)
      (peer : NodeId) (now : Instant) (spent : MemorySpentSet) (es : List UatCalleeRun.Ev)
      (h : Handling),
      runFrom (UatIncoming.step policy peer behavior)
          (handleIncoming policy verified limiter peer now spent).1 es = some h →
        OneRecord .inbound peer h.over h.audit :=
  ⟨fun _ _ _ _ _ _ _ hrun => caller_one_record hrun,
    fun _ _ _ _ _ _ _ _ _ _ _ hrun => incoming_one_record hrun⟩

end

section

attribute [local instance] plainText compactJson noToken

/-- `open_bi` fails on the one side, the listed peer of the other is over its limits. -/
theorem one_record_per_connection_refused :
    ∃ s, runFrom (UatCallerRun.step (.submit taskOne oneSecond plain none []) [])
        (runCallerWith remote (.submit taskOne oneSecond plain none []) none none)
        [.setup (.failed "closed by peer")] = some s ∧ s.stage.over = true ∧
      OneRecord .outbound remote true (s.audit.map UatCallerRun.Audited.record) ∧
      OneRecord .inbound stranger true
        (handleIncoming oneRoot true (.new ⟨0, 0, 0⟩) stranger 0 .new).1.audit := by
  refine ⟨_, rfl, rfl, ?_, ?_⟩
  · exact one_record_per_connection.1 remote (.submit taskOne oneSecond plain none []) none none
      [] [.setup (.failed "closed by peer")] _ rfl
  · exact one_record_per_connection.2 Unit oneRoot .stubComplete true (.new ⟨0, 0, 0⟩) stranger 0
      .new [] _ rfl

end

/-! ## A connection refused for its rate -/

/-- The record of a refusal: no task, closed for the rate. -/
def ShowsRefusal (r : CallRecord) : Prop := r.outcome = .closed .rateLimited ∧ r.task = none

/-- What the peer of a handler that refuses can see of it: the close, with its code, and
    no end of a stream that was never accepted. -/
def FromRefuser : UatCallerRun.Ev → Prop
  | .call (.close err) => err = closedBy .rateLimited
  | .call .finish => False
  | _ => True

/-- A result that is an error hides the refusal. -/
theorem observeResult_error (record : CallRecordGuard) (err : CallError) :
    ¬ ShowsRefusal (record.observeResult (.error err)).record := by
  rintro ⟨houtcome, -⟩
  have hrefusal : outcomeFromCallError err = .closed .rateLimited := houtcome
  rcases outcomeFromCallError_cases err with ⟨-, herr⟩ | ⟨-, herr⟩ | herr | ⟨code, hcode, herr⟩
  · cases herr.symm.trans hrefusal
  · cases herr.symm.trans hrefusal
  · cases herr.symm.trans hrefusal
  · obtain rfl := Outcome.closed.inj (herr.symm.trans hrefusal)
    exact absurd hcode (by decide)

/-- What a lost connection cannot meet, it meets only if it is not lost. -/
theorem met_iff_kept {lost : Bool} {p : Prop} (hp : lost = true → ¬ p) :
    (lost = true → p) ↔ lost = false := by
  constructor
  · intro hmet
    exact Bool.eq_false_iff.mpr fun hlost => hp hlost (hmet hlost)
  · intro hkept hlost
    cases hkept.symm.trans hlost

section

variable [Base64Engine]

/-- A finished handler's refusal, and the record it wrote. -/
theorem handleIncoming_overLimits {Key : Type} {policy : Policy Key} {verified : Bool}
    {limiter : RateLimiter} {peer : NodeId} {now : Instant} {spent : MemorySpentSet}
    {record : CallRecord}
    (h : (handleIncoming policy verified limiter peer now spent).1 =
      .refused .rateLimited record) : record = overLimits peer := by
  rw [handleIncoming] at h
  split at h
  · obtain ⟨hcode, -⟩ := Handling.refused.inj h
    cases hcode
  split at h
  · cases h
  · obtain ⟨-, hrecord⟩ := Handling.refused.inj h
    exact hrecord.symm

/-! ## The loop against a peer that refused -/

/-- The awaits the loop can be in while the peer says nothing. -/
def Phase (c : Caller) : Prop :=
  match c.await with
  | .writeSubmit => c.state = .submitted
  | .select read =>
      read = .fresh ∧ (c.state = .submitted ∨ (c.state = .canceling ∧ c.requestCancel = none))
  | .writeCancel => c.state = .canceling ∧ c.requestCancel = none
  | .returned _ | .panicked => True

/-- No byte comes from the peer, only its close. -/
structure Silent (c : Caller) : Prop where
  closed : ∀ err, c.closed = some err → err = closedBy .rateLimited
  arrived : c.recv.arrived = []
  inFlight : c.inFlight = []
  unfinished : c.recv.ended ≠ some .finished
  outcome : c.record.record.outcome = .peerLost

/-- So far the peer has said nothing, and the loop is where its silence leaves it. -/
structure Refused (c : Caller) : Prop extends Silent c where
  phase : Phase c

/-- The loop has not ended, or the record of its end shows the refusal it has learned of. -/
def EndShows (c : Caller) : Prop :=
  match c.await with
  | .returned result => isLost c = true → ShowsRefusal (c.record.observeResult result).record
  | .panicked => isLost c = true → ShowsRefusal c.record.record
  | _ => True

/-- Once the connection is gone, a write that is awaited is over without an error, and a
    poll comes to the branch of the closed connection, or to the cancel hook before it. -/
def HearsClose (c : Caller) : UatCallerLoop.Ev → Prop
  | .wrote w => isLost c = true → w = .done
  | .poll _ => isLost c = true → c.shutdown = false ∧ c.timer = false ∧
      (c.closed ≠ none ∨ c.requestCancel = some .sent ∨ c.requestCancel = some .dropped)
  | _ => True

/-- The loop goes on: its end is still to come. -/
theorem endShows_of_running {c : Caller} (hrun : c.await.running = true) : EndShows c := by
  rw [EndShows]
  cases hawait : c.await with
  | returned _ | panicked => rw [hawait] at hrun; cases hrun
  | _ => trivial

/-- A returning loop shows what its result is recorded as. -/
theorem endShows_ret {c : Caller} {result : Except CallError Outcome} :
    EndShows (c.ret result) ↔
      (isLost c = true → ShowsRefusal (c.record.observeResult result).record) := Iff.rfl

/-- An end with an error shows the refusal only if there is none to show. -/
theorem endShows_ret_error {c : Caller} {err : CallError} :
    EndShows (c.ret (.error err)) ↔ isLost c = false :=
  endShows_ret.trans (met_iff_kept fun _ => observeResult_error c.record err)

/-- What a step comes to: its end shows the refusal exactly when the step hears the close,
    and a loop that goes on is as before. -/
def Exact (c : Caller) (e : UatCallerLoop.Ev) (c' : Caller) : Prop :=
  (EndShows c' ↔ HearsClose c e) ∧ (c'.await.running = true → Refused c')

/-- A loop that goes on owes the record nothing yet. -/
theorem exact_running {c c' : Caller} {e : UatCallerLoop.Ev} (hhears : HearsClose c e)
    (hrun : c'.await.running = true) (h : Refused c') : Exact c e c' :=
  ⟨⟨fun _ => hhears, fun _ => endShows_of_running hrun⟩, fun _ => h⟩

/-- A step that ends the loop with an error hears the close only if there is none. -/
theorem exact_ret_error {c c₁ : Caller} {e : UatCallerLoop.Ev} {err : CallError}
    (hlost : isLost c₁ = isLost c) (hhears : HearsClose c e ↔ isLost c = false) :
    Exact c e (c₁.ret (.error err)) := by
  refine ⟨?_, (by intro h; cases h)⟩
  rw [endShows_ret_error, hlost, hhears]

/-- A failed write hides a refusal that has come in. -/
theorem writeFailed_exact {c : Caller} {e : UatCallerLoop.Ev} (err : CallError)
    (hhears : HearsClose c e ↔ isLost c = false) : Exact c e (c.writeFailed err) := by
  cases err with
  | frame fe =>
      show Exact c e ((c.closeOnFrameErr fe).ret _)
      refine exact_ret_error ?_ hhears
      rw [Caller.closeOnFrameErr]
      cases fe.closeCode <;> rfl
  | _ => exact exact_ret_error rfl hhears

/-- The loop's top, in a phase of the loop. -/
theorem loopTop_refused {c : Caller} (h : Silent c)
    (hstate : c.state = .submitted ∨ (c.state = .canceling ∧ c.requestCancel = none)) :
    c.loopTop.await.running = true ∧ Refused c.loopTop := by
  have hopen : c.loopTop = { c with await := .select .fresh } := by
    rw [Caller.loopTop]
    rcases hstate with hstate | ⟨hstate, -⟩ <;> rw [hstate]
  rw [hopen]
  exact ⟨rfl, ⟨h.closed, h.arrived, h.inFlight, h.unfinished, h.outcome⟩, rfl, hstate⟩

/-- A failed write hears the close only where there is none. -/
theorem wroteFailed_hears {c : Caller} {w : WriteEnd} {err : CallError}
    (hw : w.result = .error err) : HearsClose c (.wrote w) ↔ isLost c = false := by
  refine met_iff_kept fun _ hdone => ?_
  rw [hdone] at hw
  cases hw

theorem wroteDone_hears {c : Caller} {w : WriteEnd} (hw : w.result = .ok ()) :
    HearsClose c (.wrote w) := by
  intro _
  cases w with
  | done => rfl
  | _ => cases hw

/-- The write of the `Submit`: a failed one is reported as such, even when the connection
    is known to be closed for the rate. -/
theorem submitWritten_exact {c : Caller} (h : Refused c) (hstate : c.state = .submitted)
    (w : WriteEnd) : Exact c (.wrote w) (c.submitWritten w) := by
  rw [Caller.submitWritten]
  cases hw : w.result with
  | error err =>
      dsimp only
      split
      · exact exact_ret_error rfl (wroteFailed_hears hw)
      · exact writeFailed_exact err (wroteFailed_hears hw)
  | ok _ =>
      dsimp only
      split
      · refine ⟨⟨fun _ => wroteDone_hears hw, fun _ => ?_⟩, (by intro h; cases h)⟩
        exact endShows_ret.mpr fun _ => ⟨rfl, rfl⟩
      · obtain ⟨hrun, hrefused⟩ := loopTop_refused
          (c := { c with record := c.record.setTask c.task })
          ⟨h.closed, h.arrived, h.inFlight, h.unfinished, h.outcome⟩ (Or.inl hstate)
        exact exact_running (wroteDone_hears hw) hrun hrefused

/-- Behind a `Cancel` the loop goes on, or has failed. -/
theorem cancelWritten_exact {c : Caller} (h : Refused c) (hstate : c.state = .canceling)
    (hhook : c.requestCancel = none) (w : WriteEnd) :
    Exact c (.wrote w) (c.cancelWritten w) := by
  rw [Caller.cancelWritten]
  cases hw : w.result with
  | error err => exact writeFailed_exact err (wroteFailed_hears hw)
  | ok _ =>
      obtain ⟨hrun, hrefused⟩ := loopTop_refused h.toSilent (Or.inr ⟨hstate, hhook⟩)
      exact exact_running (wroteDone_hears hw) hrun hrefused

/-- The branch of the closed connection is the one that records the refusal. -/
theorem onClosed_shows {c : Caller} (hopen : c.state.isTerminal = false) :
    EndShows (c.onClosed (closedBy .rateLimited)) ∧
      (c.onClosed (closedBy .rateLimited)).await.running = false := by
  rw [Caller.onClosed, Caller.connLost]
  rw [closeCodeFromConnErr_closedBy, if_pos rfl, callerStep_connLost hopen]
  exact ⟨endShows_ret.mpr fun _ => ⟨rfl, rfl⟩, rfl⟩

/-- The timer ends the call, and hides a refusal that has come in. -/
theorem onTimer_hides {c : Caller} (hopen : c.state.isTerminal = false) :
    (EndShows c.onTimer ↔ isLost c = false) ∧ c.onTimer.await.running = false := by
  rw [Caller.onTimer]
  rw [callerStep_timeout hopen]
  exact ⟨met_iff_kept fun _ hshows => (by cases hshows.1), rfl⟩

end

section

variable [Base64Engine] [text : JsonText]

/-- A read that waits for its first byte. -/
theorem pollMessage_silent (ended : Option StreamEnd) (hended : ended ≠ some .finished) :
    pollMessage .fresh ⟨[], ended⟩ =
      if ended = some .lost then (.ready (fail (.read .readError)), ⟨[], ended⟩)
      else (.pending .fresh, ⟨[], ended⟩) := by
  cases ended with
  | none => rfl
  | some ended =>
      cases ended with
      | finished => exact absurd rfl hended
      | lost => rfl

/-- The read branch takes a lost connection for a stream that failed. -/
theorem pollRead_exact {c : Caller} (h : Refused c) (hclosed : c.closed = none)
    (hstate : c.state = .submitted ∨ (c.state = .canceling ∧ c.requestCancel = none))
    (hhook : c.requestCancel ≠ some .sent ∧ c.requestCancel ≠ some .dropped)
    (expired : Bool) : Exact c (.poll expired) (c.pollRead .fresh expired) := by
  have hlost : isLost c = decide (c.recv.ended = some .lost) := by
    rw [isLost, hclosed]
    rfl
  have hhears : HearsClose c (.poll expired) ↔ isLost c = false := by
    refine met_iff_kept fun _ hhears => ?_
    obtain ⟨-, -, hopen | hsent | hdropped⟩ := hhears
    · exact hopen hclosed
    · exact hhook.1 hsent
    · exact hhook.2 hdropped
  -- The peer sent nothing: a poll of the read waits, or meets the end of the stream.
  have hrecv : c.recv = ⟨[], c.recv.ended⟩ := by rw [← h.arrived]
  rw [Caller.pollRead]
  rw [hrecv, pollMessage_silent c.recv.ended h.unfinished]
  by_cases hended : c.recv.ended = some .lost
  · rw [if_pos hended]
    exact exact_ret_error rfl hhears
  · have hopen : isLost c = false := by rw [hlost]; exact decide_eq_false hended
    rw [if_neg hended]
    dsimp only
    split
    · refine ⟨⟨fun _ => hhears.mpr hopen, fun _ hgone => ?_⟩, (by intro h; cases h)⟩
      cases hopen.symm.trans hgone
    · exact exact_running (hhears.mpr hopen) rfl
        ⟨⟨h.closed, rfl, h.inFlight, h.unfinished, h.outcome⟩, rfl, hstate⟩

/-- **One poll.**  Shutdown and the timer come before the branch of the closed connection,
    the cancel hook and the read after it. -/
theorem pollSelect_exact {c : Caller} (h : Refused c)
    (hstate : c.state = .submitted ∨ (c.state = .canceling ∧ c.requestCancel = none))
    (expired : Bool) : Exact c (.poll expired) (c.pollSelect .fresh expired) := by
  have hopen : c.state.isTerminal = false := by
    rcases hstate with hstate | ⟨hstate, -⟩ <;> rw [hstate] <;> rfl
  rw [Caller.pollSelect]
  split
  -- Shutdown wins over the close: `Canceled` is recorded, and the step did not hear it.
  · next hshutdown =>
      refine exact_ret_error rfl (met_iff_kept fun _ hhears => ?_)
      cases hshutdown.symm.trans hhears.1
  split
  · next htimer =>
      -- The timer records `Closed(Timeout)`, with the connection lost or not.
      obtain ⟨hiff, hstop⟩ := onTimer_hides hopen
      refine ⟨hiff.trans (met_iff_kept fun _ hhears => ?_).symm,
        fun hrun => (by cases hstop.symm.trans hrun)⟩
      cases htimer.symm.trans hhears.2.1
  next hshutdown htimer =>
  have hpoll := Bool.eq_false_iff.mpr hshutdown
  have hwait := Bool.eq_false_iff.mpr htimer
  split
  · next err hclosed =>
      obtain rfl := h.closed err hclosed
      obtain ⟨hshows, hstop⟩ := onClosed_shows hopen
      refine ⟨⟨fun _ _ => ⟨hpoll, hwait, Or.inl ?_⟩, fun _ => hshows⟩,
        fun hrun => (by cases hstop.symm.trans hrun)⟩
      rw [hclosed]
      intro h
      cases h
  next hclosed =>
  split
  · next hsent =>
      have hsubmitted : c.state = .submitted := by
        rcases hstate with hstate | ⟨-, hnone⟩
        · exact hstate
        · cases hsent.symm.trans hnone
      have hhears : HearsClose c (.poll expired) :=
        fun _ => ⟨hpoll, hwait, Or.inr (Or.inl hsent)⟩
      -- The hook fires once: the caller writes `Cancel`, and no later poll finds it again.
      have hfires : c.onCancelReq =
          { c with requestCancel := none, state := .canceling, await := .writeCancel } := by
        rw [Caller.onCancelReq]
        dsimp only
        rw [hsubmitted]
        rfl
      rw [hfires]
      exact exact_running hhears rfl
        ⟨⟨h.closed, h.arrived, h.inFlight, h.unfinished, h.outcome⟩, rfl, rfl⟩
  · next hdropped =>
      have hsubmitted : c.state = .submitted := by
        rcases hstate with hstate | ⟨-, hnone⟩
        · exact hstate
        · cases hdropped.symm.trans hnone
      obtain ⟨hrun, hrefused⟩ := loopTop_refused (c := { c with requestCancel := some .resolved })
        ⟨h.closed, h.arrived, h.inFlight, h.unfinished, h.outcome⟩ (Or.inl hsubmitted)
      exact exact_running (fun _ => ⟨hpoll, hwait, Or.inr (Or.inr hdropped)⟩) hrun hrefused
  · next hresolved =>
      have hshows : EndShows { c with await := .panicked } ↔ isLost c = false :=
        met_iff_kept fun _ hshows => (by cases hshows.1.symm.trans h.outcome)
      have hhears : HearsClose c (.poll expired) ↔ isLost c = false := by
        refine met_iff_kept fun _ hhears => ?_
        obtain ⟨-, -, hgone | hsent | hdropped⟩ := hhears
        · exact hgone hclosed
        · cases hresolved.symm.trans hsent
        · cases hresolved.symm.trans hdropped
      exact ⟨hshows.trans hhears.symm, (by intro h; cases h)⟩
  · next hwaiting =>
      have hunused : c.requestCancel ≠ some .sent ∧ c.requestCancel ≠ some .dropped := by
        rw [hwaiting]
        exact ⟨(by intro h; cases h), (by intro h; cases h)⟩
      exact pollRead_exact h hclosed hstate hunused expired
  · next hnone =>
      have hunused : c.requestCancel ≠ some .sent ∧ c.requestCancel ≠ some .dropped := by
        rw [hnone]
        exact ⟨(by intro h; cases h), (by intro h; cases h)⟩
      exact pollRead_exact h hclosed hstate hunused expired

/-- **The step lemma of the loop.** -/
theorem loop_step_exact {c c' : Caller} {e : UatCallerLoop.Ev} (h : Refused c)
    (hevent : FromRefuser (.call e)) (hs : UatCallerLoop.step c e = some c')
    (hrun : c.await.running = true) : Exact c e c' := by
  -- What the environment does changes neither the await nor the state.
  have henv : ∀ {c' : Caller}, HearsClose c e → Silent c' → c'.await = c.await →
      c'.state = c.state → (c.requestCancel = none → c'.requestCancel = none) → Exact c e c' := by
    intro c' hhears hsilent hawait hstate hhook
    refine exact_running hhears (by rw [hawait]; exact hrun) ⟨hsilent, ?_⟩
    have hphase := h.phase
    rw [Phase] at hphase ⊢
    rw [hawait, hstate]
    generalize c.await = await at hphase ⊢
    cases await with
    | writeSubmit => exact hphase
    | select read => exact ⟨hphase.1, hphase.2.imp_right fun h => ⟨h.1, hhook h.2⟩⟩
    | writeCancel => exact ⟨hphase.1, hhook hphase.2⟩
    | returned _ | panicked => trivial
  have hphase := h.phase
  rw [Phase] at hphase
  cases e with
  | arrive n =>
      obtain ⟨-, hs⟩ := Option.ite_none_right_eq_some.mp hs
      obtain rfl := Option.some.inj hs
      refine henv trivial ⟨h.closed, ?_, ?_, h.unfinished, h.outcome⟩ rfl rfl id
      · show c.recv.arrived ++ c.inFlight.take n = []
        rw [h.arrived, h.inFlight, List.take_nil, List.append_nil]
      · show c.inFlight.drop n = []
        rw [h.inFlight, List.drop_nil]
  | finish => exact absurd hevent id
  | lose =>
      obtain ⟨-, hs⟩ := Option.ite_none_right_eq_some.mp hs
      obtain rfl := Option.some.inj hs
      exact henv trivial ⟨h.closed, h.arrived, h.inFlight, fun hfin => (by cases hfin), h.outcome⟩
        rfl rfl id
  | close err =>
      obtain ⟨-, hs⟩ := Option.ite_none_right_eq_some.mp hs
      obtain rfl := Option.some.inj hs
      refine henv trivial ⟨fun err' herr => ?_, h.arrived, h.inFlight, h.unfinished, h.outcome⟩
        rfl rfl id
      exact (Option.some.inj herr).symm.trans hevent
  | shutdown | timer =>
      obtain rfl := Option.some.inj hs
      exact henv trivial ⟨h.closed, h.arrived, h.inFlight, h.unfinished, h.outcome⟩ rfl rfl id
  | hookSend | hookDrop =>
      obtain ⟨hwaiting, hs⟩ := Option.ite_none_right_eq_some.mp hs
      obtain rfl := Option.some.inj hs
      exact henv trivial ⟨h.closed, h.arrived, h.inFlight, h.unfinished, h.outcome⟩ rfl rfl
        fun hnone => by cases hwaiting.symm.trans hnone
  | wrote w =>
      rcases UatCallerLoop.step_wrote hs with ⟨hawait, rfl⟩ | ⟨hawait, rfl⟩
      · rw [hawait] at hphase
        exact submitWritten_exact h hphase w
      · rw [hawait] at hphase
        exact cancelWritten_exact h hphase.1 hphase.2 w
  | poll expired =>
      obtain ⟨read, hawait, rfl⟩ := UatCallerLoop.step_poll hs
      rw [hawait] at hphase
      obtain ⟨rfl, hstate⟩ := hphase
      exact pollSelect_exact h hstate expired

end

/-! ## The caller's run against a peer that refused -/

section

variable [Base64Engine]

/-- The record that the guard is going to emit shows the refusal, if it is known by now. -/
def Pending (stage : Stage) : Prop :=
  match stage with
  | .joinGuard record lost result =>
      record.emitted = false → lost = true → ShowsRefusal (record.observeResult result).record
  | .unwinding record lost => record.emitted = false → lost = true → ShowsRefusal record.record
  | _ => True

/-- The refusal shows in what the sink has received, and in what is going to be emitted. -/
structure Shows (s : CallerRun) : Prop where
  audit : ∀ a ∈ s.audit, a.lost = true → ShowsRefusal a.record
  pending : Pending s.stage

/-- The peer's close is heard: in the loop as `HearsClose` says, and the future is not
    dropped once the connection is gone. -/
def Hears (s : CallerRun) : UatCallerRun.Ev → Prop
  | .call e => ∀ c, s.stage = .looping c → HearsClose c e
  | .drop => ∀ record, s.stage.guard = some (record, true) → ShowsRefusal record.record
  | _ => True

/-- Before the loop, and in it, nothing came from the peer but its close. -/
def Quiet (s : CallerRun) : Prop :=
  match s.stage with
  | .openBi o =>
      (∀ err, o.closed = some err → err = closedBy .rateLimited) ∧
        o.record.record.task = none ∧ o.record.record.outcome = .peerLost
  | .looping c => c.await.running = true ∧ Refused c
  | _ => True

/-- The guard has not spoken, so it adds its record. -/
theorem finish_audit {record : CallRecordGuard} (hemitted : record.emitted = false)
    (audit : List UatCallerRun.Audited) (lost : Bool) (stage : Stage) :
    (finish audit record lost stage).audit = audit ++ [⟨record.record, lost⟩] := by
  rw [finish, CallRecordGuard.emitNow]
  rw [if_neg (by rw [hemitted]; intro h; cases h)]
  rfl

/-- What the guard emits is added to an audit that shows the refusal so far. -/
theorem finish_shows {audit : List UatCallerRun.Audited} {record : CallRecordGuard} {lost : Bool}
    {stage : Stage} (hemitted : record.emitted = false)
    (haudit : ∀ a ∈ audit, a.lost = true → ShowsRefusal a.record) (hpending : Pending stage)
    (h : lost = true → ShowsRefusal record.record) : Shows (finish audit record lost stage) := by
  refine ⟨?_, hpending⟩
  rw [finish_audit hemitted, List.forall_mem_append, List.forall_mem_singleton]
  exact ⟨haudit, h⟩

/-- What is shown in the end is what the guard held. -/
theorem shows_of_finish {audit : List UatCallerRun.Audited} {record : CallRecordGuard}
    {lost : Bool} {stage : Stage} (hemitted : record.emitted = false)
    (h : Shows (finish audit record lost stage)) : lost = true → ShowsRefusal record.record := by
  refine h.audit ⟨record.record, lost⟩ ?_
  rw [finish_audit hemitted]
  exact List.mem_append_right _ (List.mem_singleton_self _)

/-- A loop that has ended is waiting for its guard to be joined, or unwinds. -/
theorem settle_shows_iff {s : CallerRun} {c : Caller} (hemitted : c.record.emitted = false)
    (haudit : ∀ a ∈ s.audit, a.lost = true → ShowsRefusal a.record) :
    Shows (s.settle c) ↔ EndShows c := by
  have hiff : Pending (s.settle c).stage ↔ EndShows c := by
    rw [CallerRun.settle, EndShows]
    cases c.await with
    | returned result | panicked =>
        exact ⟨fun h => h hemitted, fun h _ => h⟩
    | _ => exact Iff.rfl
  obtain ⟨lost, -, hsame⟩ := settle_guard s c
  rw [← hiff]
  exact ⟨fun h => h.pending, fun h => ⟨by rw [hsame]; exact haudit, h⟩⟩

/-- While the loop goes on, nothing is shown. -/
theorem settle_quiet {s : CallerRun} {c : Caller}
    (h : c.await.running = true → Refused c) : Quiet (s.settle c) := by
  rw [CallerRun.settle, Quiet]
  cases hawait : c.await with
  | returned _ | panicked => trivial
  | _ => exact ⟨by rw [hawait]; rfl, h (by rw [hawait]; rfl)⟩

/-- The record of the callee's refusal, and the caller's record of the same connection. -/
structure AuditedAlike (refused : CallRecord) (r : CallRecord) : Prop where
  outcome : r.outcome = .closed .rateLimited
  task : r.task = none
  sameOutcome : r.outcome = refused.outcome
  sameTask : r.task = refused.task

/-- **The property.** If the loss of the connection reached the caller, its record is that
    of the refusal. -/
def RefusalAudited (refused : CallRecord) (s : CallerRun) : Prop :=
  ∀ a ∈ s.audit, a.lost = true → AuditedAlike refused a.record

/-- Beside the refuser's record, it is the caller's that has to show the refusal. -/
theorem refusalAudited_iff {peer : NodeId} {s : CallerRun} :
    RefusalAudited (overLimits peer) s ↔ ∀ a ∈ s.audit, a.lost = true → ShowsRefusal a.record := by
  constructor
  · exact fun h a ha hlost => ⟨(h a ha hlost).outcome, (h a ha hlost).task⟩
  · intro h a ha hlost
    obtain ⟨houtcome, htask⟩ := h a ha hlost
    exact ⟨houtcome, htask, houtcome, htask⟩

end

section

variable [Base64Engine] [text : JsonText] {peer : NodeId} {task : TaskId} {deadline : Deadline}
  {contentType : ContentType} {credential : Option Credential} {body : Bytes}

/-- What a step comes to in the run. -/
def RunExact (s : CallerRun) (e : UatCallerRun.Ev) (s' : CallerRun) : Prop :=
  (Shows s' ↔ Hears s e) ∧ Quiet s'

/-- **Step lemma**, for the opening of the stream. -/
theorem setup_exact {s s' : CallerRun} {r : UatCalleeRun.SetupEnd}
    (hacc : UatCallerRun.Accounted peer s) (hquiet : Quiet s) (hshows : Shows s)
    (hs : UatCallerRun.step (.submit task deadline contentType credential body) [] s (.setup r) =
      some s') : RunExact s (.setup r) s' := by
  obtain ⟨o, hstage, hend⟩ := UatCallerRun.step_setup hs
  obtain ⟨-, hidentity⟩ := hacc.alive o.record o.closed.isSome (by rw [hstage]; rfl)
  have hemitted : o.record.emitted = false := congrArg Prod.fst hidentity
  rw [Quiet, hstage] at hquiet
  obtain ⟨hclosed, htask, houtcome⟩ := hquiet
  rcases hend with ⟨-, rfl⟩ | ⟨-, err, reason, rfl⟩
  · refine ⟨⟨fun _ => trivial, fun _ => ⟨hshows.audit, trivial⟩⟩, rfl, ?_⟩
    exact ⟨⟨hclosed, rfl, rfl, fun hfin => (by cases hfin), houtcome⟩, rfl⟩
  · -- A close code that is there is preferred to the setup error, so the refusal shows.
    have hfailed : Shows (o.failed s err reason) ∧ Quiet (o.failed s err reason) := by
      rw [Opening.failed]
      cases hgone : o.closed with
      | none =>
          refine ⟨finish_shows hemitted hshows.audit trivial fun hlost => ?_, trivial⟩
          cases hlost
      | some closed =>
          obtain rfl := hclosed closed hgone
          refine ⟨finish_shows hemitted hshows.audit trivial fun _ => ⟨?_, htask⟩, trivial⟩
          exact congrArg Outcome.closed (closeCodeFromConnErr_closedBy .rateLimited)
    exact ⟨⟨fun _ => trivial, fun _ => hfailed.1⟩, hfailed.2⟩

/-- **Step lemma**, for the loop. -/
theorem call_exact {s s' : CallerRun} {e : UatCallerLoop.Ev}
    (hacc : UatCallerRun.Accounted peer s) (hquiet : Quiet s) (hshows : Shows s)
    (hevent : FromRefuser (.call e))
    (hs : UatCallerRun.step (.submit task deadline contentType credential body) [] s (.call e) =
      some s') : RunExact s (.call e) s' := by
  rcases UatCallerRun.step_call hs with ⟨o, o', hstage, ho, rfl⟩ | ⟨c, c', hstage, hc, rfl⟩
  · rw [Quiet, hstage] at hquiet
    obtain ⟨hclosed, htask, houtcome⟩ := hquiet
    have hrecord := opening_step_record ho
    refine ⟨⟨fun _ c hc => (by cases hstage.symm.trans hc), fun _ => ⟨hshows.audit, trivial⟩⟩,
      fun err herr => ?_, by rw [hrecord]; exact htask, by rw [hrecord]; exact houtcome⟩
    cases e with
    | close err' =>
        obtain ⟨-, ho⟩ := Option.ite_none_right_eq_some.mp ho
        obtain rfl := Option.some.inj ho
        exact (Option.some.inj herr).symm.trans hevent
    | shutdown =>
        obtain rfl := Option.some.inj ho
        exact hclosed err herr
    | hookSend | hookDrop =>
        obtain ⟨-, ho⟩ := Option.ite_none_right_eq_some.mp ho
        obtain rfl := Option.some.inj ho
        exact hclosed err herr
    | _ => cases ho
  · obtain ⟨-, hidentity⟩ := hacc.alive c.record (isLost c) (by rw [hstage]; rfl)
    rw [Quiet, hstage] at hquiet
    obtain ⟨hiff, hrefused⟩ := loop_step_exact hquiet.2 hevent hc hquiet.1
    have hemitted : c'.record.emitted = false :=
      congrArg Prod.fst ((loop_step_identity hc).trans hidentity)
    refine ⟨?_, settle_quiet hrefused⟩
    rw [settle_shows_iff hemitted hshows.audit, hiff]
    -- `Hears` speaks of the loop the task is in, and here that is `c`.
    constructor
    · intro hhears c₁ hc₁
      obtain rfl := Stage.looping.inj (hstage.symm.trans hc₁)
      exact hhears
    · exact fun hhears => hhears c hstage

/-- **The step lemma.**  From a state in which the refusal shows, a step keeps it so exactly
    when it hears the close. -/
theorem run_step_exact {s s' : CallerRun} {e : UatCallerRun.Ev}
    (hacc : UatCallerRun.Accounted peer s) (hquiet : Quiet s) (hshows : Shows s)
    (hevent : FromRefuser e)
    (hs : UatCallerRun.step (.submit task deadline contentType credential body) [] s e = some s') :
    RunExact s e s' := by
  cases e with
  | setup r => exact setup_exact hacc hquiet hshows hs
  | call e => exact call_exact hacc hquiet hshows hevent hs
  | guardJoined =>
      obtain ⟨record, lost, result, hstage, rfl⟩ := UatCallerRun.step_joined hs
      obtain ⟨-, hidentity⟩ := hacc.alive record lost (by rw [hstage]; rfl)
      have hemitted : record.emitted = false := congrArg Prod.fst hidentity
      have hpending := hshows.pending
      rw [hstage] at hpending
      refine ⟨⟨fun _ => trivial, fun _ => ?_⟩, trivial⟩
      refine finish_shows ?_ hshows.audit trivial (hpending hemitted)
      exact (congrArg Prod.fst (observeResult_identity record result)).trans hemitted
  | drop =>
      obtain ⟨record, lost, hguard, rfl⟩ := UatCallerRun.step_dropped hs
      obtain ⟨-, hidentity⟩ := hacc.alive record lost hguard
      have hemitted : record.emitted = false := congrArg Prod.fst hidentity
      refine ⟨⟨fun hshows' record' hguard' => ?_, fun hhears => ?_⟩, trivial⟩
      · obtain ⟨rfl, rfl⟩ := Prod.mk.inj (Option.some.inj (hguard.symm.trans hguard'))
        exact shows_of_finish hemitted hshows' rfl
      · refine finish_shows hemitted hshows.audit trivial ?_
        rintro rfl
        exact hhears record hguard
  | unwound =>
      obtain ⟨record, lost, hstage, rfl⟩ := UatCallerRun.step_unwound hs
      obtain ⟨-, hidentity⟩ := hacc.alive record lost (by rw [hstage]; rfl)
      have hemitted : record.emitted = false := congrArg Prod.fst hidentity
      have hpending := hshows.pending
      rw [hstage] at hpending
      refine ⟨⟨fun _ => trivial, fun _ => ?_⟩, trivial⟩
      exact finish_shows hemitted hshows.audit trivial (hpending hemitted)

/-- The caller's run, as long as it hears the close. -/
structure Heard (peer : NodeId) (s : CallerRun) : Prop where
  accounted : UatCallerRun.Accounted peer s
  quiet : Quiet s
  shows : Shows s

/-- **Step lemma.** A run that hears the close audits the refusal. -/
theorem heard_step {s s' : CallerRun} {e : UatCallerRun.Ev} (h : Heard peer s) (hhears : Hears s e)
    (hevent : FromRefuser e)
    (hs : UatCallerRun.step (.submit task deadline contentType credential body) [] s e = some s') :
    Heard peer s' := by
  obtain ⟨hiff, hquiet⟩ := run_step_exact h.accounted h.quiet h.shows hevent hs
  exact ⟨step_accounted h.accounted hs, hquiet, hiff.mpr hhears⟩

/-- A refusal that does not show never will, unless the future is dropped. -/
theorem run_step_lost {s s' : CallerRun} {e : UatCallerRun.Ev} (hlost : ¬ Shows s)
    (hkept : e ≠ .drop)
    (hs : UatCallerRun.step (.submit task deadline contentType credential body) [] s e = some s') :
    ¬ Shows s' := by
  intro hshows'
  -- What had reached the sink before is still in it.
  have hold : ∀ {record : CallRecordGuard} {lost : Bool} {stage : Stage},
      s' = finish s.audit record lost stage →
        ∀ a ∈ s.audit, a.lost = true → ShowsRefusal a.record := by
    rintro record lost stage rfl a ha
    exact hshows'.audit a (List.mem_append_left _ ha)
  have hsame : s'.audit = s.audit → ∀ a ∈ s.audit, a.lost = true → ShowsRefusal a.record := by
    intro hsame a ha
    exact hshows'.audit a (hsame ▸ ha)
  apply hlost
  cases e with
  | setup r =>
      obtain ⟨o, hstage, hend⟩ := UatCallerRun.step_setup hs
      refine ⟨?_, by rw [hstage]; trivial⟩
      rcases hend with ⟨-, rfl⟩ | ⟨-, err, reason, rfl⟩
      · obtain ⟨lost, -, haudit⟩ := opened_guard o s
        exact hsame haudit
      · rw [Opening.failed] at hold
        split at hold <;> exact hold rfl
  | call e =>
      rcases UatCallerRun.step_call hs with ⟨o, o', hstage, -, rfl⟩ | ⟨c, c', hstage, -, rfl⟩
      · exact ⟨hsame rfl, by rw [hstage]; trivial⟩
      · obtain ⟨lost, -, haudit⟩ := settle_guard s c'
        exact ⟨hsame haudit, by rw [hstage]; trivial⟩
  | guardJoined =>
      obtain ⟨record, lost, result, hstage, rfl⟩ := UatCallerRun.step_joined hs
      refine ⟨hold rfl, ?_⟩
      rw [hstage]
      intro hemitted
      refine shows_of_finish ?_ hshows'
      exact (congrArg Prod.fst (observeResult_identity record result)).trans hemitted
  | drop => exact absurd rfl hkept
  | unwound =>
      obtain ⟨record, lost, hstage, rfl⟩ := UatCallerRun.step_unwound hs
      refine ⟨hold rfl, ?_⟩
      rw [hstage]
      exact fun hemitted => shows_of_finish hemitted hshows'

end

section

variable [Base64Engine] {submit : Message} {closed : Option ConnectionError}

/-- The start of a call that is a `Submit`. -/
theorem start_shows (peer : NodeId) (requestCancel : Option Hook) (hsubmit : isSubmit submit = true)
    (hclosed : ∀ err, closed = some err → err = closedBy .rateLimited) :
    Shows (runCallerWith peer submit requestCancel closed) ∧
      Quiet (runCallerWith peer submit requestCancel closed) := by
  cases submit with
  | submit task deadline contentType credential body =>
      exact ⟨⟨fun _ h => (by cases h), trivial⟩, hclosed, rfl, rfl⟩
  | _ => cases hsubmit

variable [text : JsonText] {peer : NodeId} {requestCancel : Option Hook}

/-- A call that is none ends before it starts: the refusal shows if it was not there yet. -/
theorem not_submit_audited (refused : CallRecord) {es : List UatCallerRun.Ev} {s : CallerRun}
    (hsubmit : isSubmit submit = false)
    (hrun : runFrom (UatCallerRun.step submit []) (runCallerWith peer submit requestCancel closed)
      es = some s) :
    (RefusalAudited refused s ↔ closed = none) ∧
      EveryStep (UatCallerRun.step submit []) Hears
        (runCallerWith peer submit requestCancel closed) es := by
  obtain ⟨record, hstart, houtcome⟩ : ∃ record : CallRecord,
      runCallerWith peer submit requestCancel closed =
        ⟨.returned (.error .illegal), [⟨record, closed.isSome⟩]⟩ ∧
      record.outcome = .closed .protocolViolation := by
    cases submit with
    | submit task deadline contentType credential body => cases hsubmit
    | _ => exact ⟨_, rfl, rfl⟩
  rw [hstart] at hrun ⊢
  cases es with
  | cons e es =>
      obtain ⟨s', hs, -⟩ := runFrom_cons.mp hrun
      cases e <;> cases hs
  | nil =>
      obtain rfl := Option.some.inj hrun
      refine ⟨⟨fun haudited => ?_, ?_⟩, trivial⟩
      -- `Closed(ProtocolViolation)` is what the record says, never the refusal.
      · refine Option.not_isSome_iff_eq_none.mp fun hlost => ?_
        have hsame := (haudited _ (List.mem_singleton_self _) hlost).outcome
        cases houtcome.symm.trans hsame
      · rintro rfl a ha hlost
        obtain rfl := List.mem_singleton.mp ha
        cases hlost

/-- **A REFUSAL IS AUDITED ALIKE ON BOTH ENDS, EXACTLY.**  For every connection the handler
    refuses for its rate and every run of the caller against it: if every step hears the
    close, the caller's record shows the refusal when it has reached the caller; and in a
    run that is not cut short by a drop, only then. -/
theorem refusal_audited_alike_iff {Key : Type} (policy : Policy Key) (verified : Bool)
    (limiter : RateLimiter) (caller : NodeId) (now : Instant) (spent : MemorySpentSet)
    (refused : CallRecord)
    (hrefused : (handleIncoming policy verified limiter caller now spent).1 =
      .refused .rateLimited refused)
    (peer : NodeId) (submit : Message) (requestCancel : Option Hook)
    (closed : Option ConnectionError)
    (hclosed : ∀ err, closed = some err → err = closedBy .rateLimited)
    (es : List UatCallerRun.Ev) (s : CallerRun) (hevents : ∀ e ∈ es, FromRefuser e)
    (hrun : runFrom (UatCallerRun.step submit []) (runCallerWith peer submit requestCancel closed)
      es = some s) :
    ((isSubmit submit = true ∨ closed = none) ∧
        EveryStep (UatCallerRun.step submit []) Hears
          (runCallerWith peer submit requestCancel closed) es →
      RefusalAudited refused s) ∧
    ((∀ e ∈ es, e ≠ .drop) → s.stage.over = true → RefusalAudited refused s →
      (isSubmit submit = true ∨ closed = none) ∧
        EveryStep (UatCallerRun.step submit []) Hears
          (runCallerWith peer submit requestCancel closed) es) := by
  obtain rfl := handleIncoming_overLimits hrefused
  cases hsubmit : isSubmit submit with
  | false =>
      obtain ⟨hiff, hhears⟩ := not_submit_audited (overLimits caller) hsubmit hrun
      refine ⟨?_, fun _ _ haudited => ⟨Or.inr (hiff.mp haudited), hhears⟩⟩
      rintro ⟨hno | hnone, -⟩
      · cases hno
      · exact hiff.mpr hnone
  | true =>
      obtain ⟨hshows, hquiet⟩ := start_shows peer requestCancel hsubmit hclosed
      have hacc := start_accounted peer submit requestCancel closed
      cases submit with
      | submit task deadline contentType credential body =>
          constructor
          · rintro ⟨-, hhears⟩
            refine refusalAudited_iff.mpr ?_
            exact (run_invariant_of (fun _ _ _ h hC hs => heard_step h hC.1 hC.2 hs) es _ s
              (Heard.mk hacc hquiet hshows) (hhears.and (everyStep_of_forall hevents))
              hrun).shows.audit
          · intro hkept hover haudited
            refine ⟨Or.inl rfl, ?_⟩
            -- The run is over, so no record is still to come.
            have hpending : Pending s.stage := by
              cases hstage : s.stage with
              | returned _ | dropped => trivial
              | _ => rw [hstage] at hover; cases hover
            have hiff : Shows s ↔ EveryStep
                (UatCallerRun.step (.submit task deadline contentType credential body) []) Hears
                (runCallerWith peer (.submit task deadline contentType credential body)
                  requestCancel closed) es := by
              refine run_exact (J := fun s => UatCallerRun.Accounted peer s ∧ Quiet s)
                (Q := fun e => FromRefuser e ∧ e ≠ .drop) ?_ ?_ es _ s
                (fun e he => ⟨hevents e he, hkept e he⟩) (And.intro hacc hquiet) hshows hrun
              · rintro s e s' ⟨hacc, hquiet⟩ hshows ⟨hevent, -⟩ hs
                obtain ⟨hiff, hquiet'⟩ := run_step_exact hacc hquiet hshows hevent hs
                exact ⟨hiff, fun _ => ⟨step_accounted hacc hs, hquiet'⟩⟩
              · rintro s e s' hlost ⟨-, hkept⟩ hs
                exact run_step_lost hlost hkept hs
            exact hiff.mp ⟨refusalAudited_iff.mp haudited, hpending⟩
      | _ => cases hsubmit

end

section

attribute [local instance] plainText compactJson noToken

/-- The callee's limits admit no call. -/
def refusedStranger : CallRecord := overLimits stranger

def submitOne : Message := .submit taskOne oneSecond plain none []

/-- The close arrives while the `Submit` is being written, and the write fails for it. -/
def closeFailsWrite : List UatCallerRun.Ev :=
  [.setup .opened, .call (.close (closedBy .rateLimited)), .call (.wrote (.failed .write)),
    .guardJoined]

/-- The close arrives during the write, and the write completes. -/
def closeAfterWrite : List UatCallerRun.Ev :=
  [.setup .opened, .call (.close (closedBy .rateLimited)), .call (.wrote .done), .guardJoined]

theorem refusal_audited_alike_iff_closeAfterWrite :
    ∃ s, runFrom (UatCallerRun.step submitOne []) (runCallerWith remote submitOne none none)
        closeAfterWrite = some s ∧ RefusalAudited refusedStranger s := by
  refine ⟨_, rfl, ?_⟩
  refine (refusal_audited_alike_iff oneRoot true (.new ⟨0, 0, 0⟩) stranger 0 .new refusedStranger
    rfl remote submitOne none none (by intro err h; cases h) closeAfterWrite _ ?_ rfl).1
      ⟨Or.inl rfl, ?_⟩
  · simp [closeAfterWrite, FromRefuser]
  · refine .cons trivial rfl <| .cons ?_ rfl <| .cons ?_ rfl <| .cons trivial rfl trivial
    · exact fun _ _ => trivial
    · exact fun _ _ _ => rfl

/-- What `set_outcome` recorded in the loop is overwritten with the error's outcome. -/
theorem refusal_hidden_by_failed_write :
    ¬ ∀ (limiter : RateLimiter) (caller : NodeId) (now : Instant) (refused : CallRecord),
      (handleIncoming oneRoot true limiter caller now .new).1 = .refused .rateLimited refused →
      ∀ (peer : NodeId) (submit : Message) (es : List UatCallerRun.Ev) (s : CallerRun),
        (∀ e ∈ es, FromRefuser e) →
        runFrom (UatCallerRun.step submit []) (runCallerWith peer submit none none) es = some s →
        RefusalAudited refused s := by
  intro h
  have haudited := h (.new ⟨0, 0, 0⟩) stranger 0 refusedStranger rfl remote submitOne
    closeFailsWrite _ ?_ rfl _ (List.mem_singleton_self _) rfl
  · cases haudited.outcome
  · simp [closeFailsWrite, FromRefuser]

end

end UatAudit
