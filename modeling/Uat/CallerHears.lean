import Uat.TwoParty
import Uat.CallerRun
import Uat.Wire

/-! # What the caller has heard

    A verdict in the caller's record is one its loop returned, and the loop returns only
    what it has read from the callee, with the task of its own `Submit`.

    `loop_step_kept` is the step of `caller_loop`, `caller_knows` that of the task. -/

namespace UatCallerHears

open UatTypes UatState UatCodec UatHeader UatStream UatRecvStream UatRecord
open UatCallerLoop (Caller Hook WriteEnd callerLoop)
open UatCallerRun (CallerRun Opening Stage runCallerWith finish isLost)
open UatTwoParty (verdict IsVerdict ends_iff_verdict)
open UatWire Checked StepRun

/-- Of the errors only shutdown and a refusal are recorded as verdicts. -/
theorem outcomeFromCallError_verdict {err : CallError} (h : IsVerdict (outcomeFromCallError err)) :
    err = .cancelled ∨ err = .unauthorized := by
  rcases outcomeFromCallError_cases err with ⟨herr, -⟩ | ⟨herr, -⟩ | herr | ⟨code, -, herr⟩
  · exact Or.inl herr
  · exact Or.inr herr
  · rw [herr] at h
    exact h.elim
  · rw [herr] at h
    exact h.elim

section

variable [Base64Engine]

/-! ## In the loop -/

/-- A result that is a verdict was read from the callee, and the record has the task. -/
structure Says (task : TaskId) (told : List Message) (record : CallRecordGuard)
    (result : Except CallError Outcome) : Prop where
  granted : result ≠ .error .unauthorized
  heard : ∀ o, result = .ok o → IsVerdict o →
    (∃ m ∈ told, verdict m = some o) ∧ record.record.task = some task

/-- **The caller's invariant** in its loop. -/
structure Hears (task : TaskId) (told : List Message) (c : Caller) : Prop where
  same : c.task = task
  live : c.await.running = true → c.state.isTerminal = false
  tasked : c.await.running = true → c.await = .writeSubmit ∨ c.record.record.task = some task
  unsaid : ¬ IsVerdict c.record.record.outcome
  returned : ∀ result, c.await = .returned result → Says task told c.record result
  part : ∀ read, c.await = .select read → read.Partial

/-- The bytes the caller can still read, with those its read has taken. -/
def inFront (c : Caller) : Bytes := c.await.held ++ c.recv.arrived ++ c.inFlight

section

variable {task : TaskId} {told : List Message} {c : Caller}

/-- An error is no verdict, unless it is a refusal. -/
theorem says_error {record : CallRecordGuard} {err : CallError} (h : err ≠ .unauthorized) :
    Says task told record (.error err) := by
  refine ⟨fun herr => h (Except.error.inj herr), fun o ho => ?_⟩
  cases ho

/-- An outcome that is no verdict needs no message. -/
theorem says_ok {record : CallRecordGuard} {o : Outcome} (h : ¬ IsVerdict o) :
    Says task told record (.ok o) := by
  refine ⟨(by intro h; cases h), fun o' ho hv => ?_⟩
  cases ho
  exact absurd hv h

/-- A loop that has stopped is judged by its result alone. -/
theorem hears_of_stopped (hsame : c.task = task) (hunsaid : ¬ IsVerdict c.record.record.outcome)
    (hstopped : c.await.running = false)
    (hreturned : ∀ result, c.await = .returned result → Says task told c.record result) :
    Hears task told c := by
  have hrun : c.await.running ≠ true := Bool.eq_false_iff.mp hstopped
  refine ⟨hsame, fun h => absurd h hrun, fun h => absurd h hrun, hunsaid, hreturned,
    fun read hread => ?_⟩
  rw [hread] at hrun
  exact absurd rfl hrun

/-- A loop at its first write. -/
theorem fresh_hears (hsame : c.task = task) (hunsaid : ¬ IsVerdict c.record.record.outcome)
    (hawait : c.await = .writeSubmit) (hlive : c.state.isTerminal = false) :
    Hears task told c := by
  refine ⟨hsame, fun _ => hlive, fun _ => Or.inl hawait, hunsaid, fun result h => ?_,
    fun read h => ?_⟩
  · cases hawait.symm.trans h
  · cases hawait.symm.trans h

/-- Returning a result that was heard. -/
theorem ret_hears (hsame : c.task = task) (hunsaid : ¬ IsVerdict c.record.record.outcome)
    {result : Except CallError Outcome} (hresult : Says task told c.record result) :
    Hears task told (c.ret result) := by
  refine hears_of_stopped hsame hunsaid rfl fun result' h => ?_
  cases h
  exact hresult

theorem closeOnFrameErr_ret_hears (hsame : c.task = task)
    (hunsaid : ¬ IsVerdict c.record.record.outcome) (err : FrameIoError) :
    Hears task told ((c.closeOnFrameErr err).ret (.error (.frame err))) := by
  have hresult : ∀ record, Says task told record (.error (.frame err)) := fun _ =>
    says_error (by intro h; cases h)
  rw [Caller.closeOnFrameErr]
  cases err.closeCode with
  | none => exact ret_hears hsame hunsaid (hresult _)
  | some code => exact ret_hears (c := c.closeWith code) hsame hunsaid (hresult _)

theorem writeFailed_hears (hsame : c.task = task) (hunsaid : ¬ IsVerdict c.record.record.outcome)
    {err : CallError} {w : WriteEnd} (hw : w.result = .error err) :
    Hears task told (c.writeFailed err) := by
  cases w with
  | done => cases hw
  | failed fe =>
      cases hw
      exact closeOnFrameErr_ret_hears hsame hunsaid fe
  | timedOut =>
      cases hw
      exact ret_hears hsame hunsaid (says_error (by intro h; cases h))

/-- The top of the loop: a terminal state is one the caller was told. -/
theorem loopTop_hears (hsame : c.task = task) (hunsaid : ¬ IsVerdict c.record.record.outcome)
    (htask : c.record.record.task = some task)
    (hstate : ∀ o, c.state = .terminal o → ∃ m ∈ told, verdict m = some o) :
    Hears task told c.loopTop := by
  rw [Caller.loopTop]
  cases hc : c.state with
  | terminal o =>
      refine ret_hears (c := c.closeWith .normal) hsame hunsaid
        ⟨(by intro h; cases h), fun o' ho' _ => ?_⟩
      cases ho'
      exact ⟨hstate o hc, htask⟩
  | _ =>
      refine ⟨hsame, fun _ => rfl, fun _ => Or.inr htask, hunsaid, (by intro r h; cases h),
        fun read h => ?_⟩
      cases h
      exact Nat.zero_le 4

/-- Before the call has ended the loop goes on. -/
theorem loopTop_live (hsame : c.task = task) (hunsaid : ¬ IsVerdict c.record.record.outcome)
    (htask : c.record.record.task = some task) (hlive : c.state.isTerminal = false) :
    Hears task told c.loopTop := by
  refine loopTop_hears hsame hunsaid htask fun o ho => ?_
  rw [ho] at hlive
  cases hlive

/-- Past the first write the record has the task. -/
theorem Hears.task_known (h : Hears task told c) (hrun : c.await.running = true)
    (hlater : c.await ≠ .writeSubmit) : c.record.record.task = some task :=
  (h.tasked hrun).resolve_left hlater

/-- Behind the `Submit` the record has the task, or the loop has ended without a verdict. -/
theorem submitWritten_hears (h : Hears task told c) (hawait : c.await = .writeSubmit)
    (w : WriteEnd) : Hears task told (c.submitWritten w) := by
  have hlive : c.state.isTerminal = false := h.live (by rw [hawait]; rfl)
  rw [Caller.submitWritten]
  cases hw : w.result with
  | error err =>
      dsimp only
      split
      · exact ret_hears (c := { c with record := c.record.clearTask.setOutcome _ }) h.same id
          (says_error (by intro h; cases h))
      · exact writeFailed_hears h.same h.unsaid hw
  | ok _ =>
      dsimp only
      split
      · exact ret_hears (c := { c with record := c.record.clearTask.setOutcome _ }) h.same id
          (says_ok id)
      · exact loopTop_live (c := { c with record := c.record.setTask c.task }) h.same h.unsaid
          (congrArg some h.same) hlive

/-- Behind the `Cancel` the loop goes on, or has ended without a verdict. -/
theorem cancelWritten_hears (h : Hears task told c) (hawait : c.await = .writeCancel)
    (w : WriteEnd) : Hears task told (c.cancelWritten w) := by
  have hrun : c.await.running = true := by rw [hawait]; rfl
  have hlive := h.live hrun
  have htask := h.task_known hrun (by rw [hawait]; intro h; cases h)
  rw [Caller.cancelWritten]
  cases hw : w.result with
  | error err => exact writeFailed_hears h.same h.unsaid hw
  | ok _ => exact loopTop_live h.same h.unsaid htask hlive

/-- The caller's own deadline closes the call, with no verdict. -/
theorem onTimer_hears (h : Hears task told c) (hlive : c.state.isTerminal = false) :
    Hears task told c.onTimer := by
  rw [Caller.onTimer]
  rw [callerStep_timeout hlive]
  exact ret_hears (c := Caller.closeWith { c with state := .terminal (.closed .timeout) } .timeout)
    h.same h.unsaid (says_ok id)

theorem connLost_hears (hsame : c.task = task) (hunsaid : ¬ IsVerdict c.record.record.outcome)
    (hlive : c.state.isTerminal = false) (code : CloseCode) :
    Hears task told (c.connLost code) := by
  rw [Caller.connLost]
  rw [callerStep_connLost hlive]
  dsimp only [go_state]
  rw [connLostOutcomeCaller]
  by_cases hnormal : code = .normal
  · rw [if_pos hnormal]
    exact ret_hears hsame hunsaid (says_ok id)
  · rw [if_neg hnormal]
    exact ret_hears hsame hunsaid (says_ok id)

theorem onClosed_hears (h : Hears task told c) (hlive : c.state.isTerminal = false)
    (err : ConnectionError) : Hears task told (c.onClosed err) := by
  rw [Caller.onClosed]
  split
  · exact connLost_hears (c := { c with record := c.record.clearTask }) h.same h.unsaid hlive _
  · exact connLost_hears h.same h.unsaid hlive _

/-- A request to cancel brings no verdict; it begins a write. -/
theorem onCancelReq_hears (h : Hears task told c) (htask : c.record.record.task = some task) :
    Hears task told c.onCancelReq := by
  rw [Caller.onCancelReq]
  dsimp only
  cases hstep : callerStep c.state (.send .cancel) with
  | error _ =>
      exact ret_hears (c := Caller.closeWith { c with requestCancel := none } .protocolViolation)
        h.same h.unsaid (says_error (by intro h; cases h))
  | ok st =>
      have hstate : st.state.isTerminal = false := by
        rcases callerStep_send hstep with ⟨-, ⟨t, d, ct, cr, b, hm⟩, -⟩ | ⟨-, -, rfl⟩ |
          ⟨-, ⟨b, hm⟩, -⟩
        · cases hm
        · rfl
        · cases hm
      exact ⟨h.same, fun _ => hstate, fun _ => Or.inr htask, h.unsaid, (by intro r h; cases h),
        (by intro r h; cases h)⟩

/-- A verdict that is read was told. -/
theorem onRead_hears (h : Hears task told c) (htask : c.record.record.task = some task)
    {r : Exec FrameIoError Message} (hr : ∀ m, r = .ok m → m ∈ told) :
    Hears task told (c.onRead r) := by
  match r with
  | .ok m =>
      rw [Caller.onRead]
      dsimp only
      cases hstep : callerStep c.state (.recv m) with
      | error _ =>
          exact ret_hears
            (c := Caller.closeWith { c with handed := c.handed ++ [m] } .protocolViolation)
            h.same h.unsaid (says_error (by intro h; cases h))
      | ok st =>
          refine loopTop_hears (c := { c with handed := c.handed ++ [m], state := st.state }) h.same
            h.unsaid htask fun o ho => ?_
          exact ⟨m, hr m rfl, (ends_iff_verdict hstep).mp ho⟩
  | .error (.err err) =>
      exact closeOnFrameErr_ret_hears (c := { c with readError := some err }) h.same h.unsaid err
  | .error .panic => exact hears_of_stopped h.same h.unsaid rfl (by intro r h; cases h)

/-! ### One step of the caller's loop -/

/-- A step that leaves the stream alone holds no byte of it. -/
theorem front_of_quiet {c' : Caller} (hq : UatCallerLoop.Quiet c c') :
    inFront c' = c.recv.arrived ++ c.inFlight := by
  rw [inFront]
  rw [hq.held, hq.recv, hq.inFlight, List.nil_append]

/-- A message read is no longer in front of the caller. -/
theorem onRead_message_front (m : Message) :
    inFront (c.onRead (.ok m)) = c.recv.arrived ++ c.inFlight := by
  rw [Caller.onRead]
  dsimp only
  cases callerStep c.state (.recv m) with
  | ok st =>
      exact front_of_quiet (c := { c with handed := c.handed ++ [m], state := st.state })
        (UatCallerLoop.loopTop_quiet _)
  | error _ =>
      exact front_of_quiet
        (c := Caller.closeWith { c with handed := c.handed ++ [m] } .protocolViolation)
        (UatCallerLoop.ret_quiet _ _)

variable [text : JsonText] {begun : List Message} {missing : Bytes}

/-- What is left of the stream, a quiet step leaves well formed. -/
theorem wire_of_quiet {c' : Caller} (hq : UatCallerLoop.Quiet c c')
    (hwire : Wire begun missing (inFront c)) : Wire begun missing (inFront c') := by
  rw [inFront] at hwire
  rw [List.append_assoc] at hwire
  rw [front_of_quiet hq]
  exact hwire.drop

/-- What one step keeps of the caller: its invariant, and what it has in front of it as
    long as it reads. -/
def Kept (task : TaskId) (told begun : List Message) (missing : Bytes) (c : Caller) : Prop :=
  Hears task told c ∧ (c.await.running = true → Wire begun missing (inFront c))

/-- **The read branch** takes a message the callee has told, or keeps its bytes. -/
theorem pollRead_hears {read : ReadFrame} (h : Hears task told c) (hbudget : begun.length ≤ 3)
    (hcomplete : Complete told begun missing) (hwire : Wire begun missing (inFront c))
    (hawait : c.await = .select read) (htask : c.record.record.task = some task)
    (expired : Bool) : Kept task told begun missing (c.pollRead read expired) := by
  have hrun : c.await.running = true := by rw [hawait]; rfl
  rw [inFront] at hwire
  rw [hawait] at hwire
  have hreads := pollMessage_wire (h.part read hawait) hbudget hcomplete hwire
  have hrecv : ∀ recv : RecvStream, Hears task told { c with recv := recv } := fun _ =>
    ⟨h.same, h.live, h.tasked, h.unsaid, h.returned, h.part⟩
  rw [Caller.pollRead]
  generalize pollMessage read c.recv = polled at hreads ⊢
  cases hreads with
  | @message m recv htold hwire' =>
      refine ⟨onRead_hears (hrecv recv) htask fun m' hm' => ?_, fun _ => ?_⟩
      · cases hm'
        exact htold
      · rw [onRead_message_front]
        exact hwire'
  | @waits read' recv hpart hwire' =>
      cases expired with
      | true =>
          exact ⟨ret_hears (c := Caller.closeWith { c with recv := recv } .timeout) h.same h.unsaid
            (says_ok id), (by intro h; cases h)⟩
      | false =>
          refine ⟨⟨h.same, fun _ => h.live hrun, fun _ => Or.inr htask, h.unsaid,
            (by intro r h; cases h),
            fun read'' hread => ?_⟩, fun _ => hwire'⟩
          cases hread
          exact hpart
  | fails fault recv =>
      refine ⟨onRead_hears (hrecv recv) htask (by intro m h; cases h), fun hrunning => ?_⟩
      -- Every branch behind an error stops the loop.
      cases fault with
      | panic => cases hrunning
      | err err =>
          simp only [Caller.onRead, Caller.closeOnFrameErr] at hrunning
          cases hcode : err.closeCode with
          | none => rw [hcode] at hrunning; cases hrunning
          | some code => rw [hcode] at hrunning; cases hrunning

/-- **One poll of the `select`.** -/
theorem pollSelect_hears {read : ReadFrame} (h : Hears task told c) (hbudget : begun.length ≤ 3)
    (hcomplete : Complete told begun missing) (hwire : Wire begun missing (inFront c))
    (hawait : c.await = .select read) (expired : Bool) :
    Kept task told begun missing (c.pollSelect read expired) := by
  have hrun : c.await.running = true := by rw [hawait]; rfl
  have hlive := h.live hrun
  have htask := h.task_known hrun (by rw [hawait]; intro h; cases h)
  -- Every branch but the read leaves the stream alone, apart from the bytes that the
  -- dropped read future had taken.
  have hquiet : ∀ {c' : Caller}, UatCallerLoop.Quiet c c' → Hears task told c' →
      Kept task told begun missing c' := fun hq hh => ⟨hh, fun _ => wire_of_quiet hq hwire⟩
  rw [Caller.pollSelect]
  split
  · have hsays : Says task told c.record (.error .cancelled) := says_error (by intro h; cases h)
    exact hquiet (UatCallerLoop.ret_quiet _ _) (ret_hears h.same h.unsaid hsays)
  split
  · exact hquiet (UatCallerLoop.onTimer_quiet c).1 (onTimer_hears h hlive)
  split
  · next err _ => exact hquiet (UatCallerLoop.onClosed_quiet c err).1 (onClosed_hears h hlive err)
  split
  · next hhook => exact hquiet (UatCallerLoop.onCancelReq_quiet hhook) (onCancelReq_hears h htask)
  · refine hquiet ((UatCallerLoop.loopTop_quiet _).of_eq rfl rfl rfl rfl fun _ => rfl) ?_
    exact loopTop_live (c := { c with requestCancel := some .resolved }) h.same h.unsaid htask hlive
  · exact ⟨hears_of_stopped h.same h.unsaid rfl (by intro r h; cases h), (by intro h; cases h)⟩
  · exact pollRead_hears h hbudget hcomplete hwire hawait htask expired
  · exact pollRead_hears h hbudget hcomplete hwire hawait htask expired

/-- What the environment does moves bytes and sets flags. -/
theorem kept_of_environment {c' : Caller} (h : Hears task told c)
    (hwire : Wire begun missing (inFront c)) (hsame : c'.task = c.task)
    (hstate : c'.state = c.state)
    (hrecord : c'.record = c.record) (hawait : c'.await = c.await)
    (hbytes : c'.recv.arrived ++ c'.inFlight = c.recv.arrived ++ c.inFlight) :
    Kept task told begun missing c' := by
  refine ⟨⟨hsame.trans h.same, ?_, ?_, ?_, ?_, ?_⟩, fun _ => hwire.more ?_⟩
  · rw [hawait, hstate]
    exact h.live
  · rw [hawait, hrecord]
    exact h.tasked
  · rw [hrecord]
    exact h.unsaid
  · rw [hawait, hrecord]
    exact h.returned
  · rw [hawait]
    exact h.part
  · have hfront : inFront c' = inFront c := by
      simp only [inFront]
      rw [hawait, List.append_assoc, hbytes, List.append_assoc]
    rw [hfront]

/-- **One step of the loop.** -/
theorem loop_step_kept {e : UatCallerLoop.Ev} {c' : Caller} (h : Hears task told c)
    (hbudget : begun.length ≤ 3) (hcomplete : Complete told begun missing)
    (hwire : Wire begun missing (inFront c)) (hs : UatCallerLoop.step c e = some c') :
    Kept task told begun missing c' := by
  cases e with
  | arrive n =>
      obtain ⟨-, hs⟩ := Option.ite_none_right_eq_some.mp hs
      obtain rfl := Option.some.inj hs
      refine kept_of_environment h hwire rfl rfl rfl rfl ?_
      rw [List.append_assoc, List.take_append_drop]
  | finish | lose | close err | hookSend | hookDrop =>
      obtain ⟨-, hs⟩ := Option.ite_none_right_eq_some.mp hs
      obtain rfl := Option.some.inj hs
      exact kept_of_environment h hwire rfl rfl rfl rfl rfl
  | shutdown | timer =>
      obtain rfl := Option.some.inj hs
      exact kept_of_environment h hwire rfl rfl rfl rfl rfl
  | wrote w =>
      rcases UatCallerLoop.step_wrote hs with ⟨hawait, rfl⟩ | ⟨hawait, rfl⟩
      · exact ⟨submitWritten_hears h hawait w,
          fun _ => wire_of_quiet (UatCallerLoop.submitWritten_quiet c w) hwire⟩
      · exact ⟨cancelWritten_hears h hawait w,
          fun _ => wire_of_quiet (UatCallerLoop.cancelWritten_quiet c w) hwire⟩
  | poll expired =>
      obtain ⟨read, hawait, rfl⟩ := UatCallerLoop.step_poll hs
      exact pollSelect_hears h hbudget hcomplete hwire hawait expired

end

/-! ### One step of the caller's task -/

/-- What the caller knows, by where its task is. -/
def KnowsAt (task : TaskId) (told : List Message) : Stage → Prop
  | .openBi o => ¬ IsVerdict o.record.record.outcome
  | .looping c => c.await.running = true ∧ Hears task told c
  | .joinGuard record _ result =>
      ¬ IsVerdict record.record.outcome ∧ Says task told record result
  | .unwinding record _ => ¬ IsVerdict record.record.outcome
  | .returned _ | .dropped => True

/-- **The caller's side.**  A verdict in the sink was told by the callee, and stands there with
    the task, unless the task ended by its own shutdown. -/
structure Knows (task : TaskId) (told : List Message) (s : CallerRun) : Prop where
  stage : KnowsAt task told s.stage
  audit : ∀ a ∈ s.audit, IsVerdict a.record.outcome → s.stage ≠ .returned (.error .cancelled) →
    (∃ m ∈ told, verdict m = some a.record.outcome) ∧ a.record.task = some task

/-- The bytes that a loop which is still reading has in front of it. -/
def stageFront : Stage → Bytes
  | .looping c => inFront c
  | _ => []

section

variable {task : TaskId} {told : List Message}

/-- More may be told. -/
theorem Says.grow {record : CallRecordGuard} {result : Except CallError Outcome}
    (h : Says task told record result) (more : List Message) :
    Says task (told ++ more) record result := by
  refine ⟨h.granted, fun o ho hv => ?_⟩
  obtain ⟨⟨m, hm, hmo⟩, htask⟩ := h.heard o ho hv
  exact ⟨⟨m, List.mem_append_left more hm, hmo⟩, htask⟩

/-- More may be told. -/
theorem Knows.grow {s : CallerRun} (h : Knows task told s) (more : List Message) :
    Knows task (told ++ more) s := by
  refine ⟨?_, fun a ha hv hstage => ?_⟩
  · have hstage := h.stage
    cases hs : s.stage with
    | looping c =>
        rw [hs] at hstage
        obtain ⟨hrun, hears⟩ := hstage
        exact ⟨hrun, hears.same, hears.live, hears.tasked, hears.unsaid,
          fun result hr => (hears.returned result hr).grow more, hears.part⟩
    | joinGuard record lost result =>
        rw [hs] at hstage
        exact ⟨hstage.1, hstage.2.grow more⟩
    | openBi o | unwinding record lost =>
        rw [hs] at hstage
        exact hstage
    | returned result | dropped => trivial
  · obtain ⟨⟨m, hm, hmo⟩, htask⟩ := h.audit a ha hv hstage
    exact ⟨⟨m, List.mem_append_left more hm, hmo⟩, htask⟩

/-- A guard that is alive holds no verdict. -/
theorem KnowsAt.unsaid {stage : Stage} {record : CallRecordGuard} {lost : Bool}
    (h : KnowsAt task told stage) (hguard : stage.guard = some (record, lost)) :
    ¬ IsVerdict record.record.outcome := by
  cases stage with
  | looping c =>
      obtain ⟨rfl, -⟩ := Prod.mk.inj (Option.some.inj hguard)
      exact h.2.unsaid
  | joinGuard r l result =>
      obtain ⟨rfl, -⟩ := Prod.mk.inj (Option.some.inj hguard)
      exact h.1
  | openBi o | unwinding r l =>
      obtain ⟨rfl, -⟩ := Prod.mk.inj (Option.some.inj hguard)
      exact h
  | returned result | dropped => cases hguard

/-- The record that is emitted stands by what was told. -/
theorem finish_knows {record : CallRecordGuard} {lost : Bool} {stage : Stage}
    (hover : stage.over = true)
    (hrecord : IsVerdict record.record.outcome → stage ≠ .returned (.error .cancelled) →
      (∃ m ∈ told, verdict m = some record.record.outcome) ∧ record.record.task = some task) :
    Knows task told (finish [] record lost stage) ∧
      stageFront (finish [] record lost stage).stage = [] := by
  refine ⟨⟨?_, ?_⟩, ?_⟩
  · show KnowsAt task told stage
    cases stage with
    | returned result | dropped => trivial
    | _ => cases hover
  · intro a ha
    have hsame : a.record = record.record := by
      rw [finish, CallRecordGuard.emitNow] at ha
      split at ha
      · cases ha
      · obtain rfl := List.mem_singleton.mp ha
        rfl
    rw [hsame]
    exact hrecord
  · show stageFront stage = []
    cases stage with
    | returned result | dropped => rfl
    | _ => cases hover

/-- A record that is no verdict. -/
theorem finish_unsaid {record : CallRecordGuard} {lost : Bool} {stage : Stage}
    (hover : stage.over = true) (hunsaid : ¬ IsVerdict record.record.outcome) :
    Knows task told (finish [] record lost stage) ∧
      stageFront (finish [] record lost stage).stage = [] :=
  finish_knows hover fun hv => absurd hv hunsaid

/-- The result of the loop becomes the outcome of the record. -/
theorem guardJoined_knows {record : CallRecordGuard} {lost : Bool}
    {result : Except CallError Outcome} (hresult : Says task told record result) :
    Knows task told (finish [] (record.observeResult result) lost (.returned result)) ∧
      stageFront (finish [] (record.observeResult result) lost (.returned result)).stage = [] := by
  refine finish_knows rfl fun hv hstage => ?_
  cases result with
  | ok o => exact hresult.heard o rfl hv
  | error err =>
      rcases outcomeFromCallError_verdict hv with rfl | rfl
      · exact absurd rfl hstage
      · exact absurd rfl hresult.granted

end

section

variable [text : JsonText] {task : TaskId} {told begun : List Message} {missing : Bytes}

/-- Whatever the loop has come to, the call knows what the loop does. -/
theorem settle_knows {s : CallerRun} {c : Caller} (haudit : s.audit = [])
    (h : Kept task told begun missing c) (hgone : Wire begun missing []) :
    Knows task told (s.settle c) ∧ Wire begun missing (stageFront (s.settle c).stage) := by
  have hempty : ∀ a ∈ s.audit, IsVerdict a.record.outcome → ∀ stage : Stage,
      stage ≠ .returned (.error .cancelled) →
      (∃ m ∈ told, verdict m = some a.record.outcome) ∧ a.record.task = some task := by
    rw [haudit]
    exact fun _ ha => by cases ha
  obtain ⟨hears, hwire⟩ := h
  rw [CallerRun.settle]
  cases hawait : c.await with
  | returned result =>
      exact ⟨⟨⟨hears.unsaid, hears.returned result hawait⟩, fun a ha hv => hempty a ha hv _⟩, hgone⟩
  | panicked => exact ⟨⟨hears.unsaid, fun a ha hv => hempty a ha hv _⟩, hgone⟩
  | writeSubmit | select read | writeCancel =>
      have hrun : c.await.running = true := by rw [hawait]; rfl
      exact ⟨⟨⟨hrun, hears⟩, fun a ha hv => hempty a ha hv _⟩, hwire hrun⟩

/-- **The caller's task.**  Whatever it does, what it records as a verdict was told. -/
theorem caller_knows {deadline : Deadline} {contentType : ContentType}
    {credential : Option Credential} {body : Bytes} {calleeId : NodeId} {s s' : CallerRun}
    {e : UatCallerRun.Ev} (hacc : UatCallerRun.Accounted calleeId s) (h : Knows task told s)
    (hbudget : begun.length ≤ 3) (hcomplete : Complete told begun missing)
    (hwire : Wire begun missing (stageFront s.stage))
    (hs : UatCallerRun.step (.submit task deadline contentType credential body) [] s e = some s') :
    Knows task told s' ∧ Wire begun missing (stageFront s'.stage) := by
  have hgone := hwire.gone
  have hempty : ∀ record lost, s.stage.guard = some (record, lost) → s.audit = [] :=
    fun record lost hguard => (hacc.alive record lost hguard).1
  have hstage := h.stage
  -- A task that is over has nothing in front of it, and the wire need only be consistent.
  have hover : ∀ {s' : CallerRun}, Knows task told s' ∧ stageFront s'.stage = [] →
      Knows task told s' ∧ Wire begun missing (stageFront s'.stage) := by
    rintro s' ⟨hknows, hfront⟩
    rw [hfront]
    exact ⟨hknows, hgone⟩
  cases e with
  | setup r =>
      obtain ⟨o, hat, hend⟩ := UatCallerRun.step_setup hs
      have haudit := hempty o.record o.closed.isSome (by rw [hat]; rfl)
      rw [hat] at hstage
      rcases hend with ⟨-, rfl⟩ | ⟨-, err, reason, rfl⟩
      · refine ⟨⟨⟨rfl, fresh_hears rfl hstage rfl rfl⟩, fun a ha => ?_⟩, hgone⟩
        have hin : a ∈ s.audit := ha
        rw [haudit] at hin
        cases hin
      · -- What is recorded is a setup error or a close code, and neither is a verdict.
        refine hover ?_
        rw [Opening.failed, haudit]
        cases o.closed with
        | some closed => exact finish_unsaid rfl id
        | none => exact finish_unsaid rfl id
  | call e =>
      rcases UatCallerRun.step_call hs with ⟨o, o', hat, ho, rfl⟩ | ⟨c, c', hat, hc, rfl⟩
      · have haudit := hempty o.record o.closed.isSome (by rw [hat]; rfl)
        rw [hat] at hstage
        refine ⟨⟨?_, fun a ha => ?_⟩, hgone⟩
        · show ¬ IsVerdict o'.record.record.outcome
          rw [UatCallerRun.opening_step_record ho]
          exact hstage
        · rw [show a ∈ s.audit ↔ a ∈ [] from by rw [haudit]] at ha
          cases ha
      · have haudit := hempty c.record (isLost c) (by rw [hat]; rfl)
        rw [hat] at hstage hwire
        exact settle_knows haudit (loop_step_kept hstage.2 hbudget hcomplete hwire hc) hgone
  | guardJoined =>
      obtain ⟨record, lost, result, hat, rfl⟩ := UatCallerRun.step_joined hs
      have haudit := hempty record lost (by rw [hat]; rfl)
      rw [hat] at hstage
      rw [haudit]
      exact hover (guardJoined_knows hstage.2)
  | drop =>
      obtain ⟨record, lost, hguard, rfl⟩ := UatCallerRun.step_dropped hs
      rw [hempty record lost hguard]
      exact hover (finish_unsaid rfl (hstage.unsaid hguard))
  | unwound =>
      obtain ⟨record, lost, hat, rfl⟩ := UatCallerRun.step_unwound hs
      have hguard : s.stage.guard = some (record, lost) := by
        rw [hat]
        rfl
      rw [hempty record lost hguard]
      exact hover (finish_unsaid rfl (hstage.unsaid hguard))

end
end

end UatCallerHears
