import Uat.CalleeTells
import Uat.CallerHears

/-! # The two tasks of one call, and what their records say of each other

    `run_caller_with` and `run_callee_with` on one connection.  Each writes its frames in
    pieces and reads what has arrived, while the connection closes, timers and shutdown
    tokens fire and the cancel hook resolves at any moment.

    `verdicts_agree`: who records `Completed`, `Failed(code)` or `Canceled` as a caller has
    read that verdict, and the callee's record has the same outcome, and the same task
    unless it is a denial.  The one exception is a caller whose own node shuts down: it
    records `Canceled` whatever the callee does. -/

namespace UatCallRun

open UatTypes UatState UatPolicy UatVerify UatCodec UatHeader UatStream UatRecvStream UatRecord
open UatCallerLoop (Caller Hook WriteEnd callerLoop remote)
open UatAttenuation (plainText answeringNode epoch oneRoot)
open UatCallerRun (CallerRun Opening Stage runCallerWith finish isLost)
open UatCalleeRun (Callee CalleeBehavior runCalleeWith)
open UatAdmission (authorize_message)
open UatTwoParty (verdict IsVerdict)
open UatWire UatCalleeTells UatCallerHears Checked StepRun

section

variable [Base64Engine]

/-! ## The composition -/

/-- The message the caller is writing. -/
def callerWrites (submit : Message) : Stage → Option Message
  | .looping c =>
      match c.await with
      | .writeSubmit => some submit
      | .writeCancel => some .cancel
      | _ => none
  | _ => none

/-- Both tasks and the stream between them. -/
structure Call where
  caller : CallerRun
  callee : Callee
  /-- Bytes on their way to the callee; those to the caller are its `inFlight`. -/
  toCallee : Bytes
  /-- How much of the frame being written is on the stream. -/
  callerPut : Nat
  calleePut : Nat
  /-- The messages the callee has put on the stream whole. -/
  told : List Message

/-- The stream takes bytes for the caller, who reads them only in its loop. -/
def deliver (s : CallerRun) (bytes : Bytes) : CallerRun :=
  match s.stage with
  | .looping c => { s with stage := .looping { c with inFlight := c.inFlight ++ bytes } }
  | _ => s

/-- What can happen to the call: to either task, or to the stream between them. -/
inductive Ev where
  | caller (e : UatCallerRun.Ev)
  /-- The stream takes `n` more bytes of the frame the caller is writing, not all. -/
  | callerPuts (n : Nat)
  | callerWrote (w : WriteEnd)
  | callee (e : UatCalleeRun.Ev)
  | calleePuts (n : Nat)
  | calleeWrote (w : WriteEnd)
  /-- The next `n` bytes arrive. -/
  | calleeGets (n : Nat)

/-- The end of a write belongs to the stream. -/
def callerOwn : UatCallerRun.Ev → Bool
  | .call (.wrote _) => false
  | _ => true

section

variable [text : JsonText]

/-- The frame a message is written as, if it fits one. -/
def frameFor (m : Message) : Option Bytes := (encode toVec m []).toOption

/-- The bytes that reach the stream at the end of a write. -/
def lastBytes (m : Message) (put : Nat) : WriteEnd → Option Bytes
  | .done => (frameFor m).map fun frame => frame.drop put
  | _ => some []

variable {Key : Type} [BiscuitEngine Key] (policy : Policy Key) (callerId calleeId : NodeId)
  (behavior : CalleeBehavior) (submit : Message)

/-- One step of the call. -/
def step (s : Call) : Ev → Option Call
  | .caller e =>
      if callerOwn e then
        (UatCallerRun.step submit [] s.caller e).map fun caller => { s with caller := caller }
      else none
  | .callerPuts n => do
      let m ← callerWrites submit s.caller.stage
      let frame ← frameFor m
      if s.callerPut + n < frame.length then
        some { s with
          toCallee := s.toCallee ++ (frame.drop s.callerPut).take n
          callerPut := s.callerPut + n }
      else none
  | .callerWrote w => do
      let m ← callerWrites submit s.caller.stage
      let bytes ← lastBytes m s.callerPut w
      let caller ← UatCallerRun.step submit [] s.caller (.call (.wrote w))
      some { s with caller := caller, toCallee := s.toCallee ++ bytes, callerPut := 0 }
  | .callee e =>
      if calleeOwn s.callee e then
        (UatCalleeRun.step policy callerId behavior s.callee e).map
          fun callee => { s with callee := callee }
      else none
  | .calleePuts n => do
      let m ← calleeWrites s.callee.await
      let frame ← frameFor m
      if s.calleePut + n < frame.length then
        some { s with
          caller := deliver s.caller ((frame.drop s.calleePut).take n)
          calleePut := s.calleePut + n }
      else none
  | .calleeWrote w => do
      let m ← calleeWrites s.callee.await
      let bytes ← lastBytes m s.calleePut w
      let callee ← UatCalleeRun.step policy callerId behavior s.callee (.wrote w)
      some { s with
        caller := deliver s.caller bytes
        callee := callee
        calleePut := 0
        told := s.told ++ toldBy m w }
  | .calleeGets n =>
      if n ≤ s.toCallee.length then
        (UatCalleeRun.step policy callerId behavior s.callee (.arrive (s.toCallee.take n))).map
          fun callee => { s with callee := callee, toCallee := s.toCallee.drop n }
      else none

/-- The connection is established; `closed` is `conn.close_reason()` on the caller's side. -/
def start (requestCancel : Option Hook) (closed : Option ConnectionError)
    (spent : MemorySpentSet) : Call :=
  ⟨runCallerWith calleeId submit requestCancel closed, runCalleeWith policy callerId spent, [],
    0, 0, []⟩

end

/-! ## The property -/

/-- **The property, as it is wanted.**  A verdict in the caller's record is in the callee's,
    with the same task. -/
def RecordsAgree (s : Call) : Prop :=
  ∀ a ∈ s.caller.audit, IsVerdict a.record.outcome →
    ∀ b ∈ s.callee.audit, b.record.outcome = a.record.outcome ∧ b.record.task = a.record.task

/-- **The property, as it holds.**  The caller's own shutdown is no verdict, and a callee
    that denied the `Submit` may have recorded another task. -/
def VerdictsAgree (s : Call) : Prop :=
  ∀ a ∈ s.caller.audit, IsVerdict a.record.outcome →
    s.caller.stage ≠ .returned (.error .cancelled) →
    ∀ b ∈ s.callee.audit, b.record.outcome = a.record.outcome ∧
      ((∀ reason, b.record.authorization ≠ .denied reason) → b.record.task = a.record.task)

/-! ## The first frame

    While the callee waits for its first frame, all the caller has put on the stream is
    still there: a part of the frame of its `Submit`, or that frame and what follows. -/

/-- Where the loop is after a poll: never back at its first write. -/
theorem loopTop_await (c : Caller) : c.loopTop.await ≠ .writeSubmit := by
  rw [Caller.loopTop]
  cases c.state <;> (intro h; cases h)

/-- A loop that has read is past the `Submit`. -/
theorem onRead_await (c : Caller) (r : Exec FrameIoError Message) :
    (c.onRead r).await ≠ .writeSubmit := by
  match r with
  | .ok m =>
      rw [Caller.onRead]
      dsimp only
      cases callerStep c.state (.recv m) with
      | ok st => exact loopTop_await _
      | error _ =>
          intro h
          cases h
  | .error (.err err) =>
      intro h
      cases h
  | .error .panic =>
      intro h
      cases h

theorem submitWritten_await (c : Caller) : (c.submitWritten .done).await ≠ .writeSubmit := by
  rw [Caller.submitWritten]
  dsimp only [WriteEnd.result]
  split
  · intro h
    cases h
  · exact loopTop_await _

theorem writeFailed_stopped (c : Caller) (err : CallError) :
    (c.writeFailed err).await.running = false := by
  cases err <;> rfl

theorem submitWritten_stopped (c : Caller) {w : WriteEnd} {err : CallError}
    (hw : w.result = .error err) : (c.submitWritten w).await.running = false := by
  rw [Caller.submitWritten]
  rw [hw]
  dsimp only
  split
  · rfl
  · exact writeFailed_stopped c err

theorem cancelWritten_await (c : Caller) (w : WriteEnd) :
    (c.cancelWritten w).await ≠ .writeSubmit := by
  rw [Caller.cancelWritten]
  cases w.result with
  | ok _ => exact loopTop_await _
  | error err =>
      intro hawait
      have hstopped := writeFailed_stopped c err
      rw [hawait] at hstopped
      cases hstopped

/-- What the caller is writing, and where. -/
theorem callerWrites_some {submit m : Message} {stage : Stage}
    (h : callerWrites submit stage = some m) :
    ∃ c, stage = .looping c ∧
      ((c.await = .writeSubmit ∧ m = submit) ∨ (c.await = .writeCancel ∧ m = .cancel)) := by
  cases stage with
  | looping c =>
      refine ⟨c, rfl, ?_⟩
      simp only [callerWrites] at h
      cases hawait : c.await with
      | writeSubmit =>
          rw [hawait] at h
          exact Or.inl ⟨rfl, (Option.some.inj h).symm⟩
      | writeCancel =>
          rw [hawait] at h
          exact Or.inr ⟨rfl, (Option.some.inj h).symm⟩
      | _ =>
          rw [hawait] at h
          cases h
  | _ => cases h

section

variable [text : JsonText]

theorem pollSelect_await (c : Caller) (read : ReadFrame) (expired : Bool) :
    (c.pollSelect read expired).await ≠ .writeSubmit := by
  have hstopped : ∀ {c' : Caller}, c'.await.running = false → c'.await ≠ .writeSubmit := by
    intro c' hstopped hawait
    rw [hawait] at hstopped
    cases hstopped
  have hread : (c.pollRead read expired).await ≠ .writeSubmit := by
    rw [Caller.pollRead]
    split
    · exact onRead_await _ _
    · split <;> (intro h; cases h)
  rw [Caller.pollSelect]
  split
  · intro h
    cases h
  split
  · exact hstopped (UatCallerLoop.onTimer_quiet c).2
  split
  · next err _ => exact hstopped (UatCallerLoop.onClosed_quiet c err).2
  split
  · rw [Caller.onCancelReq]
    dsimp only
    cases callerStep c.state (.send .cancel) <;> (intro h; cases h)
  · exact loopTop_await _
  · intro h
    cases h
  · exact hread
  · exact hread

/-- The frame is what `encode` gives. -/
theorem frameFor_encode {m : Message} {frame : Bytes} (h : frameFor m = some frame) :
    encode toVec m [] = .ok frame := by
  rw [frameFor] at h
  cases hm : encode toVec m [] with
  | ok bytes =>
      rw [hm] at h
      exact congrArg Except.ok (Option.some.inj h)
  | error err =>
      rw [hm] at h
      cases h

/-- It is laid out as one frame of the message. -/
theorem frameFor_frame (htext : ReadsBack text) {m : Message} {frame : Bytes}
    (h : frameFor m = some frame) : ∃ payload, Frames m payload ∧ frame = frameOf payload := by
  have hencode := frameFor_encode h
  obtain ⟨payload, hframes, hall⟩ := encode_frame htext hencode
  exact ⟨payload, hframes, Except.ok.inj (hencode.symm.trans (hall []))⟩

variable (submit : Message)

/-- The frame of the `Submit`, if it can be encoded. -/
def opening : Bytes := (frameFor submit).getD []

/-- The frame of the `Submit` is on the stream. -/
def Whole (bs : Bytes) : Prop := ∃ frame, frameFor submit = some frame ∧ frame <+: bs

/-- Nothing but the frame of the `Submit` begins what is on the stream. -/
def Part (bs : Bytes) : Prop := bs <+: opening submit ∨ Whole submit bs

/-- What the caller has put on the stream, by where it is. -/
def SentAt (put : Nat) (bs : Bytes) : Stage → Prop
  | .openBi _ => bs = [] ∧ put = 0
  | .looping c =>
      (c.await = .writeSubmit ∧ bs = (opening submit).take put) ∨
        (c.await ≠ .writeSubmit ∧ Whole submit bs)
  | _ => Part submit bs

variable {submit} {bs : Bytes} {put : Nat}

/-- Wherever the caller is, the stream begins with nothing but the `Submit`. -/
theorem SentAt.part {stage : Stage} (h : SentAt submit put bs stage) : Part submit bs := by
  cases stage with
  | openBi o => exact Or.inl (h.1 ▸ List.nil_prefix)
  | looping c =>
      rcases h with ⟨-, rfl⟩ | ⟨-, hwhole⟩
      · exact Or.inl (List.take_prefix _ _)
      · exact Or.inr hwhole
  | joinGuard | unwinding | returned | dropped => exact h

theorem Whole.append (h : Whole submit bs) (more : Bytes) : Whole submit (bs ++ more) := by
  obtain ⟨frame, hframe, hpre⟩ := h
  exact ⟨frame, hframe, hpre.trans (List.prefix_append _ _)⟩

/-- A loop that is past its first write, or has ended. -/
theorem sent_settle {s : CallerRun} {c : Caller} (hawait : c.await ≠ .writeSubmit)
    (h : Whole submit bs) : SentAt submit put bs (s.settle c).stage := by
  rw [CallerRun.settle]
  cases hc : c.await with
  | writeSubmit => exact absurd hc hawait
  | select read | writeCancel => exact Or.inr ⟨hawait, h⟩
  | returned result | panicked => exact Or.inr h

/-- What begins such bytes, and what may follow it, begins with the frame. -/
theorem Part.frame {later : Bytes} (h : Part submit (bs ++ later)) (hbs : bs ≠ []) :
    ∃ full later' rest, frameFor submit = some full ∧ bs ++ later' = full ++ rest := by
  rcases h with ⟨more, hmore⟩ | ⟨full, hfull, rest, hrest⟩
  · cases hfull : frameFor submit with
    | some full =>
        refine ⟨full, later ++ more, [], rfl, ?_⟩
        rw [opening, hfull, Option.getD_some] at hmore
        rw [List.append_nil, ← List.append_assoc]
        exact hmore
    | none =>
        rw [opening, hfull, Option.getD_none] at hmore
        exact absurd (List.append_eq_nil_iff.mp (List.append_eq_nil_iff.mp hmore).1).1 hbs
  · exact ⟨full, later, rest, hfull, hrest.symm⟩

/-- The header of a `Submit` frame is that `Submit`, without its body. -/
theorem header_submits {task : TaskId} (hsubmit : Submits task submit) {payload body : Bytes}
    {header : Message} (hframes : Frames submit payload)
    (hparts : decodeParts fromSlice (frameOf payload) = .ok (header, body)) :
    Submits task header := by
  obtain ⟨⟨header', body'⟩, hparts', hfinish⟩ := bind_ok_iff.mp hframes.decodes
  obtain ⟨rfl, rfl⟩ := Prod.mk.inj (Except.ok.inj (hparts.symm.trans hparts'))
  obtain ⟨-, hbody⟩ := finishBody_allowAll.mp hfinish
  obtain ⟨deadline, contentType, credential, body', rfl⟩ := hsubmit
  cases header with
  | submit task' deadline' contentType' credential' body'' =>
      cases hbody
      exact ⟨_, _, _, _, rfl⟩
  | _ => cases hbody

/-- **The first frame is the `Submit`.** -/
theorem firstFrame_of_part (htext : ReadsBack text) {task : TaskId} (hsubmit : Submits task submit)
    {c : Callee} {later : Bytes} (hpart : PartRead c)
    (h : c.await.early = true → Part submit (taken c.await ++ c.recv.arrived ++ later)) :
    FirstFrame task c := by
  intro now read frame recv hawait hpoll header body hparts
  obtain ⟨rest, hread⟩ := pollFrame_ready (hpart now read hawait) hpoll
  replace h := h (by rw [hawait]; rfl)
  rw [hawait] at h
  -- Nothing is read from no bytes.
  have hbytes : read.held ++ c.recv.arrived ≠ [] := by
    intro hnil
    rw [hnil] at hread
    cases hread
  obtain ⟨full, later', rest', hfull, hfront⟩ := Part.frame h hbytes
  obtain ⟨payload, hframes, rfl⟩ := frameFor_frame htext hfull
  rcases readFrame_part hframes.le_max hfront with ⟨rest'', hok, -⟩ | ⟨hshort, -⟩
  · obtain ⟨rfl, -⟩ := Prod.mk.inj (Except.ok.inj (hread.symm.trans hok))
    exact header_submits hsubmit hframes hparts
  · cases hread.symm.trans hshort

/-! ### What the caller puts -/

/-- A loop that has stopped. -/
theorem sent_stopped {s : CallerRun} {c : Caller} (hstopped : c.await.running = false)
    (h : Part submit bs) : SentAt submit put bs (s.settle c).stage := by
  rw [CallerRun.settle]
  cases hawait : c.await with
  | returned result | panicked => exact h
  | _ =>
      rw [hawait] at hstopped
      cases hstopped

/-- **The caller between two writes** puts nothing, and does not return to its first
    write. -/
theorem sent_own {s s' : CallerRun} {e : UatCallerRun.Ev} {task : TaskId}
    (hsubmit : Submits task submit) (hown : callerOwn e = true)
    (hs : UatCallerRun.step submit [] s e = some s') (h : SentAt submit put bs s.stage) :
    SentAt submit put bs s'.stage := by
  cases e with
  | setup r =>
      obtain ⟨o, hat, ⟨-, rfl⟩ | ⟨-, err, reason, rfl⟩⟩ := UatCallerRun.step_setup hs
      · rw [hat] at h
        obtain ⟨rfl, rfl⟩ := h
        obtain ⟨deadline, contentType, credential, body, rfl⟩ := hsubmit
        exact Or.inl ⟨rfl, List.take_zero.symm⟩
      · rw [Opening.failed]
        cases o.closed <;> exact h.part
  | call e =>
      rcases UatCallerRun.step_call hs with ⟨o, o', hat, -, rfl⟩ | ⟨c, c', hat, hc, rfl⟩
      · rw [hat] at h
        exact h
      · rw [hat] at h
        -- An event of the environment leaves the loop where it is.
        have hsame : c'.await = c.await → SentAt submit put bs (s.settle c').stage := by
          intro hawait
          rcases h with ⟨hfirst, hbytes⟩ | ⟨hlater, hwhole⟩
          · rw [hfirst] at hawait
            rw [CallerRun.settle, hawait]
            exact Or.inl ⟨hawait, hbytes⟩
          · exact sent_settle (by rw [hawait]; exact hlater) hwhole
        cases e with
        | arrive n | finish | lose | close err | hookSend | hookDrop =>
            obtain ⟨-, hc⟩ := Option.ite_none_right_eq_some.mp hc
            obtain rfl := Option.some.inj hc
            exact hsame rfl
        | shutdown | timer =>
            obtain rfl := Option.some.inj hc
            exact hsame rfl
        | wrote w => cases hown
        | poll expired =>
            obtain ⟨read, hawait, rfl⟩ := UatCallerLoop.step_poll hc
            rcases h with ⟨hfirst, -⟩ | ⟨-, hwhole⟩
            · cases hawait.symm.trans hfirst
            · exact sent_settle (pollSelect_await c read expired) hwhole
  | guardJoined =>
      obtain ⟨record, lost, result, -, rfl⟩ := UatCallerRun.step_joined hs
      exact h.part
  | drop =>
      obtain ⟨record, lost, -, rfl⟩ := UatCallerRun.step_dropped hs
      exact h.part
  | unwound =>
      obtain ⟨record, lost, -, rfl⟩ := UatCallerRun.step_unwound hs
      exact h.part

/-- The opening is the frame of the `Submit`, where it has one. -/
theorem opening_eq {frame : Bytes} (h : frameFor submit = some frame) : opening submit = frame := by
  rw [opening, h, Option.getD_some]

/-- **A part of a write.** -/
theorem sent_puts {stage : Stage} {m : Message} {frame : Bytes} {n : Nat}
    (hwrites : callerWrites submit stage = some m) (hframe : frameFor m = some frame)
    (h : SentAt submit put bs stage) :
    SentAt submit (put + n) (bs ++ (frame.drop put).take n) stage := by
  obtain ⟨c, rfl, ⟨hawait, rfl⟩ | ⟨hawait, rfl⟩⟩ := callerWrites_some hwrites
  · rcases h with ⟨-, rfl⟩ | ⟨hlater, -⟩
    · refine Or.inl ⟨hawait, ?_⟩
      rw [opening_eq hframe, List.take_add]
    · exact absurd hawait hlater
  · rcases h with ⟨hfirst, -⟩ | ⟨hlater, hwhole⟩
    · cases hawait.symm.trans hfirst
    · exact Or.inr ⟨hlater, hwhole.append _⟩

/-- **The end of a write.** -/
theorem sent_wrote {s s' : CallerRun} {m : Message} {w : WriteEnd} {bytes : Bytes}
    (hwrites : callerWrites submit s.stage = some m) (hbytes : lastBytes m put w = some bytes)
    (hs : UatCallerRun.step submit [] s (.call (.wrote w)) = some s')
    (h : SentAt submit put bs s.stage) : SentAt submit 0 (bs ++ bytes) s'.stage := by
  obtain ⟨c, hat, hwhere⟩ := callerWrites_some hwrites
  simp only [UatCallerRun.step, hat] at hs
  obtain ⟨c', hc, rfl⟩ := Option.map_eq_some_iff.mp hs
  rw [hat] at h
  rcases hwhere with ⟨hawait, rfl⟩ | ⟨hawait, rfl⟩
  · simp only [UatCallerLoop.step, hawait] at hc
    obtain rfl := Option.some.inj hc
    rcases h with ⟨-, rfl⟩ | ⟨hlater, -⟩
    · cases w with
      -- The part that was put and the rest are the whole frame.
      | done =>
          obtain ⟨frame, hframe, rfl⟩ := Option.map_eq_some_iff.mp hbytes
          refine sent_settle (submitWritten_await c) ⟨frame, hframe, ?_⟩
          rw [opening_eq hframe, List.take_append_drop]
      | failed err | timedOut =>
          obtain rfl := Option.some.inj hbytes
          rw [List.append_nil]
          exact sent_stopped (submitWritten_stopped c rfl) (Or.inl (List.take_prefix _ _))
    · exact absurd hawait hlater
  · simp only [UatCallerLoop.step, hawait] at hc
    obtain rfl := Option.some.inj hc
    rcases h with ⟨hfirst, -⟩ | ⟨-, hwhole⟩
    · cases hawait.symm.trans hfirst
    · exact sent_settle (cancelWritten_await c w) (hwhole.append bytes)

end

/-! ## What the stream carries to the caller -/

/-- The guard and what the sink has received do not depend on bytes in flight. -/
theorem deliver_accounted {peer : NodeId} {s : CallerRun} (h : UatCallerRun.Accounted peer s)
    (bytes : Bytes) : UatCallerRun.Accounted peer (deliver s bytes) := by
  rw [deliver]
  cases hat : s.stage with
  | looping c =>
      obtain ⟨haudit, hidentity⟩ := h.alive c.record (isLost c) (by rw [hat]; rfl)
      have hguard : ∀ c' : Caller, c'.record = c.record →
          (Stage.looping c').guard = some (c.record, isLost c') := by
        intro c' hrecord
        rw [← hrecord]
        rfl
      exact UatCallerRun.accounted_of_guard (hguard _ rfl) haudit hidentity
  | _ => exact h

/-- Bytes delivered tell the caller nothing before it reads them. -/
theorem deliver_knows {task : TaskId} {told : List Message} {s : CallerRun}
    (h : Knows task told s) (bytes : Bytes) : Knows task told (deliver s bytes) := by
  rw [deliver]
  cases hat : s.stage with
  | looping c =>
      have hstage := h.stage
      rw [hat] at hstage
      obtain ⟨hrun, hears⟩ := hstage
      refine ⟨⟨hrun, hears.same, hears.live, hears.tasked, hears.unsaid, hears.returned,
        hears.part⟩, fun a ha hv _ => h.audit a ha hv ?_⟩
      rw [hat]
      intro h
      cases h
  | _ => exact h

section

variable [text : JsonText] {submit : Message} {told begun : List Message} {missing : Bytes}
  {a : UatCalleeRun.Await} {put : Nat}

/-- Nor do they change what it has sent. -/
theorem deliver_sent {bs : Bytes} {s : CallerRun} (h : SentAt submit put bs s.stage)
    (bytes : Bytes) : SentAt submit put bs (deliver s bytes).stage := by
  rw [deliver]
  cases hat : s.stage with
  | looping c =>
      rw [hat] at h
      exact h
  | _ => exact h

/-- They go behind what the caller has in front of it. -/
theorem deliver_wire {s : CallerRun} {bytes : Bytes}
    (h : Wire begun missing (stageFront s.stage ++ bytes)) :
    Wire begun missing (stageFront (deliver s bytes).stage) := by
  rw [deliver]
  cases hat : s.stage with
  | looping c =>
      rw [hat] at h
      show Wire begun missing (c.await.held ++ c.recv.arrived ++ (c.inFlight ++ bytes))
      rw [← List.append_assoc]
      exact h
  | _ =>
      dsimp only
      rw [hat]
      exact h.gone

/-- The messages whose frames the callee has begun, and what is missing of the last one. -/
inductive Putting (told : List Message) (a : UatCalleeRun.Await) (put : Nat) :
    List Message → Bytes → Prop where
  | idle (hput : put = 0) : Putting told a put told []
  /-- A part of the frame being written is on the stream. -/
  | within {m : Message} {frame : Bytes} (hwrites : calleeWrites a = some m)
      (hframe : frameFor m = some frame) (hput : put < frame.length) :
      Putting told a put (told ++ [m]) (frame.drop put)
  /-- A write failed inside its frame, and was the last. -/
  | broken {m : Message} {missing : Bytes} (hput : put = 0) (hleft : left a = 0)
      (hroom : told.length < 3) (hmissing : missing ≠ []) :
      Putting told a put (told ++ [m]) missing

/-- At most one frame of those begun is not whole, and it is the last. -/
theorem Putting.complete (h : Putting told a put begun missing) : Complete told begun missing := by
  cases h with
  | idle _ => exact Or.inl rfl
  | within _ _ hput =>
      exact Or.inr ⟨_, rfl, fun hnil => absurd (List.drop_eq_nil_iff.mp hnil) (not_le.mpr hput)⟩
  | broken _ _ _ hmissing => exact Or.inr ⟨_, rfl, hmissing⟩

/-- The callee begins three frames, at most. -/
theorem Putting.budget (h : Putting told a put begun missing) (hroom : told.length ≤ 3)
    (hbudget : left a ≤ 3 - told.length) : begun.length ≤ 3 := by
  cases h with
  | idle _ => exact hroom
  | within hwrites _ _ =>
      have hone := one_le_left hwrites
      rw [List.length_append, List.length_singleton]
      omega
  | broken _ _ hroom' _ =>
      rw [List.length_append, List.length_singleton]
      omega

/-- A step that does not leave a write, and adds nothing to what may be written. -/
theorem Putting.moves {a' : UatCalleeRun.Await} (h : Putting told a put begun missing)
    (hleft : left a' ≤ left a) (hwriting : ∀ m, calleeWrites a = some m → a' = a) :
    Putting told a' put begun missing := by
  cases h with
  | idle hput => exact .idle hput
  | within hwrites hframe hput =>
      rw [hwriting _ hwrites]
      exact .within hwrites hframe hput
  | broken hput hnone hroom hmissing =>
      exact .broken hput (Nat.le_zero.mp (hnone ▸ hleft)) hroom hmissing

variable {m : Message} {frame front : Bytes}

/-- Another part of the frame being written goes on the stream. -/
theorem Putting.next {n : Nat} (h : Putting told a put begun missing)
    (hwrites : calleeWrites a = some m) (hframe : frameFor m = some frame)
    (hput : put + n < frame.length)
    (hframed : ∃ payload, frame = frameOf payload ∧ SaidFrame m payload)
    (hwire : Wire begun missing front) :
    ∃ begun' missing', Putting told a (put + n) begun' missing' ∧
      Wire begun' missing' (front ++ (frame.drop put).take n) := by
  obtain ⟨payload, hpayload, hsaid⟩ := hframed
  refine ⟨told ++ [m], frame.drop (put + n), .within hwrites hframe hput, ?_⟩
  cases h with
  | idle hzero =>
      subst hzero
      refine hwire.begins hsaid ?_
      rw [Nat.zero_add, List.drop_zero, List.take_append_drop, hpayload]
  | within hwrites' hframe' _ =>
      obtain rfl := Option.some.inj (hwrites.symm.trans hwrites')
      obtain rfl := Option.some.inj (hframe.symm.trans hframe')
      refine hwire.more ?_
      rw [List.append_assoc, ← List.drop_drop, List.take_append_drop]
  | broken _ hnone _ _ =>
      have hone := one_le_left hwrites
      omega

/-- A write that ends well puts the rest of its frame. -/
theorem Putting.whole (h : Putting told a put begun missing)
    (hwrites : calleeWrites a = some m) (hframe : frameFor m = some frame)
    (hframed : ∃ payload, frame = frameOf payload ∧ SaidFrame m payload)
    (hwire : Wire begun missing front) : Wire (told ++ [m]) [] (front ++ frame.drop put) := by
  obtain ⟨payload, hpayload, hsaid⟩ := hframed
  cases h with
  | idle hzero =>
      subst hzero
      refine hwire.begins hsaid ?_
      rw [List.append_nil, List.drop_zero, hpayload]
  | within hwrites' hframe' _ =>
      obtain rfl := Option.some.inj (hwrites.symm.trans hwrites')
      obtain rfl := Option.some.inj (hframe.symm.trans hframe')
      refine hwire.more ?_
      rw [List.append_nil]
  | broken _ hnone _ _ =>
      have hone := one_le_left hwrites
      omega

/-- A write that fails leaves its frame cut, if it had begun, and no other follows. -/
theorem Putting.fails {a' : UatCalleeRun.Await} (h : Putting told a put begun missing)
    (hwrites : calleeWrites a = some m) (hroom : told.length < 3) (hleft : left a' = 0) :
    Putting told a' 0 begun missing := by
  cases h with
  | idle hzero => exact .idle rfl
  | within _ _ hput =>
      exact .broken rfl hleft hroom fun hnil =>
        absurd (List.drop_eq_nil_iff.mp hnil) (not_le.mpr hput)
  | broken _ hnone _ _ =>
      have hone := one_le_left hwrites
      omega

end

/-! ## The run -/

/-- The caller has returned, with no verdict. -/
def Refused (s : CallerRun) : Prop :=
  (∃ result, s.stage = .returned result) ∧ ∀ a ∈ s.audit, ¬ IsVerdict a.record.outcome

/-- The caller refuses a message that is no `Submit`. -/
theorem runCallerWith_refused {calleeId : NodeId} {submit : Message}
    (hsubmit : ∀ task, ¬ Submits task submit) (requestCancel : Option Hook)
    (closed : Option ConnectionError) :
    Refused (runCallerWith calleeId submit requestCancel closed) := by
  cases submit with
  | submit task deadline contentType credential body =>
      exact absurd ⟨deadline, contentType, credential, body, rfl⟩ (hsubmit task)
  | _ =>
      refine ⟨⟨_, rfl⟩, fun a ha => ?_⟩
      obtain rfl := List.mem_singleton.mp ha
      exact id

/-- `run_callee_with` waits for the stream, or has returned. -/
theorem runCalleeWith_await {Key : Type} (policy : Policy Key) (callerId : NodeId)
    (spent : MemorySpentSet) :
    ((runCalleeWith policy callerId spent).await = .acceptBi ∧
        (runCalleeWith policy callerId spent).recv.arrived = []) ∨
      (runCalleeWith policy callerId spent).await = .returned (.error .unauthorized) := by
  rw [runCalleeWith]
  split
  · exact Or.inr rfl
  · exact Or.inl ⟨rfl, rfl⟩

section

variable [text : JsonText] {Key : Type} {policy : Policy Key} {callerId calleeId : NodeId}
  {submit : Message} {task : TaskId}

/-- **The invariant of the run.** -/
structure Inv (callerId calleeId : NodeId) (submit : Message) (task : TaskId) (s : Call) :
    Prop where
  caller : UatCallerRun.Accounted calleeId s.caller
  callee : UatIncoming.Accounted callerId s.callee
  speaks : Speaks task s.told s.callee
  knows : Knows task s.told s.caller
  carries : ∃ begun missing, Putting s.told s.callee.await s.calleePut begun missing ∧
    Wire begun missing (stageFront s.caller.stage)
  partRead : PartRead s.callee
  sent : s.callee.await.early = true →
    SentAt submit s.callerPut (taken s.callee.await ++ s.callee.recv.arrived ++ s.toCallee)
      s.caller.stage

/-- The invariant holds when the connection is established. -/
theorem start_inv {deadline : Deadline} {contentType : ContentType}
    {credential : Option Credential} {body : Bytes} (requestCancel : Option Hook)
    (closed : Option ConnectionError) (spent : MemorySpentSet) :
    Inv callerId calleeId (.submit task deadline contentType credential body) task
      (start policy callerId calleeId (.submit task deadline contentType credential body)
        requestCancel closed spent) := by
  obtain ⟨hdriven, hpart, hbytes⟩ : Driven task 3 (runCalleeWith policy callerId spent) ∧
      PartRead (runCalleeWith policy callerId spent) ∧
      ((runCalleeWith policy callerId spent).await.early = true →
        taken (runCalleeWith policy callerId spent).await ++
          (runCalleeWith policy callerId spent).recv.arrived = []) := by
    rcases runCalleeWith_await policy callerId spent with ⟨hawait, harrived⟩ | hawait
    · refine ⟨driven_of_idle ?_ ?_ ?_, fun now read hfirst => ?_, fun _ => ?_⟩
      · rw [hawait]; rfl
      · rw [hawait]; rfl
      · rw [hawait]; exact Nat.le_refl 3
      · cases hawait.symm.trans hfirst
      · rw [hawait, harrived]; rfl
    · have hlate : (runCalleeWith policy callerId spent).await.early = false := by rw [hawait]; rfl
      refine ⟨driven_of_idle ?_ ?_ ?_, partRead_of_late hlate, fun hearly => ?_⟩
      · rw [hawait]; rfl
      · rw [hawait]; rfl
      · rw [hawait]; exact Nat.zero_le 3
      · cases hlate.symm.trans hearly
  refine ⟨UatCallerRun.start_accounted calleeId (.submit task deadline contentType credential body)
      requestCancel closed,
    UatIncoming.runCalleeWith_accounted policy callerId spent, ?_, ⟨id, fun a ha => ?_⟩,
    ⟨[], [], .idle rfl, wire_start⟩, hpart, fun hearly => ⟨?_, rfl⟩⟩
  · refine .of_silent hdriven (Nat.le_refl 3) fun m hm => ?_
    cases hm
  · cases ha
  · show taken (runCalleeWith policy callerId spent).await ++
      (runCalleeWith policy callerId spent).recv.arrived ++ [] = []
    rw [hbytes hearly]
    rfl

/-- The caller's task takes a step, with which `more` is put on the stream. -/
theorem inv_caller (hsubmit : Submits task submit) {s : Call}
    (h : Inv callerId calleeId submit task s) {e : UatCallerRun.Ev} {caller : CallerRun} {put : Nat}
    {more toCallee : Bytes} (hs : UatCallerRun.step submit [] s.caller e = some caller)
    (hto : toCallee = s.toCallee ++ more)
    (hsent : ∀ bs, SentAt submit s.callerPut bs s.caller.stage →
      SentAt submit put (bs ++ more) caller.stage) :
    Inv callerId calleeId submit task
      { s with caller := caller, toCallee := toCallee, callerPut := put } := by
  obtain ⟨begun, missing, hputting, hwire⟩ := h.carries
  have hbudget := hputting.budget h.speaks.room h.speaks.budget
  obtain ⟨hknows, hwire'⟩ : Knows task s.told caller ∧
      Wire begun missing (stageFront caller.stage) := by
    obtain ⟨deadline, contentType, credential, body, rfl⟩ := hsubmit
    exact caller_knows h.caller h.knows hbudget hputting.complete hwire hs
  refine ⟨UatCallerRun.step_accounted h.caller hs, h.callee, h.speaks, hknows,
    ⟨begun, missing, hputting, hwire'⟩, h.partRead, fun hearly => ?_⟩
  show SentAt submit put (taken s.callee.await ++ s.callee.recv.arrived ++ toCallee) caller.stage
  rw [hto, ← List.append_assoc]
  exact hsent _ (h.sent hearly)

/-- The stream takes a part of what the caller writes. -/
theorem inv_callerPuts {s : Call} (h : Inv callerId calleeId submit task s) {m : Message}
    {frame : Bytes} {n : Nat} (hwrites : callerWrites submit s.caller.stage = some m)
    (hframe : frameFor m = some frame) :
    Inv callerId calleeId submit task { s with
      toCallee := s.toCallee ++ (frame.drop s.callerPut).take n
      callerPut := s.callerPut + n } := by
  refine ⟨h.caller, h.callee, h.speaks, h.knows, h.carries, h.partRead, fun hearly => ?_⟩
  show SentAt submit (s.callerPut + n) (taken s.callee.await ++ s.callee.recv.arrived ++
    (s.toCallee ++ (frame.drop s.callerPut).take n)) s.caller.stage
  rw [← List.append_assoc]
  exact sent_puts hwrites hframe (h.sent hearly)

variable [BiscuitEngine Key] {behavior : CalleeBehavior}

/-- The callee takes its own step. -/
theorem inv_callee (htext : ReadsBack text) (hsubmit : Submits task submit) {s : Call}
    (h : Inv callerId calleeId submit task s) {e : UatCalleeRun.Ev} {callee : Callee}
    (hown : calleeOwn s.callee e = true)
    (hs : UatCalleeRun.step policy callerId behavior s.callee e = some callee) :
    Inv callerId calleeId submit task { s with callee := callee } := by
  have hfirst : FirstFrame task s.callee :=
    firstFrame_of_part htext hsubmit h.partRead fun hearly => (h.sent hearly).part
  obtain ⟨hspeaks, hleft, hwriting⟩ := callee_own h.speaks h.callee hfirst hown hs
  obtain ⟨begun, missing, hputting, hwire⟩ := h.carries
  refine ⟨h.caller, h.callee.of_moves (UatCalleeRun.step_moves hs), hspeaks, h.knows,
    ⟨begun, missing, hputting.moves hleft hwriting, hwire⟩, ?_, fun hearly => ?_⟩
  · cases hearly : callee.await.early with
    | true => exact (own_early h.partRead hown hs hearly).2.2
    | false => exact partRead_of_late hearly
  · obtain ⟨hearly', hbytes, -⟩ := own_early h.partRead hown hs hearly
    show SentAt submit s.callerPut (taken callee.await ++ callee.recv.arrived ++ s.toCallee) _
    rw [hbytes]
    exact h.sent hearly'

/-- Bytes arrive at the callee. -/
theorem inv_calleeGets {s : Call} (h : Inv callerId calleeId submit task s) {n : Nat}
    {callee : Callee}
    (hs : UatCalleeRun.step policy callerId behavior s.callee (.arrive (s.toCallee.take n)) =
      some callee) :
    Inv callerId calleeId submit task
      { s with callee := callee, toCallee := s.toCallee.drop n } := by
  have hacc := h.callee.of_moves (UatCalleeRun.step_moves hs)
  obtain ⟨-, hs⟩ := Option.ite_none_right_eq_some.mp hs
  obtain rfl := Option.some.inj hs
  refine ⟨h.caller, hacc, h.speaks.same rfl rfl rfl rfl, h.knows, h.carries, h.partRead,
    fun hearly => ?_⟩
  show SentAt submit s.callerPut (taken s.callee.await ++
    (s.callee.recv.arrived ++ s.toCallee.take n) ++ s.toCallee.drop n) s.caller.stage
  rw [← List.append_assoc, List.append_assoc (_ ++ _), List.take_append_drop]
  exact h.sent hearly

/-- What the callee writes is one of its frames. -/
theorem writes_frame (htext : ReadsBack text) (hshort : PrintsShort text) {c : Callee}
    (hready : Ready c) {m : Message} {frame : Bytes} (hwrites : calleeWrites c.await = some m)
    (hframe : frameFor m = some frame) : ∃ payload, frame = frameOf payload ∧ SaidFrame m payload :=
  said_frame htext hshort (writes_said hready hwrites) (frameFor_encode hframe)

/-- The stream takes a part of what the callee writes. -/
theorem inv_calleePuts (htext : ReadsBack text) (hshort : PrintsShort text) {s : Call}
    (h : Inv callerId calleeId submit task s) {m : Message} {frame : Bytes} {n : Nat}
    (hwrites : calleeWrites s.callee.await = some m) (hframe : frameFor m = some frame)
    (hput : s.calleePut + n < frame.length) :
    Inv callerId calleeId submit task { s with
      caller := deliver s.caller ((frame.drop s.calleePut).take n)
      calleePut := s.calleePut + n } := by
  obtain ⟨begun, missing, hputting, hwire⟩ := h.carries
  have hframed := writes_frame htext hshort h.speaks.ready hwrites hframe
  obtain ⟨begun', missing', hputting', hwire'⟩ :=
    hputting.next hwrites hframe hput hframed hwire
  exact ⟨deliver_accounted h.caller _, h.callee, h.speaks, deliver_knows h.knows _,
    ⟨begun', missing', hputting', deliver_wire hwire'⟩, h.partRead,
    fun hearly => deliver_sent (h.sent hearly) _⟩

/-- A write of the callee ends. -/
theorem inv_calleeWrote (htext : ReadsBack text) (hshort : PrintsShort text) {s : Call}
    (h : Inv callerId calleeId submit task s) {m : Message} {w : WriteEnd} {bytes : Bytes}
    {callee : Callee} (hwrites : calleeWrites s.callee.await = some m)
    (hbytes : lastBytes m s.calleePut w = some bytes)
    (hs : UatCalleeRun.step policy callerId behavior s.callee (.wrote w) = some callee) :
    Inv callerId calleeId submit task { s with
      caller := deliver s.caller bytes
      callee := callee
      calleePut := 0
      told := s.told ++ toldBy m w } := by
  obtain ⟨hspeaks, hlast⟩ := callee_wrote h.speaks h.callee hwrites hs
  have hone : 1 ≤ 3 - s.told.length := Nat.le_trans (one_le_left hwrites) h.speaks.budget
  -- After a write there is less to write than before the first frame.
  have hlate : callee.await.early = false := by
    refine Bool.eq_false_iff.mpr fun hearly => ?_
    have hthree := left_of_early hearly
    have hbudget := hspeaks.budget
    rw [List.length_append] at hbudget
    cases w with
    | done =>
        have hlength : (toldBy m .done).length = 1 := rfl
        omega
    | failed err | timedOut =>
        have hzero := hlast rfl
        omega
  obtain ⟨begun, missing, hputting, hwire⟩ := h.carries
  have hcarries : ∃ begun missing, Putting (s.told ++ toldBy m w) callee.await 0 begun missing ∧
      Wire begun missing (stageFront (deliver s.caller bytes).stage) := by
    cases w with
    | done =>
        obtain ⟨frame, hframe, rfl⟩ := Option.map_eq_some_iff.mp hbytes
        have hframed := writes_frame htext hshort h.speaks.ready hwrites hframe
        exact ⟨_, _, .idle rfl, deliver_wire (hputting.whole hwrites hframe hframed hwire)⟩
    | failed err | timedOut =>
        obtain rfl := Option.some.inj hbytes
        refine ⟨begun, missing, ?_, deliver_wire ?_⟩
        · rw [show s.told ++ toldBy m _ = s.told from List.append_nil _]
          exact hputting.fails hwrites (by omega) (hlast rfl)
        · rw [List.append_nil]
          exact hwire
  exact ⟨deliver_accounted h.caller _, h.callee.of_moves (UatCalleeRun.step_moves hs), hspeaks,
    deliver_knows (h.knows.grow _) _, hcarries, partRead_of_late hlate,
    fun hearly => by cases hlate.symm.trans hearly⟩

/-- **One step of the run.** -/
theorem step_inv (htext : ReadsBack text) (hshort : PrintsShort text)
    (hsubmit : Submits task submit) {s s' : Call} {e : Ev}
    (h : Inv callerId calleeId submit task s)
    (hs : step policy callerId behavior submit s e = some s') :
    Inv callerId calleeId submit task s' := by
  cases e with
  | caller e =>
      obtain ⟨hown, hs⟩ := Option.ite_none_right_eq_some.mp hs
      obtain ⟨caller, hcaller, rfl⟩ := Option.map_eq_some_iff.mp hs
      refine inv_caller hsubmit h hcaller (List.append_nil _).symm fun bs hsent => ?_
      rw [List.append_nil]
      exact sent_own hsubmit hown hcaller hsent
  | callerPuts n =>
      obtain ⟨m, hwrites, hs⟩ := Option.bind_eq_some_iff.mp hs
      obtain ⟨frame, hframe, hs⟩ := Option.bind_eq_some_iff.mp hs
      obtain ⟨-, hs⟩ := Option.ite_none_right_eq_some.mp hs
      obtain rfl := Option.some.inj hs
      exact inv_callerPuts h hwrites hframe
  | callerWrote w =>
      obtain ⟨m, hwrites, hs⟩ := Option.bind_eq_some_iff.mp hs
      obtain ⟨bytes, hbytes, hs⟩ := Option.bind_eq_some_iff.mp hs
      obtain ⟨caller, hcaller, hs⟩ := Option.bind_eq_some_iff.mp hs
      obtain rfl := Option.some.inj hs
      exact inv_caller hsubmit h hcaller rfl fun bs hsent =>
        sent_wrote hwrites hbytes hcaller hsent
  | callee e =>
      obtain ⟨hown, hs⟩ := Option.ite_none_right_eq_some.mp hs
      obtain ⟨callee, hcallee, rfl⟩ := Option.map_eq_some_iff.mp hs
      exact inv_callee htext hsubmit h hown hcallee
  | calleePuts n =>
      obtain ⟨m, hwrites, hs⟩ := Option.bind_eq_some_iff.mp hs
      obtain ⟨frame, hframe, hs⟩ := Option.bind_eq_some_iff.mp hs
      obtain ⟨hput, hs⟩ := Option.ite_none_right_eq_some.mp hs
      obtain rfl := Option.some.inj hs
      exact inv_calleePuts htext hshort h hwrites hframe hput
  | calleeWrote w =>
      obtain ⟨m, hwrites, hs⟩ := Option.bind_eq_some_iff.mp hs
      obtain ⟨bytes, hbytes, hs⟩ := Option.bind_eq_some_iff.mp hs
      obtain ⟨callee, hcallee, hs⟩ := Option.bind_eq_some_iff.mp hs
      obtain rfl := Option.some.inj hs
      exact inv_calleeWrote htext hshort h hwrites hbytes hcallee
  | calleeGets n =>
      obtain ⟨-, hs⟩ := Option.ite_none_right_eq_some.mp hs
      obtain ⟨callee, hcallee, rfl⟩ := Option.map_eq_some_iff.mp hs
      exact inv_calleeGets h hcallee

/-- What the caller was told is what the callee stands by. -/
theorem Inv.agree {s : Call} (h : Inv callerId calleeId submit task s) : VerdictsAgree s := by
  intro a ha hverdict hstage b hb
  obtain ⟨⟨m, hm, ho⟩, htask⟩ := h.knows.audit a ha hverdict hstage
  obtain ⟨houtcome, htasked⟩ := (h.speaks.told m hm _ ho).recorded b hb
  refine ⟨houtcome, fun hgranted => ?_⟩
  rcases htasked with htask' | ⟨reason, hdenied⟩
  · rw [htask', htask]
  · exact absurd hdenied (hgranted reason)

/-- A caller that has returned takes no further step. -/
theorem step_refused {s s' : Call} {e : Ev} (h : Refused s.caller)
    (hs : step policy callerId behavior submit s e = some s') : Refused s'.caller := by
  obtain ⟨result, hat⟩ := h.1
  -- No step of the caller is left, and the stream has nobody to deliver to.
  have hnone : ∀ e, UatCallerRun.step submit [] s.caller e = none := by
    intro e
    cases e <;> simp only [UatCallerRun.step, hat]
  have hwrites : callerWrites submit s.caller.stage = none := by rw [hat]; rfl
  have hdeliver : ∀ bytes, deliver s.caller bytes = s.caller := by
    intro bytes
    simp only [deliver, hat]
  cases e with
  | caller e =>
      obtain ⟨-, hs⟩ := Option.ite_none_right_eq_some.mp hs
      obtain ⟨caller, hcaller, -⟩ := Option.map_eq_some_iff.mp hs
      cases (hnone e).symm.trans hcaller
  | callerPuts n | callerWrote w =>
      obtain ⟨m, hm, -⟩ := Option.bind_eq_some_iff.mp hs
      cases hwrites.symm.trans hm
  | callee e | calleeGets n =>
      obtain ⟨-, hs⟩ := Option.ite_none_right_eq_some.mp hs
      obtain ⟨callee, -, rfl⟩ := Option.map_eq_some_iff.mp hs
      exact h
  | calleePuts n =>
      obtain ⟨m, -, hs⟩ := Option.bind_eq_some_iff.mp hs
      obtain ⟨frame, -, hs⟩ := Option.bind_eq_some_iff.mp hs
      obtain ⟨-, hs⟩ := Option.ite_none_right_eq_some.mp hs
      obtain rfl := Option.some.inj hs
      show Refused (deliver s.caller _)
      rw [hdeliver]
      exact h
  | calleeWrote w =>
      obtain ⟨m, -, hs⟩ := Option.bind_eq_some_iff.mp hs
      obtain ⟨bytes, -, hs⟩ := Option.bind_eq_some_iff.mp hs
      obtain ⟨callee, -, hs⟩ := Option.bind_eq_some_iff.mp hs
      obtain rfl := Option.some.inj hs
      show Refused (deliver s.caller _)
      rw [hdeliver]
      exact h

/-- **VERDICTS AGREE.**  In every run of the two tasks on one connection, a verdict in the
    caller's record is in the callee's record, with the same task unless that is a denial;
    excepted is a caller that its own node shut down. -/
theorem verdicts_agree (htext : ReadsBack text) (hshort : PrintsShort text) (policy : Policy Key)
    (callerId calleeId : NodeId) (behavior : CalleeBehavior) (submit : Message)
    (requestCancel : Option Hook) (closed : Option ConnectionError) (spent : MemorySpentSet)
    (es : List Ev) (s : Call)
    (hrun : runFrom (step policy callerId behavior submit)
      (start policy callerId calleeId submit requestCancel closed spent) es = some s) :
    VerdictsAgree s := by
  by_cases hsubmit : ∃ task, Submits task submit
  · obtain ⟨task, hsubmit⟩ := hsubmit
    have hstart : Inv callerId calleeId submit task
        (start policy callerId calleeId submit requestCancel closed spent) := by
      obtain ⟨deadline, contentType, credential, body, rfl⟩ := hsubmit
      exact start_inv requestCancel closed spent
    exact (run_invariant _ (fun _ _ _ h hs => step_inv htext hshort hsubmit h hs) es _ s hstart
      hrun).agree
  · have hrefused : Refused s.caller :=
      run_invariant _ (fun _ _ _ h hs => step_refused h hs) es _ s
        (runCallerWith_refused (fun task h => hsubmit ⟨task, h⟩) requestCancel closed) hrun
    exact fun a ha hverdict => absurd hverdict (hrefused.2 a ha)

end

/-! ### Runs in which they do not -/

/-- What the two sinks have received of outcome and task, the caller's first. -/
def recorded (s : Call) : List (Outcome × Option TaskId) × List (Outcome × Option TaskId) :=
  (s.caller.audit.map fun a => (a.record.outcome, a.record.task),
    s.callee.audit.map fun b => (b.record.outcome, b.record.task))

/-- Where each sink got one record and the caller's is a verdict, the two are alike. -/
theorem RecordsAgree.recorded {s : Call} (h : RecordsAgree s) {o o' : Outcome}
    {task task' : Option TaskId}
    (hs : recorded s = ([(o, task)], [(o', task')])) (hverdict : IsVerdict o) :
    o' = o ∧ task' = task := by
  obtain ⟨hcaller, hcallee⟩ := Prod.mk.inj hs
  obtain ⟨a, ha, hsame⟩ := List.map_eq_singleton_iff.mp hcaller
  obtain ⟨b, hb, hsame'⟩ := List.map_eq_singleton_iff.mp hcallee
  cases hsame
  cases hsame'
  exact h a (by rw [ha]; exact List.mem_singleton_self a) hverdict b
    (by rw [hb]; exact List.mem_singleton_self b)

end

section

attribute [local instance] plainText compactJson noToken

def submitted : Message := .submit taskOne oneSecond plain none []

/-- One connection from `remote`, whose `Submit` the stub completes. -/
def runOf (policy : Policy Unit) (es : List Ev) : Option Call :=
  runFrom (step policy remote .stubComplete submitted)
    (start policy remote answeringNode submitted none none .new) es

/-- The `Submit` and the first answer cross in pieces. -/
def inPieces : List Ev :=
  [.callee (.setup .opened epoch), .caller (.setup .opened), .callerPuts 50, .calleeGets 20,
    .callerWrote .done, .callee (.poll false), .calleeGets 89, .callee (.poll false),
    .calleePuts 7, .caller (.call (.arrive 5)), .caller (.call (.poll false)),
    .calleeWrote .done, .calleeWrote .done, .caller (.call (.arrive 46)),
    .caller (.call (.poll false)), .caller (.call (.poll false)), .caller .guardJoined,
    .callee .shutdown, .callee (.poll false), .callee .guardJoined]

theorem verdicts_agree_inPieces :
    ∃ s, runOf (.allow remote) inPieces = some s ∧
      recorded s = ([(.completed, some taskOne)], [(.completed, some taskOne)]) ∧
      VerdictsAgree s := by
  have hrun : (runOf (.allow remote) inPieces).map recorded =
      some ([(.completed, some taskOne)], [(.completed, some taskOne)]) := by decide +kernel
  obtain ⟨s, hs, hrecorded⟩ := Option.map_eq_some_iff.mp hrun
  exact ⟨s, hs, hrecorded, verdicts_agree compactJson_readsBack compactJson_printsShort
    (.allow remote) remote answeringNode .stubComplete submitted none none .new inPieces s hs⟩

/-- The answers are on the stream when the caller's own node shuts down. -/
def ownShutdown : List Ev :=
  [.callee (.setup .opened epoch), .caller (.setup .opened), .callerWrote .done, .calleeGets 109,
    .callee (.poll false), .calleeWrote .done, .calleeWrote .done, .caller (.call .shutdown),
    .caller (.call (.poll false)), .caller .guardJoined, .callee .shutdown, .callee (.poll false),
    .callee .guardJoined]

/-- The `Submit` has no token and is denied. -/
def denied : List Ev :=
  [.callee (.setup .opened epoch), .caller (.setup .opened), .callerWrote .done, .calleeGets 109,
    .callee (.poll false), .calleeWrote .done, .callee .guardJoined, .caller (.call (.arrive 45)),
    .caller (.call (.poll false)), .caller .guardJoined]

/-- A shutdown parts the outcomes, a denial the tasks. -/
theorem records_disagree :
    (∃ s, runOf (.allow remote) ownShutdown = some s ∧ ¬ RecordsAgree s) ∧
      ∃ s, runOf oneRoot denied = some s ∧ ¬ RecordsAgree s := by
  have hshutdown : (runOf (.allow remote) ownShutdown).map recorded =
      some ([(.canceled, some taskOne)], [(.completed, some taskOne)]) := by decide +kernel
  have hdenied : (runOf oneRoot denied).map recorded =
      some ([(.failed .unauthorized, some taskOne)], [(.failed .unauthorized, none)]) := by
    decide +kernel
  obtain ⟨s, hs, hrecorded⟩ := Option.map_eq_some_iff.mp hshutdown
  obtain ⟨s', hs', hrecorded'⟩ := Option.map_eq_some_iff.mp hdenied
  exact ⟨⟨s, hs, fun h => by cases (h.recorded hrecorded trivial).1⟩,
    s', hs', fun h => by cases (h.recorded hrecorded' trivial).2⟩

end

end UatCallRun
