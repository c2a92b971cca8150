import Mathlib.Algebra.Order.BigOperators.Group.List
import Uat.Daemon

/-! # `shutdown` — the token fires, and the tasks run out of steps

    `shutdown` cancels the token, closes the tracker and waits until it is empty.  Every
    wait of a call polls the token first, so after it has fired each poll ends the call;
    what is left are writes that were already under way and the returns.

    * **`stepsLeft`** — what a task still has to do once the token has fired.
    * **`shutdown_bounded`** — no order of steps makes the tasks do more than that.
    * **`shutdown_completes`** — whatever they are in the middle of, their own steps lead to
      the state that `tracker.wait()` waits for, and there nothing is left over. -/

namespace UatShutdown

open UatTypes UatState UatPolicy UatRecord UatHeader UatIncoming UatCallerRun
open UatDaemon StepRun TaskPool
open UatCalleeRun (Callee CalleeBehavior)
open UatCallerLoop (Caller)
open UatRateLimit (RateLimiter RateLimitConfig Instant cap)
open UatCallerLoop (remote)
open UatAttenuation (plainText oneRoot epoch)

section

variable [Base64Engine]

/-! ## What is left of a call -/

/-- The steps of a callee between here and its end, once the token has fired. -/
def calleeLeft : UatCalleeRun.Await → Nat
  | .acceptBi => 3
  | .firstFrame _ _ | .writeDenied _ | .waitTerminal _ | .linger _ => 2
  | .emit _ rest => rest.length + 3
  | .writeTimeout _ | .writeReply _ => 3
  | .joinGuard _ | .unwinding => 1
  | .returned _ | .dropped => 0

/-- The same of a caller in its loop. -/
def callerLeft : UatCallerLoop.Await → Nat
  | .writeSubmit | .writeCancel => 3
  | .select _ => 2
  | .returned _ | .panicked => 1

/-- The same of `run_caller_with`, from the opening of the stream to the join of its guard. -/
def stageLeft : Stage → Nat
  | .openBi _ => 4
  | .looping c => callerLeft c.await
  | .joinGuard _ _ _ | .unwinding _ _ => 1
  | .returned _ | .dropped => 0

section

variable (c : Callee)

/-- At the head of the waiting loop two steps are left: the loop's end and the join. -/
theorem waitTop_left : calleeLeft c.waitTop.await ≤ 2 := by
  rw [UatCalleeRun.Callee.waitTop]
  cases c.state <;> exact le_refl 2

/-- Each message yet to be emitted is a step, and two follow the last. -/
theorem emitCallee_left (msgs : List Message) :
    calleeLeft (c.emitCallee msgs).await ≤ msgs.length + 2 := by
  cases msgs with
  | nil => exact waitTop_left c
  | cons msg rest =>
      unfold UatCalleeRun.Callee.emitCallee
      dsimp only
      cases calleeStep c.state (.send msg) with
      | ok step => exact le_refl _
      | error _ => exact Nat.le_add_left 1 _

/-- Behind a failed write only the join is left. -/
theorem writeFailed_left (err : CallError) : calleeLeft (c.writeFailed err).await = 1 := by
  cases err <;> rfl

/-- At its end a callee may linger once more. -/
theorem ended_left (otherwise : Except CallError Outcome) :
    calleeLeft (c.ended otherwise).await ≤ 2 := by
  rw [UatCalleeRun.Callee.ended]
  cases c.state <;> first | exact le_refl 2 | exact Nat.le_succ 1

/-- Behind the deadline's answer it may linger once more. -/
theorem timeoutWritten_left : calleeLeft c.timeoutWritten.await ≤ 2 := by
  rw [UatCalleeRun.Callee.timeoutWritten]
  cases c.state <;> first | exact le_refl 2 | exact Nat.le_succ 1

/-- The deadline's answer has to be written first. -/
theorem onTimer_left : calleeLeft c.onTimer.await ≤ 3 := by
  rw [UatCalleeRun.Callee.onTimer]
  cases calleeStep c.state .timeout with
  | error _ => exact Nat.le_add_left 1 2
  | ok step =>
      dsimp only
      cases step.emit with
      | none => exact (timeoutWritten_left _).trans (Nat.le_succ 2)
      | some msg => exact le_refl 3

/-- A lost connection leaves what an end leaves. -/
theorem connLost_left (code : CloseCode) (otherwise : Except CallError Outcome) :
    calleeLeft (c.connLost code otherwise).await ≤ 2 := by
  rw [UatCalleeRun.Callee.connLost]
  cases calleeStep c.state (.connLost code) with
  | error _ => exact Nat.le_succ 1
  | ok step => exact ended_left _ _

/-- A frame read is answered, or waited behind. -/
theorem onRead_left (r : Checked.Exec UatStream.FrameIoError Message) :
    calleeLeft (c.onRead r).await ≤ 3 := by
  match r with
  | .ok msg =>
      rw [UatCalleeRun.Callee.onRead]
      dsimp only
      cases calleeStep c.state (.recv msg) with
      | error _ => exact Nat.le_add_left 1 2
      | ok step =>
          dsimp only
          cases step.emit with
          | none => exact (waitTop_left _).trans (Nat.le_succ 2)
          | some reply => exact le_refl 3
  | .error (.err (.codec err)) => exact Nat.le_add_left 1 2
  | .error (.err (.read _)) | .error (.err .write) | .error (.err .unexpectedEnd) =>
      exact (connLost_left _ _ _).trans (Nat.le_succ 2)
  | .error .panic => exact Nat.le_add_left 1 2

/-- A lingering callee that is polled lingers on, or returns. -/
theorem pollLinger_left (outcome : Outcome) (expired : Bool)
    (hawait : c.await = .linger outcome) : calleeLeft (c.pollLinger outcome expired).await ≤ 2 := by
  rw [UatCalleeRun.Callee.pollLinger]
  split
  · exact Nat.le_succ 1
  split
  · exact Nat.le_succ 1
  split
  · exact Nat.le_succ 1
  · rw [hawait]
    exact le_refl 2

end

/-- The events that end an await of the call. -/
def calleeProgress : UatCalleeRun.Ev → Bool
  | .setup _ _ | .wrote _ | .poll _ | .guardJoined | .drop => true
  | _ => false

/-- Until it is over a callee has a step left. -/
theorem one_le_left {a : UatCalleeRun.Await} (h : a.over = false) : 1 ≤ calleeLeft a := by
  cases a <;> simp [calleeLeft, UatCalleeRun.Await.over] at h ⊢

section

variable [text : JsonText] {Key : Type} [BiscuitEngine Key] {policy : Policy Key}
  {peer : NodeId} {behavior : CalleeBehavior} {c c' : Callee}

omit text in
/-- No behavior emits more than two messages. -/
theorem emits_length (behavior : CalleeBehavior) : behavior.emits.length ≤ 2 := by
  cases behavior <;> first | exact le_refl 2 | exact Nat.le_succ 1

omit text in
/-- The verdict on the first frame leaves at most the denial or two messages to write. -/
theorem authorize_left (c : Callee) (now : SystemTime) (header : Message) (body : Bytes) :
    calleeLeft (c.authorize policy peer behavior now header body).await ≤ 4 := by
  rw [UatCalleeRun.Callee.authorize]
  split
  · have := emits_length behavior
    refine (emitCallee_left _ _).trans ?_
    omega
  · exact Nat.le_add_left 2 2
  · exact Nat.le_add_left 1 3

/-- So does a poll of the first frame. -/
theorem pollFirstFrame_left (c : Callee) (now : SystemTime) (read : UatRecvStream.ReadFrame)
    (expired : Bool) :
    calleeLeft (c.pollFirstFrame policy peer behavior now read expired).await ≤ 4 := by
  rw [UatCalleeRun.Callee.pollFirstFrame]
  split
  · exact Nat.le_add_left 1 3
  split
  · exact Nat.le_add_left 1 3
  split
  · rw [UatCalleeRun.Callee.onFrame]
    split
    · exact authorize_left _ _ _ _
    · exact Nat.le_add_left 1 3
    · exact Nat.le_add_left 1 3
  · exact Nat.le_add_left 1 3
  · exact Nat.le_add_left 1 3
  · split
    · exact Nat.le_add_left 1 3
    · exact Nat.le_add_left 2 2

/-- A poll of the waiting loop leaves an answer to write at most. -/
theorem pollWait_left (c : Callee) (read : UatRecvStream.ReadFrame) (expired : Bool)
    (hawait : c.await = .waitTerminal read) :
    calleeLeft (c.pollWait behavior read expired).await ≤ 3 := by
  rw [UatCalleeRun.Callee.pollWait]
  split
  · exact Nat.le_add_left 1 2
  split
  · exact onTimer_left c
  split
  · exact (connLost_left _ _ _).trans (Nat.le_succ 2)
  split
  · rw [hawait]
    exact Nat.le_succ 2
  split
  · exact onRead_left _ _
  split
  · exact (waitTop_left _).trans (Nat.le_succ 2)
  · exact Nat.le_succ 2

/-- What ends no await leaves it as it is. -/
theorem callee_waits {e : UatCalleeRun.Ev}
    (hs : UatCalleeRun.step policy peer behavior c e = some c') (he : calleeProgress e = false) :
    c'.await = c.await := by
  cases e with
  | arrive bytes | endStream e | close err | timer =>
      obtain ⟨-, hs⟩ := Option.ite_none_right_eq_some.mp hs
      obtain rfl := Option.some.inj hs
      rfl
  | shutdown | spend spent =>
      obtain rfl := Option.some.inj hs
      rfl
  | _ => cases he

/-- The end of a write is a step nearer to the end of the call. -/
theorem wrote_left {w : UatCallerLoop.WriteEnd}
    (hs : UatCalleeRun.step policy peer behavior c (.wrote w) = some c') :
    calleeLeft c'.await < calleeLeft c.await := by
  cases hawait : c.await with
  | writeDenied reason =>
      simp only [UatCalleeRun.step, hawait] at hs
      obtain rfl := Option.some.inj hs
      exact Nat.lt_succ_self 1
  | emit msg rest =>
      simp only [UatCalleeRun.step, hawait] at hs
      split at hs
      · obtain rfl := Option.some.inj hs
        exact Nat.lt_succ_of_le (emitCallee_left _ _)
      · obtain rfl := Option.some.inj hs
        rw [writeFailed_left]
        exact Nat.lt_of_lt_of_le (by decide) (Nat.le_add_left 3 _)
  | writeTimeout msg =>
      simp only [UatCalleeRun.step, hawait] at hs
      split at hs
      · obtain rfl := Option.some.inj hs
        exact Nat.lt_succ_of_le (timeoutWritten_left _)
      · obtain rfl := Option.some.inj hs
        exact Nat.lt_succ_of_le (timeoutWritten_left _)
  | writeReply msg =>
      simp only [UatCalleeRun.step, hawait] at hs
      split at hs
      · obtain rfl := Option.some.inj hs
        exact Nat.lt_succ_of_le (waitTop_left _)
      · obtain rfl := Option.some.inj hs
        rw [writeFailed_left]
        exact Nat.lt_succ_of_lt (Nat.lt_succ_self 1)
  | _ => simp only [UatCalleeRun.step, hawait] at hs; cases hs

/-- **Once the token is seen**, whatever ends an await of the callee is a step nearer to the
    end of its call. -/
theorem callee_nearer {e : UatCalleeRun.Ev}
    (hs : UatCalleeRun.step policy peer behavior c e = some c') (hshutdown : c.shutdown = true)
    (he : calleeProgress e = true) : calleeLeft c'.await < calleeLeft c.await := by
  cases e with
  | setup r now =>
      obtain ⟨hawait, ⟨-, rfl⟩ | ⟨-, reason, rfl⟩⟩ := UatCalleeRun.step_setup hs
      · rw [hawait]
        exact Nat.lt_succ_self 2
      · rw [hawait]
        exact Nat.succ_pos 2
  | wrote w => exact wrote_left hs
  | poll expired =>
      -- All three awaits ask the token first.
      rcases UatCalleeRun.step_poll hs with
        ⟨now, read, hawait, rfl⟩ | ⟨read, hawait, rfl⟩ | ⟨outcome, hawait, rfl⟩
      · rw [UatCalleeRun.Callee.pollFirstFrame, if_pos hshutdown, hawait]
        exact Nat.lt_succ_self 1
      · rw [UatCalleeRun.Callee.pollWait, if_pos hshutdown, hawait]
        exact Nat.lt_succ_self 1
      · rw [UatCalleeRun.Callee.pollLinger, if_pos hshutdown, hawait]
        exact Nat.lt_succ_self 1
  | guardJoined =>
      obtain ⟨result, hawait, rfl⟩ := UatCalleeRun.step_joined hs
      rw [hawait]
      exact Nat.succ_pos 0
  | drop =>
      obtain ⟨hover, hs⟩ := Option.ite_none_left_eq_some.mp hs
      obtain rfl := Option.some.inj hs
      exact one_le_left (Bool.eq_false_iff.mpr hover)
  | _ => cases he

/-- Before the token, too, a call is never more than four steps from its end. -/
theorem callee_bounded {e : UatCalleeRun.Ev}
    (hs : UatCalleeRun.step policy peer behavior c e = some c') (h : calleeLeft c.await ≤ 4) :
    calleeLeft c'.await ≤ 4 := by
  cases hprogress : calleeProgress e with
  | false => rwa [callee_waits hs hprogress]
  | true =>
      cases e with
      | poll expired =>
          rcases UatCalleeRun.step_poll hs with
            ⟨now, read, hawait, rfl⟩ | ⟨read, hawait, rfl⟩ | ⟨outcome, hawait, rfl⟩
          · exact pollFirstFrame_left c now read expired
          · exact (pollWait_left c read expired hawait).trans (Nat.le_succ 3)
          · exact (pollLinger_left c outcome expired hawait).trans (Nat.le_add_left 2 2)
      | setup r now =>
          obtain ⟨-, ⟨-, rfl⟩ | ⟨-, reason, rfl⟩⟩ := UatCalleeRun.step_setup hs
          · exact Nat.le_add_left 2 2
          · exact Nat.zero_le 4
      | wrote w => exact (wrote_left hs).le.trans h
      | guardJoined =>
          obtain ⟨result, -, rfl⟩ := UatCalleeRun.step_joined hs
          exact Nat.zero_le 4
      | drop =>
          obtain ⟨-, hs⟩ := Option.ite_none_left_eq_some.mp hs
          obtain rfl := Option.some.inj hs
          exact Nat.zero_le 4
      | _ => cases hprogress

end

/-! ## What is left of a dial -/

/-- The events that end an await of the caller. -/
def callerProgress : UatCallerRun.Ev → Bool
  | .setup _ | .guardJoined | .drop | .unwound => true
  | .call (.wrote _) | .call (.poll _) => true
  | .call _ => false

section

variable (c : Caller)

/-- At the head of the caller's loop its select and the join are left. -/
theorem loopTop_left : callerLeft c.loopTop.await ≤ 2 := by
  rw [UatCallerLoop.Caller.loopTop]
  cases c.state <;> first | exact le_refl 2 | exact Nat.le_succ 1

/-- Behind a failed write the caller only returns. -/
theorem callerWriteFailed_left (err : CallError) : callerLeft (c.writeFailed err).await = 1 := by
  cases err <;> rfl

/-- Behind the `Submit` the loop turns, or returns. -/
theorem submitWritten_left (w : UatCallerLoop.WriteEnd) :
    callerLeft (c.submitWritten w).await ≤ 2 := by
  rw [UatCallerLoop.Caller.submitWritten]
  cases w.result with
  | error err =>
      dsimp only
      split
      · exact Nat.le_succ 1
      · rw [callerWriteFailed_left]
        exact Nat.le_succ 1
  | ok _ =>
      dsimp only
      split
      · exact Nat.le_succ 1
      · exact loopTop_left _

/-- So it does behind the `Cancel`. -/
theorem cancelWritten_left (w : UatCallerLoop.WriteEnd) :
    callerLeft (c.cancelWritten w).await ≤ 2 := by
  rw [UatCallerLoop.Caller.cancelWritten]
  cases w.result with
  | error err =>
      dsimp only
      rw [callerWriteFailed_left]
      exact Nat.le_succ 1
  | ok _ => exact loopTop_left c

/-- What the call around the loop has left is what the loop has. -/
theorem settle_left (s : CallerRun) : stageLeft (s.settle c).stage = callerLeft c.await := by
  rw [CallerRun.settle]
  cases hawait : c.await <;> simp [stageLeft, callerLeft, hawait]

end

/-- An open stream leaves the `Submit` to write, the select and the join. -/
theorem opened_left (submit : Message) (wire : Bytes) (o : Opening) (s : CallerRun) :
    stageLeft (o.opened submit wire s).stage ≤ 3 := by
  cases submit with
  | submit task deadline contentType credential body => exact le_refl 3
  | _ => exact Nat.le_add_left 1 2

/-- While the guard lives a call has a step left. -/
theorem one_le_stageLeft {stage : Stage} {guard : CallRecordGuard × Bool}
    (h : stage.guard = some guard) : 1 ≤ stageLeft stage := by
  cases stage with
  | looping c => cases hawait : c.await <;> simp [stageLeft, callerLeft, hawait]
  | openBi o | joinGuard record lost result | unwinding record lost => exact Nat.succ_pos _
  | _ => cases h

/-- The caller has seen the token, wherever it looks. -/
def Seen (s : CallerRun) : Prop := ∀ c, s.stage = .looping c → c.shutdown = true

variable [text : JsonText] {submit : Message} {wire : Bytes} {s s' : CallerRun}

/-- What ends no await of the caller brings it no further from its end. -/
theorem caller_waits {e : UatCallerRun.Ev} (hs : UatCallerRun.step submit wire s e = some s')
    (he : callerProgress e = false) : stageLeft s'.stage = stageLeft s.stage := by
  cases e with
  | call e =>
      rcases step_call hs with ⟨o, o', hstage, -, rfl⟩ | ⟨c, c', hstage, hc, rfl⟩
      · rw [hstage]
        rfl
      · rw [settle_left, hstage]
        refine congrArg callerLeft ?_
        cases e with
        | arrive n | finish | lose | close err | hookSend | hookDrop =>
            obtain ⟨-, hc⟩ := Option.ite_none_right_eq_some.mp hc
            obtain rfl := Option.some.inj hc
            rfl
        | shutdown | timer =>
            obtain rfl := Option.some.inj hc
            rfl
        | _ => cases he
  | _ => cases he

/-- **Once the token is seen**, whatever ends an await of the caller is a step nearer to the
    end of its call. -/
theorem caller_nearer {e : UatCallerRun.Ev} (hs : UatCallerRun.step submit wire s e = some s')
    (hseen : Seen s) (he : callerProgress e = true) :
    stageLeft s'.stage < stageLeft s.stage := by
  cases e with
  | setup r =>
      obtain ⟨o, hstage, ⟨-, rfl⟩ | ⟨-, err, reason, rfl⟩⟩ := step_setup hs
      · rw [hstage]
        exact Nat.lt_succ_of_le (opened_left submit wire o s)
      · rw [hstage, Opening.failed]
        cases o.closed <;> exact Nat.succ_pos 3
  | call e =>
      rcases step_call hs with ⟨o, o', -, ho, -⟩ | ⟨c, c', hstage, hc, rfl⟩
      · cases e <;> first | (cases he; done) | cases ho
      · rw [settle_left, hstage]
        cases e with
        | wrote w =>
            rcases UatCallerLoop.step_wrote hc with ⟨hawait, rfl⟩ | ⟨hawait, rfl⟩
            · rw [stageLeft, hawait]
              exact Nat.lt_succ_of_le (submitWritten_left c w)
            · rw [stageLeft, hawait]
              exact Nat.lt_succ_of_le (cancelWritten_left c w)
        | poll expired =>
            obtain ⟨read, hawait, rfl⟩ := UatCallerLoop.step_poll hc
            rw [UatCallerLoop.Caller.pollSelect, if_pos (hseen c hstage), stageLeft, hawait]
            exact Nat.lt_succ_self 1
        | _ => cases he
  | guardJoined =>
      obtain ⟨record, lost, result, hstage, rfl⟩ := step_joined hs
      rw [hstage]
      exact Nat.succ_pos 0
  | drop =>
      obtain ⟨record, lost, hguard, rfl⟩ := step_dropped hs
      exact one_le_stageLeft hguard
  | unwound =>
      obtain ⟨record, lost, hstage, rfl⟩ := step_unwound hs
      rw [hstage]
      exact Nat.succ_pos 0

/-! ## What is left of a node -/

/-- The return of `handle_incoming`, and the call before it. -/
def handlingLeft : Handling → Nat
  | .refused _ _ => 1
  | .calling _ c => calleeLeft c.await + 1

/-- The handshake, the call, and the return of `handle_incoming`. -/
def taskLeft : Task → Nat
  | .incoming | .connecting _ _ => 5
  | .inbound _ h => handlingLeft h
  | .outbound _ _ _ s => stageLeft s.stage
  | .unconnected | .handled _ _ => 0

/-- The loop may be past the token's check, and accept one connection more. -/
def acceptLoopLeft : AcceptLoop → Nat
  | .stopped => 0
  | .top => 1
  | .accepting => 7

/-- What the tasks of the node still have to do. -/
def stepsLeft (w : World) : Nat :=
  acceptLoopLeft w.shared.acceptLoop + (w.members.map taskLeft).sum

/-- A step of a task's own. -/
def actProgress : Act → Bool
  | .connected _ _ _ | .connectFailed | .finish => true
  | .callee e => calleeProgress e
  | .caller e => callerProgress e

/-- A step of the accept loop or of a task, as opposed to what the peers and the clock do. -/
def progress : Event → Bool
  | .spawn _ => true
  | .act _ a => actProgress a
  | .env .cancel => false
  | .env _ => true

/-- Nobody dials any more. -/
def NoDial : Event → Prop
  | .spawn (.dial _ _) => False
  | _ => True

section

variable {Key : Type} [BiscuitEngine Key] {policy : Policy Key} {behavior : CalleeBehavior}

omit text [BiscuitEngine Key] in
/-- A connection let in leaves the whole of a callee and the return. -/
theorem handleIncoming_left (policy : Policy Key) (verified : Bool) (limiter : RateLimiter)
    (peer : NodeId) (now : Instant) (spent : MemorySpentSet) :
    handlingLeft (handleIncoming policy verified limiter peer now spent).1 ≤ 4 := by
  rw [handleIncoming]
  split
  · exact Nat.le_add_left 1 3
  split
  · rw [UatCalleeRun.runCalleeWith]
    split
    · exact Nat.le_add_left 1 3
    · exact le_refl 4
  · exact Nat.le_add_left 1 3

omit text in
/-- A dial leaves the opening of its stream and what follows it. -/
theorem runCallerWith_left (peer : NodeId) (submit : Message) (closed : Option ConnectionError) :
    stageLeft (runCallerWith peer submit none closed).stage ≤ 4 := by
  cases submit with
  | submit task deadline contentType credential body => exact le_refl 4
  | _ => exact Nat.zero_le 4

/-- What the caller is shown of the token. -/
theorem shownCaller_seen {d : Node} (hcancel : d.cancel = true) (submit : Message) (wire : Bytes)
    (s : CallerRun) :
    Seen (d.shownCaller submit wire s) ∧
      stageLeft (d.shownCaller submit wire s).stage = stageLeft s.stage := by
  rw [Node.shownCaller, if_pos hcancel]
  cases hs : UatCallerRun.step submit wire s (.call .shutdown) with
  | none =>
      refine ⟨fun c hstage => ?_, rfl⟩
      have hstage' : s.stage = .looping c := hstage
      simp [UatCallerRun.step, hstage', UatCallerLoop.step] at hs
  | some s' =>
      refine ⟨fun c hstage => ?_, caller_waits hs rfl⟩
      have hstage' : s'.stage = .looping c := hstage
      rcases step_call hs with ⟨o, o', -, -, rfl⟩ | ⟨c₀, c', -, hc, rfl⟩
      · cases hstage'
      · obtain rfl := Option.some.inj hc
        rw [CallerRun.settle] at hstage'
        split at hstage'
        · cases hstage'
        · cases hstage'
        · obtain rfl := Stage.looping.inj hstage'
          rfl

/-- **A step of a task** after the token has fired. -/
theorem act_left {d d' : Node} {t t' : Task} {a : Act} (hcancel : d.cancel = true)
    (h : act policy behavior d t a = some (d', t')) :
    d'.cancel = d.cancel ∧ d'.acceptLoop = d.acceptLoop ∧
      taskLeft t' + (if actProgress a = true then 1 else 0) ≤ taskLeft t := by
  cases a with
  | connected peer now closed =>
      cases t with
      | incoming =>
          obtain ⟨rfl, rfl⟩ := Prod.mk.inj (Option.some.inj h)
          exact ⟨rfl, rfl, Nat.succ_le_succ (handleIncoming_left policy _ _ _ _ _)⟩
      | connecting submit wire =>
          obtain ⟨rfl, rfl⟩ := Prod.mk.inj (Option.some.inj h)
          exact ⟨rfl, rfl, Nat.succ_le_succ (runCallerWith_left peer submit closed)⟩
      | _ => cases h
  | connectFailed =>
      cases t with
      | incoming | connecting submit wire =>
          obtain ⟨rfl, rfl⟩ := Prod.mk.inj (Option.some.inj h)
          exact ⟨rfl, rfl, Nat.le_add_left 1 4⟩
      | _ => cases h
  | callee e =>
      cases t with
      | inbound peer handling =>
          cases handling with
          | refused code record => cases h
          | calling permit c =>
              obtain ⟨-, h⟩ := Option.ite_none_right_eq_some.mp h
              obtain ⟨c', hs, hr⟩ := Option.map_eq_some_iff.mp h
              obtain ⟨rfl, rfl⟩ := Prod.mk.inj hr
              refine ⟨rfl, rfl, ?_⟩
              have hshown : (d.shown c).shutdown = true := by
                rw [Node.shown, hcancel, Bool.or_true]
              show calleeLeft c'.await + 1 + (if calleeProgress e = true then 1 else 0) ≤
                calleeLeft (d.shown c).await + 1
              split
              · next he => exact Nat.succ_le_succ (callee_nearer hs hshown he)
              · next he =>
                  rw [callee_waits hs (Bool.eq_false_iff.mpr he)]
      | _ => cases h
  | caller e =>
      cases t with
      | outbound peer submit wire s =>
          obtain ⟨-, h⟩ := Option.ite_none_right_eq_some.mp h
          obtain ⟨s', hs, hr⟩ := Option.map_eq_some_iff.mp h
          obtain ⟨rfl, rfl⟩ := Prod.mk.inj hr
          refine ⟨rfl, rfl, ?_⟩
          obtain ⟨hseen, hshown⟩ := shownCaller_seen hcancel submit wire s
          show stageLeft s'.stage + (if callerProgress e = true then 1 else 0) ≤ stageLeft s.stage
          split
          · next he =>
              rw [← hshown]
              exact caller_nearer hs hseen he
          · next he =>
              rw [caller_waits hs (Bool.eq_false_iff.mpr he), hshown]
              exact le_refl _
      | _ => cases h
  | finish =>
      cases t with
      | inbound peer handling =>
          obtain ⟨-, h⟩ := Option.ite_none_right_eq_some.mp h
          obtain ⟨rfl, rfl⟩ := Prod.mk.inj (Option.some.inj h)
          cases handling with
          | refused code record => exact ⟨rfl, rfl, le_refl 1⟩
          | calling permit c => exact ⟨rfl, rfl, Nat.le_add_left 1 _⟩
      | _ => cases h

omit text in
/-- A task's step is paid by the task. -/
theorem sum_set {ts : List Task} {i : Nat} {t : Task} (t' : Task) (hi : ts[i]? = some t) :
    ((ts.set i t').map taskLeft).sum + taskLeft t = (ts.map taskLeft).sum + taskLeft t' := by
  obtain ⟨before, after, hts, hset⟩ := members_split hi t'
  rw [hset, hts]
  simp only [List.map_append, List.map_cons, List.sum_append, List.sum_cons]
  omega

/-- **The step lemma.**  Every step of the loop or of a task is paid for, and nothing else
    costs anything. -/
theorem step_left {w w' : World} {e : Event} (hcancel : w.shared.cancel = true) (he : NoDial e)
    (hs : TaskPool.step (daemon policy behavior) w e = some w') :
    w'.shared.cancel = true ∧
      stepsLeft w' + (if progress e = true then 1 else 0) ≤ stepsLeft w := by
  cases e with
  | spawn b =>
      obtain ⟨d, t, hspawn, rfl⟩ := step_spawn hs
      cases b with
      | dial submit wire => exact he.elim
      | accept =>
          obtain ⟨haccepting, hspawn⟩ := Option.ite_none_right_eq_some.mp hspawn
          obtain ⟨rfl, rfl⟩ := Prod.mk.inj (Option.some.inj hspawn)
          refine ⟨hcancel, ?_⟩
          simp [stepsLeft, haccepting, acceptLoopLeft, progress, taskLeft]
          omega
  | act i a =>
      obtain ⟨t, d, t', hi, hact, rfl⟩ := step_act hs
      obtain ⟨hcancel', hloop, hle⟩ := act_left hcancel hact
      refine ⟨hcancel'.trans hcancel, ?_⟩
      have hsum := sum_set t' hi
      show acceptLoopLeft d.acceptLoop + ((w.members.set i t').map taskLeft).sum +
        (if actProgress a = true then 1 else 0) ≤ stepsLeft w
      rw [stepsLeft, hloop]
      omega
  | env c =>
      obtain ⟨d, hsignal, rfl⟩ := step_env hs
      cases c with
      | cancel =>
          obtain rfl := Option.some.inj hsignal
          exact ⟨rfl, le_refl _⟩
      | pollAccept =>
          obtain ⟨htop, hsignal⟩ := Option.ite_none_right_eq_some.mp hsignal
          obtain rfl := Option.some.inj hsignal
          refine ⟨hcancel, ?_⟩
          simp [stepsLeft, htop, hcancel, acceptLoopLeft, progress]
      | acceptPending | acceptNone =>
          obtain ⟨haccepting, hsignal⟩ := Option.ite_none_right_eq_some.mp hsignal
          obtain rfl := Option.some.inj hsignal
          refine ⟨hcancel, ?_⟩
          simp [stepsLeft, haccepting, acceptLoopLeft, progress]

omit text in
/-- No call of a caller has more than five steps left. -/
theorem stageLeft_le (stage : Stage) : stageLeft stage ≤ 5 := by
  cases stage with
  | looping c =>
      rw [stageLeft]
      cases c.await <;> simp [callerLeft]
  | _ => simp [stageLeft]

/-- No task is further than five steps from its end. -/
theorem RunsAlone.left {t : Task} (h : RunsAlone policy behavior t) : taskLeft t ≤ 5 := by
  cases t with
  | inbound peer handling =>
      obtain ⟨limiter, now, spent, es, hrun⟩ := h
      refine run_invariant (fun h => handlingLeft h ≤ 5) ?_ es _ handling
        ((handleIncoming_left policy _ limiter peer now spent).trans (Nat.le_succ 4)) hrun
      intro h e h' hle hs
      cases h with
      | refused code record => cases hs
      | calling permit c =>
          obtain ⟨c', hc, rfl⟩ := Option.map_eq_some_iff.mp hs
          exact Nat.succ_le_succ (callee_bounded hc (Nat.le_of_succ_le_succ hle))
  | outbound peer submit wire s => exact stageLeft_le s.stage
  | incoming | connecting submit wire => exact le_refl 5
  | _ => exact Nat.zero_le 5

/-- **SHUTDOWN IS BOUNDED.**  Once the token has fired, the loop and the tasks make at most
    seven steps and five for each connection there was, in whatever order, with whatever
    the peers and the clock do in between. -/
theorem shutdown_bounded {limits : RateLimitConfig} {spent : MemorySpentSet} {es es' : List Event}
    {w w' : World}
    (hrun : runFrom (TaskPool.step (daemon policy behavior)) ⟨.bind limits spent, []⟩ es = some w)
    (hcancel : w.shared.cancel = true)
    (hrun' : runFrom (TaskPool.step (daemon policy behavior)) w es' = some w')
    (hdial : ∀ e ∈ es', NoDial e) : es'.countP progress ≤ 5 * w.members.length + 7 := by
  have hpaid : es'.countP progress + stepsLeft w' ≤ stepsLeft w :=
    run_progress_le (C := fun _ e => NoDial e) (fun w => w.shared.cancel = true)
      (fun _ _ _ hc he hs => step_left hc he hs) es' w w' hcancel (everyStep_of_forall hdial) hrun'
  have hloop : acceptLoopLeft w.shared.acceptLoop ≤ 7 := by
    cases w.shared.acceptLoop <;> decide
  have htasks : (w.members.map taskLeft).sum ≤ (w.members.map taskLeft).length * 5 := by
    refine List.sum_le_card_nsmul _ 5 fun n hn => ?_
    obtain ⟨t, ht, rfl⟩ := List.mem_map.mp hn
    exact RunsAlone.left (alone_of_mem hrun ht)
  rw [List.length_map] at htasks
  unfold stepsLeft at hpaid
  omega

/-! ## The tasks can always go on -/

/-- The task is through. -/
def overTask : Task → Bool
  | .unconnected | .handled _ _ => true
  | .outbound _ _ _ s => s.stage.over
  | _ => false

/-- A future is dropped only by the panic that unwinds it. -/
def Natural (t : Task) : Act → Prop
  | .callee .drop =>
      match t with
      | .inbound _ (.calling _ c) => c.await = .unwinding
      | _ => False
  | .caller .drop => False
  | _ => True

/-- An event that ends the await of a call. -/
theorem callee_can (policy : Policy Key) (behavior : CalleeBehavior) {c : Callee} (peer : NodeId)
    (hover : c.await.over = false) :
    ∃ e c', ofPeer e = true ∧ calleeProgress e = true ∧ (e = .drop → c.await = .unwinding) ∧
      UatCalleeRun.step policy peer behavior c e = some c' := by
  cases hawait : c.await with
  | acceptBi =>
      exact ⟨.setup .timedOut epoch, _, rfl, rfl, (by simp), by rw [UatCalleeRun.step, hawait]⟩
  | firstFrame now read =>
      exact ⟨.poll false, _, rfl, rfl, (by simp), by rw [UatCalleeRun.step, hawait]⟩
  | waitTerminal read =>
      exact ⟨.poll false, _, rfl, rfl, (by simp), by rw [UatCalleeRun.step, hawait]⟩
  | linger outcome =>
      exact ⟨.poll false, _, rfl, rfl, (by simp), by rw [UatCalleeRun.step, hawait]⟩
  | writeDenied reason =>
      exact ⟨.wrote .done, _, rfl, rfl, (by simp), by rw [UatCalleeRun.step, hawait]⟩
  | emit msg rest =>
      exact ⟨.wrote .done, _, rfl, rfl, (by simp), by rw [UatCalleeRun.step, hawait]; rfl⟩
  | writeTimeout msg =>
      exact ⟨.wrote .done, _, rfl, rfl, (by simp), by rw [UatCalleeRun.step, hawait]; rfl⟩
  | writeReply msg =>
      exact ⟨.wrote .done, _, rfl, rfl, (by simp), by rw [UatCalleeRun.step, hawait]; rfl⟩
  | joinGuard result =>
      exact ⟨.guardJoined, _, rfl, rfl, (by simp), by rw [UatCalleeRun.step, hawait]⟩
  | unwinding =>
      refine ⟨.drop, c.drop, rfl, rfl, fun _ => rfl, ?_⟩
      rw [UatCalleeRun.step, hover]
      rfl
  | returned result => rw [hawait] at hover; cases hover
  | dropped => rw [hawait] at hover; cases hover

/-- Inside its loop a caller is at an await. -/
def AtAwait (s : CallerRun) : Prop := ∀ c, s.stage = .looping c → c.await.running = true

omit text in
/-- What the loop has come to is an await, or it has stopped. -/
theorem settle_atAwait (s : CallerRun) (c : Caller) : AtAwait (s.settle c) := by
  intro c' hstage
  rw [CallerRun.settle] at hstage
  cases hawait : c.await with
  | returned result => rw [hawait] at hstage; cases hstage
  | panicked => rw [hawait] at hstage; cases hstage
  | _ =>
      rw [hawait] at hstage
      obtain rfl := Stage.looping.inj hstage
      rw [hawait]
      rfl

/-- Every step of a call leaves its loop at an await. -/
theorem step_atAwait {submit : Message} {wire : Bytes} {s s' : CallerRun} {e : UatCallerRun.Ev}
    (hs : UatCallerRun.step submit wire s e = some s') : AtAwait s' := by
  cases e with
  | setup r =>
      obtain ⟨o, -, ⟨-, rfl⟩ | ⟨-, err, reason, rfl⟩⟩ := step_setup hs
      · intro c hstage
        rw [Opening.opened] at hstage
        cases submit with
        | submit task deadline contentType credential body =>
            obtain rfl := Stage.looping.inj hstage
            rfl
        | _ => cases hstage
      · intro c hstage
        rw [Opening.failed] at hstage
        cases hclosed : o.closed <;> rw [hclosed] at hstage <;> cases hstage
  | call e =>
      rcases step_call hs with ⟨o, o', -, -, rfl⟩ | ⟨c, c', -, -, rfl⟩
      · intro c hstage
        cases hstage
      · exact settle_atAwait s c'
  | guardJoined =>
      obtain ⟨record, lost, result, -, rfl⟩ := step_joined hs
      intro c hstage
      cases hstage
  | drop =>
      obtain ⟨record, lost, -, rfl⟩ := step_dropped hs
      intro c hstage
      cases hstage
  | unwound =>
      obtain ⟨record, lost, -, rfl⟩ := step_unwound hs
      intro c hstage
      cases hstage

omit text in
/-- A call starts outside its loop. -/
theorem start_atAwait (peer : NodeId) (submit : Message) (closed : Option ConnectionError) :
    AtAwait (runCallerWith peer submit none closed) := by
  intro c hstage
  cases submit <;> cases hstage

/-- A dial that is not over is not over for being shown the token. -/
theorem shownCaller_over (d : Node) {submit : Message} {wire : Bytes} {s : CallerRun}
    (hover : s.stage.over = false) : (d.shownCaller submit wire s).stage.over = false := by
  rw [Node.shownCaller]
  split
  · cases hs : UatCallerRun.step submit wire s (.call .shutdown) with
    | none => exact hover
    | some s' =>
        rcases step_call hs with ⟨o, o', -, -, rfl⟩ | ⟨c, c', -, -, rfl⟩
        · rfl
        · show (s.settle c').stage.over = false
          rw [CallerRun.settle]
          cases c'.await <;> rfl
  · exact hover

/-- An event that ends the await of a dial. -/
theorem caller_can (submit : Message) (wire : Bytes) {s : CallerRun} (hawait : AtAwait s)
    (hover : s.stage.over = false) :
    ∃ e s', ofCallee e = true ∧ callerProgress e = true ∧ e ≠ .drop ∧
      UatCallerRun.step submit wire s e = some s' := by
  cases hstage : s.stage with
  | openBi o => exact ⟨.setup .timedOut, _, rfl, rfl, (by simp), by rw [UatCallerRun.step, hstage]⟩
  | looping c =>
      have hrunning := hawait c hstage
      cases hc : c.await with
      | writeSubmit =>
          refine ⟨.call (.wrote .done), s.settle (c.submitWritten .done), rfl, rfl, (by simp), ?_⟩
          simp only [UatCallerRun.step, hstage, UatCallerLoop.step, hc]
          rfl
      | writeCancel =>
          refine ⟨.call (.wrote .done), s.settle (c.cancelWritten .done), rfl, rfl, (by simp), ?_⟩
          simp only [UatCallerRun.step, hstage, UatCallerLoop.step, hc]
          rfl
      | select read =>
          refine ⟨.call (.poll false), s.settle (c.pollSelect read false), rfl, rfl, (by simp), ?_⟩
          simp only [UatCallerRun.step, hstage, UatCallerLoop.step, hc]
          rfl
      | returned result | panicked => rw [hc] at hrunning; cases hrunning
  | joinGuard record lost result =>
      exact ⟨.guardJoined, _, rfl, rfl, (by simp), by rw [UatCallerRun.step, hstage]⟩
  | unwinding record lost =>
      exact ⟨.unwound, _, rfl, rfl, (by simp), by rw [UatCallerRun.step, hstage]⟩
  | returned result => rw [hstage] at hover; cases hover
  | dropped => rw [hstage] at hover; cases hover

/-- A task that is not through can take a step of its own. -/
theorem act_can (d : Node) {t : Task} (halone : RunsAlone policy behavior t)
    (hover : overTask t = false) :
    ∃ a d' t', actProgress a = true ∧ Natural t a ∧ act policy behavior d t a = some (d', t') := by
  cases t with
  | incoming | connecting submit wire => exact ⟨.connectFailed, _, _, rfl, trivial, rfl⟩
  | inbound peer handling =>
      cases handling with
      | refused code record => exact ⟨.finish, _, _, rfl, trivial, rfl⟩
      | calling permit c =>
          cases hc : c.await.over with
          | true =>
              have hdone : (Handling.calling permit c).over = true := hc
              exact ⟨.finish, _, _, rfl, trivial, if_pos hdone⟩
          | false =>
              have hshown : (d.shown c).await.over = false := hc
              obtain ⟨e, c', hof, hprogress, hdrop, hs⟩ :=
                callee_can policy behavior peer hshown
              refine ⟨.callee e, d.afterCallee c c', .inbound peer (.calling permit c'), hprogress,
                ?_, ?_⟩
              · cases e with
                | drop => exact hdrop rfl
                | _ => trivial
              · simp [act, hof, hs]
  | outbound peer submit wire s =>
      obtain ⟨closed, es, hrun⟩ := halone
      obtain ⟨more, hmore⟩ := shownCaller_run d submit wire s
      have hall : runFrom (UatCallerRun.step submit wire) (runCallerWith peer submit none closed)
          (es ++ more) = some (d.shownCaller submit wire s) := by
        rw [runFrom_append, hrun]
        exact hmore
      have hawait : AtAwait (d.shownCaller submit wire s) :=
        run_invariant AtAwait (fun _ _ _ _ hs => step_atAwait hs) _ _ _
          (start_atAwait peer submit closed) hall
      obtain ⟨e, s', hof, hprogress, hdrop, hs⟩ :=
        caller_can submit wire hawait (shownCaller_over d hover)
      refine ⟨.caller e, d.afterCaller s s', .outbound peer submit wire s', hprogress, ?_, ?_⟩
      · cases e with
        | drop => exact absurd rfl hdrop
        | _ => trivial
      · simp [act, hof, hs]
  | unconnected | handled peer h => cases hover

/-- A step of the loop or of a task, with no future dropped at an await and nobody new. -/
def Own (w : World) : Event → Prop
  | .act i a => actProgress a = true ∧ ∃ t, w.members[i]? = some t ∧ Natural t a
  | .env c => c ≠ .cancel
  | .spawn _ => False

/-- The loop has stopped, and every task is through. -/
structure AllOver (w : World) : Prop where
  acceptLoop : w.shared.acceptLoop = .stopped
  tasks : ∀ t ∈ w.members, overTask t = true

variable (policy behavior)

/-- A node that has been run from its start, and whose token has fired. -/
def Stopping (limits : RateLimitConfig) (spent : MemorySpentSet) (w : World) : Prop :=
  w.shared.cancel = true ∧ ∃ es,
    runFrom (TaskPool.step (daemon policy behavior)) ⟨.bind limits spent, []⟩ es = some w

variable {policy behavior}

/-- A step of its own brings a stopping node nearer to its end. -/
theorem Stopping.next {limits : RateLimitConfig} {spent : MemorySpentSet} {w w' : World}
    {e : Event} (h : Stopping policy behavior limits spent w) (he : NoDial e)
    (hs : TaskPool.step (daemon policy behavior) w e = some w') (hprogress : progress e = true) :
    Stopping policy behavior limits spent w' ∧ stepsLeft w' < stepsLeft w := by
  obtain ⟨hcancel, es, hrun⟩ := h
  obtain ⟨hcancel', hle⟩ := step_left hcancel he hs
  rw [if_pos hprogress] at hle
  refine ⟨⟨hcancel', es ++ [e], ?_⟩, hle⟩
  rw [runFrom_snoc, hrun]
  exact hs

/-- While anything is left, there is a step of the node's own. -/
theorem Stopping.can {limits : RateLimitConfig} {spent : MemorySpentSet} {w : World}
    (h : Stopping policy behavior limits spent w) (hleft : ¬ AllOver w) :
    ∃ e w', Own w e ∧ TaskPool.step (daemon policy behavior) w e = some w' ∧
      Stopping policy behavior limits spent w' ∧ stepsLeft w' < stepsLeft w := by
  by_cases htasks : ∀ t ∈ w.members, overTask t = true
  · -- All that goes on is the accept loop.
    cases hloop : w.shared.acceptLoop with
    | stopped => exact absurd ⟨hloop, htasks⟩ hleft
    | top =>
        have hs : TaskPool.step (daemon policy behavior) w (.env .pollAccept) =
            some ⟨{ w.shared with acceptLoop := .stopped }, w.members⟩ := by
          simp [TaskPool.step, daemon, Node.signal, hloop, h.1]
        have hdial : NoDial (.env .pollAccept) := trivial
        exact ⟨.env .pollAccept, _, by simp [Own], hs, h.next hdial hs rfl⟩
    | accepting =>
        have hs : TaskPool.step (daemon policy behavior) w (.env .acceptPending) =
            some ⟨{ w.shared with acceptLoop := .top }, w.members⟩ := by
          simp [TaskPool.step, daemon, Node.signal, hloop]
        have hdial : NoDial (.env .acceptPending) := trivial
        exact ⟨.env .acceptPending, _, by simp [Own], hs, h.next hdial hs rfl⟩
  · obtain ⟨t, ht, hover⟩ : ∃ t ∈ w.members, overTask t = false := by
      by_contra hnone
      exact htasks fun t ht => Bool.not_eq_false _ ▸ fun hover => hnone ⟨t, ht, hover⟩
    obtain ⟨i, hi⟩ := List.getElem?_of_mem ht
    obtain ⟨es, hrun⟩ := h.2
    obtain ⟨a, d, t', hprogress, hnatural, hact⟩ := act_can w.shared (run_alone hrun hi) hover
    have hs : TaskPool.step (daemon policy behavior) w (.act i a) =
        some ⟨d, w.members.set i t'⟩ := by
      simp [TaskPool.step, hi, daemon, hact]
    have hdial : NoDial (.act i a) := trivial
    exact ⟨.act i a, _, ⟨hprogress, t, hi, hnatural⟩, hs, h.next hdial hs hprogress⟩

omit text in
/-- Where nobody is handled, no slot is held. -/
theorem countP_holds_zero {ts : List Task} (peer : NodeId)
    (h : ∀ t ∈ ts, ∀ p handling, t ≠ .inbound p handling) : ts.countP (Task.holds peer) = 0 := by
  refine List.countP_eq_zero.mpr fun t ht hholds => ?_
  cases t with
  | inbound p handling => exact h _ ht p handling rfl
  | _ => cases hholds

/-- **SHUTDOWN COMPLETES.**  Once the token has fired, whatever the loop and the tasks are in
    the middle of, steps of their own lead to a state in which the loop has stopped, every
    task is through and every slot is given back. -/
theorem shutdown_completes {limits : RateLimitConfig} {spent : MemorySpentSet} {es : List Event}
    {w : World}
    (hrun : runFrom (TaskPool.step (daemon policy behavior)) ⟨.bind limits spent, []⟩ es = some w)
    (hcancel : w.shared.cancel = true) :
    ∃ es' w', EveryStep (TaskPool.step (daemon policy behavior)) Own w es' ∧
      runFrom (TaskPool.step (daemon policy behavior)) w es' = some w' ∧ AllOver w' ∧
      ∀ peer, (w'.shared.rateLimiter.inFlight peer).toNat = 0 := by
  obtain ⟨es', w', hown, hrun', ⟨-, es'', hreached⟩, hover⟩ :=
    exists_run_to (fun _ h hleft => Stopping.can h hleft) (stepsLeft w) w (le_refl _)
      (show Stopping policy behavior limits spent w from ⟨hcancel, es, hrun⟩)
  refine ⟨es', w', hown, hrun', hover, fun peer => ?_⟩
  rw [(inFlight_eq_countP hreached peer).1]
  refine countP_holds_zero peer fun t ht p handling heq => ?_
  have := hover.tasks t ht
  rw [heq] at this
  cases this

/-! ## What `tracker.wait()` waits for -/

/-- A task of the tracker that is not through: `dial` runs outside it. -/
def serving : Task → Bool
  | .incoming | .inbound _ _ => true
  | _ => false

/-- `tracker.wait()` returns. -/
structure TrackerEmpty (w : World) : Prop where
  acceptLoop : w.shared.acceptLoop = .stopped
  tasks : ∀ t ∈ w.members, serving t = false

/-- What the dials that still run leave alone. -/
structure Settled (w₀ w : World) : Prop extends TrackerEmpty w where
  inbox : w.shared.inbox = w₀.shared.inbox
  ended : ∀ peer, w.members.countP (Task.ended .inbound peer) =
    w₀.members.countP (Task.ended .inbound peer)

omit text in
/-- A dial is no call that came in. -/
theorem outbound_ended (peer p : NodeId) (submit : Message) (wire : Bytes) (s : CallerRun) :
    (Task.outbound peer submit wire s).ended .inbound p = false := by
  simp [Task.ended]

/-- **Step lemma.** Once the tracker is empty, no step reports a call or starts one. -/
theorem step_settled {w₀ w w' : World} {e : Event} (h : Settled w₀ w)
    (hs : TaskPool.step (daemon policy behavior) w e = some w') : Settled w₀ w' := by
  cases e with
  | spawn b =>
      obtain ⟨d, t, hspawn, rfl⟩ := step_spawn hs
      -- Nobody is accepted any more; a dial serves nobody.
      have hnew : d = w.shared ∧ serving t = false ∧ ∀ peer, t.ended .inbound peer = false := by
        rcases spawn_cases hspawn with ⟨haccepting, -⟩ | ⟨_, _, rfl, rfl⟩
        · cases h.acceptLoop.symm.trans haccepting
        · exact ⟨rfl, rfl, fun _ => rfl⟩
      obtain ⟨rfl, hserving, hended⟩ := hnew
      refine ⟨⟨h.acceptLoop, fun z hz => ?_⟩, h.inbox, fun peer => ?_⟩
      · rcases List.mem_append.mp hz with hz | hz
        · exact h.tasks z hz
        · rw [List.mem_singleton.mp hz]
          exact hserving
      · rw [List.countP_append, List.countP_singleton, hended, h.ended]
        rfl
  | act i a =>
      obtain ⟨t, d, t', hi, hact, rfl⟩ := step_act hs
      have hidle := h.tasks t (List.mem_of_getElem? hi)
      -- Only a dial can move, and it stays one.
      have hmoves : d.acceptLoop = w.shared.acceptLoop ∧ d.inbox = w.shared.inbox ∧
          serving t' = false ∧ ∀ peer, t.ended .inbound peer = false ∧
            t'.ended .inbound peer = false := by
        cases stepped_of_act hact with
        | dialed peer submit wire closed =>
            exact ⟨rfl, rfl, rfl, fun p => ⟨rfl, outbound_ended peer p submit wire _⟩⟩
        | unconnected hnew =>
            refine ⟨rfl, rfl, rfl, fun p => ⟨?_, rfl⟩⟩
            rcases hnew with rfl | ⟨submit, wire, rfl⟩ <;> rfl
        | calls peer submit wire s s' e hstep =>
            have hout := outbound_ended peer
            exact ⟨rfl, rfl, rfl, fun p => ⟨hout p submit wire s, hout p submit wire s'⟩⟩
        | admitted | called | finished => cases hidle
      obtain ⟨hloop, hinbox, hserving, hended⟩ := hmoves
      refine ⟨⟨hloop.trans h.acceptLoop, fun z hz => ?_⟩, hinbox.trans h.inbox, fun peer => ?_⟩
      · rcases List.mem_or_eq_of_mem_set hz with hz | rfl
        · exact h.tasks z hz
        · exact hserving
      · have hcount := UatRateLimit.countP_set_add (y := t') (Task.ended .inbound peer) hi
        rw [(hended peer).1, (hended peer).2] at hcount
        exact (Nat.add_right_cancel hcount).trans (h.ended peer)
  | env c =>
      obtain ⟨d, hsignal, rfl⟩ := step_env hs
      cases c with
      | cancel =>
          obtain rfl := Option.some.inj hsignal
          exact ⟨⟨h.acceptLoop, h.tasks⟩, h.inbox, h.ended⟩
      | pollAccept | acceptPending | acceptNone =>
          obtain ⟨hloop, -⟩ := Option.ite_none_right_eq_some.mp hsignal
          cases h.acceptLoop.symm.trans hloop

/-- **NOTHING IS LEFT WHEN THE TRACKER IS EMPTY.**  From the moment at which `tracker.wait()`
    returns, and whatever dials still run, nobody is accepted, no slot is held, nothing
    more is offered to the inbox, and the sink receives no further record of a call that
    came in. -/
theorem shutdown_quiet {limits : RateLimitConfig} {spent : MemorySpentSet} {es es' : List Event}
    {w w' : World}
    (hrun : runFrom (TaskPool.step (daemon policy behavior)) ⟨.bind limits spent, []⟩ es = some w)
    (hempty : TrackerEmpty w)
    (hrun' : runFrom (TaskPool.step (daemon policy behavior)) w es' = some w') :
    TrackerEmpty w' ∧ w'.shared.inbox = w.shared.inbox ∧
    ∀ peer, (w'.shared.rateLimiter.inFlight peer).toNat = 0 ∧
      w'.shared.records.countP (isOf .inbound peer) =
        w.shared.records.countP (isOf .inbound peer) := by
  have hsettled : Settled w w' :=
    run_invariant (Settled w) (fun _ _ _ h hs => step_settled h hs) es' _ _
      ⟨hempty, rfl, fun _ => rfl⟩ hrun'
  have hreached : runFrom (TaskPool.step (daemon policy behavior)) ⟨.bind limits spent, []⟩
      (es ++ es') = some w' := by
    rw [runFrom_append, hrun]
    exact hrun'
  refine ⟨hsettled.toTrackerEmpty, hsettled.inbox, fun peer => ⟨?_, ?_⟩⟩
  · rw [(inFlight_eq_countP hreached peer).1]
    refine countP_holds_zero peer fun t ht p handling heq => ?_
    have := hsettled.tasks t ht
    rw [heq] at this
    cases this
  · rw [records_countP hreached, records_countP hrun, hsettled.ended]

end

end

/-! ## A node that is told to stop -/

section

attribute [local instance] plainText compactJson noToken

/-- The stranger's call has just been accounted for when the token fires. -/
def toldToStop : List Event := twoAndADial ++ [.env .cancel]

theorem shutdown_bounded_toldToStop :
    ∃ w w', runFrom (TaskPool.step (daemon oneRoot .stubComplete)) ⟨.bind oneAtATime .new, []⟩
        toldToStop = some w ∧
      runFrom (TaskPool.step (daemon oneRoot .stubComplete)) w
        [.env .pollAccept, .act 0 .finish] = some w' ∧
      List.countP progress [.env .pollAccept, .act 0 .finish] ≤ 5 * w.members.length + 7 :=
  ⟨_, _, rfl, rfl, @shutdown_bounded _ _ _ _ oneRoot .stubComplete oneAtATime .new toldToStop
    [.env .pollAccept, .act 0 .finish] _ _ rfl rfl rfl (by simp [NoDial])⟩

theorem shutdown_completes_toldToStop :
    ∃ w, runFrom (TaskPool.step (daemon oneRoot .stubComplete)) ⟨.bind oneAtATime .new, []⟩
        toldToStop = some w ∧
      ∃ es' w', EveryStep (TaskPool.step (daemon oneRoot .stubComplete)) Own w es' ∧
        runFrom (TaskPool.step (daemon oneRoot .stubComplete)) w es' = some w' ∧ AllOver w' ∧
        ∀ peer, (w'.shared.rateLimiter.inFlight peer).toNat = 0 :=
  ⟨_, rfl, @shutdown_completes _ _ _ _ oneRoot .stubComplete oneAtATime .new toldToStop _ rfl rfl⟩

/-- The node has stopped, and dials once more. -/
theorem shutdown_quiet_dial :
    ∃ w w', runFrom (TaskPool.step (daemon oneRoot .stubComplete)) ⟨.bind oneAtATime .new, []⟩
        (toldToStop ++ [.env .pollAccept, .act 0 .finish]) = some w ∧
      runFrom (TaskPool.step (daemon oneRoot .stubComplete)) w
        [.spawn (.dial (.submit taskOne oneSecond plain none []) []),
          .act 3 (.connected remote 5 none), .act 3 (.caller (.setup .timedOut))] = some w' ∧
      w'.shared.records.length = 4 ∧
      TrackerEmpty w' ∧ w'.shared.inbox = w.shared.inbox ∧
      ∀ peer, (w'.shared.rateLimiter.inFlight peer).toNat = 0 ∧
        w'.shared.records.countP (isOf .inbound peer) =
          w.shared.records.countP (isOf .inbound peer) :=
  ⟨_, _, rfl, rfl, rfl, @shutdown_quiet _ _ _ _ oneRoot .stubComplete oneAtATime .new
    (toldToStop ++ [.env .pollAccept, .act 0 .finish])
    [.spawn (.dial (.submit taskOne oneSecond plain none []) []),
      .act 3 (.connected remote 5 none), .act 3 (.caller (.setup .timedOut))] _ _ rfl
    ⟨rfl, List.forall_mem_cons.mpr ⟨rfl, List.forall_mem_cons.mpr ⟨rfl,
      List.forall_mem_cons.mpr ⟨rfl, List.forall_mem_nil _⟩⟩⟩⟩ rfl⟩

end

end UatShutdown
