import Uat.OneShot
import Uat.CallerLoop

/-! # `run_callee_with` — one inbound call, from the gate to its audit record

    The callee's task as a state machine: `run_callee_with`, `callee_loop`,
    `handle_authorized_submit` and `callee_wait_terminal` by their awaits.  Bytes of an
    arbitrary peer arrive, the connection closes, timers and the shutdown token fire,
    other runs change the spent set, and the future is dropped or unwinds at any await.

    The record guard is seeded with `Allowed(Allowlist)` before any decision.
    `audit_truthful_iff` is exact about what follows: the emitted record is truthful if
    and only if the run does not end before the authorization of its first frame is
    recorded, unless the peer is on the allowlist. -/

namespace UatCalleeRun

open UatTypes UatState UatPolicy UatVerify UatFactChecks UatCodec UatHeader UatStream
open UatRecvStream UatRecord
open Checked StepRun
open UatCallerLoop (WriteEnd)
open UatAttenuation (plainText oneRoot epoch)
open UatOneShot (stranger)

/-- How the stub callee behaves after a `Submit`. -/
inductive CalleeBehavior where
  | stubComplete
  | hangAfterAccept
  | needInputHang
  | silentHang
  deriving DecidableEq, Repr

/-- How `timeout(quic_idle_timeout(), conn.accept_bi())` ends. -/
inductive SetupEnd where
  | opened
  | failed (reason : String)
  | timedOut

/-- What can happen to the callee's task. -/
inductive Ev where
  /-- The stream setup ended; `now` is the clock that `callee_loop` samples. -/
  | setup (r : SetupEnd) (now : SystemTime)
  | arrive (bytes : Bytes)
  | endStream (e : StreamEnd)
  | close (err : ConnectionError)
  | shutdown
  | timer
  /-- Another run changed the spent set. -/
  | spend (spent : MemorySpentSet)
  | wrote (w : WriteEnd)
  | poll (expired : Bool)
  | guardJoined
  | drop

section

variable [Base64Engine]

/-- What the behavior emits before it waits. -/
def CalleeBehavior.emits : CalleeBehavior → List Message
  | .stubComplete => [.accepted, .completed []]
  | .hangAfterAccept | .silentHang => [.accepted]
  | .needInputHang => [.accepted, .needInput]

/-- Where the task is suspended. -/
inductive Await where
  | acceptBi
  | firstFrame (now : SystemTime) (read : ReadFrame)
  /-- `write_message(send, &failed)`, before the denial is recorded. -/
  | writeDenied (reason : String)
  | emit (msg : Message) (rest : List Message)
  | waitTerminal (read : ReadFrame)
  | writeTimeout (msg : Message)
  | writeReply (msg : Message)
  | linger (outcome : Outcome)
  /-- `stream_guard.await`, after `callee_loop` returned. -/
  | joinGuard (result : Except CallError Outcome)
  | unwinding
  | returned (result : Except CallError Outcome)
  | dropped

/-- The task is over: it returned, or was dropped. -/
def Await.over : Await → Bool
  | .returned _ | .dropped => true
  | _ => false

/-- The first frame was not read yet. -/
def Await.early : Await → Bool
  | .acceptBi | .firstFrame .. => true
  | _ => false

/-- A denial is decided and not yet recorded. -/
def Await.denying : Await → Bool
  | .writeDenied _ => true
  | _ => false

/-- A task that is over has its first frame behind it, and no denial to record. -/
theorem Await.of_over {a : Await} (h : a.over = true) : a.early = false ∧ a.denying = false := by
  cases a <;> first | exact ⟨rfl, rfl⟩ | cases h

/-- Before its first frame a task is not over, and has no denial to record. -/
theorem Await.of_early {a : Await} (h : a.early = true) : a.over = false ∧ a.denying = false := by
  cases a <;> first | exact ⟨rfl, rfl⟩ | cases h

/-- `call_timer` exists while a call is driven. -/
def Await.hasTimer : Await → Bool
  | .emit .. | .waitTerminal _ | .writeTimeout _ | .writeReply _ => true
  | _ => false

/-- A record at the moment it reaches the sink, with what `verify` had returned. -/
structure Audited where
  record : CallRecord
  verdict : Option (Verdict AuthorizedSubmit)

/-- The task of one callee, its environment, and what it has decided and recorded. -/
structure Callee where
  state : CalleeState
  record : CallRecordGuard
  await : Await
  shutdown : Bool
  timer : Bool
  closed : Option ConnectionError
  closedWith : Option CloseCode
  recv : RecvStream
  /-- The spent set, shared with the other runs of the node. -/
  spent : MemorySpentSet
  sent : List Message
  verdict : Option (Verdict AuthorizedSubmit)
  audit : List Audited

/-- `conn.close`: the first code counts. -/
def Callee.closeWith (c : Callee) (code : CloseCode) : Callee :=
  { c with closedWith := c.closedWith.or (some code) }

/-- `close_on_frame_err`: some errors have a code of their own. -/
def Callee.closeOnFrameErr (c : Callee) (err : FrameIoError) : Callee :=
  match err.closeCode with
  | some code => c.closeWith code
  | none => c

/-- The guard emits its record, as it stands. -/
def Callee.emitRecord (c : Callee) : Callee :=
  { c with
    record := (c.record.emitNow []).1
    audit := c.audit ++ (c.record.emitNow []).2.map fun record => ⟨record, c.verdict⟩ }

/-- `run_callee_with` returns and drops the guard. -/
def Callee.ret (c : Callee) (result : Except CallError Outcome) : Callee :=
  { c.emitRecord with await := .returned result }

/-- The future is dropped, or a panic unwinds through it. -/
def Callee.drop (c : Callee) : Callee := { c.emitRecord with await := .dropped }

/-- `callee_loop` returns. -/
def Callee.loopRet (c : Callee) (result : Except CallError Outcome) : Callee :=
  { c with await := .joinGuard result }

/-! ## After the authorization -/

/-- The top of `callee_wait_terminal`'s loop. -/
def Callee.waitTop (c : Callee) : Callee :=
  match c.state with
  | .terminal outcome => { c with await := .linger outcome }
  | _ => { c with await := .waitTerminal .fresh }

/-- `emit_callee` for each message in turn, then wait. -/
def Callee.emitCallee (c : Callee) : List Message → Callee
  | [] => c.waitTop
  | msg :: rest =>
      match calleeStep c.state (.send msg) with
      | .ok step => { c with state := step.state, await := .emit msg rest }
      | .error _ => (c.closeWith .protocolViolation).loopRet (.error .illegal)

/-- A message could not be written: a frame error also closes the connection. -/
def Callee.writeFailed (c : Callee) (err : CallError) : Callee :=
  match err with
  | .frame fe => (c.closeOnFrameErr fe).loopRet (.error err)
  | _ => c.loopRet (.error err)

/-- A terminal state ends `callee_wait_terminal`. -/
def Callee.ended (c : Callee) (otherwise : Except CallError Outcome) : Callee :=
  match c.state with
  | .terminal outcome => { c with await := .linger outcome }
  | _ => c.loopRet otherwise

/-- The message of the deadline is on the wire, or its write failed: both go on. -/
def Callee.timeoutWritten (c : Callee) : Callee :=
  match c.state with
  | .terminal outcome => { c.closeWith .normal with await := .linger outcome }
  | _ => c.loopRet (.error .illegal)

/-- `call_timer` fires: the table says what the peer is told. -/
def Callee.onTimer (c : Callee) : Callee :=
  match calleeStep c.state .timeout with
  | .ok step =>
      let c := { c with state := step.state }
      match step.emit with
      | some msg => { c with await := .writeTimeout msg }
      | none => c.timeoutWritten
  | .error _ => (c.closeWith .protocolViolation).loopRet (.error .illegal)

/-- A lost connection, or a stream that ended (`otherwise` tells them apart). -/
def Callee.connLost (c : Callee) (code : CloseCode) (otherwise : Except CallError Outcome) :
    Callee :=
  match calleeStep c.state (.connLost code) with
  | .ok step => { c with state := step.state }.ended otherwise
  | .error _ => c.loopRet (.error .illegal)

/-- A message was read, or could not be. -/
def Callee.onRead (c : Callee) : Exec FrameIoError Message → Callee
  | .ok msg =>
      match calleeStep c.state (.recv msg) with
      | .ok step =>
          let c := { c with state := step.state }
          match step.emit with
          | some reply => { c with await := .writeReply reply }
          | none => c.waitTop
      | .error _ => (c.closeWith .protocolViolation).loopRet (.error .illegal)
  | .error (.err (.codec err)) =>
      (c.closeOnFrameErr (.codec err)).loopRet (.error (.frame (.codec err)))
  -- Stream ended or peer gone often surfaces as a read error.
  | .error (.err _) => c.connLost .normal (.ok .peerLost)
  | .error .panic => { c with await := .unwinding }

/-- The wait before the return: `GRACE_MS`, the peer's close, or shutdown. -/
def Callee.pollLinger (c : Callee) (outcome : Outcome) (expired : Bool) : Callee :=
  if c.shutdown then (c.closeWith .normal).loopRet (.ok outcome)
  else if c.closed.isSome then c.loopRet (.ok outcome)
  else if expired then (c.closeWith .normal).loopRet (.ok outcome)
  else c

/-! ## What these functions leave alone -/

/-- Nothing was decided, recorded or emitted on the way to an await behind the first
    frame. -/
structure Keeps (c c' : Callee) : Prop where
  audit : c'.audit = c.audit
  verdict : c'.verdict = c.verdict
  identity : c'.record.identity = c.record.identity
  authorization : c'.record.record.authorization = c.record.record.authorization
  denying : c'.await.denying = false
  early : c'.await.early = false
  running : c'.await.over = false

/-- What was not emitted still is not. -/
theorem Keeps.emitted {c c' : Callee} (h : Keeps c c') : c'.record.emitted = c.record.emitted :=
  congrArg Prod.fst h.identity

/-- Keeping from a callee that shows the same. -/
theorem Keeps.of_eq {c₀ c c' : Callee} (h : Keeps c c') (haudit : c.audit = c₀.audit)
    (hverdict : c.verdict = c₀.verdict) (hidentity : c.record.identity = c₀.record.identity)
    (hauthorization : c.record.record.authorization = c₀.record.record.authorization) :
    Keeps c₀ c' :=
  ⟨h.audit.trans haudit, h.verdict.trans hverdict, h.identity.trans hidentity,
    h.authorization.trans hauthorization, h.denying, h.early, h.running⟩

/-- The loop returns; its result is recorded when the guard is joined. -/
theorem loopRet_keeps (c : Callee) (r : Except CallError Outcome) : Keeps c (c.loopRet r) :=
  ⟨rfl, rfl, rfl, rfl, rfl, rfl, rfl⟩

/-- A close code is no part of the record. -/
theorem closeOnFrameErr_loopRet_keeps (c : Callee) (err : FrameIoError)
    (r : Except CallError Outcome) : Keeps c ((c.closeOnFrameErr err).loopRet r) := by
  rw [Callee.closeOnFrameErr]
  cases err.closeCode with
  | none => exact loopRet_keeps c r
  | some code => exact (loopRet_keeps (c.closeWith code) r).of_eq rfl rfl rfl rfl

theorem waitTop_keeps (c : Callee) : Keeps c c.waitTop := by
  rw [Callee.waitTop]
  cases c.state <;> exact ⟨rfl, rfl, rfl, rfl, rfl, rfl, rfl⟩

theorem emitCallee_keeps (c : Callee) (msgs : List Message) : Keeps c (c.emitCallee msgs) := by
  cases msgs with
  | nil => exact waitTop_keeps c
  | cons msg rest =>
      unfold Callee.emitCallee
      dsimp only
      cases calleeStep c.state (.send msg) with
      | ok step => exact ⟨rfl, rfl, rfl, rfl, rfl, rfl, rfl⟩
      | error _ => exact (loopRet_keeps _ _).of_eq rfl rfl rfl rfl

theorem writeFailed_keeps (c : Callee) (err : CallError) : Keeps c (c.writeFailed err) := by
  cases err with
  | frame fe => exact closeOnFrameErr_loopRet_keeps c fe _
  | _ => exact loopRet_keeps c _

theorem ended_keeps (c : Callee) (otherwise : Except CallError Outcome) :
    Keeps c (c.ended otherwise) := by
  rw [Callee.ended]
  cases c.state <;> exact ⟨rfl, rfl, rfl, rfl, rfl, rfl, rfl⟩

theorem timeoutWritten_keeps (c : Callee) : Keeps c c.timeoutWritten := by
  rw [Callee.timeoutWritten]
  cases c.state with
  | terminal o => exact ⟨rfl, rfl, rfl, rfl, rfl, rfl, rfl⟩
  | _ => exact loopRet_keeps c _

theorem onTimer_keeps (c : Callee) : Keeps c c.onTimer := by
  rw [Callee.onTimer]
  cases calleeStep c.state .timeout with
  | error _ => exact (loopRet_keeps _ _).of_eq rfl rfl rfl rfl
  | ok step =>
      dsimp only
      cases step.emit with
      | none => exact (timeoutWritten_keeps _).of_eq rfl rfl rfl rfl
      | some msg => exact ⟨rfl, rfl, rfl, rfl, rfl, rfl, rfl⟩

theorem connLost_keeps (c : Callee) (code : CloseCode) (otherwise : Except CallError Outcome) :
    Keeps c (c.connLost code otherwise) := by
  rw [Callee.connLost]
  cases calleeStep c.state (.connLost code) with
  | error _ => exact loopRet_keeps c _
  | ok step => exact (ended_keeps _ _).of_eq rfl rfl rfl rfl

theorem onRead_keeps (c : Callee) (r : Exec FrameIoError Message) : Keeps c (c.onRead r) := by
  match r with
  | .ok msg =>
      rw [Callee.onRead]
      dsimp only
      cases calleeStep c.state (.recv msg) with
      | error _ => exact (loopRet_keeps _ _).of_eq rfl rfl rfl rfl
      | ok step =>
          dsimp only
          cases step.emit with
          | none => exact (waitTop_keeps _).of_eq rfl rfl rfl rfl
          | some reply => exact ⟨rfl, rfl, rfl, rfl, rfl, rfl, rfl⟩
  | .error (.err (.codec err)) => exact closeOnFrameErr_loopRet_keeps c _ _
  | .error (.err (.read _)) | .error (.err .write) | .error (.err .unexpectedEnd) =>
      exact connLost_keeps c _ _
  | .error .panic => exact ⟨rfl, rfl, rfl, rfl, rfl, rfl, rfl⟩

/-- A poll that returns the task to where it was. -/
theorem refl_keeps {c : Callee} (hdenying : c.await.denying = false)
    (hearly : c.await.early = false) (hrunning : c.await.over = false) : Keeps c c :=
  ⟨rfl, rfl, rfl, rfl, hdenying, hearly, hrunning⟩

theorem pollLinger_keeps (c : Callee) (outcome : Outcome) (expired : Bool)
    (hdenying : c.await.denying = false) (hearly : c.await.early = false)
    (hrunning : c.await.over = false) : Keeps c (c.pollLinger outcome expired) := by
  rw [Callee.pollLinger]
  split
  · exact (loopRet_keeps _ _).of_eq rfl rfl rfl rfl
  split
  · exact loopRet_keeps c _
  split
  · exact (loopRet_keeps _ _).of_eq rfl rfl rfl rfl
  · exact refl_keeps hdenying hearly hrunning

/-! ## The first frame -/

/-- The text the record gives for a denial. -/
def denyReason : AuthError → String
  | .denied _ => "submit denied by allowlist"
  | .tokenUnauthorized => "biscuit token unauthorized"
  | .notSubmit => "not a Submit message"
  | .notHeaderOnly => "Submit already has a body; verify requires header-only"

/-- `handle_authorized_submit`: the record gets the task, and the behavior speaks. -/
def Callee.handleAuthorizedSubmit (c : Callee) (behavior : CalleeBehavior)
    (submit : AuthorizedSubmit) : Callee :=
  { c with record := c.record.setTask submit.task, state := .offered }.emitCallee behavior.emits

/-- The write of `Failed(Unauthorized)` is over. -/
def Callee.deniedWritten (c : Callee) (reason : String) : Callee :=
  { c.closeWith .normal with record := c.record.setAuthorization (.denied reason) }.loopRet
    (.error .unauthorized)

/-! ## Is the record truthful? -/

section

variable {Key : Type} (policy : Policy Key) (peer : NodeId)

/-- **The property.** `Allowed(Allowlist)` only for a listed peer, `Allowed(Token{id})`
    only if `verify` returned that rule in this run. -/
def TruthfulAs (authorization : AuthOutcome) (verdict : Option (Verdict AuthorizedSubmit)) :
    Prop :=
  (authorization = .allowed .allowlist → policy.contains peer = true) ∧
  ∀ id, authorization = .allowed (.token id) →
    ∃ submit, verdict = some (.ok submit) ∧ submit.rule = .token id

/-- The property of everything that was recorded. -/
def Truthful (c : Callee) : Prop :=
  ∀ a ∈ c.audit, TruthfulAs policy peer a.record.authorization a.verdict

/-- The authorization of the first frame has returned, and a denial is recorded. -/
def Callee.decided (c : Callee) : Prop := c.verdict.isSome = true ∧ c.await.denying = false

/-- The events that end a run that passed the gate. -/
def Ends : Ev → Prop
  | .setup r _ => r ≠ .opened
  | .guardJoined | .drop => True
  | _ => False

/-- The run does not end before its authorization is decided, unless the peer is listed. -/
def DecidedAtEnd (c : Callee) (e : Ev) : Prop :=
  Ends e → c.decided ∨ policy.contains peer = true

/-- What the guard holds, by how far the authorization has got. -/
structure Accounted (c : Callee) : Prop where
  emitted : c.await.over = false → c.record.emitted = false
  early : c.await.early = true → c.verdict = none
  denying : c.await.denying = true → c.verdict.isSome = true
  seeded : c.await.over = false → ¬ c.decided →
    c.record.record.authorization = .allowed .allowlist
  settled : c.await.over = false → c.decided →
    TruthfulAs policy peer c.record.record.authorization c.verdict

variable {policy peer}

/-- What is kept on the way to a later await stays accounted for. -/
theorem accounted_of_kept {c c' : Callee} (hk : Keeps c c') (hemitted : c.record.emitted = false)
    (hseeded : c.verdict = none → c.record.record.authorization = .allowed .allowlist)
    (hsettled : c.verdict.isSome = true →
      TruthfulAs policy peer c.record.record.authorization c.verdict) :
    Accounted policy peer c' := by
  refine ⟨fun _ => hk.emitted.trans hemitted, fun hearly => ?_, fun hdenying => ?_,
    fun _ hundecided => ?_, fun _ hdec => ?_⟩
  · cases hk.early.symm.trans hearly
  · cases hk.denying.symm.trans hdenying
  · rw [hk.authorization]
    refine hseeded ?_
    by_contra hsome
    refine hundecided ⟨?_, hk.denying⟩
    rw [hk.verdict]
    exact Option.isSome_iff_ne_none.mpr hsome
  · rw [hk.authorization, hk.verdict]
    exact hsettled (hk.verdict ▸ hdec.1)

/-- A step that keeps everything keeps the account. -/
theorem accounted_of_keeps {c c' : Callee} (h : Accounted policy peer c) (hk : Keeps c c')
    (hover : c.await.over = false) (hdenying : c.await.denying = false) :
    Accounted policy peer c' := by
  refine accounted_of_kept hk (h.emitted hover) (fun hnone => ?_) fun hsome => ?_
  · refine h.seeded hover fun hdec => ?_
    rw [Callee.decided, hnone] at hdec
    cases hdec.1
  · exact h.settled hover ⟨hsome, hdenying⟩

/-- A guard that has spoken owes nothing. -/
theorem accounted_of_over {c : Callee} (hover : c.await.over = true) : Accounted policy peer c := by
  obtain ⟨hearly, hdenying⟩ := Await.of_over hover
  have hno : c.await.over ≠ false := by rw [hover]; nofun
  exact ⟨fun h => absurd h hno, fun h => (nomatch hearly.symm.trans h),
    fun h => (nomatch hdenying.symm.trans h), fun h => absurd h hno, fun h => absurd h hno⟩

/-- Before the first frame nothing is decided, and the guard holds its seed. -/
theorem accounted_early {c c' : Callee} (h : Accounted policy peer c)
    (hearly : c.await.early = true)
    (hverdict : c'.verdict = c.verdict) (hemitted : c'.record.emitted = c.record.emitted)
    (hauthorization : c'.record.record.authorization = c.record.record.authorization)
    (hearly' : c'.await.early = true) : Accounted policy peer c' := by
  obtain ⟨hover, -⟩ := Await.of_early hearly
  obtain ⟨-, hdenying'⟩ := Await.of_early hearly'
  have hnone : ¬ c.verdict.isSome = true := by rw [h.early hearly]; nofun
  refine ⟨fun _ => hemitted.trans (h.emitted hover), fun _ => hverdict.trans (h.early hearly),
    fun hden => (nomatch hdenying'.symm.trans hden), fun _ _ => ?_, fun _ hdec => ?_⟩
  · exact hauthorization.trans (h.seeded hover fun hdec => hnone hdec.1)
  · exact absurd (hverdict ▸ hdec.1) hnone

/-- **Emission.**  What the guard emits is truthful exactly when the authorization is
    decided or the peer is listed. -/
theorem emitRecord_truthful_iff {c c₁ : Callee} (h : Accounted policy peer c)
    (hover : c.await.over = false) (hP : Truthful policy peer c) (haudit : c₁.audit = c.audit)
    (hverdict : c₁.verdict = c.verdict) (hemitted : c₁.record.emitted = c.record.emitted)
    (hauthorization : c₁.record.record.authorization = c.record.record.authorization) :
    Truthful policy peer c₁.emitRecord ↔ c.decided ∨ policy.contains peer = true := by
  have hnew : c₁.emitRecord.audit = c.audit ++ [⟨c₁.record.record, c.verdict⟩] := by
    have hopen : c₁.record.emitted = false := hemitted.trans (h.emitted hover)
    rw [Callee.emitRecord, CallRecordGuard.emitNow]
    rw [hopen, haudit, hverdict]
    rfl
  have hsplit : Truthful policy peer c₁.emitRecord ↔
      TruthfulAs policy peer c.record.record.authorization c.verdict := by
    rw [Truthful]
    rw [hnew, List.forall_mem_append, List.forall_mem_singleton, hauthorization]
    exact ⟨fun h => h.2, fun h => ⟨hP, h⟩⟩
  rw [hsplit]
  by_cases hdec : c.decided
  · exact ⟨fun _ => Or.inl hdec, fun _ => h.settled hover hdec⟩
  · have hseed := h.seeded hover hdec
    constructor
    · intro htrue
      exact Or.inr (htrue.1 hseed)
    · rintro (hdec' | hlisted)
      · exact absurd hdec' hdec
      · refine ⟨fun _ => hlisted, fun id hid => ?_⟩
        cases hseed.symm.trans hid

variable (policy peer)

/-- What a step can do to the audit. -/
inductive Moves (c c' : Callee) (e : Ev) : Prop where
  | goesOn (hgoes : ¬ Ends e) (haudit : c'.audit = c.audit)
      (hidentity : c'.record.identity = c.record.identity) (hover : c'.await.over = c.await.over)
      (hacc : Accounted policy peer c → Accounted policy peer c')
  | ends (c₁ : Callee) (hends : Ends e) (hover : c.await.over = false)
      (haudit : c₁.audit = c.audit) (hverdict : c₁.verdict = c.verdict)
      (hidentity : c₁.record.identity = c.record.identity)
      (hauthorization : c₁.record.record.authorization = c.record.record.authorization)
      (haudit' : c'.audit = c₁.emitRecord.audit) (hover' : c'.await.over = true)

variable {policy peer}

/-- A step that touches neither the call nor its record. -/
theorem Moves.of_same {c c' : Callee} {e : Ev} (hgoes : ¬ Ends e) (haudit : c'.audit = c.audit)
    (hawait : c'.await = c.await) (hrecord : c'.record = c.record)
    (hverdict : c'.verdict = c.verdict) : Moves policy peer c c' e := by
  have hdec : c'.decided ↔ c.decided := by rw [Callee.decided, Callee.decided, hverdict, hawait]
  refine .goesOn hgoes haudit (by rw [hrecord]) (by rw [hawait]) fun h => ⟨?_, ?_, ?_, ?_, ?_⟩
  · rw [hawait, hrecord]
    exact h.emitted
  · rw [hawait, hverdict]
    exact h.early
  · rw [hawait, hverdict]
    exact h.denying
  · rw [hawait, hrecord, hdec]
    exact h.seeded
  · rw [hawait, hrecord, hverdict, hdec]
    exact h.settled

/-- A step between two awaits behind the first frame. -/
theorem Moves.of_keeps {c c' : Callee} {e : Ev} (hgoes : ¬ Ends e) (hk : Keeps c c')
    (hover : c.await.over = false) (hdenying : c.await.denying = false) :
    Moves policy peer c c' e :=
  .goesOn hgoes hk.audit hk.identity (hk.running.trans hover.symm)
    fun h => accounted_of_keeps h hk hover hdenying

/-- From a state with a truthful audit, a step keeps it so exactly when it does not end
    the run undecided. -/
theorem Moves.exact {c c' : Callee} {e : Ev} (hm : Moves policy peer c c' e)
    (h : Accounted policy peer c) (hP : Truthful policy peer c) :
    (Truthful policy peer c' ↔ DecidedAtEnd policy peer c e) ∧
      (Truthful policy peer c' → Accounted policy peer c') := by
  cases hm with
  | goesOn hgoes haudit _ _ hacc =>
      refine ⟨⟨fun _ hends => absurd hends hgoes, fun _ => ?_⟩, fun _ => hacc h⟩
      rw [Truthful]
      rw [haudit]
      exact hP
  | ends c₁ hends hover haudit hverdict hidentity hauthorization haudit' hover' =>
      have hiff := emitRecord_truthful_iff h hover hP haudit hverdict (congrArg Prod.fst hidentity)
        hauthorization
      refine ⟨?_, fun _ => accounted_of_over hover'⟩
      rw [Truthful] at hiff ⊢
      rw [haudit', hiff]
      exact ⟨fun h _ => h, fun h => h hends⟩

/-- What reached the sink stays there. -/
theorem Moves.lost {c c' : Callee} {e : Ev} (hm : Moves policy peer c c' e)
    (hP : ¬ Truthful policy peer c) : ¬ Truthful policy peer c' := by
  intro htrue
  apply hP
  intro a ha
  cases hm with
  | goesOn _ haudit _ _ _ => exact htrue a (haudit ▸ ha)
  | ends c₁ _ _ haudit _ _ _ haudit' _ =>
      refine htrue a ?_
      rw [haudit']
      exact List.mem_append_left _ (haudit ▸ ha)

end

/-! ## The run -/

/-- Stream setup failed before `callee_loop`. -/
def Callee.setupFailed (c : Callee) (reason : String) : Callee :=
  { c with record := c.record.setOutcome (outcomeFromCallError (.streamSetup reason)) }.ret
    (.error (.streamSetup reason))

section

variable {Key : Type} {policy : Policy Key} {peer : NodeId}

/-- A failed setup ends the run with its record as seeded. -/
theorem setupFailed_moves {c : Callee} {e : Ev} (hearly : c.await.early = true) (hends : Ends e)
    (reason : String) : Moves policy peer c (c.setupFailed reason) e :=
  .ends { c with record := c.record.setOutcome (outcomeFromCallError (.streamSetup reason)) }
    hends (Await.of_early hearly).1 rfl rfl rfl rfl rfl rfl

/-- The denial is recorded once its write is over. -/
theorem deniedWritten_accounted {c : Callee} (h : Accounted policy peer c)
    (hdenying : c.await.denying = true) (hover : c.await.over = false) (reason : String) :
    Accounted policy peer (c.deniedWritten reason) := by
  let denied : Callee := { c.closeWith .normal with
    record := c.record.setAuthorization (.denied reason) }
  have hk : Keeps denied (c.deniedWritten reason) := loopRet_keeps denied _
  refine accounted_of_kept hk (h.emitted hover) (fun hnone => ?_) fun _ => ⟨nofun, nofun⟩
  have hsome := h.denying hdenying
  exact absurd hnone (Option.isSome_iff_ne_none.mp hsome)

end

section

variable {Key : Type} [BiscuitEngine Key] (policy : Policy Key)
  (peer : NodeId) (behavior : CalleeBehavior)

/-- `run_callee_with` up to its first await. -/
def runCalleeWith (spent : MemorySpentSet) : Callee :=
  let record := CallRecordGuard.new .inbound peer (.allowed .allowlist)
  let c : Callee :=
    ⟨.offered, record, .acceptBi, false, false, none, none, ⟨[], none⟩, spent, [], none, []⟩
  if ¬ policy.verifyPeer peer then
    { c.closeWith .normal with
      record := (record.setAuthorization (.denied "not on allowlist")).setOutcome
        (.closed .normal) }.ret (.error .unauthorized)
  else c

/-- The header goes to `authorize_submit_header`, with the clock of the loop's start. -/
def Callee.authorize (c : Callee) (now : SystemTime) (header : Message) (body : Bytes) : Callee :=
  match authorizeSubmitHeader header policy c.spent peer now with
  | (.ok submit, spent) =>
      let authorized := submit.withBody body
      { c with
        spent := spent
        verdict := some (.ok submit)
        record := c.record.setAuthorization (.allowed authorized.rule) }.handleAuthorizedSubmit
          behavior authorized
  | (.error (.err err), spent) =>
      { c with
        spent := spent
        verdict := some (fail err)
        await := .writeDenied (denyReason err) }
  | (.error .panic, spent) => { c with spent := spent, await := .unwinding }

end

section

variable {Key : Type} [BiscuitEngine Key] {policy : Policy Key} {peer : NodeId}
  {behavior : CalleeBehavior}

/-- The authorization: the rule that admits, or a denial still to be recorded. -/
theorem authorize_accounted {c : Callee} (h : Accounted policy peer c)
    (hearly : c.await.early = true) (now : SystemTime) (header : Message) (body : Bytes) :
    Accounted policy peer (c.authorize policy peer behavior now header body) := by
  obtain ⟨hover, hdenying⟩ := Await.of_early hearly
  have hnone := h.early hearly
  have hseed : c.record.record.authorization = .allowed .allowlist :=
    h.seeded hover fun hdec => by rw [Callee.decided, hnone] at hdec; cases hdec.1
  rw [Callee.authorize]
  split
  · next submit spent hauth =>
      -- The state between the record's new authorization and the call it drives.
      let settled : Callee := { c with
        spent := spent
        verdict := some (.ok submit)
        record := c.record.setAuthorization (.allowed (submit.withBody body).rule) }
      have hk : Keeps settled (settled.handleAuthorizedSubmit behavior (submit.withBody body)) :=
        (emitCallee_keeps _ _).of_eq rfl rfl rfl rfl
      have hrule : TruthfulAs policy peer (.allowed (submit.withBody body).rule)
          (some (.ok submit)) := by
        rw [withBody_rule]
        refine ⟨fun hallow => authorize_rule_allowlist hauth (AuthOutcome.allowed.inj hallow),
          fun id htoken => ⟨submit, rfl, AuthOutcome.allowed.inj htoken⟩⟩
      exact accounted_of_kept hk (h.emitted hover) nofun fun _ => hrule
  · exact ⟨fun _ => h.emitted hover, nofun, fun _ => rfl, fun _ _ => hseed,
      fun _ hdec => nomatch hdec.2⟩
  · next spent _ =>
      have hk : Keeps c { c with spent := spent, await := .unwinding } :=
        ⟨rfl, rfl, rfl, rfl, rfl, rfl, rfl⟩
      exact accounted_of_keeps h hk hover hdenying

/-- Nothing reaches the sink while the first frame is authorized. -/
theorem authorize_keeps (c : Callee) (now : SystemTime) (header : Message) (body : Bytes) :
    (c.authorize policy peer behavior now header body).audit = c.audit ∧
      (c.authorize policy peer behavior now header body).record.identity = c.record.identity ∧
      (c.authorize policy peer behavior now header body).await.over = false := by
  rw [Callee.authorize]
  split
  · have hk := emitCallee_keeps
    exact ⟨(hk _ _).audit, (hk _ _).identity, (hk _ _).running⟩
  · exact ⟨rfl, rfl, rfl⟩
  · exact ⟨rfl, rfl, rfl⟩

end

section

variable [text : JsonText] {Key : Type} [BiscuitEngine Key] (policy : Policy Key)
  (peer : NodeId) (behavior : CalleeBehavior)

/-- `split_frame`, then the authorization. -/
def Callee.onFrame (c : Callee) (now : SystemTime) (frame : Bytes) : Callee :=
  match decodeParts fromSlice frame with
  | .ok (header, body) => c.authorize policy peer behavior now header body
  | .error (.err err) =>
      (c.closeOnFrameErr (.codec err)).loopRet (.error (.frame (.codec err)))
  | .error .panic => { c with await := .unwinding }

/-- One poll of the `select` that waits for the first frame. -/
def Callee.pollFirstFrame (c : Callee) (now : SystemTime) (read : ReadFrame) (expired : Bool) :
    Callee :=
  if c.shutdown then c.loopRet (.error .cancelled)
  else if c.closed.isSome then c.loopRet (.ok .peerLost)
  else
    match pollFrame read c.recv with
    | (.ready (.ok frame), recv) => { c with recv := recv }.onFrame policy peer behavior now frame
    | (.ready (.error (.err err)), recv) =>
        ({ c with recv := recv }.closeOnFrameErr err).loopRet (.error (.frame err))
    | (.ready (.error .panic), recv) => { c with recv := recv, await := .unwinding }
    | (.pending read, recv) =>
        if expired then
          ({ c with recv := recv }.closeWith .timeout).loopRet (.ok (.closed .timeout))
        else { c with recv := recv, await := .firstFrame now read }

/-- One poll of the `select` in `callee_wait_terminal`. -/
def Callee.pollWait (c : Callee) (read : ReadFrame) (expired : Bool) : Callee :=
  if c.shutdown then c.loopRet (.error .cancelled)
  else if c.timer then c.onTimer
  else
    match c.closed with
    | some err => c.connLost (closeCodeFromConnErr err) (.error .illegal)
    | none =>
        -- `ignore_peer_msgs`: the read never completes.
        if behavior = .silentHang then c else
        match pollMessage read c.recv with
        | (.ready r, recv) => { c with recv := recv }.onRead r
        | (.pending read, recv) =>
            if expired then { c with recv := recv }.waitTop
            else { c with recv := recv, await := .waitTerminal read }

/-- One step of `run_callee_with` and of what is around it. -/
def step (c : Callee) : Ev → Option Callee
  | .setup r now =>
      match c.await with
      | .acceptBi =>
          match r with
          | .opened => some { c with await := .firstFrame now .fresh }
          | .failed reason => some (c.setupFailed reason)
          | .timedOut => some (c.setupFailed "accept_bi timed out")
      | _ => none
  | .arrive bytes =>
      if c.recv.ended = none then
        some { c with recv := { c.recv with arrived := c.recv.arrived ++ bytes } }
      else none
  | .endStream e =>
      if c.recv.ended = none then some { c with recv := { c.recv with ended := some e } }
      else none
  | .close err => if c.closed = none then some { c with closed := some err } else none
  | .shutdown => some { c with shutdown := true }
  | .timer => if c.await.hasTimer then some { c with timer := true } else none
  | .spend spent => some { c with spent := spent }
  | .wrote w =>
      match c.await with
      | .writeDenied reason => some (c.deniedWritten reason)
      | .emit msg rest =>
          match w.result with
          | .ok _ => some ({ c with sent := c.sent ++ [msg] }.emitCallee rest)
          | .error err => some (c.writeFailed err)
      | .writeTimeout msg =>
          match w.result with
          | .ok _ => some { c with sent := c.sent ++ [msg] }.timeoutWritten
          | .error _ => some c.timeoutWritten
      | .writeReply msg =>
          match w.result with
          | .ok _ => some { c with sent := c.sent ++ [msg] }.waitTop
          | .error err => some (c.writeFailed err)
      | _ => none
  | .poll expired =>
      match c.await with
      | .firstFrame now read => some (c.pollFirstFrame policy peer behavior now read expired)
      | .waitTerminal read => some (c.pollWait behavior read expired)
      | .linger outcome => some (c.pollLinger outcome expired)
      | _ => none
  | .guardJoined =>
      match c.await with
      | .joinGuard result => some ({ c with record := c.record.observeResult result }.ret result)
      | _ => none
  | .drop => if c.await.over then none else some c.drop

variable {policy peer behavior}

/-- The stream is set up before anything else. -/
theorem step_setup {c c' : Callee} {r : SetupEnd} {now : SystemTime}
    (hs : step policy peer behavior c (.setup r now) = some c') :
    c.await = .acceptBi ∧
      ((r = .opened ∧ c' = { c with await := .firstFrame now .fresh }) ∨
        (r ≠ .opened ∧ ∃ reason, c' = c.setupFailed reason)) := by
  cases hawait : c.await with
  | acceptBi =>
      simp only [step, hawait] at hs
      refine ⟨rfl, ?_⟩
      cases r with
      | opened => exact Or.inl ⟨rfl, (Option.some.inj hs).symm⟩
      | failed reason | timedOut => exact Or.inr ⟨nofun, _, (Option.some.inj hs).symm⟩
  | _ => simp only [step, hawait] at hs; cases hs

/-- Three awaits are polled for more than a write or a join. -/
theorem step_poll {c c' : Callee} {expired : Bool}
    (hs : step policy peer behavior c (.poll expired) = some c') :
    (∃ now read, c.await = .firstFrame now read ∧
      c' = c.pollFirstFrame policy peer behavior now read expired) ∨
    (∃ read, c.await = .waitTerminal read ∧ c' = c.pollWait behavior read expired) ∨
    (∃ outcome, c.await = .linger outcome ∧ c' = c.pollLinger outcome expired) := by
  cases hawait : c.await with
  | firstFrame now read =>
      simp only [step, hawait] at hs
      exact Or.inl ⟨now, read, rfl, (Option.some.inj hs).symm⟩
  | waitTerminal read =>
      simp only [step, hawait] at hs
      exact Or.inr (Or.inl ⟨read, rfl, (Option.some.inj hs).symm⟩)
  | linger outcome =>
      simp only [step, hawait] at hs
      exact Or.inr (Or.inr ⟨outcome, rfl, (Option.some.inj hs).symm⟩)
  | _ => simp only [step, hawait] at hs; cases hs

/-- The guard task is joined once, and the result of the call goes into the record. -/
theorem step_joined {c c' : Callee} (hs : step policy peer behavior c .guardJoined = some c') :
    ∃ result, c.await = .joinGuard result ∧
      c' = { c with record := c.record.observeResult result }.ret result := by
  cases hawait : c.await with
  | joinGuard result =>
      simp only [step, hawait] at hs
      exact ⟨result, rfl, (Option.some.inj hs).symm⟩
  | _ => simp only [step, hawait] at hs; cases hs

theorem pollWait_keeps (c : Callee) (read : ReadFrame) (expired : Bool)
    (hdenying : c.await.denying = false) (hearly : c.await.early = false)
    (hrunning : c.await.over = false) : Keeps c (c.pollWait behavior read expired) := by
  rw [Callee.pollWait]
  split
  · exact loopRet_keeps c _
  split
  · exact onTimer_keeps c
  split
  · exact connLost_keeps c _ _
  split
  · exact refl_keeps hdenying hearly hrunning
  split
  · exact (onRead_keeps _ _).of_eq rfl rfl rfl rfl
  split
  · exact (waitTop_keeps _).of_eq rfl rfl rfl rfl
  · exact ⟨rfl, rfl, rfl, rfl, rfl, rfl, rfl⟩

/-- The wait for the first frame goes on, ends without a decision, or comes to one. -/
theorem pollFirstFrame_accounted {c : Callee} {now : SystemTime} {read : ReadFrame}
    (h : Accounted policy peer c) (hawait : c.await = .firstFrame now read) (expired : Bool) :
    Accounted policy peer (c.pollFirstFrame policy peer behavior now read expired) := by
  have hearly : c.await.early = true := by rw [hawait]; rfl
  obtain ⟨hover, hdenying⟩ := Await.of_early hearly
  have hkeeps : ∀ {c' : Callee}, Keeps c c' → Accounted policy peer c' := fun hk =>
    accounted_of_keeps h hk hover hdenying
  rw [Callee.pollFirstFrame]
  split
  · exact hkeeps (loopRet_keeps c _)
  split
  · exact hkeeps (loopRet_keeps c _)
  split
  · next frame recv _ =>
      rw [Callee.onFrame]
      split
      · have hrecv : Accounted policy peer { c with recv := recv } :=
          ⟨h.emitted, h.early, h.denying, h.seeded, h.settled⟩
        exact authorize_accounted hrecv hearly now _ _
      · exact hkeeps ((closeOnFrameErr_loopRet_keeps _ _ _).of_eq rfl rfl rfl rfl)
      · exact hkeeps ⟨rfl, rfl, rfl, rfl, rfl, rfl, rfl⟩
  · exact hkeeps ((closeOnFrameErr_loopRet_keeps _ _ _).of_eq rfl rfl rfl rfl)
  · exact hkeeps ⟨rfl, rfl, rfl, rfl, rfl, rfl, rfl⟩
  · split
    · exact hkeeps ⟨rfl, rfl, rfl, rfl, rfl, rfl, rfl⟩
    · exact accounted_early h hearly rfl rfl rfl rfl

/-- A poll of the first frame emits nothing and keeps whose connection is recorded. -/
theorem pollFirstFrame_keeps (c : Callee) (now : SystemTime) (read : ReadFrame)
    (expired : Bool) :
    (c.pollFirstFrame policy peer behavior now read expired).audit = c.audit ∧
      (c.pollFirstFrame policy peer behavior now read expired).record.identity =
        c.record.identity ∧
      (c.pollFirstFrame policy peer behavior now read expired).await.over = false := by
  have hclosed := closeOnFrameErr_loopRet_keeps
  rw [Callee.pollFirstFrame]
  split
  · exact ⟨rfl, rfl, rfl⟩
  split
  · exact ⟨rfl, rfl, rfl⟩
  split
  · rw [Callee.onFrame]
    split
    · exact authorize_keeps _ _ _ _
    · exact ⟨(hclosed _ _ _).audit, (hclosed _ _ _).identity, (hclosed _ _ _).running⟩
    · exact ⟨rfl, rfl, rfl⟩
  · exact ⟨(hclosed _ _ _).audit, (hclosed _ _ _).identity, (hclosed _ _ _).running⟩
  · exact ⟨rfl, rfl, rfl⟩
  · split <;> exact ⟨rfl, rfl, rfl⟩

/-- The end of a write. -/
theorem wrote_moves {c c' : Callee} {w : WriteEnd}
    (hs : step policy peer behavior c (.wrote w) = some c') :
    Moves policy peer c c' (.wrote w) := by
  -- Four awaits end on a write; in the others the event does not happen.
  cases hawait : c.await with
  | writeDenied reason =>
      simp only [step, hawait] at hs
      obtain rfl := Option.some.inj hs
      have hover : c.await.over = false := by rw [hawait]; rfl
      have hdenying : c.await.denying = true := by rw [hawait]; rfl
      exact .goesOn nofun rfl rfl hover.symm fun h =>
        deniedWritten_accounted h hdenying hover reason
  | emit msg rest =>
      have hover : c.await.over = false := by rw [hawait]; rfl
      have hdenying : c.await.denying = false := by rw [hawait]; rfl
      simp only [step, hawait] at hs
      split at hs
      · obtain rfl := Option.some.inj hs
        exact .of_keeps nofun ((emitCallee_keeps _ _).of_eq rfl rfl rfl rfl) hover hdenying
      · obtain rfl := Option.some.inj hs
        exact .of_keeps nofun (writeFailed_keeps c _) hover hdenying
  | writeTimeout msg =>
      have hover : c.await.over = false := by rw [hawait]; rfl
      have hdenying : c.await.denying = false := by rw [hawait]; rfl
      simp only [step, hawait] at hs
      split at hs
      · obtain rfl := Option.some.inj hs
        exact .of_keeps nofun ((timeoutWritten_keeps _).of_eq rfl rfl rfl rfl) hover hdenying
      · obtain rfl := Option.some.inj hs
        exact .of_keeps nofun (timeoutWritten_keeps c) hover hdenying
  | writeReply msg =>
      have hover : c.await.over = false := by rw [hawait]; rfl
      have hdenying : c.await.denying = false := by rw [hawait]; rfl
      simp only [step, hawait] at hs
      split at hs
      · obtain rfl := Option.some.inj hs
        exact .of_keeps nofun ((waitTop_keeps _).of_eq rfl rfl rfl rfl) hover hdenying
      · obtain rfl := Option.some.inj hs
        exact .of_keeps nofun (writeFailed_keeps c _) hover hdenying
  | _ => simp only [step, hawait] at hs; cases hs

/-- A poll of the task. -/
theorem poll_moves {c c' : Callee} {expired : Bool}
    (hs : step policy peer behavior c (.poll expired) = some c') :
    Moves policy peer c c' (.poll expired) := by
  rcases step_poll hs with ⟨now, read, hawait, rfl⟩ | ⟨read, hawait, rfl⟩ | ⟨outcome, hawait, rfl⟩
  · have hover : c.await.over = false := by rw [hawait]; rfl
    obtain ⟨haudit, hidentity, hrunning⟩ :
        (c.pollFirstFrame policy peer behavior now read expired).audit = c.audit ∧
          (c.pollFirstFrame policy peer behavior now read expired).record.identity =
            c.record.identity ∧
          (c.pollFirstFrame policy peer behavior now read expired).await.over = false :=
      pollFirstFrame_keeps c now read expired
    exact .goesOn nofun haudit hidentity (hrunning.trans hover.symm) fun h =>
      pollFirstFrame_accounted h hawait expired
  · have hover : c.await.over = false := by rw [hawait]; rfl
    have hdenying : c.await.denying = false := by rw [hawait]; rfl
    have hearly : c.await.early = false := by rw [hawait]; rfl
    exact .of_keeps nofun (pollWait_keeps c read expired hdenying hearly hover) hover hdenying
  · have hover : c.await.over = false := by rw [hawait]; rfl
    have hdenying : c.await.denying = false := by rw [hawait]; rfl
    have hearly : c.await.early = false := by rw [hawait]; rfl
    have hkeeps := pollLinger_keeps c outcome expired hdenying hearly hover
    exact .of_keeps nofun hkeeps hover hdenying

/-- **The step lemma.**  Every step goes on without a word to the sink, or ends the run and
    emits the record the guard holds. -/
theorem step_moves {c c' : Callee} {e : Ev} (hs : step policy peer behavior c e = some c') :
    Moves policy peer c c' e := by
  -- The guard speaks at a failed setup, at the join and at the drop, and nowhere else.
  cases e with
  | setup r now =>
      obtain ⟨hawait, hend⟩ := step_setup hs
      have hearly : c.await.early = true := by rw [hawait]; rfl
      obtain ⟨hover, -⟩ := Await.of_early hearly
      rcases hend with ⟨rfl, rfl⟩ | ⟨hfailed, reason, rfl⟩
      · exact .goesOn (fun h => h rfl) rfl rfl hover.symm fun h =>
          accounted_early h hearly rfl rfl rfl rfl
      · have hends : Ends (.setup r now) := hfailed
        exact setupFailed_moves hearly hends reason
  | arrive bytes =>
      obtain ⟨-, hs⟩ := Option.ite_none_right_eq_some.mp hs
      obtain rfl := Option.some.inj hs
      exact .of_same nofun rfl rfl rfl rfl
  | endStream e =>
      obtain ⟨-, hs⟩ := Option.ite_none_right_eq_some.mp hs
      obtain rfl := Option.some.inj hs
      exact .of_same nofun rfl rfl rfl rfl
  | close err =>
      obtain ⟨-, hs⟩ := Option.ite_none_right_eq_some.mp hs
      obtain rfl := Option.some.inj hs
      exact .of_same nofun rfl rfl rfl rfl
  | shutdown =>
      obtain rfl := Option.some.inj hs
      exact .of_same nofun rfl rfl rfl rfl
  | timer =>
      obtain ⟨-, hs⟩ := Option.ite_none_right_eq_some.mp hs
      obtain rfl := Option.some.inj hs
      exact .of_same nofun rfl rfl rfl rfl
  | spend spent =>
      obtain rfl := Option.some.inj hs
      exact .of_same nofun rfl rfl rfl rfl
  | wrote w => exact wrote_moves hs
  | poll expired => exact poll_moves hs
  | guardJoined =>
      obtain ⟨result, hawait, rfl⟩ := step_joined hs
      have hover : c.await.over = false := by rw [hawait]; rfl
      exact .ends { c with record := c.record.observeResult result } trivial hover rfl rfl
        (observeResult_identity _ _) (observeResult_authorization _ _) rfl rfl
  | drop =>
      obtain ⟨hover, hs⟩ := Option.ite_none_left_eq_some.mp hs
      obtain rfl := Option.some.inj hs
      exact .ends c trivial (Bool.eq_false_iff.mpr hover) rfl rfl rfl rfl rfl rfl

end

section

variable {Key : Type} (policy : Policy Key) (peer : NodeId) (spent : MemorySpentSet)

/-- Past the gate nothing is decided; the gate's refusal is recorded before the return. -/
theorem start_accounted : Accounted policy peer (runCalleeWith policy peer spent) := by
  rw [runCalleeWith]
  split
  · exact accounted_of_over rfl
  · exact ⟨fun _ => rfl, fun _ => rfl, nofun, fun _ _ => rfl, fun _ hdec => nomatch hdec.1⟩

/-- Nothing recorded yet, nothing false. -/
theorem start_truthful : Truthful policy peer (runCalleeWith policy peer spent) := by
  rw [runCalleeWith]
  split
  · intro a ha
    obtain rfl := List.mem_singleton.mp ha
    exact ⟨nofun, nofun⟩
  · exact fun a ha => nomatch ha

end

section

variable [text : JsonText] {Key : Type} [BiscuitEngine Key]

/-- **WHAT THE AUDIT SAYS OF THE AUTHORIZATION IS TRUE, EXACTLY.**  For every policy, peer
    and order of events, the record the sink receives is truthful if and only if the run
    did not end before its authorization was decided, or the peer is on the allowlist. -/
theorem audit_truthful_iff (policy : Policy Key) (peer : NodeId) (behavior : CalleeBehavior)
    (spent : MemorySpentSet) (es : List Ev) (t : Callee)
    (hrun : runFrom (step policy peer behavior) (runCalleeWith policy peer spent) es = some t) :
    Truthful policy peer t ↔
      EveryStep (step policy peer behavior) (DecidedAtEnd policy peer)
        (runCalleeWith policy peer spent) es := by
  refine run_exact (J := Accounted policy peer) (Q := fun _ => True) ?_ ?_ es _ t
    (fun _ _ => trivial) (start_accounted policy peer spent) (start_truthful policy peer spent) hrun
  · intro c e c' hacc htrue _ hs
    exact (step_moves hs).exact hacc htrue
  · intro c e c' hfalse _ hs
    exact (step_moves hs).lost hfalse

end

end

/-! ## A stranger whose connection fails before its first frame -/

section

attribute [local instance] plainText compactJson noToken

/-- A root key is configured, so the gate lets the stranger pass; then `accept_bi` fails. -/
def setupFails : List Ev := [.setup (.failed "connection lost") epoch]

def afterSetupFails : Callee := (runCalleeWith oneRoot stranger .new).setupFailed "connection lost"

theorem audit_truthful_iff_setupFails :
    runFrom (step oneRoot stranger .stubComplete) (runCalleeWith oneRoot stranger .new) setupFails =
        some afterSetupFails ∧
      (Truthful oneRoot stranger afterSetupFails ↔
        EveryStep (step oneRoot stranger .stubComplete) (DecidedAtEnd oneRoot stranger)
          (runCalleeWith oneRoot stranger .new) setupFails) :=
  ⟨rfl, audit_truthful_iff oneRoot stranger .stubComplete .new setupFails _ rfl⟩

/-- The stranger's record says it was on the allowlist. -/
theorem setup_failure_recorded_as_allowlist :
    runFrom (step oneRoot stranger .stubComplete) (runCalleeWith oneRoot stranger .new) setupFails =
        some afterSetupFails ∧
      ¬ Truthful oneRoot stranger afterSetupFails := by
  refine ⟨rfl, fun htrue => ?_⟩
  have hlisted : oneRoot.contains stranger = true :=
    (htrue ⟨⟨none, .inbound, stranger, .allowed .allowlist, .peerLost⟩, none⟩
      (List.mem_singleton.mpr rfl)).1 rfl
  exact absurd hlisted (by decide)

end

end UatCalleeRun
