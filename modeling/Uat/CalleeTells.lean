import Uat.TwoParty
import Uat.Admission
import Uat.Incoming
import Uat.Wire

/-! # What the callee has told

    The messages that `run_callee_with` puts on the stream, beside what its record will
    say.  Once a message that carries a verdict is on the stream, the callee only lingers,
    returns, and records that verdict.

    `callee_own` is the step between two writes, `callee_wrote` the end of a write. -/

namespace UatCalleeTells

open UatTypes UatState UatPolicy UatVerify UatCodec UatHeader UatStream UatRecvStream UatRecord
open UatCallerLoop (WriteEnd)
open UatCalleeRun (Callee CalleeBehavior runCalleeWith)
open UatAdmission (authorize_message)
open UatTwoParty (verdict IsVerdict)
open UatWire Checked StepRun

section

variable [Base64Engine]

/-- The message the callee is writing. -/
def calleeWrites : UatCalleeRun.Await → Option Message
  | .writeDenied _ => some (.failed .unauthorized)
  | .emit msg _ | .writeTimeout msg | .writeReply msg => some msg
  | _ => none

/-- The end of a write and the bytes that arrive belong to the stream.  The task runs to
    its end: it is dropped when a panic unwinds it, and at no await. -/
def calleeOwn (c : Callee) : UatCalleeRun.Ev → Bool
  | .wrote _ | .arrive _ => false
  | .drop =>
      match c.await with
      | .unwinding => true
      | _ => false
  | _ => true

/-- What a write has announced when it ends. -/
def toldBy (m : Message) : WriteEnd → List Message
  | .done => [m]
  | _ => []

/-! ## The invariant -/

/-- The record the guard will emit, from the moment that is settled. -/
def final (c : Callee) : Option CallRecord :=
  match c.await with
  | .linger outcome => some (c.record.setOutcome outcome).record
  | .joinGuard result => some (c.record.observeResult result).record
  | _ => none

/-- The outcome is recorded, and the task unless the record is a denial. -/
def Tells (task : TaskId) (o : Outcome) (r : CallRecord) : Prop :=
  r.outcome = o ∧ (r.task = some task ∨ ∃ reason, r.authorization = .denied reason)

/-- The callee stands by a verdict, in what it will record or in what it has recorded. -/
structure Stands (task : TaskId) (o : Outcome) (c : Callee) : Prop where
  settled : c.await.over = false → ∃ r, final c = some r ∧ Tells task o r
  recorded : ∀ a ∈ c.audit, Tells task o a.record

/-- How many messages the callee may still put on the stream, with the one being written. -/
def left : UatCalleeRun.Await → Nat
  | .acceptBi | .firstFrame .. => 3
  | .emit _ rest => rest.length + 2
  | .writeDenied _ | .waitTerminal _ | .writeTimeout _ | .writeReply _ => 1
  | _ => 0

/-- Messages to emit in a row: a verdict comes last. -/
def Script : List Message → Prop
  | [] => True
  | m :: rest => m ∈ said ∧ (verdict m = none ∨ rest = []) ∧ Script rest

/-- What is being written is one of the callee's messages, and a verdict among them is the
    state the callee is in. -/
def Ready (c : Callee) : Prop :=
  match c.await with
  | .emit msg rest => Script (msg :: rest) ∧ ∀ o, verdict msg = some o → c.state = .terminal o
  | .writeTimeout msg | .writeReply msg =>
      msg ∈ said ∧ ∃ o, verdict msg = some o ∧ c.state = .terminal o
  | _ => True

/-- A callee that drives the call of `task` and writes at most `n` messages more. -/
structure Driven (task : TaskId) (n : Nat) (c : Callee) : Prop where
  ready : Ready c
  budget : left c.await ≤ n
  tasked : c.await.hasTimer = true → c.record.record.task = some task

/-- **The callee's invariant.** -/
structure Speaks (task : TaskId) (told : List Message) (c : Callee) : Prop extends
    Driven task (3 - told.length) c where
  room : told.length ≤ 3
  told : ∀ m ∈ told, ∀ o, verdict m = some o → Stands task o c

/-- The bytes the callee's first read has taken. -/
def taken : UatCalleeRun.Await → Bytes
  | .firstFrame _ read => read.held
  | _ => []

/-- The future of the first read stands between two bytes. -/
def PartRead (c : Callee) : Prop :=
  ∀ now read, c.await = .firstFrame now read → read.Partial

section

variable {task : TaskId} {told : List Message} {c c' : Callee} {n : Nat} {callerId : NodeId}

/-- Past the first frame there is no first read. -/
theorem partRead_of_late (h : c.await.early = false) : PartRead c := by
  intro now read hawait
  rw [hawait] at h
  cases h

/-- What is being written is one of the callee's messages. -/
theorem writes_said {m : Message} (h : Ready c) (hwrites : calleeWrites c.await = some m) :
    m ∈ said := by
  rw [Ready] at h
  cases hawait : c.await with
  | writeDenied reason =>
      rw [hawait] at hwrites
      obtain rfl := Option.some.inj hwrites
      exact List.mem_of_getElem? (i := 5) rfl
  | emit msg rest =>
      simp only [hawait] at h
      rw [hawait] at hwrites
      obtain rfl := Option.some.inj hwrites
      exact h.1.1
  | writeTimeout msg | writeReply msg =>
      simp only [hawait] at h
      rw [hawait] at hwrites
      obtain rfl := Option.some.inj hwrites
      exact h.1
  | _ =>
      rw [hawait] at hwrites
      cases hwrites

/-- During a write nothing is settled. -/
theorem unsettled_of_writes {m : Message} (h : calleeWrites c.await = some m) :
    c.await.over = false ∧ final c = none := by
  cases hawait : c.await with
  | writeDenied reason | emit msg rest | writeTimeout msg | writeReply msg =>
      exact ⟨rfl, by rw [final, hawait]⟩
  | _ =>
      rw [hawait] at h
      cases h

/-- Before its verdict a callee has three messages to say, at most. -/
theorem left_of_early {a : UatCalleeRun.Await} (h : a.early = true) : left a = 3 := by
  cases a <;> first | rfl | cases h

theorem one_le_left {a : UatCalleeRun.Await} {m : Message} (h : calleeWrites a = some m) :
    1 ≤ left a := by
  cases a <;> simp [calleeWrites, left] at h ⊢

/-- Before anything is settled no verdict was told. -/
theorem Speaks.silent (h : Speaks task told c) (hover : c.await.over = false)
    (hfinal : final c = none) : ∀ m ∈ told, verdict m = none := by
  intro m hm
  cases hv : verdict m with
  | none => rfl
  | some o =>
      obtain ⟨r, hr, -⟩ := (h.told m hm o hv).settled hover
      cases hfinal.symm.trans hr

/-- A callee that drives its call keeps the invariant as long as no verdict is told. -/
theorem Speaks.of_silent (hdriven : Driven task n c') (hroom : told.length + n ≤ 3)
    (hsilent : ∀ m ∈ told, verdict m = none) : Speaks task told c' := by
  have hbudget := hdriven.budget
  refine ⟨⟨hdriven.ready, by omega, hdriven.tasked⟩, by omega, fun m hm o ho => ?_⟩
  cases (hsilent m hm).symm.trans ho

/-- A step that leaves the call, its record and the sink alone. -/
theorem Speaks.same (h : Speaks task told c) (hawait : c'.await = c.await)
    (hstate : c'.state = c.state) (hrecord : c'.record = c.record) (haudit : c'.audit = c.audit) :
    Speaks task told c' := by
  have hfinal : final c' = final c := by rw [final, final, hawait, hrecord]
  have hready : Ready c' := by
    have hready := h.ready
    rw [Ready] at hready ⊢
    rw [hawait, hstate]
    exact hready
  refine ⟨⟨hready, ?_, ?_⟩, h.room, fun m hm o ho => ⟨?_, ?_⟩⟩
  · rw [hawait]
    exact h.budget
  · rw [hawait, hrecord]
    exact h.tasked
  · rw [hawait, hfinal]
    exact (h.told m hm o ho).settled
  · rw [haudit]
    exact (h.told m hm o ho).recorded

/-! ### The functions between two awaits -/

theorem Driven.of_le (h : Driven task n c) {n' : Nat} (hn : n ≤ n') : Driven task n' c :=
  ⟨h.ready, Nat.le_trans h.budget hn, h.tasked⟩

/-- A callee that writes nothing and has no timer yet, or no longer. -/
theorem driven_of_idle (hquiet : calleeWrites c.await = none) (htimer : c.await.hasTimer = false)
    (hleft : left c.await ≤ n) : Driven task n c := by
  refine ⟨?_, hleft, fun htimed => ?_⟩
  · rw [Ready]
    cases hawait : c.await with
    | emit msg rest | writeTimeout msg | writeReply msg =>
        rw [hawait] at hquiet
        cases hquiet
    | _ => trivial
  · cases htimer.symm.trans htimed

/-- A loop that returns writes nothing more. -/
theorem loopRet_driven (c : Callee) (r : Except CallError Outcome) :
    Driven task 0 (c.loopRet r) := driven_of_idle rfl rfl (Nat.le_refl 0)

theorem closeOnFrameErr_loopRet_driven (c : Callee) (err : FrameIoError)
    (r : Except CallError Outcome) : Driven task 0 ((c.closeOnFrameErr err).loopRet r) :=
  loopRet_driven _ r

/-- A waiting callee has one message to say. -/
theorem waitTop_driven (htask : c.record.record.task = some task) : Driven task 1 c.waitTop := by
  rw [Callee.waitTop]
  cases c.state with
  | terminal o => exact driven_of_idle rfl rfl (Nat.zero_le 1)
  | _ => exact ⟨trivial, Nat.le_refl 1, fun _ => htask⟩

/-- The step that sends a verdict is the step into it. -/
theorem sent_verdict {s : CalleeState} {m : Message} {st : Step CalleeState}
    (h : calleeStep s (.send m) = .ok st) {o : Outcome} (ho : verdict m = some o) :
    st.state = .terminal o := by
  rcases calleeStep_send h with ⟨-, rfl, -⟩ | ⟨-, rfl, -⟩ | ⟨-, rfl, -⟩ | ⟨-, ⟨b, rfl⟩, rfl⟩ |
    ⟨code, rfl, -, rfl⟩ <;> cases ho <;> rfl

/-- A script is written message by message, and then the callee waits. -/
theorem emitCallee_driven (htask : c.record.record.task = some task) {msgs : List Message}
    (hscript : Script msgs) : Driven task (msgs.length + 1) (c.emitCallee msgs) := by
  cases msgs with
  | nil => exact waitTop_driven htask
  | cons msg rest =>
      unfold Callee.emitCallee
      dsimp only
      cases hstep : calleeStep c.state (.send msg) with
      | error _ => exact (loopRet_driven _ _).of_le (Nat.zero_le _)
      | ok st =>
          refine ⟨⟨hscript, fun o ho => sent_verdict hstep ho⟩, ?_, fun _ => htask⟩
          exact Nat.le_refl (rest.length + 2)

theorem writeFailed_driven (c : Callee) (err : CallError) : Driven task 0 (c.writeFailed err) := by
  cases err with
  | frame fe => exact closeOnFrameErr_loopRet_driven c fe _
  | _ => exact loopRet_driven c _

theorem ended_driven (c : Callee) (otherwise : Except CallError Outcome) :
    Driven task 0 (c.ended otherwise) := by
  rw [Callee.ended]
  cases c.state with
  | terminal o => exact driven_of_idle rfl rfl (Nat.le_refl 0)
  | _ => exact loopRet_driven c _

theorem timeoutWritten_driven (c : Callee) : Driven task 0 c.timeoutWritten := by
  rw [Callee.timeoutWritten]
  cases c.state with
  | terminal o => exact driven_of_idle rfl rfl (Nat.le_refl 0)
  | _ => exact loopRet_driven c _

/-- The deadline's message is a verdict, and so is the reply to a `Cancel`. -/
theorem onTimer_driven (htask : c.record.record.task = some task) : Driven task 1 c.onTimer := by
  rw [Callee.onTimer]
  cases hstep : calleeStep c.state .timeout with
  | error _ => exact (loopRet_driven _ _).of_le (Nat.zero_le 1)
  | ok st =>
      cases (calleeStep_timeout (calleeStep_nonterminal hstep)).symm.trans hstep
      refine ⟨⟨?_, _, rfl, rfl⟩, Nat.le_refl 1, fun _ => htask⟩
      exact List.mem_of_getElem? (i := 4) rfl

theorem connLost_driven (c : Callee) (code : CloseCode) (otherwise : Except CallError Outcome) :
    Driven task 0 (c.connLost code otherwise) := by
  rw [Callee.connLost]
  cases calleeStep c.state (.connLost code) with
  | error _ => exact loopRet_driven c _
  | ok st => exact ended_driven _ otherwise

/-- A frame read is answered by one message, at most. -/
theorem onRead_driven (htask : c.record.record.task = some task)
    (r : Exec FrameIoError Message) : Driven task 1 (c.onRead r) := by
  match r with
  | .ok msg =>
      rw [Callee.onRead]
      dsimp only
      cases hstep : calleeStep c.state (.recv msg) with
      | error _ => exact (loopRet_driven _ _).of_le (Nat.zero_le 1)
      | ok st =>
          rcases calleeStep_recv hstep with ⟨-, -, rfl⟩ | ⟨-, rfl⟩
          · exact waitTop_driven htask
          · refine ⟨⟨?_, _, rfl, rfl⟩, Nat.le_refl 1, fun _ => htask⟩
            exact List.mem_of_getElem? (i := 3) rfl
  | .error (.err (.codec err)) =>
      exact (closeOnFrameErr_loopRet_driven c _ _).of_le (Nat.zero_le 1)
  | .error (.err (.read _)) | .error (.err .write) | .error (.err .unexpectedEnd) =>
      exact (connLost_driven c _ _).of_le (Nat.zero_le 1)
  | .error .panic => exact driven_of_idle rfl rfl (Nat.zero_le 1)

/-- Lingering settles nothing anew. -/
theorem pollLinger_speaks {outcome : Outcome} (h : Speaks task told c)
    (hawait : c.await = .linger outcome) (expired : Bool) :
    Speaks task told (c.pollLinger outcome expired) := by
  have hover : c.await.over = false := by rw [hawait]; rfl
  have hfinal : final c = some (c.record.setOutcome outcome).record := by rw [final, hawait]
  -- The outcome it lingers on is the one `observe_result` will record.
  have hret : ∀ c₁ : Callee, c₁.record = c.record → c₁.audit = c.audit →
      Speaks task told (c₁.loopRet (.ok outcome)) := by
    intro c₁ hrecord haudit
    refine ⟨(loopRet_driven _ _).of_le (Nat.zero_le _), h.room, fun m hm o ho => ?_⟩
    obtain ⟨r, hr, htells⟩ := (h.told m hm o ho).settled hover
    obtain rfl := Option.some.inj (hfinal.symm.trans hr)
    refine ⟨fun _ => ⟨_, rfl, ?_⟩, ?_⟩
    · show Tells task o (c₁.record.setOutcome outcome).record
      rw [hrecord]
      exact htells
    · show ∀ a ∈ c₁.audit, _
      rw [haudit]
      exact (h.told m hm o ho).recorded
  rw [Callee.pollLinger]
  split
  · exact hret _ rfl rfl
  split
  · exact hret _ rfl rfl
  split
  · exact hret _ rfl rfl
  · exact h

/-- The guard emits the record that was settled. -/
theorem guardJoined_speaks {result : Except CallError Outcome} (h : Speaks task told c)
    (hacc : UatIncoming.Accounted callerId c) (hawait : c.await = .joinGuard result) :
    Speaks task told ({ c with record := c.record.observeResult result }.ret result) := by
  have hover : c.await.over = false := by rw [hawait]; rfl
  -- The sink is empty until the guard emits, so this record is the only one.
  obtain ⟨haudit, hidentity⟩ := hacc.running hover
  refine ⟨driven_of_idle rfl rfl (Nat.zero_le _), h.room, fun m hm o ho => ⟨nofun, ?_⟩⟩
  obtain ⟨r, hr, htells⟩ := (h.told m hm o ho).settled hover
  rw [final] at hr
  rw [hawait] at hr
  obtain rfl := Option.some.inj hr
  have hopen : (c.record.observeResult result).emitted = false :=
    congrArg Prod.fst ((observeResult_identity c.record result).trans hidentity)
  show ∀ a ∈ c.audit ++ ((c.record.observeResult result).emitNow []).2.map _, _
  rw [haudit]
  rw [CallRecordGuard.emitNow]
  rw [if_neg (by rw [hopen]; exact Bool.false_ne_true)]
  intro a ha
  obtain rfl := List.mem_singleton.mp ha
  exact htells

end

/-! ### One step of the callee -/

/-- The messages of every behavior are a script of at most two. -/
theorem script_emits (behavior : CalleeBehavior) :
    Script behavior.emits ∧ behavior.emits.length ≤ 2 := by
  cases behavior <;> simp [CalleeBehavior.emits, Script, said, verdict]

/-- The message is the `Submit` of `task`. -/
def Submits (task : TaskId) (m : Message) : Prop :=
  ∃ deadline contentType credential body, m = .submit task deadline contentType credential body

/-- The task of the submit that `verify` let through is the header's. -/
theorem authorized_task {task : TaskId} {a : AuthorizedSubmit} (h : Submits task a.message)
    (body : Bytes) : (a.withBody body).task = task := by
  obtain ⟨deadline, contentType, credential, body', hm⟩ := h
  obtain ⟨rule, message, hsubmit⟩ := a
  cases hm
  rfl

section

variable {Key : Type} [BiscuitEngine Key] {policy : Policy Key} {callerId : NodeId}
  {behavior : CalleeBehavior} {task : TaskId} {told : List Message} {c c' : Callee}

/-- The verdict on the header is followed by the denial, or by the behavior's script. -/
theorem authorize_driven {header : Message} (hheader : Submits task header) (now : SystemTime)
    (body : Bytes) : Driven task 3 (c.authorize policy callerId behavior now header body) := by
  rw [Callee.authorize]
  split
  · next submit spent hauth =>
      have htask : (submit.withBody body).task = task := by
        refine authorized_task ?_ body
        rw [authorize_message hauth]
        exact hheader
      obtain ⟨hscript, hlength⟩ := script_emits behavior
      exact (emitCallee_driven (congrArg some htask) hscript).of_le (Nat.succ_le_succ hlength)
  · exact ⟨trivial, (by decide : 1 ≤ 3), (by intro h; cases h)⟩
  · exact driven_of_idle rfl rfl (Nat.zero_le 3)

/-- What a step between two writes does: a told verdict still stands, no message is added
    to what may be written, and a write is not left. -/
structure OwnStep (task : TaskId) (told : List Message) (c c' : Callee) : Prop where
  speaks : Speaks task told c'
  left : left c'.await ≤ left c.await
  writing : ∀ m, calleeWrites c.await = some m → c'.await = c.await

/-- What happens around the callee is no step of its own. -/
theorem own_of_same (h : Speaks task told c) (hawait : c'.await = c.await)
    (hstate : c'.state = c.state) (hrecord : c'.record = c.record) (haudit : c'.audit = c.audit) :
    OwnStep task told c c' :=
  ⟨h.same hawait hstate hrecord haudit, by rw [hawait], fun _ _ => hawait⟩

/-- A step out of an await at which nothing is settled and nothing is written. -/
theorem own_of_silent (h : Speaks task told c) (hover : c.await.over = false)
    (hfinal : final c = none) (hquiet : calleeWrites c.await = none)
    (hdriven : Driven task (left c.await) c') : OwnStep task told c c' := by
  have hbudget := h.budget
  have hroom := h.room
  refine ⟨.of_silent hdriven (by omega) (h.silent hover hfinal), hdriven.budget, fun m hm => ?_⟩
  cases hquiet.symm.trans hm

/-- A callee that goes to linger on a verdict it has told stands by it. -/
theorem lingers_speaks {m : Message} {o : Outcome} (hsilent : ∀ m ∈ told, verdict m = none)
    (hroom : told.length + 1 ≤ 3) (hm : verdict m = some o) (haudit : c.audit = [])
    (htask : c.record.record.task = some task) :
    Speaks task (told ++ [m]) { c with await := .linger o } := by
  refine ⟨driven_of_idle rfl rfl (Nat.zero_le _), ?_, ?_⟩
  · rw [List.length_append]
    exact hroom
  · intro m' hm' o' ho'
    rcases List.mem_append.mp hm' with hold | hnew
    · cases (hsilent m' hold).symm.trans ho'
    · obtain rfl := List.mem_singleton.mp hnew
      obtain rfl := Option.some.inj (hm.symm.trans ho')
      refine ⟨fun _ => ⟨_, rfl, rfl, Or.inl htask⟩, fun a ha => ?_⟩
      rw [haudit] at ha
      cases ha

/-- The denial that was told is what the record will say. -/
theorem deniedWritten_speaks (hsilent : ∀ m ∈ told, verdict m = none)
    (hroom : told.length + 1 ≤ 3) (haudit : c.audit = []) (reason : String) (w : WriteEnd) :
    Speaks task (told ++ toldBy (.failed .unauthorized) w) (c.deniedWritten reason) := by
  have hlength : (told ++ toldBy (.failed .unauthorized) w).length ≤ 3 := by
    rw [List.length_append]
    cases w <;> simp only [toldBy, List.length_cons, List.length_nil] <;> omega
  refine ⟨driven_of_idle rfl rfl (Nat.zero_le _), hlength, fun m hm o ho => ?_⟩
  rcases List.mem_append.mp hm with hold | hnew
  · cases (hsilent m hold).symm.trans ho
  · cases w with
    | done =>
        obtain rfl := List.mem_singleton.mp hnew
        obtain rfl := Option.some.inj ho
        refine ⟨fun _ => ⟨_, rfl, rfl, Or.inr ⟨reason, rfl⟩⟩, fun a ha => ?_⟩
        have hempty : a ∈ ([] : List UatCalleeRun.Audited) := haudit ▸ ha
        cases hempty
    | failed err | timedOut => cases hnew

/-- A callee whose state is the verdict it told goes to linger on it. -/
theorem waitTop_speaks {m : Message} {o : Outcome} (hstate : c.state = .terminal o)
    (hsilent : ∀ m ∈ told, verdict m = none) (hroom : told.length + 1 ≤ 3)
    (hm : verdict m = some o) (haudit : c.audit = []) (htask : c.record.record.task = some task) :
    Speaks task (told ++ [m]) c.waitTop := by
  rw [Callee.waitTop]
  rw [hstate]
  exact lingers_speaks (c := { c with state := .terminal o }) hsilent hroom hm haudit htask

/-- So does one that has told its deadline. -/
theorem timeoutWritten_speaks {m : Message} {o : Outcome} (hstate : c.state = .terminal o)
    (hsilent : ∀ m ∈ told, verdict m = none) (hroom : told.length + 1 ≤ 3)
    (hm : verdict m = some o) (haudit : c.audit = []) (htask : c.record.record.task = some task) :
    Speaks task (told ++ [m]) c.timeoutWritten := by
  rw [Callee.timeoutWritten]
  rw [hstate]
  exact lingers_speaks (c := c.closeWith .normal) hsilent hroom hm haudit htask

/-- A message without a verdict is followed by the rest of the script; one with a verdict is
    the last, and the callee goes to linger on it. -/
theorem emitted_speaks {m : Message} {rest : List Message}
    (hstate : ∀ o, verdict m = some o → c.state = .terminal o)
    (hlast : verdict m = none ∨ rest = []) (hscript : Script rest)
    (hsilent : ∀ m ∈ told, verdict m = none) (hroom : rest.length + 2 ≤ 3 - told.length)
    (haudit : c.audit = []) (htask : c.record.record.task = some task) :
    Speaks task (told ++ [m]) (c.emitCallee rest) := by
  cases hv : verdict m with
  | none =>
      refine .of_silent (emitCallee_driven htask hscript) ?_ ?_
      · rw [List.length_append, List.length_singleton]
        omega
      · intro m' hm'
        rcases List.mem_append.mp hm' with hold | hnew
        · exact hsilent m' hold
        · obtain rfl := List.mem_singleton.mp hnew
          exact hv
  | some o =>
      obtain rfl : rest = [] := hlast.resolve_left fun hnone => by cases hnone.symm.trans hv
      exact waitTop_speaks (hstate o hv) hsilent (by omega) hv haudit htask

variable [text : JsonText]

/-- Every frame the callee can take as its first is the `Submit` of `task`. -/
def FirstFrame (task : TaskId) (c : Callee) : Prop :=
  ∀ now read frame recv, c.await = .firstFrame now read →
    pollFrame read c.recv = (.ready (.ok frame), recv) →
    ∀ header body, decodeParts fromSlice frame = .ok (header, body) → Submits task header

/-- A poll of the first frame leaves three messages to say, at most. -/
theorem pollFirstFrame_driven {now : SystemTime} {read : ReadFrame}
    (hawait : c.await = .firstFrame now read) (hfirst : FirstFrame task c) (expired : Bool) :
    Driven task 3 (c.pollFirstFrame policy callerId behavior now read expired) := by
  rw [Callee.pollFirstFrame]
  split
  · exact (loopRet_driven _ _).of_le (Nat.zero_le 3)
  split
  · exact (loopRet_driven _ _).of_le (Nat.zero_le 3)
  split
  · next frame recv hpoll =>
      rw [Callee.onFrame]
      split
      · next header body hparts =>
          have hheader := hfirst now read frame recv hawait hpoll header body hparts
          exact authorize_driven hheader now body
      · exact (closeOnFrameErr_loopRet_driven _ _ _).of_le (Nat.zero_le 3)
      · exact driven_of_idle rfl rfl (Nat.zero_le 3)
  · exact (closeOnFrameErr_loopRet_driven _ _ _).of_le (Nat.zero_le 3)
  · exact driven_of_idle rfl rfl (Nat.zero_le 3)
  · split
    · exact (loopRet_driven _ _).of_le (Nat.zero_le 3)
    · exact driven_of_idle rfl rfl (Nat.le_refl 3)

/-- A poll of the waiting loop leaves one, at most. -/
theorem pollWait_driven {read : ReadFrame} (hawait : c.await = .waitTerminal read)
    (htask : c.record.record.task = some task) (expired : Bool) :
    Driven task 1 (c.pollWait behavior read expired) := by
  rw [Callee.pollWait]
  split
  · exact (loopRet_driven _ _).of_le (Nat.zero_le 1)
  split
  · exact onTimer_driven htask
  split
  · exact (connLost_driven _ _ _).of_le (Nat.zero_le 1)
  split
  · refine ⟨?_, by rw [hawait]; exact Nat.le_refl 1, fun _ => htask⟩
    rw [Ready]
    rw [hawait]
    trivial
  split
  · refine onRead_driven ?_ _
    exact htask
  split
  · exact waitTop_driven htask
  · exact ⟨trivial, Nat.le_refl 1, fun _ => htask⟩

/-- **The callee between two writes.** -/
theorem callee_own {e : UatCalleeRun.Ev} (h : Speaks task told c)
    (hacc : UatIncoming.Accounted callerId c) (hfirst : FirstFrame task c)
    (hown : calleeOwn c e = true)
    (hs : UatCalleeRun.step policy callerId behavior c e = some c') : OwnStep task told c c' := by
  cases e with
  | arrive bytes | wrote w => cases hown
  | endStream e | close err | timer =>
      obtain ⟨-, hs⟩ := Option.ite_none_right_eq_some.mp hs
      obtain rfl := Option.some.inj hs
      exact own_of_same h rfl rfl rfl rfl
  | shutdown | spend spent =>
      obtain rfl := Option.some.inj hs
      exact own_of_same h rfl rfl rfl rfl
  | setup r now =>
      obtain ⟨hawait, hend⟩ := UatCalleeRun.step_setup hs
      -- Nothing was told before the stream is open, whatever its setup comes to.
      refine own_of_silent h (by rw [hawait]; rfl) (by rw [final, hawait])
        (by rw [hawait]; rfl) ?_
      rw [hawait]
      rcases hend with ⟨-, rfl⟩ | ⟨-, reason, rfl⟩
      · exact driven_of_idle rfl rfl (Nat.le_refl 3)
      · exact driven_of_idle rfl rfl (Nat.zero_le 3)
  | poll expired =>
      rcases UatCalleeRun.step_poll hs with
        ⟨now, read, hawait, rfl⟩ | ⟨read, hawait, rfl⟩ | ⟨outcome, hawait, rfl⟩
      · refine own_of_silent h (by rw [hawait]; rfl) (by rw [final, hawait])
          (by rw [hawait]; rfl) ?_
        rw [hawait]
        exact pollFirstFrame_driven hawait hfirst expired
      · have htask : c.record.record.task = some task := h.tasked (by rw [hawait]; rfl)
        refine own_of_silent h (by rw [hawait]; rfl) (by rw [final, hawait])
          (by rw [hawait]; rfl) ?_
        rw [hawait]
        exact pollWait_driven hawait htask expired
      · -- The verdict is told already; what is left is to end.
        refine ⟨pollLinger_speaks h hawait expired, ?_, fun m hm => ?_⟩
        · rw [Callee.pollLinger, hawait]
          split
          · exact Nat.le_refl 0
          split
          · exact Nat.le_refl 0
          split
          · exact Nat.le_refl 0
          · rw [hawait]
        · rw [hawait] at hm
          cases hm
  | guardJoined =>
      obtain ⟨result, hawait, rfl⟩ := UatCalleeRun.step_joined hs
      refine ⟨guardJoined_speaks h hacc hawait, Nat.zero_le _, fun m hm => ?_⟩
      rw [hawait] at hm
      cases hm
  | drop =>
      obtain ⟨-, hs⟩ := Option.ite_none_left_eq_some.mp hs
      obtain rfl := Option.some.inj hs
      cases hawait : c.await with
      | unwinding =>
          exact own_of_silent h (by rw [hawait]; rfl) (by rw [final, hawait])
            (by rw [hawait]; rfl) (driven_of_idle rfl rfl (Nat.zero_le _))
      | _ => simp only [calleeOwn, hawait] at hown; cases hown

/-- **The callee at the end of a write.**  A verdict that was put whole stands from then on,
    and after a write that failed nothing more is written. -/
theorem callee_wrote {w : WriteEnd} {m : Message} (h : Speaks task told c)
    (hacc : UatIncoming.Accounted callerId c) (hwrites : calleeWrites c.await = some m)
    (hs : UatCalleeRun.step policy callerId behavior c (.wrote w) = some c') :
    Speaks task (told ++ toldBy m w) c' ∧ (toldBy m w = [] → left c'.await = 0) := by
  obtain ⟨hover, hfinal⟩ := unsettled_of_writes hwrites
  have hsilent := h.silent hover hfinal
  have haudit : c.audit = [] := (hacc.running hover).1
  have hone := Nat.le_trans (one_le_left hwrites) h.budget
  have hbudget := h.budget
  have hroom := h.room
  have hready := h.ready
  rw [Ready] at hready
  -- After a failed write nothing is told and nothing more is written.
  have hfailed : ∀ {c' : Callee}, toldBy m w = [] → Driven task 0 c' →
      Speaks task (told ++ toldBy m w) c' ∧ (toldBy m w = [] → left c'.await = 0) := by
    intro c' hnone hdriven
    rw [hnone, List.append_nil]
    exact ⟨.of_silent hdriven hroom hsilent, fun _ => Nat.le_zero.mp hdriven.budget⟩
  cases hawait : c.await with
  | writeDenied reason =>
      simp only [UatCalleeRun.step, hawait] at hs
      rw [hawait] at hwrites hbudget
      obtain rfl := Option.some.inj hs
      obtain rfl := Option.some.inj hwrites
      exact ⟨deniedWritten_speaks hsilent (by omega) haudit reason w,
        fun _ => rfl⟩
  | emit msg rest =>
      have htask : c.record.record.task = some task := h.tasked (by rw [hawait]; rfl)
      simp only [UatCalleeRun.step, hawait] at hs
      rw [hawait] at hwrites hbudget
      simp only [hawait] at hready
      obtain rfl := Option.some.inj hwrites
      obtain ⟨⟨-, hlast, hscript⟩, hstate⟩ := hready
      have hleft : rest.length + 2 ≤ 3 - told.length := hbudget
      cases w with
      | done =>
          obtain rfl := Option.some.inj hs
          refine ⟨?_, fun hnil => by cases hnil⟩
          exact emitted_speaks (c := { c with sent := c.sent ++ [msg] }) hstate hlast hscript
            hsilent
            hleft haudit htask
      | failed err | timedOut =>
          obtain rfl := Option.some.inj hs
          exact hfailed rfl (writeFailed_driven c _)
  | writeTimeout msg =>
      have htask : c.record.record.task = some task := h.tasked (by rw [hawait]; rfl)
      simp only [UatCalleeRun.step, hawait] at hs
      rw [hawait] at hwrites hbudget
      simp only [hawait] at hready
      obtain rfl := Option.some.inj hwrites
      obtain ⟨-, o, ho, hstate⟩ := hready
      cases w with
      | done =>
          obtain rfl := Option.some.inj hs
          refine ⟨?_, fun hnil => by cases hnil⟩
          refine timeoutWritten_speaks ?_ hsilent (by omega) ho ?_ ?_
          · exact hstate
          · exact haudit
          · exact htask
      | failed err | timedOut =>
          obtain rfl := Option.some.inj hs
          exact hfailed rfl (timeoutWritten_driven c)
  | writeReply msg =>
      have htask : c.record.record.task = some task := h.tasked (by rw [hawait]; rfl)
      simp only [UatCalleeRun.step, hawait] at hs
      rw [hawait] at hwrites hbudget
      simp only [hawait] at hready
      obtain rfl := Option.some.inj hwrites
      obtain ⟨-, o, ho, hstate⟩ := hready
      cases w with
      | done =>
          obtain rfl := Option.some.inj hs
          refine ⟨?_, fun hnil => by cases hnil⟩
          refine waitTop_speaks ?_ hsilent (by omega) ho ?_ ?_
          · exact hstate
          · exact haudit
          · exact htask
      | failed err | timedOut =>
          obtain rfl := Option.some.inj hs
          exact hfailed rfl (writeFailed_driven c _)
  | _ =>
      rw [hawait] at hwrites
      cases hwrites

/-! ### Before the first frame -/

/-- Once the first frame is taken, the callee is past it. -/
theorem onFrame_late (c : Callee) (now : SystemTime) (frame : Bytes) :
    (c.onFrame policy callerId behavior now frame).await.early = false := by
  rw [Callee.onFrame]
  split
  · next header body _ =>
      rw [Callee.authorize]
      split
      · exact (UatCalleeRun.emitCallee_keeps _ _).early
      · rfl
      · rfl
  · rfl
  · rfl

/-- A poll that does not finish the first frame only moves bytes into its future. -/
theorem pollFirstFrame_early {now : SystemTime} {read : ReadFrame} {expired : Bool}
    (hawait : c.await = .firstFrame now read) (hpart : PartRead c)
    (hpoll : c.pollFirstFrame policy callerId behavior now read expired = c')
    (hearly : c'.await.early = true) :
    taken c'.await ++ c'.recv.arrived = taken c.await ++ c.recv.arrived ∧ PartRead c' := by
  rw [Callee.pollFirstFrame] at hpoll
  split at hpoll
  · obtain rfl := hpoll
    cases hearly
  split at hpoll
  · obtain rfl := hpoll
    cases hearly
  split at hpoll
  · obtain rfl := hpoll
    cases (onFrame_late _ _ _).symm.trans hearly
  · obtain rfl := hpoll
    cases hearly
  · obtain rfl := hpoll
    cases hearly
  · next read' recv' hframe =>
      obtain ⟨hpart', hbytes⟩ := pollFrame_pending (hpart now read hawait) hframe
      split at hpoll
      · obtain rfl := hpoll
        cases hearly
      · obtain rfl := hpoll
        rw [hawait]
        refine ⟨hbytes, fun now' read'' h => ?_⟩
        cases h
        exact hpart'

/-- **The callee before its first frame.**  It loses no byte that has arrived. -/
theorem own_early {e : UatCalleeRun.Ev} (hpart : PartRead c) (hown : calleeOwn c e = true)
    (hs : UatCalleeRun.step policy callerId behavior c e = some c')
    (hearly : c'.await.early = true) :
    c.await.early = true ∧
      taken c'.await ++ c'.recv.arrived = taken c.await ++ c.recv.arrived ∧ PartRead c' := by
  cases e with
  | arrive bytes | wrote w => cases hown
  | endStream e | close err | timer =>
      obtain ⟨-, hs⟩ := Option.ite_none_right_eq_some.mp hs
      obtain rfl := Option.some.inj hs
      exact ⟨hearly, rfl, hpart⟩
  | shutdown | spend spent =>
      obtain rfl := Option.some.inj hs
      exact ⟨hearly, rfl, hpart⟩
  | setup r now =>
      obtain ⟨hawait, ⟨-, rfl⟩ | ⟨-, reason, rfl⟩⟩ := UatCalleeRun.step_setup hs
      · rw [hawait]
        refine ⟨rfl, rfl, fun now' read h => ?_⟩
        cases h
        exact Nat.zero_le 4
      · cases hearly
  | poll expired =>
      -- Only the wait for the first frame can go on being early.
      rcases UatCalleeRun.step_poll hs with
        ⟨now, read, hawait, hpolled⟩ | ⟨read, hawait, rfl⟩ | ⟨outcome, hawait, rfl⟩
      · exact ⟨by rw [hawait]; rfl, pollFirstFrame_early hawait hpart hpolled.symm hearly⟩
      · have hlate : (c.pollWait behavior read expired).await.early = false :=
          (UatCalleeRun.pollWait_keeps c read expired
            (by rw [hawait]; rfl) (by rw [hawait]; rfl) (by rw [hawait]; rfl)).early
        cases hlate.symm.trans hearly
      · have hlate := (UatCalleeRun.pollLinger_keeps c outcome expired
          (by rw [hawait]; rfl) (by rw [hawait]; rfl) (by rw [hawait]; rfl)).early
        cases hlate.symm.trans hearly
  | guardJoined =>
      obtain ⟨result, -, rfl⟩ := UatCalleeRun.step_joined hs
      cases hearly
  | drop =>
      obtain ⟨-, hs⟩ := Option.ite_none_left_eq_some.mp hs
      obtain rfl := Option.some.inj hs
      cases hearly

end

end

end UatCalleeTells
