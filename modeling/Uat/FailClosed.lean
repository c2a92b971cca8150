import Uat.CalleeRun
import Uat.Admission

/-! # Nothing is served without an authorization

    The callee's task against a peer that may send anything, in any pieces.  Either its
    stream begins with a `Submit` that `verify` has admitted, and then the record names that
    task and that rule from there on; or nothing of a call has happened: no message but the
    denial was written, the table is where it began, and no record has a task.

    - `Granted`: what the authorization of a run rests on.
    - `Serves` and `Unserved`: the two kinds of state.
    - `fail_closed`: every run leads to a state of one of the two kinds, and to the first
      only by a grant. -/

namespace UatFailClosed

open UatTypes UatState UatPolicy UatVerify UatCodec UatHeader UatStream UatRecvStream UatRecord
open UatCalleeRun Checked StepRun
open UatAttenuation (plainText answeringNode epoch)
open UatAdmission (sampleFrame)

/-! ## What comes in, and what is recorded -/

/-- What an event puts on the stream. -/
def bytesOf : Ev → Bytes
  | .arrive bytes => bytes
  | _ => []

/-- All that the peer has put on the stream. -/
def streamOf (es : List Ev) : Bytes := es.flatMap bytesOf

/-- One more event adds what it brings to the end of the stream. -/
theorem streamOf_snoc (es : List Ev) (e : Ev) :
    streamOf (es ++ [e]) = streamOf es ++ bytesOf e := by
  rw [streamOf, streamOf, List.flatMap_append, List.flatMap_singleton]

/-- `read_frame` splits the bytes it is given. -/
theorem readFrame_split {bs frame rest : Bytes} (h : readFrame bs = .ok (frame, rest)) :
    bs = frame ++ rest := by
  rw [readFrame] at h
  obtain ⟨⟨lenBuf, tail⟩, h4, h⟩ := bind_ok_iff.mp h
  obtain ⟨-, h⟩ := ite_fail_ok_iff.mp h
  obtain ⟨⟨payload, tail'⟩, hpayload, h⟩ := bind_ok_iff.mp h
  obtain ⟨-, h4'⟩ := ite_ok_fail_iff.mp (mapErr_ok_iff.mp h4)
  obtain ⟨-, hp'⟩ := ite_ok_fail_iff.mp (mapErr_ok_iff.mp hpayload)
  obtain ⟨rfl, rfl⟩ := Prod.mk.inj (Except.ok.inj h4')
  obtain ⟨rfl, rfl⟩ := Prod.mk.inj (Except.ok.inj hp')
  obtain ⟨rfl, rfl⟩ := Prod.mk.inj ((pure_ok_iff _ _).mp h)
  rw [List.append_assoc, List.take_append_drop, List.take_append_drop]

/-- The record of a call that has not begun. -/
def Blank (r : CallRecord) : Prop := r.task = none ∧ r.outcome ≠ .completed

/-- No error of a call is recorded as a completed call. -/
theorem error_incomplete (err : CallError) : outcomeFromCallError err ≠ .completed := by
  intro hcompleted
  rcases outcomeFromCallError_cases err with ⟨-, herr⟩ | ⟨-, herr⟩ | herr | ⟨code, -, herr⟩ <;>
    cases herr.symm.trans hcompleted

/-- The record stays blank under every result but a completed call. -/
theorem blank_observeResult {g : CallRecordGuard} (h : g.record.task = none)
    {r : Except CallError Outcome} (hr : r ≠ .ok .completed) :
    Blank (g.observeResult r).record := by
  cases r with
  | ok o => exact ⟨h, fun ho => hr (congrArg Except.ok ho)⟩
  | error err => exact ⟨h, error_incomplete err⟩

section

variable [Base64Engine]

/-! ## The two kinds of state -/

/-- Where a task can be suspended, or have ended, without having served anything. -/
def Quiet : Await → Prop
  | .emit .. | .waitTerminal _ | .writeTimeout _ | .writeReply _ | .linger _ => False
  | .joinGuard result | .returned result => result ≠ .ok .completed
  | _ => True

/-- Nothing of a call has happened.  The one message that may be under way is the denial. -/
structure Unserved (c : Callee) : Prop where
  sent : c.sent = []
  state : c.state = .offered
  record : Blank c.record.record
  audit : ∀ a ∈ c.audit, Blank a.record
  await : Quiet c.await

/-- The record of a call that `verify` has admitted. -/
def Names (submit : AuthorizedSubmit) (r : CallRecord) : Prop :=
  r.task = some submit.task ∧ r.authorization = .allowed submit.rule

/-- The call of an authorized `Submit`, while it is driven and when it is over. -/
structure Serves (submit : AuthorizedSubmit) (c : Callee) : Prop where
  verdict : c.verdict = some (.ok submit)
  record : Names submit c.record.record
  audit : ∀ a ∈ c.audit, Names submit a.record
  late : c.await.early = false ∧ c.await.denying = false

section

variable [JsonText] {Key : Type} [BiscuitEngine Key]

/-- **What a grant rests on.**  The peer passed the gate, the stream was opened, the peer's
    bytes begin with a frame, and `verify` admitted its header at the clock of the opening,
    with a spent set that the run has seen. -/
structure Granted (policy : Policy Key) (peer : NodeId) (spent₀ : MemorySpentSet) (es : List Ev)
    (submit : AuthorizedSubmit) : Prop where
  gate : policy.verifyPeer peer = true
  admitted : ∃ now header body spent, .setup .opened now ∈ es ∧
    decodeParts fromSlice (streamOf es) = .ok (header, body) ∧
    (spent = spent₀ ∨ .spend spent ∈ es) ∧
    (authorizeSubmitHeader header policy spent peer now).1 = .ok submit

end

/-! ## Behind the first frame -/

/-- The read a task waits for. -/
def readOf : Await → Option ReadFrame
  | .firstFrame _ read | .waitTerminal read => some read
  | _ => none

/-- On the way to another await the record stays, and a read begins anew. -/
structure Onward (c c' : Callee) : Prop where
  record : c'.record = c.record
  fresh : ∀ read, readOf c'.await = some read → read = .fresh

section

variable {c : Callee}

/-- An await that reads nothing has no read to begin anew. -/
theorem onward_of_none {c' : Callee} (hrecord : c'.record = c.record)
    (hread : readOf c'.await = none) : Onward c c' :=
  ⟨hrecord, fun read h => by cases hread.symm.trans h⟩

/-- Going onward from a callee with the same record. -/
theorem Onward.of_eq {c₁ c' : Callee} (h : Onward c₁ c') (hrecord : c₁.record = c.record) :
    Onward c c' := ⟨h.record.trans hrecord, h.fresh⟩

/-- The head of the waiting loop begins its read anew. -/
theorem waitTop_onward (c : Callee) : Onward c c.waitTop := by
  rw [Callee.waitTop]
  cases c.state with
  | terminal o => exact onward_of_none rfl rfl
  | _ => exact ⟨rfl, fun read h => (Option.some.inj h).symm⟩

/-- Emitting reads nothing, and waiting begins anew. -/
theorem emitCallee_onward (c : Callee) (msgs : List Message) : Onward c (c.emitCallee msgs) := by
  cases msgs with
  | nil => exact waitTop_onward c
  | cons msg rest =>
      rw [Callee.emitCallee]
      cases calleeStep c.state (.send msg) <;> exact onward_of_none rfl rfl

theorem closeOnFrameErr_onward (c : Callee) (err : FrameIoError) (r : Except CallError Outcome) :
    Onward c ((c.closeOnFrameErr err).loopRet r) := by
  rw [Callee.closeOnFrameErr]
  cases err.closeCode <;> exact onward_of_none rfl rfl

theorem writeFailed_onward (c : Callee) (err : CallError) : Onward c (c.writeFailed err) := by
  cases err with
  | frame fe => exact closeOnFrameErr_onward c fe _
  | _ => exact onward_of_none rfl rfl

theorem ended_onward (c : Callee) (otherwise : Except CallError Outcome) :
    Onward c (c.ended otherwise) := by
  rw [Callee.ended]
  cases c.state <;> exact onward_of_none rfl rfl

theorem timeoutWritten_onward (c : Callee) : Onward c c.timeoutWritten := by
  rw [Callee.timeoutWritten]
  cases c.state <;> exact onward_of_none rfl rfl

/-- The deadline is answered, or ends the task. -/
theorem onTimer_onward (c : Callee) : Onward c c.onTimer := by
  rw [Callee.onTimer]
  cases calleeStep c.state .timeout with
  | error _ => exact onward_of_none rfl rfl
  | ok step =>
      dsimp only
      cases step.emit with
      | none => exact (timeoutWritten_onward _).of_eq rfl
      | some msg => exact onward_of_none rfl rfl

theorem connLost_onward (c : Callee) (code : CloseCode) (otherwise : Except CallError Outcome) :
    Onward c (c.connLost code otherwise) := by
  rw [Callee.connLost]
  cases calleeStep c.state (.connLost code) with
  | error _ => exact onward_of_none rfl rfl
  | ok step => exact (ended_onward _ otherwise).of_eq rfl

/-- Behind every frame read the next one is read from its start. -/
theorem onRead_onward (c : Callee) (r : Exec FrameIoError Message) : Onward c (c.onRead r) := by
  cases r with
  | ok msg =>
      rw [Callee.onRead]
      cases calleeStep c.state (.recv msg) with
      | error _ => exact onward_of_none rfl rfl
      | ok step =>
          dsimp only
          cases step.emit with
          | none => exact (waitTop_onward _).of_eq rfl
          | some reply => exact onward_of_none rfl rfl
  | error fault =>
      cases fault with
      | panic => exact onward_of_none rfl rfl
      | err err =>
          cases err with
          | codec err => exact closeOnFrameErr_onward c (.codec err) _
          | read _ | write | unexpectedEnd => exact connLost_onward c _ _

/-- A poll of `callee_wait_terminal` goes on, or waits with what it has read so far. -/
theorem pollWait_onward [JsonText] {behavior : CalleeBehavior} (c : Callee) (read : ReadFrame)
    (expired : Bool) :
    Onward c (c.pollWait behavior read expired) ∨ c.pollWait behavior read expired = c ∨
      ∃ read' recv, pollMessage read c.recv = (.pending read', recv) ∧
        c.pollWait behavior read expired =
          { c with recv := recv, await := .waitTerminal read' } := by
  rw [Callee.pollWait]
  split
  · exact Or.inl (onward_of_none rfl rfl)
  split
  · exact Or.inl (onTimer_onward c)
  split
  · exact Or.inl (connLost_onward c _ _)
  split
  · exact Or.inr (Or.inl rfl)
  split
  · exact Or.inl ((onRead_onward _ _).of_eq rfl)
  split
  · exact Or.inl ((waitTop_onward _).of_eq rfl)
  · next read' recv hpoll _ => exact Or.inr (Or.inr ⟨read', recv, hpoll, rfl⟩)

/-- The record is not looked at while the task lingers. -/
theorem pollLinger_record (c : Callee) (outcome : Outcome) (expired : Bool) :
    (c.pollLinger outcome expired).record = c.record := by
  rw [Callee.pollLinger]
  split
  · rfl
  split
  · rfl
  split <;> rfl

theorem pollWait_record [JsonText] {behavior : CalleeBehavior} (c : Callee) (read : ReadFrame)
    (expired : Bool) : (c.pollWait behavior read expired).record = c.record := by
  rcases pollWait_onward c read expired with honward | hsame | ⟨read', recv, -, hwaits⟩
  · exact honward.record
  · rw [hsame]
  · rw [hwaits]

end

/-! ## What a step leaves of either kind -/

section

variable {c c' : Callee} {submit : AuthorizedSubmit}

/-- A callee that serves a submit goes on serving it while verdict and record are kept. -/
theorem serves_of_kept (hk : Keeps c c') (hrecord : c'.record = c.record)
    (hverdict : c.verdict = some (.ok submit)) (hnames : Names submit c.record.record)
    (haudit : ∀ a ∈ c.audit, Names submit a.record) : Serves submit c' := by
  refine ⟨hk.verdict.trans hverdict, ?_, ?_, hk.early, hk.denying⟩
  · rw [hrecord]
    exact hnames
  · rw [hk.audit]
    exact haudit

/-- The same from one state that serves to the next. -/
theorem Serves.of_keeps (h : Serves submit c) (hk : Keeps c c') (hrecord : c'.record = c.record) :
    Serves submit c' := serves_of_kept hk hrecord h.verdict h.record h.audit

/-- What happens around the task. -/
theorem Serves.same (h : Serves submit c) (hverdict : c'.verdict = c.verdict)
    (hrecord : c'.record = c.record) (haudit : c'.audit = c.audit) (hawait : c'.await = c.await) :
    Serves submit c' := by
  refine ⟨hverdict.trans h.verdict, ?_, ?_, ?_⟩
  · rw [hrecord]
    exact h.record
  · rw [haudit]
    exact h.audit
  · rw [hawait]
    exact h.late

/-- What a guard emits is its record, if it emits. -/
theorem emitRecord_audit (c : Callee) {P : CallRecord → Prop} (haudit : ∀ a ∈ c.audit, P a.record)
    (hrecord : P c.record.record) :
    (∀ a ∈ c.emitRecord.audit, P a.record) ∧ P c.emitRecord.record.record := by
  rw [Callee.emitRecord]
  rw [CallRecordGuard.emitNow]
  split
  · refine ⟨fun a ha => haudit a ?_, hrecord⟩
    rwa [List.map_nil, List.append_nil] at ha
  · refine ⟨fun a ha => ?_, hrecord⟩
    rcases List.mem_append.mp ha with hold | hnew
    · exact haudit a hold
    · obtain rfl := List.mem_singleton.mp hnew
      exact hrecord

/-- The guard speaks, and the task is over. -/
theorem Serves.emits (h : Serves submit c) {await : Await} (hover : await.over = true) :
    Serves submit { c.emitRecord with await := await } := by
  obtain ⟨haudit, hrecord⟩ := emitRecord_audit c h.audit h.record
  obtain ⟨hearly, hdenying⟩ := Await.of_over hover
  exact ⟨h.verdict, hrecord, haudit, hearly, hdenying⟩

/-- The result of the call leaves the task and the rule of the record alone. -/
theorem names_observeResult {g : CallRecordGuard} (h : Names submit g.record)
    (r : Except CallError Outcome) : Names submit (g.observeResult r).record := by
  cases r <;> exact h

/-- A task that has served nobody may emit its record and end. -/
theorem Unserved.emits (h : Unserved c) {await : Await} (hquiet : Quiet await) :
    Unserved { c.emitRecord with await := await } := by
  obtain ⟨haudit, hrecord⟩ := emitRecord_audit c h.audit h.record
  exact ⟨h.sent, h.state, hrecord, haudit, hquiet⟩

/-- Nor does it serve anybody by what happens around it. -/
theorem Unserved.same (h : Unserved c) (hsent : c'.sent = c.sent) (hstate : c'.state = c.state)
    (hrecord : c'.record = c.record) (haudit : c'.audit = c.audit) (hquiet : Quiet c'.await) :
    Unserved c' := by
  refine ⟨hsent.trans h.sent, hstate.trans h.state, ?_, ?_, hquiet⟩
  · rw [hrecord]
    exact h.record
  · rw [haudit]
    exact h.audit

/-- What follows a frame does not change how it is taken apart. -/
theorem decodeParts_append {parse : Bytes → Option Message} {b : Bytes} {r : Message × Bytes}
    (h : decodeParts parse b = .ok r) (more : Bytes) : decodeParts parse (b ++ more) = .ok r := by
  obtain ⟨header, rest, hlayout, hparse⟩ := decodeParts_ok_iff.mp h
  refine decodeParts_ok_iff.mpr ⟨header, rest ++ more, ⟨?_, hlayout.frame_le, hlayout.header_le⟩,
    hparse⟩
  rw [hlayout.bytes]
  simp only [List.append_assoc]

/-- The body does not change the task of a submit. -/
theorem withBody_task (a : AuthorizedSubmit) (body : Bytes) : (a.withBody body).task = a.task := by
  obtain ⟨rule, message, hsubmit⟩ := a
  cases message with
  | submit => rfl
  | _ => cases hsubmit

variable [JsonText] {Key : Type} [BiscuitEngine Key] {policy : Policy Key} {peer : NodeId}
  {behavior : CalleeBehavior}

/-! ## A call that is served -/

/-- **Once served, served for good.** -/
theorem serves_step {e : Ev} (h : Serves submit c)
    (hs : step policy peer behavior c e = some c') : Serves submit c' := by
  obtain ⟨hearly, hdenying⟩ := h.late
  cases e with
  | setup r now =>
      obtain ⟨hawait, -⟩ := step_setup hs
      rw [hawait] at hearly
      cases hearly
  | arrive bytes | endStream e | close err | timer =>
      obtain ⟨-, hs⟩ := Option.ite_none_right_eq_some.mp hs
      obtain rfl := Option.some.inj hs
      exact h.same rfl rfl rfl rfl
  | shutdown | spend spent =>
      obtain rfl := Option.some.inj hs
      exact h.same rfl rfl rfl rfl
  | wrote w =>
      cases hawait : c.await with
      | writeDenied reason =>
          rw [hawait] at hdenying
          cases hdenying
      | emit msg rest =>
          simp only [step, hawait] at hs
          split at hs
          · obtain rfl := Option.some.inj hs
            exact h.of_keeps ((emitCallee_keeps _ _).of_eq rfl rfl rfl rfl)
              (emitCallee_onward _ _).record
          · obtain rfl := Option.some.inj hs
            exact h.of_keeps (writeFailed_keeps c _) (writeFailed_onward c _).record
      | writeTimeout msg =>
          simp only [step, hawait] at hs
          split at hs
          · obtain rfl := Option.some.inj hs
            exact h.of_keeps ((timeoutWritten_keeps _).of_eq rfl rfl rfl rfl)
              (timeoutWritten_onward _).record
          · obtain rfl := Option.some.inj hs
            exact h.of_keeps (timeoutWritten_keeps c) (timeoutWritten_onward c).record
      | writeReply msg =>
          simp only [step, hawait] at hs
          split at hs
          · obtain rfl := Option.some.inj hs
            exact h.of_keeps ((waitTop_keeps _).of_eq rfl rfl rfl rfl) (waitTop_onward _).record
          · obtain rfl := Option.some.inj hs
            exact h.of_keeps (writeFailed_keeps c _) (writeFailed_onward c _).record
      | _ => simp only [step, hawait] at hs; cases hs
  | poll expired =>
      rcases step_poll hs with ⟨now, read, hawait, -⟩ | ⟨read, hawait, rfl⟩ | ⟨outcome, hawait, rfl⟩
      · rw [hawait] at hearly
        cases hearly
      · have hrunning : c.await.over = false := by rw [hawait]; rfl
        exact h.of_keeps (pollWait_keeps c read expired hdenying hearly hrunning)
          (pollWait_record c read expired)
      · have hrunning : c.await.over = false := by rw [hawait]; rfl
        exact h.of_keeps (pollLinger_keeps c outcome expired hdenying hearly hrunning)
          (pollLinger_record c outcome expired)
  | guardJoined =>
      obtain ⟨result, hawait, rfl⟩ := step_joined hs
      have hobserved : Serves submit { c with record := c.record.observeResult result } :=
        ⟨h.verdict, names_observeResult h.record result, h.audit, h.late⟩
      exact hobserved.emits rfl
  | drop =>
      obtain ⟨-, hs⟩ := Option.ite_none_left_eq_some.mp hs
      obtain rfl := Option.some.inj hs
      exact h.emits rfl

/-! ## A call that is not -/

/-- Where the task stands before its first frame. -/
structure Waiting (policy : Policy Key) (peer : NodeId) (spent₀ : MemorySpentSet) (es : List Ev)
    (c : Callee) : Prop where
  gate : policy.verifyPeer peer = true
  unrecorded : c.audit = []
  shared : c.spent = spent₀ ∨ .spend c.spent ∈ es
  unread : c.await = .acceptBi → c.recv.arrived = streamOf es
  reading : ∀ now read, c.await = .firstFrame now read → .setup .opened now ∈ es ∧
    read.Partial ∧ read.held ++ c.recv.arrived = streamOf es

/-- What a run has come to: a grant and its call, or nothing yet and perhaps nothing ever. -/
def Settled (policy : Policy Key) (peer : NodeId) (spent₀ : MemorySpentSet) (es : List Ev)
    (c : Callee) : Prop :=
  (∃ submit, Granted policy peer spent₀ es submit ∧ Serves submit c) ∨
    (Unserved c ∧ (c.await.early = true → Waiting policy peer spent₀ es c))

variable {spent₀ : MemorySpentSet} {es : List Ev}

/-- A refusal before, or instead of, the first frame. -/
theorem Settled.refused (h : Unserved c') (hlate : c'.await.early = false) :
    Settled policy peer spent₀ es c' :=
  Or.inr ⟨h, fun hearly => by cases hlate.symm.trans hearly⟩

/-- A grant stands on the events that led to it, whatever comes after. -/
theorem Granted.later (h : Granted policy peer spent₀ es submit) (e : Ev) :
    Granted policy peer spent₀ (es ++ [e]) submit := by
  obtain ⟨now, header, body, spent, hopened, hfirst, hshared, hverify⟩ := h.admitted
  refine ⟨h.gate, now, header, body, spent, List.mem_append_left _ hopened, ?_,
    hshared.imp_right fun hmem => List.mem_append_left _ hmem, hverify⟩
  rw [streamOf_snoc]
  exact decodeParts_append hfirst _

/-- **The authorization of the first frame.** -/
theorem authorize_settled {now : SystemTime} {header : Message} {body : Bytes} {recv : RecvStream}
    (h : Unserved c) (hempty : c.audit = []) (hgate : policy.verifyPeer peer = true)
    (hopened : .setup .opened now ∈ es)
    (hshared : c.spent = spent₀ ∨ .spend c.spent ∈ es)
    (hfirst : decodeParts fromSlice (streamOf es) = .ok (header, body)) :
    Settled policy peer spent₀ es
      ({ c with recv := recv }.authorize policy peer behavior now header body) := by
  rw [Callee.authorize]
  split
  · next submit spent hauth =>
      have hadmit : (authorizeSubmitHeader header policy c.spent peer now).1 = .ok submit := by
        rw [hauth]
      refine Or.inl ⟨submit, ⟨hgate, now, header, body, c.spent, hopened, hfirst, hshared, hadmit⟩,
        ?_⟩
      refine serves_of_kept (emitCallee_keeps _ _) (emitCallee_onward _ _).record rfl ⟨?_, ?_⟩ ?_
      · exact congrArg some (withBody_task submit body)
      · exact congrArg AuthOutcome.allowed (withBody_rule submit body)
      · intro a ha
        rw [show c.audit = [] from hempty] at ha
        cases ha
  · next err spent _ =>
      exact .refused ⟨h.sent, h.state, h.record, h.audit, trivial⟩ rfl
  · exact .refused ⟨h.sent, h.state, h.record, h.audit, trivial⟩ rfl

/-- `callee_loop` returns before anything was served. -/
theorem loopRet_refused (h : Unserved c) (code : Option CloseCode) (recv : RecvStream)
    {r : Except CallError Outcome} (hr : r ≠ .ok .completed) (es : List Ev) :
    Settled policy peer spent₀ es ({ c with closedWith := code, recv := recv }.loopRet r) :=
  .refused ⟨h.sent, h.state, h.record, h.audit, hr⟩ rfl

/-- A frame error before the verdict leaves everything unserved. -/
theorem closeOnFrameErr_refused (h : Unserved c) {recv : RecvStream} (err : FrameIoError)
    (es : List Ev) : Settled policy peer spent₀ es
      (({ c with recv := recv }.closeOnFrameErr err).loopRet (.error (.frame err))) := by
  have hne : (.error (.frame err) : Except CallError Outcome) ≠ .ok .completed := by
    intro h
    cases h
  rw [Callee.closeOnFrameErr]
  cases err.closeCode with
  | some code => exact loopRet_refused h (c.closedWith.or (some code)) recv hne es
  | none => exact loopRet_refused h c.closedWith recv hne es

/-- **One poll for the first frame.** -/
theorem pollFirstFrame_settled {now : SystemTime} {read : ReadFrame} (h : Unserved c)
    (hwait : Waiting policy peer spent₀ es c) (hawait : c.await = .firstFrame now read)
    (expired : Bool) :
    Settled policy peer spent₀ es (c.pollFirstFrame policy peer behavior now read expired) := by
  obtain ⟨hopened, hpartial, hstream⟩ := hwait.reading now read hawait
  rw [Callee.pollFirstFrame]
  have hcancelled : (.error .cancelled : Except CallError Outcome) ≠ .ok .completed := by
    intro h
    cases h
  have hlost : (.ok .peerLost : Except CallError Outcome) ≠ .ok .completed := by
    intro h
    cases h
  have htimeout : (.ok (.closed .timeout) : Except CallError Outcome) ≠ .ok .completed := by
    intro h
    cases h
  split
  · exact loopRet_refused h c.closedWith c.recv hcancelled es
  split
  · exact loopRet_refused h c.closedWith c.recv hlost es
  split
  · next frame recv hpoll =>
      -- The frame is the first of all bytes that have arrived.
      obtain ⟨rest, hread⟩ := pollFrame_ready hpartial hpoll
      have hsplit : streamOf es = frame ++ rest := hstream.symm.trans (readFrame_split hread)
      rw [Callee.onFrame]
      split
      · next header body hparts =>
          refine authorize_settled h hwait.unrecorded hwait.gate hopened hwait.shared ?_
          rw [hsplit]
          exact decodeParts_append hparts rest
      · exact closeOnFrameErr_refused h _ es
      · exact .refused ⟨h.sent, h.state, h.record, h.audit, trivial⟩ rfl
  · exact closeOnFrameErr_refused h _ es
  · exact .refused ⟨h.sent, h.state, h.record, h.audit, trivial⟩ rfl
  · next read' recv hpoll =>
      obtain ⟨hpartial', hheld⟩ := pollFrame_pending hpartial hpoll
      split
      · exact loopRet_refused h (c.closedWith.or (some .timeout)) recv htimeout es
      · refine Or.inr ⟨⟨h.sent, h.state, h.record, h.audit, trivial⟩, fun _ => ⟨hwait.gate,
          hwait.unrecorded, hwait.shared, fun hnone => (by cases hnone), ?_⟩⟩
        intro now' read'' hawait'
        obtain ⟨rfl, rfl⟩ := Await.firstFrame.inj hawait'
        exact ⟨hopened, hpartial', hheld.trans hstream⟩

/-- What happens around the task, before it has served anything. -/
theorem Settled.around {e : Ev} (h : Unserved c)
    (hwait : c.await.early = true → Waiting policy peer spent₀ es c)
    (hsent : c'.sent = c.sent) (hstate : c'.state = c.state) (hrecord : c'.record = c.record)
    (haudit : c'.audit = c.audit) (hawait : c'.await = c.await)
    (hspent : c'.spent = c.spent ∨ e = .spend c'.spent)
    (harrived : c'.recv.arrived = c.recv.arrived ++ bytesOf e) :
    Settled policy peer spent₀ (es ++ [e]) c' := by
  have hquiet : Quiet c'.await := by
    rw [hawait]
    exact h.await
  refine Or.inr ⟨h.same hsent hstate hrecord haudit hquiet, fun hearly => ?_⟩
  rw [hawait] at hearly
  have hw := hwait hearly
  refine ⟨hw.gate, haudit.trans hw.unrecorded, ?_, fun haccept => ?_, fun now read hread => ?_⟩
  · rcases hspent with hsame | rfl
    · rw [hsame]
      exact hw.shared.imp_right fun hmem => List.mem_append_left _ hmem
    · exact Or.inr (List.mem_append_right _ (List.mem_singleton.mpr rfl))
  · rw [harrived, streamOf_snoc, hw.unread (hawait.symm.trans haccept)]
  · obtain ⟨hopened, hpartial, hstream⟩ := hw.reading now read (hawait.symm.trans hread)
    refine ⟨List.mem_append_left _ hopened, hpartial, ?_⟩
    rw [harrived, streamOf_snoc, ← hstream, List.append_assoc]

/-- An event without bytes changes nothing of the stream. -/
theorem Settled.of_silent {e : Ev} (h : Settled policy peer spent₀ es c) (he : bytesOf e = []) :
    Settled policy peer spent₀ (es ++ [e]) c := by
  rcases h with ⟨submit, hgranted, hserves⟩ | ⟨hunserved, hwait⟩
  · exact Or.inl ⟨submit, hgranted.later e, hserves⟩
  · refine .around hunserved hwait rfl rfl rfl rfl rfl (Or.inl rfl) ?_
    rw [he, List.append_nil]

/-- **One step of an unserved call.** -/
theorem unserved_step {e : Ev} (h : Unserved c)
    (hwait : c.await.early = true → Waiting policy peer spent₀ es c)
    (hs : step policy peer behavior c e = some c') :
    Settled policy peer spent₀ (es ++ [e]) c' := by
  cases e with
  | setup r now =>
      obtain ⟨hawait, hend⟩ := step_setup hs
      have hw := hwait (by rw [hawait]; rfl)
      rcases hend with ⟨rfl, rfl⟩ | ⟨-, reason, rfl⟩
      · refine Or.inr ⟨⟨h.sent, h.state, h.record, h.audit, trivial⟩, fun _ => ⟨hw.gate,
          hw.unrecorded, hw.shared.imp_right fun hmem => List.mem_append_left _ hmem,
          fun haccept => (by cases haccept), fun now' read hread => ?_⟩⟩
        obtain ⟨rfl, rfl⟩ := Await.firstFrame.inj hread
        refine ⟨List.mem_append_right _ (List.mem_singleton.mpr rfl), Nat.zero_le 4, ?_⟩
        show c.recv.arrived = _
        rw [streamOf_snoc, hw.unread hawait]
        exact (List.append_nil _).symm
      · have hfailed : Unserved { c with
            record := c.record.setOutcome (outcomeFromCallError (.streamSetup reason)) } :=
          ⟨h.sent, h.state, ⟨h.record.1, error_incomplete (.streamSetup reason)⟩, h.audit,
            h.await⟩
        have hquiet : Quiet (.returned (.error (.streamSetup reason))) := by
          intro h
          cases h
        exact .refused (hfailed.emits hquiet) rfl
  | arrive bytes =>
      obtain ⟨-, hs⟩ := Option.ite_none_right_eq_some.mp hs
      obtain rfl := Option.some.inj hs
      exact .around h hwait rfl rfl rfl rfl rfl (Or.inl rfl) rfl
  | endStream end' | close err | timer =>
      obtain ⟨-, hs⟩ := Option.ite_none_right_eq_some.mp hs
      obtain rfl := Option.some.inj hs
      exact .around h hwait rfl rfl rfl rfl rfl (Or.inl rfl) (List.append_nil _).symm
  | shutdown =>
      obtain rfl := Option.some.inj hs
      exact .around h hwait rfl rfl rfl rfl rfl (Or.inl rfl) (List.append_nil _).symm
  | spend spent =>
      obtain rfl := Option.some.inj hs
      exact .around h hwait rfl rfl rfl rfl rfl (Or.inr rfl) (List.append_nil _).symm
  | wrote w =>
      have hquiet := h.await
      cases hawait : c.await with
      | writeDenied reason =>
          simp only [step, hawait] at hs
          obtain rfl := Option.some.inj hs
          exact .refused ⟨h.sent, h.state, h.record, h.audit, (by intro h; cases h)⟩ rfl
      | emit msg rest | writeTimeout msg | writeReply msg =>
          rw [hawait] at hquiet
          exact hquiet.elim
      | _ => simp only [step, hawait] at hs; cases hs
  | poll expired =>
      have hquiet := h.await
      rcases step_poll hs with ⟨now, read, hawait, rfl⟩ | ⟨read, hawait, -⟩ | ⟨outcome, hawait, -⟩
      · have hw := hwait (by rw [hawait]; rfl)
        exact (pollFirstFrame_settled h hw hawait expired).of_silent rfl
      · rw [hawait] at hquiet
        exact hquiet.elim
      · rw [hawait] at hquiet
        exact hquiet.elim
  | guardJoined =>
      obtain ⟨result, hawait, rfl⟩ := step_joined hs
      have hresult : Quiet (.returned result) := by
        have hquiet := h.await
        rw [hawait] at hquiet
        exact hquiet
      have hobserved : Unserved { c with record := c.record.observeResult result } :=
        ⟨h.sent, h.state, blank_observeResult h.record.1 hresult, h.audit, h.await⟩
      exact .refused (hobserved.emits hresult) rfl
  | drop =>
      obtain ⟨-, hs⟩ := Option.ite_none_left_eq_some.mp hs
      obtain rfl := Option.some.inj hs
      have hquiet : Quiet .dropped := trivial
      exact .refused (h.emits hquiet) rfl

/-- **Step lemma.** Every step leaves the run unserved, or serving what was granted. -/
theorem settled_step {e : Ev} (h : Settled policy peer spent₀ es c)
    (hs : step policy peer behavior c e = some c') :
    Settled policy peer spent₀ (es ++ [e]) c' := by
  rcases h with ⟨submit, hgranted, hserves⟩ | ⟨hunserved, hwait⟩
  · exact Or.inl ⟨submit, hgranted.later e, serves_step hserves hs⟩
  · exact unserved_step hunserved hwait hs

/-- A run starts unserved. -/
theorem settled_start (policy : Policy Key) (peer : NodeId) (spent₀ : MemorySpentSet) :
    Settled policy peer spent₀ [] (runCalleeWith policy peer spent₀) := by
  rw [runCalleeWith]
  split
  · refine .refused ⟨rfl, rfl, ⟨rfl, (by intro h; cases h)⟩, fun a ha => ?_,
      (by intro h; cases h)⟩ rfl
    obtain rfl := List.mem_singleton.mp ha
    exact ⟨rfl, (by intro h; cases h)⟩
  · next hgate =>
      refine Or.inr ⟨⟨rfl, rfl, ⟨rfl, (by intro h; cases h)⟩, fun a ha => (by cases ha), trivial⟩,
        fun _ => ⟨not_not.mp hgate, rfl, Or.inl rfl, fun _ => rfl, fun now read hread => ?_⟩⟩
      cases hread

/-- **NOTHING IS SERVED WITHOUT AN AUTHORIZATION.**  Whatever the peer sends, and in whatever
    pieces: in every run of the callee's task either the peer's bytes begin with a `Submit`
    that `verify` admitted for this peer, and all that is recorded is recorded under its task
    and its rule; or no message but a denial was written, the table never moved, and no record
    has a task or calls the call completed. -/
theorem fail_closed (policy : Policy Key) (peer : NodeId) (behavior : CalleeBehavior)
    (spent₀ : MemorySpentSet) (es : List Ev) (c : Callee)
    (hrun : runFrom (step policy peer behavior) (runCalleeWith policy peer spent₀) es = some c) :
    (∃ submit, Granted policy peer spent₀ es submit ∧ Serves submit c) ∨ Unserved c := by
  have hsettled : Settled policy peer spent₀ es c :=
    run_invariant_past (settled_start policy peer spent₀)
      (fun _ _ _ _ _ h hs => settled_step h hs) es c (fun _ _ _ _ => trivial) hrun
  exact hsettled.imp_right And.left

end

end

section

attribute [local instance] plainText compactJson noToken

/-- A listed peer, whose `Submit` arrives in two pieces. -/
def admittedInPieces : List Ev :=
  [.setup .opened epoch, .arrive ((sampleFrame [1, 2]).take 30), .poll false,
    .arrive ((sampleFrame [1, 2]).drop 30), .poll false, .wrote .done]

theorem fail_closed_admittedInPieces :
    ∃ c, runFrom (step (.allow answeringNode : Policy Unit) answeringNode .stubComplete)
        (runCalleeWith (.allow answeringNode : Policy Unit) answeringNode .new) admittedInPieces =
          some c ∧
      ((∃ submit, Granted (.allow answeringNode : Policy Unit) answeringNode .new admittedInPieces
        submit ∧ Serves submit c) ∨ Unserved c) := by
  obtain ⟨c, hc⟩ : ∃ c,
      runFrom (step (.allow answeringNode : Policy Unit) answeringNode .stubComplete)
        (runCalleeWith (.allow answeringNode : Policy Unit) answeringNode .new) admittedInPieces =
          some c := Option.isSome_iff_exists.mp (by decide +kernel)
  exact ⟨c, hc, fail_closed (.allow answeringNode) answeringNode .stubComplete .new
    admittedInPieces c hc⟩

end

end UatFailClosed
