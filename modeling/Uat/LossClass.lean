import Uat.Incoming

/-! # How the callee classifies a lost connection

    Every phase of `run_callee_with` notices the loss in its own way: an error of
    `accept_bi`, the `closed()` branch of the first `select`, a failed write, a failed
    read, the `closed()` branch of `callee_wait_terminal`.  Only the last looks at the
    close code.

    * **`LostBy`** — the step in which the loss ends the call, phase by phase.
    * **`Heading`** — the outcome the task is on its way to record.
    * **`loss_classified_iff`** — the record says what `callee_step` prescribes for the code
      exactly when the code is `Normal` or the last branch noticed. -/

namespace UatLossClass

open UatTypes UatState UatPolicy UatHeader UatStream UatRecvStream UatRecord UatCalleeRun
open UatCallerLoop (WriteEnd)
open UatAttenuation (plainText oneRoot epoch)
open UatOneShot (stranger)
open Checked StepRun

/-! ## The outcome a task is heading for -/

/-- What a result is recorded as. -/
def resultOutcome : Except CallError Outcome → Outcome
  | .ok outcome => outcome
  | .error err => outcomeFromCallError err

theorem observeResult_outcome (g : CallRecordGuard) (result : Except CallError Outcome) :
    (g.observeResult result).record.outcome = resultOutcome result := by
  cases result <;> rfl

section

variable [Base64Engine]

/-- The task is on its way to record `o`, or has. -/
inductive Heading (o : Outcome) (c : Callee) : Prop where
  | linger (hawait : c.await = .linger o) (haudit : c.audit = [])
      (hemitted : c.record.emitted = false)
  | join (result : Except CallError Outcome) (hawait : c.await = .joinGuard result)
      (houtcome : resultOutcome result = o) (haudit : c.audit = [])
      (hemitted : c.record.emitted = false)
  | returned (result : Except CallError Outcome) (a : Audited) (hawait : c.await = .returned result)
      (haudit : c.audit = [a]) (houtcome : a.record.outcome = o)

section

variable {o : Outcome} {c c' : Callee}

/-- What the guard emits, when it has not yet. -/
theorem emitRecord_audit {c : Callee} (haudit : c.audit = [])
    (hemitted : c.record.emitted = false) :
    c.emitRecord.audit = [⟨c.record.record, c.verdict⟩] := by
  rw [Callee.emitRecord, CallRecordGuard.emitNow]
  rw [hemitted, haudit]
  rfl

/-- What the environment does does not turn the task. -/
theorem Heading.of_eq (h : Heading o c) (hawait : c'.await = c.await) (haudit : c'.audit = c.audit)
    (hrecord : c'.record = c.record) : Heading o c' := by
  cases h with
  | linger ha hau hem =>
      exact .linger (hawait.trans ha) (haudit.trans hau) (by rw [hrecord]; exact hem)
  | join result ha ho hau hem =>
      exact .join result (hawait.trans ha) ho (haudit.trans hau) (by rw [hrecord]; exact hem)
  | returned result a ha hau ho => exact .returned result a (hawait.trans ha) (haudit.trans hau) ho

/-- The wait before the return keeps the outcome. -/
theorem pollLinger_heading (hawait : c.await = .linger o) (haudit : c.audit = [])
    (hemitted : c.record.emitted = false) (expired : Bool) :
    Heading o (c.pollLinger o expired) := by
  rw [Callee.pollLinger]
  split
  · exact .join (.ok o) rfl rfl haudit hemitted
  split
  · exact .join (.ok o) rfl rfl haudit hemitted
  split
  · exact .join (.ok o) rfl rfl haudit hemitted
  · exact .linger hawait haudit hemitted

theorem heading_join {result : Except CallError Outcome} (haudit : c.audit = [])
    (hemitted : c.record.emitted = false) (houtcome : resultOutcome result = o) :
    Heading o (c.loopRet result) :=
  .join result rfl houtcome haudit hemitted

/-- The step function's answer to a lost connection. -/
theorem connLost_heading {code : CloseCode} {otherwise : Except CallError Outcome}
    (hopen : c.state.isTerminal = false) (haudit : c.audit = [])
    (hemitted : c.record.emitted = false) (ho : connLostOutcomeCallee code = .terminal o) :
    Heading o (c.connLost code otherwise) := by
  have hlost : c.connLost code otherwise =
      { c with state := connLostOutcomeCallee code }.ended otherwise := by
    rw [Callee.connLost, calleeStep_connLost hopen]
    rfl
  rw [hlost, Callee.ended, ho]
  exact .linger rfl haudit hemitted

end

variable [text : JsonText]

section

variable {Key : Type} [BiscuitEngine Key] {policy : Policy Key} {peer : NodeId}
  {behavior : CalleeBehavior} {o : Outcome} {c c' : Callee}

/-- **Step lemma.**  Unless its future is dropped, the task keeps to its outcome. -/
theorem step_heading {e : Ev} (h : Heading o c) (hkept : e ≠ .drop)
    (hs : step policy peer behavior c e = some c') : Heading o c' := by
  -- A task that heads for its outcome is past its setup and its writes.
  cases e with
  | arrive _ | endStream _ | close _ | timer =>
      obtain ⟨-, hs⟩ := Option.ite_none_right_eq_some.mp hs
      obtain rfl := Option.some.inj hs
      exact h.of_eq rfl rfl rfl
  | shutdown | spend _ =>
      obtain rfl := Option.some.inj hs
      exact h.of_eq rfl rfl rfl
  | setup r now =>
      cases h with
      | linger ha _ _ | join _ ha _ _ _ | returned _ _ ha _ _ =>
          simp only [step, ha] at hs
          cases hs
  | wrote w =>
      cases h with
      | linger ha _ _ | join _ ha _ _ _ | returned _ _ ha _ _ =>
          simp only [step, ha] at hs
          cases hs
  | poll expired =>
      cases h with
      | linger ha hau hem =>
          simp only [step, ha] at hs
          obtain rfl := Option.some.inj hs
          exact pollLinger_heading ha hau hem expired
      | join _ ha _ _ _ | returned _ _ ha _ _ => simp only [step, ha] at hs; cases hs
  | guardJoined =>
      cases h with
      | join result ha ho hau hem =>
          simp only [step, ha] at hs
          obtain rfl := Option.some.inj hs
          have hemit : { c with record := c.record.observeResult result }.emitRecord.audit = _ :=
            emitRecord_audit hau
              ((congrArg Prod.fst (observeResult_identity c.record result)).trans hem)
          exact .returned result _ rfl hemit ((observeResult_outcome _ result).trans ho)
      | linger ha _ _ | returned _ _ ha _ _ => simp only [step, ha] at hs; cases hs
  | drop => exact absurd rfl hkept

/-! ## The loss itself -/

/-- The step ends the call because the connection, closed with `err`, is lost.  Reads and
    writes may notice before `conn.closed()` does. -/
inductive LostBy (behavior : CalleeBehavior) (err : ConnectionError) (c : Callee) : Ev → Prop where
  | setup (reason : String) (now : SystemTime) (hawait : c.await = .acceptBi) :
      LostBy behavior err c (.setup (.failed reason) now)
  | firstClosed {now : SystemTime} {read : ReadFrame} (expired : Bool)
      (hawait : c.await = .firstFrame now read) (hshutdown : c.shutdown = false)
      (hclosed : c.closed = some err) : LostBy behavior err c (.poll expired)
  | firstRead {now : SystemTime} {read : ReadFrame} {recv : RecvStream}
      (expired : Bool) (hawait : c.await = .firstFrame now read) (hshutdown : c.shutdown = false)
      (hclosed : c.closed = none)
      (hread : pollFrame read c.recv = (.ready (fail (.read .readError)), recv)) :
      LostBy behavior err c (.poll expired)
  | emit {msg : Message} {rest : List Message} (hawait : c.await = .emit msg rest) :
      LostBy behavior err c (.wrote (.failed .write))
  | reply {msg : Message} (hawait : c.await = .writeReply msg) :
      LostBy behavior err c (.wrote (.failed .write))
  | waitClosed {read : ReadFrame} (expired : Bool) (hawait : c.await = .waitTerminal read)
      (hopen : c.state.isTerminal = false) (hshutdown : c.shutdown = false)
      (htimer : c.timer = false) (hclosed : c.closed = some err) :
      LostBy behavior err c (.poll expired)
  | waitRead {read : ReadFrame} {recv : RecvStream} (expired : Bool)
      (hawait : c.await = .waitTerminal read) (hopen : c.state.isTerminal = false)
      (hshutdown : c.shutdown = false) (htimer : c.timer = false) (hclosed : c.closed = none)
      (hbehavior : behavior ≠ .silentHang)
      (hread : pollMessage read c.recv = (.ready (fail (.read .readError)), recv)) :
      LostBy behavior err c (.poll expired)

/-- The `closed()` branch of `callee_wait_terminal` is the one that notices. -/
def SeenByWait (c : Callee) : Prop :=
  ∃ read, c.await = .waitTerminal read ∧ c.closed.isSome = true

/-- A loss that the last branch notices is recorded as the code prescribes. -/
theorem seen_heading {err : ConnectionError} {e : Ev} (hlost : LostBy behavior err c e)
    (hseen : SeenByWait c) (haudit : c.audit = []) (hemitted : c.record.emitted = false)
    (ho : connLostOutcomeCallee (closeCodeFromConnErr err) = .terminal o)
    (hs : step policy peer behavior c e = some c') : Heading o c' := by
  obtain ⟨read, hwait, hsome⟩ := hseen
  -- Only one of the branches polls `closed()` in the last wait.
  cases hlost with
  | waitClosed expired hawait hopen hshutdown htimer hclosed =>
      have hpoll : c.pollWait behavior read expired =
          c.connLost (closeCodeFromConnErr err) (.error .illegal) := by
        rw [Callee.pollWait, hshutdown, htimer, hclosed]
        rfl
      simp only [step, hwait] at hs
      rw [hpoll] at hs
      obtain rfl := Option.some.inj hs
      exact connLost_heading hopen haudit hemitted ho
  | waitRead _ hawait _ _ _ hclosed _ _ =>
      rw [hclosed] at hsome
      cases hsome
  | setup _ _ hawait | firstClosed _ hawait _ _ | firstRead _ hawait _ _ _ | emit hawait
  | reply hawait => cases hwait.symm.trans hawait

/-- Every other branch records `PeerLost`, whatever the code. -/
theorem unseen_heading {err : ConnectionError} {e : Ev} (hlost : LostBy behavior err c e)
    (hunseen : ¬ SeenByWait c) (haudit : c.audit = []) (hemitted : c.record.emitted = false)
    (hs : step policy peer behavior c e = some c') : Heading .peerLost c' := by
  -- The other branches forget the code, or the guard defaults to `PeerLost`.
  cases hlost with
  | setup reason now hawait =>
      simp only [step] at hs
      rw [hawait] at hs
      obtain rfl := Option.some.inj hs
      exact .returned _ _ rfl (emitRecord_audit haudit hemitted) rfl
  | @firstClosed now read expired hawait hshutdown hclosed =>
      have hpoll : c.pollFirstFrame policy peer behavior now read expired =
          c.loopRet (.ok .peerLost) := by
        rw [Callee.pollFirstFrame, hshutdown, hclosed]
        rfl
      simp only [step, hawait] at hs
      rw [hpoll] at hs
      obtain rfl := Option.some.inj hs
      exact heading_join haudit hemitted rfl
  | @firstRead now read recv expired hawait hshutdown hclosed hread =>
      have hpoll : c.pollFirstFrame policy peer behavior now read expired =
          { c with recv := recv }.loopRet (.error (.frame (.read .readError))) := by
        rw [Callee.pollFirstFrame, hshutdown, hclosed, hread]
        rfl
      simp only [step, hawait] at hs
      rw [hpoll] at hs
      obtain rfl := Option.some.inj hs
      exact heading_join haudit hemitted rfl
  | emit hawait | reply hawait =>
      simp only [step, hawait] at hs
      obtain rfl := Option.some.inj hs
      exact heading_join haudit hemitted rfl
  | @waitClosed read expired hawait _ _ _ hclosed =>
      exact absurd ⟨read, hawait, by rw [hclosed]; rfl⟩ hunseen
  | @waitRead read recv expired hawait hopen hshutdown htimer hclosed hbehavior hread =>
      have hpoll : c.pollWait behavior read expired =
          { c with recv := recv }.connLost .normal (.ok .peerLost) := by
        rw [Callee.pollWait, hshutdown, htimer, hclosed]
        dsimp only
        rw [if_neg hbehavior, hread]
        rfl
      simp only [step, hawait] at hs
      rw [hpoll] at hs
      obtain rfl := Option.some.inj hs
      exact connLost_heading hopen haudit hemitted rfl

/-! ## The whole run -/

/-- **LOSS IS CLASSIFIED AS PRESCRIBED**, exactly when the code is `Normal` or the `closed()`
    branch of `callee_wait_terminal` noticed.  For every run up to the loss and every run
    after it in which the future is not dropped. -/
theorem loss_classified_iff {spent : MemorySpentSet} {before : List Ev}
    (hbefore : runFrom (step policy peer behavior) (runCalleeWith policy peer spent) before =
      some c)
    {err : ConnectionError} {e : Ev} (hlost : LostBy behavior err c e) {after : List Ev}
    (hkept : ∀ e ∈ after, e ≠ .drop) {d : Callee}
    (hafter : runFrom (step policy peer behavior) c (e :: after) = some d)
    {result : Except CallError Outcome} (hreturned : d.await = .returned result) :
    (∃ a, d.audit = [a] ∧
      connLostOutcomeCallee (closeCodeFromConnErr err) = .terminal a.record.outcome) ↔
    closeCodeFromConnErr err = .normal ∨ SeenByWait c := by
  have hover : c.await.over = false := by
    cases hlost with
    | setup _ _ hawait | firstClosed _ hawait _ _ | firstRead _ hawait _ _ _ | emit hawait
    | reply hawait | waitClosed _ hawait _ _ _ _ | waitRead _ hawait _ _ _ _ _ _ =>
        rw [hawait]
        rfl
  have hacc : UatIncoming.Accounted peer c :=
    run_invariant (UatIncoming.Accounted peer)
      (fun _ _ _ h hs => h.of_moves (step_moves hs)) before _ c
      (UatIncoming.runCalleeWith_accounted policy peer spent) hbefore
  obtain ⟨haudit, hidentity⟩ := hacc.running hover
  have hemitted : c.record.emitted = false := congrArg Prod.fst hidentity
  obtain ⟨c', hs, hrest⟩ := runFrom_cons.mp hafter
  -- whatever outcome the loss heads for is the one that is recorded
  have hrecorded : ∀ {o}, Heading o c' → ∃ a, d.audit = [a] ∧ a.record.outcome = o := by
    intro o hheading
    have hend : Heading o d :=
      run_invariant_of (C := fun _ e => e ≠ .drop) (fun _ _ _ h hk hs => step_heading h hk hs)
        after c' d hheading (everyStep_of_forall hkept) hrest
    cases hend with
    | linger hawait _ _ | join _ hawait _ _ _ => cases hreturned.symm.trans hawait
    | returned _ a _ haudit ho => exact ⟨a, haudit, ho⟩
  obtain ⟨o, ho⟩ := connLostOutcomeCallee_terminal (closeCodeFromConnErr err)
  by_cases hseen : SeenByWait c
  · obtain ⟨a, ha, hao⟩ := hrecorded (seen_heading hlost hseen haudit hemitted ho hs)
    exact ⟨fun _ => Or.inr hseen, fun _ => ⟨a, ha, by rw [hao]; exact ho⟩⟩
  · obtain ⟨a, ha, hao⟩ := hrecorded (unseen_heading hlost hseen haudit hemitted hs)
    have hprescribed : connLostOutcomeCallee (closeCodeFromConnErr err) = .terminal .peerLost ↔
        closeCodeFromConnErr err = .normal := by
      rw [connLostOutcomeCallee]
      by_cases hcode : closeCodeFromConnErr err = .normal
      · rw [if_pos hcode]
        exact ⟨fun _ => hcode, fun _ => rfl⟩
      · rw [if_neg hcode]
        refine ⟨fun h => ?_, fun h => absurd h hcode⟩
        cases h
    constructor
    · rintro ⟨a', ha', hout⟩
      obtain rfl := List.singleton_injective (ha.symm.trans ha')
      rw [hao] at hout
      exact Or.inl (hprescribed.mp hout)
    · intro h
      refine ⟨a, ha, ?_⟩
      rw [hao]
      exact hprescribed.mpr (h.resolve_right hseen)

end

end

section

attribute [local instance] plainText compactJson noToken

/-- The caller gives up with `Timeout` before its `Submit` was read. -/
def givesUpEarly : List Ev := [.setup .opened epoch, .close (closedBy .timeout)]

/-- The first `select` of the loop finds the close. -/
theorem givesUpEarly_closed {c : Callee} (hawait : c.await = .firstFrame epoch .fresh)
    (hshutdown : c.shutdown = false) (hclosed : c.closed = some (closedBy .timeout)) :
    LostBy .stubComplete (closedBy .timeout) c (.poll false) :=
  .firstClosed false hawait hshutdown hclosed

/-- The first `select` finds the close, and the call is over once the guard has joined. -/
theorem givesUpEarly_lost : ∃ c d,
    runFrom (step oneRoot stranger .stubComplete) (runCalleeWith oneRoot stranger .new)
        givesUpEarly = some c ∧
      LostBy .stubComplete (closedBy .timeout) c (.poll false) ∧
      runFrom (step oneRoot stranger .stubComplete) c [.poll false, .guardJoined] = some d ∧
      d.await = .returned (.ok .peerLost) ∧
      d.audit = [⟨⟨none, .inbound, stranger, .allowed .allowlist, .peerLost⟩, none⟩] :=
  ⟨_, _, rfl, givesUpEarly_closed rfl rfl rfl, rfl, rfl, rfl⟩

theorem loss_classified_iff_givesUpEarly : ∃ c d,
    runFrom (step oneRoot stranger .stubComplete) (runCalleeWith oneRoot stranger .new)
        givesUpEarly = some c ∧
      runFrom (step oneRoot stranger .stubComplete) c [.poll false, .guardJoined] = some d ∧
      ((∃ a, d.audit = [a] ∧ connLostOutcomeCallee (closeCodeFromConnErr (closedBy .timeout)) =
          .terminal a.record.outcome) ↔
        closeCodeFromConnErr (closedBy .timeout) = .normal ∨ SeenByWait c) := by
  obtain ⟨c, d, hbefore, hlost, hafter, hreturned, -⟩ := givesUpEarly_lost
  exact ⟨c, d, hbefore, hafter, loss_classified_iff hbefore hlost (by simp) hafter hreturned⟩

/-- The record says `PeerLost`; `callee_step` prescribes `Closed(Timeout)`. -/
theorem early_close_recorded_as_peerLost :
    oneRoot.verifyPeer stranger = true ∧
    ¬ ∀ before c err e after d result,
      runFrom (step oneRoot stranger .stubComplete) (runCalleeWith oneRoot stranger .new) before =
        some c →
      LostBy .stubComplete err c e → (∀ e ∈ after, e ≠ .drop) →
      runFrom (step oneRoot stranger .stubComplete) c (e :: after) = some d →
      d.await = .returned result →
      ∃ a, d.audit = [a] ∧
        connLostOutcomeCallee (closeCodeFromConnErr err) = .terminal a.record.outcome := by
  refine ⟨by decide, fun h => ?_⟩
  obtain ⟨c, d, hbefore, hlost, hafter, hreturned, haudit⟩ := givesUpEarly_lost
  obtain ⟨a, ha, hout⟩ := h _ c _ _ _ d _ hbefore hlost (by simp) hafter hreturned
  obtain rfl := List.singleton_injective (haudit.symm.trans ha)
  cases hout

end

end UatLossClass
