import Uat.UnusedHook
import Uat.TwoParty

/-! # A verdict in the buffer, and the close behind it

    The callee writes its verdict and closes the connection.  The `select` of
    `caller_loop` is biased, and `conn.closed()` stands before the read, so a caller that
    finds both ready takes the close.  The channel driver asks its channel first.

    * **`VerdictWaiting`** — the bytes of a complete, legal verdict wait to be read.
    * **`verdict_lost_to_close`** — once the close is visible no run returns that verdict.
    * **`verdict_read_without_close`** — without the close the polls of the loop do. -/

namespace UatLostVerdict

open UatTypes UatState UatCodec UatHeader UatStream UatRecvStream UatRecord UatCallerLoop
open UatTwoParty (IsVerdict arrives takes takes_eq_some)
open Duplex (drain_head drain_halted drain_invariant)
open UatUnusedHook (submitOne)
open UatAttenuation (plainText)
open Checked StepRun
open UatUnusedHook (Live step_live loopTop_live live_of_stopped callerLoop_start)

section

variable [Base64Engine]

/-- What ends a call by reading is a verdict. -/
theorem isVerdict_of_arrives {s : CallerState} {ms : List Message} {o : Outcome}
    (hs : s.isTerminal = false) (h : arrives s ms = some (.terminal o)) : IsVerdict o := by
  have hkeep : ∀ s m s', (∀ o, s = .terminal o → IsVerdict o) → takes s m = some s' →
      ∀ o, s' = .terminal o → IsVerdict o := by
    intro s m s' _ hm o ho
    obtain ⟨st, hst, rfl⟩ := takes_eq_some.mp hm
    rcases callerStep_recv hst with ⟨-, -, rfl⟩ | ⟨-, -, rfl⟩ | ⟨-, -, rfl⟩ | ⟨-, -, rfl⟩ |
      ⟨-, code, -, rfl⟩ | ⟨-, -, rfl⟩ | ⟨-, -, rfl⟩ <;> cases ho <;> trivial
  refine drain_invariant hkeep ?_ h o rfl
  intro o ho
  rw [ho] at hs
  cases hs

/-! ## After the close -/

variable {o : Outcome} {c c' : Caller}

/-- The close is visible, the caller's own timer and shutdown are quiet, and the loop has
    not returned `o`. -/
structure Doomed (o : Outcome) (c : Caller) : Prop where
  closed : c.closed.isSome = true
  shutdown : c.shutdown = false
  timer : c.timer = false
  live : Live c
  lost : c.await ≠ .returned (.ok o)

/-- A caller that shows the same is as doomed. -/
theorem Doomed.of_eq (h : Doomed o c) (hclosed : c'.closed = c.closed)
    (hshutdown : c'.shutdown = c.shutdown) (htimer : c'.timer = c.timer)
    (hawait : c'.await = c.await) (hstate : c'.state = c.state) : Doomed o c' := by
  refine ⟨?_, hshutdown.trans h.shutdown, htimer.trans h.timer, ?_, ?_⟩
  · rw [hclosed]
    exact h.closed
  · rw [Live, hawait, hstate]
    exact h.live
  · rw [hawait]
    exact h.lost

/-- A doomed caller may return anything but the verdict. -/
theorem Doomed.ret (h : Doomed o c) {r : Except CallError Outcome} (hr : r ≠ .ok o) :
    Doomed o (c.ret r) := by
  refine ⟨h.closed, h.shutdown, h.timer, live_of_stopped rfl, fun hret => ?_⟩
  cases hret
  exact hr rfl

/-- At the head of the loop the close is still there. -/
theorem Doomed.loopTop (h : Doomed o c) (hopen : c.state.isTerminal = false) :
    Doomed o c.loopTop := by
  have htop : c.loopTop = { c with await := .select .fresh } := by
    rw [Caller.loopTop]
    cases hs : c.state with
    | terminal o =>
        rw [hs] at hopen
        cases hopen
    | _ => rfl
  rw [htop]
  exact ⟨h.closed, h.shutdown, h.timer, fun _ => hopen, fun hret => by cases hret⟩

theorem Doomed.writeFailed (h : Doomed o c) (err : CallError) : Doomed o (c.writeFailed err) := by
  cases err with
  | frame fe =>
      rw [Caller.writeFailed, Caller.closeOnFrameErr]
      cases fe.closeCode with
      | none => exact h.ret (by intro hr; cases hr)
      | some code =>
          have hclose : Doomed o (c.closeWith code) := h.of_eq rfl rfl rfl rfl rfl
          exact hclose.ret (by intro hr; cases hr)
  | _ => exact h.ret (by intro hr; cases hr)

/-- A close is no verdict. -/
theorem Doomed.connLost (h : Doomed o c) (ho : IsVerdict o) (hopen : c.state.isTerminal = false)
    (code : CloseCode) : Doomed o (c.connLost code) := by
  rw [Caller.connLost, callerStep_connLost hopen]
  dsimp only [go_state]
  rw [connLostOutcomeCaller]
  by_cases hcode : code = .normal
  · rw [if_pos hcode]
    refine h.ret fun hr => ?_
    cases hr
    exact ho
  · rw [if_neg hcode]
    refine h.ret fun hr => ?_
    cases hr
    exact ho

theorem Doomed.onClosed (h : Doomed o c) (ho : IsVerdict o) (hopen : c.state.isTerminal = false)
    (err : ConnectionError) : Doomed o (c.onClosed err) := by
  rw [Caller.onClosed]
  split
  · have hclear : Doomed o { c with record := c.record.clearTask } := h.of_eq rfl rfl rfl rfl rfl
    exact hclear.connLost ho hopen _
  · exact h.connLost ho hopen _

/-- The end of the `Submit` write brings no verdict. -/
theorem Doomed.submitWritten (h : Doomed o c) (ho : IsVerdict o)
    (hopen : c.state.isTerminal = false) (w : WriteEnd) : Doomed o (c.submitWritten w) := by
  have hrecord : ∀ record, Doomed o { c with record := record } := fun _ =>
    h.of_eq rfl rfl rfl rfl rfl
  rw [Caller.submitWritten]
  cases w.result with
  | error err =>
      dsimp only
      split
      · exact (hrecord _).ret (by intro hr; cases hr)
      · exact h.writeFailed err
  | ok _ =>
      dsimp only
      split
      · refine (hrecord _).ret fun hr => ?_
        cases hr
        exact ho
      · exact (hrecord _).loopTop hopen

/-- What the read of a `select` holds is a part of a frame. -/
def Whole (c : Caller) : Prop := ∀ read, c.await = .select read → read.Partial

/-- A read that has just begun holds a part of a frame. -/
theorem whole_of_quiet {c c' : Caller} (hq : Quiet c c') : Whole c' := by
  intro read hread
  obtain rfl := hq.fresh read hread
  exact Nat.zero_le _

variable [text : JsonText]

/-- The bytes that a loop still has to read begin with the frames of `ms`, and reading
    them, legally, ends the call with `o`. -/
structure VerdictWaiting (c : Caller) (ms : List Message) (o : Outcome) : Prop where
  running : c.await.running = true
  unread : ∃ payloads rest, List.Forall₂ Frames ms payloads ∧
    c.await.held ++ c.recv.arrived = (payloads.map frameOf).flatten ++ rest
  legal : arrives c.state ms = some (.terminal o)

/-- **Step lemma.** -/
theorem step_doomed {e : Ev} (ho : IsVerdict o) (h : Doomed o c)
    (hquiet : e ≠ .shutdown ∧ e ≠ .timer) (he : step c e = some c') : Doomed o c' := by
  cases e with
  | arrive n | finish | lose | hookSend | hookDrop =>
      obtain ⟨-, he⟩ := Option.ite_none_right_eq_some.mp he
      obtain rfl := Option.some.inj he
      exact h.of_eq rfl rfl rfl rfl rfl
  | close err =>
      obtain ⟨hopen, -⟩ := Option.ite_none_right_eq_some.mp he
      have hclosed := h.closed
      rw [hopen] at hclosed
      cases hclosed
  | shutdown => exact absurd rfl hquiet.1
  | timer => exact absurd rfl hquiet.2
  | wrote w =>
      rcases step_wrote he with ⟨hawait, rfl⟩ | ⟨hawait, rfl⟩
      · exact h.submitWritten ho (h.live (by rw [hawait]; rfl)) w
      · have hopen := h.live (by rw [hawait]; rfl)
        rw [Caller.cancelWritten]
        split
        · exact h.writeFailed _
        · exact h.loopTop hopen
  | poll expired =>
      obtain ⟨read, hawait, rfl⟩ := step_poll he
      have hopen := h.live (by rw [hawait]; rfl)
      obtain ⟨err, hclosed⟩ := Option.isSome_iff_exists.mp h.closed
      -- the close is asked before the stream
      simp only [Caller.pollSelect, h.shutdown, h.timer, hclosed, Bool.false_eq_true, if_false]
      exact h.onClosed ho hopen err

/-- A caller whose `select` finds the close takes it at its next poll. -/
theorem poll_closed {read : ReadFrame} {err : ConnectionError} (hawait : c.await = .select read)
    (hopen : c.state.isTerminal = false) (hshutdown : c.shutdown = false) (htimer : c.timer = false)
    (hclosed : c.closed = some err) (expired : Bool) :
    ∃ d lost, step c (.poll expired) = some d ∧ d.await = .returned (.ok lost) ∧
      connLostOutcomeCaller (closeCodeFromConnErr err) = .terminal lost := by
  obtain ⟨lost, hlost⟩ := connLostOutcomeCaller_terminal (closeCodeFromConnErr err)
  have hconnLost : ∀ c' : Caller, c'.state = c.state →
      c'.connLost (closeCodeFromConnErr err) = c'.ret (.ok lost) := by
    intro c' hstate
    have hopen' : c'.state.isTerminal = false := by rw [hstate]; exact hopen
    rw [Caller.connLost, callerStep_connLost hopen']
    dsimp only [go_state]
    rw [hlost]
  have hpoll : step c (.poll expired) = some (c.onClosed err) := by
    rw [step, hawait]
    show some (c.pollSelect read expired) = _
    rw [Caller.pollSelect, hshutdown, htimer, hclosed]
    rfl
  refine ⟨_, lost, hpoll, ?_, hlost⟩
  rw [Caller.onClosed]
  split
  · rw [hconnLost { c with record := c.record.clearTask } rfl]
    rfl
  · rw [hconnLost c rfl]
    rfl

/-! ## Without the close -/

/-- A frame that is there is read in one poll. -/
theorem pollMessage_ready {read : ReadFrame} {recv : RecvStream} {m : Message}
    {payload rest : Bytes}
    (hread : read.Partial) (hframe : Frames m payload)
    (hbytes : read.held ++ recv.arrived = frameOf payload ++ rest) :
    pollMessage read recv = (.ready (.ok m), { recv with arrived := rest }) := by
  have hpoll : pollFrame read recv =
      (.ready (.ok (frameOf payload)), { recv with arrived := rest }) := by
    rw [pollFrame_eq hread, pollBytes, hbytes, readFrame_frameOf hframe.le_max]
  rw [pollMessage, hpoll]
  show (Poll.ready (mapErr FrameIoError.codec (decode fromSlice (frameOf payload) allowAll)), _) = _
  rw [hframe.decodes]
  rfl

/-- The loop is at its `select`, and nothing before the read is ready. -/
structure ReadsNext (c : Caller) (read : ReadFrame) : Prop where
  await : c.await = .select read
  whole : read.Partial
  shutdown : c.shutdown = false
  timer : c.timer = false
  closed : c.closed = none
  hook : c.requestCancel = none ∨ c.requestCancel = some .waiting

/-- One poll hands over the next message. -/
theorem poll_reads {read : ReadFrame} {m : Message} {payload rest : Bytes} {s : CallerState}
    (h : ReadsNext c read) (hframe : Frames m payload)
    (hbytes : read.held ++ c.recv.arrived = frameOf payload ++ rest)
    (htakes : takes c.state m = some s) :
    step c (.poll false) = some (Caller.loopTop { c with
      recv := { c.recv with arrived := rest }, handed := c.handed ++ [m], state := s }) := by
  obtain ⟨st, hst, rfl⟩ := takes_eq_some.mp htakes
  have hselect : c.pollSelect read false = c.pollRead read false := by
    rw [Caller.pollSelect, if_neg (by rw [h.shutdown]; exact Bool.false_ne_true),
      if_neg (by rw [h.timer]; exact Bool.false_ne_true), h.closed]
    rcases h.hook with hnone | hwaiting
    · rw [hnone]
    · rw [hwaiting]
  have hpoll : step c (.poll false) = some (c.pollSelect read false) := by
    rw [step, h.await]
  rw [hpoll, hselect, Caller.pollRead, pollMessage_ready h.whole hframe hbytes]
  dsimp only [Caller.onRead]
  rw [hst]

/-- The read branch leaves a read that is whole. -/
theorem pollRead_whole {c : Caller} {read : ReadFrame} (hread : read.Partial) (expired : Bool) :
    Whole (c.pollRead read expired) := by
  rw [Caller.pollRead, pollMessage]
  rcases hpoll : pollFrame read c.recv with ⟨read' | r, recv⟩
  · dsimp only
    cases expired with
    | true =>
        intro read'' h
        cases h
    | false =>
        intro read'' h
        cases h
        exact (pollFrame_pending hread hpoll).1
  · dsimp only
    generalize (r.bind fun frame => mapErr FrameIoError.codec (decode fromSlice frame allowAll))
      = polled
    cases polled with
    | error stop =>
        cases stop with
        | err err => exact whole_of_quiet (closeOnFrameErr_ret_quiet _ err _)
        | panic =>
            intro read'' h
            cases h
    | ok msg =>
        rw [Caller.onRead]
        dsimp only
        split
        · exact whole_of_quiet (loopTop_quiet _)
        · exact whole_of_quiet (ret_quiet _ _)

/-- The read is whole in every state of the loop. -/
theorem step_whole {c c' : Caller} {e : Ev} (h : Whole c) (he : step c e = some c') :
    Whole c' := by
  cases e with
  | arrive n | finish | lose | close err | hookSend | hookDrop =>
      obtain ⟨-, he⟩ := Option.ite_none_right_eq_some.mp he
      obtain rfl := Option.some.inj he
      exact h
  | shutdown | timer =>
      obtain rfl := Option.some.inj he
      exact h
  | wrote w =>
      rcases step_wrote he with ⟨-, rfl⟩ | ⟨-, rfl⟩
      · exact whole_of_quiet (submitWritten_quiet c w)
      · exact whole_of_quiet (cancelWritten_quiet c w)
  | poll expired =>
      obtain ⟨read, hawait, rfl⟩ := step_poll he
      rw [Caller.pollSelect]
      split
      · exact whole_of_quiet (ret_quiet c _)
      split
      · exact whole_of_quiet (onTimer_quiet c).1
      split
      · exact whole_of_quiet (onClosed_quiet c _).1
      split
      · next hhook => exact whole_of_quiet (onCancelReq_quiet hhook)
      · exact whole_of_quiet (loopTop_quiet _)
      · intro read' hread'
        cases hread'
      -- only here is the read polled, and it keeps what it took
      · exact pollRead_whole (h read hawait) expired
      · exact pollRead_whole (h read hawait) expired

/-- **The polls read the verdict.**  By induction on the messages before it. -/
theorem polls_return {ms : List Message} {payloads : List Bytes}
    (hframes : List.Forall₂ Frames ms payloads) :
    ∀ {c : Caller} {read : ReadFrame} {rest : Bytes}, ReadsNext c read →
      read.held ++ c.recv.arrived = (payloads.map frameOf).flatten ++ rest →
      c.state.isTerminal = false → arrives c.state ms = some (.terminal o) →
      ∃ n d, runFrom step c (List.replicate n (.poll false)) = some d ∧
        d.await = .returned (.ok o) := by
  induction hframes with
  | nil =>
      intro c read rest _ _ hopen hlegal
      rw [Option.some.inj hlegal] at hopen
      cases hopen
  | @cons m payload ms payloads hframe hframes ih =>
      intro c read rest h hbytes hopen hlegal
      obtain ⟨s, htakes, hrest⟩ := drain_head hopen hlegal
      rw [List.map_cons, List.flatten_cons, List.append_assoc] at hbytes
      have hstep := poll_reads h hframe hbytes htakes
      cases hs : s.isTerminal with
      | true =>
          rw [drain_halted hs] at hrest
          obtain rfl := Option.some.inj hrest
          exact ⟨1, _, runFrom_cons.mpr ⟨_, hstep, rfl⟩, rfl⟩
      | false =>
          have htop : Caller.loopTop { c with
              recv := { c.recv with arrived := (payloads.map frameOf).flatten ++ rest },
              handed := c.handed ++ [m], state := s } = { c with
              recv := { c.recv with arrived := (payloads.map frameOf).flatten ++ rest },
              handed := c.handed ++ [m], state := s, await := .select .fresh } := by
            rw [Caller.loopTop]
            cases s <;> first | rfl | cases hs
          rw [htop] at hstep
          obtain ⟨n, d, hrun, hd⟩ := ih
            (c := { c with
              recv := { c.recv with arrived := (payloads.map frameOf).flatten ++ rest },
              handed := c.handed ++ [m], state := s, await := .select .fresh })
            ⟨rfl, Nat.zero_le _, h.shutdown, h.timer, h.closed, h.hook⟩ rfl hs hrest
          exact ⟨n + 1, d, runFrom_cons.mpr ⟨_, hstep, hrun⟩, hd⟩

/-! ## The two orders -/

variable {submit : Message} {hook : Option Hook} {record : CallRecordGuard} {wire : Bytes}
  {start c : Caller} {before : List Ev} {ms : List Message}

/-- **THE VERDICT IS LOST TO THE CLOSE.**  Once the close is visible before the verdict was
    read, no run in which timer and shutdown stay quiet returns the verdict: a `select`
    returns at its next poll what the close stands for. -/
theorem verdict_lost_to_close (hstart : callerLoop submit hook record wire = .ok start)
    (hbefore : runFrom step start before = some c) (hwaiting : VerdictWaiting c ms o)
    (hshutdown : c.shutdown = false) (htimer : c.timer = false) {err : ConnectionError}
    {after : List Ev} (hquiet : ∀ e ∈ after, e ≠ .shutdown ∧ e ≠ .timer) {d : Caller}
    (hrun : runFrom step c (.close err :: after) = some d) :
    d.await ≠ .returned (.ok o) ∧
      ∀ read expired, c.await = .select read → ∃ d' lost,
        runFrom step c [.close err, .poll expired] = some d' ∧ d'.await = .returned (.ok lost) ∧
        connLostOutcomeCaller (closeCodeFromConnErr err) = .terminal lost := by
  have hlive : Live c := by
    obtain ⟨-, -, hlive, -⟩ := callerLoop_start hstart
    exact run_invariant Live (fun _ _ _ => step_live) before start c hlive hbefore
  have hopen := hlive hwaiting.running
  have ho : IsVerdict o := isVerdict_of_arrives hopen hwaiting.legal
  obtain ⟨c', hclose, hafter⟩ := runFrom_cons.mp hrun
  obtain ⟨-, heq⟩ := Option.ite_none_right_eq_some.mp hclose
  obtain rfl := Option.some.inj heq
  refine ⟨?_, fun read expired hawait => ?_⟩
  swap
  · obtain ⟨d', lost, hpoll, hret, hlost⟩ := poll_closed (c := { c with closed := some err })
      hawait hopen hshutdown htimer rfl expired
    exact ⟨d', lost, runFrom_cons.mpr ⟨_, hclose, runFrom_cons.mpr ⟨_, hpoll, rfl⟩⟩, hret, hlost⟩
  have hdoomed : Doomed o { c with closed := some err } := by
    refine ⟨rfl, hshutdown, htimer, hlive, fun hret => ?_⟩
    have hrunning := hwaiting.running
    rw [show c.await = .returned (.ok o) from hret] at hrunning
    cases hrunning
  exact (run_invariant_of (C := fun _ e => e ≠ .shutdown ∧ e ≠ .timer)
    (fun _ _ _ h hq he => step_doomed ho h hq he) after _ d hdoomed
    (everyStep_of_forall hquiet) hafter).lost

/-- **Without the close the same bytes are the verdict.** -/
theorem verdict_read_without_close (hstart : callerLoop submit hook record wire = .ok start)
    (hbefore : runFrom step start before = some c) (hwaiting : VerdictWaiting c ms o)
    {read : ReadFrame} (hawait : c.await = .select read) (hshutdown : c.shutdown = false)
    (htimer : c.timer = false) (hclosed : c.closed = none)
    (hhook : c.requestCancel = none ∨ c.requestCancel = some .waiting) :
    ∃ n d, runFrom step c (List.replicate n (.poll false)) = some d ∧
      d.await = .returned (.ok o) := by
  obtain ⟨-, hwrite, hlive, -⟩ := callerLoop_start hstart
  have hlive : Live c :=
    run_invariant Live (fun _ _ _ => step_live) before start c hlive hbefore
  have hwhole : Whole c := by
    refine run_invariant Whole (fun _ _ _ => step_whole) before start c (fun read h => ?_) hbefore
    cases hwrite.symm.trans h
  obtain ⟨payloads, rest, hframes, hbytes⟩ := hwaiting.unread
  rw [hawait] at hbytes
  exact polls_return hframes ⟨hawait, hwhole read hawait, hshutdown, htimer, hclosed, hhook⟩
    hbytes (hlive hwaiting.running) hwaiting.legal

end

section

attribute [local instance] plainText compactJson

/-- The callee's deadline passed: the verdict, and nothing after it. -/
def deadlineMissed : List Message := [.accepted, .failed .deadlineExceeded]

/-- All its bytes arrive while the loop is at its `select`. -/
def verdictArrives : List Ev := [.wrote .done, .arrive 75]

/-- Whatever the verdict's bytes are, they wait in front of the loop. -/
theorem deadlineMissed_waiting {wire : Bytes} (hwire : encodeAll deadlineMissed [] = .ok wire)
    {c : Caller} (hrunning : c.await.running = true) (hstate : c.state = .submitted)
    (hunread : c.await.held ++ c.recv.arrived = wire) :
    VerdictWaiting c deadlineMissed (.failed .deadlineExceeded) := by
  obtain ⟨payloads, hframes, hall⟩ := encodeAll_frames compactJson_readsBack (encodeAll_each hwire)
  obtain rfl : wire = (payloads.map frameOf).flatten := Except.ok.inj (hwire.symm.trans (hall []))
  refine ⟨hrunning, ⟨payloads, [], hframes, by rw [List.append_nil]; exact hunread⟩, ?_⟩
  rw [hstate]
  rfl

/-- The run in which the callee closes with `Normal` before the loop is polled. -/
theorem deadlineMissed_runs :
    ∃ wire start c d, encodeAll deadlineMissed [] = .ok wire ∧
      callerLoop submitOne none (.new .outbound remote .notReached) wire = .ok start ∧
      runFrom step start verdictArrives = some c ∧
      VerdictWaiting c deadlineMissed (.failed .deadlineExceeded) ∧
      c.shutdown = false ∧ c.timer = false ∧
      runFrom step c [.close (closedBy .normal), .poll false] = some d ∧
      d.await = .returned (.ok .peerLost) :=
  ⟨_, _, _, _, rfl, rfl, rfl, deadlineMissed_waiting rfl rfl rfl rfl, rfl, rfl, rfl, rfl⟩

theorem verdict_lost_to_close_deadlineMissed :
    ∃ wire start c d, encodeAll deadlineMissed [] = .ok wire ∧
      callerLoop submitOne none (.new .outbound remote .notReached) wire = .ok start ∧
      runFrom step start verdictArrives = some c ∧
      VerdictWaiting c deadlineMissed (.failed .deadlineExceeded) ∧
      runFrom step c [.close (closedBy .normal), .poll false] = some d ∧
      d.await ≠ .returned (.ok (.failed .deadlineExceeded)) := by
  obtain ⟨wire, start, c, d, hwire, hstart, hbefore, hwaiting, hshutdown, htimer, hrun, -⟩ :=
    deadlineMissed_runs
  exact ⟨wire, start, c, d, hwire, hstart, hbefore, hwaiting, hrun,
    (verdict_lost_to_close hstart hbefore hwaiting hshutdown htimer (by simp) hrun).1⟩

/-- The callee says `Failed(DeadlineExceeded)` and closes with `Normal`; the caller returns
    `PeerLost`. -/
theorem delivered_verdict_becomes_peerLost :
    ¬ ∀ submit hook record wire start before c ms o err after d,
      callerLoop submit hook record wire = .ok start → runFrom step start before = some c →
      VerdictWaiting c ms o → c.shutdown = false → c.timer = false →
      (∀ e ∈ after, e ≠ .shutdown ∧ e ≠ .timer) →
      runFrom step c (.close err :: after) = some d → d.await.running = false →
      d.await = .returned (.ok o) := by
  intro h
  obtain ⟨wire, start, c, d, -, hstart, hbefore, hwaiting, hshutdown, htimer, hrun, hlost⟩ :=
    deadlineMissed_runs
  have hkept := h submitOne none _ wire start _ c _ _ _ _ d hstart hbefore hwaiting hshutdown
    htimer (by simp) hrun (by rw [hlost]; rfl)
  cases hlost.symm.trans hkept

end

end UatLostVerdict
