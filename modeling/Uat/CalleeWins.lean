import Uat.ChanClock
import Uat.TwoParty

/-! # The two timers of a call — the callee's fires first

    The callee's budget runs from the receipt of the `Submit`, the caller's from its sending,
    and they differ by the grace: on a prompt network the callee's verdict is with the caller
    before the caller's own timer.

    * **`Agree`** — the caller as it will be and the callee, ended by one outcome or not at
      all; the pairs are those of the two tables run against each other.
    * **`Inv`** — the same along a timed run, with the phase each side is in and the time it
      may be in it.
    * **`weight`** — what pays for every step, so that runs are bounded.
    * **`callee_deadline_wins`** — the caller's timer never fires, and every run that cannot
      go on has returned one outcome for both sides. -/

namespace UatCalleeWins

open UatTypes UatState UatRecord UatChanCall UatChanClock StepRun
open Duplex (drain drain_cons drain_head drain_halted drain_append)
open UatTwoParty (InStep Expect takes takes_eq_some takes_failed arrives arrives_cancel
  arrives_uncanceled cancelOf inStep_recv_callee)
open UatCallerLoop (Hook)
open UatCalleeRun (CalleeBehavior)

/-- Of two budgets that differ by the grace, what is sent within the first and takes less
    than the grace, the `Submit`'s delay included, arrives within the second. -/
theorem lt_of_prompt {at_ now calleeBy callerBy delay grace : Nat} (hnow : now ≤ at_)
    (hby : now ≤ calleeBy) (heq : callerBy + delay = calleeBy + grace)
    (hprompt : delay + (at_ - now) < grace) : at_ < callerBy := by
  omega

/-- In a list in order, nothing is after its last element. -/
theorem le_last {l : List Nat} {a : Nat} (h : (l ++ [a]).Pairwise (· ≤ ·)) :
    ∀ b ∈ l ++ [a], b ≤ a := by
  intro b hb
  rcases List.mem_append.mp hb with hb | hb
  · exact (List.pairwise_append.mp h).2.2 b hb a List.mem_cons_self
  · exact (List.mem_singleton.mp hb).le

section

variable [Base64Engine]

/-! ## One verdict

    The caller as it will be once everything in flight to it has arrived, the callee, and
    what the callee has not read: as they can occur together (`InStep`), and ended by one
    outcome or not at all. -/

/-- The two sides can occur together, and have one outcome or none. -/
structure Agree (d : CallerState) (s : Option CalleeState) (q : List Message) : Prop where
  inStep : InStep d s q
  verdict : ∀ o, d = .terminal o ↔ s = some (.terminal o)

/-- Where the stub behaviors leave the callee after what they emit. -/
def settled : CalleeBehavior → CalleeState
  | .stubComplete => .terminal .completed
  | .hangAfterAccept | .silentHang => .working
  | .needInputHang => .needInputSent

/-- A callee that has not ended faces a caller that will not have ended either. -/
theorem live_of_inStep {d : CallerState} {s : CalleeState} {q : List Message}
    (h : InStep d (some s) q) (hs : s.isTerminal = false) : d.isTerminal = false := by
  cases h <;> first | rfl | cases hs

/-- Two sides that have not ended agree. -/
theorem agree_of_live {d : CallerState} {s : CalleeState} {q : List Message}
    (h : InStep d (some s) q) (hs : s.isTerminal = false) : Agree d (some s) q := by
  refine ⟨h, fun o => iff_of_false ?_ ?_⟩
  · rintro rfl
    cases live_of_inStep h hs
  · intro ho
    obtain rfl := Option.some.inj ho
    cases hs

/-- Two sides with one outcome agree, whatever the callee has not read. -/
theorem agree_ended (o : Outcome) (q : List Message) :
    Agree (.terminal o) (some (.terminal o)) q := by
  refine ⟨.gone _ o q, fun o' => ?_⟩
  constructor
  · intro h
    obtain rfl := CallerState.terminal.inj h
    rfl
  · intro h
    obtain rfl := CalleeState.terminal.inj (Option.some.inj h)
    rfl

/-- A `Cancel` sent does not end the agreement, wherever the callee is. -/
theorem Agree.cancel {d : CallerState} {s : Option CalleeState} {q : List Message}
    (h : Agree d s q) (hd : d ≠ .dialing ∧ d ≠ .canceling) :
    Agree (cancelOf d) s (q ++ [.cancel]) := by
  refine ⟨h.inStep.cancel hd.1 hd.2, fun o => ?_⟩
  rw [← h.verdict o]
  cases d with
  | terminal o' => exact Iff.rfl
  | _ => exact ⟨fun h => (by cases h), fun h => (by cases h)⟩

/-- The callee starts. -/
theorem Agree.submitted {d : CallerState} {m : Message} {q : List Message}
    (h : Agree d none (m :: q)) : Agree d (some .offered) q := by
  refine agree_of_live ?_ rfl
  cases h.inStep with
  | submitted => exact .offered
  | canceling hq =>
      rcases hq with ⟨hb, -⟩ | ⟨t, dl, ct, cr, body, hq⟩
      · cases hb
      · have htail : Expect true (some .offered) q := (List.cons.inj hq).2
        exact .canceling htail

/-- What the stub behaviors emit. -/
theorem Agree.emits {d : CallerState} {q : List Message} (h : Agree d (some .offered) q)
    (behavior : CalleeBehavior) :
    ∃ d', arrives d behavior.emits = some d' ∧ Agree d' (some (settled behavior)) q := by
  cases h.inStep with
  | offered =>
      cases behavior with
      | stubComplete => exact ⟨_, rfl, agree_ended _ _⟩
      | hangAfterAccept | silentHang => exact ⟨_, rfl, agree_of_live .working rfl⟩
      | needInputHang => exact ⟨_, rfl, agree_of_live .asked rfl⟩
  | canceling hq =>
      have hworking : Expect true (some .working) q := hq
      have hasked : Expect true (some .needInputSent) q := Or.inl hq
      cases behavior with
      | stubComplete => exact ⟨_, rfl, agree_ended _ _⟩
      | hangAfterAccept | silentHang =>
          exact ⟨_, rfl, agree_of_live (.canceling hworking) rfl⟩
      | needInputHang => exact ⟨_, rfl, agree_of_live (.canceling hasked) rfl⟩

/-- The callee's own timeout. -/
theorem Agree.fails {d : CallerState} {s : CalleeState} {q : List Message}
    (h : Agree d (some s) q) (hs : s.isTerminal = false) (code : FailureCode) :
    ∃ d', arrives d [.failed code] = some d' ∧
      Agree d' (some (.terminal (.failed code))) q := by
  obtain ⟨d', hd', -⟩ := takes_failed h.inStep hs code
  have hterminal : d' = .terminal (.failed code) := by
    obtain ⟨st, hst, rfl⟩ := takes_eq_some.mp hd'
    rcases callerStep_recv hst with ⟨-, hm, -⟩ | ⟨-, hm, -⟩ | ⟨-, hm, -⟩ | ⟨-, ⟨b, hm⟩, -⟩ |
      ⟨-, code', hm, rfl⟩ | ⟨-, hm, -⟩ | ⟨-, hm | hm | hm, -⟩
    all_goals cases hm
    rfl
  refine ⟨d', ?_, ?_⟩
  · show drain CallerState.isTerminal takes d [.failed code] = some d'
    rw [drain_cons (live_of_inStep h.inStep hs), hd']
    rfl
  · rw [hterminal]
    exact agree_ended _ _

/-- The callee reads: it stays, or it is a `Cancel` and the call ends. -/
theorem Agree.reads {d : CallerState} {s : CalleeState} {m : Message} {q : List Message}
    (h : Agree d (some s) (m :: q)) (hs : s.isTerminal = false) :
    ∃ st, calleeStep s (.recv m) = .ok st ∧
      (∃ d', arrives d st.emit.toList = some d' ∧ Agree d' (some st.state) q) ∧
      ((st.state.isTerminal = false ∧ st.emit = none) ∨
        (st.state = .terminal .canceled ∧ st.emit = some .canceled)) := by
  obtain ⟨st, hst⟩ := h.inStep.readable.accepts hs
  obtain ⟨d', hd', hin⟩ := inStep_recv_callee h.inStep hst
  rcases calleeStep_recv hst with ⟨-, -, rfl⟩ | ⟨rfl, rfl⟩
  · exact ⟨_, hst, ⟨d', hd', agree_of_live hin rfl⟩, Or.inl ⟨rfl, rfl⟩⟩
  · refine ⟨_, hst, ⟨.terminal .canceled, ?_, agree_ended _ _⟩, Or.inr ⟨rfl, rfl⟩⟩
    -- only a caller that cancels has a `Cancel` on its way
    cases h.inStep with
    | canceling hq => rfl
    | gone c o q => cases hs

/-! ## The invariant -/

/-- The caller is in time, or has its outcome. -/
inductive CallerPhase (u : Setup) (now : Nanos) (task : Task) (state : CallerState) : Prop where
  | running (task : task = .running) (live : state.isTerminal = false) (inTime : now < u.callerBy)
  | returned (o : Outcome) (task : task = .returned (.ok o)) (state : state = .terminal o)

/-- The callee waits for the `Submit`, runs against its timer, or has its outcome; then
    what it sent arrives before the caller's timer. -/
inductive CalleePhase (u : Setup) (now : Nanos) (await : CalleeAwait) (state : CalleeState)
    (timer : Nanos) (arrived : List Message) (toCallee toCaller : InFlight) : Prop where
  | waiting (await : await = .submit) (state : state = .offered) (inTime : now ≤ u.submitAt)
      (next : (arrived = [] ∧ ∃ rest, toCallee = (u.submitAt, u.submit) :: rest) ∨
        ∃ rest, arrived = u.submit :: rest)
  | running (await : await = .select) (live : state.isTerminal = false) (inTime : now ≤ timer)
      (timer : timer ≤ u.calleeBy)
  | returned (o : Outcome) (await : await = .returned (.ok o)) (state : state = .terminal o)
      (arrives : ∀ p ∈ toCaller, p.1 < u.callerBy)

/-- **The invariant** of the two tasks and their channels. -/
structure Inv (u : Setup) (s : TimedCall) : Prop where
  caller : CallerPhase u s.now s.caller.task s.caller.state
  callee : CalleePhase u s.now s.callee.await s.callee.state s.callee.callTimer
    s.callee.rx.arrived s.toCallee s.toCaller
  callTimer : s.caller.callTimer = u.callerBy
  /-- the hook is used up, or the caller has not canceled -/
  hook : s.caller.requestCancel = none ∨
    (s.caller.requestCancel = some .waiting ∨ s.caller.requestCancel = some .sent) ∧
      s.caller.state ≠ .dialing ∧ s.caller.state ≠ .canceling
  agree : ∃ d, arrives s.caller.state s.forCaller = some d ∧
    Agree d (calleeView s.callee) s.forCallee
  callerEnded : s.caller.rx.ended = true →
    s.toCaller = [] ∧ ∃ o, calleeView s.callee = some (.terminal o)
  calleeEnded : s.callee.rx.ended = true → s.caller.task ≠ .running
  notNotified : s.caller.closed = false ∧ s.callee.closed = false
  noGrace : s.caller.events = []
  fired : s.callee.events = [] ∨ s.callee.state = .terminal (.failed .deadlineExceeded)
  fifoToCallee : (s.toCallee.map Prod.fst).Pairwise (· ≤ ·)
  fifoToCaller : (s.toCaller.map Prod.fst).Pairwise (· ≤ ·)

/-- A caller that has its outcome has it from a callee that has returned it. -/
theorem Inv.calleeReturned {u : Setup} {s : TimedCall} (h : Inv u s) {o : Outcome}
    (hstate : s.caller.state = .terminal o) : calleeView s.callee = some (.terminal o) := by
  obtain ⟨d, hd, hagree⟩ := h.agree
  rw [hstate] at hd
  have hd' : some (CallerState.terminal o) = some d := (drain_halted rfl _).symm.trans hd
  exact (hagree.verdict o).mp (Option.some.inj hd').symm

/-- A callee with an outcome has returned it. -/
theorem Inv.await_of_view {u : Setup} {s : TimedCall} (h : Inv u s) {o : Outcome}
    (hview : calleeView s.callee = some (.terminal o)) :
    s.callee.await = .returned (.ok o) ∧ s.callee.state = .terminal o := by
  cases h.callee with
  | waiting hawait _ _ _ =>
      rw [calleeView, hawait] at hview
      cases hview
  | running hawait hlive _ _ =>
      rw [calleeView, hawait] at hview
      rw [Option.some.inj hview] at hlive
      cases hlive
  | returned o' hawait hstate _ =>
      rw [calleeView, hawait] at hview
      have hsame := Option.some.inj hview
      obtain rfl := CalleeState.terminal.inj (hstate.symm.trans hsame)
      exact ⟨hawait, hstate⟩

/-- A callee that has not returned faces a caller that runs. -/
theorem Inv.callerRunning {u : Setup} {s : TimedCall} (h : Inv u s)
    (hlive : ∀ o, calleeView s.callee ≠ some (.terminal o)) :
    s.caller.task = .running ∧ s.caller.state.isTerminal = false ∧ s.now < u.callerBy := by
  cases h.caller with
  | running htask hstate hnow => exact ⟨htask, hstate, hnow⟩
  | returned o htask hstate => exact absurd (h.calleeReturned hstate) (hlive o)

/-- A running caller with nothing on its way faces a callee that has not returned. -/
theorem Inv.calleeLive {u : Setup} {s : TimedCall} (h : Inv u s)
    (hcaller : s.caller.state.isTerminal = false) (hnone : s.forCaller = []) (o : Outcome) :
    calleeView s.callee ≠ some (.terminal o) := by
  intro hview
  obtain ⟨d, hd, hagree⟩ := h.agree
  rw [hnone] at hd
  obtain rfl := Option.some.inj hd
  rw [(hagree.verdict o).mpr hview] at hcaller
  cases hcaller

/-- A caller that is ready runs, and is in time. -/
theorem Inv.running_of_ready {u : Setup} {s : TimedCall} (h : Inv u s)
    (hready : callerReady s.caller s.now = true) :
    s.caller.task = .running ∧ s.caller.state.isTerminal = false ∧ s.now < u.callerBy := by
  cases h.caller with
  | running htask hlive hnow => exact ⟨htask, hlive, hnow⟩
  | returned o htask hstate =>
      rw [callerReady, htask] at hready
      cases hready

/-- A callee that is ready has not returned. -/
theorem Inv.live_of_ready {u : Setup} {s : TimedCall} (h : Inv u s)
    (hready : calleeReady s.callee s.now = true) (o : Outcome) :
    calleeView s.callee ≠ some (.terminal o) := by
  intro hview
  rw [calleeReady, (h.await_of_view hview).1] at hready
  cases hready

/-! ## What a poll does -/

/-- Where the caller's task is at the top of its loop. -/
def callerEnd : CallerState → Task
  | .terminal outcome => .returned (.ok outcome)
  | _ => .running

/-- The same for the callee's task. -/
def calleeEnd : CalleeState → CalleeAwait
  | .terminal outcome => .returned (.ok outcome)
  | _ => .select

/-- The head of the caller's loop only moves its task. -/
theorem callerLoopTop_eq {c : ChanCaller} (h : c.task = .running) :
    c.loopTop = { c with task := callerEnd c.state } := by
  obtain ⟨state, hook, timer, task, rx, closed, sent, events⟩ := c
  obtain rfl := h
  cases state <;> rfl

/-- The head of the callee's loop only moves its await. -/
theorem calleeLoopTop_eq (c : ChanCallee) : c.loopTop = { c with await := calleeEnd c.state } := by
  obtain ⟨state, behavior, timer, await, rx, closed, sent, events⟩ := c
  cases state <;> rfl

/-- The caller after it took a message off its channel. -/
def callerTook (c : ChanCaller) (rest : List Message) (state : CallerState) : ChanCaller :=
  { c with rx := { c.rx with arrived := rest }, state := state, task := callerEnd state }

/-- The caller after it sent its `Cancel`. -/
def callerCanceled (c : ChanCaller) : ChanCaller :=
  { c with requestCancel := none, state := .canceling, sent := c.sent ++ [.cancel] }

/-- **The caller's poll.**  Its timer never fires: it uses the hook or takes a message. -/
theorem callerPoll_cases {u : Setup} {s : TimedCall} (h : Inv u s)
    (hready : callerReady s.caller s.now = true) :
    (∃ m rest c, s.caller.rx.arrived = m :: rest ∧ takes s.caller.state m = some c ∧
      s.caller.poll s.now = callerTook s.caller rest c) ∨
    (s.caller.requestCancel = some .sent ∧ s.caller.poll s.now = callerCanceled s.caller) := by
  obtain ⟨-, hbranch⟩ := Bool.and_eq_true_iff.mp hready
  obtain ⟨htask, hlive, hnow⟩ := h.running_of_ready hready
  have htimer : ¬ s.caller.callTimer ≤ s.now := by
    rw [h.callTimer]
    exact not_le.mpr hnow
  -- with the hook quiet, only the channel is left
  have hrecv : hookReady s.caller.requestCancel = false →
      ∃ m rest c, s.caller.rx.arrived = m :: rest ∧ takes s.caller.state m = some c ∧
        s.caller.pollRecv = callerTook s.caller rest c := by
    intro hhook
    cases harrived : s.caller.rx.arrived with
    | nil =>
        rw [hhook, harrived, h.notNotified.1, decide_eq_false htimer] at hbranch
        obtain ⟨hempty, o, hview⟩ := h.callerEnded (by simpa using hbranch)
        have hnone : s.forCaller = [] := by
          rw [TimedCall.forCaller, harrived, hempty]
          rfl
        exact absurd hview (h.calleeLive hlive hnone o)
    | cons m rest =>
        obtain ⟨d, hd, -⟩ := h.agree
        rw [TimedCall.forCaller, harrived] at hd
        obtain ⟨c, hm, -⟩ := drain_head hlive hd
        obtain ⟨st, hst, rfl⟩ := takes_eq_some.mp hm
        refine ⟨m, rest, st.state, rfl, hm, ?_⟩
        rw [ChanCaller.pollRecv, harrived]
        dsimp only
        rw [ChanCaller.onRecv, hst]
        exact callerLoopTop_eq htask
  rw [ChanCaller.poll, if_neg htimer]
  rcases h.hook with hnone | ⟨hwaiting | hsent, hdialing, hcanceling⟩
  · rw [hnone] at hrecv ⊢
    exact Or.inl (hrecv rfl)
  · rw [hwaiting] at hrecv ⊢
    exact Or.inl (hrecv rfl)
  · refine Or.inr ⟨hsent, ?_⟩
    have hcancel : callerStep s.caller.state (.send .cancel) = .ok (.go .canceling) := by
      revert hlive hdialing hcanceling
      cases s.caller.state <;> intro hlive hdialing hcanceling <;>
        first | rfl | exact absurd rfl hdialing | exact absurd rfl hcanceling | cases hlive
    rw [hsent]
    dsimp only
    rw [ChanCaller.onCancelReq, hcancel]
    have htop : (callerCanceled s.caller).loopTop =
        { callerCanceled s.caller with task := .running } := callerLoopTop_eq htask
    refine htop.trans ?_
    rw [← htask]
    rfl

/-- The callee after a move: its timer, what is left on its channel, its state, what it sent
    and its side-channel events. -/
def calleeMoved (c : ChanCallee) (timer : Nanos) (rest : List Message) (state : CalleeState)
    (new : List Message) (events : List TimerEvent) : ChanCallee :=
  { c with
    callTimer := timer
    rx := { c.rx with arrived := rest }
    state := state
    sent := c.sent ++ new
    events := events
    await := calleeEnd state }

/-- How many steps a callee can still cause by what it sends. -/
def awaitWeight : CalleeAwait → Nat
  | .submit => 7
  | .select => 3
  | .returned _ => 0

/-- What a poll of the callee does, as far as the call sees it. -/
structure CalleeMove (u : Setup) (s : TimedCall) (timer : Nanos) (rest : List Message)
    (state : CalleeState) (new : List Message) (events : List TimerEvent) : Prop where
  poll : s.callee.poll s.now s.callerGone = calleeMoved s.callee timer rest state new events
  agree : ∃ d, arrives s.caller.state (s.forCaller ++ new) = some d ∧
    Agree d (some state) (rest ++ s.toCallee.map Prod.snd)
  timer : state.isTerminal = false → s.now ≤ timer ∧ timer ≤ u.calleeBy
  inTime : s.now ≤ u.calleeBy
  last : state.isTerminal = true → ∃ before m, new = before ++ [m] ∧ endsCall m = true
  fired : events = [] ∨ state = .terminal (.failed .deadlineExceeded)
  weight : 2 * new.length + awaitWeight (calleeEnd state) + rest.length <
    awaitWeight s.callee.await + s.callee.rx.arrived.length

/-- The `Submit` and what the behavior emits. -/
theorem onSubmit_eq (u : Setup) (c : ChanCallee) (now : Nanos) :
    c.onSubmit now false u.submit =
      calleeMoved c (now + calleeBudget u.deadline) c.rx.arrived (settled c.behavior)
        c.behavior.emits c.events := by
  obtain ⟨state, behavior, timer, await, rx, closed, sent, events⟩ := c
  cases behavior <;>
    simp [ChanCallee.onSubmit, Setup.submit, CalleeBehavior.emits, ChanCallee.sendSteps,
      calleeStep, calleeLoopTop_eq, calleeMoved, settled, CalleeState.isTerminal]

/-- The callee's timer: the outcome, the message and the event. -/
theorem onTimer_eq {c : ChanCallee} (h : c.state.isTerminal = false) :
    c.onTimer = calleeMoved c c.callTimer c.rx.arrived (.terminal (.failed .deadlineExceeded))
      [.failed .deadlineExceeded] (c.events ++ [TimerEvent.calleeDeadlineFired]) := by
  rw [ChanCallee.onTimer, calleeStep_timeout h]
  rfl

/-- A message the callee may receive: the state of the table, and its reply. -/
theorem onRecv_eq {c : ChanCallee} {m : Message} {st : Step CalleeState}
    (h : calleeStep c.state (.recv m) = .ok st) :
    c.onRecv m = calleeMoved c c.callTimer c.rx.arrived st.state st.emit.toList c.events := by
  rw [ChanCallee.onRecv, h]
  exact calleeLoopTop_eq _

/-- What the callee sends arrives behind what is on its way. -/
theorem arrives_append {c d d' : CallerState} {q new : List Message} (h : arrives c q = some d)
    (hnew : arrives d new = some d') : arrives c (q ++ new) = some d' :=
  (drain_append new h).trans hnew

/-- In its loop the callee has logged nothing, and the caller runs. -/
theorem Inv.calleeInLoop {u : Setup} {s : TimedCall} (h : Inv u s)
    (hawait : s.callee.await = .select) (hlive : s.callee.state.isTerminal = false) :
    calleeView s.callee = some s.callee.state ∧ s.callee.events = [] ∧
      s.caller.task = .running := by
  have hview : calleeView s.callee = some s.callee.state := by rw [calleeView, hawait]
  have hopen : ∀ o, calleeView s.callee ≠ some (.terminal o) := by
    intro o ho
    rw [hview] at ho
    rw [Option.some.inj ho] at hlive
    cases hlive
  refine ⟨hview, ?_, (h.callerRunning hopen).1⟩
  rcases h.fired with hnone | hfired
  · exact hnone
  · rw [hfired] at hlive
    cases hlive

/-- The `Submit` is there: the timer starts, and the behavior emits what it emits. -/
theorem calleeMove_submit {u : Setup} {s : TimedCall} (h : Inv u s)
    (hawait : s.callee.await = .submit) (hstate : s.callee.state = .offered)
    (hnow : s.now ≤ u.submitAt) {rest : List Message}
    (harrived : s.callee.rx.arrived = u.submit :: rest) :
    CalleeMove u s (s.now + calleeBudget u.deadline) rest (settled s.callee.behavior)
      s.callee.behavior.emits s.callee.events := by
  have hview : calleeView s.callee = none := by rw [calleeView, hawait]
  obtain ⟨hcaller, -, -⟩ := h.callerRunning fun o => by rw [hview]; simp
  have hgone : s.callerGone = false := by
    rw [TimedCall.callerGone, hcaller]
    rfl
  obtain ⟨d, hd, hagree⟩ := h.agree
  rw [hview, TimedCall.forCallee, harrived] at hagree
  obtain ⟨d', hd', hagree'⟩ := hagree.submitted.emits s.callee.behavior
  refine ⟨?_, ⟨d', arrives_append hd hd', hagree'⟩,
    fun _ => ⟨Nat.le_add_right _ _, Nat.add_le_add_right hnow _⟩,
    hnow.trans (Nat.le_add_right _ _), ?_, ?_, ?_⟩
  · rw [ChanCallee.poll, hawait, harrived, hgone]
    exact onSubmit_eq u _ s.now
  · -- only the behavior that completes ends here, with its `Completed` last
    cases s.callee.behavior with
    | stubComplete => exact fun _ => ⟨[.accepted], .completed [], rfl, rfl⟩
    | _ => exact fun h => by cases h
  · rcases h.fired with hnone | hfired
    · exact Or.inl hnone
    · cases hstate.symm.trans hfired
  · rw [hawait, harrived, List.length_cons]
    cases s.callee.behavior <;> simp only [CalleeBehavior.emits, settled, calleeEnd,
      awaitWeight, List.length_cons, List.length_nil] <;> omega

/-- The callee's timer fires: whatever state it is in, the call fails. -/
theorem calleeMove_deadline {u : Setup} {s : TimedCall} (h : Inv u s)
    (hawait : s.callee.await = .select) (hlive : s.callee.state.isTerminal = false)
    (hnow : s.now ≤ s.callee.callTimer) (htimer : s.callee.callTimer ≤ u.calleeBy)
    (hfire : s.callee.callTimer ≤ s.now) :
    CalleeMove u s s.callee.callTimer s.callee.rx.arrived
      (.terminal (.failed .deadlineExceeded)) [.failed .deadlineExceeded]
      (s.callee.events ++ [TimerEvent.calleeDeadlineFired]) := by
  obtain ⟨hview, -, -⟩ := h.calleeInLoop hawait hlive
  obtain ⟨d, hd, hagree⟩ := h.agree
  rw [hview] at hagree
  obtain ⟨d', hd', hagree'⟩ := hagree.fails hlive .deadlineExceeded
  refine ⟨?_, ⟨d', arrives_append hd hd', hagree'⟩, fun h => (by cases h), hnow.trans htimer,
    fun _ => ⟨[], .failed .deadlineExceeded, rfl, rfl⟩, Or.inr rfl, ?_⟩
  · rw [ChanCallee.poll, hawait]
    dsimp only
    rw [if_pos hfire]
    exact onTimer_eq hlive
  · rw [hawait]
    simp only [calleeEnd, awaitWeight, List.length_cons, List.length_nil]
    omega

/-- A message is read: the callee goes on, or it was a `Cancel` and it says so and ends. -/
theorem calleeMove_recv {u : Setup} {s : TimedCall} (h : Inv u s)
    (hawait : s.callee.await = .select) (hlive : s.callee.state.isTerminal = false)
    (hnow : s.now ≤ s.callee.callTimer) (htimer : s.callee.callTimer ≤ u.calleeBy)
    (hfire : ¬ s.callee.callTimer ≤ s.now) (hsilent : s.callee.silent = false) {m : Message}
    {rest : List Message} (harrived : s.callee.rx.arrived = m :: rest) :
    ∃ st : Step CalleeState, CalleeMove u s s.callee.callTimer rest st.state st.emit.toList
      s.callee.events := by
  obtain ⟨hview, hquiet, -⟩ := h.calleeInLoop hawait hlive
  obtain ⟨d, hd, hagree⟩ := h.agree
  rw [hview, TimedCall.forCallee, harrived] at hagree
  obtain ⟨st, hst, ⟨d', hd', hagree'⟩, hemit⟩ := hagree.reads hlive
  refine ⟨st, ?_, ⟨d', arrives_append hd hd', hagree'⟩, fun _ => ⟨hnow, htimer⟩,
    hnow.trans htimer, ?_, Or.inl hquiet, ?_⟩
  · rw [ChanCallee.poll, hawait]
    dsimp only
    rw [if_neg hfire, hsilent, if_neg Bool.false_ne_true, harrived]
    exact onRecv_eq hst
  · intro hterminal
    rcases hemit with ⟨hstay, -⟩ | ⟨-, hout⟩
    · cases hstay.symm.trans hterminal
    · rw [hout]
      exact ⟨[], .canceled, rfl, rfl⟩
  · rw [hawait, harrived, List.length_cons]
    rcases hemit with ⟨hstay, hout⟩ | ⟨hend, hout⟩
    · rw [hout]
      cases hstate : st.state <;> rw [hstate] at hstay <;>
        simp only [calleeEnd, awaitWeight, Option.toList_none, List.length_nil] <;>
        omega
    · rw [hout, hend]
      simp only [calleeEnd, awaitWeight, Option.toList_some, List.length_cons, List.length_nil]
      omega

/-- **The callee's poll.** -/
theorem calleePoll_cases {u : Setup} {s : TimedCall} (h : Inv u s)
    (hready : calleeReady s.callee s.now = true) :
    ∃ timer rest state new events, CalleeMove u s timer rest state new events := by
  cases h.callee with
  | waiting hawait hstate hnow hnext =>
      have hview : calleeView s.callee = none := by rw [calleeView, hawait]
      obtain ⟨hcaller, -, -⟩ := h.callerRunning fun o => by rw [hview]; simp
      rcases hnext with ⟨hnil, -⟩ | ⟨rest, harrived⟩
      · -- the channel cannot have ended: the caller runs
        rw [calleeReady, hawait, hnil] at hready
        exact absurd hcaller (h.calleeEnded (by simpa using hready))
      · exact ⟨_, _, _, _, _, calleeMove_submit h hawait hstate hnow harrived⟩
  | running hawait hlive hnow htimer =>
      by_cases hfire : s.callee.callTimer ≤ s.now
      · exact ⟨_, _, _, _, _, calleeMove_deadline h hawait hlive hnow htimer hfire⟩
      -- not the timer: a message, since the caller runs and nobody notifies
      rw [calleeReady, hawait, decide_eq_false hfire, h.notNotified.2] at hready
      have hsilent : s.callee.silent = false := by
        cases hs : s.callee.silent with
        | false => rfl
        | true =>
            rw [hs] at hready
            cases hready
      cases harrived : s.callee.rx.arrived with
      | nil =>
          rw [hsilent, harrived] at hready
          exact absurd (h.calleeInLoop hawait hlive).2.2 (h.calleeEnded (by simpa using hready))
      | cons m rest =>
          obtain ⟨st, hmove⟩ := calleeMove_recv h hawait hlive hnow htimer hfire hsilent harrived
          exact ⟨_, _, _, _, _, hmove⟩
  | returned o hawait hstate harrives =>
      rw [calleeReady, hawait] at hready
      cases hready

/-! ## Every step -/

/-- How many steps the hook can still cause. -/
def hookWeight : Option Hook → Nat
  | some .waiting => 4
  | some .sent => 3
  | _ => 0

/-- A channel that is open can still be hung up. -/
def openWeight (ended : Bool) : Nat := if ended then 0 else 1

/-- What the two sides and their channels still allow to happen at one moment. -/
def workLeft (s : TimedCall) : Nat :=
  hookWeight s.caller.requestCancel + awaitWeight s.callee.await +
    (2 * s.toCallee.length + s.callee.rx.arrived.length) +
    (2 * s.toCaller.length + s.caller.rx.arrived.length) +
    (openWeight s.caller.rx.ended + openWeight s.callee.rx.ended)

/-- **The measure**: the time left to the caller's timer, and the work. -/
def weight (u : Setup) (s : TimedCall) : Nat := (u.callerBy - s.now) + workLeft s

/-- The step keeps the invariant and is paid for. -/
def Good (u : Setup) (s s' : TimedCall) : Prop := Inv u s' ∧ weight u s' < weight u s

/-- A step at one moment is paid for by work. -/
theorem good_of_work {u : Setup} {s s' : TimedCall} (h : Inv u s') (hnow : s'.now = s.now)
    (hwork : workLeft s' < workLeft s) : Good u s s' := by
  refine ⟨h, ?_⟩
  rw [weight, weight, hnow]
  exact Nat.add_lt_add_left hwork _

/-- A message arrives at the callee. -/
theorem good_deliverCallee {u : Setup} {s s' : TimedCall} (h : Inv u s)
    (he : step s .deliverCallee = some s') : Good u s s' := by
  cases hqueue : s.toCallee with
  | nil =>
      rw [step, hqueue] at he
      cases he
  | cons p rest =>
      obtain ⟨due, msg⟩ := p
      rw [step, hqueue] at he
      obtain ⟨-, he⟩ := Option.ite_none_right_eq_some.mp he
      obtain rfl := Option.some.inj he
      have hfifo := h.fifoToCallee
      rw [hqueue] at hfifo
      have hsame : (s.callee.rx.arrived ++ [msg]) ++ rest.map Prod.snd = s.forCallee := by
        rw [TimedCall.forCallee, hqueue, List.append_assoc]
        rfl
      refine good_of_work { h with callee := ?_, agree := ?_, fifoToCallee := hfifo.of_cons } rfl ?_
      · cases h.callee with
        | waiting hawait hstate hnow hnext =>
            refine .waiting hawait hstate hnow (Or.inr ?_)
            rcases hnext with ⟨hnil, rest', hhead⟩ | ⟨rest', harrived⟩
            · obtain ⟨hp, -⟩ := List.cons.inj (hqueue.symm.trans hhead)
              obtain ⟨-, rfl⟩ := Prod.mk.inj hp
              exact ⟨[], by rw [hnil]; rfl⟩
            · exact ⟨rest' ++ [msg], by rw [harrived]; rfl⟩
        | running hawait hlive hnow htimer => exact .running hawait hlive hnow htimer
        | returned o hawait hstate harrives => exact .returned o hawait hstate harrives
      · obtain ⟨d, hd, hagree⟩ := h.agree
        rw [← hsame] at hagree
        exact ⟨d, hd, hagree⟩
      · simp only [workLeft, hqueue, List.length_cons, List.length_append, List.length_nil]
        omega

/-- A message arrives at the caller. -/
theorem good_deliverCaller {u : Setup} {s s' : TimedCall} (h : Inv u s)
    (he : step s .deliverCaller = some s') : Good u s s' := by
  cases hqueue : s.toCaller with
  | nil =>
      rw [step, hqueue] at he
      cases he
  | cons p rest =>
      obtain ⟨due, msg⟩ := p
      rw [step, hqueue] at he
      obtain ⟨-, he⟩ := Option.ite_none_right_eq_some.mp he
      obtain rfl := Option.some.inj he
      have hfifo := h.fifoToCaller
      rw [hqueue] at hfifo
      have hsame : (s.caller.rx.arrived ++ [msg]) ++ rest.map Prod.snd = s.forCaller := by
        rw [TimedCall.forCaller, hqueue, List.append_assoc]
        rfl
      refine good_of_work { h with
        callee := ?_, agree := ?_, callerEnded := ?_, fifoToCaller := hfifo.of_cons } rfl ?_
      · cases h.callee with
        | waiting hawait hstate hnow hnext => exact .waiting hawait hstate hnow hnext
        | running hawait hlive hnow htimer => exact .running hawait hlive hnow htimer
        | returned o hawait hstate harrives =>
            refine .returned o hawait hstate fun p hp => harrives p ?_
            rw [hqueue]
            exact List.mem_cons_of_mem _ hp
      · obtain ⟨d, hd, hagree⟩ := h.agree
        rw [← hsame] at hd
        exact ⟨d, hd, hagree⟩
      · intro hended
        rw [(h.callerEnded hended).1] at hqueue
        cases hqueue
      · simp only [workLeft, hqueue, List.length_cons, List.length_append, List.length_nil]
        omega

/-- The callee's channel is hung up. -/
theorem good_hangUpCallee {u : Setup} {s s' : TimedCall} (h : Inv u s)
    (he : step s .hangUpCallee = some s') : Good u s s' := by
  obtain ⟨⟨hgone, -, hended⟩, he⟩ := Option.ite_none_right_eq_some.mp he
  obtain rfl := Option.some.inj he
  refine good_of_work { h with calleeEnded := fun _ hrunning => ?_ } rfl ?_
  · rw [TimedCall.callerGone, show s.caller.task = .running from hrunning] at hgone
    cases hgone
  · simp only [workLeft, hended, openWeight, if_true, Bool.false_eq_true, if_false]
    omega

/-- The caller's channel is hung up. -/
theorem good_hangUpCaller {u : Setup} {s s' : TimedCall} (h : Inv u s)
    (he : step s .hangUpCaller = some s') : Good u s s' := by
  cases hawait : s.callee.await with
  | submit | select =>
      rw [step, hawait] at he
      cases he
  | returned r =>
      rw [step, hawait] at he
      obtain ⟨⟨hempty, hended⟩, he⟩ := Option.ite_none_right_eq_some.mp he
      obtain rfl := Option.some.inj he
      refine good_of_work { h with callerEnded := fun _ => ⟨hempty, ?_⟩ } rfl ?_
      · cases h.callee with
        | waiting hawait' _ _ _ => cases hawait.symm.trans hawait'
        | running hawait' _ _ _ => cases hawait.symm.trans hawait'
        | returned o _ hstate _ =>
            refine ⟨o, ?_⟩
            rw [calleeView, hawait, ← hstate]
      · simp only [workLeft, hended, openWeight, if_true, Bool.false_eq_true, if_false]
        omega

/-- The hook is used. -/
theorem good_useHook {u : Setup} {s s' : TimedCall} (h : Inv u s)
    (he : step s .useHook = some s') : Good u s s' := by
  obtain ⟨hwaiting, he⟩ := Option.ite_none_right_eq_some.mp he
  obtain rfl := Option.some.inj he
  refine good_of_work { h with hook := Or.inr ⟨Or.inr rfl, ?_⟩ } rfl ?_
  · rcases h.hook with hnone | ⟨-, hstate⟩
    · cases hwaiting.symm.trans hnone
    · exact hstate
  · simp only [workLeft, hwaiting, hookWeight]
    omega

/-- Before its timer a caller is running, or has returned its outcome. -/
theorem callerPhase_end {u : Setup} {now : Nanos} (h : now < u.callerBy) (c : CallerState) :
    CallerPhase u now (callerEnd c) c := by
  cases c with
  | terminal o => exact .returned o rfl rfl
  | _ => exact .running rfl rfl h

/-- New messages go behind those in flight, as they were sent and as they arrive. -/
theorem map_snd_append_zip {queue : InFlight} {arrivals : List Nanos} {new : List Message}
    (h : arrivals.length = new.length) :
    (queue ++ arrivals.zip new).map Prod.snd = queue.map Prod.snd ++ new := by
  rw [List.map_append, List.map_snd_zip h.ge]

/-- And so do their times. -/
theorem map_fst_append_zip {queue : InFlight} {arrivals : List Nanos} {new : List Message}
    (h : arrivals.length = new.length) :
    (queue ++ arrivals.zip new).map Prod.fst = queue.map Prod.fst ++ arrivals := by
  rw [List.map_append, List.map_fst_zip h.le]

/-- The caller takes a message off its channel, and sends nothing. -/
theorem good_callerTook {u : Setup} {s : TimedCall} {m : Message} {rest : List Message}
    {c : CallerState} (h : Inv u s) (hready : callerReady s.caller s.now = true)
    (harrived : s.caller.rx.arrived = m :: rest) (hm : takes s.caller.state m = some c) :
    Good u s { s with caller := callerTook s.caller rest c } := by
  obtain ⟨htask, hlive, hnow⟩ := h.running_of_ready hready
  obtain ⟨d, hd, hagree⟩ := h.agree
  have hrest : arrives c (rest ++ s.toCaller.map Prod.snd) = some d := by
    rw [TimedCall.forCaller, harrived] at hd
    obtain ⟨c', hm', hd'⟩ := drain_head hlive hd
    obtain rfl := Option.some.inj (hm.symm.trans hm')
    exact hd'
  refine good_of_work { h with
    caller := callerPhase_end hnow c
    hook := ?_
    agree := ⟨d, hrest, hagree⟩
    calleeEnded := fun hended => absurd htask (h.calleeEnded hended) } rfl ?_
  · rcases h.hook with hnone | ⟨hhook, hstate⟩
    · exact Or.inl hnone
    · have hone : arrives s.caller.state [m] = some c := by
        show drain CallerState.isTerminal takes s.caller.state [m] = some c
        rw [drain_cons hlive, hm]
        rfl
      exact Or.inr ⟨hhook, arrives_uncanceled hstate hone⟩
  · simp only [workLeft, callerTook, harrived, List.length_cons]
    omega

/-- The caller uses its hook, and its `Cancel` goes behind what is on its way. -/
theorem good_callerCanceled {u : Setup} {s : TimedCall} {arrivals : List Nanos} (h : Inv u s)
    (hready : callerReady s.caller s.now = true)
    (hsent : s.caller.requestCancel = some .sent) (hlen : arrivals.length = [Message.cancel].length)
    (hfifo : (s.toCallee.map Prod.fst ++ arrivals).Pairwise (· ≤ ·)) :
    Good u s { s with
      caller := callerCanceled s.caller
      toCallee := s.toCallee ++ arrivals.zip [.cancel] } := by
  obtain ⟨htask, hlive, hnow⟩ := h.running_of_ready hready
  obtain ⟨d, hd, hagree⟩ := h.agree
  have hstate : s.caller.state ≠ .dialing ∧ s.caller.state ≠ .canceling := by
    rcases h.hook with hnone | ⟨-, hstate⟩
    · cases hsent.symm.trans hnone
    · exact hstate
  have hagree' := hagree.cancel (arrives_uncanceled hstate hd)
  rw [TimedCall.forCallee, List.append_assoc, ← map_snd_append_zip hlen] at hagree'
  rw [← map_fst_append_zip hlen] at hfifo
  refine good_of_work { h with
    caller := .running htask rfl hnow
    callee := ?_
    hook := Or.inl rfl
    agree := ⟨_, arrives_cancel hlive hd, hagree'⟩
    calleeEnded := fun hended => absurd htask (h.calleeEnded hended)
    fifoToCallee := hfifo } rfl ?_
  · cases h.callee with
    | waiting hawait hstate hnow hnext =>
        refine .waiting hawait hstate hnow ?_
        rcases hnext with ⟨hnil, rest, hqueue⟩ | hqueue
        · exact Or.inl ⟨hnil, rest ++ arrivals.zip [.cancel], by rw [hqueue]; rfl⟩
        · exact Or.inr hqueue
    | running hawait hlive hnow htimer => exact .running hawait hlive hnow htimer
    | returned o hawait hstate harrives => exact .returned o hawait hstate harrives
  · simp only [workLeft, callerCanceled, hsent, hookWeight, List.length_append,
      List.length_zip, hlen, List.length_cons, List.length_nil]
    omega

/-- The caller is polled. -/
theorem good_pollCaller {u : Setup} {s s' : TimedCall} {arrivals : List Nanos} (h : Inv u s)
    (he : step s (.pollCaller arrivals) = some s') : Good u s s' := by
  obtain ⟨⟨hready, hlen, hearly, hfifo⟩, he⟩ := Option.ite_none_right_eq_some.mp he
  obtain rfl := Option.some.inj he
  rcases callerPoll_cases h hready with ⟨m, rest, c, harrived, hm, hpoll⟩ | ⟨hsent, hpoll⟩
  · have hnone : s.callerSends = [] := by
      rw [TimedCall.callerSends, hpoll]
      exact List.drop_length
    rw [hnone, List.zip_nil_right, List.append_nil, hpoll]
    exact good_callerTook h hready harrived hm
  · have hcancel : s.callerSends = [.cancel] := by
      rw [TimedCall.callerSends, hpoll]
      exact List.drop_left
    rw [hcancel] at hlen ⊢
    rw [hpoll]
    exact good_callerCanceled h hready hsent hlen hfifo

/-- A callee that has moved is seen in the state it moved to. -/
theorem calleeView_moved (c : ChanCallee) (timer : Nanos) (rest : List Message)
    (state : CalleeState) (new : List Message) (events : List TimerEvent) :
    calleeView (calleeMoved c timer rest state new events) = some state := by
  cases state <;> rfl

/-- The callee's timer fires before the caller's. -/
theorem Setup.calleeBy_lt {u : Setup} (h : u.submitDelay < millis graceMs) :
    u.calleeBy < u.callerBy := by
  have hlt : ∀ a b d g : Nat, a + d = b + g → d < g → b < a := by omega
  exact hlt _ _ _ _ u.callerBy_eq h

/-- The last message of the callee comes in time, and those before it with it. -/
theorem inTime_of_prompt {u : Setup} {now : Nanos} {queue : InFlight} {arrivals : List Nanos}
    {before : List Message} {m : Message} (hby : now ≤ u.calleeBy)
    (hschedule : Scheduled now queue arrivals (before ++ [m])) (hm : endsCall m = true)
    (hprompt : ∀ p ∈ arrivals.zip (before ++ [m]), endsCall p.2 = true →
      u.submitDelay + (p.1 - now) < millis graceMs) :
    ∀ p ∈ queue ++ arrivals.zip (before ++ [m]), p.1 < u.callerBy := by
  obtain ⟨hlen, hearly, hfifo⟩ := hschedule
  rcases List.eq_nil_or_concat' arrivals with rfl | ⟨early, a, rfl⟩
  · rw [List.length_append, List.length_singleton] at hlen
    cases hlen
  · have hlen' : early.length = before.length := by
      rw [List.length_append, List.length_append] at hlen
      exact Nat.add_right_cancel hlen
    have hlast : (a, m) ∈ (early ++ [a]).zip (before ++ [m]) := by
      rw [List.zip_append hlen']
      exact List.mem_append_right _ List.mem_cons_self
    have ha : a < u.callerBy := lt_of_prompt (hearly a (List.mem_append_right _ List.mem_cons_self))
      hby u.callerBy_eq (hprompt _ hlast hm)
    intro p hp
    rw [← List.append_assoc] at hfifo
    refine lt_of_le_of_lt (le_last hfifo p.1 ?_) ha
    rw [List.append_assoc, ← map_fst_append_zip hlen]
    exact List.mem_map_of_mem hp

/-- The callee is polled; what it says last comes in time. -/
theorem good_pollCallee {u : Setup} {s s' : TimedCall} {arrivals : List Nanos} (h : Inv u s)
    (hprompt : Prompt u.submitDelay s (.pollCallee arrivals))
    (he : step s (.pollCallee arrivals) = some s') : Good u s s' := by
  obtain ⟨⟨hready, hschedule⟩, he⟩ := Option.ite_none_right_eq_some.mp he
  obtain rfl := Option.some.inj he
  obtain ⟨timer, rest, state, new, events, hmove⟩ := calleePoll_cases h hready
  have hsends : s.calleeSends = new := by
    rw [TimedCall.calleeSends, hmove.poll]
    exact List.drop_left
  rw [Prompt, hsends] at hprompt
  rw [hsends] at hschedule ⊢
  rw [hmove.poll]
  have hlen := hschedule.1
  obtain ⟨d, hd, hagree⟩ := hmove.agree
  rw [← calleeView_moved s.callee timer rest state new events] at hagree
  have hforCaller : s.caller.rx.arrived ++ (s.toCaller ++ arrivals.zip new).map Prod.snd =
      s.forCaller ++ new := by
    rw [map_snd_append_zip hlen, ← List.append_assoc]
    rfl
  refine good_of_work { h with
    callee := ?_
    agree := ⟨d, by rw [← hforCaller] at hd; exact hd, hagree⟩
    callerEnded := ?_
    fired := hmove.fired
    fifoToCaller := by rw [map_fst_append_zip hlen]; exact hschedule.2.2 } rfl ?_
  · cases hstate : state with
    | terminal o =>
        obtain ⟨before, m, rfl, hm⟩ := hmove.last (by rw [hstate]; rfl)
        exact .returned o rfl rfl (inTime_of_prompt hmove.inTime hschedule hm hprompt)
    | _ =>
        obtain ⟨hnow, htimer⟩ := hmove.timer (by rw [hstate]; rfl)
        exact .running rfl rfl hnow htimer
  · intro hended
    obtain ⟨-, o, hview⟩ := h.callerEnded hended
    exact absurd hview (h.live_of_ready hready o)
  · have hweight := hmove.weight
    simp only [workLeft, calleeMoved, List.length_append, List.length_zip, hlen, min_self]
    omega

/-- A caller that has returned has been joined. -/
theorem Inv.running_of_not_joined {u : Setup} {s : TimedCall} (h : Inv u s)
    (hjoined : s.joined.isNone = true) :
    s.caller.task = .running ∧ s.caller.state.isTerminal = false ∧ s.now < u.callerBy := by
  cases h.caller with
  | running htask hlive hnow => exact ⟨htask, hlive, hnow⟩
  | returned o htask hstate =>
      obtain ⟨hawait, -⟩ := h.await_of_view (h.calleeReturned hstate)
      rw [TimedCall.joined, htask, hawait] at hjoined
      cases hjoined

/-- **The clock.**  While the caller runs, something happens before its timer. -/
theorem good_advance {u : Setup} {s s' : TimedCall} {now : Nanos} (h : Inv u s)
    (hdelay : u.submitDelay < millis graceMs) (he : step s (.advance now) = some s') :
    Good u s s' := by
  obtain ⟨⟨hjoined, hlater, hcaller, hcallee, hwake⟩, he⟩ := Option.ite_none_right_eq_some.mp he
  obtain rfl := Option.some.inj he
  obtain ⟨htask, hlive, hnow⟩ := h.running_of_not_joined hjoined
  have hby := Setup.calleeBy_lt hdelay
  rw [callerReady, htask] at hcaller
  have hnone : s.caller.rx.arrived = [] := by
    cases harrived : s.caller.rx.arrived with
    | nil => rfl
    | cons m rest =>
        rw [harrived] at hcaller
        simp [isRunning] at hcaller
  have hphase : now < u.callerBy ∧ CalleePhase u now s.callee.await s.callee.state
      s.callee.callTimer s.callee.rx.arrived s.toCallee s.toCaller := by
    cases h.callee with
    | waiting hawait hstate _ hnext =>
        -- the `Submit` has not arrived, and the clock stops when it does
        rcases hnext with ⟨hnil, rest, hqueue⟩ | ⟨rest, harrived⟩
        · have hle : now ≤ u.submitAt := by
            refine hwake u.submitAt ?_
            rw [TimedCall.wakeUps, hqueue]
            simp
          exact ⟨lt_of_le_of_lt (hle.trans (Nat.le_add_right _ _)) hby,
            .waiting hawait hstate hle (Or.inl ⟨hnil, rest, hqueue⟩)⟩
        · rw [calleeReady, hawait, harrived] at hcallee
          cases hcallee
    | running hawait hlive' _ htimer =>
        have hle : now ≤ s.callee.callTimer := by
          refine hwake s.callee.callTimer ?_
          rw [TimedCall.wakeUps, hawait]
          simp
        exact ⟨lt_of_le_of_lt (hle.trans htimer) hby, .running hawait hlive' hle htimer⟩
    | returned o hawait hstate harrives =>
        -- the verdict is on its way
        cases hqueue : s.toCaller with
        | nil =>
            have hempty : s.forCaller = [] := by
              rw [TimedCall.forCaller, hnone, hqueue]
              rfl
            have hview : calleeView s.callee = some (.terminal o) := by
              rw [calleeView, hawait, ← hstate]
            exact absurd hview (h.calleeLive hlive hempty o)
        | cons p rest =>
            rw [hqueue] at harrives
            have hle : now ≤ p.1 := by
              refine hwake p.1 ?_
              rw [TimedCall.wakeUps, hqueue]
              simp
            exact ⟨lt_of_le_of_lt hle (harrives p List.mem_cons_self),
              .returned o hawait hstate harrives⟩
  refine ⟨{ h with caller := .running htask hlive hphase.1, callee := hphase.2 }, ?_⟩
  have hpaid : ∀ a b c w : Nat, a < b → a < c → c - b + w < c - a + w := by omega
  exact hpaid _ _ _ _ hlater hnow

/-- **Step lemma.**  On a prompt network every step keeps the invariant and is paid for. -/
theorem step_good {u : Setup} (hdelay : u.submitDelay < millis graceMs) {s s' : TimedCall}
    {e : Ev} (h : Inv u s) (hprompt : Prompt u.submitDelay s e) (he : step s e = some s') :
    Good u s s' := by
  cases e with
  | deliverCallee => exact good_deliverCallee h he
  | deliverCaller => exact good_deliverCaller h he
  | hangUpCallee => exact good_hangUpCallee h he
  | hangUpCaller => exact good_hangUpCaller h he
  | useHook => exact good_useHook h he
  | pollCaller arrivals => exact good_pollCaller h he
  | pollCallee arrivals => exact good_pollCallee h hprompt he
  | advance now => exact good_advance h hdelay he

/-! ## Runs -/

/-- The invariant holds of the start. -/
theorem inv_started {u : Setup} (hhook : u.requestCancel = none ∨ u.requestCancel = some .waiting)
    (hdelay : u.submitDelay < millis graceMs) : Inv u (started u) := by
  have hby : u.now ≤ u.calleeBy := (Nat.le_add_right _ _).trans (Nat.le_add_right _ _)
  exact {
    caller := .running rfl rfl (lt_of_le_of_lt hby (Setup.calleeBy_lt hdelay))
    callee := .waiting rfl rfl (Nat.le_add_right _ _) (Or.inl ⟨rfl, [], rfl⟩)
    callTimer := rfl
    hook := by
      rcases hhook with hnone | hwaiting
      · exact Or.inl hnone
      · exact Or.inr ⟨Or.inl hwaiting, (by simp [started]), (by simp [started])⟩
    agree := ⟨.submitted, rfl, .submitted _ _ _ _ _, fun o => ⟨fun h => (by cases h),
      fun h => (by cases h)⟩⟩
    callerEnded := fun h => (by cases h)
    calleeEnded := fun h => (by cases h)
    notNotified := ⟨rfl, rfl⟩
    noGrace := rfl
    fired := Or.inl rfl
    fifoToCallee := List.pairwise_singleton _ _
    fifoToCaller := List.Pairwise.nil }

/-- There is always a time late enough. -/
theorem exists_scheduled {queue : InFlight} (h : (queue.map Prod.fst).Pairwise (· ≤ ·))
    (now : Nanos) (new : List Message) : ∃ arrivals, Scheduled now queue arrivals new := by
  obtain ⟨late, hnow, hqueue⟩ : ∃ late, now ≤ late ∧ ∀ a ∈ queue.map Prod.fst, a ≤ late := by
    induction queue with
    | nil => exact ⟨now, le_rfl, fun a ha => absurd ha List.not_mem_nil⟩
    | cons p queue ih =>
        obtain ⟨late, hnow, hqueue⟩ := ih h.of_cons
        refine ⟨max late p.1, hnow.trans (le_max_left _ _), ?_⟩
        rw [List.map_cons, List.forall_mem_cons]
        exact ⟨le_max_right _ _, fun a ha => (hqueue a ha).trans (le_max_left _ _)⟩
  refine ⟨List.replicate new.length late, List.length_replicate, ?_, ?_⟩
  · intro a ha
    rw [List.eq_of_mem_replicate ha]
    exact hnow
  · refine List.pairwise_append.mpr ⟨h, List.pairwise_replicate.mpr (Or.inr le_rfl), ?_⟩
    intro a ha b hb
    rw [List.eq_of_mem_replicate hb]
    exact hqueue a ha

/-- **Progress.**  Until the call has returned, something other than a use of the hook can
    happen. -/
theorem exists_step {u : Setup} {s : TimedCall} (h : Inv u s) (hjoined : s.joined.isNone = true) :
    ∃ e s', e ≠ .useHook ∧ step s e = some s' := by
  obtain ⟨htask, hlive, hnow⟩ := h.running_of_not_joined hjoined
  by_cases hcaller : callerReady s.caller s.now = true
  · obtain ⟨arrivals, hschedule⟩ := exists_scheduled h.fifoToCallee s.now s.callerSends
    exact ⟨.pollCaller arrivals, _, (by simp), if_pos ⟨hcaller, hschedule⟩⟩
  by_cases hcallee : calleeReady s.callee s.now = true
  · obtain ⟨arrivals, hschedule⟩ := exists_scheduled h.fifoToCaller s.now s.calleeSends
    exact ⟨.pollCallee arrivals, _, (by simp), if_pos ⟨hcallee, hschedule⟩⟩
  by_cases hdueCallee : ∃ p rest, s.toCallee = p :: rest ∧ p.1 ≤ s.now
  · obtain ⟨⟨due, msg⟩, rest, hqueue, hdue⟩ := hdueCallee
    obtain ⟨s', he⟩ : ∃ s', step s .deliverCallee = some s' := by
      rw [step, hqueue]
      exact ⟨_, if_pos hdue⟩
    exact ⟨.deliverCallee, s', (by simp), he⟩
  by_cases hdueCaller : ∃ p rest, s.toCaller = p :: rest ∧ p.1 ≤ s.now
  · obtain ⟨⟨due, msg⟩, rest, hqueue, hdue⟩ := hdueCaller
    obtain ⟨s', he⟩ : ∃ s', step s .deliverCaller = some s' := by
      rw [step, hqueue]
      exact ⟨_, if_pos hdue⟩
    exact ⟨.deliverCaller, s', (by simp), he⟩
  -- nothing is left to do now: every wake-up is ahead
  have hhead : ∀ (queue : InFlight), (¬ ∃ p rest, queue = p :: rest ∧ p.1 ≤ s.now) →
      ∀ due ∈ (queue.take 1).map Prod.fst, s.now + 1 ≤ due := by
    intro queue hnone due hmem
    cases queue with
    | nil => exact absurd hmem List.not_mem_nil
    | cons p rest =>
        obtain rfl := List.mem_singleton.mp hmem
        exact Nat.lt_of_not_le fun hle => hnone ⟨p, rest, rfl, hle⟩
  have hwake : ∀ due ∈ s.wakeUps, s.now + 1 ≤ due := by
    intro due hdue
    rw [TimedCall.wakeUps, List.mem_append, List.mem_append, List.mem_append] at hdue
    rcases hdue with ((hdue | hdue) | hdue) | hdue
    · exact hhead _ hdueCallee due hdue
    · exact hhead _ hdueCaller due hdue
    · rw [htask] at hdue
      obtain rfl := List.mem_singleton.mp hdue
      rw [h.callTimer]
      exact hnow
    · cases hawait : s.callee.await with
      | submit | returned r =>
          rw [hawait] at hdue
          exact absurd hdue List.not_mem_nil
      | select =>
          rw [hawait] at hdue
          obtain rfl := List.mem_singleton.mp hdue
          refine Nat.lt_of_not_le fun hfire => hcallee ?_
          rw [calleeReady, hawait, decide_eq_true hfire]
          rfl
  exact ⟨.advance (s.now + 1), _, (by simp), if_pos ⟨hjoined, Nat.lt_succ_self _,
    Bool.eq_false_of_not_eq_true hcaller, Bool.eq_false_of_not_eq_true hcallee, hwake⟩⟩

/-- The caller's timer has not fired, neither side met an illegal step, and if the call has
    returned, then one outcome for both sides. -/
structure Wins (s : TimedCall) : Prop where
  noGrace : TimerEvent.callerGraceFired ∉ s.caller.events
  callerLegal : ∀ err, s.caller.task ≠ .returned (.error err)
  callerAlive : s.caller.task ≠ .panicked
  calleeLegal : ∀ err, s.callee.await ≠ .returned (.error err)
  joined : ∀ result, s.joined = some result → ∃ o, result = .ok (o, o) ∧
    (TimerEvent.calleeDeadlineFired ∈ s.callee.events → o = .failed .deadlineExceeded)

/-- Under the invariant the callee's deadline wins. -/
theorem Inv.wins {u : Setup} {s : TimedCall} (h : Inv u s) : Wins s where
  noGrace := by
    rw [h.noGrace]
    exact List.not_mem_nil
  callerLegal err herr := by
    cases h.caller with
    | running htask _ _ => cases htask.symm.trans herr
    | returned o htask _ => cases htask.symm.trans herr
  callerAlive hpanic := by
    cases h.caller with
    | running htask _ _ => cases htask.symm.trans hpanic
    | returned o htask _ => cases htask.symm.trans hpanic
  calleeLegal err herr := by
    cases h.callee with
    | waiting hawait _ _ _ => cases hawait.symm.trans herr
    | running hawait _ _ _ => cases hawait.symm.trans herr
    | returned o hawait _ _ => cases hawait.symm.trans herr
  joined result hresult := by
    cases h.caller with
    | running htask _ _ =>
        rw [TimedCall.joined, htask] at hresult
        cases hresult
    | returned o htask hstate =>
        obtain ⟨hawait, hstate'⟩ := h.await_of_view (h.calleeReturned hstate)
        rw [TimedCall.joined, htask, hawait] at hresult
        refine ⟨o, (Option.some.inj hresult).symm, fun hfired => ?_⟩
        rcases h.fired with hnone | hfailed
        · rw [hnone] at hfired
          exact absurd hfired List.not_mem_nil
        · exact CalleeState.terminal.inj (hstate'.symm.trans hfailed)

/-- **CALLEE DEADLINE WINS.**  For every setup whose hook is not dropped, and every network on
    which the `Submit` and the callee's last message together take less than the grace: runs
    are bounded; in no state has the caller's timer fired or a step been illegal; and when
    nothing but a use of the hook could follow, the call has returned one outcome for both
    sides, which is the missed deadline if the callee's timer fired. -/
theorem callee_deadline_wins (u : Setup)
    (hhook : u.requestCancel = none ∨ u.requestCancel = some .waiting)
    (hdelay : u.submitDelay < millis graceMs) :
    ∃ s₀, start u = .ok s₀ ∧ ∃ bound, ∀ es s, EveryStep step (Prompt u.submitDelay) s₀ es →
      runFrom step s₀ es = some s → es.length ≤ bound ∧ Wins s ∧
        ((∀ e, e ≠ .useHook → step s e = none) → ∃ o, s.joined = some (.ok (o, o))) := by
  refine ⟨started u, start_eq u, weight u (started u), fun es s hprompt hrun => ?_⟩
  have hinv := inv_started hhook hdelay
  have hgood : ∀ s e s', Inv u s → Prompt u.submitDelay s e → step s e = some s' → Good u s s' :=
    fun s e s' h hp he => step_good hdelay h hp he
  have hs : Inv u s := run_invariant_of (fun s e s' h hp he => (hgood s e s' h hp he).1) es _ s
    hinv hprompt hrun
  have hlength := run_length_le hgood es _ s hinv hprompt hrun
  refine ⟨(Nat.le_add_right _ _).trans hlength, hs.wins, fun hstuck => ?_⟩
  cases hjoined : s.joined with
  | none =>
      obtain ⟨e, s', hne, he⟩ := exists_step hs (by rw [hjoined]; rfl)
      cases (hstuck e hne).symm.trans he
  | some result =>
      obtain ⟨o, rfl, -⟩ := hs.wins.joined result hjoined
      exact ⟨o, rfl⟩

end

section

attribute [local instance] urlSafeNoPad

/-- A callee that accepts and hangs; the `Submit` takes two milliseconds. -/
def hangs : Setup :=
  ⟨taskOne, oneSecond, plain, none, [], .hangAfterAccept, none, 0, 2000000⟩

/-- The `Accepted` takes a second, and so does the callee's `Failed`. -/
def missedDeadline : List Ev :=
  [.advance 2000000, .deliverCallee, .pollCallee [1002000000], .advance 1002000000,
    .deliverCaller, .pollCaller [], .pollCallee [2002000000], .advance 2002000000,
    .deliverCaller, .pollCaller []]

theorem callee_deadline_wins_missedDeadline :
    ∃ s₀ s, start hangs = .ok s₀ ∧ runFrom step s₀ missedDeadline = some s ∧ Wins s ∧
      s.joined = some (.ok (.failed .deadlineExceeded, .failed .deadlineExceeded)) := by
  obtain ⟨s₀, hstart, bound, hall⟩ := callee_deadline_wins hangs (Or.inl rfl) (by decide +kernel)
  obtain rfl := Except.ok.inj ((start_eq hangs).symm.trans hstart)
  have hjoined : (runFrom step (started hangs) missedDeadline).map TimedCall.joined =
      some (some (.ok (.failed .deadlineExceeded, .failed .deadlineExceeded))) := by
    decide +kernel
  obtain ⟨s, hrun, hs⟩ := Option.map_eq_some_iff.mp hjoined
  obtain ⟨-, hwins, -⟩ := hall missedDeadline s (by decide +kernel) hrun
  exact ⟨_, s, rfl, hrun, hwins, hs⟩

end

end UatCalleeWins
