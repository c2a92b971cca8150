import Uat.ChanCall

/-! # A cancel hook that is dropped unused

    `request_cancel` is a `oneshot::Receiver` that both caller loops poll again on every
    turn.  It resolves in two ways: its sender is used, or its sender is dropped.  The loops
    clear it on the first way only, so after a drop the next turn polls a receiver that has
    resolved, and that panics.

    * **`Blind`** — a function that neither looks at the hook nor writes a `Cancel`.
    * **`loop_inert_iff`**, **`chan_inert_iff`** — the hook is inert in exactly the runs in
      which no poll reaches the receiver after its sender is gone. -/

namespace UatUnusedHook

open UatTypes UatState UatHeader UatStream UatRecvStream UatRecord Checked StepRun
open UatAttenuation (plainText)
open UatCallerLoop (remote)

/-! ## `caller_loop` -/

section

open UatCallerLoop

/-- The sender is alive or gone, and was not used. -/
def Unused (h : Option Hook) : Prop := h = some .waiting ∨ h = some .dropped

/-- A hook that is unused has not been polled since its sender went. -/
theorem Unused.ne_resolved {h : Option Hook} (hunused : Unused h) : h ≠ some .resolved := by
  rintro rfl
  rcases hunused with hw | hd
  · cases hw
  · cases hd

variable [Base64Engine]

/-- The caller with another hook. -/
def hooked (h : Option Hook) (c : Caller) : Caller := { c with requestCancel := h }

/-- A loop that runs has not ended its call. -/
def Live (c : Caller) : Prop := c.await.running = true → c.state.isTerminal = false

/-- The function does not look at the hook, and begins no `Cancel`. -/
structure Blind (f : Caller → Caller) : Prop where
  hook : ∀ h c, f (hooked h c) = hooked h (f c)
  noCancel : ∀ c, (f c).await ≠ .writeCancel
  live : ∀ c, c.state.isTerminal = false → Live (f c)

/-- A function that does not look at the hook does not change it either. -/
theorem Blind.requestCancel {f : Caller → Caller} (h : Blind f) (c : Caller) :
    (f c).requestCancel = c.requestCancel := by
  have hsame : f c = hooked c.requestCancel (f c) := h.hook c.requestCancel c
  rw [hsame]
  rfl

/-- A loop that has stopped owes nothing. -/
theorem live_of_stopped {c : Caller} (h : c.await.running = false) : Live c := by
  intro hrun
  cases h.symm.trans hrun

theorem ret_blind (r : Except CallError Outcome) : Blind fun c => c.ret r where
  hook _ _ := rfl
  noCancel _ h := by cases h
  live _ _ := live_of_stopped rfl

/-- Past its head the loop runs only with an open call. -/
theorem loopTop_live (c : Caller) : Live c.loopTop := by
  rw [Caller.loopTop]
  cases hc : c.state with
  | terminal o => exact live_of_stopped rfl
  | _ =>
      intro _
      rfl

/-- The head of the loop looks at the state alone. -/
theorem loopTop_blind : Blind Caller.loopTop where
  hook h c := by
    obtain ⟨task, state, _⟩ := c
    cases state <;> rfl
  noCancel c := by
    rw [Caller.loopTop]
    cases c.state <;> intro h <;> cases h
  live c _ := loopTop_live c

/-- A blind function after a change of other fields. -/
theorem Blind.after {f g : Caller → Caller} (h : Blind f)
    (hhook : ∀ k c, g (hooked k c) = hooked k (g c))
    (hlive : ∀ c, c.state.isTerminal = false → (g c).state.isTerminal = false) :
    Blind fun c => f (g c) where
  hook k c := by rw [hhook, h.hook]
  noCancel c := h.noCancel (g c)
  live c hc := h.live (g c) (hlive c hc)

/-- A frame error ends the loop whatever the hook is. -/
theorem closeOnFrameErr_ret_blind (err : FrameIoError) (r : Except CallError Outcome) :
    Blind fun c => (c.closeOnFrameErr err).ret r := by
  refine (ret_blind r).after (fun k c => ?_) (fun c hc => ?_)
  · rw [Caller.closeOnFrameErr, Caller.closeOnFrameErr]
    cases err.closeCode <;> rfl
  · rw [Caller.closeOnFrameErr]
    cases err.closeCode <;> exact hc

theorem writeFailed_blind (err : CallError) : Blind fun c => c.writeFailed err := by
  cases err with
  | frame fe => exact closeOnFrameErr_ret_blind fe _
  | _ => exact ret_blind _

/-- Behind the `Submit` the hook is not looked at before the first select. -/
theorem submitWritten_blind (w : WriteEnd) : Blind fun c => c.submitWritten w where
  hook h c := by
    simp only [Caller.submitWritten]
    have hrate : (hooked h c).rateLimited = c.rateLimited := rfl
    rw [hrate]
    cases w.result with
    | error err =>
        dsimp only
        split
        · rfl
        · exact (writeFailed_blind err).hook h c
    | ok _ =>
        dsimp only
        split
        · rfl
        · exact loopTop_blind.hook h { c with record := c.record.setTask c.task }
  noCancel c := by
    rw [Caller.submitWritten]
    cases w.result with
    | error err =>
        dsimp only
        split
        · exact (ret_blind _).noCancel _
        · exact (writeFailed_blind err).noCancel c
    | ok _ =>
        dsimp only
        split
        · exact (ret_blind _).noCancel _
        · exact loopTop_blind.noCancel _
  live c hc := by
    rw [Caller.submitWritten]
    cases w.result with
    | error err =>
        dsimp only
        split
        · exact live_of_stopped rfl
        · exact (writeFailed_blind err).live c hc
    | ok _ =>
        dsimp only
        split
        · exact live_of_stopped rfl
        · exact loopTop_live _

theorem connLost_blind (code : CloseCode) : Blind fun c => c.connLost code where
  hook h c := by
    simp only [Caller.connLost, hooked]
    cases callerStep c.state (.connLost code) with
    | error _ => rfl
    | ok st =>
        dsimp only
        cases st.state <;> rfl
  noCancel c := by
    have hstop := (connLost_quiet c code).2
    intro h
    rw [h] at hstop
    cases hstop
  live c _ := live_of_stopped (connLost_quiet c code).2

theorem onTimer_blind : Blind Caller.onTimer where
  hook h c := by
    simp only [Caller.onTimer, hooked]
    cases callerStep c.state .timeout with
    | error _ => rfl
    | ok st =>
        dsimp only
        cases st.state <;> rfl
  noCancel c := by
    have hstop := (onTimer_quiet c).2
    intro h
    rw [h] at hstop
    cases hstop
  live c _ := live_of_stopped (onTimer_quiet c).2

theorem onClosed_blind (err : ConnectionError) : Blind fun c => c.onClosed err := by
  simp only [Caller.onClosed]
  split
  · exact (connLost_blind _).after (fun _ _ => rfl) (fun _ hc => hc)
  · exact connLost_blind _

theorem onRead_blind (r : Exec FrameIoError Message) : Blind fun c => c.onRead r := by
  match r with
  | .error (.err err) =>
      exact (closeOnFrameErr_ret_blind err _).after (fun _ _ => rfl) (fun _ hc => hc)
  | .error .panic => exact ⟨fun _ _ => rfl, fun _ h => (by cases h), fun _ _ => live_of_stopped rfl⟩
  | .ok msg =>
      refine ⟨fun h c => ?_, fun c => ?_, fun c _ => ?_⟩
      · have hstate : (hooked h c).state = c.state := rfl
        simp only [Caller.onRead, hstate]
        cases callerStep c.state (.recv msg) with
        | error _ => rfl
        | ok st =>
            exact loopTop_blind.hook h { c with handed := c.handed ++ [msg], state := st.state }
      · simp only [Caller.onRead]
        split
        · exact loopTop_blind.noCancel _
        · exact (ret_blind _).noCancel _
      · simp only [Caller.onRead]
        split
        · exact loopTop_live _
        · exact live_of_stopped rfl

/-- What an unused hook leaves true of a caller. -/
structure Untouched (c : Caller) : Prop where
  unused : Unused c.requestCancel
  noCancel : c.await ≠ .writeCancel
  live : Live c

/-- What is blind keeps a caller untouched. -/
theorem Untouched.of_blind {f : Caller → Caller} (hf : Blind f) {c : Caller} (h : Untouched c)
    (hrun : c.await.running = true) : Untouched (f c) where
  unused := by
    rw [hf.requestCancel]
    exact h.unused
  noCancel := hf.noCancel c
  live := hf.live c (h.live hrun)

/-- What the environment does to the caller, the hook apart. -/
theorem Untouched.of_environment {c c' : Caller} (h : Untouched c)
    (hhook : Unused c'.requestCancel) (hawait : c'.await = c.await) (hstate : c'.state = c.state) :
    Untouched c' where
  unused := hhook
  noCancel := by
    rw [hawait]
    exact h.noCancel
  live := by
    rw [Live, hawait, hstate]
    exact h.live

/-- The loop starts with the hook it is given. -/
theorem callerLoop_start {submit : Message} {hook : Option Hook} {record : CallRecordGuard}
    {wire : Bytes} {start : Caller} (hstart : callerLoop submit hook record wire = .ok start) :
    start.requestCancel = hook ∧ start.await = .writeSubmit ∧ Live start ∧
      callerLoop submit none record wire = .ok (hooked none start) := by
  cases submit with
  | submit t d ct cr b =>
      obtain rfl := Except.ok.inj hstart
      exact ⟨rfl, rfl, fun _ => rfl, rfl⟩
  | _ => cases hstart

variable [text : JsonText]

/-- A poll of the read, for its part, does not look at the hook. -/
theorem pollRead_blind (read : ReadFrame) (expired : Bool) :
    Blind fun c => c.pollRead read expired where
  hook h c := by
    have hrecv : (hooked h c).recv = c.recv := rfl
    simp only [Caller.pollRead, hrecv]
    rcases pollMessage read c.recv with ⟨read' | r, recv⟩
    · dsimp only
      cases expired <;> rfl
    · exact (onRead_blind r).hook h { c with recv := recv }
  noCancel c := by
    rw [Caller.pollRead]
    rcases pollMessage read c.recv with ⟨read' | r, recv⟩
    · dsimp only
      cases expired <;> intro h <;> cases h
    · exact (onRead_blind r).noCancel _
  live c hc := by
    rw [Caller.pollRead]
    rcases pollMessage read c.recv with ⟨read' | r, recv⟩
    · dsimp only
      cases expired with
      | true => exact live_of_stopped rfl
      | false => exact fun _ => hc
    · exact (onRead_blind r).live _ hc

/-! ### The poll -/

/-- A poll of the `select` in which nothing before the hook is ready. -/
def ReachesHook (c : Caller) (e : Ev) : Prop :=
  (∃ read expired, c.await = .select read ∧ e = .poll expired) ∧
    c.shutdown = false ∧ c.timer = false ∧ c.closed = none

/-- A poll that does not reach a resolved or used hook is one without a hook. -/
theorem pollSelect_unhooked {c : Caller} {read : ReadFrame} {expired : Bool}
    (hawait : c.await = .select read) (hunused : Unused c.requestCancel)
    (hdropped : c.requestCancel = some .dropped → ¬ ReachesHook c (.poll expired)) :
    ∃ f, Blind f ∧ c.pollSelect read expired = f c ∧
      (hooked none c).pollSelect read expired = f (hooked none c) := by
  have hshutdown : (hooked none c).shutdown = c.shutdown := rfl
  have htimer : (hooked none c).timer = c.timer := rfl
  have hclosed : (hooked none c).closed = c.closed := rfl
  have hnone : (hooked none c).requestCancel = none := rfl
  simp only [Caller.pollSelect, hshutdown, htimer, hclosed, hnone]
  cases hs : c.shutdown with
  | true => exact ⟨_, ret_blind _, rfl, rfl⟩
  | false =>
      cases ht : c.timer with
      | true => exact ⟨_, onTimer_blind, rfl, rfl⟩
      | false =>
          cases hc : c.closed with
          | some err => exact ⟨_, onClosed_blind err, rfl, rfl⟩
          | none =>
              rcases hunused with hw | hd
              · rw [hw]
                exact ⟨_, pollRead_blind read expired, rfl, rfl⟩
              · exact absurd ⟨⟨read, expired, hawait, rfl⟩, hs, ht, hc⟩ (hdropped hd)

/-! ### Runs -/

/-- The poll reaches the receiver after its sender is gone. -/
def PollsDropped (c : Caller) (e : Ev) : Prop :=
  ReachesHook c e ∧ c.requestCancel = some .dropped

/-- The poll reaches a receiver that has resolved. -/
def PollsResolved (c : Caller) (e : Ev) : Prop :=
  ReachesHook c e ∧ c.requestCancel = some .resolved

/-- The next poll would poll a receiver that has resolved. -/
def WouldRepoll (c : Caller) : Prop :=
  ReachesHook c (.poll false) ∧ c.requestCancel = some .resolved

/-- The events other than the drop. -/
def notDrop : Ev → Bool
  | .hookDrop => false
  | _ => true

/-- **Step lemma.** A step that neither uses the hook nor polls it after the drop is a step
    of the caller without a hook, and the drop itself is none. -/
theorem step_unhooked {c c' : Caller} {e : Ev} (h : Untouched c) (hsend : e ≠ .hookSend)
    (hpoll : ¬ PollsDropped c e) (he : step c e = some c') :
    Untouched c' ∧
      if notDrop e then step (hooked none c) e = some (hooked none c')
      else hooked none c' = hooked none c := by
  cases e with
  | arrive n | finish | lose | close err =>
      obtain ⟨hready, he⟩ := Option.ite_none_right_eq_some.mp he
      obtain rfl := Option.some.inj he
      exact ⟨h.of_environment h.unused rfl rfl, if_pos hready⟩
  | shutdown | timer =>
      obtain rfl := Option.some.inj he
      exact ⟨h.of_environment h.unused rfl rfl, rfl⟩
  | hookSend => exact absurd rfl hsend
  | hookDrop =>
      obtain ⟨-, he⟩ := Option.ite_none_right_eq_some.mp he
      obtain rfl := Option.some.inj he
      exact ⟨h.of_environment (Or.inr rfl) rfl rfl, rfl⟩
  | wrote w =>
      rcases step_wrote he with ⟨hawait, rfl⟩ | ⟨hawait, -⟩
      · have hblind := submitWritten_blind w
        refine ⟨h.of_blind hblind (by rw [hawait]; rfl), ?_⟩
        have hawait' : (hooked none c).await = .writeSubmit := hawait
        show step (hooked none c) (.wrote w) = _
        simp only [step, hawait']
        exact congrArg some (hblind.hook none c)
      · exact absurd hawait h.noCancel
  | poll expired =>
      obtain ⟨read, hawait, rfl⟩ := step_poll he
      -- the branch taken is one that does not look at the hook
      obtain ⟨f, hblind, hf, hf'⟩ := pollSelect_unhooked hawait h.unused
        fun hdropped hreach => hpoll ⟨hreach, hdropped⟩
      rw [hf]
      refine ⟨h.of_blind hblind (by rw [hawait]; rfl), ?_⟩
      have hawait' : (hooked none c).await = .select read := hawait
      show step (hooked none c) (.poll expired) = _
      simp only [step, hawait']
      rw [hf', hblind.hook]

/-- A poll that reaches the receiver after the drop leaves a loop whose next poll would
    poll it again. -/
theorem repoll_of_pollsDropped {c c' : Caller} {e : Ev} (hlive : Live c)
    (hpoll : PollsDropped c e) (he : step c e = some c') : WouldRepoll c' := by
  obtain ⟨⟨⟨read, expired, hawait, rfl⟩, hshutdown, htimer, hclosed⟩, hdropped⟩ := hpoll
  simp only [step, hawait] at he
  obtain rfl := Option.some.inj he
  have hopen := hlive (by rw [hawait]; rfl)
  have hpolled : c.pollSelect read expired =
      Caller.loopTop { c with requestCancel := some .resolved } := by
    rw [Caller.pollSelect, if_neg (by rw [hshutdown]; exact Bool.false_ne_true),
      if_neg (by rw [htimer]; exact Bool.false_ne_true)]
    simp only [hclosed, hdropped]
  have htop : ∀ c : Caller, c.state.isTerminal = false →
      c.loopTop = { c with await := .select .fresh } := by
    intro c hc
    rw [Caller.loopTop]
    cases hs : c.state with
    | terminal o =>
        rw [hs] at hc
        cases hc
    | _ => rfl
  rw [hpolled, htop { c with requestCancel := some .resolved } hopen]
  exact ⟨⟨⟨.fresh, false, rfl, rfl⟩, hshutdown, htimer, hclosed⟩, rfl⟩

/-- Every step leaves a loop that runs with a call that has not ended. -/
theorem step_live {c c' : Caller} {e : Ev} (h : Live c) (he : step c e = some c') : Live c' := by
  cases e with
  | arrive n | finish | lose | close err | hookSend | hookDrop =>
      obtain ⟨-, he⟩ := Option.ite_none_right_eq_some.mp he
      obtain rfl := Option.some.inj he
      exact h
  | shutdown | timer =>
      obtain rfl := Option.some.inj he
      exact h
  | wrote w =>
      rcases step_wrote he with ⟨hawait, rfl⟩ | ⟨hawait, rfl⟩
      · exact (submitWritten_blind w).live c (h (by rw [hawait]; rfl))
      · rw [Caller.cancelWritten]
        split
        · exact (writeFailed_blind _).live c (h (by rw [hawait]; rfl))
        · exact loopTop_live c
  | poll expired =>
      obtain ⟨read, hawait, rfl⟩ := step_poll he
      have hopen := h (by rw [hawait]; rfl)
      rw [Caller.pollSelect]
      split
      · exact live_of_stopped rfl
      split
      · exact onTimer_blind.live c hopen
      split
      · exact (onClosed_blind _).live c hopen
      split
      · -- a `Cancel` leaves a call that has not ended
        rw [Caller.onCancelReq]
        dsimp only
        split
        · next st hst =>
            intro _
            rcases callerStep_send hst with ⟨-, -, rfl⟩ | ⟨-, -, rfl⟩ | ⟨-, -, rfl⟩ <;> rfl
        · exact live_of_stopped rfl
      · exact loopTop_live _
      · exact live_of_stopped rfl
      · exact (pollRead_blind read expired).live c hopen
      · exact (pollRead_blind read expired).live c hopen

/-- The call with a hook that nobody uses. -/
structure LoopInert (submit : Message) (record : CallRecordGuard) (wire : Bytes) (start : Caller)
    (es : List Ev) (c : Caller) : Prop where
  /-- no poll of the run reaches a receiver that has resolved -/
  polls : EveryStep step (fun c e => ¬ PollsResolved c e) start es
  /-- nor would the next poll, in any state of the run -/
  polledOnce : ∀ before after t, es = before ++ after → runFrom step start before = some t →
    ¬ WouldRepoll t
  /-- no `Cancel` is being written -/
  noCancel : ∀ before after t, es = before ++ after → runFrom step start before = some t →
    t.await ≠ .writeCancel
  /-- the run without a hook goes through the same states to the same end -/
  unhooked : ∃ start', callerLoop submit none record wire = .ok start' ∧
    runFrom step start' (es.filter notDrop) = some (hooked none c)

/-- **`caller_loop`.** -/
theorem loop_inert_iff {submit : Message} {hook : Option Hook} {record : CallRecordGuard}
    {wire : Bytes} {start c : Caller} {es : List Ev} (hhook : Unused hook)
    (hstart : callerLoop submit hook record wire = .ok start) (hsend : ∀ e ∈ es, e ≠ .hookSend)
    (hrun : runFrom step start es = some c) :
    LoopInert submit record wire start es c ↔
      EveryStep step (fun c e => ¬ PollsDropped c e) start es := by
  obtain ⟨hrequest, hawait, hlive, hnone⟩ := callerLoop_start hstart
  have huntouched : Untouched start :=
    ⟨hrequest ▸ hhook, (by rw [hawait]; intro h; cases h), hlive⟩
  have hgood : ∀ c, Untouched c → ¬ WouldRepoll c := fun c hc hrepoll =>
    hc.unused.ne_resolved hrepoll.2
  obtain ⟨hexact, herase⟩ := erasure_exact (fun _ _ _ hc he => step_live hc he)
    (fun _ _ _ hc hsend hpoll he => step_unhooked hc hsend hpoll he)
    (fun _ _ _ hc hpoll he => repoll_of_pollsDropped hc hpoll he) hgood hlive huntouched hsend hrun
  constructor
  · intro h
    exact hexact.mp h.polledOnce
  · intro h
    refine ⟨everyStep_iff.mpr fun before e after t hes ht hpolls => ?_, hexact.mpr h,
      fun before after t hes ht => (herase h before after t hes ht).1.noCancel,
      hooked none start, hnone, (herase h es [] c (List.append_nil es).symm hrun).2⟩
    exact (herase h before (e :: after) t hes ht).1.unused.ne_resolved hpolls.2

end

/-! ## `drive_caller_chan` -/

section

open UatCallerLoop (Hook)
open UatChanCall

variable [Base64Engine]

/-- What can happen to the task of `drive_caller_chan`; a poll reads the clock. -/
inductive ChanEv where
  | arrive (msg : Message)
  | hangUp
  | notify
  | hookSend
  | hookDrop
  | poll (now : Nanos)

/-- One step of `drive_caller_chan` and of what is around it. -/
def chanStep (c : ChanCaller) : ChanEv → Option ChanCaller
  | .arrive msg =>
      if c.rx.ended = false then some { c with rx := ⟨c.rx.arrived ++ [msg], false⟩ } else none
  | .hangUp => some { c with rx := { c.rx with ended := true } }
  | .notify => some { c with closed := true }
  | .hookSend =>
      if c.requestCancel = some .waiting then some { c with requestCancel := some .sent } else none
  | .hookDrop =>
      if c.requestCancel = some .waiting then some { c with requestCancel := some .dropped }
      else none
  | .poll now =>
      match c.task with
      | .running => some (c.poll now)
      | .returned _ | .panicked => none

/-- The caller with another hook. -/
def chanHooked (h : Option Hook) (c : ChanCaller) : ChanCaller := { c with requestCancel := h }

/-- A loop that runs has not ended its call. -/
def ChanLive (c : ChanCaller) : Prop := c.task = .running → c.state.isTerminal = false

/-- The function does not look at the hook, and sends nothing. -/
structure ChanBlind (f : ChanCaller → ChanCaller) : Prop where
  hook : ∀ h c, f (chanHooked h c) = chanHooked h (f c)
  sent : ∀ c, (f c).sent = c.sent
  live : ∀ c, c.state.isTerminal = false → ChanLive (f c)

/-- A function that does not look at the hook does not change it either. -/
theorem ChanBlind.requestCancel {f : ChanCaller → ChanCaller} (h : ChanBlind f) (c : ChanCaller) :
    (f c).requestCancel = c.requestCancel := by
  have hsame : f c = chanHooked c.requestCancel (f c) := h.hook c.requestCancel c
  rw [hsame]
  rfl

/-- The head of the loop looks at the state alone. -/
theorem chanLoopTop_blind : ChanBlind ChanCaller.loopTop where
  hook h c := by
    obtain ⟨state, _⟩ := c
    cases state <;> rfl
  sent c := by
    rw [ChanCaller.loopTop]
    cases c.state <;> rfl
  live c hc := by
    rw [ChanCaller.loopTop]
    cases hs : c.state with
    | terminal o =>
        rw [hs] at hc
        cases hc
    | _ => exact fun _ => hc

/-- Past its head the loop runs only with an open call. -/
theorem chanLoopTop_live (c : ChanCaller) : ChanLive c.loopTop := by
  rw [ChanCaller.loopTop]
  cases hs : c.state with
  | terminal o => exact fun h => by cases h
  | _ =>
      intro _
      rw [hs]
      rfl

theorem chanOnTimer_blind : ChanBlind ChanCaller.onTimer where
  hook h c := by
    simp only [ChanCaller.onTimer, chanHooked]
    cases callerStep c.state .timeout with
    | error _ => rfl
    | ok st =>
        dsimp only
        cases st.state <;> rfl
  sent c := by
    simp only [ChanCaller.onTimer]
    cases callerStep c.state .timeout with
    | error _ => rfl
    | ok st =>
        dsimp only
        cases st.state <;> rfl
  live c _ := by
    simp only [ChanCaller.onTimer]
    cases callerStep c.state .timeout with
    | error _ => exact fun h => by cases h
    | ok st =>
        dsimp only
        cases st.state <;> exact fun h => by cases h

theorem chanOnEnd_blind : ChanBlind ChanCaller.onEnd where
  hook h c := by
    simp only [ChanCaller.onEnd, chanHooked]
    cases callerStep c.state (.connLost .normal) with
    | error _ => rfl
    | ok st =>
        dsimp only
        cases st.state <;> rfl
  sent c := by
    simp only [ChanCaller.onEnd]
    cases callerStep c.state (.connLost .normal) with
    | error _ => rfl
    | ok st =>
        dsimp only
        cases st.state <;> rfl
  live c _ := by
    simp only [ChanCaller.onEnd]
    cases callerStep c.state (.connLost .normal) with
    | error _ => exact fun h => by cases h
    | ok st =>
        dsimp only
        cases st.state <;> exact fun h => by cases h

theorem chanOnRecv_blind (msg : Message) : ChanBlind fun c => c.onRecv msg where
  hook h c := by
    have hstate : (chanHooked h c).state = c.state := rfl
    simp only [ChanCaller.onRecv, hstate]
    cases callerStep c.state (.recv msg) with
    | error _ => rfl
    | ok st => exact chanLoopTop_blind.hook h { c with state := st.state }
  sent c := by
    rw [ChanCaller.onRecv]
    split
    · exact chanLoopTop_blind.sent _
    · rfl
  live c _ := by
    rw [ChanCaller.onRecv]
    split
    · exact chanLoopTop_live _
    · exact fun h => by cases h

/-- A poll of the channel, for its part, does not look at the hook. -/
theorem chanPollRecv_blind : ChanBlind ChanCaller.pollRecv where
  hook h c := by
    have hrx : (chanHooked h c).rx = c.rx := rfl
    have hclosed : (chanHooked h c).closed = c.closed := rfl
    rw [ChanCaller.pollRecv, ChanCaller.pollRecv, hrx, hclosed]
    cases c.rx.arrived with
    | cons msg rest =>
        exact (chanOnRecv_blind msg).hook h { c with rx := { c.rx with arrived := rest } }
    | nil =>
        dsimp only
        split
        · exact chanOnEnd_blind.hook h c
        · rfl
  sent c := by
    rw [ChanCaller.pollRecv]
    split
    · exact (chanOnRecv_blind _).sent _
    · split
      · exact chanOnEnd_blind.sent c
      · rfl
  live c hc := by
    rw [ChanCaller.pollRecv]
    split
    · exact (chanOnRecv_blind _).live _ hc
    · split
      · exact chanOnEnd_blind.live c hc
      · exact fun _ => hc

/-- The poll reaches the receiver after its sender is gone. -/
def ChanPollsDropped (c : ChanCaller) (e : ChanEv) : Prop :=
  ∃ now, e = .poll now ∧ c.task = .running ∧ now < c.callTimer ∧ c.requestCancel = some .dropped

/-- The poll reaches a receiver that has resolved. -/
def ChanPollsResolved (c : ChanCaller) (e : ChanEv) : Prop :=
  ∃ now, e = .poll now ∧ c.task = .running ∧ now < c.callTimer ∧ c.requestCancel = some .resolved

/-- A poll before the timer would poll a receiver that has resolved. -/
def ChanWouldRepoll (c : ChanCaller) : Prop :=
  ∃ now, c.task = .running ∧ now < c.callTimer ∧ c.requestCancel = some .resolved

/-- Every event but the drop of the sender. -/
def chanNotDrop : ChanEv → Bool
  | .hookDrop => false
  | _ => true

/-- What an unused hook leaves true of a caller. -/
structure ChanUntouched (c : ChanCaller) : Prop where
  unused : Unused c.requestCancel
  noCancel : Message.cancel ∉ c.sent
  live : ChanLive c

/-- What is blind keeps a caller untouched. -/
theorem ChanUntouched.of_blind {f : ChanCaller → ChanCaller} (hf : ChanBlind f) {c : ChanCaller}
    (h : ChanUntouched c) (hrun : c.task = .running) : ChanUntouched (f c) where
  unused := by
    rw [hf.requestCancel]
    exact h.unused
  noCancel := by
    rw [hf.sent]
    exact h.noCancel
  live := hf.live c (h.live hrun)

/-- A poll that does not reach a resolved or used hook is one without a hook. -/
theorem chanPoll_unhooked {c : ChanCaller} {now : Nanos} (hrun : c.task = .running)
    (hunused : Unused c.requestCancel) (hpoll : ¬ ChanPollsDropped c (.poll now)) :
    ∃ f, ChanBlind f ∧ c.poll now = f c ∧ (chanHooked none c).poll now = f (chanHooked none c) := by
  have htimer : (chanHooked none c).callTimer = c.callTimer := rfl
  have hnone : (chanHooked none c).requestCancel = none := rfl
  simp only [ChanCaller.poll, htimer, hnone]
  by_cases hfire : c.callTimer ≤ now
  · rw [if_pos hfire, if_pos hfire]
    exact ⟨_, chanOnTimer_blind, rfl, rfl⟩
  · rw [if_neg hfire, if_neg hfire]
    rcases hunused with hw | hd
    · rw [hw]
      exact ⟨_, chanPollRecv_blind, rfl, rfl⟩
    · exact absurd ⟨now, rfl, hrun, Nat.lt_of_not_le hfire, hd⟩ hpoll

/-- **Step lemma.** -/
theorem chanStep_unhooked {c c' : ChanCaller} {e : ChanEv} (h : ChanUntouched c)
    (hsend : e ≠ .hookSend) (hpoll : ¬ ChanPollsDropped c e) (he : chanStep c e = some c') :
    ChanUntouched c' ∧
      if chanNotDrop e then chanStep (chanHooked none c) e = some (chanHooked none c')
      else chanHooked none c' = chanHooked none c := by
  cases e with
  | arrive msg =>
      obtain ⟨hopen, he⟩ := Option.ite_none_right_eq_some.mp he
      obtain rfl := Option.some.inj he
      exact ⟨⟨h.unused, h.noCancel, h.live⟩, if_pos hopen⟩
  | hangUp | notify =>
      obtain rfl := Option.some.inj he
      exact ⟨⟨h.unused, h.noCancel, h.live⟩, rfl⟩
  | hookSend => exact absurd rfl hsend
  | hookDrop =>
      obtain ⟨-, he⟩ := Option.ite_none_right_eq_some.mp he
      obtain rfl := Option.some.inj he
      exact ⟨⟨Or.inr rfl, h.noCancel, h.live⟩, rfl⟩
  | poll now =>
      cases htask : c.task with
      | running =>
          simp only [chanStep, htask] at he
          obtain rfl := Option.some.inj he
          obtain ⟨f, hblind, hf, hf'⟩ := chanPoll_unhooked htask h.unused hpoll
          rw [hf]
          refine ⟨h.of_blind hblind htask, ?_⟩
          have htask' : (chanHooked none c).task = .running := htask
          show chanStep (chanHooked none c) (.poll now) = _
          simp only [chanStep, htask']
          rw [hf', hblind.hook]
      | returned _ | panicked => simp only [chanStep, htask] at he; cases he

/-- Past a poll that saw the sender gone, the next one polls a resolved receiver. -/
theorem chanRepoll_of_pollsDropped {c c' : ChanCaller} {e : ChanEv} (hlive : ChanLive c)
    (hpoll : ChanPollsDropped c e) (he : chanStep c e = some c') : ChanWouldRepoll c' := by
  obtain ⟨now, rfl, htask, hfire, hdropped⟩ := hpoll
  simp only [chanStep, htask] at he
  obtain rfl := Option.some.inj he
  have hopen := hlive htask
  have hpolled : c.poll now = ChanCaller.loopTop { c with requestCancel := some .resolved } := by
    rw [ChanCaller.poll, if_neg (Nat.not_le_of_lt hfire)]
    simp only [hdropped]
  have htop : ∀ c : ChanCaller, c.state.isTerminal = false → c.loopTop = c := by
    intro c hc
    rw [ChanCaller.loopTop]
    cases hs : c.state with
    | terminal o =>
        rw [hs] at hc
        cases hc
    | _ => rfl
  rw [hpolled, htop { c with requestCancel := some .resolved } hopen]
  exact ⟨now, htask, hfire, rfl⟩

/-- Every step leaves a loop that runs with a call that has not ended. -/
theorem chanStep_live {c c' : ChanCaller} {e : ChanEv} (h : ChanLive c)
    (he : chanStep c e = some c') : ChanLive c' := by
  cases e with
  | arrive msg | hookSend | hookDrop =>
      obtain ⟨-, he⟩ := Option.ite_none_right_eq_some.mp he
      obtain rfl := Option.some.inj he
      exact h
  | hangUp | notify =>
      obtain rfl := Option.some.inj he
      exact h
  | poll now =>
      cases htask : c.task with
      | running =>
          have hopen := h htask
          simp only [chanStep, htask, ChanCaller.poll] at he
          obtain rfl := Option.some.inj he
          split
          · exact chanOnTimer_blind.live c hopen
          split
          · rw [ChanCaller.onCancelReq]
            dsimp only
            split
            · exact chanLoopTop_live _
            · exact fun h => by cases h
          · exact chanLoopTop_live _
          · exact fun h => by cases h
          · exact chanPollRecv_blind.live c hopen
          · exact chanPollRecv_blind.live c hopen
      | returned _ | panicked => simp only [chanStep, htask] at he; cases he

/-- The call with a hook that nobody uses. -/
structure ChanInert (submit : Message) (now : Nanos) (gone : Bool) (start : ChanCaller)
    (es : List ChanEv) (c : ChanCaller) : Prop where
  /-- no poll of the run reaches a receiver that has resolved -/
  polls : EveryStep chanStep (fun c e => ¬ ChanPollsResolved c e) start es
  /-- nor would a poll before the timer, in any state of the run -/
  polledOnce : ∀ before after t, es = before ++ after → runFrom chanStep start before = some t →
    ¬ ChanWouldRepoll t
  /-- no `Cancel` was sent -/
  noCancel : Message.cancel ∉ c.sent
  /-- the run without a hook goes through the same states to the same end -/
  unhooked : ∃ start', driveCallerChan submit none now gone = .ok start' ∧
    runFrom chanStep start' (es.filter chanNotDrop) = some (chanHooked none c)

/-- How the loop starts with a hook: as it starts without one, but for the hook. -/
theorem driveCallerChan_start {submit : Message} {hook : Option Hook} {now : Nanos} {gone : Bool}
    {start : ChanCaller} (hstart : driveCallerChan submit hook now gone = .ok start) :
    start.requestCancel = hook ∧ Message.cancel ∉ start.sent ∧ ChanLive start ∧
      driveCallerChan submit none now gone = .ok (chanHooked none start) := by
  cases submit with
  | submit t d ct cr b =>
      cases gone with
      | true => cases hstart
      | false =>
          obtain rfl := Except.ok.inj hstart
          exact ⟨rfl, by simp, fun _ => rfl, rfl⟩
  | _ => cases hstart

/-- **`drive_caller_chan`.** -/
theorem chan_inert_iff {submit : Message} {hook : Option Hook} {now : Nanos} {gone : Bool}
    {start c : ChanCaller} {es : List ChanEv} (hhook : Unused hook)
    (hstart : driveCallerChan submit hook now gone = .ok start)
    (hsend : ∀ e ∈ es, e ≠ .hookSend) (hrun : runFrom chanStep start es = some c) :
    ChanInert submit now gone start es c ↔
      EveryStep chanStep (fun c e => ¬ ChanPollsDropped c e) start es := by
  obtain ⟨hrequest, hsent, hlive, hnone⟩ := driveCallerChan_start hstart
  have huntouched : ChanUntouched start := ⟨hrequest ▸ hhook, hsent, hlive⟩
  have hgood : ∀ c, ChanUntouched c → ¬ ChanWouldRepoll c := by
    rintro c hc ⟨now, -, -, hresolved⟩
    exact hc.unused.ne_resolved hresolved
  obtain ⟨hexact, herase⟩ := erasure_exact (fun _ _ _ hc he => chanStep_live hc he)
    (fun _ _ _ hc hsend hpoll he => chanStep_unhooked hc hsend hpoll he)
    (fun _ _ _ hc hpoll he => chanRepoll_of_pollsDropped hc hpoll he) hgood hlive huntouched
    hsend hrun
  constructor
  · intro h
    exact hexact.mp h.polledOnce
  · intro h
    obtain ⟨hend, hunhooked⟩ := herase h es [] c (List.append_nil es).symm hrun
    refine ⟨everyStep_iff.mpr fun before e after t hes ht hpolls => ?_, hexact.mpr h,
      hend.noCancel, chanHooked none start, hnone, hunhooked⟩
    obtain ⟨-, -, -, -, hresolved⟩ := hpolls
    exact (herase h before (e :: after) t hes ht).1.unused.ne_resolved hresolved

end

/-! ## Both loops -/

section

variable [Base64Engine] [text : JsonText]

/-- **AN UNUSED HOOK.**  In both caller loops, for every run in which the sender of the hook
    is never used: the hook is inert exactly when no poll reaches the receiver after its
    sender is gone. -/
theorem unused_hook_inert_iff :
    (∀ submit hook record wire start c es, Unused hook →
      UatCallerLoop.callerLoop submit hook record wire = .ok start →
      (∀ e ∈ es, e ≠ .hookSend) → runFrom UatCallerLoop.step start es = some c →
      (LoopInert submit record wire start es c ↔
        EveryStep UatCallerLoop.step (fun c e => ¬ PollsDropped c e) start es)) ∧
    (∀ submit hook now gone start c es, Unused hook →
      UatChanCall.driveCallerChan submit hook now gone = .ok start →
      (∀ e ∈ es, e ≠ .hookSend) → runFrom chanStep start es = some c →
      (ChanInert submit now gone start es c ↔
        EveryStep chanStep (fun c e => ¬ ChanPollsDropped c e) start es)) :=
  ⟨fun _ _ _ _ _ _ _ hhook hstart hsend hrun => loop_inert_iff hhook hstart hsend hrun,
    fun _ _ _ _ _ _ _ hhook hstart hsend hrun => chan_inert_iff hhook hstart hsend hrun⟩

end

section

attribute [local instance] plainText compactJson

def submitOne : Message := .submit taskOne oneSecond plain none []

/-- The sender is dropped and the loop turns twice. -/
def dropThenTurn : List UatCallerLoop.Ev := [.wrote .done, .hookDrop, .poll false, .poll false]

/-- The same drop in the channel loop. -/
def dropThenTurnChan : List ChanEv := [.hookDrop, .poll 0, .poll 0]

/-- The hook of each loop, and the runs of the drop with what they start from. -/
theorem unused_hook_inert_iff_dropThenTurn :
    (∃ start c, runFrom UatCallerLoop.step start dropThenTurn = some c ∧
      (LoopInert submitOne (.new .outbound remote .notReached) [] start dropThenTurn c ↔
        EveryStep UatCallerLoop.step (fun c e => ¬ PollsDropped c e) start dropThenTurn)) ∧
    (∃ start c, runFrom chanStep start dropThenTurnChan = some c ∧
      (ChanInert submitOne 0 false start dropThenTurnChan c ↔
        EveryStep chanStep (fun c e => ¬ ChanPollsDropped c e) start dropThenTurnChan)) :=
  ⟨⟨_, _, rfl, unused_hook_inert_iff.1 submitOne (some .waiting) _ [] _ _ dropThenTurn
      (Or.inl rfl) rfl (by simp [dropThenTurn]) rfl⟩,
    ⟨_, _, rfl, unused_hook_inert_iff.2 submitOne (some .waiting) 0 false _ _ dropThenTurnChan
      (Or.inl rfl) rfl (by simp [dropThenTurnChan]) rfl⟩⟩

/-- Both loops panic on the second turn after the drop. -/
theorem dropped_hook_panics :
    (∃ start c, UatCallerLoop.callerLoop submitOne (some .waiting)
        (.new .outbound remote .notReached) [] = .ok start ∧
      runFrom UatCallerLoop.step start dropThenTurn = some c ∧ c.await = .panicked ∧
      ¬ LoopInert submitOne (.new .outbound remote .notReached) [] start dropThenTurn c) ∧
    (∃ start c, UatChanCall.driveCallerChan submitOne (some .waiting) 0 false = .ok start ∧
      runFrom chanStep start dropThenTurnChan = some c ∧ c.task = .panicked ∧
      ¬ ChanInert submitOne 0 false start dropThenTurnChan c) := by
  refine ⟨⟨_, _, rfl, rfl, rfl, fun h => ?_⟩, ⟨_, _, rfl, rfl, rfl, fun h => ?_⟩⟩
  · exact everyStep_iff.mp h.polls [.wrote .done, .hookDrop, .poll false] (.poll false) [] _ rfl
      rfl ⟨⟨⟨.fresh, false, rfl, rfl⟩, rfl, rfl, rfl⟩, rfl⟩
  · exact everyStep_iff.mp h.polls [.hookDrop, .poll 0] (.poll 0) [] _ rfl rfl
      ⟨0, rfl, rfl, by decide, rfl⟩

end

end UatUnusedHook
