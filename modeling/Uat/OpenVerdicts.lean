import Uat.TwoParty

/-! # Which verdicts are still open

    `protocol_compatible` says that the two tables never trip over each other's messages.
    It does not say that they get anywhere.  Here they run without timeouts and without
    losing their connection, by messages alone.

    - `CanEnd n o`: from `n`, sending and receiving can bring both sides to the outcome `o`.
    - `hears`: a verdict of the callee is in the queue until the caller has it, so it is
      enough to bring the callee to one.
    - `open_verdicts`: until one side has ended, `Canceled` and every failure but a rejection
      can still become the outcome of both; a rejection until the callee has accepted;
      `Completed` unless a `Cancel` is all that a callee waiting for input will ever read. -/

namespace UatOpenVerdicts

open UatTypes UatState StepRun
open UatTwoParty

section

variable [Base64Engine]

/-! ## By messages alone -/

/-- A side sends or receives. -/
def Talks : Duplex.Ev Message CloseCode → Bool
  | .left (.send _) | .left .recv | .right (.send _) | .right .recv => true
  | _ => false

/-- The two tables, without timeouts and lost connections. -/
def talk (n : Net) (e : Duplex.Ev Message CloseCode) : Option Net :=
  if Talks e then net n e else none

/-- Messages can bring both sides to this outcome. -/
def CanEnd (n : Net) (o : Outcome) : Prop :=
  ∃ n', Reaches talk n n' ∧ n'.left = .terminal o ∧ n'.right = some (.terminal o)

/-- What can be ended from a later state can be ended from here. -/
theorem CanEnd.of_reaches {n n' : Net} {o : Outcome} (h : Reaches talk n n') (hend : CanEnd n' o) :
    CanEnd n o := by
  obtain ⟨n'', hreach, hleft, hright⟩ := hend
  exact ⟨n'', h.trans hreach, hleft, hright⟩

/-- A step of `talk` is a step of the tables. -/
theorem net_of_talk {n n' : Net} {e : Duplex.Ev Message CloseCode} (h : talk n e = some n') :
    net n e = some n' :=
  (Option.ite_none_right_eq_some.mp h).2

/-- A step of the tables that is a message is a step of `talk`. -/
theorem talks {n n' : Net} {e : Duplex.Ev Message CloseCode} (h : net n e = some n')
    (he : Talks e = true) : Reaches talk n n' :=
  .single (Option.ite_none_right_eq_some.mpr ⟨he, h⟩)

/-! ## What holds in every state -/

/-- A callee that ended with a verdict has told it. -/
def Told (n : Net) : Prop :=
  ∀ o, IsVerdict o → n.right = some (.terminal o) → n.left.isTerminal = false →
    ∃ m ∈ n.toLeft, verdict m = some o

/-- What is known of a state of the tables. -/
structure Known (n : Net) : Prop where
  compatible : Compatible n
  agreed : Agreed n
  told : Told n

/-- A message without a verdict does not end the caller. -/
theorem recv_live {c : CallerState} {m : Message} {st : Step CallerState}
    (h : callerStep c (.recv m) = .ok st) (hm : verdict m = none) :
    st.state.isTerminal = false := by
  cases hstate : st.state with
  | terminal o => cases ((ends_iff_verdict h).mp hstate).symm.trans hm
  | _ => rfl

/-- The caller's moves leave the verdict in the queue, or take it and end. -/
theorem told_left {n n' : Net} {e : Duplex.Local Message CloseCode} (h : Told n)
    (hs : net n (.left e) = some n') : Told n' := by
  obtain ⟨a, rest, c', out, ha, hstep, rfl⟩ := Duplex.step_left.mp hs
  intro o hv hright hlive
  have hstep := UatTwoParty.caller_step_iff.mp hstep
  have hc := callerStep_nonterminal hstep
  obtain ⟨m, hmem, hm⟩ := h o hv hright hc
  refine ⟨m, ?_, hm⟩
  rcases Duplex.act_cases ha with ⟨m', -, rfl⟩ | ⟨m', rfl, hq⟩ | ⟨-, rfl⟩ | ⟨code, -, rfl⟩
  · exact hmem
  · rw [hq] at hmem
    rcases List.mem_cons.mp hmem with rfl | hmem
    · -- The verdict was next, and the caller would have ended.
      have hend : c' = .terminal o := (ends_iff_verdict hstep).mpr hm
      rw [hend] at hlive
      cases hlive
    · exact hmem
  · exact hmem
  · exact hmem

/-- The callee ends with a verdict by the message that it sends. -/
theorem callee_tells {s : Option CalleeState} {a : Duplex.Act Message CloseCode} {o : Outcome}
    {out : Option Message} (h : UatTwoParty.callee.step s a = some (some (.terminal o), out))
    (hv : IsVerdict o) : ∃ m ∈ Duplex.puts a out, verdict m = some o := by
  cases s with
  | none =>
      obtain ⟨-, hs, -⟩ := UatTwoParty.callee_start h
      cases hs
  | some s =>
      obtain ⟨t, ht, hst⟩ := UatTwoParty.callee_step_iff.mp h
      obtain rfl := Option.some.inj ht
      have hlive := calleeStep_nonterminal hst
      cases a with
      | send m =>
          refine ⟨m, List.mem_cons_self .., ?_⟩
          rcases calleeStep_send hst with ⟨-, -, hs⟩ | ⟨-, -, hs⟩ | ⟨-, -, hs⟩ | ⟨-, ⟨b, rfl⟩, hs⟩ |
            ⟨code, rfl, -, hs⟩ <;> cases hs <;> rfl
      | recv m =>
          rcases calleeStep_recv hst with ⟨-, -, hs⟩ | ⟨-, hs⟩
          · cases hs
          · cases hs
            exact ⟨.canceled, List.mem_cons_self .., rfl⟩
      | timeout =>
          cases (calleeStep_timeout hlive).symm.trans hst
          exact ⟨_, List.mem_cons_self .., rfl⟩
      | connLost code =>
          -- A lost connection is no verdict.
          have hend := congrArg Step.state
            (Except.ok.inj ((calleeStep_connLost hlive code).symm.trans hst))
          cases code <;> cases hend <;> exact hv.elim

/-- The callee says its verdict in the very step that ends it. -/
theorem told_right {n n' : Net} {e : Duplex.Local Message CloseCode}
    (hs : net n (.right e) = some n') : Told n' := by
  obtain ⟨a, rest, s', out, ha, hstep, rfl⟩ := Duplex.step_right.mp hs
  intro o hv hright hlive
  obtain rfl : s' = some (.terminal o) := hright
  obtain ⟨m, hmem, hm⟩ := callee_tells hstep hv
  exact ⟨m, List.mem_append_right _ hmem, hm⟩

/-- **Step lemma.** The three invariants are kept. -/
theorem known_step {n n' : Net} {e : Duplex.Ev Message CloseCode} (h : Known n)
    (hs : net n e = some n') : Known n' := by
  cases e with
  | left e =>
      exact ⟨UatTwoParty.compatible_left h.compatible hs, UatTwoParty.agreed_left h.agreed hs,
        told_left h.told hs⟩
  | right e =>
      exact ⟨UatTwoParty.compatible_right h.compatible hs, UatTwoParty.agreed_right h.agreed hs,
        told_right hs⟩

/-- They hold before anything is sent. -/
theorem known_start : Known UatTwoParty.start :=
  ⟨UatTwoParty.compatible_start, UatTwoParty.agreed_start, fun _ _ h => (by cases h)⟩

/-- They hold in every reachable state. -/
theorem known_run {es : List (Duplex.Ev Message CloseCode)} {n : Net}
    (h : runFrom net UatTwoParty.start es = some n) : Known n :=
  run_invariant _ (fun _ _ _ hn hs => known_step hn hs) es _ n known_start h

/-- They hold after any talk from there. -/
theorem known_reaches {n n' : Net} (h : Known n) (hreach : Reaches talk n n') : Known n' := by
  obtain ⟨es, hes⟩ := hreach
  exact run_invariant _ (fun _ _ _ hn hs => known_step hn (net_of_talk hs)) es n n' h hes

/-! ## To the end of the call -/

variable {n : Net}

/-- A caller that reads what is in its queue, up to the verdict. -/
theorem hears_queue : ∀ (q : List Message) (n : Net), n.toLeft = q → Known n →
    n.left.isTerminal = false →
    ∃ n', Reaches talk n n' ∧ n'.right = n.right ∧ n'.toRight = n.toRight ∧
      ((n'.left.isTerminal = false ∧ n'.toLeft = []) ∨
        ∃ o, n'.left = .terminal o ∧ n.right = some (.terminal o)) := by
  intro q
  induction q with
  | nil =>
      intro n hq _ hlive
      exact ⟨n, .refl n, rfl, rfl, Or.inl ⟨hlive, hq⟩⟩
  | cons m q ih =>
      intro n hq hn hlive
      obtain ⟨d, hd, -⟩ := hn.compatible.inStep hlive
      rw [hq] at hd
      obtain ⟨c, hm, -⟩ := Duplex.drain_head hlive hd
      obtain ⟨st, hst, -⟩ := takes_eq_some.mp hm
      have hread : Reaches talk n { n with left := st.state, toLeft := q } :=
        talks (net_caller_reads hq hst) rfl
      cases hverdict : verdict m with
      | some o =>
          have hsent : m ∈ n.sentLeft := hn.agreed.sent (by rw [hq]; exact List.mem_cons_self ..)
          exact ⟨_, hread, rfl, rfl, Or.inr ⟨o, (ends_iff_verdict hst).mpr hverdict,
            hn.agreed.ended m hsent o hverdict⟩⟩
      | none =>
          obtain ⟨n', hreach, hright, htoRight, hend⟩ :=
            ih _ rfl (known_reaches hn hread) (recv_live hst hverdict)
          exact ⟨n', hread.trans hreach, hright, htoRight, hend⟩

/-- **A verdict is heard.**  What the callee ended with, the caller can still end with. -/
theorem hears {o : Outcome} (hn : Known n) (hlive : n.left.isTerminal = false) (hv : IsVerdict o)
    (hright : n.right = some (.terminal o)) : CanEnd n o := by
  obtain ⟨n', hreach, hsame, -, ⟨hlive', hempty⟩ | ⟨o', hleft, hright'⟩⟩ :=
    hears_queue n.toLeft n rfl hn hlive
  · -- The queue is empty, and the verdict was in it.
    obtain ⟨m, hmem, -⟩ := (known_reaches hn hreach).told o hv (hsame.trans hright) hlive'
    rw [hempty] at hmem
    cases hmem
  · obtain rfl : o = o' := by
      cases hright.symm.trans hright'
      rfl
    exact ⟨n', hreach, hleft, hsame.trans hright⟩

/-- A callee that has ended its call by a message, whatever the caller has read of it. -/
theorem ends_by {s : CalleeState} {m : Message} {o : Outcome} (hn : Known n)
    (hlive : n.left.isTerminal = false) (hright : n.right = some s)
    (hs : calleeStep s (.send m) = .ok (.go (.terminal o))) (hv : IsVerdict o) : CanEnd n o := by
  have hstep := net_callee_moves (e := .send m) (a := .send m) hright rfl hs
  have hreach := talks hstep rfl
  exact (hears (known_reaches hn hreach) hlive hv rfl).of_reaches hreach

/-! ### Completed -/

/-- A working callee completes. -/
theorem completes_working (hn : Known n) (hlive : n.left.isTerminal = false)
    (hright : n.right = some .working) : CanEnd n .completed :=
  ends_by (m := .completed []) hn hlive hright rfl trivial

/-- A callee that was offered the call accepts and completes. -/
theorem completes_offered (hn : Known n) (hlive : n.left.isTerminal = false)
    (hright : n.right = some .offered) : CanEnd n .completed := by
  have haccept : calleeStep .offered (.send .accepted) = .ok (.go .working) := rfl
  have hstep := net_callee_moves (e := .send .accepted) (a := .send .accepted) hright rfl haccept
  have hreach := talks hstep rfl
  exact (completes_working (known_reaches hn hreach) hlive rfl).of_reaches hreach

/-- A callee that has asked reads the answer and completes. -/
theorem completes_answered {body : Bytes} {q : List Message} (hn : Known n)
    (hlive : n.left.isTerminal = false) (hright : n.right = some .needInputSent)
    (hq : n.toRight = .input body :: q) : CanEnd n .completed := by
  have hact : (Duplex.Local.recv : Duplex.Local Message CloseCode).act n.toRight =
      some (.recv (.input body), q) := by
    rw [hq]
    rfl
  have htakes : calleeStep .needInputSent (.recv (.input body)) = .ok (.go .working) := rfl
  have hreach := talks (net_callee_moves (a := .recv (.input body)) hright hact htakes) rfl
  exact (completes_working (known_reaches hn hreach) hlive rfl).of_reaches hreach

/-! ### The callee starts -/

/-- The caller has read all there is, and is still in its call. -/
theorem catches_up (hn : Known n) (hlive : n.left.isTerminal = false)
    (hopen : ∀ o, n.right ≠ some (.terminal o)) :
    ∃ n', Reaches talk n n' ∧ Known n' ∧ n'.right = n.right ∧ n'.toRight = n.toRight ∧
      n'.toLeft = [] ∧ n'.left.isTerminal = false ∧ InStep n'.left n'.right n'.toRight := by
  obtain ⟨n', hreach, hright, htoRight, ⟨hlive', hempty⟩ | ⟨o, -, hended⟩⟩ :=
    hears_queue n.toLeft n rfl hn hlive
  · have hn' := known_reaches hn hreach
    obtain ⟨d, hd, hin⟩ := hn'.compatible.inStep hlive'
    rw [hempty] at hd
    obtain rfl := Option.some.inj hd
    exact ⟨n', hreach, hn', hright, htoRight, hempty, hlive', hin⟩
  · exact absurd hended (hopen o)

/-- A callee that has not started, with its `Submit` in the queue. -/
theorem starts_submitted {t : TaskId} {d : Deadline} {ct : ContentType} {cr : Option Credential}
    {b : Bytes} {q : List Message} (hn : Known n) (hlive : n.left.isTerminal = false)
    (hright : n.right = none) (hq : n.toRight = .submit t d ct cr b :: q) :
    ∃ n', Reaches talk n n' ∧ Known n' ∧ n'.left.isTerminal = false ∧ n'.right = some .offered := by
  have hreach := talks (net_callee_starts hright hq) rfl
  exact ⟨_, hreach, known_reaches hn hreach, hlive, rfl⟩

/-- **The callee can start**, with the caller in its call. -/
theorem starts (hn : Known n) (hlive : n.left.isTerminal = false) (hright : n.right = none) :
    ∃ n', Reaches talk n n' ∧ Known n' ∧ n'.left.isTerminal = false ∧ n'.right = some .offered := by
  obtain ⟨n₁, hreach, hn₁, hsame, -, -, hlive₁, hin⟩ :=
    catches_up hn hlive fun o ho => by rw [hright] at ho; cases ho
  have hnone : n₁.right = none := hsame.trans hright
  have hfrom : ∀ {n₂ : Net}, Reaches talk n₁ n₂ → (∃ n', Reaches talk n₂ n' ∧ Known n' ∧
      n'.left.isTerminal = false ∧ n'.right = some .offered) →
      ∃ n', Reaches talk n n' ∧ Known n' ∧ n'.left.isTerminal = false ∧
        n'.right = some .offered := by
    rintro n₂ hreach₂ ⟨n', hreach', hend⟩
    exact ⟨n', (hreach.trans hreach₂).trans hreach', hend⟩
  rw [hnone] at hin
  generalize hleft : n₁.left = left at hin
  generalize hq : n₁.toRight = q at hin
  cases hin with
  | dialing =>
      have hsend : callerStep n₁.left (.send (.submit taskOne oneSecond plain none [])) =
          .ok (.go .submitted) := by rw [hleft]; rfl
      have hsubmit := talks (net_caller_sends hsend) rfl
      have hqueue : n₁.toRight ++ [.submit taskOne oneSecond plain none []] =
          [.submit taskOne oneSecond plain none []] := by rw [hq]; rfl
      exact hfrom hsubmit (starts_submitted (known_reaches hn₁ hsubmit) rfl hnone hqueue)
  | submitted t d ct cr b => exact hfrom (.refl n₁) (starts_submitted hn₁ hlive₁ hnone hq)
  | canceling h =>
      rcases h with ⟨hb, -⟩ | ⟨t, d, ct, cr, b, hsubmit⟩
      · cases hb
      · exact hfrom (.refl n₁) (starts_submitted hn₁ hlive₁ hnone (hq.trans hsubmit))

/-! ### Failed -/

/-- The callee may fail with any code, but reject only what it has not accepted. -/
theorem step_failed {s : CalleeState} {code : FailureCode} (hlive : s.isTerminal = false)
    (hcode : code = .rejected → s = .offered) :
    calleeStep s (.send (.failed code)) = .ok (.go (.terminal (.failed code))) := by
  by_cases hrejected : code = .rejected
  · rw [hcode hrejected]
    rfl
  · cases s with
    | terminal o => cases hlive
    | offered => rfl
    | working | needInputSent => exact if_neg hrejected

/-- Any failure is open while the callee is, a rejection until it has accepted. -/
theorem can_fail {code : FailureCode} (hn : Known n) (hlive : n.left.isTerminal = false)
    (hopen : ∀ o, n.right ≠ some (.terminal o))
    (hcode : code = .rejected → n.right = none ∨ n.right = some .offered) :
    CanEnd n (.failed code) := by
  have hfails : ∀ {n : Net} {s : CalleeState}, Known n → n.left.isTerminal = false →
      n.right = some s → s.isTerminal = false → (code = .rejected → s = .offered) →
      CanEnd n (.failed code) := fun hn hlive hright hs hcode =>
    ends_by hn hlive hright (step_failed hs hcode) trivial
  cases hright : n.right with
  | none =>
      obtain ⟨n', hreach, hn', hlive', hoffered⟩ := starts hn hlive hright
      exact (hfails hn' hlive' hoffered rfl fun _ => rfl).of_reaches hreach
  | some s =>
      have hs : s.isTerminal = false := by
        cases s with
        | terminal o => exact absurd hright (hopen o)
        | _ => rfl
      refine hfails hn hlive hright hs fun hrejected => ?_
      rcases hcode hrejected with hnone | hoffered
      · rw [hright] at hnone
        cases hnone
      · rw [hright] at hoffered
        exact Option.some.inj hoffered

/-! ### Canceled -/

/-- A `Cancel` at the head of the queue. -/
theorem canceled_next {s : CalleeState} {q : List Message} (hn : Known n)
    (hlive : n.left.isTerminal = false) (hright : n.right = some s) (hs : s.isTerminal = false)
    (hq : n.toRight = .cancel :: q) : CanEnd n .canceled := by
  have hact : (Duplex.Local.recv : Duplex.Local Message CloseCode).act n.toRight =
      some (.recv .cancel, q) := by
    rw [hq]
    rfl
  have htakes : calleeStep s (.recv .cancel) = .ok (.emitting (.terminal .canceled) .canceled) := by
    cases s with
    | terminal o => cases hs
    | _ => rfl
  have hreach := talks (net_callee_moves (a := .recv .cancel) hright hact htakes) rfl
  exact (hears (o := .canceled) (known_reaches hn hreach) hlive trivial rfl).of_reaches hreach

/-- A callee at work whose last message to read is a `Cancel`. -/
theorem canceled_expected {s : CalleeState} (hn : Known n) (hlive : n.left.isTerminal = false)
    (hright : n.right = some s) (h : Expect true (some s) n.toRight) : CanEnd n .canceled := by
  cases s with
  | terminal o => exact h.elim
  | offered | working => exact canceled_next hn hlive hright rfl h
  | needInputSent =>
      rcases h with hq | ⟨body, hq⟩
      · exact canceled_next hn hlive hright rfl hq
      · -- The input is read first.
        have hact : (Duplex.Local.recv : Duplex.Local Message CloseCode).act n.toRight =
            some (.recv (.input body), [.cancel]) := by
          rw [hq]
          rfl
        have htakes : calleeStep .needInputSent (.recv (.input body)) = .ok (.go .working) := rfl
        have hreach := talks (net_callee_moves (a := .recv (.input body)) hright hact htakes) rfl
        exact (canceled_next (known_reaches hn hreach) hlive rfl rfl rfl).of_reaches hreach

/-- A caller that has canceled, and has read all there is. -/
theorem canceled_canceling (hn : Known n) (hleft : n.left = .canceling) (hempty : n.toLeft = [])
    (hopen : ∀ o, n.right ≠ some (.terminal o)) : CanEnd n .canceled := by
  have hlive : n.left.isTerminal = false := by rw [hleft]; rfl
  obtain ⟨d, hd, hin⟩ := hn.compatible.inStep hlive
  rw [hleft, hempty] at hd
  obtain rfl := Option.some.inj hd
  generalize hq : n.toRight = q at hin
  generalize hright : n.right = right at hin
  cases hin with
  | gone c o q => exact absurd hright (hopen o)
  | canceling h =>
      rw [← hq] at h
      cases right with
      | some s => exact canceled_expected hn hlive hright h
      | none =>
          rcases h with ⟨hb, -⟩ | ⟨t, d, ct, cr, b, hq⟩
          · cases hb
          · have hreach := talks (net_callee_starts hright hq) rfl
            exact (canceled_expected (known_reaches hn hreach) hlive rfl rfl).of_reaches hreach

/-- A cancelation is open while the callee is. -/
theorem can_cancel (hn : Known n) (hlive : n.left.isTerminal = false)
    (hopen : ∀ o, n.right ≠ some (.terminal o)) : CanEnd n .canceled := by
  obtain ⟨n₁, hreach, hn₁, hsame, -, hempty, hlive₁, hin⟩ := catches_up hn hlive hopen
  have hopen₁ : ∀ o, n₁.right ≠ some (.terminal o) := fun o ho => hopen o (hsame.symm.trans ho)
  refine CanEnd.of_reaches hreach ?_
  -- From a state in which `Cancel` may be sent.
  have hsend : ∀ {n₂ : Net}, Known n₂ → n₂.toLeft = [] → n₂.right = n₁.right →
      callerStep n₂.left (.send .cancel) = .ok (.go .canceling) → CanEnd n₂ .canceled := by
    intro n₂ hn₂ hempty₂ hright₂ hcancel
    have hreach₂ := talks (net_caller_sends hcancel) rfl
    exact (canceled_canceling (known_reaches hn₂ hreach₂) rfl hempty₂ fun o ho =>
      hopen₁ o (hright₂.symm.trans ho)).of_reaches hreach₂
  cases hleft : n₁.left with
  | terminal o =>
      rw [hleft] at hlive₁
      cases hlive₁
  | canceling => exact canceled_canceling hn₁ hleft hempty hopen₁
  | submitted | working | awaitingInput => exact hsend hn₁ hempty rfl (by rw [hleft]; rfl)
  | dialing =>
      have hsubmit : callerStep n₁.left (.send (.submit taskOne oneSecond plain none [])) =
          .ok (.go .submitted) := by rw [hleft]; rfl
      have hreach₂ := talks (net_caller_sends hsubmit) rfl
      exact (hsend (known_reaches hn₁ hreach₂) hempty rfl rfl).of_reaches hreach₂

/-! ### Completed -/

/-- Completion is open, unless the callee waits for input and a `Cancel` is all that comes. -/
theorem can_complete (hn : Known n) (hlive : n.left.isTerminal = false)
    (hopen : ∀ o, n.right ≠ some (.terminal o))
    (hasks : ¬ (n.right = some .needInputSent ∧ n.toRight = [.cancel])) :
    CanEnd n .completed := by
  cases hright : n.right with
  | none =>
      obtain ⟨n', hreach, hn', hlive', hoffered⟩ := starts hn hlive hright
      exact (completes_offered hn' hlive' hoffered).of_reaches hreach
  | some s =>
      cases s with
      | terminal o => exact absurd hright (hopen o)
      | offered => exact completes_offered hn hlive hright
      | working => exact completes_working hn hlive hright
      | needInputSent =>
          obtain ⟨n₁, hreach, hn₁, hsame, hqueue, -, hlive₁, hin⟩ := catches_up hn hlive hopen
          refine CanEnd.of_reaches hreach ?_
          have hright₁ : n₁.right = some .needInputSent := hsame.trans hright
          rw [hright₁] at hin
          generalize hleft : n₁.left = left at hin
          generalize hq : n₁.toRight = q at hin
          cases hin with
          | asked =>
              have hinput : callerStep n₁.left (.send (.input [])) = .ok (.go .working) := by
                rw [hleft]
                rfl
              have hreach₂ := talks (net_caller_sends hinput) rfl
              have hqueue₂ : n₁.toRight ++ [.input []] = [.input []] := by rw [hq]; rfl
              exact (completes_answered (known_reaches hn₁ hreach₂) rfl hright₁
                hqueue₂).of_reaches hreach₂
          | answered body => exact completes_answered hn₁ hlive₁ hright₁ hq
          | canceling h =>
              rcases h with hcancel | ⟨body, hinput⟩
              · exact absurd ⟨hright, hqueue.symm.trans (hq.trans hcancel)⟩ hasks
              · exact completes_answered hn₁ hlive₁ hright₁ (hq.trans hinput)

/-! ## What messages can no longer do -/

/-- What a side does without a timeout and with its connection: it sends, or reads. -/
theorem act_of_talk {e : Duplex.Local Message CloseCode} {q rest : List Message}
    {a : Duplex.Act Message CloseCode} (he : Talks (.left e) = true)
    (ha : e.act q = some (a, rest)) :
    (∃ m, a = .send m ∧ rest = q) ∨ ∃ m, a = .recv m ∧ q = m :: rest := by
  cases e with
  | send m =>
      obtain ⟨rfl, rfl⟩ := Prod.mk.inj (Option.some.inj ha)
      exact Or.inl ⟨m, rfl, rfl⟩
  | recv =>
      cases q with
      | nil => cases ha
      | cons m q =>
          obtain ⟨rfl, rfl⟩ := Prod.mk.inj (Option.some.inj ha)
          exact Or.inr ⟨m, rfl, rfl⟩
  | timeout | connLost => cases he

/-- What a caller's step of a talk does: it sends, or it reads. -/
theorem talk_left {n n' : Net} {e : Duplex.Local Message CloseCode}
    (h : talk n (.left e) = some n') :
    n'.right = n.right ∧
      ((∃ m st, callerStep n.left (.send m) = .ok st ∧ n'.left = st.state) ∨
        ∃ m st, callerStep n.left (.recv m) = .ok st ∧ n'.left = st.state ∧
          n'.toRight = n.toRight) := by
  obtain ⟨he, hs⟩ := Option.ite_none_right_eq_some.mp h
  obtain ⟨a, rest, c', out, ha, hstep, rfl⟩ := Duplex.step_left.mp hs
  have hstep := caller_step_iff.mp hstep
  obtain rfl : out = none := callerStep_emit hstep
  refine ⟨rfl, ?_⟩
  rcases act_of_talk he ha with ⟨m, rfl, -⟩ | ⟨m, rfl, -⟩
  · exact Or.inl ⟨m, _, hstep, rfl⟩
  · exact Or.inr ⟨m, _, hstep, rfl, List.append_nil _⟩

/-- What a callee's step of a talk does: it starts, sends, or reads. -/
theorem talk_right {n n' : Net} {e : Duplex.Local Message CloseCode}
    (h : talk n (.right e) = some n') :
    n'.left = n.left ∧
      ((n.right = none ∧ n'.right = some .offered) ∨
        ∃ s, n.right = some s ∧
          ((∃ m st, calleeStep s (.send m) = .ok st ∧ n'.right = some st.state ∧
              n'.toRight = n.toRight) ∨
            ∃ m st, calleeStep s (.recv m) = .ok st ∧ n'.right = some st.state ∧
              n.toRight = m :: n'.toRight)) := by
  obtain ⟨he, hs⟩ := Option.ite_none_right_eq_some.mp h
  obtain ⟨a, rest, s', out, ha, hstep, rfl⟩ := Duplex.step_right.mp hs
  refine ⟨rfl, ?_⟩
  have hact : (∃ m, a = .send m ∧ rest = n.toRight) ∨ ∃ m, a = .recv m ∧ n.toRight = m :: rest :=
    act_of_talk (by cases e <;> exact he) ha
  cases hright : n.right with
  | none =>
      rw [hright] at hstep
      exact Or.inl ⟨rfl, (callee_start hstep).2.1⟩
  | some s =>
      rw [hright] at hstep
      obtain ⟨t, rfl, hst⟩ := callee_step_iff.mp hstep
      refine Or.inr ⟨s, rfl, ?_⟩
      rcases hact with ⟨m, rfl, hrest⟩ | ⟨m, rfl, hq⟩
      · exact Or.inl ⟨m, _, hst, rfl, hrest⟩
      · exact Or.inr ⟨m, _, hst, rfl, hq⟩

/-- What talking keeps. -/
theorem talk_invariant (Inv : Net → Prop)
    (hstep : ∀ n e n', Inv n → talk n e = some n' → Inv n') {n n' : Net}
    (hn : Inv n) (h : Reaches talk n n') : Inv n' := by
  obtain ⟨es, hes⟩ := h
  exact run_invariant Inv (fun n e n' hn hs => hstep n e n' hn hs) es n n' hn hes

/-- A caller whose call is open, or ended with a verdict. -/
def Heard (n : Net) : Prop := ∀ o, n.left = .terminal o → IsVerdict o

/-- In talk the caller ends by a verdict only. -/
theorem talk_heard {n n' : Net} {e : Duplex.Ev Message CloseCode} (h : Heard n)
    (hs : talk n e = some n') : Heard n' := by
  intro o ho
  cases e with
  | right e => exact h o ((talk_right hs).1.symm.trans ho)
  | left e =>
      obtain ⟨-, ⟨m, st, hst, hleft⟩ | ⟨m, st, hst, hleft, -⟩⟩ := talk_left hs
      · -- Nothing that is sent ends the caller.
        rw [hleft] at ho
        rcases callerStep_send hst with ⟨-, -, rfl⟩ | ⟨-, -, rfl⟩ | ⟨-, -, rfl⟩ <;> cases ho
      · rw [hleft] at ho
        rcases callerStep_recv hst with ⟨-, -, rfl⟩ | ⟨-, -, rfl⟩ | ⟨-, -, rfl⟩ | ⟨-, -, rfl⟩ |
          ⟨-, code, -, rfl⟩ | ⟨-, -, rfl⟩ | ⟨-, -, rfl⟩ <;> cases ho <;> trivial

/-- The callee has accepted, and did not reject. -/
def Accepted (n : Net) : Prop :=
  ∃ s, n.right = some s ∧ s ≠ .offered ∧ s ≠ .terminal (.failed .rejected)

/-- A callee that has accepted cannot reject any more. -/
theorem talk_accepted {n n' : Net} {e : Duplex.Ev Message CloseCode} (h : Accepted n)
    (hs : talk n e = some n') : Accepted n' := by
  obtain ⟨s, hright, hoffered, hrejected⟩ := h
  cases e with
  | left e => exact ⟨s, (talk_left hs).1.trans hright, hoffered, hrejected⟩
  | right e =>
      obtain ⟨-, ⟨hnone, -⟩ | ⟨s₁, hs₁, hmove⟩⟩ := talk_right hs
      · rw [hright] at hnone
        cases hnone
      obtain rfl : s = s₁ := Option.some.inj (hright.symm.trans hs₁)
      rcases hmove with ⟨m, st, hst, hright', -⟩ | ⟨m, st, hst, hright', -⟩
      · refine ⟨st.state, hright', ?_⟩
        rcases calleeStep_send hst with ⟨h, -⟩ | ⟨-, -, rfl⟩ | ⟨-, -, rfl⟩ | ⟨-, -, rfl⟩ |
          ⟨code, -, hcode, rfl⟩
        · exact absurd h hoffered
        · exact ⟨(by intro h; cases h), (by intro h; cases h)⟩
        · exact ⟨(by intro h; cases h), (by intro h; cases h)⟩
        · exact ⟨(by intro h; cases h), (by intro h; cases h)⟩
        · refine ⟨(by intro h; cases h), fun h => hoffered (hcode ?_)⟩
          cases h
          rfl
      · refine ⟨st.state, hright', ?_⟩
        rcases calleeStep_recv hst with ⟨-, -, rfl⟩ | ⟨-, rfl⟩ <;>
          exact ⟨(by intro h; cases h), (by intro h; cases h)⟩

/-- The callee waits for input, a `Cancel` is all that will come, or it has ended otherwise
    than completed. -/
def Abandoned (n : Net) : Prop :=
  (n.left = .canceling ∨ n.left.isTerminal = true) ∧
    ((n.right = some .needInputSent ∧ n.toRight = [.cancel]) ∨
      ∃ o, n.right = some (.terminal o) ∧ o ≠ .completed)

/-- A canceled question is never answered, so nothing completes. -/
theorem talk_abandoned {n n' : Net} {e : Duplex.Ev Message CloseCode} (h : Abandoned n)
    (hs : talk n e = some n') : Abandoned n' := by
  obtain ⟨hleft, hright⟩ := h
  cases e with
  | left e =>
      obtain ⟨hsame, ⟨m, st, hst, -⟩ | ⟨m, st, hst, hleft', hqueue⟩⟩ := talk_left hs
      · -- A caller that has canceled sends nothing any more.
        rcases hleft with hcanceling | hterminal
        · rw [hcanceling] at hst
          cases m <;> cases hst
        · rw [callerStep_nonterminal hst] at hterminal
          cases hterminal
      · refine ⟨?_, by rw [hsame, hqueue]; exact hright⟩
        rw [hleft']
        rcases hleft with hcanceling | hterminal
        · rw [hcanceling] at hst
          rcases callerStep_recv hst with ⟨h, -⟩ | ⟨h, -⟩ | ⟨h, -⟩ | ⟨-, -, rfl⟩ |
            ⟨-, code, -, rfl⟩ | ⟨-, -, rfl⟩ | ⟨-, -, rfl⟩
          all_goals first | cases h | exact Or.inl rfl | exact Or.inr rfl
        · rw [callerStep_nonterminal hst] at hterminal
          cases hterminal
  | right e =>
      obtain ⟨hsame, hmove⟩ := talk_right hs
      refine ⟨by rw [hsame]; exact hleft, ?_⟩
      rcases hright with ⟨hwaits, hqueue⟩ | ⟨o, hended, -⟩
      · rcases hmove with ⟨hnone, -⟩ | ⟨s, hs₁, hmove⟩
        · rw [hwaits] at hnone
          cases hnone
        obtain rfl : .needInputSent = s := Option.some.inj (hwaits.symm.trans hs₁)
        rcases hmove with ⟨m, st, hst, hright', -⟩ | ⟨m, st, hst, hright', hq⟩
        · rcases calleeStep_send hst with ⟨h, -⟩ | ⟨h, -⟩ | ⟨h, -⟩ | ⟨h, -⟩ | ⟨code, -, -, rfl⟩
          all_goals first | cases h | exact Or.inr ⟨_, hright', (by intro h; cases h)⟩
        · rw [hqueue] at hq
          obtain ⟨rfl, -⟩ := List.cons.inj hq
          rcases calleeStep_recv hst with ⟨-, ⟨b, h⟩, -⟩ | ⟨-, rfl⟩
          · cases h
          · exact Or.inr ⟨.canceled, hright', (by intro h; cases h)⟩
      · rcases hmove with ⟨hnone, -⟩ | ⟨s, hs₁, hmove⟩
        · rw [hended] at hnone
          cases hnone
        obtain rfl := Option.some.inj (hended.symm.trans hs₁)
        rcases hmove with ⟨m, st, hst, -⟩ | ⟨m, st, hst, -⟩ <;> cases hst

/-- Where a `Cancel` is all a waiting callee will read, the caller has canceled. -/
theorem abandoned_of_cancel (hn : Known n) (hlive : n.left.isTerminal = false)
    (hright : n.right = some .needInputSent) (hqueue : n.toRight = [.cancel]) : Abandoned n := by
  refine ⟨Or.inl ?_, Or.inl ⟨hright, hqueue⟩⟩
  obtain ⟨d, hd, hin⟩ := hn.compatible.inStep hlive
  rw [hright, hqueue] at hin
  obtain rfl : d = .canceling := by
    cases hin
    rfl
  by_contra hne
  have hdialing : n.left ≠ .dialing := by
    intro hleft
    rw [hleft] at hd
    cases hq : n.toLeft with
    | nil =>
        rw [hq] at hd
        cases hd
    | cons m q =>
        rw [hq] at hd
        obtain ⟨c, hm, -⟩ := Duplex.drain_head rfl hd
        obtain ⟨st, hst, -⟩ := takes_eq_some.mp hm
        cases m <;> cases hst
  exact (arrives_uncanceled ⟨hdialing, hne⟩ hd).2 rfl

/-- **WHICH VERDICTS ARE STILL OPEN.**  In every state of every run in which neither side has
    ended its call, messages alone can bring both to `Canceled`; to `Failed` with any code,
    except that a rejection needs a callee that has not accepted; to `Completed`, except
    where the callee waits for input and a `Cancel` is all it will read; and to nothing else. -/
theorem open_verdicts (es : List (Duplex.Ev Message CloseCode)) (n : Net)
    (hrun : runFrom net start es = some n) (hlive : n.left.isTerminal = false)
    (hopen : ∀ o, n.right ≠ some (.terminal o)) :
    CanEnd n .canceled ∧
    (∀ code, CanEnd n (.failed code) ↔
      (code = .rejected → n.right = none ∨ n.right = some .offered)) ∧
    (CanEnd n .completed ↔ ¬ (n.right = some .needInputSent ∧ n.toRight = [.cancel])) ∧
    ∀ o, CanEnd n o → IsVerdict o := by
  have hn := known_run hrun
  refine ⟨can_cancel hn hlive hopen, fun code => ⟨?_, can_fail hn hlive hopen⟩,
    ⟨?_, can_complete hn hlive hopen⟩, ?_⟩
  · rintro ⟨n', hreach, -, hright'⟩ rfl
    cases hright : n.right with
    | none => exact Or.inl rfl
    | some s =>
        refine Or.inr ?_
        by_contra hoffered
        have haccepted : Accepted n :=
          ⟨s, hright, fun h => hoffered (congrArg some h), fun h => hopen _ (by rw [hright, h])⟩
        obtain ⟨s', hs', -, hrejected⟩ :=
          talk_invariant Accepted (fun _ _ _ => talk_accepted) haccepted hreach
        exact hrejected (Option.some.inj (hs'.symm.trans hright'))
  · rintro ⟨n', hreach, -, hright'⟩ ⟨hright, hqueue⟩
    obtain ⟨-, ⟨hwaits, -⟩ | ⟨o, ho, hne⟩⟩ := talk_invariant Abandoned
      (fun _ _ _ => talk_abandoned) (abandoned_of_cancel hn hlive hright hqueue) hreach
    · rw [hright'] at hwaits
      cases hwaits
    · cases hright'.symm.trans ho
      exact hne rfl
  · rintro o ⟨n', hreach, hleft', -⟩
    have hheard : Heard n := fun o ho => by rw [ho] at hlive; cases hlive
    exact talk_invariant Heard (fun _ _ _ => talk_heard) hheard hreach o hleft'

end

section

local instance : Base64Engine := urlSafeNoPad

/-- The callee has asked for input, and the caller cancels instead. -/
def asked : List (Duplex.Ev Message CloseCode) :=
  [.left (.send (.submit taskOne oneSecond plain none [])), .right .recv,
    .right (.send .accepted), .right (.send .needInput), .left .recv, .left .recv,
    .left (.send .cancel)]

theorem open_verdicts_asked :
    ∃ n, runFrom net start asked = some n ∧ CanEnd n .canceled ∧ ¬ CanEnd n .completed := by
  have hopen := open_verdicts asked _ rfl rfl fun o ho => (by cases ho)
  exact ⟨_, rfl, hopen.1, fun hcomplete => (hopen.2.2.1.mp hcomplete) ⟨rfl, rfl⟩⟩

end

end UatOpenVerdicts
