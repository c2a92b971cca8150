import Uat.State

/-! # Caller against callee — the two tables run against each other

    One caller (from `Dialing`) and one callee, composed over two unbounded FIFO
    queues.  The callee's machine does not exist until it dequeues the `Submit`; it
    then starts in `Offered`.  Each side puts on its queue exactly the messages whose
    `Send` its step function accepts, and whatever that step emits; timeouts and
    connection losses happen on either side at any moment.

    Two results.  In the lossless network no honest message is ever refused
    (`protocol_compatible`).  In the lossy one, where in-flight messages may vanish at
    any moment, the caller never holds a verdict the callee does not hold
    (`outcome_agreement`). -/

namespace UatTwoParty

open UatTypes UatState StepRun Duplex

section

variable [Base64Engine]

/-- The two-party system: caller left, callee (once started) right. -/
abbrev Net := Duplex.Net CallerState (Option CalleeState) Message

/-- An act, as the caller's table has it. -/
def callerEvent : Act Message CloseCode → CallerEvent
  | .send m => .send m
  | .recv m => .recv m
  | .timeout => .timeout
  | .connLost c => .connLost c

/-- An act, as the callee's table has it. -/
def calleeEvent : Act Message CloseCode → CalleeEvent
  | .send m => .send m
  | .recv m => .recv m
  | .timeout => .timeout
  | .connLost c => .connLost c

/-- The caller: `caller_step`, an `Illegal` pair is not a move. -/
def caller : Party CallerState Message CloseCode where
  step c a := match callerStep c (callerEvent a) with
    | .ok st => some (st.state, st.emit)
    | .error _ => none

/-- The callee: `Submit` starts it, from then on it is `callee_step`. -/
def callee : Party (Option CalleeState) Message CloseCode where
  step
    | some s, a => match calleeStep s (calleeEvent a) with
        | .ok st => some (some st.state, st.emit)
        | .error _ => none
    | none, .recv (.submit ..) => some (some .offered, none)
    | none, _ => none

/-- Both sides at rest, nothing sent. -/
def start : Net := ⟨.dialing, none, [], [], [], []⟩

/-- The caller moves as its table does. -/
theorem caller_step_iff {c c' : CallerState} {a : Act Message CloseCode} {out : Option Message} :
    caller.step c a = some (c', out) ↔ callerStep c (callerEvent a) = .ok ⟨c', out⟩ := by
  show (match callerStep c (callerEvent a) with
    | .ok st => some (st.state, st.emit)
    | .error _ => none) = some (c', out) ↔ _
  cases callerStep c (callerEvent a) with
  | error e => exact ⟨fun h => (nomatch h), fun h => (nomatch h)⟩
  | ok st =>
      obtain ⟨s, o⟩ := st
      simp

/-- A callee that has started moves as its table does. -/
theorem callee_step_iff {s : CalleeState} {s' : Option CalleeState}
    {a : Act Message CloseCode} {out : Option Message} :
    callee.step (some s) a = some (s', out) ↔
      ∃ t, s' = some t ∧ calleeStep s (calleeEvent a) = .ok ⟨t, out⟩ := by
  show (match calleeStep s (calleeEvent a) with
    | .ok st => some (some st.state, st.emit)
    | .error _ => none) = some (s', out) ↔ _
  cases calleeStep s (calleeEvent a) with
  | error e => exact ⟨fun h => (nomatch h), fun ⟨_, _, h⟩ => nomatch h⟩
  | ok st =>
      obtain ⟨t, o⟩ := st
      constructor
      · intro h
        obtain ⟨rfl, rfl⟩ := Prod.mk.inj (Option.some.inj h)
        exact ⟨t, rfl, rfl⟩
      · rintro ⟨t', rfl, h⟩
        cases h
        rfl

/-- The callee is started by a `Submit` and by nothing else. -/
theorem callee_start {a : Act Message CloseCode} {s' : Option CalleeState}
    {out : Option Message} (h : callee.step none a = some (s', out)) :
    (∃ t d ct cr b, a = .recv (.submit t d ct cr b)) ∧ s' = some .offered ∧ out = none := by
  cases a with
  | recv m =>
      cases m with
      | submit t d ct cr b =>
          obtain ⟨rfl, rfl⟩ := Prod.mk.inj (Option.some.inj h)
          exact ⟨⟨t, d, ct, cr, b, rfl⟩, rfl, rfl⟩
      | _ => cases h
  | _ => cases h

/-! ## Compatibility

    The invariant compares the callee with the caller *as it will be* once everything
    in flight to it has arrived (`arrives`).  `Expect` says what the callee still has
    to read; `InStep` is the table of pairs that can occur. -/

/-- The caller after receiving one message. -/
def takes (c : CallerState) (m : Message) : Option CallerState :=
  match callerStep c (.recv m) with
  | .ok st => some st.state
  | .error _ => none

/-- The caller once a whole queue has arrived; a terminal caller reads no more. -/
def arrives (c : CallerState) (q : List Message) : Option CallerState :=
  drain CallerState.isTerminal takes c q

/-- What the caller takes is a step of its table. -/
theorem takes_eq_some {c d : CallerState} {m : Message} :
    takes c m = some d ↔ ∃ st, callerStep c (.recv m) = .ok st ∧ st.state = d := by
  rw [takes]
  cases callerStep c (.recv m) with
  | error e => exact ⟨fun h => (nomatch h), fun ⟨_, h, _⟩ => nomatch h⟩
  | ok st => simp

/-- A pending `Cancel` at the end of the caller's messages. -/
def cancelTail (canceling : Bool) : List Message := if canceling then [.cancel] else []

/-- What a callee that has not ended may still have to read.  The flag says whether a
    `Cancel` is the last of it. -/
def Expect (b : Bool) : Option CalleeState → List Message → Prop
  | none, q => (b = false ∧ q = []) ∨ ∃ t d ct cr body, q = .submit t d ct cr body :: cancelTail b
  | some .offered, q => q = cancelTail b
  | some .working, q => q = cancelTail b
  | some .needInputSent, q => q = cancelTail b ∨ ∃ body, q = .input body :: cancelTail b
  | some (.terminal _), _ => False

/-- The callee is gone or can read all it still has to read. -/
def Readable (s : Option CalleeState) (q : List Message) : Prop :=
  (∃ b, Expect b s q) ∨ ∃ o, s = some (.terminal o)

/-- A live caller (everything in flight delivered), the callee, and the callee's unread
    messages, as they can occur together. -/
inductive InStep : CallerState → Option CalleeState → List Message → Prop where
  | dialing : InStep .dialing none []
  | submitted (t : TaskId) (d : Deadline) (ct : ContentType) (cr : Option Credential)
      (body : Bytes) : InStep .submitted none [.submit t d ct cr body]
  | offered : InStep .submitted (some .offered) []
  | working : InStep .working (some .working) []
  | asked : InStep .awaitingInput (some .needInputSent) []
  | answered (body : Bytes) : InStep .working (some .needInputSent) [.input body]
  | canceling {s : Option CalleeState} {q : List Message} (h : Expect true s q) :
      InStep .canceling s q
  | gone (c : CallerState) (o : Outcome) (q : List Message) :
      InStep c (some (.terminal o)) q

/-- **Compatibility invariant.** -/
structure Compatible (n : Net) : Prop where
  readable : Readable n.right n.toRight
  inStep : n.left.isTerminal = false →
    ∃ d, arrives n.left n.toLeft = some d ∧ InStep d n.right n.toRight

/-- Sides that are in step can read what is on its way. -/
theorem InStep.readable {c : CallerState} {s : Option CalleeState} {q : List Message}
    (h : InStep c s q) : Readable s q := by
  cases h with
  | dialing => exact Or.inl ⟨false, Or.inl ⟨rfl, rfl⟩⟩
  | submitted t d ct cr body => exact Or.inl ⟨false, Or.inr ⟨t, d, ct, cr, body, rfl⟩⟩
  | offered => exact Or.inl ⟨false, rfl⟩
  | working => exact Or.inl ⟨false, rfl⟩
  | asked => exact Or.inl ⟨false, Or.inl rfl⟩
  | answered body => exact Or.inl ⟨false, Or.inr ⟨body, rfl⟩⟩
  | canceling h => exact Or.inl ⟨true, h⟩
  | gone c o q => exact Or.inr ⟨o, rfl⟩

/-! ### The caller moves -/

/-- The caller's view after it has sent `Cancel`. -/
def cancelOf (c : CallerState) : CallerState := if c.isTerminal then c else .canceling

/-- Whatever a caller could read, a canceling caller can read. -/
theorem takes_canceling {c d : CallerState} {m : Message} (h : takes c m = some d) :
    takes .canceling m = some (cancelOf d) := by
  obtain ⟨st, hst, rfl⟩ := takes_eq_some.mp h
  rcases callerStep_recv hst with ⟨-, rfl, rfl⟩ | ⟨-, rfl, rfl⟩ | ⟨-, rfl, rfl⟩ |
    ⟨-, ⟨b, rfl⟩, rfl⟩ | ⟨-, code, rfl, rfl⟩ | ⟨-, rfl, rfl⟩ | ⟨-, rfl | rfl | rfl, rfl⟩ <;> rfl

/-- A caller that cancels can still read everything in flight to it. -/
theorem arrives_cancel {c d : CallerState} {q : List Message} (hc : c.isTerminal = false)
    (h : arrives c q = some d) : arrives .canceling q = some (cancelOf d) := by
  induction q generalizing c with
  | nil =>
      obtain rfl := Option.some.inj h
      show some CallerState.canceling = some (if c.isTerminal then c else .canceling)
      rw [hc]
      rfl
  | cons m q ih =>
      obtain ⟨c', hm, hq⟩ := drain_head hc h
      show drain CallerState.isTerminal takes .canceling (m :: q) = _
      rw [drain_cons rfl, takes_canceling hm, Option.bind_some]
      cases hc' : c'.isTerminal with
      | true =>
          rw [drain_halted hc'] at hq
          obtain rfl := Option.some.inj hq
          have hd : cancelOf c' = c' := by rw [cancelOf, if_pos hc']
          rw [hd, drain_halted hc']
      | false =>
          have hd : cancelOf c' = .canceling := by
            rw [cancelOf, if_neg (by rw [hc']; exact Bool.false_ne_true)]
          rw [hd]
          exact ih hc' hq

/-- Only a caller that canceled is ever `Canceling`. -/
theorem arrives_uncanceled {c d : CallerState} {q : List Message}
    (hc : c ≠ .dialing ∧ c ≠ .canceling) (h : arrives c q = some d) :
    d ≠ .dialing ∧ d ≠ .canceling := by
  refine drain_invariant (P := fun c => c ≠ .dialing ∧ c ≠ .canceling) ?_ hc h
  intro c m c' hc hm
  obtain ⟨st, hst, rfl⟩ := takes_eq_some.mp hm
  rcases callerStep_recv hst with ⟨-, -, rfl⟩ | ⟨-, -, rfl⟩ | ⟨-, -, rfl⟩ | ⟨-, -, rfl⟩ |
    ⟨-, code, -, rfl⟩ | ⟨-, -, rfl⟩ | ⟨rfl, -, -⟩
  all_goals first | exact absurd rfl hc.2 | exact ⟨by simp, by simp⟩

/-- Canceling turns a pair of the table into a pair of the table. -/
theorem InStep.cancel {c : CallerState} {s : Option CalleeState} {q : List Message}
    (h : InStep c s q) (hd : c ≠ .dialing) (hc : c ≠ .canceling) :
    InStep (cancelOf c) s (q ++ [.cancel]) := by
  cases h with
  | dialing => exact absurd rfl hd
  | submitted t d ct cr body =>
      have hq : Expect true none [.submit t d ct cr body, .cancel] :=
        Or.inr ⟨t, d, ct, cr, body, rfl⟩
      exact .canceling hq
  | offered =>
      have hq : Expect true (some .offered) [.cancel] := rfl
      exact .canceling hq
  | working =>
      have hq : Expect true (some .working) [.cancel] := rfl
      exact .canceling hq
  | asked =>
      have hq : Expect true (some .needInputSent) [.cancel] := Or.inl rfl
      exact .canceling hq
  | answered body =>
      have hq : Expect true (some .needInputSent) [.input body, .cancel] := Or.inr ⟨body, rfl⟩
      exact .canceling hq
  | canceling h => exact absurd rfl hc
  | gone c o q => exact .gone _ o _

/-- An asked caller that answers: what was in flight to it, if anything, ends the call. -/
theorem arrives_input {d : CallerState} {q : List Message}
    (h : arrives .awaitingInput q = some d) :
    (q = [] ∧ d = .awaitingInput) ∨ (arrives .working q = some d ∧ d.isTerminal = true) := by
  cases q with
  | nil =>
      obtain rfl := Option.some.inj h
      exact Or.inl ⟨rfl, rfl⟩
  | cons m q =>
      obtain ⟨c', hm, hq⟩ := drain_head rfl h
      obtain ⟨st, hst, rfl⟩ := takes_eq_some.mp hm
      rcases callerStep_recv hst with ⟨h, -⟩ | ⟨h, -⟩ | ⟨h, -⟩ | ⟨h | h, -⟩ |
        ⟨-, code, rfl, rfl⟩ | ⟨h, -⟩ | ⟨h, -⟩
      all_goals try exact absurd h (by decide)
      rw [drain_halted rfl] at hq
      obtain rfl := Option.some.inj hq
      refine Or.inr ⟨?_, rfl⟩
      show drain CallerState.isTerminal takes .working (.failed code :: q) = _
      rw [drain_cons rfl]
      exact drain_halted rfl q

/-- **Caller sends.** -/
theorem inStep_send {c d : CallerState} {m : Message} {st : Step CallerState}
    {s : Option CalleeState} {q r : List Message} (hc : c.isTerminal = false)
    (hst : callerStep c (.send m) = .ok st) (hd : arrives c q = some d) (h : InStep d s r) :
    ∃ d', arrives st.state q = some d' ∧ InStep d' s (r ++ [m]) := by
  rcases callerStep_send hst with ⟨rfl, ⟨t, dl, ct, cr, b, rfl⟩, rfl⟩ | ⟨hcl, rfl, rfl⟩ |
    ⟨rfl, ⟨b, rfl⟩, rfl⟩
  · -- Submit: nothing can be in flight to a dialing caller
    cases q with
    | cons m q => cases hd
    | nil =>
        obtain rfl := Option.some.inj hd
        refine ⟨.submitted, rfl, ?_⟩
        cases h with
        | dialing => exact .submitted t dl ct cr b
        | gone c o r => exact .gone _ o _
  · -- Cancel: the same queue arrives at a canceling caller
    have hne : c ≠ .dialing ∧ c ≠ .canceling := by
      rcases hcl with rfl | rfl | rfl <;> exact ⟨by simp, by simp⟩
    have hdne := arrives_uncanceled hne hd
    exact ⟨cancelOf d, arrives_cancel hc hd, h.cancel hdne.1 hdne.2⟩
  · rcases arrives_input hd with ⟨rfl, rfl⟩ | ⟨hd', hterm⟩
    · refine ⟨.working, rfl, ?_⟩
      cases h with
      | asked => exact .answered b
      | gone c o r => exact .gone _ o _
    · -- the call has ended in flight: the callee is gone
      refine ⟨d, hd', ?_⟩
      cases h <;> first | exact .gone _ _ _ | cases hterm

/-- **Caller step.** Every move of the caller keeps the two sides compatible. -/
theorem compatible_left {n n' : Net} {e : Local Message CloseCode} (h : Compatible n)
    (he : step caller callee n (.left e) = some n') : Compatible n' := by
  obtain ⟨a, rest, c', out, ha, hs, rfl⟩ := step_left.mp he
  have hstep := caller_step_iff.mp hs
  have hc := callerStep_nonterminal hstep
  obtain rfl : out = none := callerStep_emit hstep
  obtain ⟨d, hd, hin⟩ := h.inStep hc
  -- only a send puts anything on the outgoing queue
  rcases act_cases ha with ⟨m, rfl, rfl⟩ | ⟨m, rfl, hq⟩ | ⟨rfl, rfl⟩ | ⟨code, rfl, rfl⟩ <;>
    simp only [puts, Option.toList_none, List.append_nil]
  · obtain ⟨d', hd', hin'⟩ := inStep_send hc hstep hd hin
    exact ⟨hin'.readable, fun _ => ⟨d', hd', hin'⟩⟩
  · rw [hq] at hd
    obtain ⟨c'', hm, hd'⟩ := drain_head hc hd
    obtain ⟨st, hst, rfl⟩ := takes_eq_some.mp hm
    obtain rfl := Except.ok.inj (hst.symm.trans hstep)
    exact ⟨h.readable, fun _ => ⟨d, hd', hin⟩⟩
  · cases (callerStep_timeout hc).symm.trans hstep
    exact ⟨h.readable, nofun⟩
  · obtain ⟨o, ho⟩ := connLostOutcomeCaller_terminal code
    cases (callerStep_connLost hc code).symm.trans hstep
    refine ⟨h.readable, fun hterm => ?_⟩
    rw [ho] at hterm
    cases hterm

/-! ### The callee moves -/

/-- A pending `Cancel` is never an `Input`. -/
theorem cancelTail_cons {b : Bool} {m : Message} {rest : List Message}
    (h : m :: rest = cancelTail b) : b = true ∧ m = .cancel ∧ rest = [] := by
  cases b with
  | false => cases h
  | true =>
      obtain ⟨rfl, rfl⟩ := List.cons.inj h
      exact ⟨rfl, rfl, rfl⟩

/-- **Sends.** A send keeps what the callee has to read, or ends it. -/
theorem expect_send {b : Bool} {s : CalleeState} {m : Message} {st : Step CalleeState}
    {q : List Message} (h : Expect b (some s) q) (hst : calleeStep s (.send m) = .ok st) :
    Expect b (some st.state) q ∨ ∃ o, st.state = .terminal o := by
  rcases calleeStep_send hst with ⟨rfl, -, rfl⟩ | ⟨rfl, -, rfl⟩ | ⟨rfl, -, rfl⟩ |
    ⟨-, -, rfl⟩ | ⟨code, -, -, rfl⟩
  · exact Or.inl h
  · exact Or.inl h
  · exact Or.inl (Or.inl h)
  · exact Or.inr ⟨_, rfl⟩
  · exact Or.inr ⟨_, rfl⟩

/-- **Receives.** A receive takes the first message of what is expected, or ends it. -/
theorem expect_recv {b : Bool} {s : CalleeState} {m : Message} {st : Step CalleeState}
    {q : List Message} (h : Expect b (some s) (m :: q)) (hst : calleeStep s (.recv m) = .ok st) :
    Expect b (some st.state) q ∨ (∃ o, st.state = .terminal o) ∧ b = true := by
  rcases calleeStep_recv hst with ⟨rfl, ⟨body, rfl⟩, rfl⟩ | ⟨rfl, rfl⟩
  · rcases h with h | ⟨body', h⟩
    · cases (cancelTail_cons h).2.1
    · exact Or.inl (List.cons.inj h).2
  · refine Or.inr ⟨⟨_, rfl⟩, ?_⟩
    cases s with
    | offered => exact (cancelTail_cons h).1
    | working => exact (cancelTail_cons h).1
    | needInputSent =>
        rcases h with h | ⟨body', h⟩
        · exact (cancelTail_cons h).1
        · cases (List.cons.inj h).1
    | terminal o => exact h.elim

/-- **Callee moves, reader's view.** What is left can still be read. -/
theorem readable_callee {s s' : Option CalleeState} {e : Local Message CloseCode}
    {a : Act Message CloseCode} {q rest : List Message} {out : Option Message}
    (h : Readable s q) (ha : e.act q = some (a, rest))
    (hs : callee.step s a = some (s', out)) : Readable s' rest := by
  cases s with
  | none =>
      obtain ⟨⟨t, d, ct, cr, b, rfl⟩, rfl, rfl⟩ := callee_start hs
      rcases act_cases ha with ⟨m, hm, -⟩ | ⟨m, hm, rfl⟩ | ⟨hm, -⟩ | ⟨c, hm, -⟩ <;> cases hm
      rcases h with ⟨fl, ⟨-, hq⟩ | ⟨t', d', ct', cr', b', hq⟩⟩ | ⟨o, ho⟩
      · cases hq
      · exact Or.inl ⟨fl, (List.cons.inj hq).2⟩
      · cases ho
  | some s =>
      obtain ⟨s', rfl, hst⟩ := callee_step_iff.mp hs
      have hnt := calleeStep_nonterminal hst
      rcases h with ⟨b, h⟩ | ⟨o, ho⟩
      · rcases act_cases ha with ⟨m, rfl, rfl⟩ | ⟨m, rfl, rfl⟩ | ⟨rfl, rfl⟩ | ⟨c, rfl, rfl⟩
        · rcases expect_send h hst with h' | ⟨o, ho⟩
          · exact Or.inl ⟨b, h'⟩
          · exact Or.inr ⟨o, congrArg some ho⟩
        · rcases expect_recv h hst with h' | ⟨⟨o, ho⟩, -⟩
          · exact Or.inl ⟨b, h'⟩
          · exact Or.inr ⟨o, congrArg some ho⟩
        · cases (calleeStep_timeout hnt).symm.trans hst
          exact Or.inr ⟨_, rfl⟩
        · obtain ⟨o, ho⟩ := connLostOutcomeCallee_terminal c
          cases (calleeStep_connLost hnt c).symm.trans hst
          exact Or.inr ⟨o, congrArg some ho⟩
      · cases ho
        cases hnt

/-- A caller facing a live callee can always read `Failed`, and that ends the call. -/
theorem takes_failed {d : CallerState} {s : CalleeState} {q : List Message}
    (h : InStep d (some s) q) (hs : s.isTerminal = false) (code : FailureCode) :
    ∃ d', takes d (.failed code) = some d' ∧ InStep d' (some (.terminal (.failed code))) q := by
  cases h <;> first | exact ⟨_, rfl, .gone _ _ _⟩ | cases hs

/-- **Callee sends, caller's view.** The caller can read every message the callee's own
    table lets it send. -/
theorem inStep_send_callee {d : CallerState} {s : CalleeState} {m : Message}
    {st : Step CalleeState} {q : List Message} (h : InStep d (some s) q)
    (hst : calleeStep s (.send m) = .ok st) :
    ∃ d', takes d m = some d' ∧ InStep d' (some st.state) q := by
  have hnt := calleeStep_nonterminal hst
  rcases calleeStep_send hst with ⟨rfl, rfl, rfl⟩ | ⟨rfl, rfl, rfl⟩ | ⟨rfl, rfl, rfl⟩ |
    ⟨rfl, ⟨b, rfl⟩, rfl⟩ | ⟨code, rfl, -, rfl⟩
  · cases h with
    | offered => exact ⟨_, rfl, .working⟩
    | canceling h => exact ⟨_, rfl, .canceling h⟩
  · cases h with
    | working => exact ⟨_, rfl, .working⟩
    | canceling h => exact ⟨_, rfl, .canceling h⟩
  · cases h with
    | working => exact ⟨_, rfl, .asked⟩
    | canceling h => exact ⟨_, rfl, .canceling (Or.inl h)⟩
  · cases h <;> exact ⟨_, rfl, .gone _ _ _⟩
  · exact takes_failed h hnt code

/-- **Callee receives, caller's view.** The only message a receive puts in flight is
    `Canceled`, and then the caller is waiting for it. -/
theorem inStep_recv_callee {d : CallerState} {s : CalleeState} {m : Message}
    {st : Step CalleeState} {q : List Message} (h : InStep d (some s) (m :: q))
    (hst : calleeStep s (.recv m) = .ok st) :
    ∃ d', arrives d st.emit.toList = some d' ∧ InStep d' (some st.state) q := by
  have hnt := calleeStep_nonterminal hst
  rcases calleeStep_recv hst with ⟨rfl, ⟨b, rfl⟩, rfl⟩ | ⟨rfl, rfl⟩
  · cases h with
    | answered => exact ⟨_, rfl, .working⟩
    | canceling h =>
        rcases expect_recv h hst with h' | ⟨⟨o, ho⟩, -⟩
        · exact ⟨_, rfl, .canceling h'⟩
        · cases ho
  · cases h with
    | canceling h => exact ⟨_, rfl, .gone _ _ _⟩
    | gone c o q => cases hnt

/-- **Callee moves, caller's view.** The caller can read what the move puts in flight. -/
theorem inStep_callee {d : CallerState} {s s' : Option CalleeState}
    {e : Local Message CloseCode} {a : Act Message CloseCode} {q rest : List Message}
    {out : Option Message} (h : InStep d s q) (ha : e.act q = some (a, rest))
    (hs : callee.step s a = some (s', out)) :
    ∃ d', arrives d (puts a out) = some d' ∧ InStep d' s' rest := by
  cases s with
  | none =>
      obtain ⟨⟨t, dl, ct, cr, b, rfl⟩, rfl, rfl⟩ := callee_start hs
      rcases act_cases ha with ⟨m, hm, -⟩ | ⟨m, hm, rfl⟩ | ⟨hm, -⟩ | ⟨c, hm, -⟩ <;> cases hm
      refine ⟨d, rfl, ?_⟩
      cases h with
      | submitted => exact .offered
      | canceling h =>
          rcases h with ⟨hb, -⟩ | ⟨t', d', ct', cr', b', hq⟩
          · cases hb
          · exact .canceling (s := some .offered) (List.cons.inj hq).2
  | some s =>
      obtain ⟨s', rfl, hst⟩ := callee_step_iff.mp hs
      have hnt := calleeStep_nonterminal hst
      -- A callee that moves has not ended, so the caller in step with it has not either.
      have hd : d.isTerminal = false := by
        cases h <;> first | rfl | cases hnt
      have hone : ∀ m d', takes d m = some d' → arrives d [m] = some d' := by
        intro m d' hm
        show drain CallerState.isTerminal takes d [m] = some d'
        rw [drain_cons hd, hm]
        rfl
      rcases act_cases ha with ⟨m, rfl, rfl⟩ | ⟨m, rfl, rfl⟩ | ⟨rfl, rfl⟩ | ⟨c, rfl, rfl⟩
      · obtain ⟨d', hm, hin⟩ := inStep_send_callee h hst
        obtain rfl : out = none := calleeStep_send_emit hst
        exact ⟨d', hone m d' hm, hin⟩
      · exact inStep_recv_callee h hst
      · cases (calleeStep_timeout hnt).symm.trans hst
        obtain ⟨d', hm, hin⟩ := takes_failed h hnt .deadlineExceeded
        exact ⟨d', hone _ d' hm, hin⟩
      · obtain ⟨o, ho⟩ := connLostOutcomeCallee_terminal c
        obtain ⟨rfl, rfl⟩ :=
          Step.mk.inj (Except.ok.inj ((calleeStep_connLost hnt c).symm.trans hst))
        rw [ho]
        exact ⟨d, rfl, .gone _ _ _⟩

/-- **Callee step.** Every move of the callee keeps the two sides compatible. -/
theorem compatible_right {n n' : Net} {e : Local Message CloseCode} (h : Compatible n)
    (he : step caller callee n (.right e) = some n') : Compatible n' := by
  obtain ⟨a, rest, s', out, ha, hs, rfl⟩ := step_right.mp he
  refine ⟨readable_callee h.readable ha hs, fun hc => ?_⟩
  obtain ⟨d, hd, hin⟩ := h.inStep hc
  obtain ⟨d', hd', hin'⟩ := inStep_callee hin ha hs
  exact ⟨d', (drain_append _ hd).trans hd', hin'⟩

/-- **Step lemma.** The two sides stay compatible. -/
theorem compatible_step {n n' : Net} {e : Ev Message CloseCode} (h : Compatible n)
    (he : step caller callee n e = some n') : Compatible n' := by
  cases e with
  | left e => exact compatible_left h he
  | right e => exact compatible_right h he

/-- They start compatible. -/
theorem compatible_start : Compatible start :=
  ⟨Or.inl ⟨false, Or.inl ⟨rfl, rfl⟩⟩, fun _ => ⟨.dialing, rfl, .dialing⟩⟩

/-- Every state of every lossless run is compatible. -/
theorem compatible_run {es : List (Ev Message CloseCode)} {n : Net}
    (h : runFrom (step caller callee) start es = some n) : Compatible n :=
  run_invariant _ (fun _ _ _ hn he => compatible_step hn he) es start n compatible_start h

/-- A callee that can read its queue accepts its first message. -/
theorem Readable.accepts {s : CalleeState} {m : Message} {q : List Message}
    (h : Readable (some s) (m :: q)) (hs : s.isTerminal = false) :
    ∃ st, calleeStep s (.recv m) = .ok st := by
  rcases h with ⟨b, h⟩ | ⟨o, ho⟩
  · cases s with
    | offered =>
        obtain ⟨-, rfl, -⟩ := cancelTail_cons h
        exact ⟨_, rfl⟩
    | working =>
        obtain ⟨-, rfl, -⟩ := cancelTail_cons h
        exact ⟨_, rfl⟩
    | needInputSent =>
        rcases h with h | ⟨body, h⟩
        · obtain ⟨-, rfl, -⟩ := cancelTail_cons h
          exact ⟨_, rfl⟩
        · obtain ⟨rfl, -⟩ := List.cons.inj h
          exact ⟨_, rfl⟩
    | terminal o => cases hs
  · cases ho
    cases hs

/-! ### The result -/

/-- **PROTOCOL COMPATIBILITY.** After any lossless interleaving, a side that has not
    ended accepts the next message of its queue, and what starts the callee is a
    `Submit`. -/
theorem protocol_compatible (es : List (Ev Message CloseCode)) (n : Net)
    (h : runFrom (step caller callee) start es = some n) :
    (∀ m q, n.toLeft = m :: q → n.left.isTerminal = false →
      ∃ st, callerStep n.left (.recv m) = .ok st) ∧
    (∀ s m q, n.right = some s → n.toRight = m :: q → s.isTerminal = false →
      ∃ st, calleeStep s (.recv m) = .ok st) ∧
    (∀ m q, n.right = none → n.toRight = m :: q → ∃ t d ct cr b, m = .submit t d ct cr b) := by
  -- The invariant of the run, read at the head of each queue.
  have hn := compatible_run h
  refine ⟨?_, ?_, ?_⟩
  · intro m q hq hc
    obtain ⟨d, hd, -⟩ := hn.inStep hc
    rw [hq] at hd
    obtain ⟨c, hm, -⟩ := drain_head hc hd
    obtain ⟨st, hst, -⟩ := takes_eq_some.mp hm
    exact ⟨st, hst⟩
  · intro s m q hs hq hnt
    have hr := hn.readable
    rw [hs, hq] at hr
    exact hr.accepts hnt
  · intro m q hs hq
    have hr := hn.readable
    rw [hs, hq] at hr
    rcases hr with ⟨b, ⟨-, hb⟩ | ⟨t, d, ct, cr, body, hb⟩⟩ | ⟨o, ho⟩
    · cases hb
    · exact ⟨t, d, ct, cr, body, (List.cons.inj hb).1⟩
    · cases ho

/-! ## Agreement

    Over the lossy network: the callee's verdict is the last thing it ever puts on the
    wire, and the caller can only repeat it. -/

/-- The outcome a terminal message announces. -/
def verdict : Message → Option Outcome
  | .completed _ => some .completed
  | .failed code => some (.failed code)
  | .canceled => some .canceled
  | _ => none

/-- The outcomes a callee announces: `Completed`, `Failed(code)`, `Canceled`. -/
def IsVerdict : Outcome → Prop
  | .completed | .failed _ | .canceled => True
  | .closed _ | .peerLost => False

/-- **A verdict ends the caller, and no other message does.** -/
theorem ends_iff_verdict {c : CallerState} {m : Message} {st : Step CallerState} {o : Outcome}
    (h : callerStep c (.recv m) = .ok st) : st.state = .terminal o ↔ verdict m = some o := by
  rcases callerStep_recv h with ⟨-, rfl, rfl⟩ | ⟨-, rfl, rfl⟩ | ⟨-, rfl, rfl⟩ | ⟨-, ⟨b, rfl⟩, rfl⟩ |
    ⟨-, code, rfl, rfl⟩ | ⟨-, rfl, rfl⟩ | ⟨-, rfl | rfl | rfl, rfl⟩ <;>
    constructor <;> intro ho <;> cases ho <;> rfl

/-- **Agreement invariant.** -/
structure Agreed (n : Net) : Prop where
  /-- What is in flight to the caller was put there by the callee. -/
  sent : n.toLeft ⊆ n.sentLeft
  /-- A verdict on the wire is the callee's own state. -/
  ended : ∀ m ∈ n.sentLeft, ∀ o, verdict m = some o → n.right = some (.terminal o)
  /-- A verdict is the last thing on the wire. -/
  last : ∀ pre m post, n.sentLeft = pre ++ m :: post → (verdict m).isSome → post = []
  /-- The caller only holds a verdict the callee holds. -/
  held : ∀ o, IsVerdict o → n.left = .terminal o → n.right = some (.terminal o)

/-- The caller ends with a verdict only by receiving it. -/
theorem caller_verdict {c : CallerState} {a : Act Message CloseCode} {o : Outcome}
    {out : Option Message} (h : caller.step c a = some (.terminal o, out)) (ho : IsVerdict o) :
    ∃ m, a = .recv m ∧ verdict m = some o := by
  have hst := caller_step_iff.mp h
  have hc := callerStep_nonterminal hst
  cases a with
  | send m =>
      rcases callerStep_send hst with ⟨-, -, hs⟩ | ⟨-, -, hs⟩ | ⟨-, -, hs⟩ <;>
        cases (Step.mk.inj hs).1
  | recv m => exact ⟨m, rfl, (ends_iff_verdict hst).mp rfl⟩
  | timeout =>
      cases (callerStep_timeout hc).symm.trans hst
      exact ho.elim
  | connLost code =>
      have hcl := congrArg Step.state
        (Except.ok.inj ((callerStep_connLost hc code).symm.trans hst))
      -- PeerLost or Closed, never a verdict
      cases code <;> cases hcl <;> exact ho.elim

/-- A callee's move puts at most one message on the wire, and one that announces a
    verdict ends the callee with it. -/
theorem callee_puts {s s' : Option CalleeState} {a : Act Message CloseCode}
    {out : Option Message} (h : callee.step s a = some (s', out)) :
    puts a out = [] ∨
      ∃ m, puts a out = [m] ∧ ∀ o, verdict m = some o → s' = some (.terminal o) := by
  cases s with
  | none =>
      obtain ⟨⟨t, d, ct, cr, b, rfl⟩, -, rfl⟩ := callee_start h
      exact Or.inl rfl
  | some s =>
      obtain ⟨s', rfl, hst⟩ := callee_step_iff.mp h
      have hnt := calleeStep_nonterminal hst
      -- A `timeout` announces its `Failed`; a lost connection announces nothing.
      cases a with
      | send m =>
          obtain rfl : out = none := calleeStep_send_emit hst
          refine Or.inr ⟨m, rfl, ?_⟩
          intro o ho
          rcases calleeStep_send hst with ⟨-, rfl, -⟩ | ⟨-, rfl, -⟩ | ⟨-, rfl, -⟩ |
            ⟨-, ⟨b, rfl⟩, hs⟩ | ⟨code, rfl, -, hs⟩ <;> cases ho <;> cases hs <;> rfl
      | recv m =>
          rcases calleeStep_recv hst with ⟨-, -, hs⟩ | ⟨-, hs⟩
          · cases hs
            exact Or.inl rfl
          · cases hs
            refine Or.inr ⟨.canceled, rfl, ?_⟩
            intro o ho
            cases ho
            rfl
      | timeout =>
          cases (calleeStep_timeout hnt).symm.trans hst
          refine Or.inr ⟨_, rfl, ?_⟩
          intro o ho
          cases ho
          rfl
      | connLost code =>
          cases (calleeStep_connLost hnt code).symm.trans hst
          exact Or.inl rfl

/-- A callee that has ended does not move. -/
theorem callee_terminal (o : Outcome) (a : Act Message CloseCode) :
    callee.step (some (.terminal o)) a = none := rfl

/-- A caller that has ended takes no act at all. -/
theorem caller_terminal (o : Outcome) (a : Act Message CloseCode) :
    caller.step (.terminal o) a = none := rfl

/-- **Caller step.** -/
theorem agreed_left {n n' : Net} {e : Local Message CloseCode} (h : Agreed n)
    (he : step caller callee n (.left e) = some n') : Agreed n' := by
  obtain ⟨a, rest, c', out, ha, hs, rfl⟩ := step_left.mp he
  refine ⟨List.Subset.trans (act_rest_subset ha) h.sent, h.ended, h.last, ?_⟩
  intro o ho hc
  obtain rfl : c' = .terminal o := hc
  obtain ⟨m, rfl, hm⟩ := caller_verdict hs ho
  rcases act_cases ha with ⟨m', h', -⟩ | ⟨m', h', hq⟩ | ⟨h', -⟩ | ⟨c, h', -⟩ <;> cases h'
  have hmem : m ∈ n.toLeft := by rw [hq]; exact List.mem_cons_self ..
  exact h.ended m (h.sent hmem) o hm

/-- **Callee step.** A callee that moves has put no verdict on the wire yet. -/
theorem agreed_right {n n' : Net} {e : Local Message CloseCode} (h : Agreed n)
    (he : step caller callee n (.right e) = some n') : Agreed n' := by
  obtain ⟨a, rest, s', out, ha, hs, rfl⟩ := step_right.mp he
  have hlive : ∀ o, n.right ≠ some (.terminal o) := by
    intro o ho
    rw [ho, callee_terminal] at hs
    cases hs
  have hnone : ∀ m ∈ n.sentLeft, verdict m = none := by
    intro m hm
    cases hv : verdict m with
    | none => rfl
    | some o => exact absurd (h.ended m hm o hv) (hlive o)
  refine ⟨?_, ?_, ?_, ?_⟩
  · exact List.append_subset.mpr ⟨List.subset_append_of_subset_left _ h.sent,
      List.subset_append_right _ _⟩
  · intro m hm o ho
    rcases List.mem_append.mp hm with hm | hm
    · rw [hnone m hm] at ho
      cases ho
    · rcases callee_puts hs with hp | ⟨m', hp, hv⟩
      · rw [hp] at hm
        cases hm
      · rw [hp] at hm
        obtain rfl := List.mem_singleton.mp hm
        exact hv o ho
  · intro pre m post hsplit hm
    -- the verdict is in what this move put on the wire: at most one message
    have hlen : (puts a out).length ≤ 1 := by
      rcases callee_puts hs with hp | ⟨m', hp, -⟩ <;> rw [hp] <;> simp
    rcases List.append_eq_append_iff.mp hsplit with ⟨as, -, hput⟩ | ⟨as, hold, hput⟩
    · rw [hput, List.length_append, List.length_cons] at hlen
      exact List.eq_nil_of_length_eq_zero (by omega)
    · cases as with
      | nil =>
          rw [List.nil_append] at hput
          rw [← hput, List.length_cons] at hlen
          exact List.eq_nil_of_length_eq_zero (by omega)
      | cons m' as =>
          obtain ⟨rfl, -⟩ := List.cons.inj hput
          have hmem : m ∈ n.sentLeft := by rw [hold]; simp
          rw [hnone m hmem] at hm
          cases hm
  · intro o ho hc
    exact absurd (h.held o ho hc) (hlive o)

/-- Losing a message breaks no agreement. -/
theorem agreed_lose {n : Net} (h : Agreed n) (q q' : List Message) (hq : q' ⊆ n.toLeft) :
    Agreed { n with toRight := q, toLeft := q' } :=
  ⟨List.Subset.trans hq h.sent, h.ended, h.last, h.held⟩

/-- Nothing is decided, and nobody disagrees. -/
theorem agreed_start : Agreed start :=
  ⟨List.Subset.refl _, nofun, fun pre m post h => by simp [start] at h, nofun⟩

/-- Every state of every lossy run is agreed. -/
theorem agreed_run {es : List (LossyEv Message CloseCode)} {n : Net}
    (h : runFrom (lossyStep caller callee) start es = some n) : Agreed n := by
  refine lossy_invariant Agreed ?_ ?_ ?_ agreed_start h
  · intro n e n' hn he
    cases e with
    | left e => exact agreed_left hn he
    | right e => exact agreed_right hn he
  · intro n i hn
    exact agreed_lose hn _ _ (List.Subset.refl _)
  · intro n i hn
    exact agreed_lose hn _ _ (List.eraseIdx_subset ..)

/-- A terminal caller stays what it is, whatever else happens. -/
theorem caller_absorbing {es : List (LossyEv Message CloseCode)} {n n' : Net} {o : Outcome}
    (hn : n.left = .terminal o) (h : runFrom (lossyStep caller callee) n es = some n') :
    n'.left = .terminal o := by
  refine lossy_invariant (fun n => n.left = .terminal o) ?_ ?_ ?_ hn h
  · intro n e n' hn he
    cases e with
    | left e =>
        obtain ⟨a, rest, c', out, ha, hs, rfl⟩ := step_left.mp he
        rw [hn, caller_terminal] at hs
        cases hs
    | right e =>
        obtain ⟨a, rest, s', out, ha, hs, rfl⟩ := step_right.mp he
        exact hn
  · exact fun n i hn => hn
  · exact fun n i hn => hn

/-- A terminal callee stays what it is, whatever else happens. -/
theorem callee_absorbing {es : List (LossyEv Message CloseCode)} {n n' : Net} {o : Outcome}
    (hn : n.right = some (.terminal o)) (h : runFrom (lossyStep caller callee) n es = some n') :
    n'.right = some (.terminal o) := by
  refine lossy_invariant (fun n => n.right = some (.terminal o)) ?_ ?_ ?_ hn h
  · intro n e n' hn he
    cases e with
    | left e =>
        obtain ⟨a, rest, c', out, ha, hs, rfl⟩ := step_left.mp he
        exact hn
    | right e =>
        obtain ⟨a, rest, s', out, ha, hs, rfl⟩ := step_right.mp he
        rw [hn, callee_terminal] at hs
        cases hs
  · exact fun n i hn => hn
  · exact fun n i hn => hn

/-- A canceling caller takes the callee's verdict, whichever it is. -/
theorem canceling_takes_verdict {m : Message} {o : Outcome} (h : verdict m = some o) :
    callerStep .canceling (.recv m) = .ok (.go (.terminal o)) := by
  cases m <;> cases h <;> rfl

/-- **OUTCOME AGREEMENT.** After any interleaving, with any messages lost: a caller that
    holds a verdict holds the callee's; a side that has ended never changes; the callee
    puts at most one verdict on the wire, as its last message; and a caller whose
    `Cancel` crossed a verdict ends on that verdict. -/
theorem outcome_agreement (es : List (LossyEv Message CloseCode)) (n : Net)
    (h : runFrom (lossyStep caller callee) start es = some n) :
    (∀ o, IsVerdict o → n.left = .terminal o → n.right = some (.terminal o)) ∧
    (∀ es' n', runFrom (lossyStep caller callee) n es' = some n' →
      (∀ o, n.left = .terminal o → n'.left = .terminal o) ∧
      (∀ o, n.right = some (.terminal o) → n'.right = some (.terminal o))) ∧
    (∀ pre m post, n.sentLeft = pre ++ m :: post → (verdict m).isSome → post = []) ∧
    (∀ m q o, n.left = .canceling → n.toLeft = m :: q → verdict m = some o →
      callerStep n.left (.recv m) = .ok (.go (.terminal o)) ∧
      n.right = some (.terminal o)) := by
  have hn := agreed_run h
  refine ⟨hn.held, ?_, hn.last, ?_⟩
  · intro es' n' h'
    exact ⟨fun o ho => caller_absorbing ho h', fun o ho => callee_absorbing ho h'⟩
  · intro m q o hc hq hm
    rw [hc]
    refine ⟨canceling_takes_verdict hm, hn.ended m (hn.sent ?_) o hm⟩
    rw [hq]
    exact List.mem_cons_self ..

/-! ## One move at a time -/

/-- The two tables over lossless queues. -/
def net : Net → Ev Message CloseCode → Option Net := step caller callee

section

variable {n : Net} {m : Message} {q : List Message}

theorem net_caller_sends {st : Step CallerState} (h : callerStep n.left (.send m) = .ok st) :
    net n (.left (.send m)) = some { n with
      left := st.state, toRight := n.toRight ++ [m], sentRight := n.sentRight ++ [m] } := by
  have hemit := callerStep_emit h
  obtain ⟨c, out⟩ := st
  obtain rfl : out = none := hemit
  have hstep := (caller_step_iff (a := .send m)).mpr h
  exact step_left.mpr ⟨.send m, n.toLeft, c, none, rfl, hstep, rfl⟩

theorem net_caller_reads {st : Step CallerState} (hq : n.toLeft = m :: q)
    (h : callerStep n.left (.recv m) = .ok st) :
    net n (.left .recv) = some { n with left := st.state, toLeft := q } := by
  have hemit := callerStep_emit h
  obtain ⟨c, out⟩ := st
  obtain rfl : out = none := hemit
  have hstep := (caller_step_iff (a := .recv m)).mpr h
  have hact : (Local.recv : Local Message CloseCode).act n.toLeft = some (.recv m, q) := by
    rw [hq]
    rfl
  refine step_left.mpr ⟨.recv m, q, c, none, hact, hstep, ?_⟩
  simp [puts]

theorem net_caller_times_out {st : Step CallerState} (h : callerStep n.left .timeout = .ok st) :
    net n (.left .timeout) = some { n with left := st.state } := by
  have hemit := callerStep_emit h
  obtain ⟨c, out⟩ := st
  obtain rfl : out = none := hemit
  have hstep := (caller_step_iff (a := .timeout)).mpr h
  refine step_left.mpr ⟨.timeout, n.toLeft, c, none, rfl, hstep, ?_⟩
  simp [puts]

/-- A `Submit` starts the callee. -/
theorem net_callee_starts {t : TaskId} {d : Deadline} {ct : ContentType} {cr : Option Credential}
    {b : Bytes} (hright : n.right = none) (hq : n.toRight = .submit t d ct cr b :: q) :
    net n (.right .recv) = some { n with right := some .offered, toRight := q } := by
  have hact : (Local.recv : Local Message CloseCode).act n.toRight =
      some (.recv (.submit t d ct cr b), q) := by
    rw [hq]
    rfl
  have hstep : callee.step n.right (.recv (.submit t d ct cr b)) = some (some .offered, none) := by
    rw [hright]
    rfl
  refine step_right.mpr ⟨_, q, some .offered, none, hact, hstep, ?_⟩
  simp [puts]

/-- A step of `callee_step`, with what it takes from the queue and what it puts on the other. -/
theorem net_callee_moves {s : CalleeState} {st : Step CalleeState} {e : Local Message CloseCode}
    {a : Act Message CloseCode} {rest : List Message} (hright : n.right = some s)
    (hact : e.act n.toRight = some (a, rest)) (h : calleeStep s (calleeEvent a) = .ok st) :
    net n (.right e) = some { n with
      right := some st.state, toRight := rest,
      toLeft := n.toLeft ++ puts a st.emit, sentLeft := n.sentLeft ++ puts a st.emit } := by
  have hstep : callee.step n.right a = some (some st.state, st.emit) := by
    rw [hright]
    exact callee_step_iff.mpr ⟨st.state, rfl, h⟩
  exact step_right.mpr ⟨a, rest, some st.state, st.emit, hact, hstep, rfl⟩

end

end

section

local instance : Base64Engine := urlSafeNoPad

/-- A cancel crossing the result: the caller cancels while `Accepted` and `Completed` are
    in flight to it. -/
def crossing : List (Ev Message CloseCode) :=
  [.left (.send (.submit taskOne oneSecond plain none [])),
   .right .recv, .right (.send .accepted), .right (.send (.completed [])), .left (.send .cancel)]

theorem protocol_compatible_crossing :
    ∃ n, runFrom (step caller callee) start crossing = some n ∧
      ∃ st, callerStep n.left (.recv .accepted) = .ok st :=
  ⟨_, rfl, (protocol_compatible crossing _ rfl).1 _ _ rfl rfl⟩

/-- The same crossing, with the `Cancel` lost on the way and the result delivered. -/
def crossingLossy : List (LossyEv Message CloseCode) :=
  crossing.map .ev ++ [.loseToRight 0, .ev (.left .recv), .ev (.left .recv)]

theorem outcome_agreement_crossing :
    ∃ n, runFrom (lossyStep caller callee) start crossingLossy = some n ∧
      n.left = .terminal .completed ∧ n.right = some (.terminal .completed) :=
  ⟨_, rfl, rfl, (outcome_agreement crossingLossy _ rfl).1 .completed trivial rfl⟩

end

end UatTwoParty
