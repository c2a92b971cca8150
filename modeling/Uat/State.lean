import Uat.Types

/-! # The caller and callee state machines

    `caller_step` and `callee_step`, arm by arm.  Both are total functions: a pair
    outside the table is `Illegal`.  A legal step may carry one message to emit; only
    the callee's table ever does (`Canceled` on a received `Cancel`, and
    `Failed{DeadlineExceeded}` on its own timeout). -/

namespace UatState

open UatTypes

/-- A transition not in the protocol table. -/
inductive Illegal where
  | illegal
  deriving DecidableEq, Repr

section

variable [Base64Engine]

/-- Result of a legal step: next state plus an optional message to send. -/
structure Step (S : Type) where
  state : S
  emit : Option Message
  deriving DecidableEq

/-- `Step::go`: a new state, nothing to send. -/
def Step.go {S : Type} (state : S) : Step S := ⟨state, none⟩

/-- `Step::emit`: a new state and the message that goes with it. -/
def Step.emitting {S : Type} (state : S) (msg : Message) : Step S := ⟨state, some msg⟩

/-- The state of a silent step is the one it was given. -/
@[simp] theorem go_state {S : Type} (s : S) : (Step.go s).state = s := rfl

end

/-- Caller lifecycle. -/
inductive CallerState where
  | dialing
  | submitted
  | working
  | awaitingInput
  | canceling
  | terminal (o : Outcome)
  deriving DecidableEq

def CallerState.isTerminal : CallerState → Bool
  | .terminal _ => true
  | _ => false

/-- Callee lifecycle. -/
inductive CalleeState where
  | offered
  | working
  | needInputSent
  | terminal (o : Outcome)
  deriving DecidableEq

def CalleeState.isTerminal : CalleeState → Bool
  | .terminal _ => true
  | _ => false

/-- Where a close leaves the caller: a normal one tells it only that the peer is gone. -/
def connLostOutcomeCaller (code : CloseCode) : CallerState :=
  if code = .normal then .terminal .peerLost else .terminal (.closed code)

/-- Where a close leaves the callee: a normal one tells it only that the peer is gone. -/
def connLostOutcomeCallee (code : CloseCode) : CalleeState :=
  if code = .normal then .terminal .peerLost else .terminal (.closed code)

/-- A close always ends the caller. -/
theorem connLostOutcomeCaller_terminal (code : CloseCode) :
    ∃ o, connLostOutcomeCaller code = .terminal o := by
  rw [connLostOutcomeCaller]
  split <;> exact ⟨_, rfl⟩

/-- A close always ends the callee. -/
theorem connLostOutcomeCallee_terminal (code : CloseCode) :
    ∃ o, connLostOutcomeCallee code = .terminal o := by
  rw [connLostOutcomeCallee]
  split <;> exact ⟨_, rfl⟩

variable [Base64Engine]

/-- Events that drive `caller_step`. -/
inductive CallerEvent where
  | send (m : Message)
  | recv (m : Message)
  | timeout
  | connLost (code : CloseCode)
  deriving DecidableEq

/-- Events that drive `callee_step`. -/
inductive CalleeEvent where
  | send (m : Message)
  | recv (m : Message)
  | timeout
  | connLost (code : CloseCode)
  deriving DecidableEq

/-- `caller_step`: total over the caller table. -/
def callerStep (state : CallerState) (event : CallerEvent) :
    Except Illegal (Step CallerState) :=
  if state.isTerminal then .error .illegal else
  match state, event with
  | .dialing, .send (.submit ..) => .ok (.go .submitted)
  | .submitted, .recv .accepted => .ok (.go .working)
  | .submitted, .recv (.failed code) => .ok (.go (.terminal (.failed code)))
  | .submitted, .send .cancel => .ok (.go .canceling)
  | .working, .recv .progress => .ok (.go .working)
  | .working, .recv .needInput => .ok (.go .awaitingInput)
  | .working, .recv (.completed _) => .ok (.go (.terminal .completed))
  | .working, .recv (.failed code) => .ok (.go (.terminal (.failed code)))
  | .working, .send .cancel => .ok (.go .canceling)
  | .awaitingInput, .send (.input _) => .ok (.go .working)
  | .awaitingInput, .send .cancel => .ok (.go .canceling)
  | .awaitingInput, .recv (.failed code) => .ok (.go (.terminal (.failed code)))
  -- A1.2.1: Canceling may still see Accepted in flight.
  | .canceling, .recv .accepted => .ok (.go .canceling)
  | .canceling, .recv .canceled => .ok (.go (.terminal .canceled))
  | .canceling, .recv (.completed _) => .ok (.go (.terminal .completed))
  | .canceling, .recv (.failed code) => .ok (.go (.terminal (.failed code)))
  | .canceling, .recv .progress => .ok (.go .canceling)
  | .canceling, .recv .needInput => .ok (.go .canceling)
  | _, .timeout => .ok (.go (.terminal (.closed .timeout)))
  | _, .connLost code => .ok (.go (connLostOutcomeCaller code))
  | _, _ => .error .illegal

/-- `callee_step`: total over the callee table. -/
def calleeStep (state : CalleeState) (event : CalleeEvent) :
    Except Illegal (Step CalleeState) :=
  if state.isTerminal then .error .illegal else
  match state, event with
  | .offered, .send .accepted => .ok (.go .working)
  | .offered, .send (.failed code) => .ok (.go (.terminal (.failed code)))
  | .offered, .recv .cancel => .ok (.emitting (.terminal .canceled) .canceled)
  | .working, .send .progress => .ok (.go .working)
  | .working, .send .needInput => .ok (.go .needInputSent)
  | .working, .send (.completed _) => .ok (.go (.terminal .completed))
  | .working, .send (.failed code) =>
      -- A1.2.4: Failed{Rejected} after Accepted is a protocol violation.
      if code = .rejected then .error .illegal else .ok (.go (.terminal (.failed code)))
  | .working, .recv .cancel => .ok (.emitting (.terminal .canceled) .canceled)
  | .needInputSent, .recv (.input _) => .ok (.go .working)
  | .needInputSent, .recv .cancel => .ok (.emitting (.terminal .canceled) .canceled)
  | .needInputSent, .send (.failed code) =>
      if code = .rejected then .error .illegal else .ok (.go (.terminal (.failed code)))
  | _, .timeout =>
      .ok (.emitting (.terminal (.failed .deadlineExceeded)) (.failed .deadlineExceeded))
  | _, .connLost code => .ok (.go (connLostOutcomeCallee code))
  | _, _ => .error .illegal

/-! ## What one legal step can be

    The inversion lemmas below say everything a legal step does.  What is proved about
    the machines is proved from them; the tables are not unfolded again. -/

/-- What the caller may send. -/
theorem callerStep_send {c : CallerState} {m : Message} {st : Step CallerState}
    (h : callerStep c (.send m) = .ok st) :
    (c = .dialing ∧ (∃ t d ct cr b, m = .submit t d ct cr b) ∧ st = .go .submitted) ∨
    ((c = .submitted ∨ c = .working ∨ c = .awaitingInput) ∧ m = .cancel ∧
      st = .go .canceling) ∨
    (c = .awaitingInput ∧ (∃ b, m = .input b) ∧ st = .go .working) := by
  cases c <;> cases m <;> cases h <;> simp

/-- What the caller may receive. -/
theorem callerStep_recv {c : CallerState} {m : Message} {st : Step CallerState}
    (h : callerStep c (.recv m) = .ok st) :
    (c = .submitted ∧ m = .accepted ∧ st = .go .working) ∨
    (c = .working ∧ m = .progress ∧ st = .go .working) ∨
    (c = .working ∧ m = .needInput ∧ st = .go .awaitingInput) ∨
    ((c = .working ∨ c = .canceling) ∧ (∃ b, m = .completed b) ∧
      st = .go (.terminal .completed)) ∨
    ((c = .submitted ∨ c = .working ∨ c = .awaitingInput ∨ c = .canceling) ∧
      ∃ code, m = .failed code ∧ st = .go (.terminal (.failed code))) ∨
    (c = .canceling ∧ m = .canceled ∧ st = .go (.terminal .canceled)) ∨
    (c = .canceling ∧ (m = .accepted ∨ m = .progress ∨ m = .needInput) ∧
      st = .go .canceling) := by
  cases c <;> cases m <;> cases h <;> simp

/-- A timeout closes a call that has not ended. -/
theorem callerStep_timeout {c : CallerState} (hc : c.isTerminal = false) :
    callerStep c .timeout = .ok (.go (.terminal (.closed .timeout))) := by
  cases c <;> first | rfl | cases hc

/-- Until it is through, the caller takes a close at any moment. -/
theorem callerStep_connLost {c : CallerState} (hc : c.isTerminal = false) (code : CloseCode) :
    callerStep c (.connLost code) = .ok (.go (connLostOutcomeCaller code)) := by
  cases c <;> first | rfl | cases hc

/-- A legal step starts in a state that is not terminal. -/
theorem callerStep_nonterminal {c : CallerState} {e : CallerEvent} {st : Step CallerState}
    (h : callerStep c e = .ok st) : c.isTerminal = false := by
  cases c <;> first | rfl | cases h

/-- A callee that is through takes no event at all. -/
theorem calleeStep_nonterminal {s : CalleeState} {e : CalleeEvent} {st : Step CalleeState}
    (h : calleeStep s e = .ok st) : s.isTerminal = false := by
  cases s <;> first | rfl | cases h

/-- The caller's table never emits. -/
theorem callerStep_emit {c : CallerState} {e : CallerEvent} {st : Step CallerState}
    (h : callerStep c e = .ok st) : st.emit = none := by
  have hc := callerStep_nonterminal h
  cases e with
  | send m =>
      rcases callerStep_send h with ⟨-, -, rfl⟩ | ⟨-, -, rfl⟩ | ⟨-, -, rfl⟩ <;> rfl
  | recv m =>
      rcases callerStep_recv h with ⟨-, -, rfl⟩ | ⟨-, -, rfl⟩ | ⟨-, -, rfl⟩ | ⟨-, -, rfl⟩ |
        ⟨-, code, -, rfl⟩ | ⟨-, -, rfl⟩ | ⟨-, -, rfl⟩ <;> rfl
  | timeout =>
      rw [callerStep_timeout hc] at h
      cases h
      rfl
  | connLost code =>
      rw [callerStep_connLost hc] at h
      cases h
      rfl

/-- What the callee may send. -/
theorem calleeStep_send {s : CalleeState} {m : Message} {st : Step CalleeState}
    (h : calleeStep s (.send m) = .ok st) :
    (s = .offered ∧ m = .accepted ∧ st = .go .working) ∨
    (s = .working ∧ m = .progress ∧ st = .go .working) ∨
    (s = .working ∧ m = .needInput ∧ st = .go .needInputSent) ∨
    (s = .working ∧ (∃ b, m = .completed b) ∧ st = .go (.terminal .completed)) ∨
    (∃ code, m = .failed code ∧ (code = .rejected → s = .offered) ∧
      st = .go (.terminal (.failed code))) := by
  cases m with
  | failed code =>
      refine Or.inr (Or.inr (Or.inr (Or.inr ⟨code, rfl, ?_⟩)))
      by_cases hc : code = .rejected
      · subst hc
        cases s <;> cases h
        exact ⟨fun _ => rfl, rfl⟩
      · refine ⟨fun h' => absurd h' hc, ?_⟩
        cases s <;> simp only [calleeStep, CalleeState.isTerminal, if_neg hc] at h <;>
          cases h <;> rfl
  | _ => cases s <;> cases h <;> simp

/-- A sending callee emits nothing besides what it sends. -/
theorem calleeStep_send_emit {s : CalleeState} {m : Message} {st : Step CalleeState}
    (h : calleeStep s (.send m) = .ok st) : st.emit = none := by
  rcases calleeStep_send h with ⟨-, -, rfl⟩ | ⟨-, -, rfl⟩ | ⟨-, -, rfl⟩ | ⟨-, -, rfl⟩ |
    ⟨code, -, -, rfl⟩ <;> rfl

/-- What the callee may receive. -/
theorem calleeStep_recv {s : CalleeState} {m : Message} {st : Step CalleeState}
    (h : calleeStep s (.recv m) = .ok st) :
    (s = .needInputSent ∧ (∃ b, m = .input b) ∧ st = .go .working) ∨
    (m = .cancel ∧ st = .emitting (.terminal .canceled) .canceled) := by
  cases s <;> cases m <;> cases h <;> simp

/-- Until it is through, the callee takes the timer at any moment, and says so to its peer. -/
theorem calleeStep_timeout {s : CalleeState} (hs : s.isTerminal = false) :
    calleeStep s .timeout =
      .ok (.emitting (.terminal (.failed .deadlineExceeded)) (.failed .deadlineExceeded)) := by
  cases s <;> first | rfl | cases hs

/-- Until it is through, the callee takes a close at any moment. -/
theorem calleeStep_connLost {s : CalleeState} (hs : s.isTerminal = false) (code : CloseCode) :
    calleeStep s (.connLost code) = .ok (.go (connLostOutcomeCallee code)) := by
  cases s <;> first | rfl | cases hs

end UatState
