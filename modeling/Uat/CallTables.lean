import Uat.CallRun
import Uat.Place

/-! # The two tasks of a call and the two tables

    `protocol_compatible` is about `caller_step` and `callee_step` run against each other
    over queues of messages.  The program runs two tasks instead, which read and write
    frames in pieces, drop their futures, and close, time out or shut down at any await.

    - `Rel` relates a state of the two tasks to one of the two tables: what is on the stream
      is the frames of what is in the queue.
    - `loop_after` matches one step of `caller_loop` with a run of the tables.
    - `rel_caller`, `rel_callerPuts` and `rel_callerWrote` are the caller's half of the
      simulation; the callee's half and the result are in `Uat.CallRefines`.

    A reader that drops its future inside a frame loses its place.  It then reads no message
    at all, out of order or not, so the tables never see the loss. -/

namespace UatCallTables

open UatTypes UatState UatPolicy UatVerify UatCodec UatHeader UatStream UatRecvStream UatRecord
open UatCallerLoop (Caller WriteEnd)
open UatCallerRun (CallerRun Opening Stage runCallerWith finish)
open UatCalleeRun (Callee CalleeBehavior runCalleeWith)
open UatTwoParty (Net Compatible verdict IsVerdict net net_caller_sends net_caller_reads
  net_caller_times_out)
open UatCallRun (Call callerOwn callerWrites frameFor lastBytes deliver)
open UatWire UatPlace UatCalleeTells UatCallerHears Checked StepRun

/-- What a task returned, against the state of its table. -/
structure Concludes (result : Except CallError Outcome) (ended : Outcome → Prop) : Prop where
  lawful : result ≠ .error .illegal
  verdict : ∀ o, result = .ok o → IsVerdict o → ended o

/-- An error claims no verdict; it has only to be lawful. -/
theorem concludes_error {err : CallError} {ended : Outcome → Prop} (h : err ≠ .illegal) :
    Concludes (.error err) ended :=
  ⟨fun herr => h (Except.error.inj herr), fun o ho => by cases ho⟩

/-- An outcome has to be lawful where it is a verdict: its side has ended with it. -/
theorem concludes_ok {o : Outcome} {ended : Outcome → Prop} (h : IsVerdict o → ended o) :
    Concludes (.ok o) ended := by
  refine ⟨fun herr => (by cases herr), fun o' ho' hv => ?_⟩
  cases ho'
  exact h hv

section

variable [Base64Engine]

/-! ## The relation -/

/-- The caller's requests: a `Submit`, and a `Cancel` behind it once it is `Canceling`. -/
inductive Asked (submit : Message) (n : Net) (c : Caller) : Prop where
  | submitted (hstate : c.state ≠ .dialing ∧ c.state ≠ .canceling) (hsent : n.sentRight = [submit])
  | canceled (hstate : c.state = .canceling) (hhook : c.requestCancel = none)
      (hsent : n.sentRight = [submit, .cancel])

section

variable [text : JsonText]

/-- The caller in its loop. -/
structure Hearing (submit : Message) (n : Net) (missing : Bytes) (c : Caller) : Prop where
  state : n.left = c.state
  asked : Asked submit n c
  heard : n.sentLeft = c.handed ++ n.toLeft
  place : ∃ k, Place n.toLeft k missing (inFront c) ∧
    (0 < k → c.requestCancel = none ∨ c.requestCancel = some .resolved)
  waits : ∀ read, c.await = .select read → Waits read

/-- The caller, by where its task is. -/
def CallerAt (submit : Message) (n : Net) (missing : Bytes) : Stage → Prop
  | .openBi _ => n = UatTwoParty.start
  | .looping c => Hearing submit n missing c
  | .joinGuard _ _ result | .returned result => Concludes result fun o => n.left = .terminal o
  | .unwinding .. | .dropped => True

/-- The task may still put a message on the stream. -/
def asks : Stage → Bool
  | .openBi _ | .looping _ => true
  | _ => false

/-- What is missing of the frame the caller is writing, as long as it asks. -/
structure Posted (submit : Message) (put : Nat) (missing : Bytes) (stage : Stage) : Prop where
  writing : ∀ m, callerWrites submit stage = some m →
    ∃ frame, frameFor m = some frame ∧ missing = frame.drop put
  idle : callerWrites submit stage = none → asks stage = true → missing = [] ∧ put = 0

/-- Messages that `callee_step` lets the callee send in a row. -/
def CanEmit : CalleeState → List Message → Prop
  | _, [] => True
  | s, m :: rest => ∃ st, calleeStep s (.send m) = .ok st ∧ CanEmit st.state rest

/-- The callee, by where its task is. -/
def CalleeAt (n : Net) (c : Callee) : Prop :=
  match c.await with
  | .acceptBi => n.right = none
  | .firstFrame _ read => n.right = none ∧ Waits read
  | .writeDenied _ => n.right = some (.terminal (.failed .unauthorized))
  | .emit _ rest => n.right = some c.state ∧ CanEmit c.state rest
  | .waitTerminal read => n.right = some c.state ∧ c.state.isTerminal = false ∧ Waits read
  | .writeTimeout _ | .writeReply _ => n.right = some c.state
  | .linger o => n.right = some (.terminal o)
  | .joinGuard result | .returned result => Concludes result fun o => n.right = some (.terminal o)
  | .unwinding | .dropped => True

/-- A callee behind its first frame: what it can still read is what it was not told, unless
    it has lost its place. -/
def Later (q : List Message) (missing bytes : Bytes) : Prop :=
  ∃ q' k, (q' = q ∨ q' = []) ∧ Place q' k missing bytes

/-- What the callee has in front of it as long as it reads. -/
def Reading (n : Net) (c : Callee) (toCallee missing : Bytes) : Prop :=
  match c.await with
  | .acceptBi => Place n.toRight 0 missing (c.recv.arrived ++ toCallee)
  | .firstFrame _ read => Place n.toRight 0 missing (read.held ++ c.recv.arrived ++ toCallee)
  | .emit .. => Later n.toRight missing (c.recv.arrived ++ toCallee)
  | .waitTerminal read => Later n.toRight missing (read.held ++ c.recv.arrived ++ toCallee)
  | _ => True

/-- What the callee has put on its queue, beside what is on the stream whole: the message it
    is writing, or one whose write failed and was the last. -/
inductive Outbox (told : List Message) (a : UatCalleeRun.Await) (put : Nat) :
    List Message → Bytes → Prop where
  | idle (hput : put = 0) (hquiet : calleeWrites a = none) : Outbox told a put told []
  | writing {m : Message} {frame : Bytes} (hwrites : calleeWrites a = some m)
      (hframe : frameFor m = some frame) : Outbox told a put (told ++ [m]) (frame.drop put)
  | broken {m : Message} {missing : Bytes} (hput : put = 0) (hleft : left a = 0)
      (hroom : told.length < 3) : Outbox told a put (told ++ [m]) missing

/-- Nothing is taken from the callee's queue but in its order, and only by a callee that was
    started. -/
structure InOrder (n : Net) : Prop where
  waiting : n.right = none → n.toRight = n.sentRight
  started : n.right ≠ none → n.sentRight ≠ [] ∧ n.toRight <:+ n.sentRight.tail

/-- **The relation.**  The stream carries the frames of the queues. -/
structure Rel (submit : Message) (s : Call) (n : Net) : Prop where
  compatible : Compatible n
  asked : n.sentRight <+: [submit, .cancel]
  order : InOrder n
  words : ∀ m ∈ n.sentLeft, m ∈ said
  callee : CalleeAt n s.callee
  left : ∃ missing, Outbox s.told s.callee.await s.calleePut n.sentLeft missing ∧
    CallerAt submit n missing s.caller.stage
  right : ∃ missing, Posted submit s.callerPut missing s.caller.stage ∧
    Reading n s.callee s.toCallee missing

end

/-! ## The queues -/

/-- What a move of the caller leaves of the other side, and what it puts on its queue. -/
structure Posts (n n' : Net) (more : List Message) : Prop where
  right : n'.right = n.right
  sentLeft : n'.sentLeft = n.sentLeft
  toRight : n'.toRight = n.toRight ++ more
  sentRight : n'.sentRight = n.sentRight ++ more

theorem posts_nothing (n : Net) : Posts n n [] :=
  ⟨rfl, rfl, (List.append_nil _).symm, (List.append_nil _).symm⟩

/-- What joins the queue joins it behind what was sent. -/
theorem InOrder.posts {n n' : Net} {more : List Message} (h : InOrder n)
    (hposts : Posts n n' more) : InOrder n' := by
  refine ⟨fun hnone => ?_, fun hsome => ?_⟩
  · rw [hposts.right] at hnone
    rw [hposts.toRight, hposts.sentRight, h.waiting hnone]
  · rw [hposts.right] at hsome
    obtain ⟨hsent, front, hfront⟩ := h.started hsome
    rw [hposts.toRight, hposts.sentRight]
    refine ⟨List.append_ne_nil_of_left_ne_nil hsent _, front, ?_⟩
    rw [← List.append_assoc, hfront, List.tail_append_of_ne_nil hsent]

/-- While the caller has asked for nothing but the task itself, a callee that was started has
    read all of it. -/
theorem InOrder.drained {submit : Message} {n : Net} (h : InOrder n)
    (hsent : n.sentRight = [submit]) (hright : n.right ≠ none) : n.toRight = [] := by
  obtain ⟨-, front, hfront⟩ := h.started hright
  rw [hsent] at hfront
  exact (List.append_eq_nil_iff.mp hfront).2

/-- Compatibility lasts. -/
theorem compatible_reaches {n n' : Net} (h : Compatible n) (hreach : Reaches net n n') :
    Compatible n' := by
  obtain ⟨es, hes⟩ := hreach
  exact run_invariant _ (fun _ _ _ hn he => UatTwoParty.compatible_step hn he) es n n' h hes

/-- Where the callee is depends on its own table alone. -/
theorem calleeAt_of_right {n n' : Net} {c : Callee} (hright : n'.right = n.right)
    (h : CalleeAt n c) : CalleeAt n' c := by
  rw [CalleeAt, hright]
  exact h

/-- A callee submits nothing. -/
theorem said_not_submit {m : Message} (hm : m ∈ said) : isSubmit m = false := by
  simp only [said, List.mem_cons, List.not_mem_nil, or_false] at hm
  rcases hm with rfl | rfl | rfl | rfl | rfl | rfl <;> rfl

/-! ## The caller's loop -/

/-- A caller that has not ended accepts the next message of its queue. -/
theorem lawful_left {n : Net} {m : Message} {q : List Message} (h : Compatible n)
    (hlive : n.left.isTerminal = false) (hq : n.toLeft = m :: q) :
    ∃ st, callerStep n.left (.recv m) = .ok st := by
  obtain ⟨d, hd, -⟩ := h.inStep hlive
  rw [hq] at hd
  obtain ⟨c, hm, -⟩ := Duplex.drain_head hlive hd
  obtain ⟨st, hst, -⟩ := UatTwoParty.takes_eq_some.mp hm
  exact ⟨st, hst⟩

/-- Only the caller's own `Cancel` makes it `Canceling`. -/
theorem recv_uncanceled {s : CallerState} {m : Message} {st : Step CallerState}
    (h : callerStep s (.recv m) = .ok st) (hs : s ≠ .dialing ∧ s ≠ .canceling) :
    st.state ≠ .dialing ∧ st.state ≠ .canceling := by
  rcases callerStep_recv h with ⟨-, -, rfl⟩ | ⟨-, -, rfl⟩ | ⟨-, -, rfl⟩ | ⟨-, -, rfl⟩ |
    ⟨-, code, -, rfl⟩ | ⟨-, -, rfl⟩ | ⟨hc, -, -⟩
  case inr.inr.inr.inr.inr.inr => exact absurd hc hs.2
  all_goals exact ⟨(by intro h; cases h), (by intro h; cases h)⟩

/-- A caller that cancels stays `Canceling` until the call ends. -/
theorem recv_canceled {m : Message} {st : Step CallerState}
    (h : callerStep .canceling (.recv m) = .ok st) (hlive : st.state.isTerminal = false) :
    st.state = .canceling := by
  rcases callerStep_recv h with ⟨hc, -⟩ | ⟨hc, -⟩ | ⟨hc, -⟩ | ⟨-, -, rfl⟩ | ⟨-, code, -, rfl⟩ |
    ⟨-, -, rfl⟩ | ⟨-, -, rfl⟩
  case inr.inr.inr.inr.inr.inr => rfl
  all_goals first | cases hc | cases hlive

/-- A caller that may cancel can. -/
theorem cancel_lawful {s : CallerState} (hlive : s.isTerminal = false)
    (hs : s ≠ .dialing ∧ s ≠ .canceling) : callerStep s (.send .cancel) = .ok (.go .canceling) := by
  cases s with
  | dialing => exact absurd rfl hs.1
  | canceling => exact absurd rfl hs.2
  | terminal o => cases hlive
  | submitted | working | awaitingInput => rfl

/-- A loop that has stopped writes nothing. -/
theorem stopped_writes {submit : Message} {c : Caller} (h : c.await.running = false) :
    callerWrites submit (.looping c) = none := by
  rw [callerWrites]
  cases hawait : c.await with
  | returned result | panicked | select read => rfl
  | writeSubmit | writeCancel => rw [hawait] at h; cases h

/-- At the head of its loop the caller writes nothing. -/
theorem loopTop_writes {submit : Message} (c : Caller) :
    callerWrites submit (.looping c.loopTop) = none := by
  rw [Caller.loopTop]
  cases c.state <;> rfl

/-- What the task writes is what its loop writes. -/
theorem settle_writes {submit : Message} {caller : CallerRun} {c : Caller} :
    callerWrites submit (caller.settle c).stage = callerWrites submit (.looping c) := by
  rw [CallerRun.settle]
  cases hawait : c.await <;> simp only [callerWrites, hawait]

section

variable [text : JsonText]

/-- After a step the loop goes on, or returned what its table agrees with. -/
structure After (submit : Message) (n : Net) (missing : Bytes) (c : Caller) : Prop where
  running : c.await.running = true → Hearing submit n missing c
  returned : ∀ result, c.await = .returned result → Concludes result fun o => n.left = .terminal o

variable {submit : Message} {n : Net} {missing : Bytes} {c : Caller} {k : Nat}

/-- Returning what the tables have come to. -/
theorem ret_after {result : Except CallError Outcome}
    (h : Concludes result fun o => n.left = .terminal o) :
    After submit n missing (c.ret result) := by
  refine ⟨fun hrun => (by cases hrun), fun result' hret => ?_⟩
  cases hret
  exact h

theorem ret_error_after {err : CallError} (h : err ≠ .illegal) :
    After submit n missing (c.ret (.error err)) := ret_after (concludes_error h)

theorem closeOnFrameErr_after (err : FrameIoError) :
    After submit n missing ((c.closeOnFrameErr err).ret (.error (.frame err))) :=
  ret_error_after (by intro h; cases h)

theorem writeFailed_after {w : WriteEnd} {err : CallError} (hw : w.result = .error err) :
    After submit n missing (c.writeFailed err) := by
  cases w with
  | done => cases hw
  | failed fe =>
      cases hw
      exact closeOnFrameErr_after fe
  | timedOut =>
      cases hw
      exact ret_error_after (by intro h; cases h)

/-- The top of the loop, with the place in front of which its next read starts. -/
theorem loopTop_after (hstate : n.left = c.state)
    (hasked : c.state.isTerminal = false → Asked submit n c)
    (hheard : n.sentLeft = c.handed ++ n.toLeft)
    (hplace : Place n.toLeft k missing (c.recv.arrived ++ c.inFlight))
    (hlost : 0 < k → c.requestCancel = none ∨ c.requestCancel = some .resolved) :
    After submit n missing c.loopTop := by
  rw [Caller.loopTop]
  split
  · next o hc => exact ret_after (concludes_ok fun _ => hstate.trans hc)
  · next hlive =>
      have hlive' : c.state.isTerminal = false := by
        cases hc : c.state with
        | terminal o => exact absurd hc (hlive o)
        | _ => rfl
      have hasked' : Asked submit n { c with await := .select .fresh } := by
        cases hasked hlive' with
        | submitted hs hsent => exact .submitted hs hsent
        | canceled hs hhook hsent => exact .canceled hs hhook hsent
      refine ⟨fun _ => ⟨hstate, hasked', hheard, ⟨k, hplace, hlost⟩, fun read hread => ?_⟩,
        fun result hret => (by cases hret)⟩
      cases hread
      exact waits_fresh

/-- The end of a write leaves the table where it is. -/
theorem submitWritten_after (h : Hearing submit n missing c) (hawait : c.await = .writeSubmit)
    (w : WriteEnd) : After submit n missing (c.submitWritten w) := by
  obtain ⟨k, hplace, hlost⟩ := h.place
  rw [inFront, hawait] at hplace
  have hasked : ∀ record, Asked submit n { c with record := record } := fun record => by
    cases h.asked with
    | submitted hs hsent => exact .submitted hs hsent
    | canceled hs hhook hsent => exact .canceled hs hhook hsent
  rw [Caller.submitWritten]
  cases hw : w.result with
  | error err =>
      dsimp only
      split
      · exact ret_error_after (c := { c with record := _ }) (by intro h; cases h)
      · exact writeFailed_after hw
  | ok _ =>
      dsimp only
      split
      · exact ret_after (c := { c with record := _ }) (concludes_ok fun hv => hv.elim)
      · exact loopTop_after (c := { c with record := c.record.setTask c.task }) h.state
          (fun _ => hasked _) h.heard hplace hlost

/-- Behind a `Cancel` the caller hears on, or has returned. -/
theorem cancelWritten_after (h : Hearing submit n missing c) (hawait : c.await = .writeCancel)
    (w : WriteEnd) : After submit n missing (c.cancelWritten w) := by
  obtain ⟨k, hplace, hlost⟩ := h.place
  rw [inFront, hawait] at hplace
  rw [Caller.cancelWritten]
  cases hw : w.result with
  | error err => exact writeFailed_after hw
  | ok _ => exact loopTop_after h.state (fun _ => h.asked) h.heard hplace hlost

/-- The caller's deadline is a move of its table. -/
theorem onTimer_after (h : Hearing submit n missing c) (hlive : c.state.isTerminal = false) :
    ∃ n', Reaches net n n' ∧ Posts n n' [] ∧ After submit n' missing c.onTimer := by
  have hstep := callerStep_timeout hlive
  rw [← h.state] at hstep
  refine ⟨_, .single (net_caller_times_out hstep), ⟨rfl, rfl, (List.append_nil _).symm,
    (List.append_nil _).symm⟩, ?_⟩
  rw [Caller.onTimer, ← h.state, hstep]
  exact ret_after (concludes_ok fun hv => hv.elim)

/-- A lost connection is no verdict. -/
theorem connLost_after (hlive : c.state.isTerminal = false) (code : CloseCode) :
    After submit n missing (c.connLost code) := by
  rw [Caller.connLost, callerStep_connLost hlive]
  dsimp only [go_state]
  rw [connLostOutcomeCaller]
  by_cases hnormal : code = .normal
  · rw [if_pos hnormal]
    exact ret_after (concludes_ok fun hv => hv.elim)
  · rw [if_neg hnormal]
    exact ret_after (concludes_ok fun hv => hv.elim)

/-- A close is the lost connection of the tables. -/
theorem onClosed_after (hlive : c.state.isTerminal = false) (err : ConnectionError) :
    After submit n missing (c.onClosed err) := by
  rw [Caller.onClosed]
  split
  · exact connLost_after (c := { c with record := c.record.clearTask }) hlive _
  · exact connLost_after hlive _

/-- **The hook.**  The caller's table sends the `Cancel`, and a read that waits is dropped. -/
theorem onCancelReq_after {read : ReadFrame} (h : Hearing submit n missing c)
    (hlive : c.state.isTerminal = false) (hawait : c.await = .select read)
    (hhook : c.requestCancel = some .sent) (hq : ∀ m ∈ n.toLeft, isSubmit m = false) :
    ∃ n', Reaches net n n' ∧ Posts n n' [.cancel] ∧ After submit n' missing c.onCancelReq ∧
      c.onCancelReq.await = .writeCancel := by
  obtain ⟨hs, hsent⟩ : (c.state ≠ .dialing ∧ c.state ≠ .canceling) ∧ n.sentRight = [submit] := by
    cases h.asked with
    | submitted hs hsent => exact ⟨hs, hsent⟩
    | canceled _ hnone _ => cases hnone.symm.trans hhook
  have hstep := cancel_lawful hlive hs
  obtain ⟨k, hplace, hlost⟩ := h.place
  -- The hook had not resolved, so the reader has its place.
  obtain rfl : k = 0 := by
    rcases Nat.eq_zero_or_pos k with rfl | hpos
    · rfl
    · rcases hlost hpos with hnone | hnone <;> cases hnone.symm.trans hhook
  rw [inFront, hawait, List.append_assoc] at hplace
  have hplace' := hplace.lose (h.waits read hawait).short hq
  have hsend : callerStep n.left (.send .cancel) = .ok (.go .canceling) := by
    rw [h.state]
    exact hstep
  refine ⟨{ n with
      left := .canceling
      toRight := n.toRight ++ [.cancel]
      sentRight := n.sentRight ++ [.cancel] },
    .single (net_caller_sends hsend), ⟨rfl, rfl, rfl, rfl⟩, ?_⟩
  rw [Caller.onCancelReq]
  dsimp only
  rw [hstep]
  refine ⟨⟨fun _ => ⟨rfl, .canceled rfl rfl (by rw [hsent]; rfl), h.heard,
    ⟨read.held.length, hplace', fun _ => Or.inl rfl⟩, fun read hread => (by cases hread)⟩,
    fun result hret => (by cases hret)⟩, rfl⟩

/-- **The read.**  A message the reader takes is the next one of the queue, and the table
    accepts it. -/
theorem pollRead_after {read : ReadFrame} (h : Hearing submit n missing c) (hcompat : Compatible n)
    (hlive : c.state.isTerminal = false) (hbudget : n.toLeft.length ≤ 3)
    (hawait : c.await = .select read) (expired : Bool) :
    ∃ n', Reaches net n n' ∧ Posts n n' [] ∧ After submit n' missing (c.pollRead read expired) := by
  obtain ⟨k, hplace, hlost⟩ := h.place
  rw [inFront, hawait] at hplace
  have htakes := pollMessage_place (h.waits read hawait) hbudget hplace
  rw [Caller.pollRead]
  generalize pollMessage read c.recv = polled at htakes ⊢
  cases htakes with
  | @message m q' recv hq hk hplace' =>
      obtain ⟨st, hst⟩ := lawful_left hcompat (h.state ▸ hlive) hq
      refine ⟨_, .single (net_caller_reads hq hst), ⟨rfl, rfl, (List.append_nil _).symm,
        (List.append_nil _).symm⟩, ?_⟩
      rw [h.state] at hst
      dsimp only [Caller.onRead]
      rw [hst]
      refine loopTop_after (k := 0)
        (c := { c with recv := recv, handed := c.handed ++ [m], state := st.state }) rfl
        (fun hlive' => ?_) ?_ hplace' fun hpos => absurd hpos (Nat.lt_irrefl 0)
      · cases h.asked with
        | submitted hs hsent => exact .submitted (recv_uncanceled hst hs) hsent
        | canceled hs hhook hsent =>
            rw [hs] at hst
            exact .canceled (recv_canceled hst hlive') hhook hsent
      · show n.sentLeft = c.handed ++ [m] ++ q'
        rw [h.heard, hq, List.append_assoc, List.singleton_append]
  | @waits read' recv hwaits hplace' =>
      refine ⟨n, .refl n, posts_nothing n, ?_⟩
      dsimp only
      split
      · exact ret_after (c := Caller.closeWith { c with recv := recv } .timeout)
          (concludes_ok fun hv => hv.elim)
      · have hasked : Asked submit n { c with recv := recv, await := .select read' } := by
          cases h.asked with
          | submitted hs hsent => exact .submitted hs hsent
          | canceled hs hhook hsent => exact .canceled hs hhook hsent
        refine ⟨fun _ => ⟨h.state, hasked, h.heard, ⟨k, hplace', hlost⟩, fun read'' hread => ?_⟩,
          fun result hret => (by cases hret)⟩
        cases hread
        exact hwaits
  | fails fault recv =>
      refine ⟨n, .refl n, posts_nothing n, ?_⟩
      cases fault with
      | panic =>
          exact ⟨fun hrun => (by cases hrun), fun result hret => (by cases hret)⟩
      | err err =>
          exact closeOnFrameErr_after (c := { c with recv := recv, readError := some err }) err

theorem pollRead_writes (read : ReadFrame) (expired : Bool) :
    callerWrites submit (.looping (c.pollRead read expired)) = none := by
  rw [Caller.pollRead]
  split
  · next r recv _ =>
      cases r with
      | ok m =>
          rw [Caller.onRead]
          dsimp only
          cases callerStep c.state (.recv m) with
          | ok st => exact loopTop_writes _
          | error _ => rfl
      | error fault =>
          cases fault with
          | err err => exact stopped_writes rfl
          | panic => rfl
  · split <;> rfl

/-- What the poll does beside its moves: it writes nothing, or begins to write what it put on
    the queue. -/
def Begins (submit : Message) (more : List Message) (c : Caller) : Prop :=
  (more = [] ∧ callerWrites submit (.looping c) = none) ∨
    (more = [.cancel] ∧ c.await = .writeCancel)

/-- **One poll of the `select`.** -/
theorem pollSelect_after {read : ReadFrame} (h : Hearing submit n missing c)
    (hcompat : Compatible n) (hlive : c.state.isTerminal = false) (hbudget : n.toLeft.length ≤ 3)
    (hq : ∀ m ∈ n.toLeft, isSubmit m = false) (hawait : c.await = .select read) (expired : Bool) :
    ∃ n' more, Reaches net n n' ∧ Posts n n' more ∧
      After submit n' missing (c.pollSelect read expired) ∧
      Begins submit more (c.pollSelect read expired) := by
  have hstays : ∀ {c' : Caller}, After submit n missing c' →
      callerWrites submit (.looping c') = none →
      ∃ n' more, Reaches net n n' ∧ Posts n n' more ∧ After submit n' missing c' ∧
        Begins submit more c' := fun hafter hwrites =>
    ⟨n, [], .refl n, posts_nothing n, hafter, Or.inl ⟨rfl, hwrites⟩⟩
  rw [Caller.pollSelect]
  split
  · exact hstays (ret_error_after (by intro h; cases h)) rfl
  split
  · obtain ⟨n', hreach, hposts, hafter⟩ := onTimer_after h hlive
    exact ⟨n', [], hreach, hposts, hafter,
      Or.inl ⟨rfl, stopped_writes (UatCallerLoop.onTimer_quiet c).2⟩⟩
  split
  · next err _ =>
      exact hstays (onClosed_after hlive err)
        (stopped_writes (UatCallerLoop.onClosed_quiet c err).2)
  split
  · next hhook =>
      obtain ⟨n', hreach, hposts, hafter, hwrites⟩ := onCancelReq_after h hlive hawait hhook hq
      exact ⟨n', [.cancel], hreach, hposts, hafter, Or.inr ⟨rfl, hwrites⟩⟩
  · next hhook =>
      -- The hook was dropped: its next poll panics, and nothing is read before.
      obtain ⟨k, hplace, hlost⟩ := h.place
      obtain rfl : k = 0 := by
        rcases Nat.eq_zero_or_pos k with rfl | hpos
        · rfl
        · rcases hlost hpos with hnone | hnone <;> cases hnone.symm.trans hhook
      rw [inFront, hawait, List.append_assoc] at hplace
      have hplace' := hplace.lose (h.waits read hawait).short hq
      refine hstays (loopTop_after (c := { c with requestCancel := some .resolved }) h.state
        (fun _ => ?_) h.heard hplace' fun _ => Or.inr rfl) (loopTop_writes _)
      cases h.asked with
      | submitted hs hsent => exact .submitted hs hsent
      | canceled _ hnone _ => cases hnone.symm.trans hhook
  · exact hstays ⟨fun hrun => (by cases hrun), fun result hret => (by cases hret)⟩ rfl
  · obtain ⟨n', hreach, hposts, hafter⟩ := pollRead_after h hcompat hlive hbudget hawait expired
    exact ⟨n', [], hreach, hposts, hafter, Or.inl ⟨rfl, pollRead_writes read expired⟩⟩
  · obtain ⟨n', hreach, hposts, hafter⟩ := pollRead_after h hcompat hlive hbudget hawait expired
    exact ⟨n', [], hreach, hposts, hafter, Or.inl ⟨rfl, pollRead_writes read expired⟩⟩

/-- What the environment does moves bytes and sets flags. -/
theorem hearing_of_environment {c' : Caller} (h : Hearing submit n missing c)
    (hstate : c'.state = c.state) (hhanded : c'.handed = c.handed) (hawait : c'.await = c.await)
    (hbytes : c'.recv.arrived ++ c'.inFlight = c.recv.arrived ++ c.inFlight)
    (hhook : c'.requestCancel = c.requestCancel ∨ c.requestCancel = some .waiting) :
    Hearing submit n missing c' := by
  obtain ⟨k, hplace, hlost⟩ := h.place
  have hkept : ∀ hook, hook ≠ some UatCallerLoop.Hook.waiting → c.requestCancel = hook →
      c'.requestCancel = hook := by
    intro hook hne hc
    rcases hhook with hsame | hwaiting
    · exact hsame.trans hc
    · exact absurd (hc.symm.trans hwaiting) hne
  refine ⟨h.state.trans hstate.symm, ?_, by rw [hhanded]; exact h.heard, ⟨k, ?_, fun hpos => ?_⟩,
    by rw [hawait]; exact h.waits⟩
  · cases h.asked with
    | submitted hs hsent => exact .submitted (by rw [hstate]; exact hs) hsent
    | canceled hs hnone hsent =>
        exact .canceled (hstate.trans hs) (hkept _ (by intro h; cases h) hnone) hsent
  · have hfront : inFront c' = inFront c := by
      rw [inFront, inFront, hawait, List.append_assoc, hbytes, List.append_assoc]
    exact hplace.more (by rw [hfront])
  · rcases hlost hpos with hnone | hnone
    · exact Or.inl (hkept _ (by intro h; cases h) hnone)
    · exact Or.inr (hkept _ (by intro h; cases h) hnone)

/-- **The loop between two writes.**  The environment moves nothing of the table; a poll is
    a run of it. -/
theorem loop_after {c' : Caller} {e : UatCallerLoop.Ev} (h : Hearing submit n missing c)
    (hcompat : Compatible n) (hlive : c.state.isTerminal = false) (hbudget : n.toLeft.length ≤ 3)
    (hq : ∀ m ∈ n.toLeft, isSubmit m = false) (hs : UatCallerLoop.step c e = some c')
    (hown : callerOwn (.call e) = true) :
    (Hearing submit n missing c' ∧ c'.await = c.await) ∨
      (callerWrites submit (.looping c) = none ∧ ∃ n' more, Reaches net n n' ∧ Posts n n' more ∧
        After submit n' missing c' ∧ Begins submit more c') := by
  cases e with
  | arrive k =>
      obtain ⟨-, hs⟩ := Option.ite_none_right_eq_some.mp hs
      obtain rfl := Option.some.inj hs
      refine Or.inl ⟨hearing_of_environment h rfl rfl rfl ?_ (Or.inl rfl), rfl⟩
      rw [List.append_assoc, List.take_append_drop]
  | finish | lose | close err =>
      obtain ⟨-, hs⟩ := Option.ite_none_right_eq_some.mp hs
      obtain rfl := Option.some.inj hs
      exact Or.inl ⟨hearing_of_environment h rfl rfl rfl rfl (Or.inl rfl), rfl⟩
  | hookSend | hookDrop =>
      obtain ⟨hwaiting, hs⟩ := Option.ite_none_right_eq_some.mp hs
      obtain rfl := Option.some.inj hs
      exact Or.inl ⟨hearing_of_environment h rfl rfl rfl rfl (Or.inr hwaiting), rfl⟩
  | shutdown | timer =>
      obtain rfl := Option.some.inj hs
      exact Or.inl ⟨hearing_of_environment h rfl rfl rfl rfl (Or.inl rfl), rfl⟩
  | wrote w => cases hown
  | poll expired =>
      obtain ⟨read, hawait, rfl⟩ := UatCallerLoop.step_poll hs
      refine Or.inr ⟨?_, pollSelect_after h hcompat hlive hbudget hq hawait expired⟩
      rw [callerWrites, hawait]

end

/-! ## The caller's task -/

section

variable [text : JsonText]

/-- The text layer reads back what it prints, and prints the short messages of a call in at
    most 64 bytes, none of them zero. -/
structure CallText (text : JsonText) : Prop where
  readsBack : ReadsBack text
  said : PrintsShort text
  cancel : ShortHeader (text.print (serialize .cancel))

/-- A short message has a frame. -/
theorem short_frameFor (htext : ReadsBack text) {m : Message} (hbody : messageBody m = [])
    (hshort : ShortHeader (text.print (serialize m))) :
    ∃ payload, frameFor m = some (frameOf payload) ∧ SaidFrame m payload := by
  have hmax := hshort.le_max
  have hencode : ∃ frame, encode toVec m [] = .ok frame := by
    refine ⟨_, encode_ok_iff.mpr ⟨_, rfl, ?_, ?_, rfl⟩⟩
    · show _ ≤ 4096
      omega
    · show 2 + _ + (messageBody m).length ≤ 65536
      rw [hbody, List.length_nil]
      omega
  obtain ⟨frame, hframe⟩ := hencode
  obtain ⟨payload, rfl, hsaid⟩ := short_frame htext hbody hshort hframe
  exact ⟨payload, by rw [frameFor, hframe]; rfl, hsaid⟩

/-- What joins the queue has a frame, short unless it is the `Submit`. -/
def Framed (m : Message) : Prop :=
  ∃ payload, frameFor m = some (frameOf payload) ∧ CallFrame m payload

/-- A `Cancel` can be framed. -/
theorem cancel_framed (htext : CallText text) : Framed .cancel := by
  obtain ⟨payload, hframe, hsaid⟩ := short_frameFor htext.readsBack rfl htext.cancel
  exact ⟨payload, hframe, callFrame_of_said hsaid⟩

/-- So can whatever a callee says. -/
theorem said_framed (htext : CallText text) {m : Message} (hm : m ∈ said) : Framed m := by
  obtain ⟨payload, hframe, hsaid⟩ :=
    short_frameFor htext.readsBack (said_body hm) (htext.said m hm)
  exact ⟨payload, hframe, callFrame_of_said hsaid⟩

/-- So can a `Submit` that fits a frame. -/
theorem submit_framed (htext : CallText text) {m : Message} {frame : Bytes}
    (hm : isSubmit m = true) (hframe : frameFor m = some frame) : Framed m := by
  obtain ⟨payload, hframes, rfl⟩ := UatCallRun.frameFor_frame htext.readsBack hframe
  exact ⟨payload, hframe, hframes, fun hshort => by cases hm.symm.trans hshort⟩

variable {submit : Message} {n n' : Net} {missing : Bytes} {s : Call}

/-- Of the tables, the callee's read depends on what is in flight to it alone. -/
theorem reading_of_toRight {c : Callee} {toCallee : Bytes} (hq : n'.toRight = n.toRight)
    (h : Reading n c toCallee missing) : Reading n' c toCallee missing := by
  rw [Reading, hq]
  exact h

/-- Bytes move from what is missing to the stream. -/
theorem Reading.more {c : Callee} {toCallee toCallee' missing' : Bytes}
    (h : Reading n c toCallee missing) (hsame : toCallee' ++ missing' = toCallee ++ missing) :
    Reading n c toCallee' missing' := by
  have hfront : ∀ front : Bytes, front ++ toCallee' ++ missing' = front ++ toCallee ++ missing := by
    intro front
    rw [List.append_assoc, hsame, List.append_assoc]
  rw [Reading] at h ⊢
  cases hawait : c.await with
  | acceptBi | firstFrame now read =>
      simp only [hawait] at h
      exact h.more (hfront _)
  | emit msg rest | waitTerminal read =>
      simp only [hawait] at h
      obtain ⟨q, k, hq, hplace⟩ := h
      exact ⟨q, k, hq, hplace.more (hfront _)⟩
  | _ => trivial

/-- A reader of an empty queue has its place. -/
theorem later_push {m : Message} {payload bytes : Bytes} (h : Later [] [] bytes)
    (hframe : CallFrame m payload) : Later [m] (frameOf payload) bytes := by
  obtain ⟨q, k, hq, hplace⟩ := h
  obtain rfl : q = [] := hq.elim id id
  refine ⟨[m], k, Or.inl rfl, hplace.push hframe fun hpos => ?_⟩
  obtain ⟨payloads, hframes, -, hin⟩ := hplace.frames
  cases hframes
  obtain ⟨payload, rest, hnil, -⟩ := hin hpos
  cases hnil

/-- A message joins the callee's queue.  A callee behind its first frame has read all that was
    there. -/
theorem Reading.push {c : Callee} {toCallee payload : Bytes} {m : Message}
    (h : Reading n c toCallee []) (hcallee : CalleeAt n c)
    (hempty : n.right ≠ none → n.toRight = []) (hframe : CallFrame m payload)
    (hq : n'.toRight = n.toRight ++ [m]) : Reading n' c toCallee (frameOf payload) := by
  have hzero : 0 < 0 → isSubmit m = false := fun hpos => absurd hpos (Nat.lt_irrefl 0)
  rw [Reading] at h ⊢
  rw [CalleeAt] at hcallee
  rw [hq]
  cases hawait : c.await with
  | acceptBi | firstFrame now read =>
      simp only [hawait] at h
      exact h.push hframe hzero
  | emit msg rest | waitTerminal read =>
      simp only [hawait] at h hcallee
      have hnil : n.toRight = [] := hempty (by rw [hcallee.1]; intro h; cases h)
      rw [hnil] at h ⊢
      exact later_push h hframe
  | _ => trivial

/-- With nothing sent nothing is begun, and nothing is being written. -/
theorem Outbox.silent {told : List Message} {a : UatCalleeRun.Await} {put : Nat}
    (h : Outbox told a put [] missing) : missing = [] ∧ calleeWrites a = none := by
  generalize hnil : ([] : List Message) = sent at h
  cases h with
  | idle _ hquiet => exact ⟨rfl, hquiet⟩
  | writing _ _ | broken _ _ _ =>
      have hlen := congrArg List.length hnil
      rw [List.length_append, List.length_singleton] at hlen
      cases hlen

/-- A callee sends three messages, at most. -/
theorem Outbox.length_le {told sent : List Message} {a : UatCalleeRun.Await} {put : Nat}
    (h : Outbox told a put sent missing) (hroom : told.length ≤ 3)
    (hbudget : left a ≤ 3 - told.length) : sent.length ≤ 3 := by
  cases h with
  | idle _ _ => exact hroom
  | writing hwrites _ =>
      have hone := one_le_left hwrites
      rw [List.length_append, List.length_singleton]
      omega
  | broken _ _ hroom' =>
      rw [List.length_append, List.length_singleton]
      omega

/-- The caller's task has moved, and the tables with it. -/
theorem rel_of_posts {more : List Message} {caller : CallerRun} {put : Nat}
    {toCallee missing' : Bytes} (h : Rel submit s n) (hreach : Reaches net n n')
    (hposts : Posts n n' more) (hasked : more = [] ∨ n'.sentRight <+: [submit, .cancel])
    (hleft : ∃ missing, Outbox s.told s.callee.await s.calleePut n.sentLeft missing ∧
      CallerAt submit n' missing caller.stage)
    (hposted : Posted submit put missing' caller.stage)
    (hreading : Reading n' s.callee toCallee missing') :
    Rel submit { s with caller := caller, toCallee := toCallee, callerPut := put } n' := by
  refine ⟨compatible_reaches h.compatible hreach, ?_, h.order.posts hposts, ?_,
    calleeAt_of_right hposts.right h.callee, ?_, ⟨missing', hposted, hreading⟩⟩
  · rcases hasked with rfl | hasked
    · rw [hposts.sentRight, List.append_nil]
      exact h.asked
    · exact hasked
  · rw [hposts.sentLeft]
    exact h.words
  · rw [hposts.sentLeft]
    exact hleft

/-- The call stands where its loop has come to. -/
theorem settle_at {caller : CallerRun} {c : Caller} (h : After submit n missing c) :
    CallerAt submit n missing (caller.settle c).stage := by
  rw [CallerRun.settle]
  cases hawait : c.await with
  | returned result => exact h.returned result hawait
  | panicked => trivial
  | writeSubmit | select read | writeCancel => exact h.running (by rw [hawait]; rfl)

/-- A task that does not ask any more. -/
theorem posted_of_ended {stage : Stage} {put : Nat} (h : asks stage = false) :
    Posted submit put missing stage := by
  cases stage with
  | openBi o | looping c => cases h
  | _ => exact ⟨fun m hm => (by cases hm), fun _ hasks => (by cases hasks)⟩

/-- The rest of the frame is still to be put on the stream. -/
theorem posted_of_writes {stage : Stage} {put : Nat} {m : Message} {frame : Bytes}
    (hwrites : callerWrites submit stage = some m) (hframe : frameFor m = some frame) :
    Posted submit put (frame.drop put) stage := by
  refine ⟨fun m' hm' => ?_, fun hnone => by cases hwrites.symm.trans hnone⟩
  obtain rfl := Option.some.inj (hwrites.symm.trans hm')
  exact ⟨frame, hframe, rfl⟩

/-- A write that begins has its whole frame to put. -/
theorem posted_begins {stage : Stage} {put : Nat} {m : Message} {frame : Bytes}
    (hwrites : callerWrites submit stage = some m) (hframe : frameFor m = some frame)
    (hput : put = 0) : Posted submit put frame stage := by
  subst hput
  have hposted : Posted submit 0 (frame.drop 0) stage := posted_of_writes hwrites hframe
  exact hposted

/-- A caller that writes nothing has nothing to put. -/
theorem posted_of_quiet {stage : Stage} (hwrites : callerWrites submit stage = none) :
    Posted submit 0 [] stage :=
  ⟨fun m hm => (by cases hwrites.symm.trans hm), fun _ _ => ⟨rfl, rfl⟩⟩

/-- **A stream is opened.**  The caller's table sends the `Submit`. -/
theorem rel_opened (htext : CallText text) {o : Opening} (h : Rel submit s n)
    (hsubmit : isSubmit submit = true) {frame : Bytes} (hframe : frameFor submit = some frame)
    (hat : s.caller.stage = .openBi o) :
    ∃ n', Reaches net n n' ∧
      Rel submit { s with caller := o.opened submit [] s.caller } n' := by
  obtain ⟨missing, houtbox, hcaller⟩ := h.left
  obtain ⟨missing', hposted, hreading⟩ := h.right
  rw [hat] at hcaller hposted
  obtain rfl : n = UatTwoParty.start := hcaller
  obtain rfl : missing = [] := houtbox.silent.1
  obtain ⟨rfl, hput⟩ := hposted.idle rfl rfl
  obtain ⟨payload, hpayload, hcall⟩ := submit_framed htext hsubmit hframe
  cases submit with
  | submit task deadline contentType credential body =>
      have hsend : callerStep UatTwoParty.start.left
          (.send (.submit task deadline contentType credential body)) = .ok (.go .submitted) := rfl
      have hreach : Reaches net _ _ := .single (net_caller_sends hsend)
      refine ⟨_, hreach, rel_of_posts h hreach ⟨rfl, rfl, rfl, rfl⟩ (Or.inr ⟨[.cancel], rfl⟩)
        ⟨[], houtbox, ?_⟩ (posted_begins rfl hpayload hput)
        (hreading.push h.callee (fun hne => absurd rfl hne) hcall rfl)⟩
      exact ⟨rfl, .submitted ⟨(by intro h; cases h), (by intro h; cases h)⟩ rfl, rfl,
        ⟨0, place_nil, fun hpos => absurd hpos (Nat.lt_irrefl 0)⟩,
        fun read hread => (by cases hread)⟩
  | _ => cases hsubmit

/-- **The loop between two writes.** -/
theorem rel_loop (htext : CallText text) {task : TaskId} {c c' : Caller} {e : UatCallerLoop.Ev}
    (h : Rel submit s n) (hears : Hears task s.told c) (hat : s.caller.stage = .looping c)
    (hrun : c.await.running = true) (hbudget : n.sentLeft.length ≤ 3)
    (hown : callerOwn (.call e) = true) (hs : UatCallerLoop.step c e = some c') :
    ∃ n', Reaches net n n' ∧ Rel submit { s with caller := s.caller.settle c' } n' := by
  obtain ⟨missing, houtbox, hcaller⟩ := h.left
  obtain ⟨missing', hposted, hreading⟩ := h.right
  rw [hat] at hcaller hposted
  have hhearing : Hearing submit n missing c := hcaller
  have hheard : ∀ m ∈ n.toLeft, m ∈ n.sentLeft := by
    intro m hm
    rw [hhearing.heard]
    exact List.mem_append_right _ hm
  have hlength : n.toLeft.length ≤ 3 := by
    have hlen := congrArg List.length hhearing.heard
    rw [List.length_append] at hlen
    omega
  rcases loop_after hhearing h.compatible (hears.live hrun) hlength
      (fun m hm => said_not_submit (h.words m (hheard m hm))) hs hown with
    ⟨hhearing', hawait⟩ | ⟨hquiet, n', more, hreach, hposts, hafter, hbegins⟩
  · -- The environment: the loop is where it was.
    have hsettle : s.caller.settle c' = { s.caller with stage := .looping c' } := by
      rw [CallerRun.settle, hawait]
      cases hc : c.await with
      | returned result | panicked => rw [hc] at hrun; cases hrun
      | _ => rfl
    have hwrites : callerWrites submit (.looping c') = callerWrites submit (.looping c) := by
      rw [callerWrites, callerWrites, hawait]
    refine ⟨n, .refl n, rel_of_posts h (.refl n) (posts_nothing n) (Or.inl rfl)
      ⟨missing, houtbox, ?_⟩ ?_ hreading⟩
    · rw [hsettle]
      exact hhearing'
    · rw [hsettle]
      refine ⟨fun m hm => hposted.writing m (hwrites ▸ hm), fun hnone _ => ?_⟩
      exact hposted.idle (hwrites ▸ hnone) rfl
  · obtain ⟨rfl, hput⟩ := hposted.idle hquiet rfl
    have hleft : ∃ missing, Outbox s.told s.callee.await s.calleePut n.sentLeft missing ∧
        CallerAt submit n' missing (s.caller.settle c').stage :=
      ⟨missing, houtbox, settle_at hafter⟩
    rcases hbegins with ⟨rfl, hwrites⟩ | ⟨rfl, hcancel⟩
    · have hposted' : Posted submit s.callerPut [] (s.caller.settle c').stage := by
        rw [hput]
        exact posted_of_quiet (settle_writes.trans hwrites)
      exact ⟨n', hreach, rel_of_posts h hreach hposts (Or.inl rfl) hleft hposted'
        (reading_of_toRight (hposts.toRight.trans (List.append_nil _)) hreading)⟩
    · -- The `Cancel` joins a queue from which a started callee has taken the `Submit`.
      have hwrites : callerWrites submit (.looping c') = some .cancel := by
        rw [callerWrites, hcancel]
      have hsent : n.sentRight = [submit] := by
        have hasked := (hafter.running (by rw [hcancel]; rfl)).asked
        cases hasked with
        | submitted _ hsent =>
            rw [hposts.sentRight] at hsent
            cases hhearing.asked with
            | submitted _ hsent' => exact hsent'
            | canceled _ _ hsent' => rw [hsent'] at hsent; cases hsent
        | canceled _ _ hsent =>
            rw [hposts.sentRight] at hsent
            have hsplit : n.sentRight ++ [.cancel] = [submit] ++ [.cancel] := hsent
            exact List.append_inj_left' hsplit rfl
      obtain ⟨payload, hpayload, hcall⟩ := cancel_framed htext
      exact ⟨n', hreach, rel_of_posts h hreach hposts
        (Or.inr (by rw [hposts.sentRight, hsent]; exact List.prefix_refl _)) hleft
        (posted_begins (settle_writes.trans hwrites) hpayload hput)
        (hreading.push h.callee (h.order.drained hsent) hcall hposts.toRight)⟩

/-- The task moves on without its table. -/
theorem rel_of_caller {caller : CallerRun} (h : Rel submit s n)
    (hat : ∀ missing, CallerAt submit n missing caller.stage)
    (hended : asks caller.stage = false) : Rel submit { s with caller := caller } n := by
  obtain ⟨missing, houtbox, -⟩ := h.left
  obtain ⟨missing', -, hreading⟩ := h.right
  exact rel_of_posts h (.refl n) (posts_nothing n) (Or.inl rfl) ⟨missing, houtbox, hat missing⟩
    (posted_of_ended hended) hreading

/-- **The caller between two writes.** -/
theorem rel_caller (htext : CallText text) {task : TaskId} {e : UatCallerRun.Ev}
    {caller : CallerRun} (h : Rel submit s n) (hknows : Knows task s.told s.caller)
    (hsubmit : isSubmit submit = true) {frame : Bytes} (hframe : frameFor submit = some frame)
    (hbudget : n.sentLeft.length ≤ 3) (hown : callerOwn e = true)
    (hs : UatCallerRun.step submit [] s.caller e = some caller) :
    ∃ n', Reaches net n n' ∧ Rel submit { s with caller := caller } n' := by
  have hstage := hknows.stage
  cases e with
  | setup r =>
      obtain ⟨o, hat, -⟩ := UatCallerRun.step_setup hs
      simp only [UatCallerRun.step, hat] at hs
      -- A stream that was not opened ends the task with an error of its own.
      have hfailed : ∀ err reason, err ≠ .illegal →
          Rel submit { s with caller := o.failed s.caller err reason } n := by
        intro err reason herr
        rw [Opening.failed]
        cases o.closed with
        | some closed => exact rel_of_caller h (fun _ => concludes_error herr) rfl
        | none => exact rel_of_caller h (fun _ => concludes_error (by intro h; cases h)) rfl
      cases r with
      | opened =>
          obtain rfl := Option.some.inj hs
          exact rel_opened htext h hsubmit hframe hat
      | failed reason | timedOut =>
          obtain rfl := Option.some.inj hs
          exact ⟨n, .refl n, hfailed _ _ (by intro h; cases h)⟩
  | call e =>
      rcases UatCallerRun.step_call hs with ⟨o, o', hat, -, rfl⟩ | ⟨c, c', hat, hc, rfl⟩
      · obtain ⟨missing, houtbox, hcaller⟩ := h.left
        obtain ⟨missing', hposted, hreading⟩ := h.right
        rw [hat] at hcaller hposted
        have hopen : Posted submit s.callerPut missing' (.openBi o') :=
          ⟨fun m hm => (by cases hm), fun _ _ => hposted.idle rfl rfl⟩
        exact ⟨n, .refl n, rel_of_posts h (.refl n) (posts_nothing n) (Or.inl rfl)
          ⟨missing, houtbox, hcaller⟩ hopen hreading⟩
      · rw [hat] at hstage
        exact rel_loop htext h hstage.2 hat hstage.1 hbudget hown hc
  | guardJoined =>
      obtain ⟨record, lost, result, hat, rfl⟩ := UatCallerRun.step_joined hs
      obtain ⟨missing, -, hcaller⟩ := h.left
      rw [hat] at hcaller
      exact ⟨n, .refl n, rel_of_caller h (fun _ => hcaller) rfl⟩
  | drop =>
      obtain ⟨record, lost, -, rfl⟩ := UatCallerRun.step_dropped hs
      exact ⟨n, .refl n, rel_of_caller h (fun _ => trivial) rfl⟩
  | unwound =>
      obtain ⟨record, lost, -, rfl⟩ := UatCallerRun.step_unwound hs
      exact ⟨n, .refl n, rel_of_caller h (fun _ => trivial) rfl⟩

/-- The stream takes a part of what the caller writes. -/
theorem rel_callerPuts {m : Message} {frame : Bytes} {k : Nat} (h : Rel submit s n)
    (hwrites : callerWrites submit s.caller.stage = some m) (hframe : frameFor m = some frame) :
    Rel submit { s with
      toCallee := s.toCallee ++ (frame.drop s.callerPut).take k
      callerPut := s.callerPut + k } n := by
  obtain ⟨missing', hposted, hreading⟩ := h.right
  obtain ⟨frame', hframe', rfl⟩ := hposted.writing m hwrites
  obtain rfl := Option.some.inj (hframe.symm.trans hframe')
  refine ⟨h.compatible, h.asked, h.order, h.words, h.callee, h.left, frame.drop (s.callerPut + k),
    posted_of_writes hwrites hframe, hreading.more ?_⟩
  rw [List.append_assoc, ← List.drop_drop, List.take_append_drop]

/-- **A write of the caller ends.** -/
theorem rel_callerWrote {m : Message} {w : WriteEnd} {bytes : Bytes} {caller : CallerRun}
    (h : Rel submit s n) (hwrites : callerWrites submit s.caller.stage = some m)
    (hbytes : lastBytes m s.callerPut w = some bytes)
    (hs : UatCallerRun.step submit [] s.caller (.call (.wrote w)) = some caller) :
    Rel submit { s with caller := caller, toCallee := s.toCallee ++ bytes, callerPut := 0 } n := by
  obtain ⟨missing, houtbox, hcaller⟩ := h.left
  obtain ⟨missing', hposted, hreading⟩ := h.right
  obtain ⟨frame, hframe, rfl⟩ := hposted.writing m hwrites
  obtain ⟨c, hat, hwhere⟩ := UatCallRun.callerWrites_some hwrites
  rw [hat] at hcaller
  have hhearing : Hearing submit n missing c := hcaller
  simp only [UatCallerRun.step, hat] at hs
  obtain ⟨c', hc, rfl⟩ := Option.map_eq_some_iff.mp hs
  -- Behind a write the loop reads, or it has stopped.
  obtain ⟨hafter, hquiet, hstopped⟩ : After submit n missing c' ∧
      callerWrites submit (.looping c') = none ∧
      (w ≠ .done → c'.await.running = false) := by
    rcases hwhere with ⟨hawait, -⟩ | ⟨hawait, -⟩
    · simp only [UatCallerLoop.step, hawait] at hc
      obtain rfl := Option.some.inj hc
      refine ⟨submitWritten_after hhearing hawait w, ?_, fun hw => ?_⟩
      · cases w with
        | done =>
            rw [Caller.submitWritten]
            dsimp only [WriteEnd.result]
            split
            · rfl
            · exact loopTop_writes _
        | failed err | timedOut =>
            exact stopped_writes (UatCallRun.submitWritten_stopped c rfl)
      · cases w with
        | done => exact absurd rfl hw
        | failed err | timedOut => exact UatCallRun.submitWritten_stopped c rfl
    · simp only [UatCallerLoop.step, hawait] at hc
      obtain rfl := Option.some.inj hc
      refine ⟨cancelWritten_after hhearing hawait w, ?_, fun hw => ?_⟩
      · cases w with
        | done => exact loopTop_writes _
        | failed err | timedOut => exact stopped_writes (UatCallRun.writeFailed_stopped c _)
      · cases w with
        | done => exact absurd rfl hw
        | failed err | timedOut => exact UatCallRun.writeFailed_stopped c _
  have hleft : ∃ missing, Outbox s.told s.callee.await s.calleePut n.sentLeft missing ∧
      CallerAt submit n missing (s.caller.settle c').stage := ⟨missing, houtbox, settle_at hafter⟩
  cases w with
  | done =>
      obtain ⟨frame', hframe', rfl⟩ := Option.map_eq_some_iff.mp hbytes
      obtain rfl := Option.some.inj (hframe.symm.trans hframe')
      refine rel_of_posts h (.refl n) (posts_nothing n) (Or.inl rfl) hleft
        (posted_of_quiet (settle_writes.trans hquiet)) (hreading.more ?_)
      rw [List.append_nil]
  | failed err | timedOut =>
      obtain rfl := Option.some.inj hbytes
      have hreading' : Reading n s.callee (s.toCallee ++ []) (frame.drop s.callerPut) :=
        hreading.more (by rw [List.append_nil])
      refine rel_of_posts h (.refl n) (posts_nothing n) (Or.inl rfl) hleft (posted_of_ended ?_)
        hreading'
      have hrun := hstopped (by intro h; cases h)
      rw [CallerRun.settle]
      cases hawait : c'.await with
      | returned result | panicked => rfl
      | _ => rw [hawait] at hrun; cases hrun

end

end

end UatCallTables
