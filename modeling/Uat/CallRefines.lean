import Uat.CallTables

/-! # The two tasks of a call implement the two tables

    The callee's half of the simulation, and what it comes to.

    - `Moves` is what the callee's task does to the tables from one await to the next: at
      most one message joins the queue to the caller, and its frame is then written.
    - `rel_callee`, `rel_calleePuts`, `rel_calleeWrote` and `rel_calleeGets` are its steps.
    - `Unsent`: a `Submit` that fits no frame is never on the stream, and its callee waits.
    - `call_refines_tables`: every run of the two tasks is a run of the two tables over
      queues that lose nothing.
    - `no_message_refused`: so neither task ever refuses a message of the other. -/

namespace UatCallRefines

open UatTypes UatState UatPolicy UatVerify UatCodec UatHeader UatStream UatRecvStream UatRecord
open UatCallerLoop (Caller Hook WriteEnd)
open UatCallerRun (CallerRun Stage runCallerWith)
open UatCalleeRun (Callee CalleeBehavior runCalleeWith)
open UatTwoParty (Net Compatible verdict IsVerdict net net_caller_sends net_callee_starts
  net_callee_moves)
open UatCallRun (Call callerWrites frameFor lastBytes deliver runOf inPieces submitted)
open UatCallerLoop (remote)
open UatAttenuation (plainText answeringNode epoch)
open UatWire UatPlace UatCalleeTells UatCallerHears UatCallTables Checked StepRun

section

variable [Base64Engine]

/-! ## From one await to the next -/

/-- What a move of the callee leaves of the other side, and what it puts on its queue. -/
structure Tells (n n' : Net) (more : List Message) : Prop where
  left : n'.left = n.left
  sentRight : n'.sentRight = n.sentRight
  toLeft : n'.toLeft = n.toLeft ++ more
  sentLeft : n'.sentLeft = n.sentLeft ++ more

theorem tells_nothing (n : Net) : Tells n n [] :=
  ⟨rfl, rfl, (List.append_nil _).symm, (List.append_nil _).symm⟩

/-- Silent moves may come first. -/
theorem Tells.trans {n n' n'' : Net} {more : List Message} (h : Tells n n' [])
    (h' : Tells n' n'' more) : Tells n n'' more := by
  refine ⟨h'.left.trans h.left, h'.sentRight.trans h.sentRight, ?_, ?_⟩
  · rw [h'.toLeft, h.toLeft, List.append_nil]
  · rw [h'.sentLeft, h.sentLeft, List.append_nil]

/-- The callee writes what it has put on its queue, and nothing else. -/
def Speaking (more : List Message) (c : Callee) : Prop :=
  (more = [] ∧ calleeWrites c.await = none) ∨
    ∃ m ∈ said, more = [m] ∧ calleeWrites c.await = some m

/-- A callee behind its first frame, in front of what it may still read. -/
structure Driving (submit : Message) (n : Net) (c : Callee) : Prop where
  right : n.right = some c.state
  order : InOrder n
  asked : n.sentRight <+: [submit, .cancel]

/-- All that a callee may still read is a `Cancel`. -/
theorem Driving.queue {submit : Message} {n : Net} {c : Callee} (h : Driving submit n c) :
    n.toRight.length ≤ 1 ∧ ∀ m ∈ n.toRight, m = .cancel := by
  obtain ⟨-, hsuffix⟩ := h.order.started (by rw [h.right]; intro h; cases h)
  have htail : n.sentRight.tail <+: [.cancel] := by
    obtain ⟨rest, hrest⟩ := h.asked
    cases hsent : n.sentRight with
    | nil => exact List.nil_prefix
    | cons m q =>
        rw [hsent] at hrest
        exact ⟨rest, (List.cons.inj hrest).2⟩
  have hsub : n.toRight <:+: [.cancel] := hsuffix.isInfix.trans htail.isInfix
  exact ⟨hsub.length_le, fun m hm => List.mem_singleton.mp (hsub.subset hm)⟩

/-- From `Offered` the tables let every behavior speak. -/
theorem can_emit (behavior : CalleeBehavior) : CanEmit .offered behavior.emits := by
  cases behavior with
  | stubComplete => exact ⟨_, rfl, _, rfl, trivial⟩
  | hangAfterAccept | silentHang => exact ⟨_, rfl, trivial⟩
  | needInputHang => exact ⟨_, rfl, _, rfl, trivial⟩

/-- What a behavior emits is among what a callee says. -/
theorem emits_said (behavior : CalleeBehavior) : ∀ m ∈ behavior.emits, m ∈ said := by
  cases behavior <;> simp [CalleeBehavior.emits, said]

/-- A move of `callee_step` that takes nothing from the queue. -/
theorem Driving.moves {submit : Message} {n : Net} {c : Callee}
    {e : Duplex.Local Message CloseCode} {a : Duplex.Act Message CloseCode}
    {st : Step CalleeState} {rest : List Message} (h : Driving submit n c)
    (hact : e.act n.toRight = some (a, rest))
    (hstep : calleeStep c.state (UatTwoParty.calleeEvent a) = .ok st) :
    ∃ n', Reaches net n n' ∧ Tells n n' (Duplex.puts a st.emit) ∧ InOrder n' ∧
      n'.right = some st.state ∧ n'.toRight = rest ∧ n.sentRight ≠ [] := by
  obtain ⟨hsent, hsuffix⟩ := h.order.started (by rw [h.right]; intro h; cases h)
  refine ⟨_, .single (net_callee_moves h.right hact hstep), ⟨rfl, rfl, rfl, rfl⟩, ?_, rfl, rfl,
    hsent⟩
  refine ⟨fun hnone => (by cases hnone), fun _ => ⟨hsent, ?_⟩⟩
  have hrest : rest <:+ n.toRight := by
    rcases Duplex.act_cases hact with ⟨m, -, rfl⟩ | ⟨m, -, hq⟩ | ⟨-, rfl⟩ | ⟨code, -, rfl⟩
    · exact List.suffix_refl _
    · rw [hq]
      exact List.suffix_cons m rest
    · exact List.suffix_refl _
    · exact List.suffix_refl _
  exact hrest.trans hsuffix

/-- A callee that has not ended accepts the next message of its queue. -/
theorem lawful_right {n : Net} {s : CalleeState} {m : Message} {q : List Message}
    (h : Compatible n) (hright : n.right = some s) (hlive : s.isTerminal = false)
    (hq : n.toRight = m :: q) : ∃ st, calleeStep s (.recv m) = .ok st := by
  have hreadable := h.readable
  rw [hright, hq] at hreadable
  exact hreadable.accepts hlive

section

variable [text : JsonText]

/-- **A step of the callee between two awaits**, and what the tables make of it. -/
structure Moves (n n' : Net) (more : List Message) (c : Callee) (toCallee missing : Bytes) :
    Prop where
  reach : Reaches net n n'
  tells : Tells n n' more
  still : n.sentRight = [] → n' = n
  order : InOrder n'
  callee : CalleeAt n' c
  speaks : Speaking more c
  reading : Reading n' c toCallee missing

/-- Some move of the tables is the step of the task. -/
def Moved (n : Net) (c : Callee) (toCallee missing : Bytes) : Prop :=
  ∃ n' more, Moves n n' more c toCallee missing

variable {submit : Message} {n : Net} {c : Callee} {toCallee missing : Bytes}

/-- The tables stand still. -/
theorem moved_of_still (horder : InOrder n) (hcallee : CalleeAt n c)
    (hquiet : calleeWrites c.await = none) (hreading : Reading n c toCallee missing) :
    Moved n c toCallee missing :=
  ⟨n, [], .refl n, tells_nothing n, fun _ => rfl, horder, hcallee, Or.inl ⟨rfl, hquiet⟩, hreading⟩

/-- Returning what the tables have come to. -/
theorem loopRet_moved {result : Except CallError Outcome} (horder : InOrder n)
    (h : Concludes result fun o => n.right = some (.terminal o)) :
    Moved n (c.loopRet result) toCallee missing :=
  moved_of_still horder h rfl trivial

theorem loopRet_error_moved {err : CallError} (horder : InOrder n) (h : err ≠ .illegal) :
    Moved n (c.loopRet (.error err)) toCallee missing := loopRet_moved horder (concludes_error h)

theorem closeOnFrameErr_moved (horder : InOrder n) (err : FrameIoError) :
    Moved n ((c.closeOnFrameErr err).loopRet (.error (.frame err))) toCallee missing :=
  loopRet_error_moved horder (by intro h; cases h)

theorem unwinding_moved (horder : InOrder n) (recv : RecvStream) (spent : MemorySpentSet) :
    Moved n { c with recv := recv, spent := spent, await := .unwinding } toCallee missing :=
  moved_of_still horder trivial rfl trivial

/-- The top of `callee_wait_terminal`'s loop. -/
theorem waitTop_moved (h : Driving submit n c)
    (hlater : Later n.toRight missing (c.recv.arrived ++ toCallee)) :
    Moved n c.waitTop toCallee missing := by
  rw [Callee.waitTop]
  split
  · next o hstate =>
      have hright : n.right = some (.terminal o) := by rw [h.right, hstate]
      exact moved_of_still h.order hright rfl trivial
  · next hlive =>
      have hlive' : c.state.isTerminal = false := by
        cases hstate : c.state with
        | terminal o => exact absurd hstate (hlive o)
        | _ => rfl
      exact moved_of_still h.order ⟨h.right, hlive', waits_fresh⟩ rfl hlater

/-- `emit_callee`, one message of the behavior after the other. -/
theorem emitCallee_moved {msgs : List Message} (h : Driving submit n c)
    (hcan : CanEmit c.state msgs) (hwords : ∀ m ∈ msgs, m ∈ said)
    (hlater : Later n.toRight missing (c.recv.arrived ++ toCallee)) :
    Moved n (c.emitCallee msgs) toCallee missing := by
  cases msgs with
  | nil => exact waitTop_moved h hlater
  | cons m rest =>
      obtain ⟨st, hst, hcan'⟩ := hcan
      obtain ⟨n', hreach, htells, horder, hright, hq, hsent⟩ :=
        h.moves (e := .send m) (a := .send m) rfl hst
      rw [calleeStep_send_emit hst] at htells
      unfold Callee.emitCallee
      dsimp only
      rw [hst]
      refine ⟨n', [m], hreach, htells, fun hnil => absurd hnil hsent, horder, ⟨hright, hcan'⟩,
        Or.inr ⟨m, hwords m List.mem_cons_self, rfl, rfl⟩, ?_⟩
      show Later n'.toRight missing (c.recv.arrived ++ toCallee)
      rw [hq]
      exact hlater

/-- The callee's deadline. -/
theorem onTimer_moved (h : Driving submit n c) (hlive : c.state.isTerminal = false) :
    Moved n c.onTimer toCallee missing := by
  have hstep := calleeStep_timeout hlive
  obtain ⟨n', hreach, htells, horder, hright, -, hsent⟩ :=
    h.moves (e := .timeout) (a := .timeout) rfl hstep
  rw [Callee.onTimer, hstep]
  refine ⟨n', [.failed .deadlineExceeded], hreach, htells, fun hnil => absurd hnil hsent, horder,
    hright, Or.inr ⟨_, List.mem_of_getElem? (i := 4) rfl, rfl, rfl⟩, trivial⟩

/-- A lost connection, or a stream that ended. -/
theorem connLost_moved (h : Driving submit n c) (hlive : c.state.isTerminal = false)
    (code : CloseCode) (otherwise : Except CallError Outcome) :
    Moved n (c.connLost code otherwise) toCallee missing := by
  have hstep := calleeStep_connLost hlive code
  obtain ⟨n', hreach, htells, horder, hright, -, hsent⟩ :=
    h.moves (e := .connLost code) (a := .connLost code) rfl hstep
  obtain ⟨o, ho⟩ := connLostOutcomeCallee_terminal code
  have hright' : n'.right = some (.terminal o) := by rw [hright, go_state, ho]
  rw [Callee.connLost, hstep]
  dsimp only [go_state]
  rw [Callee.ended]
  simp only [ho]
  exact ⟨n', [], hreach, htells, fun hnil => absurd hnil hsent, horder, hright',
    Or.inl ⟨rfl, rfl⟩, trivial⟩

/-- What the callee reads behind its first frame ends the call, or lets it go on. -/
theorem read_moved {m : Message} {q : List Message} {recv : RecvStream} (h : Driving submit n c)
    (hcompat : Compatible n) (hlive : c.state.isTerminal = false) (hq : n.toRight = m :: q)
    (hplace : Place q 0 missing (recv.arrived ++ toCallee)) :
    Moved n ({ c with recv := recv }.onRead (.ok m)) toCallee missing := by
  obtain ⟨st, hst⟩ := lawful_right hcompat h.right hlive hq
  have hact : (Duplex.Local.recv : Duplex.Local Message CloseCode).act n.toRight =
      some (.recv m, q) := by rw [hq]; rfl
  obtain ⟨n', hreach, htells, horder, hright, hq', hsent⟩ := h.moves hact hst
  rw [Callee.onRead]
  dsimp only
  rw [hst]
  dsimp only
  rcases calleeStep_recv hst with ⟨-, -, rfl⟩ | ⟨-, rfl⟩
  · have hdriving : Driving submit n' { c with recv := recv, state := .working } :=
      ⟨hright, horder, htells.sentRight.symm ▸ h.asked⟩
    obtain ⟨n'', more, hmoves⟩ := waitTop_moved hdriving
      (hq'.symm ▸ ⟨q, 0, Or.inl rfl, hplace⟩ : Later n'.toRight missing (recv.arrived ++ toCallee))
    exact ⟨n'', more, hreach.trans hmoves.reach, Tells.trans htells hmoves.tells,
      fun hnil => absurd hnil hsent, hmoves.order, hmoves.callee, hmoves.speaks, hmoves.reading⟩
  · exact ⟨n', [.canceled], hreach, htells, fun hnil => absurd hnil hsent, horder, hright,
      Or.inr ⟨_, List.mem_of_getElem? (i := 3) rfl, rfl, rfl⟩, trivial⟩

/-- **One poll of the `select` in `callee_wait_terminal`.** -/
theorem pollWait_moved {behavior : CalleeBehavior} {read : ReadFrame} (h : Driving submit n c)
    (hcompat : Compatible n) (hlive : c.state.isTerminal = false) (hwaits : Waits read)
    (hawait : c.await = .waitTerminal read)
    (hlater : Later n.toRight missing (read.held ++ c.recv.arrived ++ toCallee)) (expired : Bool) :
    Moved n (c.pollWait behavior read expired) toCallee missing := by
  obtain ⟨hone, hcancel⟩ := h.queue
  have hrecv : ∀ recv : RecvStream, Driving submit n { c with recv := recv } :=
    fun _ => ⟨h.right, h.order, h.asked⟩
  rw [Callee.pollWait]
  split
  · exact loopRet_error_moved h.order (by intro h; cases h)
  split
  · exact onTimer_moved h hlive
  split
  · exact connLost_moved h hlive _ _
  split
  · -- The callee that ignores its peer stays where it is.
    refine moved_of_still h.order ?_ (by rw [hawait]; rfl) ?_
    · rw [CalleeAt, hawait]
      exact ⟨h.right, hlive, hwaits⟩
    · rw [Reading, hawait]
      exact hlater
  obtain ⟨q', k, hq', hplace⟩ := hlater
  have hlength : q'.length ≤ 1 := by
    rcases hq' with rfl | rfl
    · exact hone
    · exact Nat.zero_le 1
  have hshort : ∀ m ∈ q', isSubmit m = false := by
    rcases hq' with rfl | rfl
    · intro m hm
      rw [hcancel m hm]
      rfl
    · intro m hm
      cases hm
  have htakes := pollMessage_place hwaits (Nat.le_trans hlength (by decide)) hplace
  generalize pollMessage read c.recv = polled at htakes ⊢
  cases htakes with
  | @message m q'' recv hq _ hplace' =>
      obtain rfl : q' = n.toRight := hq'.resolve_right fun hnil => by rw [hnil] at hq; cases hq
      exact read_moved h hcompat hlive hq hplace'
  | @waits read' recv hwaits' hplace' =>
      dsimp only
      split
      · -- The future is dropped with what it had taken.
        rw [List.append_assoc] at hplace'
        obtain ⟨q'', k', hq'', hplace''⟩ := hplace'.loseAgain hwaits'.short hlength hshort
        refine waitTop_moved (hrecv recv) ⟨q'', k', ?_, hplace''⟩
        rcases hq'' with rfl | hnil
        · exact hq'
        · exact Or.inr hnil
      · exact moved_of_still h.order ⟨h.right, hlive, hwaits'⟩ rfl ⟨q', k, hq', hplace'⟩
  | fails fault recv =>
      cases fault with
      | err err =>
          cases err with
          | codec err => exact closeOnFrameErr_moved h.order (.codec err)
          | read _ | write | unexpectedEnd => exact connLost_moved (hrecv recv) hlive _ _
      | panic => exact unwinding_moved h.order recv c.spent

/-! ### The first frame -/

section

variable {Key : Type} [BiscuitEngine Key] {policy : Policy Key} {peer : NodeId}
  {behavior : CalleeBehavior}

/-- **The authorization.**  The table takes the `Submit`, and sends what the task writes: the
    first message of the behavior, or the denial. -/
theorem authorize_moved {m : Message} {q : List Message} (hright : n.right = none)
    (horder : InOrder n) (hasked : n.sentRight <+: [submit, .cancel]) (hm : isSubmit m = true)
    (hq : n.toRight = m :: q) (hplace : Place q 0 missing (c.recv.arrived ++ toCallee))
    (now : SystemTime) (header : Message) (body : Bytes) :
    Moved n (c.authorize policy peer behavior now header body) toCallee missing := by
  have hsent : n.sentRight = m :: q := (horder.waiting hright).symm.trans hq
  have hstart : n.sentRight ≠ [] := by
    rw [hsent]
    intro h
    cases h
  have hreach : Reaches net n { n with right := some .offered, toRight := q } := by
    cases m with
    | submit t d ct cr b => exact .single (net_callee_starts hright hq)
    | _ => cases hm
  generalize hn : ({ n with right := some .offered, toRight := q } : Net) = n' at hreach
  have htells : Tells n n' [] := by
    subst hn
    exact ⟨rfl, rfl, (List.append_nil _).symm, (List.append_nil _).symm⟩
  have horder' : InOrder n' := by
    subst hn
    refine ⟨fun hnone => (by cases hnone), fun _ => ⟨hstart, ?_⟩⟩
    show q <:+ n.sentRight.tail
    rw [hsent]
    exact List.suffix_refl q
  have hdriving : ∀ c : Callee, c.state = .offered → Driving submit n' c := by
    intro c hc
    refine ⟨?_, horder', htells.sentRight.symm ▸ hasked⟩
    rw [hc, ← hn]
  have hthen : ∀ {c' : Callee}, Moved n' c' toCallee missing → Moved n c' toCallee missing := by
    rintro c' ⟨n'', more, hmoves⟩
    exact ⟨n'', more, hreach.trans hmoves.reach, Tells.trans htells hmoves.tells,
      fun hnil => absurd hnil hstart, hmoves.order, hmoves.callee, hmoves.speaks, hmoves.reading⟩
  have hlater : Later n'.toRight missing (c.recv.arrived ++ toCallee) := by
    rw [← hn]
    exact ⟨q, 0, Or.inl rfl, hplace⟩
  rw [Callee.authorize]
  split
  · refine hthen (emitCallee_moved (hdriving _ rfl) ?_ (emits_said behavior) hlater)
    exact can_emit behavior
  · next err spent _ =>
      refine hthen ?_
      have hstep : calleeStep .offered (.send (.failed .unauthorized)) =
          .ok (.go (.terminal (.failed .unauthorized))) := rfl
      obtain ⟨n'', hreach', htells', horder'', hright', -, hsent'⟩ :=
        (hdriving { c with state := .offered } rfl).moves (e := .send (.failed .unauthorized))
          (a := .send (.failed .unauthorized)) rfl hstep
      exact ⟨n'', [.failed .unauthorized], hreach', htells', fun hnil => absurd hnil hsent',
        horder'', hright', Or.inr ⟨_, List.mem_of_getElem? (i := 5) rfl, rfl, rfl⟩, trivial⟩
  · next spent _ => exact unwinding_moved horder c.recv spent

/-- **One poll of the `select` that waits for the first frame.** -/
theorem pollFirstFrame_moved {read : ReadFrame} (hsubmit : isSubmit submit = true)
    (hright : n.right = none) (horder : InOrder n) (hasked : n.sentRight <+: [submit, .cancel])
    (hwaits : Waits read)
    (hplace : Place n.toRight 0 missing (read.held ++ c.recv.arrived ++ toCallee))
    (now : SystemTime) (expired : Bool) :
    Moved n (c.pollFirstFrame policy peer behavior now read expired) toCallee missing := by
  have hq : n.toRight <+: [submit, .cancel] := (horder.waiting hright).symm ▸ hasked
  have hlength : n.toRight.length ≤ 3 := Nat.le_trans hq.length_le (Nat.le_succ 2)
  have htakes := pollFrame_place hwaits hlength hplace
  rw [Callee.pollFirstFrame]
  split
  · exact loopRet_error_moved horder (by intro h; cases h)
  split
  · exact loopRet_moved horder (concludes_ok fun hv => hv.elim)
  generalize pollFrame read c.recv = polled at htakes ⊢
  cases htakes with
  | @frame m q payload recv hcons _ hframe hplace' =>
      have hm : isSubmit m = true := by
        obtain ⟨rest, hrest⟩ := hq
        rw [hcons] at hrest
        obtain rfl := (List.cons.inj hrest).1
        exact hsubmit
      dsimp only
      rw [Callee.onFrame]
      split
      · next header body _ =>
          exact authorize_moved (c := { c with recv := recv }) hright horder hasked hm hcons hplace'
            now header body
      · exact closeOnFrameErr_moved horder _
      · exact unwinding_moved horder recv c.spent
  | @waits read' recv hwaits' hplace' =>
      dsimp only
      split
      · exact loopRet_moved horder (concludes_ok fun hv => hv.elim)
      · exact moved_of_still horder ⟨hright, hwaits'⟩ rfl hplace'
  | fails fault recv =>
      cases fault with
      | err err => exact closeOnFrameErr_moved (c := { c with recv := recv }) horder err
      | panic => exact unwinding_moved horder recv c.spent

end

end

/-! ## The callee's task -/

/-- A callee that writes nothing has put nothing of a frame. -/
theorem callee_replaced {s : Call} {callee : Callee} (hput : s.calleePut = 0) :
    ({ s with callee := callee } : Call) =
      ⟨s.caller, callee, s.toCallee, s.callerPut, 0, s.told⟩ := by
  rw [← hput]

/-- A failed write is no refusal. -/
theorem writeFailed_at {n : Net} {c : Callee} {w : WriteEnd} {err : CallError}
    (hw : w.result = .error err) : CalleeAt n (c.writeFailed err) := by
  cases w with
  | done => cases hw
  | failed fe =>
      cases hw
      exact concludes_error (by intro h; cases h)
  | timedOut =>
      cases hw
      exact concludes_error (by intro h; cases h)

/-- Once its verdict is written, or could not be, the callee lingers on it. -/
theorem timeoutWritten_at {n : Net} {c : Callee} {o : Outcome}
    (hright : n.right = some c.state) (hstate : c.state = .terminal o) :
    CalleeAt n c.timeoutWritten ∧ calleeWrites c.timeoutWritten.await = none ∧
      left c.timeoutWritten.await = 0 := by
  rw [UatCalleeRun.Callee.timeoutWritten]
  simp only [hstate]
  exact ⟨hright.trans (congrArg some hstate), rfl, rfl⟩

section

variable [text : JsonText] {submit : Message} {n : Net} {s : Call}

/-- A callee that is not writing has put its messages on the stream, or writes no more. -/
theorem outbox_flushed {told sent : List Message} {a : UatCalleeRun.Await} {put : Nat}
    {missing : Bytes} (h : Outbox told a put sent missing) (hquiet : calleeWrites a = none)
    (hleft : left a ≠ 0) : sent = told ∧ missing = [] ∧ put = 0 := by
  cases h with
  | idle hput _ => exact ⟨rfl, rfl, hput⟩
  | writing hwrites _ => cases hquiet.symm.trans hwrites
  | broken _ hzero _ => exact absurd hzero hleft

/-- The caller hears what the callee puts on its queue, and its frame is still missing. -/
theorem callerAt_tells {n' : Net} {m : Message} {payload : Bytes} {stage : Stage}
    (h : CallerAt submit n [] stage) (htells : Tells n n' [m]) (hstill : n.sentRight = [] → n' = n)
    (hm : m ∈ said) (hframe : CallFrame m payload) :
    CallerAt submit n' (frameOf payload) stage := by
  cases stage with
  | openBi o =>
      have hstart : n = UatTwoParty.start := h
      exact (hstill (by rw [hstart]; rfl)).trans hstart
  | looping c =>
      have hhearing : Hearing submit n [] c := h
      obtain ⟨k, hplace, hlost⟩ := hhearing.place
      refine ⟨htells.left.trans hhearing.state, ?_, ?_, ⟨k, ?_, hlost⟩, hhearing.waits⟩
      · cases hhearing.asked with
        | submitted hs hsent => exact .submitted hs (htells.sentRight.trans hsent)
        | canceled hs hhook hsent => exact .canceled hs hhook (htells.sentRight.trans hsent)
      · rw [htells.sentLeft, htells.toLeft, hhearing.heard, List.append_assoc]
      · rw [htells.toLeft]
        exact hplace.push hframe fun _ => said_not_submit hm
  | joinGuard record lost result | returned result =>
      have hconcludes : Concludes result fun o => n.left = .terminal o := h
      exact ⟨hconcludes.lawful, fun o ho hv => htells.left.trans (hconcludes.verdict o ho hv)⟩
  | unwinding record lost | dropped => trivial

/-- What the callee does without a word does not move the caller. -/
theorem callerAt_silent {n' : Net} {missing : Bytes} {stage : Stage}
    (h : CallerAt submit n missing stage) (htells : Tells n n' [])
    (hstill : n.sentRight = [] → n' = n) : CallerAt submit n' missing stage := by
  cases stage with
  | openBi o =>
      have hstart : n = UatTwoParty.start := h
      exact (hstill (by rw [hstart]; rfl)).trans hstart
  | looping c =>
      have hhearing : Hearing submit n missing c := h
      refine ⟨htells.left.trans hhearing.state, ?_, ?_, ?_, hhearing.waits⟩
      · cases hhearing.asked with
        | submitted hs hsent => exact .submitted hs (htells.sentRight.trans hsent)
        | canceled hs hhook hsent => exact .canceled hs hhook (htells.sentRight.trans hsent)
      · rw [htells.sentLeft, htells.toLeft, List.append_nil, List.append_nil]
        exact hhearing.heard
      · rw [htells.toLeft, List.append_nil]
        exact hhearing.place
  | joinGuard record lost result | returned result =>
      have hconcludes : Concludes result fun o => n.left = .terminal o := h
      exact ⟨hconcludes.lawful, fun o ho hv => htells.left.trans (hconcludes.verdict o ho hv)⟩
  | unwinding record lost | dropped => trivial

/-- **A callee with nothing half written moves on.**  What its table sends is what it writes
    next. -/
theorem rel_of_moved (htext : CallText text) {caller : CallerRun} {callee : Callee}
    {told : List Message} {toCallee missing' : Bytes} {put : Nat} (hcompat : Compatible n)
    (hasked : n.sentRight <+: [submit, .cancel]) (hwords : ∀ m ∈ n.sentLeft, m ∈ said)
    (hcaller : CallerAt submit n [] caller.stage) (htold : n.sentLeft = told)
    (hposted : Posted submit put missing' caller.stage)
    (hmoved : Moved n callee toCallee missing') :
    ∃ n', Reaches net n n' ∧ Rel submit ⟨caller, callee, toCallee, put, 0, told⟩ n' := by
  obtain ⟨n', more, hmoves⟩ := hmoved
  refine ⟨n', hmoves.reach, compatible_reaches hcompat hmoves.reach, ?_, hmoves.order, ?_,
    hmoves.callee, ?_, missing', hposted, hmoves.reading⟩
  · rw [hmoves.tells.sentRight]
    exact hasked
  · rw [hmoves.tells.sentLeft]
    refine List.forall_mem_append.mpr ⟨hwords, ?_⟩
    rcases hmoves.speaks with ⟨rfl, -⟩ | ⟨m, hm, rfl, -⟩
    · intro m hm
      cases hm
    · exact List.forall_mem_singleton.mpr hm
  · have htells := hmoves.tells
    rcases hmoves.speaks with ⟨rfl, hquiet⟩ | ⟨m, hm, rfl, hwrites⟩
    · refine ⟨[], ?_, callerAt_silent hcaller htells hmoves.still⟩
      rw [htells.sentLeft, List.append_nil, htold]
      exact .idle rfl hquiet
    · obtain ⟨payload, hpayload, hframe⟩ := said_framed htext hm
      refine ⟨frameOf payload, ?_, callerAt_tells hcaller htells hmoves.still hm hframe⟩
      rw [htells.sentLeft, htold]
      have houtbox : Outbox told callee.await 0 (told ++ [m]) ((frameOf payload).drop 0) :=
        .writing hwrites hpayload
      exact houtbox

/-- A callee that goes on without its table, and writes nothing. -/
theorem rel_of_callee {callee : Callee} (h : Rel submit s n)
    (hquiet : calleeWrites s.callee.await = none) (hquiet' : calleeWrites callee.await = none)
    (hleft : left callee.await ≤ left s.callee.await) (hcallee : CalleeAt n callee)
    (hreading : ∀ missing, Reading n s.callee s.toCallee missing →
      Reading n callee s.toCallee missing) :
    Rel submit { s with callee := callee } n := by
  obtain ⟨missing, houtbox, hcaller⟩ := h.left
  obtain ⟨missing', hposted, hreading'⟩ := h.right
  refine ⟨h.compatible, h.asked, h.order, h.words, hcallee, ⟨missing, ?_, hcaller⟩,
    missing', hposted, hreading missing' hreading'⟩
  generalize hsent : n.sentLeft = sent at houtbox
  cases houtbox with
  | idle hput _ => exact .idle hput hquiet'
  | writing hwrites _ => cases hquiet.symm.trans hwrites
  | broken hput hzero hroom => exact .broken hput (Nat.le_zero.mp (hzero ▸ hleft)) hroom

/-- What happens around the callee leaves it where it is. -/
theorem rel_of_same {callee : Callee} {toCallee : Bytes} (h : Rel submit s n)
    (hawait : callee.await = s.callee.await) (hstate : callee.state = s.callee.state)
    (hbytes : callee.recv.arrived ++ toCallee = s.callee.recv.arrived ++ s.toCallee) :
    Rel submit { s with callee := callee, toCallee := toCallee } n := by
  obtain ⟨missing, houtbox, hcaller⟩ := h.left
  obtain ⟨missing', hposted, hreading⟩ := h.right
  have hfront : ∀ held : Bytes, held ++ callee.recv.arrived ++ toCallee =
      held ++ s.callee.recv.arrived ++ s.toCallee := by
    intro held
    rw [List.append_assoc, hbytes, List.append_assoc]
  refine ⟨h.compatible, h.asked, h.order, h.words, ?_, ⟨missing, ?_, hcaller⟩, missing',
    hposted, ?_⟩
  · have hcallee := h.callee
    rw [CalleeAt] at hcallee ⊢
    rw [hawait, hstate]
    exact hcallee
  · show Outbox s.told callee.await s.calleePut n.sentLeft missing
    rw [hawait]
    exact houtbox
  · show Reading n callee toCallee missing'
    rw [Reading] at hreading ⊢
    rw [hawait, hbytes]
    simp only [hfront]
    exact hreading

section

variable {Key : Type} [BiscuitEngine Key] {policy : Policy Key} {callerId : NodeId}
  {behavior : CalleeBehavior}

/-- **The callee between two writes.** -/
theorem rel_callee (htext : CallText text) {e : UatCalleeRun.Ev} {callee : Callee}
    (h : Rel submit s n) (hsubmit : isSubmit submit = true)
    (hown : calleeOwn s.callee e = true)
    (hs : UatCalleeRun.step policy callerId behavior s.callee e = some callee) :
    ∃ n', Reaches net n n' ∧ Rel submit { s with callee := callee } n' := by
  have hcallee := h.callee
  have hstands : Rel submit { s with callee := callee } n →
      ∃ n', Reaches net n n' ∧ Rel submit { s with callee := callee } n' :=
    fun hrel => ⟨n, .refl n, hrel⟩
  -- A poll of a read finds everything the callee has put on its queue on the stream.
  have hpolled : calleeWrites s.callee.await = none → left s.callee.await ≠ 0 →
      (∀ missing, Reading n s.callee s.toCallee missing → Moved n callee s.toCallee missing) →
      ∃ n', Reaches net n n' ∧ Rel submit { s with callee := callee } n' := by
    intro hquiet hleft hmoved
    obtain ⟨missing, houtbox, hcaller⟩ := h.left
    obtain ⟨missing', hposted, hreading⟩ := h.right
    obtain ⟨htold, rfl, hput⟩ := outbox_flushed houtbox hquiet hleft
    rw [callee_replaced hput]
    exact rel_of_moved htext h.compatible h.asked h.words hcaller htold hposted
      (hmoved missing' hreading)
  cases e with
  | arrive bytes | wrote w => cases hown
  | endStream e | close err | timer =>
      obtain ⟨-, hs⟩ := Option.ite_none_right_eq_some.mp hs
      obtain rfl := Option.some.inj hs
      exact hstands (rel_of_same h rfl rfl rfl)
  | shutdown | spend spent =>
      obtain rfl := Option.some.inj hs
      exact hstands (rel_of_same h rfl rfl rfl)
  | setup r now =>
      obtain ⟨hawait, hend⟩ := UatCalleeRun.step_setup hs
      have hquiet : calleeWrites s.callee.await = none := by rw [hawait]; rfl
      rw [CalleeAt, hawait] at hcallee
      rcases hend with ⟨-, rfl⟩ | ⟨-, reason, rfl⟩
      · refine hstands (rel_of_callee h hquiet rfl (by rw [hawait]; exact Nat.le_refl 3)
          ⟨hcallee, waits_fresh⟩ fun missing hreading => ?_)
        rw [Reading, hawait] at hreading
        exact hreading
      · exact hstands (rel_of_callee h hquiet rfl (Nat.zero_le _)
          (concludes_error (by intro h; cases h)) fun _ _ => trivial)
  | poll expired =>
      rcases UatCalleeRun.step_poll hs with
        ⟨now, read, hawait, rfl⟩ | ⟨read, hawait, rfl⟩ | ⟨outcome, hawait, rfl⟩
      · rw [CalleeAt, hawait] at hcallee
        obtain ⟨hright, hwaits⟩ := hcallee
        refine hpolled (by rw [hawait]; rfl) (by rw [hawait]; exact Nat.succ_ne_zero 2)
          fun missing hreading => ?_
        rw [Reading, hawait] at hreading
        exact pollFirstFrame_moved hsubmit hright h.order h.asked hwaits hreading now expired
      · rw [CalleeAt, hawait] at hcallee
        obtain ⟨hright, hlive, hwaits⟩ := hcallee
        refine hpolled (by rw [hawait]; rfl) (by rw [hawait]; exact Nat.succ_ne_zero 0)
          fun missing hreading => ?_
        rw [Reading, hawait] at hreading
        exact pollWait_moved ⟨hright, h.order, h.asked⟩ h.compatible hlive hwaits hawait hreading
          expired
      · have hquiet : calleeWrites s.callee.await = none := by rw [hawait]; rfl
        rw [CalleeAt, hawait] at hcallee
        have hends : ∀ c₁ : Callee, Rel submit { s with callee := c₁.loopRet (.ok outcome) } n :=
          fun c₁ => rel_of_callee h hquiet rfl (Nat.zero_le _) (concludes_ok fun _ => hcallee)
            fun _ _ => trivial
        refine hstands ?_
        rw [UatCalleeRun.Callee.pollLinger]
        split
        · exact hends _
        split
        · exact hends _
        split
        · exact hends _
        · exact h
  | guardJoined =>
      obtain ⟨result, hawait, rfl⟩ := UatCalleeRun.step_joined hs
      rw [CalleeAt, hawait] at hcallee
      exact hstands (rel_of_callee h (by rw [hawait]; rfl) rfl (Nat.zero_le _) hcallee
        fun _ _ => trivial)
  | drop =>
      obtain ⟨-, hs⟩ := Option.ite_none_left_eq_some.mp hs
      obtain rfl := Option.some.inj hs
      cases hawait : s.callee.await with
      | unwinding =>
          exact hstands (rel_of_callee h (by rw [hawait]; rfl) rfl (Nat.zero_le _) trivial
            fun _ _ => trivial)
      | _ => simp only [calleeOwn, hawait] at hown; cases hown

/-- Bytes arrive at the callee. -/
theorem rel_calleeGets {k : Nat} {callee : Callee} (h : Rel submit s n)
    (hs : UatCalleeRun.step policy callerId behavior s.callee (.arrive (s.toCallee.take k)) =
      some callee) :
    Rel submit { s with callee := callee, toCallee := s.toCallee.drop k } n := by
  obtain ⟨-, hs⟩ := Option.ite_none_right_eq_some.mp hs
  obtain rfl := Option.some.inj hs
  refine rel_of_same h rfl rfl ?_
  rw [List.append_assoc, List.take_append_drop]

end

/-- Bytes reach the caller, who hears them only in its loop. -/
theorem callerAt_deliver {caller : CallerRun} {missing missing' bytes : Bytes}
    (h : CallerAt submit n missing caller.stage) (hsame : bytes ++ missing' = missing) :
    CallerAt submit n missing' (deliver caller bytes).stage := by
  rw [deliver]
  cases hstage : caller.stage with
  | looping c =>
      rw [hstage] at h
      have hhearing : Hearing submit n missing c := h
      obtain ⟨k, hplace, hlost⟩ := hhearing.place
      refine ⟨hhearing.state, ?_, hhearing.heard, ⟨k, hplace.more ?_, hlost⟩, hhearing.waits⟩
      · cases hhearing.asked with
        | submitted hs hsent => exact .submitted hs hsent
        | canceled hs hhook hsent => exact .canceled hs hhook hsent
      · show c.await.held ++ c.recv.arrived ++ (c.inFlight ++ bytes) ++ missing' =
          inFront c ++ missing
        rw [inFront, ← hsame]
        simp only [List.append_assoc]
  | _ =>
      rw [hstage] at h
      simp only [hstage]
      exact h

/-- Bytes delivered do not change what the caller has to put. -/
theorem posted_deliver {caller : CallerRun} {missing bytes : Bytes} {put : Nat}
    (h : Posted submit put missing caller.stage) :
    Posted submit put missing (deliver caller bytes).stage := by
  rw [deliver]
  cases hstage : caller.stage with
  | looping c =>
      rw [hstage] at h
      exact ⟨h.writing, h.idle⟩
  | _ =>
      simp only [hstage]
      rw [hstage] at h
      exact h

/-- What is missing while the callee writes. -/
theorem outbox_writes {told sent : List Message} {a : UatCalleeRun.Await} {put : Nat} {m : Message}
    {frame missing : Bytes} (h : Outbox told a put sent missing)
    (hwrites : calleeWrites a = some m) (hframe : frameFor m = some frame) :
    sent = told ++ [m] ∧ missing = frame.drop put := by
  cases h with
  | idle _ hquiet => cases hquiet.symm.trans hwrites
  | writing hwrites' hframe' =>
      obtain rfl := Option.some.inj (hwrites.symm.trans hwrites')
      obtain rfl := Option.some.inj (hframe.symm.trans hframe')
      exact ⟨rfl, rfl⟩
  | broken _ hzero _ =>
      have hone := one_le_left hwrites
      rw [hzero] at hone
      cases hone

/-- The stream takes a part of what the callee writes. -/
theorem rel_calleePuts {m : Message} {frame : Bytes} {k : Nat} (h : Rel submit s n)
    (hwrites : calleeWrites s.callee.await = some m) (hframe : frameFor m = some frame) :
    Rel submit { s with
      caller := deliver s.caller ((frame.drop s.calleePut).take k)
      calleePut := s.calleePut + k } n := by
  obtain ⟨missing, houtbox, hcaller⟩ := h.left
  obtain ⟨missing', hposted, hreading⟩ := h.right
  obtain ⟨hsent, rfl⟩ := outbox_writes houtbox hwrites hframe
  refine ⟨h.compatible, h.asked, h.order, h.words, h.callee,
    ⟨frame.drop (s.calleePut + k), ?_, callerAt_deliver hcaller ?_⟩,
    missing', posted_deliver hposted, hreading⟩
  · rw [hsent]
    exact .writing hwrites hframe
  · rw [← List.drop_drop, List.take_append_drop]

/-- A callee that writes no more reads no more. -/
theorem reading_of_silent {c : Callee} {toCallee missing : Bytes} (h : left c.await = 0) :
    Reading n c toCallee missing := by
  rw [Reading]
  cases hawait : c.await with
  | acceptBi | firstFrame now read | emit msg rest | waitTerminal read =>
      rw [hawait] at h
      cases h
  | _ => trivial

/-- A failed write ends the task's writing, and what its table had sent stays missing. -/
theorem rel_of_failed {m : Message} {callee : Callee} (h : Rel submit s n)
    (hwrites : calleeWrites s.callee.await = some m) (hframe : ∃ frame, frameFor m = some frame)
    (hroom : s.told.length < 3) (hleft : left callee.await = 0) (hcallee : CalleeAt n callee) :
    Rel submit { s with callee := callee, calleePut := 0 } n := by
  obtain ⟨missing, houtbox, hcaller⟩ := h.left
  obtain ⟨missing', hposted, -⟩ := h.right
  obtain ⟨frame, hframe⟩ := hframe
  obtain ⟨hsent, -⟩ := outbox_writes houtbox hwrites hframe
  refine ⟨h.compatible, h.asked, h.order, h.words, hcallee, ⟨missing, ?_, hcaller⟩,
    missing', hposted, reading_of_silent hleft⟩
  rw [hsent]
  exact .broken rfl hleft hroom

section

variable {Key : Type} [BiscuitEngine Key] {policy : Policy Key} {callerId : NodeId}
  {behavior : CalleeBehavior} {task : TaskId}

/-- **The callee at the end of a write that failed.** -/
theorem failed_at {m : Message} {w : WriteEnd} {callee : Callee} (h : Rel submit s n)
    (hready : Ready s.callee) (hwrites : calleeWrites s.callee.await = some m) (hw : w ≠ .done)
    (hs : UatCalleeRun.step policy callerId behavior s.callee (.wrote w) = some callee) :
    CalleeAt n callee := by
  have hcallee := h.callee
  rw [CalleeAt] at hcallee
  rw [Ready] at hready
  obtain ⟨err, herr⟩ : ∃ err, w.result = .error err := by
    cases w with
    | done => exact absurd rfl hw
    | failed fe | timedOut => exact ⟨_, rfl⟩
  cases hawait : s.callee.await with
  | writeDenied reason =>
      simp only [UatCalleeRun.step, hawait] at hs
      obtain rfl := Option.some.inj hs
      exact concludes_error (by intro h; cases h)
  | emit msg rest | writeReply msg =>
      simp only [UatCalleeRun.step, hawait, herr] at hs
      obtain rfl := Option.some.inj hs
      exact writeFailed_at herr
  | writeTimeout msg =>
      simp only [hawait] at hcallee hready
      obtain ⟨-, o, -, hstate⟩ := hready
      simp only [UatCalleeRun.step, hawait, herr] at hs
      obtain rfl := Option.some.inj hs
      exact (timeoutWritten_at hcallee hstate).1
  | _ => rw [hawait] at hwrites; cases hwrites

/-- **The callee at the end of a write that is whole.** -/
theorem done_moved {m : Message} {toCallee missing : Bytes} {callee : Callee} (h : Rel submit s n)
    (hready : Ready s.callee) (hwrites : calleeWrites s.callee.await = some m)
    (hreading : Reading n s.callee toCallee missing)
    (hs : UatCalleeRun.step policy callerId behavior s.callee (.wrote .done) = some callee) :
    Moved n callee toCallee missing := by
  have hcallee := h.callee
  rw [CalleeAt] at hcallee
  rw [Ready] at hready
  rw [Reading] at hreading
  cases hawait : s.callee.await with
  | writeDenied reason =>
      simp only [UatCalleeRun.step, hawait] at hs
      obtain rfl := Option.some.inj hs
      exact moved_of_still h.order (concludes_error (by intro h; cases h)) rfl trivial
  | emit msg rest =>
      simp only [hawait] at hcallee hready hreading
      obtain ⟨hright, hcan⟩ := hcallee
      have hrest : ∀ m ∈ rest, m ∈ said := by
        have hscript := hready.1.2.2
        clear hcan hawait hready
        induction rest with
        | nil =>
            intro m hm
            cases hm
        | cons m rest ih => exact List.forall_mem_cons.mpr ⟨hscript.1, ih hscript.2.2⟩
      simp only [UatCalleeRun.step, hawait, WriteEnd.result] at hs
      obtain rfl := Option.some.inj hs
      have hdriving : ∀ c : Callee, c.state = s.callee.state → Driving submit n c :=
        fun c hc => ⟨hright.trans (congrArg some hc.symm), h.order, h.asked⟩
      exact emitCallee_moved (hdriving _ rfl) hcan hrest hreading
  | writeTimeout msg =>
      simp only [hawait] at hcallee hready
      obtain ⟨-, o, -, hstate⟩ := hready
      simp only [UatCalleeRun.step, hawait, WriteEnd.result] at hs
      obtain rfl := Option.some.inj hs
      obtain ⟨hat, hquiet, hleft⟩ := timeoutWritten_at
        (c := { s.callee with sent := s.callee.sent ++ [msg] }) hcallee hstate
      exact moved_of_still h.order hat hquiet (reading_of_silent hleft)
  | writeReply msg =>
      simp only [hawait] at hcallee hready
      obtain ⟨-, o, -, hstate⟩ := hready
      simp only [UatCalleeRun.step, hawait, WriteEnd.result] at hs
      obtain rfl := Option.some.inj hs
      rw [UatCalleeRun.Callee.waitTop]
      simp only [hstate]
      exact moved_of_still h.order (hcallee.trans (congrArg some hstate)) rfl trivial
  | _ => rw [hawait] at hwrites; cases hwrites

/-- **A write of the callee ends.** -/
theorem rel_calleeWrote (htext : CallText text) {m : Message} {w : WriteEnd} {bytes : Bytes}
    {callee : Callee} (h : Rel submit s n) (hspeaks : Speaks task s.told s.callee)
    (hacc : UatIncoming.Accounted callerId s.callee)
    (hwrites : calleeWrites s.callee.await = some m)
    (hbytes : lastBytes m s.calleePut w = some bytes)
    (hs : UatCalleeRun.step policy callerId behavior s.callee (.wrote w) = some callee) :
    ∃ n', Reaches net n n' ∧ Rel submit { s with
      caller := deliver s.caller bytes
      callee := callee
      calleePut := 0
      told := s.told ++ toldBy m w } n' := by
  obtain ⟨missing, houtbox, hcaller⟩ := h.left
  obtain ⟨missing', hposted, hreading⟩ := h.right
  have hsaid := writes_said hspeaks.ready hwrites
  obtain ⟨payload, hframe, -⟩ := said_framed htext hsaid
  obtain ⟨hsent, rfl⟩ := outbox_writes houtbox hwrites hframe
  have hone := Nat.le_trans (one_le_left hwrites) hspeaks.budget
  cases w with
  | done =>
      obtain ⟨frame, hframe', rfl⟩ := Option.map_eq_some_iff.mp hbytes
      obtain rfl := Option.some.inj (hframe.symm.trans hframe')
      exact rel_of_moved htext h.compatible h.asked h.words
        (callerAt_deliver hcaller (List.append_nil _)) hsent (posted_deliver hposted)
        (done_moved h hspeaks.ready hwrites hreading hs)
  | failed err | timedOut =>
      obtain rfl := Option.some.inj hbytes
      have hleft := (callee_wrote hspeaks hacc hwrites hs).2 rfl
      have hat := failed_at h hspeaks.ready hwrites (by intro h; cases h) hs
      have hroom : s.told.length < 3 := by omega
      have hrel := rel_of_failed h hwrites ⟨_, hframe⟩ hroom hleft hat
      have hdeliver : deliver s.caller [] = s.caller := by
        obtain ⟨⟨stage, audit⟩, _⟩ := s
        cases stage <;> simp [deliver]
      refine ⟨n, .refl n, ?_⟩
      rw [hdeliver, show s.told ++ toldBy m _ = s.told from List.append_nil _]
      exact hrel

end

end

/-! ## A caller that is stuck -/

/-- The caller comes to the write of its `Submit`, and gets no further. -/
def Stuck : Stage → Prop
  | .openBi _ => True
  | .looping c => c.await = .writeSubmit ∧ c.state = .submitted ∧ c.handed = []
  | .joinGuard _ _ result | .returned result => ∃ err, result = .error err ∧ err ≠ .illegal
  | .unwinding .. | .dropped => True

/-- The loop waits where it was. -/
theorem stuck_settle {caller : CallerRun} {c : Caller}
    (h : c.await = .writeSubmit ∧ c.state = .submitted ∧ c.handed = []) :
    Stuck (caller.settle c).stage := by
  rw [CallerRun.settle, h.1]
  exact h

/-- No stream was opened. -/
theorem stuck_failed {caller : CallerRun} {o : UatCallerRun.Opening} {err : CallError}
    {reason : String} (herr : err ≠ .illegal) : Stuck (o.failed caller err reason).stage := by
  rw [UatCallerRun.Opening.failed]
  cases o.closed with
  | some closed => exact ⟨err, rfl, herr⟩
  | none => exact ⟨_, rfl, by intro h; cases h⟩

/-- The write of the `Submit` can only fail. -/
theorem stuck_written {caller : CallerRun} {c : Caller} {w : WriteEnd} {err : CallError}
    (hw : w.result = .error err) : Stuck (caller.settle (c.submitWritten w)).stage := by
  have herr : err ≠ .illegal := by
    cases w with
    | done => cases hw
    | failed fe | timedOut => cases hw; intro h; cases h
  rw [Caller.submitWritten, hw]
  dsimp only
  split
  · exact ⟨_, rfl, by intro h; cases h⟩
  · cases err with
    | frame fe => exact ⟨_, rfl, herr⟩
    | _ => exact ⟨_, rfl, herr⟩

/-- What a caller that is stuck writes is the `Submit`. -/
theorem stuck_writes {submit : Message} {stage : Stage} {m : Message} (h : Stuck stage)
    (hwrites : callerWrites submit stage = some m) : m = submit := by
  obtain ⟨c, rfl, ⟨-, rfl⟩ | ⟨hawait, -⟩⟩ := UatCallRun.callerWrites_some hwrites
  · rfl
  · cases h.1.symm.trans hawait

/-! ## The run -/

section

variable [text : JsonText] {Key : Type} {policy : Policy Key} {callerId calleeId : NodeId}
  {submit : Message} {task : TaskId}

/-- Both begin together. -/
theorem start_rel {deadline : Deadline} {contentType : ContentType} {credential : Option Credential}
    {body : Bytes} (requestCancel : Option Hook) (closed : Option ConnectionError)
    (spent : MemorySpentSet) :
    Rel (.submit task deadline contentType credential body)
      (UatCallRun.start policy callerId calleeId
        (.submit task deadline contentType credential body) requestCancel closed spent)
      UatTwoParty.start := by
  obtain ⟨hquiet, hcallee, hreading⟩ :
      calleeWrites (runCalleeWith policy callerId spent).await = none ∧
        CalleeAt UatTwoParty.start (runCalleeWith policy callerId spent) ∧
        Reading UatTwoParty.start (runCalleeWith policy callerId spent) [] [] := by
    rw [CalleeAt, Reading]
    rcases UatCallRun.runCalleeWith_await policy callerId spent with ⟨hawait, harrived⟩ | hawait
    · simp only [hawait, harrived]
      exact ⟨rfl, rfl, place_nil⟩
    · simp only [hawait]
      exact ⟨rfl, concludes_error (by intro h; cases h), trivial⟩
  exact ⟨UatTwoParty.compatible_start, List.nil_prefix,
    ⟨fun _ => rfl, fun hne => absurd rfl hne⟩, fun m hm => (by cases hm), hcallee,
    ⟨[], .idle rfl hquiet, rfl⟩,
    ⟨[], ⟨fun m hm => (by cases hm), fun _ _ => ⟨rfl, rfl⟩⟩, hreading⟩⟩

variable [BiscuitEngine Key] {behavior : CalleeBehavior}

/-- **One step of the two tasks is a run of the two tables.** -/
theorem step_rel (htext : CallText text) (hsubmit : Submits task submit) {frame : Bytes}
    (hframe : frameFor submit = some frame) {s s' : Call} {e : UatCallRun.Ev} {n : Net}
    (hinv : UatCallRun.Inv callerId calleeId submit task s) (h : Rel submit s n)
    (hs : UatCallRun.step policy callerId behavior submit s e = some s') :
    ∃ n', Reaches net n n' ∧ Rel submit s' n' := by
  have hm : isSubmit submit = true := by
    obtain ⟨deadline, contentType, credential, body, rfl⟩ := hsubmit
    rfl
  have hbudget : n.sentLeft.length ≤ 3 := by
    obtain ⟨missing, houtbox, -⟩ := h.left
    exact houtbox.length_le hinv.speaks.room hinv.speaks.budget
  cases e with
  | caller e =>
      obtain ⟨hown, hs⟩ := Option.ite_none_right_eq_some.mp hs
      obtain ⟨caller, hcaller, rfl⟩ := Option.map_eq_some_iff.mp hs
      exact rel_caller htext h hinv.knows hm hframe hbudget hown hcaller
  | callerPuts k =>
      obtain ⟨m, hwrites, hs⟩ := Option.bind_eq_some_iff.mp hs
      obtain ⟨frame', hframe', hs⟩ := Option.bind_eq_some_iff.mp hs
      obtain ⟨-, hs⟩ := Option.ite_none_right_eq_some.mp hs
      obtain rfl := Option.some.inj hs
      exact ⟨n, .refl n, rel_callerPuts h hwrites hframe'⟩
  | callerWrote w =>
      obtain ⟨m, hwrites, hs⟩ := Option.bind_eq_some_iff.mp hs
      obtain ⟨bytes, hbytes, hs⟩ := Option.bind_eq_some_iff.mp hs
      obtain ⟨caller, hcaller, hs⟩ := Option.bind_eq_some_iff.mp hs
      obtain rfl := Option.some.inj hs
      exact ⟨n, .refl n, rel_callerWrote h hwrites hbytes hcaller⟩
  | callee e =>
      obtain ⟨hown, hs⟩ := Option.ite_none_right_eq_some.mp hs
      obtain ⟨callee, hcallee, rfl⟩ := Option.map_eq_some_iff.mp hs
      exact rel_callee htext h hm hown hcallee
  | calleePuts k =>
      obtain ⟨m, hwrites, hs⟩ := Option.bind_eq_some_iff.mp hs
      obtain ⟨frame', hframe', hs⟩ := Option.bind_eq_some_iff.mp hs
      obtain ⟨-, hs⟩ := Option.ite_none_right_eq_some.mp hs
      obtain rfl := Option.some.inj hs
      exact ⟨n, .refl n, rel_calleePuts h hwrites hframe'⟩
  | calleeWrote w =>
      obtain ⟨m, hwrites, hs⟩ := Option.bind_eq_some_iff.mp hs
      obtain ⟨bytes, hbytes, hs⟩ := Option.bind_eq_some_iff.mp hs
      obtain ⟨callee, hcallee, hs⟩ := Option.bind_eq_some_iff.mp hs
      obtain rfl := Option.some.inj hs
      exact rel_calleeWrote htext h hinv.speaks hinv.callee hwrites hbytes hcallee
  | calleeGets k =>
      obtain ⟨-, hs⟩ := Option.ite_none_right_eq_some.mp hs
      obtain ⟨callee, hcallee, rfl⟩ := Option.map_eq_some_iff.mp hs
      exact ⟨n, .refl n, rel_calleeGets h hcallee⟩

/-- **The simulation.**  What the two tasks come to is related to what the two tables come to. -/
theorem run_rel (htext : CallText text) {deadline : Deadline} {contentType : ContentType}
    {credential : Option Credential} {body frame : Bytes}
    (hframe : frameFor (.submit task deadline contentType credential body) = some frame)
    {requestCancel : Option Hook} {closed : Option ConnectionError} {spent : MemorySpentSet}
    {es : List UatCallRun.Ev} {s : Call}
    (hrun : runFrom
      (UatCallRun.step policy callerId behavior
        (.submit task deadline contentType credential body))
      (UatCallRun.start policy callerId calleeId
        (.submit task deadline contentType credential body) requestCancel closed spent) es =
      some s) :
    ∃ n, Reaches net UatTwoParty.start n ∧
      Rel (.submit task deadline contentType credential body) s n := by
  have hsubmit : Submits task (.submit task deadline contentType credential body) :=
    ⟨deadline, contentType, credential, body, rfl⟩
  obtain ⟨n, hreach, -, hrel⟩ := forward_simulation
    (R := fun s n => UatCallRun.Inv callerId calleeId
      (.submit task deadline contentType credential body) task s ∧
      Rel (.submit task deadline contentType credential body) s n)
    (fun s e s' n hR hs => by
      obtain ⟨n', hreach, hrel⟩ := step_rel htext hsubmit hframe hR.1 hR.2 hs
      exact ⟨n', hreach, UatCallRun.step_inv htext.readsBack htext.said hsubmit hR.1 hs, hrel⟩)
    es _ s UatTwoParty.start
    ⟨UatCallRun.start_inv requestCancel closed spent, start_rel requestCancel closed spent⟩ hrun
  exact ⟨n, hreach, hrel⟩

/-! ## What the simulation says -/

/-- **The property.**  The states of the loops are those of the tables; what the caller has
    sent is its `Submit`, and its `Cancel` behind it once it is `Canceling`; what it was handed
    is what it has taken from its queue; what the callee has told it put on the queue; and a
    verdict that was returned is the terminal state of the table. -/
structure Implements (submit : Message) (s : Call) (n : Net) : Prop where
  caller : ∀ c, s.caller.stage = .looping c → n.left = c.state
  callee : s.callee.await.hasTimer = true → n.right = some s.callee.state
  opening : ∀ o, s.caller.stage = .openBi o → n.sentRight = []
  asked : ∀ c, s.caller.stage = .looping c → Asked submit n c
  sent : n.sentRight <+: [submit, .cancel]
  handed : ∀ c, s.caller.stage = .looping c → n.sentLeft = c.handed ++ n.toLeft
  told : s.told <+: n.sentLeft
  heard : ∀ o, s.caller.stage = .returned (.ok o) → IsVerdict o → n.left = .terminal o
  ended : ∀ o, s.callee.await = .returned (.ok o) → IsVerdict o → n.right = some (.terminal o)

/-- A call related to the tables implements them. -/
theorem implements_of_rel {s : Call} {n : Net} (h : Rel submit s n) : Implements submit s n := by
  obtain ⟨missing, houtbox, hcaller⟩ := h.left
  have hcallee := h.callee
  rw [CalleeAt] at hcallee
  refine ⟨fun c hat => ?_, fun htimed => ?_, fun o hat => ?_, fun c hat => ?_, h.asked,
    fun c hat => ?_, ?_, fun o hat hv => ?_, fun o hat hv => ?_⟩
  · rw [hat] at hcaller
    exact Hearing.state hcaller
  · cases hawait : s.callee.await with
    | emit msg rest =>
        simp only [hawait] at hcallee
        exact hcallee.1
    | waitTerminal read =>
        simp only [hawait] at hcallee
        exact hcallee.1
    | writeTimeout msg | writeReply msg =>
        simp only [hawait] at hcallee
        exact hcallee
    | _ => rw [hawait] at htimed; cases htimed
  · rw [hat] at hcaller
    obtain rfl : n = UatTwoParty.start := hcaller
    rfl
  · rw [hat] at hcaller
    exact Hearing.asked hcaller
  · rw [hat] at hcaller
    exact Hearing.heard hcaller
  · generalize n.sentLeft = sent at houtbox
    cases houtbox with
    | idle _ _ => exact List.prefix_refl _
    | writing _ _ | broken _ _ _ => exact List.prefix_append _ _
  · rw [hat] at hcaller
    exact Concludes.verdict hcaller o rfl hv
  · simp only [hat] at hcallee
    exact hcallee.verdict o rfl hv

/-- A task refused a message: it gave up the call as `Illegal`. -/
def RefusedBy (s : Call) : Prop :=
  (∃ record lost, s.caller.stage = .joinGuard record lost (.error .illegal)) ∨
    s.caller.stage = .returned (.error .illegal) ∨
    s.callee.await = .joinGuard (.error .illegal) ∨ s.callee.await = .returned (.error .illegal)

/-- And it refuses nothing, as they do not. -/
theorem not_refused_of_rel {s : Call} {n : Net} (h : Rel submit s n) : ¬ RefusedBy s := by
  obtain ⟨missing, -, hcaller⟩ := h.left
  have hcallee := h.callee
  rw [CalleeAt] at hcallee
  rintro (⟨record, lost, hat⟩ | hat | hat | hat)
  · rw [hat] at hcaller
    exact Concludes.lawful hcaller rfl
  · rw [hat] at hcaller
    exact Concludes.lawful hcaller rfl
  · simp only [hat] at hcallee
    exact hcallee.lawful rfl
  · simp only [hat] at hcallee
    exact hcallee.lawful rfl

/-! ## A `Submit` that fits no frame -/

/-- A caller that is stuck stays so. -/
theorem stuck_own (hsubmit : isSubmit submit = true) {s caller : CallerRun}
    {e : UatCallerRun.Ev} (h : Stuck s.stage) (hown : UatCallRun.callerOwn e = true)
    (hs : UatCallerRun.step submit [] s e = some caller) : Stuck caller.stage := by
  cases e with
  | setup r =>
      obtain ⟨o, hat, -⟩ := UatCallerRun.step_setup hs
      simp only [UatCallerRun.step, hat] at hs
      cases r with
      | opened =>
          obtain rfl := Option.some.inj hs
          cases submit with
          | submit task deadline contentType credential body => exact ⟨rfl, rfl, rfl⟩
          | _ => cases hsubmit
      | failed reason | timedOut =>
          obtain rfl := Option.some.inj hs
          exact stuck_failed (by intro h; cases h)
  | call e =>
      rcases UatCallerRun.step_call hs with ⟨o, o', -, -, rfl⟩ | ⟨c, c', hat, hc, rfl⟩
      · trivial
      · rw [hat] at h
        cases e with
        | arrive n | finish | lose | close err | hookSend | hookDrop =>
            obtain ⟨-, hc⟩ := Option.ite_none_right_eq_some.mp hc
            obtain rfl := Option.some.inj hc
            exact stuck_settle h
        | shutdown | timer =>
            obtain rfl := Option.some.inj hc
            exact stuck_settle h
        | wrote w => cases hown
        | poll expired =>
            obtain ⟨read, hawait, -⟩ := UatCallerLoop.step_poll hc
            cases h.1.symm.trans hawait
  | guardJoined =>
      obtain ⟨record, lost, result, hat, rfl⟩ := UatCallerRun.step_joined hs
      rw [hat] at h
      exact h
  | drop =>
      obtain ⟨record, lost, -, rfl⟩ := UatCallerRun.step_dropped hs
      trivial
  | unwound =>
      obtain ⟨record, lost, -, rfl⟩ := UatCallerRun.step_unwound hs
      trivial

/-- Nothing is on the stream, and to the callee it is as if none had been opened. -/
structure Unsent (submit : Message) (s : Call) : Prop where
  caller : Stuck s.caller.stage
  silent : s.toCallee = []
  callee : ∃ o, Rel submit { s with caller := ⟨.openBi o, []⟩ } UatTwoParty.start

/-- **Nothing changes that.** -/
theorem step_unsent (htext : CallText text) (hsubmit : isSubmit submit = true)
    (hframe : frameFor submit = none) {s s' : Call} {e : UatCallRun.Ev} (h : Unsent submit s)
    (hs : UatCallRun.step policy callerId behavior submit s e = some s') : Unsent submit s' := by
  obtain ⟨hcaller, hsilent, o, hrel⟩ := h
  obtain ⟨missing, houtbox, -⟩ := hrel.left
  cases e with
  | caller e =>
      obtain ⟨hown, hs⟩ := Option.ite_none_right_eq_some.mp hs
      obtain ⟨caller, hcaller', rfl⟩ := Option.map_eq_some_iff.mp hs
      exact ⟨stuck_own hsubmit hcaller hown hcaller', hsilent, o, hrel⟩
  | callerPuts k =>
      obtain ⟨m, hwrites, hs⟩ := Option.bind_eq_some_iff.mp hs
      obtain ⟨frame, hframe', -⟩ := Option.bind_eq_some_iff.mp hs
      obtain rfl := stuck_writes hcaller hwrites
      cases hframe.symm.trans hframe'
  | callerWrote w =>
      obtain ⟨m, hwrites, hs⟩ := Option.bind_eq_some_iff.mp hs
      obtain ⟨bytes, hbytes, hs⟩ := Option.bind_eq_some_iff.mp hs
      obtain ⟨caller, hcaller', hs⟩ := Option.bind_eq_some_iff.mp hs
      obtain rfl := Option.some.inj hs
      obtain rfl := stuck_writes hcaller hwrites
      obtain ⟨c, hat, hwhere⟩ := UatCallRun.callerWrites_some hwrites
      rw [hat] at hcaller
      simp only [UatCallerRun.step, hat] at hcaller'
      obtain ⟨c', hc, rfl⟩ := Option.map_eq_some_iff.mp hcaller'
      simp only [UatCallerLoop.step, hcaller.1] at hc
      obtain rfl := Option.some.inj hc
      cases w with
      | done =>
          obtain ⟨frame, hframe', -⟩ := Option.map_eq_some_iff.mp hbytes
          cases hframe.symm.trans hframe'
      | failed err | timedOut =>
          obtain rfl := Option.some.inj hbytes
          refine ⟨stuck_written rfl, (List.append_nil _).trans hsilent, o, ?_⟩
          obtain ⟨missing', hposted, hreading⟩ := hrel.right
          obtain ⟨rfl, hput⟩ := hposted.idle rfl rfl
          refine ⟨hrel.compatible, hrel.asked, hrel.order, hrel.words, hrel.callee, hrel.left, [],
            ⟨fun m hm => (by cases hm), fun _ _ => ⟨rfl, rfl⟩⟩, ?_⟩
          show Reading UatTwoParty.start s.callee (s.toCallee ++ []) []
          rw [List.append_nil]
          exact hreading
  | callee e =>
      obtain ⟨hown, hs⟩ := Option.ite_none_right_eq_some.mp hs
      obtain ⟨callee, hcallee, rfl⟩ := Option.map_eq_some_iff.mp hs
      obtain ⟨n, -, hrel'⟩ := rel_callee htext hrel hsubmit hown hcallee
      obtain ⟨missing', -, hstart⟩ := hrel'.left
      obtain rfl : n = UatTwoParty.start := hstart
      exact ⟨hcaller, hsilent, o, hrel'⟩
  | calleePuts k | calleeWrote w =>
      obtain ⟨m, hwrites, -⟩ := Option.bind_eq_some_iff.mp hs
      cases houtbox.silent.2.symm.trans hwrites
  | calleeGets k =>
      obtain ⟨-, hs⟩ := Option.ite_none_right_eq_some.mp hs
      obtain ⟨callee, hcallee, rfl⟩ := Option.map_eq_some_iff.mp hs
      refine ⟨hcaller, ?_, o, rel_calleeGets hrel hcallee⟩
      show s.toCallee.drop k = []
      rw [hsilent, List.drop_nil]

/-- The table of a caller that is stuck has sent the `Submit`, which stays on its queue. -/
theorem Unsent.implements {task : TaskId} {deadline : Deadline} {contentType : ContentType}
    {credential : Option Credential} {body : Bytes} {s : Call}
    (h : Unsent (.submit task deadline contentType credential body) s) :
    ∃ n, Reaches net UatTwoParty.start n ∧
      Implements (.submit task deadline contentType credential body) s n := by
  obtain ⟨hcaller, -, o, hrel⟩ := h
  have hstart := implements_of_rel hrel
  have hsend : callerStep UatTwoParty.start.left
      (.send (.submit task deadline contentType credential body)) = .ok (.go .submitted) := rfl
  have hreach : Reaches net _ _ := .single (net_caller_sends hsend)
  by_cases hopen : ∃ o', s.caller.stage = .openBi o'
  · obtain ⟨o', hstage⟩ := hopen
    exact ⟨_, .refl _, fun c hat => (by cases hstage.symm.trans hat), hstart.callee,
      fun _ _ => rfl, fun c hat => (by cases hstage.symm.trans hat), hstart.sent,
      fun c hat => (by cases hstage.symm.trans hat), hstart.told,
      fun o hat => (by cases hstage.symm.trans hat), hstart.ended⟩
  · refine ⟨_, hreach, fun c hat => ?_, hstart.callee, fun o' hat => absurd ⟨o', hat⟩ hopen,
      fun c hat => ?_, ⟨[.cancel], rfl⟩, fun c hat => ?_, hstart.told, fun o hat => ?_,
      hstart.ended⟩
    · rw [hat] at hcaller
      exact hcaller.2.1.symm
    · rw [hat] at hcaller
      refine .submitted ?_ rfl
      rw [hcaller.2.1]
      exact ⟨(by intro h; cases h), (by intro h; cases h)⟩
    · rw [hat] at hcaller
      rw [hcaller.2.2]
      rfl
    · rw [hat] at hcaller
      obtain ⟨err, herr, -⟩ := hcaller
      cases herr

/-- A call whose `Submit` is never sent refuses nothing. -/
theorem Unsent.not_refused {s : Call} (h : Unsent submit s) : ¬ RefusedBy s := by
  obtain ⟨hcaller, -, o, hrel⟩ := h
  rintro (⟨record, lost, hat⟩ | hat | hat | hat)
  · rw [hat] at hcaller
    obtain ⟨err, herr, hlawful⟩ := hcaller
    exact hlawful (Except.error.inj herr).symm
  · rw [hat] at hcaller
    obtain ⟨err, herr, hlawful⟩ := hcaller
    exact hlawful (Except.error.inj herr).symm
  · exact not_refused_of_rel hrel (Or.inr (Or.inr (Or.inl hat)))
  · exact not_refused_of_rel hrel (Or.inr (Or.inr (Or.inr hat)))

/-- **What a run comes to**, whether its `Submit` fits a frame or not. -/
theorem run_implements (htext : CallText text) {deadline : Deadline} {contentType : ContentType}
    {credential : Option Credential} {body : Bytes} {requestCancel : Option Hook}
    {closed : Option ConnectionError} {spent : MemorySpentSet} {es : List UatCallRun.Ev} {s : Call}
    (hrun : runFrom
      (UatCallRun.step policy callerId behavior
        (.submit task deadline contentType credential body))
      (UatCallRun.start policy callerId calleeId
        (.submit task deadline contentType credential body) requestCancel closed spent) es =
      some s) :
    (∃ n, Reaches net UatTwoParty.start n ∧
      Implements (.submit task deadline contentType credential body) s n) ∧ ¬ RefusedBy s := by
  cases hframe : frameFor (.submit task deadline contentType credential body) with
  | some frame =>
      obtain ⟨n, hreach, hrel⟩ := run_rel htext hframe hrun
      exact ⟨⟨n, hreach, implements_of_rel hrel⟩, not_refused_of_rel hrel⟩
  | none =>
      have hrel : Rel (.submit task deadline contentType credential body)
          (UatCallRun.start policy callerId calleeId
            (.submit task deadline contentType credential body) requestCancel closed spent)
          UatTwoParty.start := start_rel requestCancel closed spent
      have hstart : Unsent (.submit task deadline contentType credential body)
          (UatCallRun.start policy callerId calleeId
            (.submit task deadline contentType credential body) requestCancel closed spent) :=
        ⟨trivial, rfl, ⟨.new .outbound calleeId .notReached, requestCancel, false, closed⟩, hrel⟩
      have hunsent : Unsent (.submit task deadline contentType credential body) s :=
        run_invariant _ (fun _ _ _ h hs => step_unsent htext rfl hframe h hs) es _ s hstart hrun
      exact ⟨hunsent.implements, hunsent.not_refused⟩

/-- **THE TWO TASKS IMPLEMENT THE TWO TABLES.**  For every `Submit`, every policy and every run
    of the two tasks, with the frames in any pieces, futures dropped and timers, tokens and
    connections failing at any await, there is a run of `caller_step` against `callee_step`
    over queues that lose nothing, and the tasks are where it ends. -/
theorem call_refines_tables (htext : CallText text) (policy : Policy Key)
    (callerId calleeId : NodeId) (behavior : CalleeBehavior) (task : TaskId) (deadline : Deadline)
    (contentType : ContentType) (credential : Option Credential) (body : Bytes)
    (requestCancel : Option Hook) (closed : Option ConnectionError) (spent : MemorySpentSet)
    (es : List UatCallRun.Ev) (s : Call)
    (hrun : runFrom
      (UatCallRun.step policy callerId behavior
        (.submit task deadline contentType credential body))
      (UatCallRun.start policy callerId calleeId
        (.submit task deadline contentType credential body) requestCancel closed spent) es =
      some s) :
    ∃ acts n, runFrom (Duplex.step UatTwoParty.caller UatTwoParty.callee) UatTwoParty.start acts =
        some n ∧ Implements (.submit task deadline contentType credential body) s n := by
  obtain ⟨⟨n, ⟨acts, hacts⟩, himplements⟩, -⟩ := run_implements htext hrun
  exact ⟨acts, n, hacts, himplements⟩

/-- **NEITHER REFUSES A MESSAGE OF THE OTHER.**  In every run of the two tasks, whatever the
    pieces and wherever a read is dropped, no message that was read is outside the reader's
    table. -/
theorem no_message_refused (htext : CallText text) (policy : Policy Key)
    (callerId calleeId : NodeId) (behavior : CalleeBehavior) (task : TaskId) (deadline : Deadline)
    (contentType : ContentType) (credential : Option Credential) (body : Bytes)
    (requestCancel : Option Hook) (closed : Option ConnectionError) (spent : MemorySpentSet)
    (es : List UatCallRun.Ev) (s : Call)
    (hrun : runFrom
      (UatCallRun.step policy callerId behavior
        (.submit task deadline contentType credential body))
      (UatCallRun.start policy callerId calleeId
        (.submit task deadline contentType credential body) requestCancel closed spent) es =
      some s) :
    ¬ RefusedBy s :=
  (run_implements htext hrun).2

end

end

/-! ## A read that is dropped inside a frame -/

section

attribute [local instance] plainText compactJson noToken

theorem compactJson_callText : CallText compactJson :=
  ⟨compactJson_readsBack, compactJson_printsShort, (by decide), (by decide), (by decide)⟩

theorem call_refines_tables_inPieces :
    ∃ s, runOf (.allow remote) inPieces = some s ∧
      ∃ acts n, runFrom (Duplex.step UatTwoParty.caller UatTwoParty.callee) UatTwoParty.start acts =
        some n ∧ Implements submitted s n := by
  obtain ⟨s, hs⟩ : ∃ s, runOf (.allow remote) inPieces = some s :=
    Option.isSome_iff_exists.mp (by decide +kernel)
  exact ⟨s, hs, call_refines_tables compactJson_callText (.allow remote) remote answeringNode
    .stubComplete taskOne oneSecond plain none [] none none .new inPieces s hs⟩

/-- The same connection, with a hook that can still fire and a callee that answers nothing after
    its `Accepted`. -/
def hookedRun (es : List UatCallRun.Ev) : Option Call :=
  runFrom (UatCallRun.step (.allow remote : Policy Unit) remote .hangAfterAccept submitted)
    (UatCallRun.start (.allow remote : Policy Unit) remote answeringNode submitted (some .waiting)
      none .new) es

/-- The hook fires while the read holds five bytes of the `Accepted`; the next read takes what is
    left of it for a length, and gives up the stream. -/
def cutAccepted : List UatCallRun.Ev :=
  [.callee (.setup .opened epoch), .caller (.setup .opened), .callerWrote .done, .calleeGets 109,
    .callee (.poll false), .calleeWrote .done, .caller (.call (.arrive 5)),
    .caller (.call (.poll false)), .caller (.call .hookSend), .caller (.call (.poll false)),
    .callerWrote .done, .calleeGets 23, .callee (.poll false), .calleeWrote .done,
    .caller (.call (.arrive 30)), .caller (.call (.poll false))]

theorem no_message_refused_cutAccepted :
    ∃ s, hookedRun cutAccepted = some s ∧ ¬ RefusedBy s := by
  obtain ⟨s, hs⟩ : ∃ s, hookedRun cutAccepted = some s :=
    Option.isSome_iff_exists.mp (by decide +kernel)
  exact ⟨s, hs, no_message_refused compactJson_callText (.allow remote) remote answeringNode
    .hangAfterAccept taskOne oneSecond plain none [] (some .waiting) none .new cutAccepted s hs⟩

end

end UatCallRefines
