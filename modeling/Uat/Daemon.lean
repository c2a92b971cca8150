import Uat.Base.Pool
import Uat.Audit

/-! # The daemon — every connection of a node at once

    `Node` owns one rate limiter, one verifier, one record sink and one inbox, and all its
    tasks share them: `accept_loop` spawns `handle_incoming` for whoever connects, and
    `dial` runs beside them.  The tasks interleave at their awaits, and `shutdown` fires
    the token that all of them watch.

    * **`Task`** — one connection, inbound or outbound, by how far it has come; inside a
      call it is the machine of that call, which reads the shared state at each step.
    * **`run_alone`** — what a task does among the others is a run of its call alone, so
      what holds of every call holds of every task.
    * **`daemon_records`**, **`daemon_slots`**, **`daemon_inbox`** — what the sink, the
      limiter and the inbox have seen, against the connections there were.

    What becomes of the tasks after the token is in `Uat.Shutdown` (`shutdown_bounded`,
    `shutdown_completes`, `shutdown_quiet`). -/

namespace UatDaemon

open UatTypes UatState UatPolicy UatRateLimit UatRecord UatHeader UatIncoming UatCallerRun
open StepRun TaskPool
open UatCalleeRun (Callee CalleeBehavior runCalleeWith)
open UatCallerLoop (remote)
open UatAttenuation (plainText oneRoot epoch)
open UatOneShot (stranger)

/-- One iteration of `accept_loop`: the biased `select` asks the token first. -/
inductive AcceptLoop where
  | top
  /-- The token had not fired; `endpoint.accept()` is polled. -/
  | accepting
  | stopped
  deriving DecidableEq, Repr

/-- What the tasks of a node share. -/
structure Node where
  rateLimiter : RateLimiter
  /-- The verifier's spent set. -/
  spent : MemorySpentSet
  /-- All that the sink was given. -/
  records : List CallRecord
  /-- All that was offered to the inbox. -/
  inbox : List InboxEvent
  cancel : Bool
  acceptLoop : AcceptLoop

/-- A node that has bound its endpoint and met nobody. -/
def Node.bind (limits : RateLimitConfig) (spent : MemorySpentSet) : Node :=
  ⟨.new limits, spent, [], [], false, .top⟩

/-- What happens to a node outside its connections. -/
inductive Signal where
  /-- `shutdown` fires the token. -/
  | cancel
  /-- `accept_loop` is polled, and asks the token. -/
  | pollAccept
  /-- Nobody connects: the poll is over. -/
  | acceptPending
  /-- `endpoint.accept()` returned `None`. -/
  | acceptNone
  deriving DecidableEq, Repr

/-- The token, and the accept loop that asks it. -/
def Node.signal (d : Node) : Signal → Option Node
  | .cancel => some { d with cancel := true }
  | .pollAccept =>
      if d.acceptLoop = .top then
        some { d with acceptLoop := if d.cancel then .stopped else .accepting }
      else none
  | .acceptPending =>
      if d.acceptLoop = .accepting then some { d with acceptLoop := .top } else none
  | .acceptNone =>
      if d.acceptLoop = .accepting then some { d with acceptLoop := .stopped } else none

section

variable [Base64Engine]

/-- One connection of the node. -/
inductive Task where
  /-- `incoming.await`, in `handle_incoming`. -/
  | incoming
  /-- `endpoint.connect(..).await`, in `dial`. -/
  | connecting (submit : Message) (wire : Bytes)
  | unconnected
  | inbound (peer : NodeId) (h : Handling)
  /-- `handle_incoming` has returned or unwound, and the permit is gone. -/
  | handled (peer : NodeId) (h : Handling)
  | outbound (peer : NodeId) (submit : Message) (wire : Bytes) (s : CallerRun)

/-- What brings a task into being. -/
inductive Spawn where
  | accept
  /-- `dial`; `wire` is what the callee will put on the stream. -/
  | dial (submit : Message) (wire : Bytes)

/-- What can happen to a task. -/
inductive Act where
  /-- The connection is there; `closed` is its close reason by then. -/
  | connected (peer : NodeId) (now : Instant) (closed : Option ConnectionError)
  | connectFailed
  | callee (e : UatCalleeRun.Ev)
  | caller (e : UatCallerRun.Ev)
  /-- What `handle_incoming` does when the call is over. -/
  | finish

/-- The token and the spent set come from the node, not from the peer. -/
def ofPeer : UatCalleeRun.Ev → Bool
  | .shutdown | .spend _ => false
  | _ => true

/-- The token comes from the node. -/
def ofCallee : UatCallerRun.Ev → Bool
  | .call .shutdown => false
  | _ => true

/-- The callee sees the spent set and the token as they are now. -/
def Node.shown (d : Node) (c : Callee) : Callee :=
  { c with spent := d.spent, shutdown := c.shutdown || d.cancel }

/-- What a step of a callee adds to its log goes to the sink. -/
def Node.afterCallee (d : Node) (c c' : Callee) : Node :=
  { d with
    spent := c'.spent
    records := d.records ++ (c'.audit.drop c.audit.length).map UatCalleeRun.Audited.record }

/-- What a step of a caller adds to its log goes to the sink. -/
def Node.afterCaller (d : Node) (s s' : CallerRun) : Node :=
  { d with
    records := d.records ++ (s'.audit.drop s.audit.length).map UatCallerRun.Audited.record }

/-- `handle_incoming` after the call: an outcome is offered to the inbox, and the permit is
    dropped. -/
def Node.finish (d : Node) (peer : NodeId) : Handling → Node
  | .refused _ _ => d
  | .calling permit c =>
      { d with
        rateLimiter := (permit.releaseNow d.rateLimiter).2
        inbox := d.inbox ++ (Handling.inboxEvent peer (.calling permit c)).toList }

variable [text : JsonText] {Key : Type} [BiscuitEngine Key] (policy : Policy Key)
  (behavior : CalleeBehavior)

/-- The caller sees the token. -/
def Node.shownCaller (d : Node) (submit : Message) (wire : Bytes) (s : CallerRun) : CallerRun :=
  if d.cancel then (UatCallerRun.step submit wire s (.call .shutdown)).getD s else s

/-- A connection is accepted or dialed; either way a task begins. -/
def spawn (d : Node) : Spawn → Option (Node × Task)
  | .accept =>
      if d.acceptLoop = .accepting then some ({ d with acceptLoop := .top }, .incoming) else none
  | .dial submit wire => some (d, .connecting submit wire)

/-- One step of a task, over what the tasks share. -/
def act (d : Node) (t : Task) : Act → Option (Node × Task)
  | .connected peer now closed =>
      match t with
      | .incoming =>
          let r := handleIncoming policy (policy.verifyPeer peer) d.rateLimiter peer now d.spent
          some ({ d with rateLimiter := r.2, records := d.records ++ r.1.audit },
            .inbound peer r.1)
      | .connecting submit wire =>
          let s := runCallerWith peer submit none closed
          some ({ d with records := d.records ++ s.audit.map UatCallerRun.Audited.record },
            .outbound peer submit wire s)
      | _ => none
  | .connectFailed =>
      match t with
      | .incoming | .connecting _ _ => some (d, .unconnected)
      | _ => none
  | .callee e =>
      match t with
      | .inbound peer (.calling permit c) =>
          if ofPeer e then
            (UatCalleeRun.step policy peer behavior (d.shown c) e).map fun c' =>
              (d.afterCallee c c', .inbound peer (.calling permit c'))
          else none
      | _ => none
  | .caller e =>
      match t with
      | .outbound peer submit wire s =>
          if ofCallee e then
            (UatCallerRun.step submit wire (d.shownCaller submit wire s) e).map fun s' =>
              (d.afterCaller s s', .outbound peer submit wire s')
          else none
      | _ => none
  | .finish =>
      match t with
      | .inbound peer h => if h.over then some (d.finish peer h, .handled peer h) else none
      | _ => none

/-- The tasks of a node. -/
def daemon : Machine Node Task Act Spawn Signal where
  spawn := spawn
  act _ := act policy behavior
  env := Node.signal

end

abbrev World [Base64Engine] := Pool Node Task

abbrev Event [Base64Engine] := TaskPool.Ev Act Spawn Signal

/-! ## Alone and among others -/

/-- A signal touches the token and the accept loop, and nothing else. -/
theorem signal_cases {d d' : Node} {c : Signal} (h : d.signal c = some d') :
    ∃ cancel acceptLoop, d' = { d with cancel := cancel, acceptLoop := acceptLoop } := by
  cases c with
  | cancel => exact ⟨_, _, (Option.some.inj h).symm⟩
  | _ =>
      obtain ⟨-, h⟩ := Option.ite_none_right_eq_some.mp h
      exact ⟨_, _, (Option.some.inj h).symm⟩

/-- What brings a task into being leaves the sink, the inbox and the limiter alone. -/
theorem spawn_cases [Base64Engine] {d d' : Node} {b : Spawn} {t : Task}
    (h : spawn d b = some (d', t)) :
    (d.acceptLoop = .accepting ∧ t = .incoming ∧ d' = { d with acceptLoop := .top }) ∨
      ∃ submit wire, t = .connecting submit wire ∧ d' = d := by
  cases b with
  | accept =>
      obtain ⟨haccepting, h⟩ := Option.ite_none_right_eq_some.mp h
      obtain ⟨rfl, rfl⟩ := Prod.mk.inj (Option.some.inj h)
      exact Or.inl ⟨haccepting, rfl, rfl⟩
  | dial submit wire =>
      obtain ⟨rfl, rfl⟩ := Prod.mk.inj (Option.some.inj h)
      exact Or.inr ⟨submit, wire, rfl, rfl⟩

section

variable [Base64Engine] [text : JsonText] {Key : Type} [BiscuitEngine Key] {policy : Policy Key}
  {behavior : CalleeBehavior}

/-- What the callee is shown are two events of its environment. -/
theorem shown_run (policy : Policy Key) (behavior : CalleeBehavior) (d : Node) (peer : NodeId)
    (c : Callee) :
    ∃ es, runFrom (UatCalleeRun.step policy peer behavior) c es = some (d.shown c) := by
  cases hcancel : d.cancel with
  | true =>
      refine ⟨[.spend d.spent, .shutdown], ?_⟩
      simp [runFrom, UatCalleeRun.step, Node.shown, hcancel]
  | false =>
      refine ⟨[.spend d.spent], ?_⟩
      simp [runFrom, UatCalleeRun.step, Node.shown, hcancel]

/-- What the caller is shown is an event of its environment, or nothing. -/
theorem shownCaller_run (d : Node) (submit : Message) (wire : Bytes) (s : CallerRun) :
    ∃ es, runFrom (UatCallerRun.step submit wire) s es = some (d.shownCaller submit wire s) := by
  rw [Node.shownCaller]
  split
  · cases hs : UatCallerRun.step submit wire s (.call .shutdown) with
    | none => exact ⟨[], rfl⟩
    | some s' => exact ⟨[.call .shutdown], runFrom_cons.mpr ⟨s', hs, rfl⟩⟩
  · exact ⟨[], rfl⟩

variable (policy behavior)

/-- What has happened to the task could have happened to its call alone. -/
def RunsAlone : Task → Prop
  | .inbound peer h => ∃ limiter now spent es,
      runFrom (UatIncoming.step policy peer behavior)
        (handleIncoming policy (policy.verifyPeer peer) limiter peer now spent).1 es = some h
  | .handled peer h => h.over = true ∧ ∃ limiter now spent es,
      runFrom (UatIncoming.step policy peer behavior)
        (handleIncoming policy (policy.verifyPeer peer) limiter peer now spent).1 es = some h
  | .outbound peer submit wire s => ∃ closed es,
      runFrom (UatCallerRun.step submit wire) (runCallerWith peer submit none closed) es = some s
  | _ => True

variable {policy behavior}

/-- A call that goes on in the node goes on alone. -/
theorem calling_run {peer : NodeId} {permit : RateLimitPermit} {c c' : Callee}
    {es : List UatCalleeRun.Ev}
    (h : runFrom (UatCalleeRun.step policy peer behavior) c es = some c') :
    runFrom (UatIncoming.step policy peer behavior) (.calling permit c) es =
      some (.calling permit c') := by
  induction es generalizing c with
  | nil =>
      obtain rfl := Option.some.inj h
      rfl
  | cons e es ih =>
      obtain ⟨c₁, hs, hrun⟩ := runFrom_cons.mp h
      exact runFrom_cons.mpr ⟨.calling permit c₁, by simp [UatIncoming.step, hs], ih hrun⟩

variable (policy behavior)

/-- What a task's step can be, the shared state included. -/
inductive Stepped (d : Node) : Task → Node → Task → Prop where
  | admitted (peer : NodeId) (now : Instant) :
      Stepped d .incoming
        { d with
          rateLimiter :=
            (handleIncoming policy (policy.verifyPeer peer) d.rateLimiter peer now d.spent).2
          records := d.records ++
            (handleIncoming policy (policy.verifyPeer peer) d.rateLimiter peer now
              d.spent).1.audit }
        (.inbound peer
          (handleIncoming policy (policy.verifyPeer peer) d.rateLimiter peer now d.spent).1)
  | dialed (peer : NodeId) (submit : Message) (wire : Bytes) (closed : Option ConnectionError) :
      Stepped d (.connecting submit wire)
        { d with
          records := d.records ++
            (runCallerWith peer submit none closed).audit.map UatCallerRun.Audited.record }
        (.outbound peer submit wire (runCallerWith peer submit none closed))
  | unconnected {t : Task} (hnew : t = .incoming ∨ ∃ submit wire, t = .connecting submit wire) :
      Stepped d t d .unconnected
  | called (peer : NodeId) (permit : RateLimitPermit) (c c' : Callee) (e : UatCalleeRun.Ev)
      (hs : UatCalleeRun.step policy peer behavior (d.shown c) e = some c') :
      Stepped d (.inbound peer (.calling permit c)) (d.afterCallee c c')
        (.inbound peer (.calling permit c'))
  | calls (peer : NodeId) (submit : Message) (wire : Bytes) (s s' : CallerRun)
      (e : UatCallerRun.Ev)
      (hs : UatCallerRun.step submit wire (d.shownCaller submit wire s) e = some s') :
      Stepped d (.outbound peer submit wire s) (d.afterCaller s s')
        (.outbound peer submit wire s')
  | finished (peer : NodeId) {h : Handling} (hover : h.over = true) :
      Stepped d (.inbound peer h) (d.finish peer h) (.handled peer h)

variable {policy behavior}

/-- **Inversion.**  Six kinds of steps, and no other. -/
theorem stepped_of_act {d d' : Node} {t t' : Task} {a : Act}
    (h : act policy behavior d t a = some (d', t')) :
    Stepped policy behavior d t d' t' := by
  cases a with
  | connected peer now closed =>
      cases t with
      | incoming =>
          obtain ⟨rfl, rfl⟩ := Prod.mk.inj (Option.some.inj h)
          exact .admitted peer now
      | connecting submit wire =>
          obtain ⟨rfl, rfl⟩ := Prod.mk.inj (Option.some.inj h)
          exact .dialed peer submit wire closed
      | _ => cases h
  | connectFailed =>
      cases t with
      | incoming =>
          obtain ⟨rfl, rfl⟩ := Prod.mk.inj (Option.some.inj h)
          exact .unconnected (Or.inl rfl)
      | connecting submit wire =>
          obtain ⟨rfl, rfl⟩ := Prod.mk.inj (Option.some.inj h)
          exact .unconnected (Or.inr ⟨submit, wire, rfl⟩)
      | _ => cases h
  | callee e =>
      cases t with
      | inbound peer handling =>
          cases handling with
          | refused code record => cases h
          | calling permit c =>
              obtain ⟨-, h⟩ := Option.ite_none_right_eq_some.mp h
              obtain ⟨c', hs, hr⟩ := Option.map_eq_some_iff.mp h
              obtain ⟨rfl, rfl⟩ := Prod.mk.inj hr
              exact .called peer permit c c' e hs
      | _ => cases h
  | caller e =>
      cases t with
      | outbound peer submit wire s =>
          obtain ⟨-, h⟩ := Option.ite_none_right_eq_some.mp h
          obtain ⟨s', hs, hr⟩ := Option.map_eq_some_iff.mp h
          obtain ⟨rfl, rfl⟩ := Prod.mk.inj hr
          exact .calls peer submit wire s s' e hs
      | _ => cases h
  | finish =>
      cases t with
      | inbound peer handling =>
          obtain ⟨hover, h⟩ := Option.ite_none_right_eq_some.mp h
          obtain ⟨rfl, rfl⟩ := Prod.mk.inj (Option.some.inj h)
          exact .finished peer hover
      | _ => cases h

/-- What a callee is shown and its step are a run of the callee alone. -/
theorem callee_run_snoc {d : Node} {peer : NodeId} {c c' : Callee} {e : UatCalleeRun.Ev}
    (hs : UatCalleeRun.step policy peer behavior (d.shown c) e = some c') :
    ∃ es, runFrom (UatCalleeRun.step policy peer behavior) c es = some c' := by
  obtain ⟨es, hes⟩ := shown_run policy behavior d peer c
  refine ⟨es ++ [e], ?_⟩
  rw [runFrom_snoc, hes]
  exact hs

/-- What a caller is shown and its step are a run of the caller alone. -/
theorem caller_run_snoc {d : Node} {submit : Message} {wire : Bytes} {s s' : CallerRun}
    {e : UatCallerRun.Ev}
    (hs : UatCallerRun.step submit wire (d.shownCaller submit wire s) e = some s') :
    ∃ es, runFrom (UatCallerRun.step submit wire) s es = some s' := by
  obtain ⟨es, hes⟩ := shownCaller_run d submit wire s
  refine ⟨es ++ [e], ?_⟩
  rw [runFrom_snoc, hes]
  exact hs

/-- A step of a task is a step, or more, of its call. -/
theorem Stepped.alone {d d' : Node} {t t' : Task}
    (h : Stepped policy behavior d t d' t')
    (hrun : RunsAlone policy behavior t) : RunsAlone policy behavior t' := by
  cases h with
  | admitted peer now => exact ⟨d.rateLimiter, now, d.spent, [], rfl⟩
  | dialed peer submit wire closed => exact ⟨closed, [], rfl⟩
  | unconnected _ => trivial
  | called peer permit c c' e hs =>
      obtain ⟨limiter, now, spent, es, hes⟩ := hrun
      obtain ⟨more, hmore⟩ := callee_run_snoc hs
      refine ⟨limiter, now, spent, es ++ more, ?_⟩
      rw [runFrom_append, hes]
      exact calling_run hmore
  | calls peer submit wire s s' e hs =>
      obtain ⟨closed, es, hes⟩ := hrun
      obtain ⟨more, hmore⟩ := caller_run_snoc hs
      refine ⟨closed, es ++ more, ?_⟩
      rw [runFrom_append, hes]
      exact hmore
  | finished peer hover => exact ⟨hover, hrun⟩

/-! ## What the sink has received -/

/-- The records of one connection. -/
def Task.audit : Task → List CallRecord
  | .inbound _ h | .handled _ h => h.audit
  | .outbound _ _ _ s => s.audit.map UatCallerRun.Audited.record
  | _ => []

/-- A callee's log only grows. -/
theorem callee_audit {peer : NodeId} {c c' : Callee} {e : UatCalleeRun.Ev}
    (hs : UatCalleeRun.step policy peer behavior c e = some c') :
    ∃ new, c'.audit = c.audit ++ new := by
  cases UatCalleeRun.step_moves hs with
  | goesOn _ haudit _ _ _ => exact ⟨[], by rw [haudit, List.append_nil]⟩
  | ends c₁ _ _ haudit _ _ _ haudit' _ =>
      rw [haudit', ← haudit]
      exact ⟨_, rfl⟩

omit text in
/-- So does a caller's where the stream did not open. -/
theorem failed_audit (o : Opening) (s : CallerRun) (err : CallError) (reason : String) :
    ∃ new, (o.failed s err reason).audit = s.audit ++ new := by
  rw [Opening.failed]
  cases o.closed <;> exact ⟨_, rfl⟩

/-- A caller's log only grows. -/
theorem caller_audit {submit : Message} {wire : Bytes} {s s' : CallerRun} {e : UatCallerRun.Ev}
    (hs : UatCallerRun.step submit wire s e = some s') : ∃ new, s'.audit = s.audit ++ new := by
  have hsame : s'.audit = s.audit → ∃ new, s'.audit = s.audit ++ new :=
    fun h => ⟨[], by rw [h, List.append_nil]⟩
  cases e with
  | setup r =>
      obtain ⟨o, -, ⟨-, rfl⟩ | ⟨-, err, reason, rfl⟩⟩ := step_setup hs
      · obtain ⟨_, -, haudit⟩ := @opened_guard _ submit wire o s
        exact hsame haudit
      · exact failed_audit o s err reason
  | call e =>
      rcases step_call hs with ⟨_, _, -, -, rfl⟩ | ⟨c, c', -, -, rfl⟩
      · exact hsame rfl
      · obtain ⟨_, -, haudit⟩ := settle_guard s c'
        exact hsame haudit
  | guardJoined =>
      obtain ⟨_, _, _, -, rfl⟩ := step_joined hs
      exact ⟨_, rfl⟩
  | drop =>
      obtain ⟨_, _, -, rfl⟩ := step_dropped hs
      exact ⟨_, rfl⟩
  | unwound =>
      obtain ⟨_, _, -, rfl⟩ := step_unwound hs
      exact ⟨_, rfl⟩

theorem shownCaller_audit (d : Node) (submit : Message) (wire : Bytes) (s : CallerRun) :
    (d.shownCaller submit wire s).audit = s.audit := by
  rw [Node.shownCaller]
  split
  · cases hs : UatCallerRun.step submit wire s (.call .shutdown) with
    | none => rfl
    | some s' =>
        rcases step_call hs with ⟨_, _, -, -, rfl⟩ | ⟨c, c', -, -, rfl⟩
        · rfl
        · obtain ⟨_, -, haudit⟩ := settle_guard s c'
          exact haudit
  · rfl

omit text in
theorem finish_records (d : Node) (peer : NodeId) (h : Handling) :
    (d.finish peer h).records = d.records := by
  cases h <;> rfl

/-- The sink receives what the task's log does. -/
theorem Stepped.records {d d' : Node} {t t' : Task}
    (h : Stepped policy behavior d t d' t') :
    ∃ new, d'.records = d.records ++ new ∧ t'.audit = t.audit ++ new := by
  cases h with
  | admitted peer now => exact ⟨_, rfl, rfl⟩
  | dialed peer submit wire closed => exact ⟨_, rfl, rfl⟩
  | unconnected hnew =>
      refine ⟨[], (List.append_nil _).symm, ?_⟩
      rcases hnew with rfl | ⟨submit, wire, rfl⟩ <;> rfl
  | called peer permit c c' e hs =>
      obtain ⟨new, hnew⟩ := callee_audit hs
      refine ⟨new.map UatCalleeRun.Audited.record, ?_, ?_⟩
      · have hdrop : c'.audit.drop c.audit.length = new := by
          rw [hnew]
          exact List.drop_left
        rw [Node.afterCallee, hdrop]
      · exact (congrArg (List.map _) hnew).trans (List.map_append ..)
  | calls peer submit wire s s' e hs =>
      obtain ⟨new, hnew⟩ := caller_audit hs
      rw [shownCaller_audit] at hnew
      refine ⟨new.map UatCallerRun.Audited.record, ?_, ?_⟩
      · rw [Node.afterCaller, hnew, List.drop_left]
      · exact (congrArg (List.map _) hnew).trans (List.map_append ..)
  | finished peer hover => exact ⟨[], by rw [finish_records, List.append_nil], by simp [Task.audit]⟩

/-- One record in the connection's name once its call is over, and none before. -/
def Task.Recorded : Task → Prop
  | .inbound peer h | .handled peer h => OneRecord .inbound peer h.over h.audit
  | .outbound peer _ _ s =>
      OneRecord .outbound peer s.stage.over (s.audit.map UatCallerRun.Audited.record)
  | _ => True

/-- A connection has its one record once it has ended, and none before. -/
theorem RunsAlone.recorded {t : Task} (h : RunsAlone policy behavior t) : t.Recorded := by
  cases t with
  | inbound peer handling =>
      obtain ⟨limiter, now, spent, es, hrun⟩ := h
      exact incoming_one_record hrun
  | handled peer handling =>
      obtain ⟨-, limiter, now, spent, es, hrun⟩ := h
      exact incoming_one_record hrun
  | outbound peer submit wire s =>
      obtain ⟨closed, es, hrun⟩ := h
      exact caller_one_record hrun
  | _ => trivial

/-- A call of this peer and in this direction that is over. -/
def Task.ended (direction : Direction) (peer : NodeId) : Task → Bool
  | .inbound p h | .handled p h => decide (direction = .inbound ∧ p = peer) && h.over
  | .outbound p _ _ s => decide (direction = .outbound ∧ p = peer) && s.stage.over
  | _ => false

/-- A record of this peer and in this direction. -/
def isOf (direction : Direction) (peer : NodeId) (r : CallRecord) : Bool :=
  decide (direction = r.direction ∧ r.peer = peer)

omit [Base64Engine] text in
/-- One record, counted by direction and peer. -/
theorem countP_oneRecord {direction : Direction} {peer : NodeId} {ended : Bool}
    {audit : List CallRecord} (h : OneRecord direction peer ended audit) (direction' : Direction)
    (peer' : NodeId) :
    audit.countP (isOf direction' peer') =
      if (decide (direction' = direction ∧ peer = peer') && ended) = true then 1 else 0 := by
  cases ended with
  | false => rw [h.2 rfl, Bool.and_false]; rfl
  | true =>
      obtain ⟨record, rfl, rfl, rfl⟩ := h.1 rfl
      rw [List.countP_singleton, Bool.and_true]
      rfl

omit text in
/-- A task has a record of a direction and a peer exactly when such a call has ended in it. -/
theorem Task.Recorded.countP {t : Task} (h : t.Recorded) (direction : Direction) (peer : NodeId) :
    t.audit.countP (isOf direction peer) = if t.ended direction peer = true then 1 else 0 := by
  cases t with
  | inbound p handling | handled p handling => exact countP_oneRecord h direction peer
  | outbound p submit wire s => exact countP_oneRecord h direction peer
  | _ => rfl

omit text in
/-- So the records of all tasks are as many as their calls that have ended. -/
theorem countP_audit {ts : List Task} (h : ∀ t ∈ ts, t.Recorded) (direction : Direction)
    (peer : NodeId) :
    (ts.flatMap Task.audit).countP (isOf direction peer) =
      ts.countP (Task.ended direction peer) := by
  induction ts with
  | nil => rfl
  | cons t ts ih =>
      obtain ⟨ht, hts⟩ := List.forall_mem_cons.mp h
      rw [List.flatMap_cons, List.countP_append, List.countP_cons, ih hts, ht.countP, Nat.add_comm]

/-- Every task of a node is the run of a call. -/
theorem run_alone {limits : RateLimitConfig} {spent : MemorySpentSet} {es : List Event} {w : World}
    (hrun : runFrom (TaskPool.step (daemon policy behavior)) ⟨.bind limits spent, []⟩ es =
      some w) {i : Nat} {t : Task} (hi : w.members[i]? = some t) : RunsAlone policy behavior t := by
  have hall : Holds (fun _ => True) (fun _ _ t => RunsAlone policy behavior t) w := by
    refine run_invariant (Holds (fun _ => True) fun _ _ t => RunsAlone policy behavior t) ?_ es _ w
      (holds_empty trivial) hrun
    intro p e p' hp hs
    refine Holds.step (Q := fun _ => True) ?_ ?_ (fun _ _ _ _ _ _ => ⟨trivial, fun _ _ h => h⟩)
      hp trivial hs
    · rintro d b d' t - - hspawn
      refine ⟨trivial, fun _ => ?_, fun _ _ h => h⟩
      rcases spawn_cases hspawn with ⟨-, rfl, -⟩ | ⟨_, _, rfl, -⟩ <;> trivial
    · rintro d i t a d' t' - ht - hact
      exact ⟨trivial, (stepped_of_act hact).alone ht, fun _ _ _ h => h⟩
  exact hall.members i t hi

/-- Each task of a node that has run is a run of its own. -/
theorem alone_of_mem {limits : RateLimitConfig} {spent : MemorySpentSet} {es : List Event}
    {w : World}
    (hrun : runFrom (TaskPool.step (daemon policy behavior)) ⟨.bind limits spent, []⟩ es =
      some w) {t : Task} (ht : t ∈ w.members) : RunsAlone policy behavior t := by
  obtain ⟨i, hi⟩ := List.getElem?_of_mem ht
  exact run_alone hrun hi

/-- The sink has received what the connections have. -/
theorem records_perm {limits : RateLimitConfig} {spent : MemorySpentSet} {es : List Event}
    {w : World}
    (hrun : runFrom (TaskPool.step (daemon policy behavior)) ⟨.bind limits spent, []⟩ es =
      some w) : w.shared.records.Perm (w.members.flatMap Task.audit) := by
  refine log_perm Node.records Task.audit ?_ ?_ ?_ (List.Perm.refl []) hrun
  · intro d b d' t hspawn
    rcases spawn_cases hspawn with ⟨-, rfl, rfl⟩ | ⟨_, _, rfl, rfl⟩ <;>
      exact (List.append_nil _).symm
  · intro _ d t a d' t' hact
    exact (stepped_of_act hact).records
  · intro d c d' hsignal
    obtain ⟨_, _, rfl⟩ := signal_cases hsignal
    rfl

/-! ## What the inbox was offered -/

/-- A call that is over does not go on, whatever still reaches its connection. -/
theorem over_step {peer : NodeId} {c c' : Callee} {e : UatCalleeRun.Ev}
    (hover : c.await.over = true) (hs : UatCalleeRun.step policy peer behavior c e = some c') :
    c'.await = c.await ∧ c'.audit = c.audit := by
  cases hawait : c.await with
  | returned result | dropped =>
      cases e with
      | arrive bytes | endStream e | close err =>
          obtain ⟨-, hs⟩ := Option.ite_none_right_eq_some.mp hs
          obtain rfl := Option.some.inj hs
          exact ⟨hawait, rfl⟩
      | shutdown | spend spent =>
          obtain rfl := Option.some.inj hs
          exact ⟨hawait, rfl⟩
      | _ => simp [UatCalleeRun.step, hawait, UatCalleeRun.Await.hasTimer,
          UatCalleeRun.Await.over] at hs
  | _ => rw [hawait] at hover; cases hover

/-- The outcome a call returns is the one its record shows. -/
def Returns (peer : NodeId) (c : Callee) : Prop :=
  ∀ outcome, c.await = .returned (.ok outcome) →
    ∃ r, c.audit.map UatCalleeRun.Audited.record = [r] ∧ r.peer = peer ∧ r.direction = .inbound ∧
      r.outcome = outcome

/-- **Step lemma.** The call ends by joining its guard, which records what it returns. -/
theorem step_returns {peer : NodeId} {c c' : Callee} {e : UatCalleeRun.Ev}
    (hacc : UatIncoming.Accounted peer c) (h : Returns peer c)
    (hs : UatCalleeRun.step policy peer behavior c e = some c') : Returns peer c' := by
  intro outcome hreturned
  cases hover : c.await.over with
  | true =>
      obtain ⟨hawait, haudit⟩ := over_step hover hs
      rw [haudit]
      exact h outcome (hawait.symm.trans hreturned)
  | false =>
      have hended : c'.await.over = true := by rw [hreturned]; rfl
      -- The call ends in this step, and not for a failed setup: it has joined its guard.
      cases UatCalleeRun.step_moves hs with
      | goesOn _ _ _ hsame _ => cases hover.symm.trans (hsame.symm.trans hended)
      | ends _ hends _ _ _ _ _ _ _ =>
          cases e with
          | guardJoined =>
              obtain ⟨result, hawait, rfl⟩ := UatCalleeRun.step_joined hs
              obtain rfl : result = .ok outcome := UatCalleeRun.Await.returned.inj hreturned
              obtain ⟨hempty, hidentity⟩ := hacc.running hover
              have hemitted : c.record.emitted = false := congrArg Prod.fst hidentity
              refine ⟨(c.record.setOutcome outcome).record, ?_, congrArg (·.2.2) hidentity,
                congrArg (·.2.1) hidentity, rfl⟩
              simp [UatCalleeRun.Callee.ret, UatCalleeRun.Callee.emitRecord,
                CallRecordGuard.emitNow, CallRecordGuard.observeResult,
                CallRecordGuard.setOutcome, hempty, hemitted]
          | setup r now =>
              obtain ⟨-, ⟨rfl, rfl⟩ | ⟨-, reason, rfl⟩⟩ := UatCalleeRun.step_setup hs
              · exact absurd rfl hends
              · cases hreturned
          | drop =>
              obtain ⟨-, hs⟩ := Option.ite_none_left_eq_some.mp hs
              obtain rfl := Option.some.inj hs
              cases hreturned
          | _ => exact hends.elim

/-- A refused connection, or a call that accounts for what it returns. -/
def Handling.Backed (peer : NodeId) : Handling → Prop
  | .refused _ _ => True
  | .calling _ c => UatIncoming.Accounted peer c ∧ Returns peer c

/-- A run of `handle_incoming` accounts for what its call returns. -/
theorem handling_backed {peer : NodeId} {limiter : RateLimiter} {now : Instant}
    {spent : MemorySpentSet} {es : List UatCalleeRun.Ev} {h : Handling}
    (hrun : runFrom (UatIncoming.step policy peer behavior)
      (handleIncoming policy (policy.verifyPeer peer) limiter peer now spent).1 es = some h) :
    Handling.Backed peer h := by
  refine run_invariant (Handling.Backed peer) ?_ es _ h ?_ hrun
  · intro h e h' hbacked hs
    cases h with
    | refused code record => cases hs
    | calling permit c =>
        obtain ⟨c', hc, rfl⟩ := Option.map_eq_some_iff.mp hs
        exact ⟨hbacked.1.of_moves (UatCalleeRun.step_moves hc), step_returns hbacked.1 hbacked.2 hc⟩
  · rw [handleIncoming]
    split
    · trivial
    split
    · refine ⟨runCalleeWith_accounted policy peer spent, fun outcome hreturned => ?_⟩
      rw [runCalleeWith] at hreturned
      split at hreturned <;> cases hreturned
    · trivial

/-- What the connection has offered to the inbox. -/
def Task.offered : Task → List InboxEvent
  | .handled peer h => (h.inboxEvent peer).toList
  | _ => []

/-- Who called, and how it ended: what an event says, and what a record does. -/
def InboxEvent.said (e : InboxEvent) : NodeId × Outcome := (e.peer, e.outcome)

def saidBy (r : CallRecord) : NodeId × Outcome := (r.peer, r.outcome)

/-- The event of a connection says what the connection's record does. -/
theorem RunsAlone.offered {t : Task} (h : RunsAlone policy behavior t) :
    (t.offered.map InboxEvent.said).Sublist
      ((t.audit.filter fun r => r.direction = .inbound).map saidBy) := by
  cases t with
  | handled peer handling =>
      obtain ⟨-, limiter, now, spent, es, hrun⟩ := h
      have hbacked := handling_backed hrun
      cases handling with
      | refused code record => exact List.nil_sublist _
      | calling permit c =>
          have hreturns := hbacked.2
          cases hawait : c.await with
          | returned result =>
              cases result with
              | ok outcome =>
                  obtain ⟨r, haudit, hpeer, hdirection, houtcome⟩ := hreturns outcome hawait
                  have hof : (Handling.calling permit c).audit = [r] := haudit
                  simp [Task.offered, Handling.inboxEvent, hawait, afterCall, Task.audit, hof,
                    hdirection, InboxEvent.said, saidBy, hpeer, houtcome]
              | error err =>
                  have hnone : (Handling.calling permit c).inboxEvent peer = none := by
                    cases err <;> simp [Handling.inboxEvent, hawait, afterCall]
                  simp [Task.offered, hnone]
          | _ => simp [Task.offered, Handling.inboxEvent, hawait]
  | _ => exact List.nil_sublist _

omit text in
/-- `handle_incoming` offers the inbox the event of its call, if there is one. -/
theorem finish_inbox (d : Node) (peer : NodeId) (h : Handling) :
    (d.finish peer h).inbox = d.inbox ++ (h.inboxEvent peer).toList := by
  cases h with
  | refused code record => exact (List.append_nil _).symm
  | calling permit c => rfl

/-- Only the return of `handle_incoming` offers anything. -/
theorem Stepped.inbox {d d' : Node} {t t' : Task}
    (h : Stepped policy behavior d t d' t') :
    ∃ new, d'.inbox = d.inbox ++ new ∧ t'.offered = t.offered ++ new := by
  cases h with
  | finished peer hover => exact ⟨_, finish_inbox d peer _, rfl⟩
  | unconnected hnew =>
      refine ⟨[], (List.append_nil _).symm, ?_⟩
      rcases hnew with rfl | ⟨submit, wire, rfl⟩ <;> rfl
  | _ => exact ⟨[], (List.append_nil _).symm, rfl⟩

/-- The events of all connections, in the order of their records. -/
theorem offered_sublist {ts : List Task} (h : ∀ t ∈ ts, RunsAlone policy behavior t) :
    ((ts.flatMap Task.offered).map InboxEvent.said).Sublist
      (((ts.flatMap Task.audit).filter fun r => r.direction = .inbound).map saidBy) := by
  induction ts with
  | nil => exact List.Sublist.refl _
  | cons t ts ih =>
      obtain ⟨ht, hts⟩ := List.forall_mem_cons.mp h
      rw [List.flatMap_cons, List.flatMap_cons, List.map_append, List.filter_append,
        List.map_append]
      exact ht.offered.append (ih hts)

/-- The inbox was offered what the connections offered it, and nothing else. -/
theorem inbox_perm {limits : RateLimitConfig} {spent : MemorySpentSet} {es : List Event}
    {w : World}
    (hrun : runFrom (TaskPool.step (daemon policy behavior)) ⟨.bind limits spent, []⟩ es =
      some w) : w.shared.inbox.Perm (w.members.flatMap Task.offered) := by
  refine log_perm Node.inbox Task.offered ?_ ?_ ?_ (List.Perm.refl []) hrun
  · intro d b d' t hspawn
    rcases spawn_cases hspawn with ⟨-, rfl, rfl⟩ | ⟨_, _, rfl, rfl⟩ <;>
      exact (List.append_nil _).symm
  · intro _ d t a d' t' hact
    exact (stepped_of_act hact).inbox
  · intro d c d' hsignal
    obtain ⟨_, _, rfl⟩ := signal_cases hsignal
    rfl

/-! ## What the limiter counts -/

/-- The permit a connection holds, as the limiter's world has it. -/
def Task.held : Task → List Held
  | .inbound _ (.calling permit _) => [⟨permit, .handler false⟩]
  | _ => []

/-- The limiter's world after the admissions and the returns there have been: its permits are
    those the connections hold. -/
def Limited (limits : RateLimitConfig) (d : Node) (held : List Held) : Prop :=
  ∃ es v, runFrom UatRateLimit.step (.start limits) es = some v ∧ v.limiter = d.rateLimiter ∧
    v.permits.Perm held

omit [Base64Engine] text in
theorem Limited.next {limits : RateLimitConfig} {d : Node} {held : List Held}
    {v v' : UatRateLimit.World} {es : List UatRateLimit.Event} {e : UatRateLimit.Event}
    (hrun : runFrom UatRateLimit.step (.start limits) es = some v)
    (hs : UatRateLimit.step v e = some v') (hlimiter : v'.limiter = d.rateLimiter)
    (hpermits : v'.permits.Perm held) : Limited limits d held := by
  refine ⟨es ++ [e], v', ?_, hlimiter, hpermits⟩
  rw [runFrom_snoc, hrun]
  exact hs

omit text [BiscuitEngine Key] in
/-- `handle_incoming` admits as the limiter's world does, or the gate keeps it from the
    limiter. -/
theorem handleIncoming_admits (policy : Policy Key) (verified : Bool) (v : UatRateLimit.World)
    (peer : NodeId) (now : Instant) (spent : MemorySpentSet) :
    let r := handleIncoming policy verified v.limiter peer now spent
    (r.2 = v.limiter ∧ (Task.inbound peer r.1).held = []) ∨
      ((v.tryAdmit peer now (.handler false)).limiter = r.2 ∧
        (v.tryAdmit peer now (.handler false)).permits =
          v.permits ++ (Task.inbound peer r.1).held) := by
  intro r
  cases hadmit : v.limiter.tryAdmitAt peer now with
  | mk answer limiter =>
      cases verified with
      | false => exact Or.inl ⟨rfl, rfl⟩
      | true =>
          right
          cases answer <;>
            simp [r, handleIncoming, UatRateLimit.World.tryAdmit, hadmit, Task.held]

/-- The limiter's world moves with the node. -/
theorem Stepped.limited {limits : RateLimitConfig} {d d' : Node} {t t' : Task}
    (h : Stepped policy behavior d t d' t') {ts : List Task} {i : Nat}
    (hi : ts[i]? = some t) (hlimited : Limited limits d (ts.flatMap Task.held)) :
    Limited limits d' ((ts.set i t').flatMap Task.held) := by
  have hsame : d'.rateLimiter = d.rateLimiter → t'.held = t.held →
      Limited limits d' ((ts.set i t').flatMap Task.held) := by
    intro hlimiter hheld
    obtain ⟨es, v, hrun, hv, hpermits⟩ := hlimited
    refine ⟨es, v, hrun, hv.trans hlimiter.symm, hpermits.trans ?_⟩
    have hperm : ((ts.set i t').flatMap Task.held).Perm (ts.flatMap Task.held ++ []) :=
      flatMap_set_perm hi (by rw [hheld, List.append_nil])
    rw [List.append_nil] at hperm
    exact hperm.symm
  cases h with
  | admitted peer now =>
      obtain ⟨es, v, hrun, hv, hpermits⟩ := hlimited
      have hadmits := handleIncoming_admits policy (policy.verifyPeer peer) v peer now d.spent
      rw [hv] at hadmits
      rcases hadmits with ⟨hlimiter, hheld⟩ | ⟨hlimiter, hnew⟩
      · exact hsame hlimiter hheld
      · refine Limited.next hrun (e := .handleIncoming peer now) rfl hlimiter ?_
        rw [hnew]
        exact (hpermits.append_right _).trans
          (flatMap_set_perm hi (List.nil_append _).symm).symm
  | dialed peer submit wire closed => exact hsame rfl rfl
  | unconnected hnew =>
      refine hsame rfl ?_
      rcases hnew with rfl | ⟨submit, wire, rfl⟩ <;> rfl
  | called peer permit c c' e hs => exact hsame rfl rfl
  | calls peer submit wire s s' e hs => exact hsame rfl rfl
  | finished peer hover =>
      rename_i handling
      cases handling with
      | refused code record => exact hsame rfl rfl
      | calling permit c =>
          -- The permit is among those of the limiter's world, which drops it.
          obtain ⟨es, v, hrun, hv, hpermits⟩ := hlimited
          have hgone : (ts.flatMap Task.held).Perm
              ((ts.set i (.handled peer (.calling permit c))).flatMap Task.held ++
                [⟨permit, .handler false⟩]) :=
            flatMap_unset_perm hi (List.nil_append _).symm
          have hmem : (⟨permit, .handler false⟩ : Held) ∈ v.permits :=
            (hpermits.trans hgone).mem_iff.mpr
              (List.mem_append_right _ (List.mem_singleton.mpr rfl))
          obtain ⟨k, hlt, hk⟩ := List.getElem_of_mem hmem
          have hk' : v.permits[k]? = some ⟨permit, .handler false⟩ :=
            List.getElem?_eq_some_iff.mpr ⟨hlt, hk⟩
          have hs : UatRateLimit.step v (.drop k) =
              some ⟨(permit.releaseNow v.limiter).2, v.permits.eraseIdx k⟩ := by
            simp [UatRateLimit.step, hk']
          refine Limited.next hrun hs ?_ ?_
          · rw [hv]
            rfl
          · have herase := List.getElem_cons_eraseIdx_perm hlt
            rw [hk] at herase
            have hrest := herase.trans ((hpermits.trans hgone).trans
              (List.perm_append_singleton _ _))
            exact hrest.cons_inv

/-- In every reachable state the limiter's permits are those the connections hold. -/
theorem run_limited {limits : RateLimitConfig} {spent : MemorySpentSet} {es : List Event}
    {w : World}
    (hrun : runFrom (TaskPool.step (daemon policy behavior)) ⟨.bind limits spent, []⟩ es =
      some w) : Limited limits w.shared (w.members.flatMap Task.held) := by
  refine run_invariant (fun w => Limited limits w.shared (w.members.flatMap Task.held)) ?_ es _ w
    (show Limited limits (.bind limits spent) [] from ⟨[], .start limits, rfl, rfl, .nil⟩) hrun
  intro p e p' h hs
  cases e with
  | spawn b =>
      obtain ⟨d, t, hspawn, rfl⟩ := step_spawn hs
      show Limited limits d ((p.members ++ [t]).flatMap Task.held)
      have hnone : d.rateLimiter = p.shared.rateLimiter ∧ t.held = [] := by
        rcases spawn_cases hspawn with ⟨-, rfl, rfl⟩ | ⟨_, _, rfl, rfl⟩ <;> exact ⟨rfl, rfl⟩
      obtain ⟨hlimiter, hheld⟩ := hnone
      rw [List.flatMap_append, List.flatMap_singleton, hheld, List.append_nil, Limited, hlimiter]
      exact h
  | act i a =>
      obtain ⟨t, d, t', hi, hact, rfl⟩ := step_act hs
      exact (stepped_of_act hact).limited hi h
  | env c =>
      obtain ⟨d, hsignal, rfl⟩ := step_env hs
      obtain ⟨_, _, rfl⟩ := signal_cases hsignal
      exact h

/-- The permit of a call is its peer's, and not released. -/
theorem RunsAlone.permit {peer : NodeId} {permit : RateLimitPermit} {c : Callee}
    (h : RunsAlone policy behavior (.inbound peer (.calling permit c))) :
    permit = ⟨peer, false⟩ := by
  obtain ⟨limiter, now, spent, es, hrun⟩ := h
  let Own : Handling → Prop := fun h =>
    ∀ permit c, h = Handling.calling permit c → permit = ⟨peer, false⟩
  refine run_invariant Own ?_ es _ _ ?_ hrun permit c rfl
  · intro h e h' hown hs permit' c' heq
    subst heq
    cases h with
    | refused code record => cases hs
    | calling permit₀ c₀ =>
        obtain ⟨c₁, -, hr⟩ := Option.map_eq_some_iff.mp hs
        obtain ⟨rfl, -⟩ := Handling.calling.inj hr
        exact hown _ c₀ rfl
  · intro permit' c' heq
    rw [handleIncoming] at heq
    split at heq
    · cases heq
    split at heq
    · next admitted _ hadmit =>
        obtain ⟨rfl, -⟩ := Handling.calling.inj heq
        obtain ⟨attempts, ⟨err, hno⟩ | ⟨-, -, hyes⟩⟩ := tryAdmitAt_cases limiter peer now
        · cases (congrArg Prod.fst hno).symm.trans (congrArg Prod.fst hadmit)
        · have hpermit := (congrArg Prod.fst hyes).symm.trans (congrArg Prod.fst hadmit)
          exact (Except.ok.inj hpermit).symm
    · cases heq

/-- A call of this peer that `handle_incoming` has not returned from. -/
def Task.holds (peer : NodeId) : Task → Bool
  | .inbound p (.calling _ _) => decide (p = peer)
  | _ => false

/-- The permits held for a peer are as many as the connections that hold one. -/
theorem countP_held {ts : List Task} (h : ∀ t ∈ ts, RunsAlone policy behavior t) (peer : NodeId) :
    (ts.flatMap Task.held).countP (holdsSlot peer) = ts.countP (Task.holds peer) := by
  induction ts with
  | nil => rfl
  | cons t ts ih =>
      obtain ⟨ht, hts⟩ := List.forall_mem_cons.mp h
      have hone : t.held.countP (holdsSlot peer) = if t.holds peer = true then 1 else 0 := by
        cases t with
        | inbound p handling =>
            cases handling with
            | refused code record => rfl
            | calling permit c =>
                obtain rfl := ht.permit
                simp [Task.held, Task.holds, holdsSlot]
        | _ => rfl
      rw [List.flatMap_cons, List.countP_append, List.countP_cons, ih hts, hone, Nat.add_comm]

/-! ## The accounts of a node -/

/-- For each peer and direction there is one record for each call that is over. -/
theorem records_countP {limits : RateLimitConfig} {spent : MemorySpentSet} {es : List Event}
    {w : World}
    (hrun : runFrom (TaskPool.step (daemon policy behavior)) ⟨.bind limits spent, []⟩ es =
      some w) (direction : Direction) (peer : NodeId) :
    w.shared.records.countP (isOf direction peer) =
      w.members.countP (Task.ended direction peer) := by
  rw [(records_perm hrun).countP_eq]
  exact countP_audit (fun t ht => (alone_of_mem hrun ht).recorded) direction peer

/-- The counter of a peer is the number of its connections that hold a permit. -/
theorem inFlight_eq_countP {limits : RateLimitConfig} {spent : MemorySpentSet} {es : List Event}
    {w : World}
    (hrun : runFrom (TaskPool.step (daemon policy behavior)) ⟨.bind limits spent, []⟩ es =
      some w) (peer : NodeId) :
    (w.shared.rateLimiter.inFlight peer).toNat = w.members.countP (Task.holds peer) ∧
      w.members.countP (Task.holds peer) ≤ cap limits := by
  obtain ⟨es', v, hrun', hv, hpermits⟩ := run_limited hrun
  have hacc : UatRateLimit.Accounted limits v :=
    run_invariant (UatRateLimit.Accounted limits) (fun _ e _ h hs => accounted_step e h hs) es' _ v
      (accounted_start limits) hrun'
  have hcount : outstanding v peer = w.members.countP (Task.holds peer) := by
    rw [outstanding, hpermits.countP_eq, countP_held fun t ht => alone_of_mem hrun ht]
  rw [← hcount, ← hv]
  exact ⟨hacc.counted peer, hacc.capped peer⟩

/-- **EVERY CONNECTION IS ACCOUNTED FOR IN THE SINK.**  However the connections of a node
    interleave, the sink has received what the connections have, in some order; for each
    peer and direction that is one record for each call that is over. -/
theorem daemon_records {limits : RateLimitConfig} {spent : MemorySpentSet} {es : List Event}
    {w : World}
    (hrun : runFrom (TaskPool.step (daemon policy behavior)) ⟨.bind limits spent, []⟩ es =
      some w) :
    w.shared.records.Perm (w.members.flatMap Task.audit) ∧
    ∀ direction peer, w.shared.records.countP (isOf direction peer) =
      w.members.countP (Task.ended direction peer) :=
  ⟨records_perm hrun, records_countP hrun⟩

/-- **THE INBOX TELLS OF CALLS THAT WERE RECORDED.**  The node offers an event for each call
    that returned an outcome and for no other, and each event has a record of its own with
    the same peer and the same outcome. -/
theorem daemon_inbox {limits : RateLimitConfig} {spent : MemorySpentSet} {es : List Event}
    {w : World}
    (hrun : runFrom (TaskPool.step (daemon policy behavior)) ⟨.bind limits spent, []⟩ es =
      some w) :
    w.shared.inbox.Perm (w.members.flatMap Task.offered) ∧
    (w.shared.inbox.map InboxEvent.said).Subperm
      ((w.shared.records.filter fun r => r.direction = .inbound).map saidBy) := by
  have hinbox := inbox_perm hrun
  have hrecords := records_perm hrun
  have hoffered := offered_sublist fun t ht => alone_of_mem hrun ht
  have hsaid := (hinbox.map InboxEvent.said).subperm.trans hoffered.subperm
  exact ⟨hinbox, hsaid.trans ((hrecords.filter _).map saidBy).symm.subperm⟩

/-- **EVERY SLOT IS HELD BY A CALL.**  However the connections of a node interleave, the
    counter of a peer is the number of its connections between their admission and the
    return of `handle_incoming`, and that number stays within both caps. -/
theorem daemon_slots {limits : RateLimitConfig} {spent : MemorySpentSet} {es : List Event}
    {w : World}
    (hrun : runFrom (TaskPool.step (daemon policy behavior)) ⟨.bind limits spent, []⟩ es =
      some w) (peer : NodeId) :
    (w.shared.rateLimiter.inFlight peer).toNat = w.members.countP (Task.holds peer) ∧
    w.members.countP (Task.holds peer) ≤
      min limits.maxConcurrentCalls.toNat limits.maxLiveFrames.toNat :=
  inFlight_eq_countP hrun peer

end

/-! ## Two connections and a dial -/

section

attribute [local instance] plainText compactJson noToken

/-- Caps that let one call of a peer in at a time. -/
def oneAtATime : RateLimitConfig := ⟨1, 60, 8⟩

/-- A stranger calls and, while it is served, calls again and is refused; the node dials out
    and does not get through; then the stranger hangs up. -/
def twoAndADial : List Event :=
  [.env .pollAccept, .spawn .accept, .env .pollAccept, .spawn .accept,
    .spawn (.dial (.submit taskOne oneSecond plain none []) []),
    .act 0 (.connected stranger 0 none), .act 1 (.connected stranger 1 none),
    .act 2 (.connected remote 2 none), .act 0 (.callee (.setup .opened epoch)), .act 1 .finish,
    .act 2 (.caller (.setup (.failed "no stream"))),
    .act 0 (.callee (.close (closedBy .normal))), .act 0 (.callee (.poll false)),
    .act 0 (.callee .guardJoined)]

theorem daemon_records_twoAndADial :
    ∃ w, runFrom (TaskPool.step (daemon oneRoot .stubComplete)) ⟨.bind oneAtATime .new, []⟩
        twoAndADial = some w ∧ w.shared.records.length = 3 ∧
      w.shared.records.Perm (w.members.flatMap Task.audit) ∧
      ∀ direction peer, w.shared.records.countP (isOf direction peer) =
        w.members.countP (Task.ended direction peer) :=
  ⟨_, rfl, rfl, @daemon_records _ _ _ _ oneRoot .stubComplete oneAtATime .new twoAndADial _ rfl⟩

theorem daemon_inbox_twoAndADial :
    ∃ w, runFrom (TaskPool.step (daemon oneRoot .stubComplete)) ⟨.bind oneAtATime .new, []⟩
        (twoAndADial ++ [.act 0 .finish]) = some w ∧
      w.shared.inbox = [⟨stranger, .peerLost⟩] ∧
      w.shared.inbox.Perm (w.members.flatMap Task.offered) ∧
      (w.shared.inbox.map InboxEvent.said).Subperm
        ((w.shared.records.filter fun r => r.direction = .inbound).map saidBy) :=
  ⟨_, rfl, rfl, @daemon_inbox _ _ _ _ oneRoot .stubComplete oneAtATime .new
    (twoAndADial ++ [.act 0 .finish]) _ rfl⟩

theorem daemon_slots_twoAndADial :
    ∃ w, runFrom (TaskPool.step (daemon oneRoot .stubComplete)) ⟨.bind oneAtATime .new, []⟩
        twoAndADial = some w ∧
      (w.shared.rateLimiter.inFlight stranger).toNat = w.members.countP (Task.holds stranger) ∧
      w.members.countP (Task.holds stranger) ≤
        min oneAtATime.maxConcurrentCalls.toNat oneAtATime.maxLiveFrames.toNat :=
  ⟨_, rfl, @daemon_slots _ _ _ _ oneRoot .stubComplete oneAtATime .new twoAndADial _ rfl stranger⟩

end

end UatDaemon
