import Uat.Daemon
import Uat.FailClosed
import Uat.LostVerdict

/-! # The bytes a peer can make a node hold

    A read takes bytes off its stream before it has a whole frame of them, and keeps them as
    long as it waits.  The length is checked before the payload is read, so one read keeps
    four bytes and a payload at most; one connection has one read at a time, and the limiter
    counts the connections.

    - `Frugal`: the buffers of a callee's read are not full, whatever its peer sends.
    - `daemon_memory`: what all connections of a peer keep, at the caps the limiter has. -/

namespace UatHeldBytes

open UatTypes UatCodec UatHeader UatPolicy UatRecvStream UatRecord UatIncoming UatDaemon
open UatRateLimit (RateLimiter RateLimitConfig Instant cap)
open UatCalleeRun (Callee CalleeBehavior runCalleeWith)
open UatCallerRun (CallerRun Stage runCallerWith)
open UatFailClosed (readOf Onward)
open UatLostVerdict (Whole step_whole)
open UatAttenuation (plainText oneRoot epoch)
open UatOneShot (stranger)
open StepRun TaskPool

/-- The most a read keeps: a length and a payload. -/
def readLimit : Nat := 4 + maxFrame

/-- A read that waits keeps no more than that. -/
theorem length_held_le {read : ReadFrame} (h : read.Partial) : read.held.length ≤ readLimit := by
  cases read with
  | readLen got =>
      have hgot : got.length ≤ 4 := h
      exact Nat.le_trans hgot (Nat.le_add_right 4 maxFrame)
  | readPayload lenBuf got =>
      obtain ⟨h4, hmax, hgot⟩ := h
      rw [ReadFrame.held, List.length_append, readLimit]
      omega

section

variable [Base64Engine]

/-! ## The callee's read -/

/-- The buffers of the read a callee waits for are not full. -/
def Frugal (c : Callee) : Prop := ∀ read, readOf c.await = some read → read.Partial

/-- A callee that reads nothing holds nothing. -/
theorem frugal_of_none {c : Callee} (h : readOf c.await = none) : Frugal c := by
  intro read hread
  cases h.symm.trans hread

/-- A read that begins anew holds nothing yet. -/
theorem frugal_of_onward {c c' : Callee} (h : Onward c c') : Frugal c' := by
  intro read hread
  obtain rfl := h.fresh read hread
  exact Nat.zero_le 4

/-- A callee starts with empty buffers. -/
theorem frugal_start {Key : Type} (policy : Policy Key) (peer : NodeId) (spent : MemorySpentSet) :
    Frugal (runCalleeWith policy peer spent) := by
  rw [runCalleeWith]
  split <;> exact frugal_of_none rfl

/-- What such a read holds is less than a frame. -/
theorem Frugal.le {c : Callee} (h : Frugal c) :
    ((readOf c.await).map fun read => read.held.length).getD 0 ≤ readLimit := by
  cases hread : readOf c.await with
  | none => exact Nat.zero_le _
  | some read => exact length_held_le (h read hread)

/-- The read of a dialed connection. -/
def WholeStage : Stage → Prop
  | .looping c => Whole c
  | _ => True

/-- A caller that goes on holds what its loop holds. -/
theorem whole_settle {s : CallerRun} {c : UatCallerLoop.Caller} (h : Whole c) :
    WholeStage (s.settle c).stage := by
  rw [CallerRun.settle]
  cases hawait : c.await with
  | returned result | panicked => trivial
  | _ => exact h

section

variable [text : JsonText] {Key : Type} [BiscuitEngine Key] {policy : Policy Key} {peer : NodeId}
  {behavior : CalleeBehavior} {c c' : Callee}

/-- A read that goes on waiting has not filled its buffers. -/
theorem pollMessage_pending {read read' : ReadFrame} {recv recv' : RecvStream}
    (h : read.Partial) (hpoll : pollMessage read recv = (.pending read', recv')) :
    read'.Partial := by
  rw [pollMessage] at hpoll
  split at hpoll
  · next read₁ recv₁ hframe =>
      obtain ⟨hread, -⟩ := Prod.mk.inj hpoll
      cases hread
      exact (pollFrame_pending h hframe).1
  · cases (Prod.mk.inj hpoll).1

/-- A poll of the first frame leaves the buffers within their bounds. -/
theorem pollFirstFrame_frugal {now : UatPolicy.SystemTime} {read : ReadFrame}
    (h : read.Partial) (expired : Bool) :
    Frugal (c.pollFirstFrame policy peer behavior now read expired) := by
  rw [Callee.pollFirstFrame]
  split
  · exact frugal_of_none rfl
  split
  · exact frugal_of_none rfl
  split
  · rw [Callee.onFrame]
    split
    · rw [Callee.authorize]
      split
      · exact frugal_of_onward (UatFailClosed.emitCallee_onward _ _)
      · exact frugal_of_none rfl
      · exact frugal_of_none rfl
    · exact frugal_of_none rfl
    · exact frugal_of_none rfl
  · exact frugal_of_none rfl
  · exact frugal_of_none rfl
  · next read' recv hpoll =>
      split
      · exact frugal_of_none rfl
      · intro read'' hread
        obtain rfl := Option.some.inj hread
        exact (pollFrame_pending h hpoll).1

/-- **Every step of the callee leaves a read that is not full.** -/
theorem frugal_step {e : UatCalleeRun.Ev} (h : Frugal c)
    (hs : UatCalleeRun.step policy peer behavior c e = some c') : Frugal c' := by
  cases e with
  | setup r now =>
      obtain ⟨-, ⟨-, rfl⟩ | ⟨-, reason, rfl⟩⟩ := UatCalleeRun.step_setup hs
      · intro read hread
        obtain rfl := Option.some.inj hread
        exact Nat.zero_le 4
      · exact frugal_of_none rfl
  | arrive bytes | endStream e | close err | timer =>
      obtain ⟨-, hs⟩ := Option.ite_none_right_eq_some.mp hs
      obtain rfl := Option.some.inj hs
      exact h
  | shutdown | spend spent =>
      obtain rfl := Option.some.inj hs
      exact h
  | wrote w =>
      cases hawait : c.await with
      | writeDenied reason =>
          simp only [UatCalleeRun.step, hawait] at hs
          obtain rfl := Option.some.inj hs
          exact frugal_of_none rfl
      | emit msg rest =>
          simp only [UatCalleeRun.step, hawait] at hs
          split at hs
          · obtain rfl := Option.some.inj hs
            exact frugal_of_onward (UatFailClosed.emitCallee_onward _ _)
          · obtain rfl := Option.some.inj hs
            exact frugal_of_onward (UatFailClosed.writeFailed_onward c _)
      | writeTimeout msg =>
          simp only [UatCalleeRun.step, hawait] at hs
          split at hs
          · obtain rfl := Option.some.inj hs
            exact frugal_of_onward (UatFailClosed.timeoutWritten_onward _)
          · obtain rfl := Option.some.inj hs
            exact frugal_of_onward (UatFailClosed.timeoutWritten_onward c)
      | writeReply msg =>
          simp only [UatCalleeRun.step, hawait] at hs
          split at hs
          · obtain rfl := Option.some.inj hs
            exact frugal_of_onward (UatFailClosed.waitTop_onward _)
          · obtain rfl := Option.some.inj hs
            exact frugal_of_onward (UatFailClosed.writeFailed_onward c _)
      | _ => simp only [UatCalleeRun.step, hawait] at hs; cases hs
  | poll expired =>
      rcases UatCalleeRun.step_poll hs with
        ⟨now, read, hawait, rfl⟩ | ⟨read, hawait, rfl⟩ | ⟨outcome, hawait, rfl⟩
      · exact pollFirstFrame_frugal (h read (by rw [hawait]; rfl)) expired
      · have hread : read.Partial := h read (by rw [hawait]; rfl)
        rcases UatFailClosed.pollWait_onward c read expired with
          honward | hsame | ⟨read', recv, hpoll, hwaits⟩
        · exact frugal_of_onward honward
        · rw [hsame]
          exact h
        · rw [hwaits]
          intro read'' hread''
          obtain rfl := Option.some.inj hread''
          exact pollMessage_pending hread hpoll
      · have hnone : readOf c.await = none := by rw [hawait]; rfl
        rw [Callee.pollLinger]
        split
        · exact frugal_of_none rfl
        split
        · exact frugal_of_none rfl
        split
        · exact frugal_of_none rfl
        · exact frugal_of_none hnone
  | guardJoined =>
      obtain ⟨result, -, rfl⟩ := UatCalleeRun.step_joined hs
      exact frugal_of_none rfl
  | drop =>
      obtain ⟨-, hs⟩ := Option.ite_none_left_eq_some.mp hs
      obtain rfl := Option.some.inj hs
      exact frugal_of_none rfl

/-! ## The tasks of a node -/

/-- The bytes that the read of a task keeps. -/
def heldBytes : Task → Nat
  | .inbound _ (.calling _ c) => ((readOf c.await).map fun read => read.held.length).getD 0
  | .outbound _ _ _ s =>
      match s.stage with
      | .looping c => c.await.held.length
      | _ => 0
  | _ => 0

/-- Those it keeps for a call of this peer that holds a slot. -/
def heldFor (peer : NodeId) (t : Task) : Nat := if t.holds peer then heldBytes t else 0

/-- The read of a handled connection. -/
def FrugalHandling : Handling → Prop
  | .calling _ c => Frugal c
  | .refused _ _ => True

/-- In every run of `handle_incoming` the buffers stay within their bounds. -/
theorem handling_frugal {limiter : RateLimiter} {now : Instant} {spent : MemorySpentSet}
    {es : List UatCalleeRun.Ev} {h : Handling}
    (hrun : runFrom (UatIncoming.step policy peer behavior)
      (handleIncoming policy (policy.verifyPeer peer) limiter peer now spent).1 es = some h) :
    FrugalHandling h := by
  refine run_invariant FrugalHandling ?_ es _ h ?_ hrun
  · intro h e h' hfrugal hs
    cases h with
    | refused code record => cases hs
    | calling permit c =>
        obtain ⟨c', hc, rfl⟩ := Option.map_eq_some_iff.mp hs
        exact frugal_step hfrugal hc
  · rw [handleIncoming]
    split
    · trivial
    · split
      · exact frugal_start policy peer spent
      · trivial

/-- **Step lemma.** A dial's read stays within its bounds. -/
theorem whole_step {submit : Message} {wire : Bytes} {s s' : CallerRun} {e : UatCallerRun.Ev}
    (h : WholeStage s.stage) (hs : UatCallerRun.step submit wire s e = some s') :
    WholeStage s'.stage := by
  cases e with
  | setup r =>
      obtain ⟨o, -, ⟨-, rfl⟩ | ⟨-, err, reason, rfl⟩⟩ := UatCallerRun.step_setup hs
      · rw [UatCallerRun.Opening.opened]
        split
        · next c hloop =>
            intro read hread
            obtain ⟨-, hwrites, -⟩ := UatUnusedHook.callerLoop_start hloop
            cases hwrites.symm.trans hread
        · trivial
      · rw [UatCallerRun.Opening.failed]
        cases o.closed <;> trivial
  | call e =>
      rcases UatCallerRun.step_call hs with ⟨o, o', -, -, rfl⟩ | ⟨c, c', hstage, hc, rfl⟩
      · trivial
      · rw [hstage] at h
        exact whole_settle (step_whole h hc)
  | guardJoined =>
      obtain ⟨_, _, _, -, rfl⟩ := UatCallerRun.step_joined hs
      trivial
  | drop =>
      obtain ⟨_, _, -, rfl⟩ := UatCallerRun.step_dropped hs
      trivial
  | unwound =>
      obtain ⟨_, _, -, rfl⟩ := UatCallerRun.step_unwound hs
      trivial

/-- In every run of a dial the read stays within its bounds. -/
theorem dialed_whole {submit : Message} {wire : Bytes} {closed : Option ConnectionError}
    {es : List UatCallerRun.Ev} {s : CallerRun}
    (hrun : runFrom (UatCallerRun.step submit wire) (runCallerWith peer submit none closed) es =
      some s) : WholeStage s.stage := by
  refine run_invariant (fun s => WholeStage s.stage) (fun _ _ _ h hs => whole_step h hs) es _ s ?_
    hrun
  cases submit <;> trivial

/-- **One connection keeps one read.** -/
theorem heldBytes_le {t : Task} (h : RunsAlone policy behavior t) : heldBytes t ≤ readLimit := by
  cases t with
  | inbound peer handling =>
      obtain ⟨limiter, now, spent, es, hrun⟩ := h
      have hfrugal := handling_frugal hrun
      cases handling with
      | refused code record => exact Nat.zero_le _
      | calling permit c => exact Frugal.le hfrugal
  | outbound peer submit wire s =>
      obtain ⟨closed, es, hrun⟩ := h
      have hwhole := dialed_whole hrun
      rw [heldBytes]
      cases hstage : s.stage with
      | looping c =>
          rw [hstage] at hwhole
          show c.await.held.length ≤ readLimit
          cases hawait : c.await with
          | select read => exact length_held_le (hwhole read hawait)
          | _ => exact Nat.zero_le _
      | _ => exact Nat.zero_le _
  | _ => exact Nat.zero_le _

/-- What the calls of a peer keep, counted by call. -/
theorem sum_heldFor_le {ts : List Task} (h : ∀ t ∈ ts, RunsAlone policy behavior t)
    (peer : NodeId) :
    (ts.map (heldFor peer)).sum ≤ ts.countP (Task.holds peer) * readLimit := by
  induction ts with
  | nil => exact Nat.zero_le _
  | cons t ts ih =>
      obtain ⟨ht, hts⟩ := List.forall_mem_cons.mp h
      have hone : heldFor peer t ≤ (if t.holds peer = true then 1 else 0) * readLimit := by
        rw [heldFor]
        split
        · rw [Nat.one_mul]
          exact heldBytes_le ht
        · exact Nat.zero_le _
      rw [List.map_cons, List.sum_cons, List.countP_cons, Nat.add_mul, Nat.add_comm]
      exact Nat.add_le_add (ih hts) hone

/-- **WHAT A PEER CAN MAKE A NODE HOLD IS BOUNDED BY ITS SLOTS.**  However the connections of
    a node interleave and whatever the peers send: no connection keeps more than a length and
    a payload, and all calls of one peer together no more than that for each slot the limiter
    has for it. -/
theorem daemon_memory {limits : RateLimitConfig} {spent : MemorySpentSet} {es : List Event}
    {w : World}
    (hrun : runFrom (TaskPool.step (daemon policy behavior)) ⟨.bind limits spent, []⟩ es =
      some w) :
    (∀ t ∈ w.members, heldBytes t ≤ readLimit) ∧
    ∀ peer, (w.members.map (heldFor peer)).sum ≤
      min limits.maxConcurrentCalls.toNat limits.maxLiveFrames.toNat * readLimit := by
  have halone : ∀ t ∈ w.members, RunsAlone policy behavior t := fun t ht => alone_of_mem hrun ht
  refine ⟨fun t ht => heldBytes_le (halone t ht), fun peer => ?_⟩
  have hslots : w.members.countP (Task.holds peer) ≤ cap limits := (inFlight_eq_countP hrun peer).2
  exact (sum_heldFor_le halone peer).trans (Nat.mul_le_mul_right readLimit hslots)

end

end

section

attribute [local instance] plainText compactJson noToken

/-- A stranger opens a stream and sends three bytes of a length. -/
def threeBytes : List Event :=
  [.env .pollAccept, .spawn .accept, .act 0 (.connected stranger 0 none),
    .act 0 (.callee (.setup .opened epoch)), .act 0 (.callee (.arrive [0, 0, 0])),
    .act 0 (.callee (.poll false))]

theorem daemon_memory_threeBytes :
    ∃ w, runFrom (TaskPool.step (daemon oneRoot .stubComplete)) ⟨.bind oneAtATime .new, []⟩
        threeBytes = some w ∧ w.members.map heldBytes = [3] ∧
      (∀ t ∈ w.members, heldBytes t ≤ readLimit) ∧
      ∀ peer, (w.members.map (heldFor peer)).sum ≤
        min oneAtATime.maxConcurrentCalls.toNat oneAtATime.maxLiveFrames.toNat * readLimit :=
  ⟨_, rfl, rfl, @daemon_memory _ _ _ _ oneRoot .stubComplete oneAtATime .new threeBytes _ rfl⟩

end

end UatHeldBytes
