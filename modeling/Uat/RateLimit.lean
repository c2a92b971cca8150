import Mathlib.Data.List.Perm.Basic
import Uat.Types
import Uat.Base.StepRun
import Uat.Base.HashMap

/-! # Per-caller rate limits and their permits

    The limiter keeps, for each peer, a counter of calls in flight and the timestamps of
    recent admit attempts.  A permit holds one slot until it is released or dropped; the
    `released` flag makes the drop after a release do nothing.

    The world around the limiter is every permit that exists, who holds it, and every
    `handle_incoming` task, which keeps its permit for as long as its call runs.
    `Accounted` relates the counters to the permits; `permit_accounting` says that it
    holds in every reachable state and that a step on one peer leaves all others
    alone. -/

namespace UatRateLimit

open UatTypes HashMap StepRun

/-- A monotonic clock reading in nanoseconds. -/
abbrev Instant := Int

/-- One minute, in nanoseconds. -/
def callsPerMinuteWindow : Nat := 60 * 10 ^ 9

/-- The three caps a policy sets for each peer. -/
structure RateLimitConfig where
  maxConcurrentCalls : UInt32
  maxCallsPerMinute : UInt32
  maxLiveFrames : UInt32

/-- Which of the caps turned an attempt away. -/
inductive RateLimitExceeded where
  | concurrentCalls
  | callsPerMinute
  | liveFrames
  deriving DecidableEq, Repr

/-- What the limiter keeps of one peer: its open calls, and when it tried lately. -/
structure PeerCounters where
  inFlight : UInt32
  attempts : List Instant

/-- The counters of a peer that has not been seen before. -/
def PeerCounters.default : PeerCounters := ⟨0, []⟩

/-- The caps and the counters of every peer that has an entry. -/
structure RateLimiter where
  config : RateLimitConfig
  inner : Map NodeId PeerCounters

/-- A limiter that has seen no peer. -/
def RateLimiter.new (config : RateLimitConfig) : RateLimiter := ⟨config, ∅⟩

/-- What an admission hands out; `released` is set by the first of `release` and `drop`. -/
structure RateLimitPermit where
  peer : NodeId
  released : Bool

/-- `u32::saturating_add`. -/
def saturatingAdd (a b : UInt32) : UInt32 :=
  if a.toNat + b.toNat < 2 ^ 32 then a + b else 4294967295

/-- `u32::saturating_sub`. -/
def saturatingSub (a b : UInt32) : UInt32 := if b ≤ a then a - b else 0

/-- `now.saturating_duration_since(t)`. -/
def saturatingDurationSince (now t : Instant) : Nat := (now - t).toNat

/-- Drop attempts from the front while they are a full window old. -/
def pruneAttempts (attempts : List Instant) (now : Instant) : List Instant :=
  attempts.dropWhile fun t => decide (callsPerMinuteWindow ≤ saturatingDurationSince now t)

/-- `try_admit_at`: the per-minute cap first, then the two caps on open calls. -/
def RateLimiter.tryAdmitAt (l : RateLimiter) (peer : NodeId) (now : Instant) :
    Except RateLimitExceeded RateLimitPermit × RateLimiter :=
  let entry := (l.inner.lookup peer).getD .default
  -- Always record the attempt (including rejects).
  let entry := { entry with attempts := pruneAttempts entry.attempts now ++ [now] }
  let recorded := { l with inner := l.inner.insert peer entry }
  let attemptCount := UInt32.ofNat entry.attempts.length
  if attemptCount > l.config.maxCallsPerMinute then (.error .callsPerMinute, recorded)
  else if entry.inFlight ≥ l.config.maxConcurrentCalls then (.error .concurrentCalls, recorded)
  else if entry.inFlight ≥ l.config.maxLiveFrames then (.error .liveFrames, recorded)
  else
    let entry := { entry with inFlight := saturatingAdd entry.inFlight 1 }
    (.ok ⟨peer, false⟩, { l with inner := l.inner.insert peer entry })

/-- `release`: one slot fewer, and the entry goes once nothing is left in it. -/
def RateLimiter.release (l : RateLimiter) (peer : NodeId) : RateLimiter :=
  match l.inner.lookup peer with
  | some entry =>
      let entry := { entry with inFlight := saturatingSub entry.inFlight 1 }
      if entry.inFlight = 0 ∧ entry.attempts = [] then
        { l with inner := l.inner.erase peer }
      else { l with inner := l.inner.insert peer entry }
  | none => l

/-- `in_flight`: the open calls of a peer, none where it has no entry. -/
def RateLimiter.inFlight (l : RateLimiter) (peer : NodeId) : UInt32 :=
  ((l.inner.lookup peer).map PeerCounters.inFlight).getD 0

/-- `attempts_in_window`: the attempts that are left after pruning, which it writes back. -/
def RateLimiter.attemptsInWindow (l : RateLimiter) (peer : NodeId) (now : Instant) :
    UInt32 × RateLimiter :=
  match l.inner.lookup peer with
  | none => (0, l)
  | some entry =>
      let entry := { entry with attempts := pruneAttempts entry.attempts now }
      (UInt32.ofNat entry.attempts.length, { l with inner := l.inner.insert peer entry })

/-- `release_now`: what both `release` and `drop` do to a permit. -/
def RateLimitPermit.releaseNow (permit : RateLimitPermit) (l : RateLimiter) :
    RateLimitPermit × RateLimiter :=
  if permit.released then (permit, l)
  else ({ permit with released := true }, l.release permit.peer)

/-! ## The world: permits and the tasks that hold them -/

/-- Who holds a permit: some caller of the limiter, or a `handle_incoming` task, which is
    inside `run_callee_with` or not. -/
inductive Holder where
  | caller
  | handler (inCall : Bool)
  deriving DecidableEq

/-- A permit and who holds it. -/
structure Held where
  permit : RateLimitPermit
  holder : Holder

/-- The limiter and the permits it has handed out that nobody has dropped. -/
structure World where
  limiter : RateLimiter
  permits : List Held

/-- A new limiter, with no permit out. -/
def World.start (config : RateLimitConfig) : World := ⟨.new config, []⟩

/-- Whatever can touch the limiter: an attempt, a call within a handler, a release, a drop, a
    count of the attempts. -/
inductive Event where
  | tryAdmitAt (peer : NodeId) (now : Instant)
  | handleIncoming (peer : NodeId) (now : Instant)
  | callBegins (i : Nat)
  | callEnds (i : Nat)
  | release (i : Nat)
  | drop (i : Nat)
  | attemptsInWindow (peer : NodeId) (now : Instant)

/-- Admit a peer and hand the permit, if there is one, to `holder`. -/
def World.tryAdmit (w : World) (peer : NodeId) (now : Instant) (holder : Holder) : World :=
  match w.limiter.tryAdmitAt peer now with
  | (.ok permit, limiter) => ⟨limiter, w.permits ++ [⟨permit, holder⟩]⟩
  | (.error _, limiter) => ⟨limiter, w.permits⟩

/-- One step of the world; events name a permit by its place in the list.

    `release` consumes the permit: it runs `release_now`, and the value is dropped later,
    with other threads' steps in between.  A `handle_incoming` task never calls it; its
    permit is dropped when the task ends, unwinds or is aborted, and by then the future
    of `run_callee_with`, which the task drops first, is gone. -/
def step (w : World) : Event → Option World
  | .tryAdmitAt peer now => some (w.tryAdmit peer now .caller)
  | .handleIncoming peer now => some (w.tryAdmit peer now (.handler false))
  | .callBegins i =>
      match w.permits[i]? with
      | some ⟨permit, .handler false⟩ =>
          some { w with permits := w.permits.set i ⟨permit, .handler true⟩ }
      | _ => none
  | .callEnds i =>
      match w.permits[i]? with
      | some ⟨permit, .handler true⟩ =>
          some { w with permits := w.permits.set i ⟨permit, .handler false⟩ }
      | _ => none
  | .release i =>
      match w.permits[i]? with
      | some ⟨permit, .caller⟩ =>
          let r := permit.releaseNow w.limiter
          some ⟨r.2, w.permits.set i ⟨r.1, .caller⟩⟩
      | _ => none
  | .drop i =>
      match w.permits[i]? with
      | some ⟨permit, holder⟩ =>
          if holder = .handler true then none
          else some ⟨(permit.releaseNow w.limiter).2, w.permits.eraseIdx i⟩
      | none => none
  | .attemptsInWindow peer now =>
      some { w with limiter := (w.limiter.attemptsInWindow peer now).2 }

/-- **What a step does**, its guards included. -/
inductive Stepped (w : World) : Event → World → Prop where
  | tryAdmitAt (peer : NodeId) (now : Instant) :
      Stepped w (.tryAdmitAt peer now) (w.tryAdmit peer now .caller)
  | handleIncoming (peer : NodeId) (now : Instant) :
      Stepped w (.handleIncoming peer now) (w.tryAdmit peer now (.handler false))
  | callBegins {i : Nat} {permit : RateLimitPermit}
      (held : w.permits[i]? = some ⟨permit, .handler false⟩) :
      Stepped w (.callBegins i) { w with permits := w.permits.set i ⟨permit, .handler true⟩ }
  | callEnds {i : Nat} {permit : RateLimitPermit}
      (held : w.permits[i]? = some ⟨permit, .handler true⟩) :
      Stepped w (.callEnds i) { w with permits := w.permits.set i ⟨permit, .handler false⟩ }
  | release {i : Nat} {permit : RateLimitPermit} (held : w.permits[i]? = some ⟨permit, .caller⟩) :
      Stepped w (.release i) ⟨(permit.releaseNow w.limiter).2,
        w.permits.set i ⟨(permit.releaseNow w.limiter).1, .caller⟩⟩
  | drop {i : Nat} {permit : RateLimitPermit} {holder : Holder}
      (held : w.permits[i]? = some ⟨permit, holder⟩) (idle : holder ≠ .handler true) :
      Stepped w (.drop i) ⟨(permit.releaseNow w.limiter).2, w.permits.eraseIdx i⟩
  | attemptsInWindow (peer : NodeId) (now : Instant) :
      Stepped w (.attemptsInWindow peer now)
        { w with limiter := (w.limiter.attemptsInWindow peer now).2 }

/-- A step is one of the cases of `Stepped`, with the guard it passed. -/
theorem stepped_of_step {w w' : World} {e : Event} (he : step w e = some w') : Stepped w e w' := by
  cases e with
  | tryAdmitAt peer now =>
      obtain rfl := Option.some.inj he
      exact .tryAdmitAt peer now
  | handleIncoming peer now =>
      obtain rfl := Option.some.inj he
      exact .handleIncoming peer now
  | callBegins i =>
      simp only [step] at he
      split at he
      · next held =>
          obtain rfl := Option.some.inj he
          exact .callBegins held
      · cases he
  | callEnds i =>
      simp only [step] at he
      split at he
      · next held =>
          obtain rfl := Option.some.inj he
          exact .callEnds held
      · cases he
  | release i =>
      simp only [step] at he
      split at he
      · next held =>
          obtain rfl := Option.some.inj he
          exact .release held
      · cases he
  | drop i =>
      simp only [step] at he
      split at he
      · next held =>
          obtain ⟨idle, he⟩ := Option.ite_none_left_eq_some.mp he
          obtain rfl := Option.some.inj he
          exact .drop held idle
      · cases he
  | attemptsInWindow peer now =>
      obtain rfl := Option.some.inj he
      exact .attemptsInWindow peer now

/-- The permit holds a slot of `p`: issued to `p`, not yet released or dropped. -/
def holdsSlot (p : NodeId) (h : Held) : Bool := decide (h.permit.peer = p) && !h.permit.released

/-- A `run_callee_with` call of `p` is in progress. -/
def inCall (p : NodeId) (h : Held) : Bool :=
  decide (h.permit.peer = p) && decide (h.holder = .handler true)

/-- The slots of a peer that its live permits stand for. -/
def outstanding (w : World) (p : NodeId) : Nat := w.permits.countP (holdsSlot p)

/-- The calls of a peer that are inside `run_callee_with`. -/
def callsInProgress (w : World) (p : NodeId) : Nat := w.permits.countP (inCall p)

/-- The smaller of the two caps on open calls. -/
def cap (config : RateLimitConfig) : Nat :=
  min config.maxConcurrentCalls.toNat config.maxLiveFrames.toNat

/-- The peer a step is about. -/
def Event.peer (w : World) : Event → Option NodeId
  | .tryAdmitAt peer _ | .handleIncoming peer _ | .attemptsInWindow peer _ => some peer
  | .callBegins i | .callEnds i | .release i | .drop i =>
      (w.permits[i]?).map fun h => h.permit.peer

/-! ## Machine arithmetic -/

/-- Below the top, `saturating_add` is addition. -/
theorem saturatingAdd_exact {a : UInt32} (h : a.toNat + 1 < 2 ^ 32) :
    (saturatingAdd a 1).toNat = a.toNat + 1 := by
  have hone : (1 : UInt32).toNat = 1 := rfl
  rw [saturatingAdd, hone, if_pos h, UInt32.toNat_add, hone]
  exact Nat.mod_eq_of_lt h

/-- Above zero, `saturating_sub` is subtraction. -/
theorem saturatingSub_exact {a : UInt32} (h : 1 ≤ a.toNat) :
    (saturatingSub a 1).toNat = a.toNat - 1 := by
  have hle : (1 : UInt32) ≤ a := UInt32.le_iff_toNat_le.mpr h
  rw [saturatingSub, if_pos hle, UInt32.toNat_sub_of_le _ _ hle]
  rfl

/-! ## What the operations do to the counters -/

variable {l : RateLimiter} {p q : NodeId} {now : Instant}

/-- Writing one peer's entry changes the count of that peer only. -/
theorem inFlight_insert (m : Map NodeId PeerCounters) (c : PeerCounters) (p q : NodeId)
    (config : RateLimitConfig) :
    (RateLimiter.mk config (m.insert p c)).inFlight q =
      if q = p then c.inFlight else (RateLimiter.mk config m).inFlight q := by
  rw [RateLimiter.inFlight]
  rw [lookup_insert_eq]
  split <;> rfl

/-- Removing one peer's entry sets the count of that peer to zero. -/
theorem inFlight_erase (m : Map NodeId PeerCounters) (p q : NodeId) (config : RateLimitConfig) :
    (RateLimiter.mk config (m.erase p)).inFlight q =
      if q = p then 0 else (RateLimiter.mk config m).inFlight q := by
  rw [RateLimiter.inFlight]
  rw [lookup_erase_eq]
  split <;> rfl

/-- A counter that is not zero has an entry. -/
theorem lookup_of_inFlight (h : 0 < (l.inFlight p).toNat) : (l.inner.lookup p).isSome := by
  cases hl : l.inner.lookup p with
  | some c => rfl
  | none =>
      rw [RateLimiter.inFlight, hl] at h
      exact absurd h (by decide)

/-- An admission is refused, and only the attempt is recorded, or it finds both caps
    above the counter and raises it by one. -/
theorem tryAdmitAt_cases (l : RateLimiter) (p : NodeId) (now : Instant) :
    ∃ attempts,
      (∃ e, l.tryAdmitAt p now =
        (.error e, ⟨l.config, l.inner.insert p ⟨l.inFlight p, attempts⟩⟩)) ∨
      (l.inFlight p < l.config.maxConcurrentCalls ∧ l.inFlight p < l.config.maxLiveFrames ∧
        l.tryAdmitAt p now =
          (.ok ⟨p, false⟩,
            ⟨l.config, l.inner.insert p ⟨saturatingAdd (l.inFlight p) 1, attempts⟩⟩)) := by
  have hentry : ((l.inner.lookup p).getD .default).inFlight = l.inFlight p := by
    rw [RateLimiter.inFlight]
    cases l.inner.lookup p <;> rfl
  refine ⟨pruneAttempts ((l.inner.lookup p).getD .default).attempts now ++ [now], ?_⟩
  rw [RateLimiter.tryAdmitAt]
  simp only [hentry]
  split
  · exact Or.inl ⟨_, rfl⟩
  split
  · exact Or.inl ⟨_, rfl⟩
  · next hc =>
      split
      · exact Or.inl ⟨_, rfl⟩
      · next hl =>
          exact Or.inr ⟨UInt32.not_le.mp hc, UInt32.not_le.mp hl, rfl⟩

/-- A release lowers the count of its own peer and of no other. -/
theorem release_inFlight (l : RateLimiter) (p q : NodeId) :
    (l.release p).inFlight q =
      if q = p then saturatingSub (l.inFlight p) 1 else l.inFlight q := by
  rw [RateLimiter.release]
  cases hl : l.inner.lookup p with
  | none =>
      have hzero : l.inFlight p = 0 := by rw [RateLimiter.inFlight, hl]; rfl
      by_cases hq : q = p
      · subst hq
        rw [if_pos rfl, hzero]
        rfl
      · rw [if_neg hq]
  | some c =>
      have hc : l.inFlight p = c.inFlight := by rw [RateLimiter.inFlight, hl]; rfl
      dsimp only
      rw [hc]
      split
      · next hempty =>
          rw [inFlight_erase]
          by_cases hq : q = p
          · rw [if_pos hq, if_pos hq, hempty.1]
          · rw [if_neg hq, if_neg hq]
      · exact inFlight_insert l.inner _ p q l.config

/-- A release leaves the entries of the other peers alone. -/
theorem release_frame (l : RateLimiter) (hq : q ≠ p) :
    (l.release p).inner.lookup q = l.inner.lookup q := by
  rw [RateLimiter.release]
  cases hl : l.inner.lookup p with
  | none => rfl
  | some c =>
      dsimp only
      split
      · exact AList.lookup_erase_ne hq
      · exact AList.lookup_insert_ne hq

theorem release_config (l : RateLimiter) (p : NodeId) : (l.release p).config = l.config := by
  rw [RateLimiter.release]
  cases hl : l.inner.lookup p with
  | none => rfl
  | some c =>
      dsimp only
      split <;> rfl

/-- Counting the attempts changes no count of open calls. -/
theorem attemptsInWindow_inFlight (l : RateLimiter) (p q : NodeId) (now : Instant) :
    ((l.attemptsInWindow p now).2).inFlight q = l.inFlight q := by
  rw [RateLimiter.attemptsInWindow]
  cases hl : l.inner.lookup p with
  | none => rfl
  | some c =>
      have hc : l.inFlight p = c.inFlight := by rw [RateLimiter.inFlight, hl]; rfl
      refine (inFlight_insert l.inner _ p q l.config).trans ?_
      by_cases hq : q = p
      · subst hq
        rw [if_pos rfl, hc]
      · rw [if_neg hq]

/-- Counting the attempts leaves the entries of the other peers alone. -/
theorem attemptsInWindow_frame (l : RateLimiter) (now : Instant) (hq : q ≠ p) :
    (l.attemptsInWindow p now).2.inner.lookup q = l.inner.lookup q := by
  rw [RateLimiter.attemptsInWindow]
  cases hl : l.inner.lookup p with
  | none => rfl
  | some c => exact AList.lookup_insert_ne hq

theorem attemptsInWindow_config (l : RateLimiter) (p : NodeId) (now : Instant) :
    (l.attemptsInWindow p now).2.config = l.config := by
  rw [RateLimiter.attemptsInWindow]
  cases hl : l.inner.lookup p <;> rfl

/-! ## Counting permits -/

section

variable {α : Type} {xs : List α} {x y : α} {i : Nat}

/-- Replacing an element moves a count by the old element and the new one. -/
theorem countP_set_add (f : α → Bool) (h : xs[i]? = some x) :
    (xs.set i y).countP f + (if f x = true then 1 else 0) =
      xs.countP f + (if f y = true then 1 else 0) := by
  obtain ⟨hi, rfl⟩ := List.getElem?_eq_some_iff.mp h
  rw [List.countP_set hi]
  by_cases hx : f xs[i] = true
  · have hpos : 0 < xs.countP f := List.countP_pos_iff.mpr ⟨xs[i], List.getElem_mem hi, hx⟩
    rw [if_pos hx]
    omega
  · rw [if_neg hx]
    omega

/-- Removing an element lowers a count by that element. -/
theorem countP_eraseIdx_add (f : α → Bool) (h : xs[i]? = some x) :
    (xs.eraseIdx i).countP f + (if f x = true then 1 else 0) = xs.countP f := by
  obtain ⟨hi, rfl⟩ := List.getElem?_eq_some_iff.mp h
  rw [← List.countP_cons]
  exact (List.getElem_cons_eraseIdx_perm hi).countP_eq f

end

/-! ## The invariant -/

/-- The counters count the permits: for each peer, the slots its permits hold; a task's
    permit holds its slot. -/
structure Accounted (config : RateLimitConfig) (w : World) : Prop where
  config_eq : w.limiter.config = config
  counted : ∀ p, (w.limiter.inFlight p).toNat = outstanding w p
  capped : ∀ p, outstanding w p ≤ cap config
  handlers : ∀ h ∈ w.permits, ∀ b, h.holder = .handler b → h.permit.released = false

/-- The cap is a 32-bit number, so a count below it does not saturate. -/
theorem cap_lt (config : RateLimitConfig) : cap config < 2 ^ 32 := by
  have := config.maxConcurrentCalls.toNat_lt
  rw [cap]
  omega

/-- The accounts are right before anybody has tried. -/
theorem accounted_start (config : RateLimitConfig) : Accounted config (.start config) where
  config_eq := rfl
  counted _ := rfl
  capped _ := Nat.zero_le _
  handlers _ hh := absurd hh List.not_mem_nil

variable {config : RateLimitConfig} {w w' : World}

/-- An admission that succeeds finds room below both caps, so the sum does not saturate. -/
theorem room_below_cap (h : Accounted config w) {p : NodeId}
    (hc : w.limiter.inFlight p < w.limiter.config.maxConcurrentCalls)
    (hl : w.limiter.inFlight p < w.limiter.config.maxLiveFrames) :
    outstanding w p < cap config ∧ (w.limiter.inFlight p).toNat + 1 < 2 ^ 32 := by
  rw [h.config_eq] at hc hl
  have hc' := UInt32.lt_iff_toNat_lt.mp hc
  have hl' := UInt32.lt_iff_toNat_lt.mp hl
  have hroom : outstanding w p < cap config := by
    rw [← h.counted p]
    exact lt_min hc' hl'
  have := cap_lt config
  have := h.counted p
  exact ⟨hroom, by omega⟩

/-- A permit that holds its slot is counted, so the difference does not saturate. -/
theorem counted_of_held (h : Accounted config w) {x : Held} (hx : x ∈ w.permits)
    (hheld : x.permit.released = false) : 1 ≤ (w.limiter.inFlight x.permit.peer).toNat := by
  rw [h.counted]
  refine List.countP_pos_iff.mpr ⟨x, hx, ?_⟩
  rw [holdsSlot, hheld]
  simp

/-- The counts depend on the permits alone. -/
theorem outstanding_congr (h : w'.permits = w.permits) (p : NodeId) :
    outstanding w' p = outstanding w p := by
  rw [outstanding, h, outstanding]

/-- Counters that did not move stay in account. -/
theorem accounted_quiet (h : Accounted config w) (hpermits : w'.permits = w.permits)
    (hconfig : w'.limiter.config = w.limiter.config)
    (hcount : ∀ q, w'.limiter.inFlight q = w.limiter.inFlight q) : Accounted config w' := by
  refine ⟨hconfig.trans h.config_eq, fun q => ?_, fun q => ?_, ?_⟩
  · rw [hcount, outstanding_congr hpermits]
    exact h.counted q
  · rw [outstanding_congr hpermits]
    exact h.capped q
  · rw [hpermits]
    exact h.handlers

/-- An attempt keeps the accounts, whichever way it is decided. -/
theorem accounted_tryAdmit (h : Accounted config w) (p : NodeId) (now : Instant)
    (holder : Holder) : Accounted config (w.tryAdmit p now holder) := by
  obtain ⟨attempts, ⟨e, hno⟩ | ⟨hc, hl, hyes⟩⟩ := tryAdmitAt_cases w.limiter p now
  · rw [World.tryAdmit, hno]
    refine accounted_quiet h rfl rfl fun q => ?_
    rw [inFlight_insert]
    split
    · next hq => rw [hq]
    · rfl
  · obtain ⟨hroom, hsum⟩ := room_below_cap h hc hl
    rw [World.tryAdmit, hyes]
    -- The admitted permit takes one slot of `p`, and none of the other peers.
    have hcount : ∀ q, outstanding ⟨⟨w.limiter.config,
        w.limiter.inner.insert p ⟨saturatingAdd (w.limiter.inFlight p) 1, attempts⟩⟩,
        w.permits ++ [⟨⟨p, false⟩, holder⟩]⟩ q = outstanding w q + if p = q then 1 else 0 := by
      intro q
      rw [outstanding, List.countP_append, List.countP_singleton]
      simp [holdsSlot, outstanding]
    refine ⟨h.config_eq, fun q => ?_, fun q => ?_, ?_⟩
    · rw [hcount, inFlight_insert]
      by_cases hq : q = p
      · subst hq
        rw [if_pos rfl, if_pos rfl, saturatingAdd_exact hsum, h.counted]
      · rw [if_neg hq, if_neg (Ne.symm hq)]
        exact h.counted q
    · rw [hcount]
      have := h.capped q
      by_cases hq : p = q
      · subst hq
        rw [if_pos rfl]
        omega
      · rw [if_neg hq]
        omega
    · intro x hx b hb
      rcases List.mem_append.mp hx with hx | hx
      · exact h.handlers x hx b hb
      · rw [List.mem_singleton.mp hx]

/-- `release_now` gives back exactly the slot the permit holds. -/
theorem releaseNow_inFlight (h : Accounted config w) {permit : RateLimitPermit}
    {holder : Holder} (hx : ⟨permit, holder⟩ ∈ w.permits) (q : NodeId) :
    ((permit.releaseNow w.limiter).2.inFlight q).toNat +
        (if holdsSlot q ⟨permit, holder⟩ = true then 1 else 0) =
      w.permits.countP (holdsSlot q) := by
  have hcounted : (w.limiter.inFlight q).toNat = w.permits.countP (holdsSlot q) := h.counted q
  rw [RateLimitPermit.releaseNow]
  cases hr : permit.released with
  | true =>
      rw [holdsSlot, hr, if_pos rfl, ← hcounted]
      simp
  | false =>
      have hheld := counted_of_held h hx hr
      rw [holdsSlot, hr, if_neg Bool.false_ne_true, release_inFlight, ← hcounted]
      by_cases hq : q = permit.peer
      · subst hq
        rw [if_pos rfl, saturatingSub_exact hheld, if_pos (by simp)]
        exact Nat.sub_add_cancel hheld
      · rw [if_neg hq, if_neg (by simp [Ne.symm hq])]
        rfl

theorem releaseNow_config (permit : RateLimitPermit) (l : RateLimiter) :
    (permit.releaseNow l).2.config = l.config := by
  rw [RateLimitPermit.releaseNow]
  split
  · rfl
  · exact release_config l permit.peer

/-- A permit that was released once is marked so. -/
theorem releaseNow_released (permit : RateLimitPermit) (l : RateLimiter) :
    (permit.releaseNow l).1.released = true := by
  rw [RateLimitPermit.releaseNow]
  split
  · next h => exact h
  · rfl

/-- Putting another mark on a permit that holds the same slots changes no count. -/
theorem accounted_mark (h : Accounted config w) {i : Nat} {x y : Held}
    (hi : w.permits[i]? = some x) (hpermit : y.permit = x.permit)
    (hheld : ∀ b, y.holder = .handler b → x.permit.released = false) :
    Accounted config { w with permits := w.permits.set i y } := by
  -- The count sees a permit's peer and its flag, not who holds it.
  have hcount : ∀ q, outstanding { w with permits := w.permits.set i y } q = outstanding w q := by
    intro q
    have := countP_set_add (y := y) (holdsSlot q) hi
    have hsame : holdsSlot q y = holdsSlot q x := by rw [holdsSlot, hpermit, holdsSlot]
    rw [hsame] at this
    exact Nat.add_right_cancel this
  refine ⟨h.config_eq, fun q => ?_, fun q => ?_, ?_⟩
  · rw [hcount]
    exact h.counted q
  · rw [hcount]
    exact h.capped q
  · intro z hz b hb
    rcases List.mem_or_eq_of_mem_set hz with hz | rfl
    · exact h.handlers z hz b hb
    · rw [hpermit]
      exact hheld b hb

/-- An early release keeps the accounts: the permit stays, its slot goes. -/
theorem accounted_release (h : Accounted config w) {i : Nat} {permit : RateLimitPermit}
    (hi : w.permits[i]? = some ⟨permit, .caller⟩) :
    Accounted config ⟨(permit.releaseNow w.limiter).2,
      w.permits.set i ⟨(permit.releaseNow w.limiter).1, .caller⟩⟩ := by
  have hx := List.mem_of_getElem? hi
  -- Once released the permit holds no slot of anyone, so a second release is idle.
  have hdone : ∀ q, holdsSlot q ⟨(permit.releaseNow w.limiter).1, .caller⟩ = false := by
    intro q
    rw [holdsSlot, releaseNow_released]
    exact Bool.and_false _
  have hcount : ∀ q, (w.permits.set i ⟨(permit.releaseNow w.limiter).1, .caller⟩).countP
      (holdsSlot q) = ((permit.releaseNow w.limiter).2.inFlight q).toNat := by
    intro q
    have hset := countP_set_add (y := ⟨(permit.releaseNow w.limiter).1, .caller⟩) (holdsSlot q) hi
    have hback := releaseNow_inFlight h hx q
    rw [hdone q, if_neg Bool.false_ne_true] at hset
    omega
  refine ⟨?_, fun q => ?_, fun q => ?_, ?_⟩
  · rw [releaseNow_config]
    exact h.config_eq
  · show _ = List.countP _ _
    rw [hcount]
  · have hback := releaseNow_inFlight h hx q
    have hcap : w.permits.countP (holdsSlot q) ≤ cap config := h.capped q
    show List.countP _ _ ≤ _
    rw [hcount]
    omega
  · intro z hz b hb
    rcases List.mem_or_eq_of_mem_set hz with hz | rfl
    · exact h.handlers z hz b hb
    · cases hb

/-- A drop keeps the accounts, whether the permit had been released or not. -/
theorem accounted_drop (h : Accounted config w) {i : Nat} {permit : RateLimitPermit}
    {holder : Holder} (hi : w.permits[i]? = some ⟨permit, holder⟩) :
    Accounted config ⟨(permit.releaseNow w.limiter).2, w.permits.eraseIdx i⟩ := by
  have hx := List.mem_of_getElem? hi
  have hcount : ∀ q, (w.permits.eraseIdx i).countP (holdsSlot q) =
      ((permit.releaseNow w.limiter).2.inFlight q).toNat := by
    intro q
    have herase := countP_eraseIdx_add (holdsSlot q) hi
    have hback := releaseNow_inFlight h hx q
    omega
  refine ⟨?_, fun q => ?_, fun q => ?_, ?_⟩
  · rw [releaseNow_config]
    exact h.config_eq
  · show _ = List.countP _ _
    rw [hcount]
  · have hback := releaseNow_inFlight h hx q
    have hcap : w.permits.countP (holdsSlot q) ≤ cap config := h.capped q
    show List.countP _ _ ≤ _
    rw [hcount]
    omega
  · intro z hz b hb
    exact h.handlers z (List.mem_of_mem_eraseIdx hz) b hb

/-- **Step lemma.** Every step keeps the counters in account. -/
theorem accounted_step (e : Event) (h : Accounted config w) (he : step w e = some w') :
    Accounted config w' := by
  cases stepped_of_step he with
  | tryAdmitAt peer now => exact accounted_tryAdmit h peer now .caller
  | handleIncoming peer now => exact accounted_tryAdmit h peer now (.handler false)
  | callBegins held =>
      exact accounted_mark h held rfl
        fun _ _ => h.handlers _ (List.mem_of_getElem? held) false rfl
  | callEnds held =>
      exact accounted_mark h held rfl
        fun _ _ => h.handlers _ (List.mem_of_getElem? held) true rfl
  | release held => exact accounted_release h held
  | drop held _ => exact accounted_drop h held
  | attemptsInWindow peer now =>
      exact accounted_quiet h rfl (attemptsInWindow_config _ _ _)
        fun q => attemptsInWindow_inFlight _ _ _ _

/-- Calls in progress are at most the slots held. -/
theorem callsInProgress_le (h : Accounted config w) (p : NodeId) :
    callsInProgress w p ≤ outstanding w p := by
  refine List.countP_mono_left fun x hx hcall => ?_
  rw [inCall, Bool.and_eq_true, decide_eq_true_eq, decide_eq_true_eq] at hcall
  rw [holdsSlot, h.handlers x hx true hcall.2, hcall.1]
  simp

/-- An attempt of one peer leaves the entries of the others alone. -/
theorem tryAdmit_frame (w : World) {p q : NodeId} (now : Instant) (holder : Holder) (hne : q ≠ p) :
    (w.tryAdmit p now holder).limiter.inner.lookup q = w.limiter.inner.lookup q := by
  obtain ⟨attempts, ⟨e, hno⟩ | ⟨-, -, hyes⟩⟩ := tryAdmitAt_cases w.limiter p now
  · rw [World.tryAdmit, hno]
    exact AList.lookup_insert_ne hne
  · rw [World.tryAdmit, hyes]
    exact AList.lookup_insert_ne hne

/-- A permit leaves the entries of all peers but its own alone. -/
theorem releaseNow_frame (l : RateLimiter) {permit : RateLimitPermit} {q : NodeId}
    (hne : q ≠ permit.peer) : (permit.releaseNow l).2.inner.lookup q = l.inner.lookup q := by
  rw [RateLimitPermit.releaseNow]
  split
  · rfl
  · exact release_frame l hne

/-- **Frame.** A step leaves the entries of all other peers alone. -/
theorem step_frame {e : Event} (he : step w e = some w') {q : NodeId}
    (hq : e.peer w ≠ some q) : w'.limiter.inner.lookup q = w.limiter.inner.lookup q := by
  -- the peer of an event that names a permit is the one the permit was issued to
  have hheld : ∀ {i : Nat} {x : Held}, w.permits[i]? = some x →
      (w.permits[i]?).map (fun h => h.permit.peer) ≠ some q → q ≠ x.permit.peer := by
    intro i x hi hne heq
    rw [hi] at hne
    exact hne (congrArg some heq.symm)
  cases stepped_of_step he with
  | tryAdmitAt peer now => exact tryAdmit_frame w now _ fun heq => hq (congrArg some heq.symm)
  | handleIncoming peer now => exact tryAdmit_frame w now _ fun heq => hq (congrArg some heq.symm)
  | callBegins _ | callEnds _ => rfl
  | release held => exact releaseNow_frame w.limiter (hheld held hq)
  | drop held _ => exact releaseNow_frame w.limiter (hheld held hq)
  | attemptsInWindow peer now =>
      exact attemptsInWindow_frame w.limiter now fun heq => hq (congrArg some heq.symm)

/-- What the limiter promises in a reachable state. -/
structure PermitsSound (config : RateLimitConfig) (w : World) : Prop where
  /-- the counter of a peer is the number of its permits not yet released or dropped -/
  counted : ∀ p, (w.limiter.inFlight p).toNat = outstanding w p
  /-- which never exceeds the smaller cap, -/
  capped : ∀ p, outstanding w p ≤ cap config
  /-- and neither do the peer's calls -/
  callsCapped : ∀ p, callsInProgress w p ≤ cap config
  /-- a peer with an outstanding permit has an entry -/
  present : ∀ p, 0 < outstanding w p → (w.limiter.inner.lookup p).isSome
  /-- an admission that succeeds does not saturate its sum -/
  addExact : ∀ p now permit, (w.limiter.tryAdmitAt p now).1 = .ok permit →
    (w.limiter.inFlight p).toNat + 1 < 2 ^ 32
  /-- a permit that gives its slot back does not saturate its difference -/
  subExact : ∀ h ∈ w.permits, h.permit.released = false →
    1 ≤ (w.limiter.inFlight h.permit.peer).toNat
  /-- a step about one peer leaves every other peer's counters alone -/
  frame : ∀ e w', step w e = some w' → ∀ q, e.peer w ≠ some q →
    w'.limiter.inner.lookup q = w.limiter.inner.lookup q

/-- **PERMIT ACCOUNTING.**  In every state that any interleaving of admissions, releases,
    drops, window queries and calls reaches, for every configuration and any clocks. -/
theorem permit_accounting {es : List Event} (hrun : runFrom step (.start config) es = some w) :
    PermitsSound config w := by
  have h : Accounted config w :=
    run_invariant (Accounted config) (fun _ e _ hw he => accounted_step e hw he) es _ w
      (accounted_start config) hrun
  refine ⟨h.counted, h.capped, fun p => ?_, fun p hp => ?_, fun p now permit hok => ?_,
    fun x hx hr => counted_of_held h hx hr, fun e w' he q hq => step_frame he hq⟩
  · exact le_trans (callsInProgress_le h p) (h.capped p)
  · exact lookup_of_inFlight (by rw [h.counted p]; exact hp)
  · obtain ⟨attempts, ⟨e, hno⟩ | ⟨hc, hl, -⟩⟩ := tryAdmitAt_cases w.limiter p now
    · rw [hno] at hok
      cases hok
    · exact (room_below_cap h hc hl).2

/-- Caps of two open calls and two attempts a minute. -/
def tightTwo : RateLimitConfig := ⟨2, 2, 2⟩

def dialer : NodeId := ⟨List.replicate 32 3, rfl⟩

/-- Two permits, one in a call and one released early, and a third attempt refused. -/
def twoPermits : List Event :=
  [.handleIncoming dialer 0, .tryAdmitAt dialer 1, .callBegins 0, .tryAdmitAt dialer 2,
    .release 1, .drop 1, .callEnds 0, .attemptsInWindow dialer 3]

theorem permit_accounting_twoPermits :
    ∃ w, runFrom step (.start tightTwo) twoPermits = some w ∧ outstanding w dialer = 1 ∧
      PermitsSound tightTwo w :=
  ⟨_, rfl, rfl, @permit_accounting tightTwo _ twoPermits rfl⟩

end UatRateLimit
