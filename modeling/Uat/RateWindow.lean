import Mathlib.Data.List.TakeWhile
import Uat.RateLimit
import Uat.Base.Window

/-! # The sliding window beside a ledger that never forgets

    The limiter prunes each peer's attempts at the front, removes a peer's entry when the
    last permit goes and nothing is left in it, and makes a new entry at the next attempt.
    The ledger keeps every event and every permit, forgets nothing, and decides by counting
    the whole history.

    * **`nextStored`** — what one event does to the attempts stored for a peer.
    * **`Kept`** — the stored attempts are the end of the peer's history, and what came
      before them is old for good.
    * **`Recorded`** — the relation between the limiter's world and the ledger.
    * **`sliding_window`** — as long as the clock does not go back, both give the same
      answers, and no 60 s window holds more admitted calls than the configuration says. -/

namespace UatRateWindow

open UatTypes UatRateLimit HashMap StepRun Window

/-! ## The history -/

/-- The clock reading an operation is given. -/
def reading : Event → Option Instant
  | .tryAdmitAt _ now | .handleIncoming _ now | .attemptsInWindow _ now => some now
  | .callBegins _ | .callEnds _ | .release _ | .drop _ => none

/-- The admit attempt an event makes. -/
def attempt : Event → Option (NodeId × Instant)
  | .tryAdmitAt peer now | .handleIncoming peer now => some (peer, now)
  | .attemptsInWindow _ _ | .callBegins _ | .callEnds _ | .release _ | .drop _ => none

/-- All attempts of `p`, admitted or rejected. -/
def attemptsOf (p : NodeId) (es : List Event) : List Instant :=
  es.filterMap fun e => (attempt e).bind fun a => if a.1 = p then some a.2 else none

abbrev window : Instant := callsPerMinuteWindow

/-- How many attempts of `p` were made strictly less than 60 s before `now`. -/
def recentAttempts (p : NodeId) (es : List Event) (now : Instant) : Nat :=
  (attemptsOf p es).countP (recent window now)

/-- The clock has not gone back. -/
def Clocked (past : List Event) (e : Event) : Prop :=
  ∀ now ∈ reading e, ∀ e' ∈ past, ∀ t ∈ reading e', t ≤ now

/-- Fewer than `2 ^ 32` attempts of one peer fall in the window that ends now. -/
def Uncrowded (past : List Event) (e : Event) : Prop :=
  ∀ a ∈ attempt e, recentAttempts a.1 past a.2 + 1 < 2 ^ 32

/-- What is asked of an event: an honest clock, and no crowd that overflows the count. -/
def Lawful (past : List Event) (e : Event) : Prop := Clocked past e ∧ Uncrowded past e

instance (past : List Event) (e : Event) : Decidable (Clocked past e) :=
  inferInstanceAs (Decidable (∀ now ∈ reading e, ∀ e' ∈ past, ∀ t ∈ reading e', t ≤ now))

instance (past : List Event) (e : Event) : Decidable (Uncrowded past e) :=
  inferInstanceAs (Decidable (∀ a ∈ attempt e, recentAttempts a.1 past a.2 + 1 < 2 ^ 32))

instance (past : List Event) (e : Event) : Decidable (Lawful past e) :=
  inferInstanceAs (Decidable (_ ∧ _))

/-- One more event adds its attempt to the end. -/
theorem attemptsOf_snoc (p : NodeId) (past : List Event) (e : Event) :
    attemptsOf p (past ++ [e]) = attemptsOf p past ++ attemptsOf p [e] :=
  List.filterMap_append

/-- The attempts of a peer are those its events made. -/
theorem mem_attemptsOf {p : NodeId} {es : List Event} {t : Instant} :
    t ∈ attemptsOf p es ↔ ∃ e ∈ es, attempt e = some (p, t) := by
  rw [attemptsOf, List.mem_filterMap]
  refine exists_congr fun e => and_congr_right fun _ => ?_
  rw [Option.bind_eq_some_iff]
  constructor
  · rintro ⟨⟨q, t'⟩, he, hq⟩
    obtain ⟨hpq, ht⟩ := Option.ite_none_right_eq_some.mp hq
    obtain rfl := Option.some.inj ht
    rw [he, ← hpq]
  · intro he
    exact ⟨(p, t), he, if_pos rfl⟩

/-- An attempt is made at its reading. -/
theorem reading_of_attempt {e : Event} {p : NodeId} {t : Instant} (h : attempt e = some (p, t)) :
    reading e = some t := by
  cases e with
  | tryAdmitAt peer now | handleIncoming peer now =>
      obtain ⟨-, rfl⟩ := Prod.mk.inj (Option.some.inj h)
      rfl
  | _ => cases h

/-- An attempt is its own peer's, and nobody else's. -/
theorem attemptsOf_attempt {e : Event} {p : NodeId} {now : Instant}
    (h : attempt e = some (p, now)) (q : NodeId) :
    attemptsOf q [e] = if p = q then [now] else [] := by
  rw [attemptsOf, List.filterMap_cons, h]
  by_cases hq : p = q
  · subst hq
    simp
  · simp [hq]

/-- An event that is no attempt adds none. -/
theorem attemptsOf_silent {e : Event} (h : attempt e = none) (q : NodeId) :
    attemptsOf q [e] = [] := by
  rw [attemptsOf, List.filterMap_cons, h]
  rfl

/-- Under the law, the attempts of a peer are in order and none is ahead of the clock. -/
theorem attemptsOf_le {past : List Event} {e : Event} (hclock : Clocked past e) {p : NodeId}
    {now t : Instant} (hnow : now ∈ reading e) (ht : t ∈ attemptsOf p past) : t ≤ now := by
  obtain ⟨e', he', hattempt⟩ := mem_attemptsOf.mp ht
  exact hclock now hnow e' he' t (reading_of_attempt hattempt)

/-! ## The ledger -/

/-- Everything that happened, and every permit. -/
structure Ledger where
  config : RateLimitConfig
  past : List Event
  permits : List Held

/-- A ledger of nothing. -/
def Ledger.start (config : RateLimitConfig) : Ledger := ⟨config, [], []⟩

/-- The slots of a peer that its permits stand for. -/
def Ledger.outstanding (l : Ledger) (p : NodeId) : Nat := l.permits.countP (holdsSlot p)

/-- The decision on an attempt, by the definition of the three caps. -/
def Ledger.verdict (l : Ledger) (p : NodeId) (now : Instant) :
    Except RateLimitExceeded RateLimitPermit :=
  if l.config.maxCallsPerMinute.toNat < recentAttempts p l.past now + 1 then
    .error .callsPerMinute
  else if l.config.maxConcurrentCalls.toNat ≤ l.outstanding p then .error .concurrentCalls
  else if l.config.maxLiveFrames.toNat ≤ l.outstanding p then .error .liveFrames
  else .ok ⟨p, false⟩

/-- Give the permit, if there is one, to `holder`. -/
def hand (permits : List Held) (holder : Holder) :
    Except RateLimitExceeded RateLimitPermit → List Held
  | .ok permit => permits ++ [⟨permit, holder⟩]
  | .error _ => permits

/-- The permits after an event. -/
def Ledger.permitsAfter (l : Ledger) : Event → Option (List Held)
  | .tryAdmitAt p now => some (hand l.permits .caller (l.verdict p now))
  | .handleIncoming p now => some (hand l.permits (.handler false) (l.verdict p now))
  | .callBegins i =>
      match l.permits[i]? with
      | some ⟨permit, .handler false⟩ => some (l.permits.set i ⟨permit, .handler true⟩)
      | _ => none
  | .callEnds i =>
      match l.permits[i]? with
      | some ⟨permit, .handler true⟩ => some (l.permits.set i ⟨permit, .handler false⟩)
      | _ => none
  | .release i =>
      match l.permits[i]? with
      | some ⟨permit, .caller⟩ => some (l.permits.set i ⟨{ permit with released := true }, .caller⟩)
      | _ => none
  | .drop i =>
      match l.permits[i]? with
      | some ⟨_, holder⟩ => if holder = .handler true then none else some (l.permits.eraseIdx i)
      | none => none
  | .attemptsInWindow _ _ => some l.permits

/-- The ledger forgets nothing that has happened. -/
def Ledger.step (l : Ledger) (e : Event) : Option Ledger :=
  (l.permitsAfter e).map fun permits => ⟨l.config, l.past ++ [e], permits⟩

inductive Answer where
  | admitted (peer : NodeId) (now : Instant)
  | rejected (e : RateLimitExceeded)
  | attempts (n : UInt32)
  | done

def decided (now : Instant) : Except RateLimitExceeded RateLimitPermit → Answer
  | .ok permit => .admitted permit.peer now
  | .error e => .rejected e

/-- What the limiter answers. -/
def answer (w : World) : Event → Answer
  | .tryAdmitAt p now | .handleIncoming p now => decided now (w.limiter.tryAdmitAt p now).1
  | .attemptsInWindow p now => .attempts (w.limiter.attemptsInWindow p now).1
  | .callBegins _ | .callEnds _ | .release _ | .drop _ => .done

/-- What the ledger answers. -/
def Ledger.answer (l : Ledger) : Event → Answer
  | .tryAdmitAt p now | .handleIncoming p now => decided now (l.verdict p now)
  | .attemptsInWindow p now => .attempts (.ofNat (recentAttempts p l.past now))
  | .callBegins _ | .callEnds _ | .release _ | .drop _ => .done

/-- The calls of `p` among the answers that were admitted. -/
def admittedOf (p : NodeId) (answers : List Answer) : List Instant :=
  answers.filterMap fun
    | .admitted q now => if q = p then some now else none
    | _ => none

/-! ## What an event does to the stored attempts -/

/-- The attempts stored for a peer. -/
def stored (l : RateLimiter) (p : NodeId) : List Instant :=
  ((l.inner.lookup p).map PeerCounters.attempts).getD []

/-- The attempts stored for `p` after an event. -/
def nextStored (e : Event) (p : NodeId) (ts : List Instant) : List Instant :=
  match e with
  | .tryAdmitAt q now | .handleIncoming q now =>
      if p = q then pruneAttempts ts now ++ [now] else ts
  | .attemptsInWindow q now => if p = q then pruneAttempts ts now else ts
  | .callBegins _ | .callEnds _ | .release _ | .drop _ => ts

/-- Writing one peer's entry changes the attempts of that peer only. -/
theorem stored_insert (m : Map NodeId PeerCounters) (c : PeerCounters) (p q : NodeId)
    (config : RateLimitConfig) :
    stored ⟨config, m.insert p c⟩ q = if q = p then c.attempts else stored ⟨config, m⟩ q := by
  rw [stored]
  rw [lookup_insert_eq]
  split <;> rfl

/-- The attempts of a peer's entry, which may be the default one. -/
theorem entry_stored (l : RateLimiter) (p : NodeId) :
    ((l.inner.lookup p).getD .default).attempts = stored l p := by
  rw [stored]
  cases l.inner.lookup p <;> rfl

/-- The open calls of a peer's entry, which may be the default one. -/
theorem entry_inFlight (l : RateLimiter) (p : NodeId) :
    ((l.inner.lookup p).getD .default).inFlight = l.inFlight p := by
  rw [RateLimiter.inFlight]
  cases l.inner.lookup p <;> rfl

/-- The decision on an attempt depends on the stored attempts and the counter alone. -/
theorem tryAdmitAt_fst (l : RateLimiter) (p : NodeId) (now : Instant) :
    (l.tryAdmitAt p now).1 =
      if UInt32.ofNat (pruneAttempts (stored l p) now ++ [now]).length >
          l.config.maxCallsPerMinute then .error .callsPerMinute
      else if l.inFlight p ≥ l.config.maxConcurrentCalls then .error .concurrentCalls
      else if l.inFlight p ≥ l.config.maxLiveFrames then .error .liveFrames
      else .ok ⟨p, false⟩ := by
  simp only [RateLimiter.tryAdmitAt, entry_stored, entry_inFlight]
  split
  · rfl
  split
  · rfl
  split <;> rfl

/-- An attempt is stored behind what pruning left, also where it is refused. -/
theorem tryAdmitAt_stored (l : RateLimiter) (p q : NodeId) (now : Instant) :
    stored (l.tryAdmitAt p now).2 q =
      if q = p then pruneAttempts (stored l p) now ++ [now] else stored l q := by
  simp only [RateLimiter.tryAdmitAt, entry_stored]
  split
  · exact stored_insert _ _ p q _
  split
  · exact stored_insert _ _ p q _
  split <;> exact stored_insert _ _ p q _

/-- A release removes an entry only when nothing is stored in it. -/
theorem release_stored (l : RateLimiter) (p q : NodeId) :
    stored (l.release p) q = stored l q := by
  rw [RateLimiter.release]
  cases hl : l.inner.lookup p with
  | none => rfl
  | some c =>
      have hc : stored l p = c.attempts := by
        rw [stored, hl]
        rfl
      dsimp only
      split
      · next hempty =>
          rw [stored, lookup_erase_eq]
          by_cases hq : q = p
          · rw [if_pos hq, hq, hc, hempty.2]
            rfl
          · rw [if_neg hq, stored]
      · refine (stored_insert l.inner _ p q l.config).trans ?_
        by_cases hq : q = p
        · rw [if_pos hq, hq, hc]
        · rw [if_neg hq]

/-- A release leaves the stored attempts alone. -/
theorem releaseNow_stored (permit : RateLimitPermit) (l : RateLimiter) (q : NodeId) :
    stored (permit.releaseNow l).2 q = stored l q := by
  rw [RateLimitPermit.releaseNow]
  split
  · rfl
  · exact release_stored l permit.peer q

/-- The count is of what pruning leaves. -/
theorem attemptsInWindow_fst (l : RateLimiter) (p : NodeId) (now : Instant) :
    (l.attemptsInWindow p now).1 = .ofNat (pruneAttempts (stored l p) now).length := by
  rw [RateLimiter.attemptsInWindow, stored]
  cases l.inner.lookup p <;> rfl

/-- Counting stores what pruning left. -/
theorem attemptsInWindow_stored (l : RateLimiter) (p q : NodeId) (now : Instant) :
    stored (l.attemptsInWindow p now).2 q =
      if q = p then pruneAttempts (stored l p) now else stored l q := by
  rw [RateLimiter.attemptsInWindow]
  cases hl : l.inner.lookup p with
  | none =>
      have hnone : stored l p = [] := by
        rw [stored, hl]
        rfl
      by_cases hq : q = p
      · rw [if_pos hq, hq, hnone]
        rfl
      · rw [if_neg hq]
  | some c =>
      have hc : stored l p = c.attempts := by
        rw [stored, hl]
        rfl
      rw [hc]
      exact stored_insert l.inner _ p q l.config

/-- In the world an attempt does to the limiter what it does alone. -/
theorem tryAdmit_limiter (w : World) (p : NodeId) (now : Instant) (holder : Holder) :
    (w.tryAdmit p now holder).limiter = (w.limiter.tryAdmitAt p now).2 := by
  rw [World.tryAdmit]
  split
  · next h => rw [h]
  · next h => rw [h]

/-- A permit goes to whoever made the attempt. -/
theorem tryAdmit_permits (w : World) (p : NodeId) (now : Instant) (holder : Holder) :
    (w.tryAdmit p now holder).permits = hand w.permits holder (w.limiter.tryAdmitAt p now).1 := by
  rw [World.tryAdmit]
  split
  · next h => rw [h]; rfl
  · next h => rw [h]; rfl

/-- **Step lemma.** Releases are invisible; only attempts and window queries touch what
    is stored, and only for their own peer. -/
theorem step_stored {w w' : World} {e : Event} (he : step w e = some w') (p : NodeId) :
    stored w'.limiter p = nextStored e p (stored w.limiter p) := by
  have hadmit : ∀ (q : NodeId) (now : Instant) (holder : Holder),
      stored (w.tryAdmit q now holder).limiter p =
        if p = q then pruneAttempts (stored w.limiter p) now ++ [now] else stored w.limiter p := by
    intro q now holder
    rw [tryAdmit_limiter, tryAdmitAt_stored]
    by_cases hp : p = q
    · rw [if_pos hp, if_pos hp, hp]
    · rw [if_neg hp, if_neg hp]
  cases stepped_of_step he with
  | tryAdmitAt q now => exact hadmit q now .caller
  | handleIncoming q now => exact hadmit q now (.handler false)
  | callBegins _ | callEnds _ => rfl
  | release _ => exact releaseNow_stored _ w.limiter p
  | drop _ _ => exact releaseNow_stored _ w.limiter p
  | attemptsInWindow q now =>
      refine (attemptsInWindow_stored w.limiter q p now).trans ?_
      show _ = if p = q then _ else _
      by_cases hp : p = q
      · rw [if_pos hp, if_pos hp, hp]
      · rw [if_neg hp, if_neg hp]

/-! ## The stored attempts against the history -/

/-- Pruning drops from the front what has left the window. -/
theorem pruneAttempts_eq (ts : List Instant) (now : Instant) :
    pruneAttempts ts now = ts.dropWhile fun t => !recent window now t := by
  rw [pruneAttempts]
  congr 1
  funext t
  rw [recent, ← decide_not]
  refine decide_eq_decide.mpr ?_
  have hwindow : 0 < callsPerMinuteWindow := by decide
  have htoNat : ∀ d : Int, callsPerMinuteWindow ≤ d.toNat ↔ ¬ d < callsPerMinuteWindow := by
    intro d
    omega
  exact htoNat (now - t)

/-- What is stored for `p` is the end of its history, and a reading of the clock that
    already happened makes all before it old. -/
structure Kept (past : List Event) (p : NodeId) (ts : List Instant) : Prop where
  sorted : (attemptsOf p past).Pairwise (· ≤ ·)
  split : ∃ old, attemptsOf p past = old ++ ts ∧
    ∀ t ∈ old, ∃ e ∈ past, ∃ now ∈ reading e, recent window now t = false

theorem kept_nil (p : NodeId) : Kept [] p [] where
  sorted := .nil
  split := ⟨[], rfl, fun _ ht => absurd ht List.not_mem_nil⟩

variable {past : List Event} {p : NodeId} {ts : List Instant}

/-- **Pruning is filtering.** After the pruning of an operation, the stored attempts are
    the recent ones of the whole history. -/
theorem Kept.pruned (h : Kept past p ts) {e : Event} (hclock : Clocked past e) {now : Instant}
    (hnow : now ∈ reading e) :
    pruneAttempts ts now = (attemptsOf p past).filter (recent window now) := by
  obtain ⟨old, hold, hgone⟩ := h.split
  have hsorted := h.sorted
  rw [hold] at hsorted ⊢
  have hnone : old.filter (recent window now) = [] := by
    refine List.filter_eq_nil_iff.mpr fun t ht => ?_
    obtain ⟨e', he', now', hnow', hlong⟩ := hgone t ht
    rw [not_recent_mono (hclock now hnow e' he' now' hnow') hlong]
    exact Bool.false_ne_true
  rw [List.filter_append, hnone, List.nil_append, pruneAttempts_eq]
  exact dropWhile_old window now (List.pairwise_append.mp hsorted).2.1

/-- The number of stored attempts after the pruning is the count over the history. -/
theorem Kept.length_pruned (h : Kept past p ts) {e : Event} (hclock : Clocked past e)
    {now : Instant} (hnow : now ∈ reading e) :
    (pruneAttempts ts now).length = recentAttempts p past now := by
  rw [h.pruned hclock hnow, recentAttempts, List.countP_eq_length_filter]

/-- An event drops old attempts at the front and adds its own at the end. -/
theorem nextStored_split (e : Event) (p : NodeId) (ts : List Instant) :
    ∃ dropped rest, ts = dropped ++ rest ∧ nextStored e p ts = rest ++ attemptsOf p [e] ∧
      ∀ t ∈ dropped, ∃ now ∈ reading e, recent window now t = false := by
  -- A pruning drops a prefix, all of it too old.
  have hprune : ∀ now, reading e = some now →
      ∃ dropped, ts = dropped ++ pruneAttempts ts now ∧
        ∀ t ∈ dropped, ∃ now ∈ reading e, recent window now t = false := by
    intro now hnow
    refine ⟨ts.takeWhile fun t => !recent window now t, ?_, fun t ht => ⟨now, hnow, ?_⟩⟩
    · rw [pruneAttempts_eq, List.takeWhile_append_dropWhile]
    · have hgone := List.mem_takeWhile_imp ht
      rwa [Bool.not_eq_true'] at hgone
  -- An event that neither prunes nor adds drops nothing.
  have hsame : ∀ {e' : Event}, attemptsOf p [e'] = [] →
      ∃ dropped rest, ts = dropped ++ rest ∧ ts = rest ++ attemptsOf p [e'] ∧
        ∀ t ∈ dropped, ∃ now ∈ reading e', recent window now t = false := by
    intro e' hquiet
    exact ⟨[], ts, rfl, by rw [hquiet, List.append_nil],
      fun t ht => absurd ht List.not_mem_nil⟩
  cases e with
  | tryAdmitAt q now | handleIncoming q now =>
      rw [nextStored]
      by_cases hp : p = q
      · obtain ⟨dropped, hts, hold⟩ := hprune now rfl
        refine ⟨dropped, pruneAttempts ts now, hts, ?_, hold⟩
        rw [if_pos hp, attemptsOf_attempt rfl, if_pos hp.symm]
      · rw [if_neg hp]
        exact hsame (by rw [attemptsOf_attempt rfl, if_neg (Ne.symm hp)])
  | attemptsInWindow q now =>
      rw [nextStored]
      by_cases hp : p = q
      · obtain ⟨dropped, hts, hold⟩ := hprune now rfl
        refine ⟨dropped, pruneAttempts ts now, hts, ?_, hold⟩
        rw [if_pos hp, attemptsOf_silent rfl, List.append_nil]
      · rw [if_neg hp]
        exact hsame (attemptsOf_silent rfl p)
  | callBegins i | callEnds i | release i | drop i => exact hsame (attemptsOf_silent rfl p)

/-- **Step lemma.** Under the clock law, an event keeps the stored attempts the end of the
    history. -/
theorem Kept.step (h : Kept past p ts) {e : Event} (hclock : Clocked past e) :
    Kept (past ++ [e]) p (nextStored e p ts) := by
  obtain ⟨dropped, rest, hts, hnext, hold⟩ := nextStored_split e p ts
  obtain ⟨old, hsplit, hgone⟩ := h.split
  -- What the step drops joins what the history has dropped before.
  refine ⟨?_, old ++ dropped, ?_, fun t ht => ?_⟩
  · rw [attemptsOf_snoc]
    refine List.pairwise_append.mpr ⟨h.sorted, ?_, fun a ha b hb => ?_⟩
    · cases hattempt : attempt e with
      | none =>
          rw [attemptsOf_silent hattempt]
          exact .nil
      | some a =>
          rw [attemptsOf_attempt hattempt]
          split
          · exact List.pairwise_singleton _ _
          · exact .nil
    · obtain ⟨e', he', hattempt⟩ := mem_attemptsOf.mp hb
      obtain rfl := List.mem_singleton.mp he'
      exact attemptsOf_le hclock (reading_of_attempt hattempt) ha
  · rw [attemptsOf_snoc, hsplit, hnext, hts]
    simp only [List.append_assoc]
  · rcases List.mem_append.mp ht with ht | ht
    · obtain ⟨e', he', now, hnow, hlong⟩ := hgone t ht
      exact ⟨e', List.mem_append_left _ he', now, hnow, hlong⟩
    · obtain ⟨now, hnow, hlong⟩ := hold t ht
      exact ⟨e, List.mem_append_right _ (List.mem_singleton_self e), now, hnow, hlong⟩

/-! ## The refinement -/

/-- The world of the limiter beside the ledger: the same permits, counters in account, and
    for each peer the stored attempts at the end of its history. -/
structure Recorded (config : RateLimitConfig) (past : List Event) (w : World) (l : Ledger) :
    Prop where
  config_eq : l.config = config
  past_eq : l.past = past
  permits_eq : l.permits = w.permits
  accounted : Accounted config w
  kept : ∀ p, Kept past p (stored w.limiter p)

variable {config : RateLimitConfig} {w : World} {l : Ledger} {e : Event}

/-- Limiter and ledger start in agreement. -/
theorem recorded_start (config : RateLimitConfig) :
    Recorded config [] (.start config) (.start config) where
  config_eq := rfl
  past_eq := rfl
  permits_eq := rfl
  accounted := accounted_start config
  kept p := kept_nil p

/-- The limiter decides an attempt as the ledger does. -/
theorem Recorded.verdict_eq (h : Recorded config past w l) (hlaw : Lawful past e) {now : Instant}
    (hattempt : attempt e = some (p, now)) :
    (w.limiter.tryAdmitAt p now).1 = l.verdict p now := by
  have hlength : (pruneAttempts (stored w.limiter p) now ++ [now]).length =
      recentAttempts p past now + 1 := by
    rw [List.length_append, List.length_singleton,
      (h.kept p).length_pruned hlaw.1 (reading_of_attempt hattempt)]
  have hfits : recentAttempts p past now + 1 < 2 ^ 32 := hlaw.2 (p, now) hattempt
  have hcpm : UInt32.ofNat (recentAttempts p past now + 1) > w.limiter.config.maxCallsPerMinute ↔
      l.config.maxCallsPerMinute.toNat < recentAttempts p l.past now + 1 := by
    rw [gt_iff_lt, UInt32.lt_iff_toNat_lt, UInt32.toNat_ofNat_of_lt' hfits, h.past_eq,
      h.config_eq, h.accounted.config_eq]
  have hopen : ∀ limit : UInt32, w.limiter.inFlight p ≥ limit ↔ limit.toNat ≤ l.outstanding p := by
    intro limit
    rw [ge_iff_le, UInt32.le_iff_toNat_le, h.accounted.counted, outstanding, Ledger.outstanding,
      h.permits_eq]
  have hconfig : w.limiter.config = l.config := h.accounted.config_eq.trans h.config_eq.symm
  rw [tryAdmitAt_fst, hlength, Ledger.verdict]
  simp only [hcpm, hopen]
  rw [hconfig]

/-- The permits move alike. -/
theorem Recorded.permits_step (h : Recorded config past w l) (hlaw : Lawful past e) :
    (step w e).map World.permits = l.permitsAfter e := by
  cases e with
  | tryAdmitAt q now =>
      show some _ = some _
      rw [tryAdmit_permits, h.verdict_eq hlaw rfl, h.permits_eq]
  | handleIncoming q now =>
      show some _ = some _
      rw [tryAdmit_permits, h.verdict_eq hlaw rfl, h.permits_eq]
  | callBegins i | callEnds i =>
      simp only [step, Ledger.permitsAfter, h.permits_eq]
      rcases w.permits[i]? with _ | ⟨permit, _ | _ | _⟩ <;> rfl
  | release i =>
      -- a permit that was released already comes back as it is
      have hpermit : ∀ permit : RateLimitPermit,
          (permit.releaseNow w.limiter).1 = { permit with released := true } := by
        intro permit
        rw [RateLimitPermit.releaseNow]
        split
        · next hdone => rw [← hdone]
        · rfl
      simp only [step, Ledger.permitsAfter, h.permits_eq]
      rcases w.permits[i]? with _ | ⟨permit, _ | _⟩
      · rfl
      · show some _ = some _
        rw [hpermit]
      · rfl
  | drop i =>
      simp only [step, Ledger.permitsAfter, h.permits_eq]
      rcases w.permits[i]? with _ | ⟨permit, holder⟩
      · rfl
      · dsimp only
        split <;> rfl
  | attemptsInWindow q now =>
      show some _ = some _
      rw [h.permits_eq]

/-- **Step lemma.** Both sides answer an event alike and stay related. -/
theorem Recorded.step (h : Recorded config past w l) (hlaw : Lawful past e) :
    answer w e = l.answer e ∧
      Option.Rel (Recorded config (past ++ [e])) (UatRateLimit.step w e) (l.step e) := by
  constructor
  · cases e with
    | tryAdmitAt q now | handleIncoming q now =>
        rw [answer, Ledger.answer, h.verdict_eq hlaw rfl]
    | attemptsInWindow q now =>
        rw [answer, Ledger.answer, attemptsInWindow_fst, (h.kept q).length_pruned hlaw.1 rfl,
          h.past_eq]
    | callBegins i | callEnds i | release i | drop i => rfl
  · have hpermits := h.permits_step hlaw
    rw [Ledger.step, ← hpermits]
    cases hs : UatRateLimit.step w e with
    | none => exact .none
    | some w' =>
        refine .some ⟨h.config_eq, ?_, rfl, accounted_step e h.accounted hs, fun q => ?_⟩
        · rw [h.past_eq]
        · rw [step_stored hs q]
          exact (h.kept q).step hlaw.1

/-- **Run lemma.** The answers along a lawful run are the ledger's, and so is the state. -/
theorem run_recorded (config : RateLimitConfig) {es : List Event} (hlaw : Always Lawful es) :
    trace step answer (.start config) es =
        trace Ledger.step Ledger.answer (.start config) es ∧
      Option.Rel (Recorded config es) (runFrom step (.start config) es)
        (runFrom Ledger.step (.start config) es) :=
  simulates (recorded_start config) (fun _ _ _ _ hlast h => h.step hlast) es hlaw

/-- The ledger that stands beside a reachable world. -/
theorem exists_recorded {es : List Event} (hlaw : Always Lawful es)
    (hrun : runFrom step (.start config) es = some w) : ∃ l, Recorded config es w l := by
  have hrel := (run_recorded config hlaw).2
  rw [hrun] at hrel
  generalize runFrom Ledger.step (.start config) es = b at hrel
  cases hrel with
  | some h => exact ⟨_, h⟩

/-- An attempt is refused for its minute exactly when the history, this attempt included,
    is over the limit. -/
theorem callsPerMinute_iff {es : List Event} (hlaw : Always Lawful es) (hlast : Lawful es e)
    (hrun : runFrom step (.start config) es = some w) {now : Instant}
    (hattempt : attempt e = some (p, now)) :
    (w.limiter.tryAdmitAt p now).1 = .error .callsPerMinute ↔
      config.maxCallsPerMinute.toNat < recentAttempts p es now + 1 := by
  obtain ⟨l, h⟩ := exists_recorded hlaw hrun
  rw [h.verdict_eq hlast hattempt, Ledger.verdict, h.config_eq, h.past_eq]
  constructor
  · intro hrefused
    by_contra hroom
    rw [if_neg hroom] at hrefused
    split at hrefused
    · cases hrefused
    · split at hrefused
      · cases hrefused
      · cases hrefused
  · intro hover
    rw [if_pos hover]

/-! ## Admitted calls in a window -/

/-- One more answer adds what it admits to the end. -/
theorem admittedOf_snoc (p : NodeId) (answers : List Answer) (a : Answer) :
    admittedOf p (answers ++ [a]) = admittedOf p answers ++ admittedOf p [a] :=
  List.filterMap_append

/-- An answer that admits a call of `p` answers an attempt of `p`, and the limit of the
    minute did not refuse it. -/
theorem admittedOf_answer (w : World) (e : Event) (p : NodeId) :
    admittedOf p [answer w e] = [] ∨
      ∃ now, attempt e = some (p, now) ∧ admittedOf p [answer w e] = [now] ∧
        (w.limiter.tryAdmitAt p now).1 ≠ .error .callsPerMinute := by
  have hdecided : ∀ (q : NodeId) (now : Instant),
      admittedOf p [decided now (w.limiter.tryAdmitAt q now).1] = [] ∨
        q = p ∧ admittedOf p [decided now (w.limiter.tryAdmitAt q now).1] = [now] ∧
          (w.limiter.tryAdmitAt p now).1 ≠ .error .callsPerMinute := by
    intro q now
    obtain ⟨attempts, ⟨err, hno⟩ | ⟨-, -, hyes⟩⟩ := tryAdmitAt_cases w.limiter q now
    · rw [hno]
      exact Or.inl rfl
    · by_cases hq : q = p
      · subst hq
        rw [hyes]
        refine Or.inr ⟨rfl, ?_, fun h => by cases h⟩
        show (if q = q then some now else none).toList = [now]
        rw [if_pos rfl]
        rfl
      · rw [hyes]
        refine Or.inl ?_
        show (if q = p then some now else none).toList = []
        rw [if_neg hq]
        rfl
  cases e with
  | tryAdmitAt q now | handleIncoming q now =>
      rcases hdecided q now with hnone | ⟨rfl, hone, hfree⟩
      · exact Or.inl hnone
      · exact Or.inr ⟨now, rfl, hone, hfree⟩
  | attemptsInWindow q now | callBegins i | callEnds i | release i | drop i => exact Or.inl rfl

/-- Along a lawful run, each admitted call of `p` found less than the limit of recent
    admitted calls before it, and the admitted calls are among the attempts. -/
theorem admitted_sparse (config : RateLimitConfig) (p : NodeId) {es : List Event}
    (hlaw : Always Lawful es) :
    Always (fun before now => before.countP (recent window now) < config.maxCallsPerMinute.toNat)
        (admittedOf p (trace step answer (.start config) es)) ∧
      (admittedOf p (trace step answer (.start config) es)).Sublist (attemptsOf p es) := by
  -- Induction at the end: an event is judged by the whole run before it.
  induction es using List.reverseRecOn with
  | nil => exact ⟨always_nil _, .slnil⟩
  | append_singleton es e ih =>
      obtain ⟨hall, hlast⟩ := always_snoc.mp hlaw
      obtain ⟨hsparse, hsub⟩ := ih hall
      have hquiet : (admittedOf p (trace step answer (.start config) es)).Sublist
          (attemptsOf p (es ++ [e])) := by
        rw [attemptsOf_snoc]
        exact hsub.trans (List.sublist_append_left _ _)
      rw [trace_snoc]
      cases hrun : runFrom step (.start config) es with
      | none =>
          rw [Option.map_none, Option.toList_none, List.append_nil]
          exact ⟨hsparse, hquiet⟩
      | some w =>
          rw [Option.map_some, Option.toList_some, admittedOf_snoc]
          rcases admittedOf_answer w e p with hnone | ⟨now, hattempt, hone, hfree⟩
          · rw [hnone, List.append_nil]
            exact ⟨hsparse, hquiet⟩
          · have hroom : recentAttempts p es now < config.maxCallsPerMinute.toNat := by
              by_contra hover
              exact hfree ((callsPerMinute_iff hall hlast hrun hattempt).mpr (by omega))
            rw [hone, attemptsOf_snoc, attemptsOf_attempt hattempt, if_pos rfl]
            exact ⟨always_snoc.mpr ⟨hsparse, hsub.countP_le.trans_lt hroom⟩,
              hsub.append_right [now]⟩

/-- What the sliding window promises of a sequence of events. -/
structure SlidingWindow (config : RateLimitConfig) (es : List Event) : Prop where
  /-- an attempt is refused for its minute exactly when the attempts of its peer in the
      whole history, less than 60 s old, and this one are over the limit -/
  refused_iff : ∀ before e after p now w, es = before ++ e :: after →
    attempt e = some (p, now) → runFrom step (.start config) before = some w →
    ((w.limiter.tryAdmitAt p now).1 = .error .callsPerMinute ↔
      config.maxCallsPerMinute.toNat < recentAttempts p before now + 1)
  /-- no half-open window of 60 s holds more admitted calls of a peer than the limit -/
  bounded : ∀ p lo,
    (admittedOf p (trace step answer (.start config) es)).countP (inWindow window lo) ≤
      config.maxCallsPerMinute.toNat
  /-- pruning, the removal of entries and the window queries change no answer: the ledger
      does none of them -/
  unforgotten : trace step answer (.start config) es =
    trace Ledger.step Ledger.answer (.start config) es

/-- **THE WINDOW IS THE HISTORY.**  For every configuration and every sequence of
    attempts, releases, drops, calls and window queries of any peers, as long as the clock
    does not go back and fewer than `2 ^ 32` attempts of one peer fall in a window. -/
theorem sliding_window (config : RateLimitConfig) {es : List Event} (hlaw : Always Lawful es) :
    SlidingWindow config es where
  refused_iff := by
    intro before e after p now w hes hattempt hrun
    refine callsPerMinute_iff ?_ (hlaw before e after hes) hrun hattempt
    rw [hes] at hlaw
    exact hlaw.of_append
  bounded p lo := countP_window_le (admitted_sparse config p hlaw).1 lo
  unforgotten := (run_recorded config hlaw).1

/-- The third attempt is over the limit; a minute after it the window is free again. -/
def threeAndOne : List Event :=
  [.tryAdmitAt dialer 0, .tryAdmitAt dialer 1, .tryAdmitAt dialer 2, .drop 0,
    .attemptsInWindow dialer (window + 1), .tryAdmitAt dialer (window + 2)]

theorem sliding_window_threeAndOne : SlidingWindow tightTwo threeAndOne :=
  sliding_window tightTwo (by decide +kernel)

example : (trace step answer (.start tightTwo) threeAndOne)[2]? =
    some (.rejected .callsPerMinute) := rfl

end UatRateWindow
