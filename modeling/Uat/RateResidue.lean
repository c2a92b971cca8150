import Uat.RateWindow

/-! # What an idle peer leaves in the limiter

    A peer's entry is removed in one place only: by the release that brings its counter to
    zero, if no attempt is stored any more.  A release prunes nothing, for it has no clock,
    and a window query prunes but removes nothing.  So an entry goes away only if a window
    query found all attempts old while a permit was still out.

    * **`step_peer`** — what one step can do to one peer.
    * **`Swept`** — the window query that an entry needs to be removed.
    * **`no_residue_iff`** — a run leaves no residue exactly when every peer that is idle
      after an operation was swept. -/

namespace UatRateResidue

open UatTypes UatRateLimit UatRateWindow HashMap StepRun Window

/-! ## What a step can do to a peer -/

section

variable {config : RateLimitConfig} {w w' : World} {e : Event} {p : NodeId} {l : RateLimiter}

/-- The event is a window query of `p`. -/
def queries (p : NodeId) : Event → Option Instant
  | .attemptsInWindow q now => if q = p then some now else none
  | _ => none

theorem lookup_none_of_release (l : RateLimiter) {c : PeerCounters}
    (hc : l.inner.lookup p = some c) :
    (l.release p).inner.lookup p = none ↔
      saturatingSub c.inFlight 1 = 0 ∧ c.attempts = [] := by
  rw [RateLimiter.release, hc]
  dsimp only
  split
  · next hempty =>
      exact ⟨fun _ => hempty, fun _ => AList.lookup_erase _ _⟩
  · next hleft =>
      refine ⟨fun h => ?_, fun h => absurd h hleft⟩
      rw [AList.lookup_insert] at h
      cases h

theorem attemptsInWindow_lookup_none (l : RateLimiter) (p q : NodeId) (now : Instant) :
    (l.attemptsInWindow p now).2.inner.lookup q = none ↔ l.inner.lookup q = none := by
  rw [RateLimiter.attemptsInWindow]
  cases hl : l.inner.lookup p with
  | none => rfl
  | some c =>
      show (l.inner.insert p _).lookup q = none ↔ _
      rw [lookup_insert_eq]
      by_cases hq : q = p
      · rw [if_pos hq, hq, hl]
        exact ⟨fun h => (by cases h), fun h => (by cases h)⟩
      · rw [if_neg hq]

/-- A permit that gave its slot back: one slot less, and the limiter released. -/
def Returned (w w' : World) (p : NodeId) : Prop :=
  outstanding w' p + 1 = outstanding w p ∧
    w'.limiter.inner.lookup p = (w.limiter.release p).inner.lookup p

/-- Nothing of `p` moved. -/
def Untouched (w w' : World) (p : NodeId) : Prop :=
  outstanding w' p = outstanding w p ∧ w'.limiter.inner.lookup p = w.limiter.inner.lookup p

/-- A new mark on a permit moves nothing. -/
theorem untouched_mark {i : Nat} {x y : Held} (hi : w.permits[i]? = some x)
    (hpermit : y.permit = x.permit) (p : NodeId) :
    Untouched w { w with permits := w.permits.set i y } p := by
  have hcount := countP_set_add (y := y) (holdsSlot p) hi
  have hsame : holdsSlot p y = holdsSlot p x := by rw [holdsSlot, hpermit, holdsSlot]
  rw [hsame] at hcount
  exact ⟨Nat.add_right_cancel hcount, rfl⟩

/-- `release_now` on a permit gives a slot of `p` back if it holds one, and else leaves `p`
    alone. -/
theorem releaseNow_peer {x : Held} {permits : List Held}
    (hcount : permits.countP (holdsSlot p) + (if holdsSlot p x = true then 1 else 0) =
      w.permits.countP (holdsSlot p)) :
    Returned w ⟨(x.permit.releaseNow w.limiter).2, permits⟩ p ∨
      Untouched w ⟨(x.permit.releaseNow w.limiter).2, permits⟩ p := by
  rw [RateLimitPermit.releaseNow]
  by_cases hslot : holdsSlot p x = true
  · rw [if_pos hslot] at hcount
    rw [holdsSlot, Bool.and_eq_true, decide_eq_true_eq, Bool.not_eq_true'] at hslot
    rw [if_neg (by rw [hslot.2]; exact Bool.false_ne_true), hslot.1]
    exact Or.inl ⟨hcount, rfl⟩
  · rw [if_neg hslot] at hcount
    split
    · exact Or.inr ⟨hcount, rfl⟩
    · next hopen =>
        have hpeer : p ≠ x.permit.peer := by
          intro hp
          refine hslot ?_
          rw [holdsSlot, Bool.and_eq_true, decide_eq_true_eq, Bool.not_eq_true']
          exact ⟨hp.symm, Bool.not_eq_true _ ▸ hopen⟩
        exact Or.inr ⟨hcount, release_frame w.limiter hpeer⟩

/-- An attempt leaves an entry for its own peer, and nothing of another one moves. -/
theorem tryAdmit_peer (w : World) (q : NodeId) (now : Instant) (holder : Holder) (p : NodeId) :
    (q = p ∧ ((w.tryAdmit q now holder).limiter.inner.lookup p).isSome) ∨
      (q ≠ p ∧ Untouched w (w.tryAdmit q now holder) p) := by
  by_cases hq : q = p
  · subst hq
    refine Or.inl ⟨rfl, ?_⟩
    obtain ⟨attempts, ⟨err, hno⟩ | ⟨-, -, hyes⟩⟩ := tryAdmitAt_cases w.limiter q now
    · rw [World.tryAdmit, hno, AList.lookup_insert]
      rfl
    · rw [World.tryAdmit, hyes, AList.lookup_insert]
      rfl
  · refine Or.inr ⟨hq, ?_, tryAdmit_frame w now holder (Ne.symm hq)⟩
    obtain ⟨attempts, ⟨err, hno⟩ | ⟨-, -, hyes⟩⟩ := tryAdmitAt_cases w.limiter q now
    · rw [World.tryAdmit, hno]
      rfl
    · -- the new permit is another peer's
      rw [World.tryAdmit, hyes, outstanding, List.countP_append, List.countP_singleton, holdsSlot,
        decide_eq_false hq]
      rfl

/-- A release gives the permit's slot back, and the permit stays in the list without it. -/
theorem release_peer {i : Nat} {permit : RateLimitPermit}
    (held : w.permits[i]? = some ⟨permit, .caller⟩) (p : NodeId) :
    Returned w ⟨(permit.releaseNow w.limiter).2,
        w.permits.set i ⟨(permit.releaseNow w.limiter).1, .caller⟩⟩ p ∨
      Untouched w ⟨(permit.releaseNow w.limiter).2,
        w.permits.set i ⟨(permit.releaseNow w.limiter).1, .caller⟩⟩ p := by
  refine releaseNow_peer (x := ⟨permit, .caller⟩) ?_
  have hcount := countP_set_add (y := ⟨(permit.releaseNow w.limiter).1, .caller⟩)
    (holdsSlot p) held
  have hdone : holdsSlot p ⟨(permit.releaseNow w.limiter).1, .caller⟩ = false := by
    rw [holdsSlot, releaseNow_released]
    exact Bool.and_false _
  rwa [hdone, if_neg Bool.false_ne_true] at hcount

/-- **Step characterisation.** To a peer, a step is an attempt, a window query, a slot
    given back, or nothing. -/
theorem step_peer (he : step w e = some w') (p : NodeId) :
    (∃ now, attempt e = some (p, now) ∧ (w'.limiter.inner.lookup p).isSome) ∨
      (attempt e = none ∧ (∃ now, queries p e = some now) ∧
        outstanding w' p = outstanding w p ∧
        (w'.limiter.inner.lookup p = none ↔ w.limiter.inner.lookup p = none)) ∨
      (attemptsOf p [e] = [] ∧ queries p e = none ∧ (Returned w w' p ∨ Untouched w w' p)) := by
  cases stepped_of_step he with
  | tryAdmitAt q now =>
      rcases tryAdmit_peer w q now .caller p with ⟨rfl, hsome⟩ | ⟨hq, hsame⟩
      · exact Or.inl ⟨now, rfl, hsome⟩
      · exact Or.inr (Or.inr ⟨by rw [attemptsOf_attempt rfl, if_neg hq], rfl, Or.inr hsame⟩)
  | handleIncoming q now =>
      rcases tryAdmit_peer w q now (.handler false) p with ⟨rfl, hsome⟩ | ⟨hq, hsame⟩
      · exact Or.inl ⟨now, rfl, hsome⟩
      · exact Or.inr (Or.inr ⟨by rw [attemptsOf_attempt rfl, if_neg hq], rfl, Or.inr hsame⟩)
  | callBegins held | callEnds held =>
      refine Or.inr (Or.inr ⟨rfl, rfl, Or.inr (untouched_mark held ?_ p)⟩)
      rfl
  | release held => exact Or.inr (Or.inr ⟨rfl, rfl, release_peer held p⟩)
  | @drop i permit holder held _ =>
      refine Or.inr (Or.inr ⟨rfl, rfl, ?_⟩)
      exact releaseNow_peer (x := ⟨permit, holder⟩) (countP_eraseIdx_add (holdsSlot p) held)
  | attemptsInWindow q now =>
      by_cases hq : q = p
      · subst hq
        exact Or.inr (Or.inl ⟨rfl, ⟨now, if_pos rfl⟩, rfl,
          attemptsInWindow_lookup_none w.limiter q q now⟩)
      · exact Or.inr (Or.inr ⟨rfl, if_neg hq, Or.inr ⟨rfl,
          attemptsInWindow_frame w.limiter now (Ne.symm hq)⟩⟩)

/-! ## Sweeps -/

/-- A window query of `p` that finds all its attempts old while a permit of `p` is out. -/
def SweptBy (config : RateLimitConfig) (p : NodeId) (past : List Event) (e : Event) : Prop :=
  ∃ now w, queries p e = some now ∧ runFrom step (.start config) past = some w ∧
    0 < outstanding w p ∧ ∀ t ∈ attemptsOf p past, recent window now t = false

/-- Such a query was made, and `p` has made no attempt since. -/
def Swept (config : RateLimitConfig) (p : NodeId) (es : List Event) : Prop :=
  ∃ before e after, es = before ++ e :: after ∧ SweptBy config p before e ∧
    attemptsOf p after = []

/-- `p` never attempted anything, or was swept since. -/
def Clean (config : RateLimitConfig) (p : NodeId) (es : List Event) : Prop :=
  attemptsOf p es = [] ∨ Swept config p es

variable {past : List Event}

theorem swept_snoc : Swept config p (past ++ [e]) ↔
    SweptBy config p past e ∨ (Swept config p past ∧ attemptsOf p [e] = []) := by
  constructor
  · rintro ⟨before, e', after, hes, hby, hafter⟩
    rcases snoc_eq_append_cons.mp hes with ⟨rfl, rfl, -⟩ | ⟨after', rfl, rfl⟩
    · exact Or.inl hby
    · rw [attemptsOf_snoc, List.append_eq_nil_iff] at hafter
      exact Or.inr ⟨⟨before, e', after', rfl, hby, hafter.1⟩, hafter.2⟩
  · rintro (hby | ⟨⟨before, e', after, rfl, hby, hafter⟩, hquiet⟩)
    · exact ⟨past, e, [], rfl, hby, rfl⟩
    · refine ⟨before, e', after ++ [e], by rw [List.append_assoc, List.cons_append], hby, ?_⟩
      rw [attemptsOf_snoc, hafter, hquiet]
      rfl

theorem queries_of_attempt {a : NodeId × Instant} (h : attempt e = some a) (p : NodeId) :
    queries p e = none := by
  cases e with
  | tryAdmitAt q now | handleIncoming q now => rfl
  | _ => cases h

/-- Right after an attempt, `p` is not clean. -/
theorem not_clean_of_attempt {now : Instant} (h : attempt e = some (p, now)) :
    ¬ Clean config p (past ++ [e]) := by
  have hone : attemptsOf p [e] ≠ [] := by
    rw [attemptsOf_attempt h, if_pos rfl]
    exact List.cons_ne_nil _ _
  rintro (hnone | hswept)
  · rw [attemptsOf_snoc, List.append_eq_nil_iff] at hnone
    exact hone hnone.2
  · rcases swept_snoc.mp hswept with ⟨now', w, hquery, -⟩ | ⟨-, hquiet⟩
    · rw [queries_of_attempt h] at hquery
      cases hquery
    · exact hone hquiet

/-- What is no attempt of `p` keeps it clean, and what is no sweep does not make it so. -/
theorem clean_snoc (hquiet : attemptsOf p [e] = []) :
    Clean config p (past ++ [e]) ↔ Clean config p past ∨ SweptBy config p past e := by
  rw [Clean, Clean, attemptsOf_snoc, hquiet, List.append_nil, swept_snoc]
  constructor
  · rintro (hnone | hby | ⟨hswept, -⟩)
    · exact Or.inl (Or.inl hnone)
    · exact Or.inr hby
    · exact Or.inl (Or.inr hswept)
  · rintro ((hnone | hswept) | hby)
    · exact Or.inl hnone
    · exact Or.inr (Or.inr ⟨hswept, hquiet⟩)
    · exact Or.inr (Or.inl hby)

theorem queries_eq_some {now : Instant} (h : queries p e = some now) :
    e = .attemptsInWindow p now := by
  cases e with
  | attemptsInWindow q now' =>
      obtain ⟨rfl, hnow⟩ := Option.ite_none_right_eq_some.mp h
      rw [Option.some.inj hnow]
  | _ => cases h

/-- All attempts of a clean peer are old at every later reading. -/
theorem old_of_clean (hclean : Clean config p past) (hclock : Clocked past e) {now : Instant}
    (hnow : now ∈ reading e) : ∀ t ∈ attemptsOf p past, recent window now t = false := by
  intro t ht
  rcases hclean with hnone | ⟨before, e', after, rfl, ⟨now', w, hquery, -, -, hold⟩, hafter⟩
  · rw [hnone] at ht
    cases ht
  · obtain rfl := queries_eq_some hquery
    have hle : now' ≤ now := hclock now hnow _
      (List.mem_append_right _ List.mem_cons_self) now' rfl
    have hbefore : t ∈ attemptsOf p before := by
      rw [attemptsOf, List.filterMap_append, List.filterMap_cons] at ht
      rcases List.mem_append.mp ht with ht | ht
      · exact ht
      · have hnone : t ∈ attemptsOf p after := ht
        rw [hafter] at hnone
        cases hnone
    exact not_recent_mono hle (hold t hbefore)

/-! ## When the entry of a peer is gone -/

/-- The entry of a peer without a permit is gone exactly when the peer is clean; while a
    permit is out, clean means that no attempt is stored. -/
structure Residue (config : RateLimitConfig) (past : List Event) (w : World) (p : NodeId) :
    Prop where
  kept : Kept past p (stored w.limiter p)
  idle : outstanding w p = 0 → (w.limiter.inner.lookup p = none ↔ Clean config p past)
  busy : 0 < outstanding w p → (stored w.limiter p = [] ↔ Clean config p past)

theorem residue_start (config : RateLimitConfig) (p : NodeId) :
    Residue config [] (.start config) p where
  kept := kept_nil p
  idle _ := ⟨fun _ => Or.inl rfl, fun _ => rfl⟩
  busy h := absurd h (Nat.lt_irrefl 0)

theorem stored_congr {l' : RateLimiter} (h : l'.inner.lookup p = l.inner.lookup p) :
    stored l' p = stored l p := by
  rw [stored, h, stored]

/-- A peer with a permit out has an entry, which holds the counter and the attempts. -/
theorem entry_of_outstanding (h : Accounted config w) (hout : 0 < outstanding w p) :
    ∃ c, w.limiter.inner.lookup p = some c ∧ c.inFlight.toNat = outstanding w p ∧
      c.attempts = stored w.limiter p := by
  obtain ⟨c, hc⟩ := Option.isSome_iff_exists.mp
    (lookup_of_inFlight (l := w.limiter) (p := p) (by rw [h.counted]; exact hout))
  refine ⟨c, hc, ?_, ?_⟩
  · rw [← h.counted, RateLimiter.inFlight, hc]
    rfl
  · rw [stored, hc]
    rfl

/-- A slot given back: the entry goes with the last slot, if nothing is stored. -/
theorem residue_returned (hacc : Accounted config w) (h : Residue config past w p)
    (hreturned : Returned w w' p) :
    (outstanding w' p = 0 → (w'.limiter.inner.lookup p = none ↔ Clean config p past)) ∧
      (0 < outstanding w' p → (stored w'.limiter p = [] ↔ Clean config p past)) := by
  obtain ⟨hcount, hlookup⟩ := hreturned
  have hout : 0 < outstanding w p := by omega
  obtain ⟨c, hc, hinFlight, hattempts⟩ := entry_of_outstanding hacc hout
  constructor
  · intro hidle
    have hzero : saturatingSub c.inFlight 1 = 0 := by
      have hexact := saturatingSub_exact (a := c.inFlight) (by omega)
      refine UInt32.toNat_inj.mp ?_
      rw [hexact]
      show _ = 0
      omega
    rw [hlookup, lookup_none_of_release w.limiter hc, hattempts, ← h.busy hout]
    exact and_iff_right hzero
  · intro _
    rw [stored_congr hlookup, release_stored]
    exact h.busy hout

/-- A window query: it removes nothing, and it sweeps if a permit is out. -/
theorem residue_queried (h : Residue config past w p)
    (hrun : runFrom step (.start config) past = some w) (he : step w e = some w')
    (hclock : Clocked past e) (hsilent : attempt e = none) {now : Instant}
    (hquery : queries p e = some now) (hcount : outstanding w' p = outstanding w p)
    (hlookup : w'.limiter.inner.lookup p = none ↔ w.limiter.inner.lookup p = none) :
    (outstanding w' p = 0 →
        (w'.limiter.inner.lookup p = none ↔ Clean config p (past ++ [e]))) ∧
      (0 < outstanding w' p →
        (stored w'.limiter p = [] ↔ Clean config p (past ++ [e]))) := by
  have hevent := queries_eq_some hquery
  have hnow : now ∈ reading e := by rw [hevent]; rfl
  have hold : ∀ w₀, runFrom step (.start config) past = some w₀ → w₀ = w := fun w₀ h₀ =>
    Option.some.inj (h₀.symm.trans hrun)
  rw [clean_snoc (attemptsOf_silent hsilent p), hcount]
  constructor
  · intro hidle
    rw [hlookup, h.idle hidle, or_iff_left]
    rintro ⟨now', w₀, -, hrun', hout, -⟩
    rw [hold w₀ hrun', hidle] at hout
    exact Nat.lt_irrefl 0 hout
  · intro hout
    -- The query prunes: what it leaves is what of the history is recent at `now`.
    have hstored : stored w'.limiter p = (attemptsOf p past).filter (recent window now) := by
      rw [step_stored he, ← h.kept.pruned hclock hnow, hevent, nextStored, if_pos rfl]
    rw [hstored, List.filter_eq_nil_iff]
    constructor
    · intro hall
      exact Or.inr ⟨now, w, hquery, hrun, hout, fun t ht => Bool.not_eq_true _ ▸ hall t ht⟩
    · rintro (hclean | ⟨now', w₀, hquery', -, -, hall⟩) t ht
      · rw [old_of_clean hclean hclock hnow t ht]
        exact Bool.false_ne_true
      · obtain rfl := Option.some.inj (hquery.symm.trans hquery')
        rw [hall t ht]
        exact Bool.false_ne_true

/-- **Step lemma.** -/
theorem Residue.step (hacc : Accounted config w) (h : Residue config past w p)
    (hrun : runFrom step (.start config) past = some w) (he : UatRateLimit.step w e = some w')
    (hclock : Clocked past e) : Residue config (past ++ [e]) w' p := by
  have hkept : Kept (past ++ [e]) p (stored w'.limiter p) := by
    rw [step_stored he]
    exact h.kept.step hclock
  -- An attempt of `p`, a window query of `p`, or anything else.
  rcases step_peer he p with ⟨now, hattempt, hsome⟩ | ⟨hsilent, ⟨now, hquery⟩, hcount, hlookup⟩ |
    ⟨hquiet, hnoquery, hmoved⟩
  · -- an attempt makes an entry with an attempt in it
    have hdirty : ¬ Clean config p (past ++ [e]) := not_clean_of_attempt hattempt
    refine ⟨hkept, fun _ => ⟨fun hnone => ?_, fun hc => absurd hc hdirty⟩,
      fun _ => ⟨fun hempty => ?_, fun hc => absurd hc hdirty⟩⟩
    · rw [hnone] at hsome
      cases hsome
    · obtain ⟨dropped, rest, -, hnext, -⟩ := nextStored_split e p (stored w.limiter p)
      rw [step_stored he, hnext, attemptsOf_attempt hattempt, if_pos rfl] at hempty
      exact absurd hempty (List.append_ne_nil_of_right_ne_nil _ (List.cons_ne_nil _ _))
  · obtain ⟨hidle, hbusy⟩ := residue_queried h hrun he hclock hsilent hquery hcount hlookup
    exact ⟨hkept, hidle, hbusy⟩
  · have hsame : Clean config p (past ++ [e]) ↔ Clean config p past := by
      rw [clean_snoc hquiet, or_iff_left]
      rintro ⟨now, w₀, hquery, -⟩
      rw [hnoquery] at hquery
      cases hquery
    rcases hmoved with hreturned | ⟨hcount, hlookup⟩
    · obtain ⟨hidle, hbusy⟩ := residue_returned hacc h hreturned
      exact ⟨hkept, fun h₀ => (hidle h₀).trans hsame.symm, fun h₀ => (hbusy h₀).trans hsame.symm⟩
    · refine ⟨hkept, fun h₀ => ?_, fun h₀ => ?_⟩
      · rw [hlookup, hsame]
        exact h.idle (hcount ▸ h₀)
      · rw [stored_congr hlookup, hsame]
        exact h.busy (hcount ▸ h₀)

/-- **Run lemma.** -/
theorem run_residue {es : List Event} (hclock : Always Clocked es)
    (hrun : runFrom UatRateLimit.step (.start config) es = some w) (p : NodeId) :
    Residue config es w p := by
  -- The step lemma needs the run itself and the counters, so all three go through together.
  have hinv : ∀ es w, Always Clocked es →
      runFrom UatRateLimit.step (.start config) es = some w →
      runFrom UatRateLimit.step (.start config) es = some w ∧ Accounted config w ∧
        Residue config es w p := by
    refine run_invariant_past ⟨rfl, accounted_start config, residue_start config p⟩ ?_
    rintro past w e w' hlaw ⟨hrun, hacc, h⟩ he
    refine ⟨?_, accounted_step e hacc he, h.step hacc hrun he hlaw⟩
    rw [runFrom_snoc, hrun]
    exact he
  exact (hinv es w hclock hrun).2.2

/-! ## Whole runs -/

/-- `t` is a time at which `e` can have happened between `before` and `after`: its own
    reading of the clock if it has one. -/
def HappensAt (before : List Event) (e : Event) (after : List Event) (t : Instant) : Prop :=
  (∀ now ∈ reading e, now = t) ∧ (∀ e' ∈ before, ∀ now ∈ reading e', now ≤ t) ∧
    ∀ e' ∈ after, ∀ now ∈ reading e', t ≤ now

/-- An operation on `p` at `t` that leaves it without a permit and without an attempt less
    than 60 s old. -/
structure LeavesIdle (config : RateLimitConfig) (es before : List Event) (e : Event)
    (w w' : World) (p : NodeId) (t : Instant) : Prop where
  inRun : ∃ after, es = before ++ e :: after ∧ HappensAt before e after t
  reached : runFrom UatRateLimit.step (.start config) before = some w
  next : UatRateLimit.step w e = some w'
  touches : e.peer w = some p
  idle : outstanding w' p = 0
  old : ∀ a ∈ attemptsOf p (before ++ [e]), recent window t a = false

/-- In the run `before ++ e :: after` to `w`, the last operation on `p` is `e`. -/
def LastOn (config : RateLimitConfig) (p : NodeId) (before : List Event) (e : Event)
    (after : List Event) (w : World) : Prop :=
  ∃ w₀ w₁, runFrom UatRateLimit.step (.start config) before = some w₀ ∧ e.peer w₀ = some p ∧
    UatRateLimit.step w₀ e = some w₁ ∧
    EveryStep UatRateLimit.step (fun w e => e.peer w ≠ some p) w₁ after ∧
    runFrom UatRateLimit.step w₁ after = some w

/-- What the map holds after a run: only peers with a permit out, or with an attempt less
    than 60 s old at their last operation. -/
def OnlyLive (config : RateLimitConfig) (es : List Event) : Prop :=
  ∀ w p, runFrom UatRateLimit.step (.start config) es = some w →
    (w.limiter.inner.lookup p).isSome → 0 < outstanding w p ∨
      ∃ before e after, es = before ++ e :: after ∧ LastOn config p before e after w ∧
        ∀ t, HappensAt before e after t →
          ∃ a ∈ attemptsOf p (before ++ [e]), recent window t a = true

/-- Idle peers leave no residue: the entry is gone right after the operation that leaves
    the peer idle. -/
structure NoResidue (config : RateLimitConfig) (es : List Event) : Prop where
  removed : ∀ before e w w' p t, LeavesIdle config es before e w w' p t →
    w'.limiter.inner.lookup p = none
  onlyLive : OnlyLive config es

/-- Every peer that an operation leaves idle was swept while it still held a permit. -/
def SweptInTime (config : RateLimitConfig) (es : List Event) : Prop :=
  ∀ before e w w' p t, LeavesIdle config es before e w w' p t → Clean config p (before ++ [e])

/-- After an operation that leaves a peer idle, its entry is gone exactly when the peer is
    clean. -/
theorem removed_iff_clean {es before : List Event} {t : Instant} (hclock : Always Clocked es)
    (h : LeavesIdle config es before e w w' p t) :
    w'.limiter.inner.lookup p = none ↔ Clean config p (before ++ [e]) := by
  obtain ⟨after, rfl, -⟩ := h.inRun
  rw [← List.singleton_append, ← List.append_assoc] at hclock
  have hrun : runFrom UatRateLimit.step (.start config) (before ++ [e]) = some w' := by
    rw [runFrom_snoc, h.reached]
    exact h.next
  exact (run_residue hclock.of_append hrun p).idle h.idle

/-- A step on another peer leaves the permits of `p` as they are. -/
theorem outstanding_frame (hacc : Accounted config w) (he : UatRateLimit.step w e = some w')
    (hother : e.peer w ≠ some p) : outstanding w' p = outstanding w p := by
  rw [← hacc.counted, ← (accounted_step e hacc he).counted, RateLimiter.inFlight,
    step_frame he hother, RateLimiter.inFlight]

/-- The entries of a run in which what goes idle is removed.  The induction is on the events
    so far; `rest` are those still to come, which bound the time of the last operation. -/
theorem onlyLive_of_removed {es : List Event}
    (hremoved : ∀ before e w w' p t, LeavesIdle config es before e w w' p t →
      w'.limiter.inner.lookup p = none) :
    ∀ past rest, es = past ++ rest → ∀ w p,
      runFrom UatRateLimit.step (.start config) past = some w →
      (w.limiter.inner.lookup p).isSome → 0 < outstanding w p ∨
        ∃ before e after, past = before ++ e :: after ∧ LastOn config p before e after w ∧
          ∀ t, HappensAt before e (after ++ rest) t →
            ∃ a ∈ attemptsOf p (before ++ [e]), recent window t a = true := by
  -- Induction on the past: only the last event that touches `p` counts.
  intro past
  induction past using List.reverseRecOn with
  | nil =>
      intro rest _ w p hrun hsome
      obtain rfl := Option.some.inj hrun
      cases hsome
  | append_singleton past e ih =>
      intro rest hes w' p hrun hsome
      have hes' : es = past ++ e :: rest := by
        rw [hes, List.append_assoc]
        rfl
      rw [runFrom_snoc] at hrun
      obtain ⟨w, hreach, he⟩ := Option.bind_eq_some_iff.mp hrun
      have hacc : Accounted config w :=
        run_invariant (Accounted config) (fun _ e _ hw he => accounted_step e hw he) past _ w
          (accounted_start config) hreach
      by_cases htouch : e.peer w = some p
      · rcases Nat.eq_zero_or_pos (outstanding w' p) with hidle | hbusy
        · refine Or.inr ⟨past, e, [], rfl, ⟨w, w', hreach, htouch, he, trivial, rfl⟩,
            fun t ht => ?_⟩
          by_contra hnone
          have hold : ∀ a ∈ attemptsOf p (past ++ [e]), recent window t a = false := by
            intro a ha
            rw [← Bool.not_eq_true]
            exact fun hrecent => hnone ⟨a, ha, hrecent⟩
          rw [hremoved past e w w' p t
            ⟨⟨rest, hes', ht⟩, hreach, he, htouch, hidle, hold⟩] at hsome
          cases hsome
        · exact Or.inl hbusy
      · rw [step_frame he htouch] at hsome
        rw [outstanding_frame hacc he htouch]
        rcases ih (e :: rest) hes' w p hreach hsome with hbusy |
          ⟨before, e₀, after, rfl, ⟨w₀, w₁, h₀, htouch₀, he₀, hquiet, hrest⟩, hrecent⟩
        · exact Or.inl hbusy
        · refine Or.inr ⟨before, e₀, after ++ [e], by rw [List.append_assoc, List.cons_append],
            ⟨w₀, w₁, h₀, htouch₀, he₀, hquiet.snoc hrest htouch, ?_⟩, fun t ht => ?_⟩
          · rw [runFrom_snoc, hrest]
            exact he
          · refine hrecent t ?_
            rwa [List.append_assoc] at ht

/-- **IDLE PEERS.**  For every configuration and every run whose clock does not go back: the
    limiter keeps no residue of idle peers exactly when every peer that an operation leaves
    idle was swept, by a window query that found its attempts old while a permit was out. -/
theorem no_residue_iff (config : RateLimitConfig) {es : List Event}
    (hclock : Always Clocked es) : NoResidue config es ↔ SweptInTime config es := by
  constructor
  · intro h before e w w' p t hidle
    exact (removed_iff_clean hclock hidle).mp (h.removed before e w w' p t hidle)
  · intro h
    have hremoved : ∀ before e w w' p t, LeavesIdle config es before e w w' p t →
        w'.limiter.inner.lookup p = none := fun before e w w' p t hidle =>
      (removed_iff_clean hclock hidle).mpr (h before e w w' p t hidle)
    refine ⟨hremoved, fun w p hrun hsome => ?_⟩
    have honly := onlyLive_of_removed hremoved es [] (List.append_nil es).symm w p hrun hsome
    simpa only [List.append_nil] using honly

end

/-- One admitted call whose permit is dropped when its attempt is a minute old. -/
def leftBehind : List Event := [.tryAdmitAt dialer 0, .drop 0]

theorem no_residue_iff_leftBehind :
    NoResidue tightTwo leftBehind ↔ SweptInTime tightTwo leftBehind :=
  no_residue_iff tightTwo (by decide)

/-- The entry is still there, with its one attempt. -/
theorem leftBehind_residue : Always Clocked leftBehind ∧ ¬ NoResidue tightTwo leftBehind := by
  refine ⟨by decide, fun h => ?_⟩
  obtain ⟨w, hw⟩ : ∃ w, runFrom step (.start tightTwo) [.tryAdmitAt dialer 0] = some w := ⟨_, rfl⟩
  obtain ⟨w', hw', hidle, hleft⟩ : ∃ w', step w (.drop 0) = some w' ∧ outstanding w' dialer = 0 ∧
      (w'.limiter.inner.lookup dialer).isSome := by
    obtain rfl := Option.some.inj hw
    exact ⟨_, rfl, rfl, rfl⟩
  have hpeer : (Event.drop 0).peer w = some dialer := by
    obtain rfl := Option.some.inj hw
    rfl
  have hnone := h.removed [.tryAdmitAt dialer 0] (.drop 0) w w' dialer window
    ⟨⟨[], rfl, by decide, by decide, by decide⟩, hw, hw', hpeer, hidle, by decide⟩
  rw [hnone] at hleft
  cases hleft

end UatRateResidue
