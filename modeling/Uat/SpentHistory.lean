import Uat.Policy
import Uat.Base.Expiry

/-! # The spent set beside a history that never forgets

    `MemorySpentSet` drops an entry as soon as a call finds its date reached.  The reference
    keeps every `(id, expires)` that was ever spent and drops nothing.  As long as the
    clocks of the calls do not go back, nobody can tell the two apart: every answer is the
    same, and after a `contains` or a `len` the stored map holds the live ids exactly. -/

namespace UatSpentHistory

open UatPolicy HashMap Expiry

/-- A call of the spent set. -/
inductive Op where
  | contains (id : BiscuitId) (now : SystemTime)
  | trySpend (id : BiscuitId) (expires now : SystemTime)
  | len (now : SystemTime)

/-- The clock of a call. -/
def Op.now : Op → SystemTime
  | .contains _ now | .trySpend _ _ now | .len now => now

/-- `contains` and `len` only look. -/
def Op.looks : Op → Bool
  | .trySpend .. => false
  | _ => true

/-- What a call returns. -/
inductive Answer where
  | bool (b : Bool)
  | count (n : Nat)
  deriving DecidableEq

/-- One call of `MemorySpentSet`. -/
def call (spent : MemorySpentSet) : Op → Answer × MemorySpentSet
  | .contains id now => (.bool (spent.contains id now).1, (spent.contains id now).2)
  | .trySpend id expires now =>
      (.bool (spent.trySpend id expires now).1, (spent.trySpend id expires now).2)
  | .len now => (.count (spent.len now).1, (spent.len now).2)

/-! ## The reference -/

/-- All that was ever spent, with its dates. -/
abbrev Kept := List (BiscuitId × SystemTime)

/-- The id was spent, and one of its dates lies ahead. -/
def Kept.contains (kept : Kept) (id : BiscuitId) (now : SystemTime) : Bool :=
  decide (Live kept now id)

/-- One call of the reference: it answers from the history, and only a spend that succeeds
    changes it. -/
def Kept.call (kept : Kept) : Op → Answer × Kept
  | .contains id now => (.bool (kept.contains id now), kept)
  | .trySpend id expires now =>
      if kept.contains id now then (.bool false, kept) else (.bool true, (id, expires) :: kept)
  | .len now => (.count (liveKeys kept now).card, kept)

/-- The answers to a sequence of calls, and the state after it. -/
def runOps {S : Type} (call : S → Op → Answer × S) : S → List Op → List Answer × S
  | s, [] => ([], s)
  | s, op :: ops =>
      ((call s op).1 :: (runOps call (call s op).2 ops).1, (runOps call (call s op).2 ops).2)

/-- A sequence of calls is run piece by piece. -/
theorem runOps_append {S : Type} (call : S → Op → Answer × S) (ops ops' : List Op) :
    ∀ s, runOps call s (ops ++ ops') =
      ((runOps call s ops).1 ++ (runOps call (runOps call s ops).2 ops').1,
        (runOps call (runOps call s ops).2 ops').2) := by
  induction ops with
  | nil => intro s; rfl
  | cons op ops ih =>
      intro s
      rw [List.cons_append, runOps, ih]
      rfl

/-! ## The simulation -/

/-- **One call.**  The answers agree, and the map tracks the history from the call's clock
    on. -/
theorem call_tracks {spent : MemorySpentSet} {kept : Kept} {op : Op}
    (h : Tracks spent kept op.now) :
    (call spent op).1 = (kept.call op).1 ∧ Tracks (call spent op).2 (kept.call op).2 op.now := by
  cases op with
  | contains id now =>
      refine ⟨congrArg Answer.bool ?_, h.evict⟩
      exact Bool.eq_iff_iff.mpr ((h.containsKey id).trans decide_eq_true_iff.symm)
  | trySpend id expires now =>
      have hheld := h.containsKey id
      by_cases hlive : Live kept now id
      · have hspend : spent.trySpend id expires now = (false, evictExpired spent now) :=
          if_pos (hheld.mpr hlive)
        have href : kept.call (.trySpend id expires now) = (.bool false, kept) :=
          if_pos (decide_eq_true hlive)
        rw [call, hspend, href]
        exact ⟨rfl, h.evict⟩
      · have hspend : spent.trySpend id expires now =
            (true, (evictExpired spent now).insert id expires) :=
          if_neg fun hkey => hlive (hheld.mp hkey)
        have href : kept.call (.trySpend id expires now) =
            (.bool true, (id, expires) :: kept) :=
          if_neg (by rw [Kept.contains, decide_eq_true_eq]; exact hlive)
        rw [call, hspend, href]
        exact ⟨rfl, h.evict.insert hlive⟩
  | len now => exact ⟨congrArg Answer.count h.length, h.evict⟩

/-- A sequence of calls whose clocks do not go back. -/
theorem runOps_tracks (ops : List Op) :
    ∀ (spent : MemorySpentSet) (kept : Kept),
      ops.Pairwise (fun a b => a.now ≤ b.now) →
      (∀ op ∈ ops, Tracks spent kept op.now) →
      (runOps call spent ops).1 = (runOps Kept.call kept ops).1 ∧
      ∀ later, (∀ op ∈ ops, op.now ≤ later) → Tracks spent kept later →
        Tracks (runOps call spent ops).2 (runOps Kept.call kept ops).2 later := by
  induction ops with
  | nil => exact fun _ _ _ _ => ⟨rfl, fun _ _ h => h⟩
  | cons op ops ih =>
      intro spent kept hmono htracks
      obtain ⟨hhead, hmono⟩ := List.pairwise_cons.mp hmono
      obtain ⟨hanswer, htrack⟩ := call_tracks (htracks op List.mem_cons_self)
      obtain ⟨hanswers, hrest⟩ := ih (call spent op).2 (kept.call op).2 hmono
        fun op' hop' => htrack.later (hhead op' hop')
      refine ⟨congrArg₂ List.cons hanswer hanswers, fun later hlater _ => ?_⟩
      obtain ⟨hop, hops⟩ := List.forall_mem_cons.mp hlater
      exact hrest later hops (htrack.later hop)

/-- **LAZY EVICTION IS INVISIBLE.**  For every sequence of calls whose clocks do not go
    back, every answer is that of the reference, and after each `contains` or `len` the
    stored map holds exactly the ids live at its clock. -/
theorem lazy_eviction_invisible (ops : List Op)
    (hmono : ops.Pairwise fun a b => a.now ≤ b.now) :
    (runOps call .new ops).1 = (runOps Kept.call [] ops).1 ∧
      ∀ before op after, ops = before ++ op :: after → op.looks = true → ∀ id,
        HashMap.containsKey (runOps call .new (before ++ [op])).2 id = true ↔
          Live (runOps Kept.call [] (before ++ [op])).2 op.now id := by
  refine ⟨(runOps_tracks ops .new [] hmono fun op _ => tracks_empty op.now).1, ?_⟩
  rintro before op after rfl hlooks id
  obtain ⟨hbefore, -, hcross⟩ := List.pairwise_append.mp hmono
  have htrack := (runOps_tracks before .new [] hbefore fun op _ => tracks_empty op.now).2 op.now
    (fun op' hop' => hcross op' hop' op List.mem_cons_self) (tracks_empty op.now)
  rw [runOps_append, runOps_append]
  cases op with
  | trySpend => cases hlooks
  | contains _ now => exact htrack.containsKey id
  | len now => exact htrack.containsKey id

/-- A spend, the same id after its date, and a look. -/
def respent : List Op :=
  [.trySpend ⟨List.replicate 32 7, rfl⟩ (secondsAfterEpoch 500 (by decide))
      (secondsAfterEpoch 300 (by decide)),
    .trySpend ⟨List.replicate 32 7, rfl⟩ (secondsAfterEpoch 900 (by decide))
      (secondsAfterEpoch 500 (by decide)),
    .len (secondsAfterEpoch 800 (by decide))]

theorem lazy_eviction_invisible_respent :
    respent.Pairwise (fun a b => a.now ≤ b.now) ∧
      (runOps call .new respent).1 = (runOps Kept.call [] respent).1 :=
  ⟨by decide, (lazy_eviction_invisible respent (by decide)).1⟩

end UatSpentHistory
