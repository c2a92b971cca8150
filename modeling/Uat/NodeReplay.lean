import Uat.Base.StepRun
import Uat.OneShot

/-! # Replay within a running node

    Any number of callee runs share one policy and its spent set under a clock that only
    moves forward.  A run samples the clock when it starts and authorizes its first frame
    with that sample, up to the idle timeout later, so the clocks that reach the spent
    set need not be in order.

    For one fixed one-shot token, `Invariant` relates the entry of the spent set to the
    history of the node: the entry is there from the first admission on, until some run
    consults the set with a clock that has reached the token's date (`Lapsed`).  The
    only way to a second admission is a run that presents the token after that with an
    older sample, and `replay_safe_iff` is exact about it. -/

namespace UatNodeReplay

open UatTypes UatPolicy UatVerify UatFactChecks UatAttenuation Checked StepRun
open UatOneShot (stranger)

section

variable [Base64Engine]

/-- A callee run that waits for its first frame, with the clock it sampled. -/
structure Waiting where
  peer : NodeId
  now : SystemTime

/-- One authorization of a first frame. -/
structure Served where
  peer : NodeId
  header : Message
  now : SystemTime
  result : Verdict AuthorizedSubmit

/-- The node: its clock, the runs that wait, the shared spent set, and the authorizations
    so far, newest first. -/
structure Node where
  clock : SystemTime
  waiting : Nat → Option Waiting
  spent : MemorySpentSet
  log : List Served

/-- A node on which nobody has called. -/
def Node.start (clock : SystemTime) : Node := ⟨clock, fun _ => none, .new, []⟩

/-- The clock moves, or a run begins, has its first frame, or leaves without one. -/
inductive Event where
  | tick (clock : SystemTime)
  | enter (run : Nat) (peer : NodeId)
  | firstFrame (run : Nat) (header : Message)
  | leave (run : Nat)

/-- `QUIC_IDLE_TIMEOUT_MS`, in nanoseconds. -/
def quicIdleTimeout : Int := 10000 * 10 ^ 6

/-- One run waits for something else. -/
def setRun (waiting : Nat → Option Waiting) (run : Nat) (w : Option Waiting) :
    Nat → Option Waiting :=
  fun r => if r = run then w else waiting r

variable {Key : Type} [BiscuitEngine Key]

/-- One step of the node.  A run leaves without a first frame when it idles out, is
    cancelled, or its connection ends. -/
def step (policy : Policy Key) (n : Node) : Event → Option Node
  | .tick clock => if n.clock ≤ clock then some { n with clock := clock } else none
  | .enter run peer =>
      match n.waiting run with
      | none => some { n with waiting := setRun n.waiting run (some ⟨peer, n.clock⟩) }
      | some _ => none
  | .firstFrame run header =>
      match n.waiting run with
      | some w =>
          if n.clock.nanos ≤ w.now.nanos + quicIdleTimeout then
            let result := authorizeSubmitHeader header policy n.spent w.peer w.now
            some { n with
              waiting := setRun n.waiting run none
              spent := result.2
              log := ⟨w.peer, header, w.now, result.1⟩ :: n.log }
          else none
      | none => none
  | .leave run => some { n with waiting := setRun n.waiting run none }

/-! ## One fixed token -/

/-- The token under study: its bytes and what they parse to. -/
structure FixedToken (policy : Policy Key) where
  raw : Bytes
  biscuit : Biscuit
  id : BiscuitId
  parses : BiscuitEngine.fromBytes raw (chooseRoot policy.rootKeys) = some biscuit
  identified : biscuitIdFromToken biscuit = .ok id
  oneShot : ∃ fs, biscuit.queryAll .oneShot = some fs ∧ fs ≠ []

variable {policy : Policy Key}

/-- Whoever presents a token with this id presents these bytes. -/
def SameBytes (tok : FixedToken policy) : Event → Prop
  | .firstFrame _ (.submit _ _ _ (some credential) _) =>
      ∀ raw b, credential.decode = .ok raw →
        BiscuitEngine.fromBytes raw (chooseRoot policy.rootKeys) = some b →
        biscuitIdFromToken b = .ok tok.id → raw = tok.raw
  | _ => True

/-- The clock lies before every date of the token. -/
def BeforeDates (tok : FixedToken policy) (t : SystemTime) : Prop :=
  ∀ fs, tok.biscuit.queryAll .expires = some fs → ∀ f ∈ fs, Precedes t f

/-- The run consulted the spent set. -/
def Consults (policy : Policy Key) (s : Served) : Prop :=
  ∃ c, clearSubmit policy s.header s.peer s.now = some c ∧ c.oneShot = true

/-- Since the token was admitted, a run has consulted the spent set with a clock that has
    reached one of the token's dates. -/
def Lapsed (tok : FixedToken policy) : List Served → Prop
  | [] => False
  | s :: older =>
      (Consults policy s ∧ ¬ BeforeDates tok s.now ∧
        ∃ s' ∈ older, admittedAs tok.id s'.result = true) ∨
      Lapsed tok older

/-- No run presents the token, with a sample at which it still clears, once it has
    lapsed. -/
def InTime (tok : FixedToken policy) (n : Node) : Event → Prop
  | .firstFrame run header =>
      ∀ w c, n.waiting run = some w → clearSubmit policy header w.peer w.now = some c →
        c.id = tok.id → ¬ Lapsed tok n.log
  | _ => True

/-- How many of the calls served were admitted under the token's id. -/
def admissions (tok : FixedToken policy) (log : List Served) : Nat :=
  log.countP fun s => admittedAs tok.id s.result

/-- What the spent set holds for the token, given the history. -/
inductive Entry (tok : FixedToken policy) (n : Node) : Prop where
  | fresh (h : admissions tok n.log = 0) (hcell : n.spent.lookup tok.id = none)
  | held (h : ∃ s ∈ n.log, admittedAs tok.id s.result = true) (hno : ¬ Lapsed tok n.log)
      (e : SystemTime) (hcell : n.spent.lookup tok.id = some e)
      (hdate : ∀ t, t < e ↔ BeforeDates tok t)
  | lapsed (h : Lapsed tok n.log) (hcell : n.spent.lookup tok.id = none)

/-- A lapse comes after an admission. -/
theorem lapsed_admitted {tok : FixedToken policy} :
    ∀ {log : List Served}, Lapsed tok log → ∃ s ∈ log, admittedAs tok.id s.result = true := by
  intro log
  induction log with
  | nil => exact False.elim
  | cons s older ih =>
      rintro (⟨-, -, s', hs', hadm⟩ | h)
      · exact ⟨s', List.mem_cons_of_mem s hs', hadm⟩
      · obtain ⟨s', hs', hadm⟩ := ih h
        exact ⟨s', List.mem_cons_of_mem s hs', hadm⟩

/-- What clears under the token's id is the token: it is one-shot, its dates are the
    token's, and they lie ahead of the clock. -/
theorem clears_token {tok : FixedToken policy} {run : Nat} {header : Message}
    {peer : NodeId} {now : SystemTime} {c : Cleared}
    (hsame : SameBytes tok (.firstFrame run header))
    (hclear : clearSubmit policy header peer now = some c) (hid : c.id = tok.id) :
    c.oneShot = true ∧ (∀ t, t < c.earliestExpires ↔ BeforeDates tok t) ∧
      BeforeDates tok now := by
  obtain ⟨task, deadline, contentType, credential, rfl, -, hc⟩ := clearSubmit_eq_some hclear
  obtain ⟨selfId, b, -, -, hcarries, hpass, hcleared⟩ := clearCredential_ok hc
  obtain rfl : b = tok.biscuit := by
    obtain ⟨raw, hdecode, hparse⟩ := carries_parses hcarries
    obtain rfl := hsame raw b hdecode hparse (hid ▸ hcleared.id)
    exact Option.some.inj (hparse.symm.trans tok.parses)
  refine ⟨hcleared.oneShot.mpr tok.oneShot, hcleared.earliest, ?_⟩
  intro fs hfs f hf
  exact passes_precedes hpass hfs hf

/-- The last call served counts if it was admitted. -/
theorem admissions_cons (tok : FixedToken policy) (s : Served) (log : List Served) :
    admissions tok (s :: log) =
      admissions tok log + if admittedAs tok.id s.result = true then 1 else 0 :=
  List.countP_cons

/-- A call that was admitted is counted. -/
theorem pos_of_admitted {tok : FixedToken policy} {log : List Served}
    (h : ∃ s ∈ log, admittedAs tok.id s.result = true) : 0 < admissions tok log :=
  List.countP_pos_iff.mpr h

/-! ### What one authorization does to the entry

    It leaves the token's entry alone, or it is another token's and the entry only
    lapses, or it is the token's and serves the lease. -/

section

variable {tok : FixedToken policy} {n n' : Node} {s : Served}

/-- The entry is a matter of the spent set and the history alone. -/
theorem Entry.of_same (hE : Entry tok n) (hspent : n'.spent = n.spent)
    (hlog : n'.log = n.log) : Entry tok n' := by
  cases hE with
  | fresh h hc => exact .fresh (by rw [hlog]; exact h) (by rw [hspent]; exact hc)
  | held h hnl e hc hdate =>
      exact .held (by rw [hlog]; exact h) (by rw [hlog]; exact hnl) e
        (by rw [hspent]; exact hc) hdate
  | lapsed h hc => exact .lapsed (by rw [hlog]; exact h) (by rw [hspent]; exact hc)

/-- An authorization that does not reach the spent set. -/
theorem entry_unclear (hlog : n'.log = s :: n.log)
    (hcell : n'.spent.lookup tok.id = n.spent.lookup tok.id)
    (hadm : admittedAs tok.id s.result = false) (hno : ¬ Consults policy s)
    (hE : Entry tok n) : Entry tok n' := by
  have hlapsed : Lapsed tok (s :: n.log) ↔ Lapsed tok n.log :=
    ⟨fun h => h.resolve_left fun h' => hno h'.1, Or.inr⟩
  cases hE with
  | fresh h hc =>
      refine .fresh ?_ (hcell.trans hc)
      rw [hlog, admissions_cons, hadm, h]
      rfl
  | held h hnl e hc hdate =>
      obtain ⟨s', hs', hs'adm⟩ := h
      refine .held ⟨s', ?_, hs'adm⟩ ?_ e (hcell.trans hc) hdate
      · rw [hlog]
        exact List.mem_cons_of_mem s hs'
      · rw [hlog, hlapsed]
        exact hnl
  | lapsed h hc =>
      refine .lapsed ?_ (hcell.trans hc)
      rw [hlog, hlapsed]
      exact h

/-- Another one-shot token reaches the spent set. -/
theorem entry_other (hlog : n'.log = s :: n.log)
    (hcell : n'.spent.lookup tok.id = Lease.lapse (n.spent.lookup tok.id) s.now)
    (hadm : admittedAs tok.id s.result = false) (hcons : Consults policy s)
    (hE : Entry tok n) : Entry tok n' := by
  cases hE with
  | fresh h hc =>
      rw [hc] at hcell
      refine .fresh ?_ hcell
      rw [hlog, admissions_cons, hadm, h]
      rfl
  | held h hnl e hc hdate =>
      rw [hc] at hcell
      -- The other token's clock decides whether this entry is still kept.
      by_cases hlt : s.now < e
      · rw [Lease.lapse_of_lt hlt] at hcell
        obtain ⟨s', hs', hs'adm⟩ := h
        refine .held ⟨s', ?_, hs'adm⟩ ?_ e hcell hdate
        · rw [hlog]
          exact List.mem_cons_of_mem s hs'
        · rw [hlog]
          rintro (⟨-, hbefore, -⟩ | h')
          · exact hbefore ((hdate s.now).mp hlt)
          · exact hnl h'
      · rw [Lease.lapse_of_le (not_lt.mp hlt)] at hcell
        refine .lapsed ?_ hcell
        rw [hlog]
        exact Or.inl ⟨hcons, fun hbefore => hlt ((hdate s.now).mpr hbefore), h⟩
  | lapsed h hc =>
      rw [hc] at hcell
      refine .lapsed ?_ hcell
      rw [hlog]
      exact Or.inr h

/-- The token itself reaches the spent set: it is admitted a second time exactly when it
    has lapsed. -/
theorem entry_token {r : Lease.Request SystemTime} (hlog : n'.log = s :: n.log)
    (hnow : r.now = s.now) (hdate : ∀ t, t < r.till ↔ BeforeDates tok t)
    (hbefore : BeforeDates tok s.now)
    (hcell : n'.spent.lookup tok.id = Lease.serve (n.spent.lookup tok.id) r)
    (hadm : admittedAs tok.id s.result = decide (Lease.Granted (n.spent.lookup tok.id) r))
    (hE : Entry tok n) (hP : admissions tok n.log ≤ 1) :
    (admissions tok n'.log ≤ 1 ↔ ¬ Lapsed tok n.log) ∧
      (admissions tok n'.log ≤ 1 → Entry tok n') := by
  have hlapsed : Lapsed tok (s :: n.log) ↔ Lapsed tok n.log :=
    ⟨fun h => h.resolve_left fun h' => h'.2.1 hbefore, Or.inr⟩
  cases hE with
  | fresh h hc =>
      have hg : Lease.Granted (n.spent.lookup tok.id) r := by
        rw [hc]
        exact rfl
      have hyes : admittedAs tok.id s.result = true := by rw [hadm, decide_eq_true hg]
      -- No lapse before the first admission.
      have hnl : ¬ Lapsed tok n.log := by
        intro hl
        have := pos_of_admitted (lapsed_admitted hl)
        omega
      have hone : admissions tok n'.log = 1 := by
        rw [hlog, admissions_cons, hyes, h]
        rfl
      rw [Lease.serve_granted hg] at hcell
      refine ⟨⟨fun _ => hnl, fun _ => by omega⟩, fun _ => .held ⟨s, ?_, hyes⟩ ?_ _ hcell hdate⟩
      · rw [hlog]
        exact List.mem_cons_self
      · rw [hlog, hlapsed]
        exact hnl
  | held h hnl e hc hdate' =>
      have hg : ¬ Lease.Granted (n.spent.lookup tok.id) r := by
        -- The entry carries the token's own dates, and they lie ahead of this clock.
        have hlt : r.now < e := hnow ▸ (hdate' s.now).mpr hbefore
        show ¬ Lease.lapse (n.spent.lookup tok.id) r.now = none
        rw [hc, Lease.lapse_of_lt hlt]
        exact nofun
      have hno : admittedAs tok.id s.result = false := by rw [hadm, decide_eq_false hg]
      have hsame : admissions tok n'.log = admissions tok n.log := by
        rw [hlog, admissions_cons, hno]
        rfl
      rw [Lease.serve_refused hg] at hcell
      refine ⟨⟨fun _ => hnl, fun _ => by omega⟩, fun _ => ?_⟩
      obtain ⟨s', hs', hs'adm⟩ := h
      refine .held ⟨s', ?_, hs'adm⟩ ?_ e (hcell.trans hc) hdate'
      · rw [hlog]
        exact List.mem_cons_of_mem s hs'
      · rw [hlog, hlapsed]
        exact hnl
  | lapsed h hc =>
      have hg : Lease.Granted (n.spent.lookup tok.id) r := by
        rw [hc]
        exact rfl
      have hyes : admittedAs tok.id s.result = true := by rw [hadm, decide_eq_true hg]
      -- The one case that admits the token a second time.
      have htwo : admissions tok n'.log = admissions tok n.log + 1 := by
        rw [hlog, admissions_cons, if_pos hyes]
      have := pos_of_admitted (lapsed_admitted h)
      exact ⟨⟨fun h' => by omega, fun h' => absurd h h'⟩, fun h' => by omega⟩

end

/-- What a first frame does. -/
theorem step_firstFrame {n n' : Node} {run : Nat} {header : Message}
    (h : step policy n (.firstFrame run header) = some n') :
    ∃ w, n.waiting run = some w ∧
      n'.spent = (authorizeSubmitHeader header policy n.spent w.peer w.now).2 ∧
      n'.log = ⟨w.peer, header, w.now,
        (authorizeSubmitHeader header policy n.spent w.peer w.now).1⟩ :: n.log := by
  rw [step] at h
  dsimp only at h
  split at h
  · next w hw =>
      split at h
      · obtain rfl := Option.some.inj h
        exact ⟨w, hw, rfl, rfl⟩
      · cases h
  · cases h

/-- Every other event leaves the spent set and the history alone. -/
theorem step_quiet {n n' : Node} {e : Event} (h : step policy n e = some n')
    (he : ∀ run header, e ≠ .firstFrame run header) :
    n'.spent = n.spent ∧ n'.log = n.log := by
  cases e with
  | firstFrame run header => exact absurd rfl (he run header)
  | tick clock =>
      simp only [step] at h
      split at h
      · obtain rfl := Option.some.inj h
        exact ⟨rfl, rfl⟩
      · cases h
  | enter run peer =>
      simp only [step] at h
      split at h
      · obtain rfl := Option.some.inj h
        exact ⟨rfl, rfl⟩
      · cases h
  | leave run =>
      obtain rfl := Option.some.inj h
      exact ⟨rfl, rfl⟩

/-- A first frame is in time by the sample of the run that waits for it: there is one. -/
theorem inTime_firstFrame {tok : FixedToken policy} {n : Node} {run : Nat} {header : Message}
    {w : Waiting} (hw : n.waiting run = some w) :
    InTime tok n (.firstFrame run header) ↔
      ∀ c, clearSubmit policy header w.peer w.now = some c → c.id = tok.id →
        ¬ Lapsed tok n.log := by
  constructor
  · intro hi c hc hid
    exact hi w c hw hc hid
  · intro hi w' c hw' hc hid
    obtain rfl := Option.some.inj (hw.symm.trans hw')
    exact hi c hc hid

/-- **Step lemma.** From a state with at most one admission, a step keeps it so exactly
    when it is in time, and then the entry is still what the history says. -/
theorem entry_step {tok : FixedToken policy} (n : Node) (e : Event) (n' : Node)
    (hE : Entry tok n) (hP : admissions tok n.log ≤ 1) (hsame : SameBytes tok e)
    (h : step policy n e = some n') :
    (admissions tok n'.log ≤ 1 ↔ InTime tok n e) ∧
      (admissions tok n'.log ≤ 1 → Entry tok n') := by
  by_cases he : ∃ run header, e = .firstFrame run header
  · obtain ⟨run, header, rfl⟩ := he
    obtain ⟨w, hw, hspent, hlog⟩ := step_firstFrame h
    rw [inTime_firstFrame hw]
    cases hclear : clearSubmit policy header w.peer w.now with
    | none =>
        obtain ⟨hstay, hadm⟩ := authorize_unclear n.spent hclear
        have hP' : admissions tok n'.log ≤ 1 := by
          rw [hlog, admissions_cons, hadm tok.id]
          exact hP
        refine ⟨⟨fun _ c hc => (nomatch hc), fun _ => hP'⟩, fun _ => ?_⟩
        refine entry_unclear hlog (by rw [hspent, hstay]) (hadm tok.id) ?_ hE
        rintro ⟨c, hc, -⟩
        cases hclear.symm.trans hc
    | some c =>
        obtain ⟨hmove, hadm⟩ := authorize_cleared n.spent hclear
        -- A header that clears is this token or some other one.
        by_cases hid : c.id = tok.id
        · obtain ⟨hone, hdate, hbefore⟩ := clears_token hsame hclear hid
          have hcell : n'.spent.lookup tok.id =
              Lease.serve (n.spent.lookup tok.id) (leaseRequest w.now c) := by
            rw [hspent, hmove, spendToken_lookup n.spent hone, if_pos hid.symm]
          have hadm' : admittedAs tok.id
              (authorizeSubmitHeader header policy n.spent w.peer w.now).1 =
              decide (Lease.Granted (n.spent.lookup tok.id) (leaseRequest w.now c)) := by
            rw [hadm, ← hid]
            exact decide_eq_decide.mpr (spendToken_accepts hone)
          obtain ⟨hiff, hentry⟩ := entry_token hlog rfl hdate hbefore hcell hadm' hE hP
          refine ⟨hiff.trans ⟨fun hnl _ _ _ => hnl, fun hnl => hnl c rfl hid⟩, hentry⟩
        · have hother : admittedAs tok.id
              (authorizeSubmitHeader header policy n.spent w.peer w.now).1 = false := by
            rw [hadm]
            refine decide_eq_false fun hok => hid ?_
            exact spendToken_ok_id hok
          have hP' : admissions tok n'.log ≤ 1 := by
            rw [hlog, admissions_cons, hother]
            exact hP
          refine ⟨⟨fun _ c' hc' hid' => ?_, fun _ => hP'⟩, fun _ => ?_⟩
          · obtain rfl := Option.some.inj hc'
            exact absurd hid' hid
          cases hone : c.oneShot with
          | true =>
              refine entry_other hlog ?_ hother ⟨c, hclear, hone⟩ hE
              rw [hspent, hmove, spendToken_lookup n.spent hone, if_neg (Ne.symm hid)]
          | false =>
              refine entry_unclear hlog ?_ hother ?_ hE
              · rw [hspent, hmove, spendToken_reusable n.spent hone]
              · rintro ⟨c', hc', hone'⟩
                obtain rfl := Option.some.inj (hclear.symm.trans hc')
                cases hone.symm.trans hone'
  · obtain ⟨hspent, hlog⟩ := step_quiet h fun run header heq => he ⟨run, header, heq⟩
    have hintime : InTime tok n e := by
      cases e with
      | firstFrame run header => exact absurd ⟨run, header, rfl⟩ he
      | _ => trivial
    refine ⟨⟨fun _ => hintime, fun _ => ?_⟩, fun _ => hE.of_same hspent hlog⟩
    rw [hlog]
    exact hP

/-- Admissions are never forgotten. -/
theorem admissions_mono {tok : FixedToken policy} {n n' : Node} {e : Event}
    (h : step policy n e = some n') : admissions tok n.log ≤ admissions tok n'.log := by
  by_cases he : ∃ run header, e = .firstFrame run header
  · obtain ⟨run, header, rfl⟩ := he
    obtain ⟨w, -, -, hlog⟩ := step_firstFrame h
    rw [hlog, admissions_cons]
    exact Nat.le_add_right _ _
  · obtain ⟨-, hlog⟩ := step_quiet h fun run header heq => he ⟨run, header, heq⟩
    rw [hlog]

/-- **A TOKEN IS REPLAYED IN A RUNNING NODE EXACTLY WHEN A STALE SAMPLE REACHES THE SPENT
    SET.**  In any interleaving, at most one run is authorized with a fixed one-shot token
    precisely when every step is in time. -/
theorem replay_safe_iff {tok : FixedToken policy} {clock : SystemTime} {es : List Event}
    {n : Node} (hsame : ∀ e ∈ es, SameBytes tok e)
    (hrun : runFrom (step policy) (Node.start clock) es = some n) :
    admissions tok n.log ≤ 1 ↔ EveryStep (step policy) (InTime tok) (Node.start clock) es := by
  refine run_exact (J := Entry tok) (P := fun n => admissions tok n.log ≤ 1)
    (Q := SameBytes tok) ?_ ?_ es (Node.start clock) n hsame (.fresh rfl rfl) (Nat.zero_le 1) hrun
  · intro s e s' hJ hP hQ h
    exact entry_step s e s' hJ hP hQ h
  · intro s e s' hlost _ h hP
    exact hlost (le_trans (admissions_mono h) hP)

end

/-! ## Three runs -/

section

attribute [local instance] plainText

def oneShotUntil (secs : Nat) : Facts
  | .callee => [⟨[.bytes answeringNode.bytes]⟩]
  | .expires => [⟨[.date secs]⟩]
  | .oneShot => [⟨[.str "yes"]⟩]
  | _ => []

/-- Two one-shot tokens of different issue: one expires at second 100, the other, under
    every other credential, at second 1000. -/
@[reducible] def twoIssues : BiscuitEngine Unit where
  fromBytes raw _ :=
    if raw = [] then some (ofFacts [7] (oneShotUntil 100))
    else some (ofFacts [8] (oneShotUntil 1000))

attribute [local instance] twoIssues

def shortLived : FixedToken oneRoot where
  raw := []
  biscuit := ofFacts [7] (oneShotUntil 100)
  id := idPrefix [7]
  parses := rfl
  identified := rfl
  oneShot := ⟨_, rfl, List.cons_ne_nil _ _⟩

def headerWith (credential : Credential) : Message :=
  .submit taskOne oneSecond plain (some credential) []

theorem headerWith_sameBytes (run : Nat) (credential : Credential) :
    SameBytes shortLived (.firstFrame run (headerWith credential)) := by
  intro raw b _ hparse hid
  have hparse' : (if raw = [] then some (ofFacts [7] (oneShotUntil 100))
      else some (ofFacts [8] (oneShotUntil 1000))) = some b := hparse
  split at hparse'
  · next hnil => exact hnil
  · obtain rfl := Option.some.inj hparse'
    exact absurd hid (by decide)

/-- Two runs sample second 95.  One of them presents the short-lived token; at second 100
    a third run starts and presents the other token; then the second run presents the
    short-lived token, within its idle timeout. -/
def staleSample : List Event :=
  [.enter 0 stranger, .enter 1 stranger, .firstFrame 1 (headerWith original),
    .tick (secondsAfterEpoch 100 (by decide)), .enter 2 stranger,
    .firstFrame 2 (headerWith attenuated), .firstFrame 0 (headerWith original)]

theorem staleSample_sameBytes : ∀ e ∈ staleSample, SameBytes shortLived e := by
  intro e he
  simp only [staleSample, List.mem_cons, List.not_mem_nil, or_false] at he
  rcases he with rfl | rfl | rfl | rfl | rfl | rfl | rfl
  · trivial
  · trivial
  · exact headerWith_sameBytes 1 original
  · trivial
  · trivial
  · exact headerWith_sameBytes 2 attenuated
  · exact headerWith_sameBytes 0 original

theorem replay_safe_iff_staleSample :
    (∀ e ∈ staleSample, SameBytes shortLived e) ∧
      ∃ n, runFrom (step oneRoot) (Node.start (secondsAfterEpoch 95 (by decide))) staleSample =
          some n ∧
        (admissions shortLived n.log ≤ 1 ↔
          EveryStep (step oneRoot) (InTime shortLived)
            (Node.start (secondsAfterEpoch 95 (by decide))) staleSample) :=
  ⟨staleSample_sameBytes, _, rfl, replay_safe_iff staleSample_sameBytes rfl⟩

/-- Two of the three runs are authorized with one token's id. -/
theorem stale_sample_admitted_twice :
    (∀ e ∈ staleSample, SameBytes shortLived e) ∧
      ∃ n, runFrom (step oneRoot) (Node.start (secondsAfterEpoch 95 (by decide))) staleSample =
          some n ∧
        ¬ admissions shortLived n.log ≤ 1 := by
  refine ⟨staleSample_sameBytes, _, rfl, ?_⟩
  show ¬ 2 ≤ 1
  decide

end

end UatNodeReplay
