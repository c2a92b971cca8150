import Mathlib.Data.Finset.Max
import Uat.Attenuation
import Uat.OneShot

/-! # What verification decides, and when it panics

    A token is seen as an oracle's answer: a collection of facts and an id.  The first half
    follows the one computation of `verify_biscuit_credential` that can panic, the
    conversion of an `expires` date: it is reached behind the callee checks, fact by fact,
    and `verify_never_panics_iff` says which tokens get a date there that no `SystemTime`
    represents.

    The second half takes dates that fit.  `verify_decision` is then the whole of `verify`:
    the rule it returns, the error it returns otherwise, and what the live part of the spent
    set becomes. -/

namespace UatDecision

open UatTypes UatPolicy UatVerify UatFactChecks UatAttenuation Checked HashMap
open UatOneShot (stranger)

variable {selfId : NodeId} {deadline : Deadline} {contentType : ContentType}
  {now : SystemTime}

/-! ## The one place that can panic -/

theorem not_panics_okOr {α : Type} (x : Option α) : ¬ Panics (okOr x) := by
  cases x with
  | none => exact not_panics_fail _
  | some a => exact not_panics_ok a

theorem not_panics_singleTerm (f : Fact) : ¬ Panics (singleTerm f) := by
  rw [singleTerm]
  split
  · exact not_panics_ok _
  · exact not_panics_fail _

/-- A check of the one term of a fact panics only by what it does with the term. -/
theorem panics_singleTerm_bind {β : Type} {f : Fact} {check : Term → Verdict β} :
    Panics (singleTerm f >>= check) ↔ ∃ t, f = ⟨[t]⟩ ∧ Panics (check t) := by
  rw [panics_bind_iff, or_iff_right (not_panics_singleTerm f)]
  refine exists_congr fun t => and_congr_left fun _ => ?_
  have hterm : singleTerm f = .ok t ↔ ∃ t', f = ⟨[t']⟩ ∧ (pure t' : Verdict Term) = .ok t := by
    rw [← singleTerm_bind_ok_iff, bind_pure]
  rw [hterm]
  constructor
  · rintro ⟨t', rfl, ht⟩
    rw [(pure_ok_iff _ _).mp ht]
  · rintro rfl
    exact ⟨t, rfl, rfl⟩

theorem not_panics_checkCallee (f : Fact) : ¬ Panics (checkCallee selfId f) := by
  rw [checkCallee]
  rw [panics_singleTerm_bind]
  rintro ⟨t, -, h⟩
  cases t with
  | bytes pk => exact not_panics_ok _ (panics_ite_fail_iff.mp h).2
  | _ => exact not_panics_fail _ h

theorem not_panics_checkMaxDeadline (f : Fact) : ¬ Panics (checkMaxDeadline deadline f) := by
  rw [checkMaxDeadline]
  rw [panics_singleTerm_bind]
  rintro ⟨t, -, h⟩
  cases t with
  | integer n => exact not_panics_ok _ (panics_ite_fail_iff.mp h).2
  | _ => exact not_panics_fail _ h

theorem not_panics_checkContentType (f : Fact) : ¬ Panics (checkContentType contentType f) := by
  rw [checkContentType]
  rw [panics_singleTerm_bind]
  rintro ⟨t, -, h⟩
  cases t with
  | str s => exact not_panics_ok _ (panics_ite_fail_iff.mp h).2
  | _ => exact not_panics_fail _ h

/-- The sum with the epoch panics from `2 ^ 63` seconds on. -/
theorem panics_epochPlus_iff {ts : Nat} :
    Panics (epochPlus ts : Verdict SystemTime) ↔ 2 ^ 63 ≤ ts := by
  rw [epochPlus]
  split
  · next h =>
      refine ⟨fun hpanics => ?_, fun hts => absurd h (not_lt.mpr hts)⟩
      cases hpanics
  · next h => exact ⟨fun _ => not_lt.mp h, fun _ => rfl⟩

/-- The clock's own seconds fit. -/
theorem unixSecs_lt (now : SystemTime) : unixSecs now < 2 ^ 63 := by
  have hrange := now.inRange.2
  rw [unixSecs]
  split
  · omega
  · decide

/-- One turn of the `expires` loop panics on a date that no `SystemTime` represents. -/
theorem panics_checkExpires_iff {acc : Option SystemTime} {f : Fact} :
    Panics (checkExpires (unixSecs now) acc f) ↔ ∃ ts, f = ⟨[.date ts]⟩ ∧ 2 ^ 63 ≤ ts := by
  rw [checkExpires]
  rw [panics_singleTerm_bind]
  constructor
  · rintro ⟨t, rfl, h⟩
    cases t with
    | date ts =>
        obtain ⟨-, h⟩ := panics_ite_fail_iff.mp h
        rcases panics_bind_iff.mp h with h | ⟨exp, -, h⟩
        · exact ⟨ts, rfl, panics_epochPlus_iff.mp h⟩
        · exact absurd h (not_panics_ok _)
    | _ => exact absurd h (not_panics_fail _)
  · rintro ⟨ts, rfl, hts⟩
    refine ⟨.date ts, rfl, panics_ite_fail_iff.mpr ⟨?_, panics_bind_iff.mpr (Or.inl ?_)⟩⟩
    · exact not_le.mpr ((unixSecs_lt now).trans_le hts)
    · exact panics_epochPlus_iff.mpr hts

/-- **The dates fit**: no fact that the loop reaches carries a date beyond the last
    `SystemTime`.  A fact is reached when those before it are dates ahead of the clock that
    fit. -/
def DatesFit (now : SystemTime) (fs : List Fact) : Prop :=
  ∀ before ts after, fs = before ++ ⟨[.date ts]⟩ :: after →
    (∀ f ∈ before, ∃ ts', f = ⟨[.date ts']⟩ ∧ unixSecs now < ts' ∧ ts' < 2 ^ 63) → ts < 2 ^ 63

/-- A fact that passes the `expires` check, spelled out. -/
theorem expires_passes_iff {f : Fact} :
    FactPasses selfId deadline contentType now .expires f ↔
      ∃ ts, f = ⟨[.date ts]⟩ ∧ unixSecs now < ts ∧ ts < 2 ^ 63 := by
  constructor
  · rintro ⟨t, rfl, ht⟩
    cases t with
    | date ts => exact ⟨ts, rfl, ht⟩
    | _ => exact ht.elim
  · rintro ⟨ts, rfl, hts⟩
    exact ⟨.date ts, rfl, hts⟩

/-- The loop gets past facts that pass. -/
theorem expiresLoop_passes {before : List Fact} (acc : Option SystemTime)
    (h : ∀ f ∈ before, FactPasses selfId deadline contentType now .expires f) :
    ∃ acc', before.foldlM (checkExpires (unixSecs now)) acc = .ok acc' := by
  cases before with
  | nil => exact ⟨acc, rfl⟩
  | cons f before =>
      obtain ⟨e, he⟩ := expiresLoop_total acc h (Or.inr (List.cons_ne_nil _ _))
      exact ⟨some e, he⟩

/-- The `expires` loop panics where a date it comes to does not fit. -/
theorem panics_expiresLoop_iff (selfId : NodeId) (deadline : Deadline) (contentType : ContentType)
    {fs : List Fact} {acc : Option SystemTime} :
    Panics (fs.foldlM (checkExpires (unixSecs now)) acc) ↔ ¬ DatesFit now fs := by
  rw [panics_foldlM_iff]
  constructor
  · rintro ⟨before, f, after, acc', hfs, hacc', hpanics⟩ hfit
    obtain ⟨ts, rfl, hts⟩ := panics_checkExpires_iff.mp hpanics
    have hpass := (expiresLoop_ok selfId deadline contentType hacc').1
    exact absurd (hfit before ts after hfs fun f hf => expires_passes_iff.mp (hpass f hf))
      (not_lt.mpr hts)
  · intro hfit
    rw [DatesFit] at hfit
    push Not at hfit
    obtain ⟨before, ts, after, hfs, hbefore, hts⟩ := hfit
    -- The loop got as far as this date, so everything before it has passed.
    have hpass : ∀ f ∈ before, FactPasses selfId deadline contentType now .expires f :=
      fun f hf => expires_passes_iff.mpr (hbefore f hf)
    obtain ⟨acc', hacc'⟩ := expiresLoop_passes acc hpass
    exact ⟨before, _, after, acc', hfs, hacc', panics_checkExpires_iff.mpr ⟨ts, rfl, hts⟩⟩

/-- Behind the callee checks, the loop over the `expires` facts begins. -/
structure ReachesDates (selfId : NodeId) (biscuit : Biscuit) (fs : List Fact) : Prop where
  authorizes : biscuit.authorizes = true
  callee : ∃ callees, biscuit.queryAll .callee = some callees ∧ callees ≠ [] ∧
    ∀ f ∈ callees, f = ⟨[.bytes selfId.bytes]⟩
  expires : biscuit.queryAll .expires = some fs

/-- The callee check lets one term through. -/
theorem checkCallee_ok_iff_eq {f : Fact} :
    checkCallee selfId f = .ok ⟨⟩ ↔ f = ⟨[.bytes selfId.bytes]⟩ := by
  refine singleTerm_bind_ok_iff.trans ?_
  constructor
  · rintro ⟨t, rfl, h⟩
    cases t with
    | bytes pk =>
        rw [not_not.mp (ite_fail_ok_iff.mp h).1]
    | _ => exact absurd h (fail_ne_ok _ _)
  · rintro rfl
    exact ⟨_, rfl, ite_fail_ok_iff.mpr ⟨not_not.mpr rfl, rfl⟩⟩

/-- What follows the `expires` loop does not panic. -/
theorem not_panics_biscuitIdFromToken (b : Biscuit) : ¬ Panics (biscuitIdFromToken b) := by
  rw [biscuitIdFromToken]
  rw [panics_bind_iff]
  rintro (h | ⟨_, -, h⟩)
  · exact not_panics_okOr _ h
  · exact not_panics_ok _ h

/-- **The fact checks panic** exactly when their loop over the dates is reached and meets a
    date that does not fit. -/
theorem panics_clearToken_iff {b : Biscuit} :
    Panics (clearToken selfId b deadline contentType now) ↔
      ∃ fs, ReachesDates selfId b fs ∧ ¬ DatesFit now fs := by
  have hcallees : ∀ l : List Fact, ¬ Panics (l.forM (checkCallee selfId)) :=
    fun _ => not_panics_forM not_panics_checkCallee
  have hmax : ∀ l : List Fact, ¬ Panics (l.forM (checkMaxDeadline deadline)) :=
    fun _ => not_panics_forM not_panics_checkMaxDeadline
  have hct : ∀ l : List Fact, ¬ Panics (l.forM (checkContentType contentType)) :=
    fun _ => not_panics_forM not_panics_checkContentType
  have hpure : ∀ c : Cleared, ¬ Panics (pure c : Verdict Cleared) := fun c => not_panics_ok c
  -- Every step but the loop over the dates is ruled out by name.
  simp only [clearToken, panics_ite_fail_iff, panics_bind_iff, not_panics_okOr, hcallees, hmax,
    hct, hpure, not_panics_biscuitIdFromToken, okOr_ok_iff,
    panics_expiresLoop_iff selfId deadline contentType, false_or, and_false, exists_false,
    or_false]
  constructor
  · rintro ⟨hauth, callees, hcallees, hne, ⟨⟩, hall, fs, hfs, -, hfit⟩
    have hnamed : ∀ f ∈ callees, f = ⟨[.bytes selfId.bytes]⟩ :=
      fun f hf => checkCallee_ok_iff_eq.mp (forM_ok_iff.mp hall f hf)
    exact ⟨fs, ⟨not_not.mp hauth, ⟨callees, hcallees, hne, hnamed⟩, hfs⟩, hfit⟩
  · rintro ⟨fs, ⟨hauth, ⟨callees, hcallees, hne, hnamed⟩, hfs⟩, hfit⟩
    have hall : callees.forM (checkCallee selfId) = .ok ⟨⟩ :=
      forM_ok_iff.mpr fun f hf => checkCallee_ok_iff_eq.mpr (hnamed f hf)
    refine ⟨not_not.mpr hauth, callees, hcallees, hne, ⟨⟩, hall, fs, hfs, ?_, hfit⟩
    -- No dates at all is a refusal, not a panic, and an empty list fits.
    rintro rfl
    exact hfit fun before ts after h => absurd h.symm
      (List.append_ne_nil_of_right_ne_nil _ (List.cons_ne_nil _ _))

/-- The spent set does not panic. -/
theorem not_panics_spendToken (spent : MemorySpentSet) (c : Cleared) :
    ¬ Panics (spendToken spent now c).1 := by
  cases hone : c.oneShot with
  | false =>
      rw [spendToken_reusable spent hone]
      exact not_panics_ok _
  | true =>
      by_cases hg : Lease.Granted (spent.lookup c.id) (leaseRequest now c)
      · rw [spendToken_granted hone hg]
        exact not_panics_ok _
      · rw [spendToken_refused hone hg]
        exact not_panics_fail _

section

variable [Base64Engine] {Key : Type} [BiscuitEngine Key] {policy : Policy Key}

/-- Reading the token does not panic. -/
theorem not_panics_parseToken (policy : Policy Key) (credential : Credential) :
    ¬ Panics (parseToken policy credential) := by
  rw [parseToken]
  split
  · exact not_panics_fail _
  · exact not_panics_okOr _

/-- Clearing panics where the loop over the dates does, and nowhere else. -/
theorem panics_clearCredential_iff {credential : Credential} :
    Panics (clearCredential policy credential deadline contentType now) ↔
      ∃ selfId biscuit fs, policy.rootKeys ≠ [] ∧ policy.selfId = some selfId ∧
        Carries policy credential biscuit ∧ ReachesDates selfId biscuit fs ∧
        ¬ DatesFit now fs := by
  simp only [clearCredential, panics_ite_fail_iff, panics_bind_iff, not_panics_okOr,
    not_panics_parseToken, okOr_ok_iff, panics_clearToken_iff, false_or, List.isEmpty_iff]
  constructor
  · rintro ⟨hroots, selfId, hself, biscuit, hparse, fs, hreach, hfit⟩
    exact ⟨selfId, biscuit, fs, hroots, hself, hparse, hreach, hfit⟩
  · rintro ⟨selfId, biscuit, fs, hroots, hself, hparse, hreach, hfit⟩
    exact ⟨hroots, selfId, hself, biscuit, hparse, fs, hreach, hfit⟩

/-- **TOKEN VERIFICATION DOES NOT PANIC, EXACTLY.**  For every policy, spent set, deadline,
    content type and clock: verification of a credential returns if and only if the dates
    of the token it carries fit, as far as the checks reach them. -/
theorem verify_never_panics_iff (policy : Policy Key) (spent : MemorySpentSet)
    (credential : Credential) (deadline : Deadline) (contentType : ContentType)
    (now : SystemTime) :
    ¬ Panics (verifyBiscuitCredential policy spent credential deadline contentType now).1 ↔
      ∀ selfId biscuit fs, policy.rootKeys ≠ [] → policy.selfId = some selfId →
        Carries policy credential biscuit → ReachesDates selfId biscuit fs → DatesFit now fs := by
  have hclear : Panics (verifyBiscuitCredential policy spent credential deadline contentType
      now).1 ↔ Panics (clearCredential policy credential deadline contentType now) := by
    rw [verifyBiscuitCredential]
    cases clearCredential policy credential deadline contentType now with
    | error fault =>
        exact ⟨fun h => congrArg _ (Except.error.inj h), fun h => congrArg _ (Except.error.inj h)⟩
    | ok c => exact ⟨fun h => absurd h (not_panics_spendToken spent c), fun h => (by cases h)⟩
  rw [hclear, panics_clearCredential_iff]
  push Not
  exact ⟨fun h selfId biscuit fs hroots hself hparse hreach =>
      h selfId biscuit fs hroots hself hparse hreach,
    fun h selfId biscuit fs hroots hself hparse hreach =>
      h selfId biscuit fs hroots hself hparse hreach⟩

end

section

/-- An issuer's token for this node, valid for a second. -/
def briefToken : Facts
  | .callee => [⟨[.bytes answeringNode.bytes]⟩]
  | .expires => [⟨[.date 1]⟩]
  | _ => []

/-- A block that its holder appends: a date past the last `SystemTime`. -/
def farDate : Facts
  | .expires => [⟨[.date (2 ^ 63)]⟩]
  | _ => []

attribute [local instance] plainText

/-- An engine that reads the token, or its copy with the far date. -/
@[reducible] def tokenAndFarCopy : BiscuitEngine Unit := twoTokens Unit briefToken farDate

attribute [local instance] tokenAndFarCopy

/-- The attenuated copy crashes the task that verifies it. -/
theorem far_date_panics :
    ¬ ∀ (policy : Policy Unit) (spent : MemorySpentSet) (credential : Credential)
      (deadline : Deadline) (contentType : ContentType) (now : SystemTime),
      ¬ Panics (verifyBiscuitCredential policy spent credential deadline contentType now).1 := by
  intro h
  exact h oneRoot .new attenuated oneSecond plain epoch rfl

end

/-! ## The decision -/

/-- The oracle's answer about a credential: it is decoded, signed under a root, authorizes,
    every query is answered, and it has an id. -/
structure OracleAccepts [Base64Engine] {Key : Type} [BiscuitEngine Key] (policy : Policy Key)
    (credential : Credential) (F : Facts) (id : BiscuitId) : Prop where
  token : ∃ biscuit, Carries policy credential biscuit ∧ biscuit.authorizes = true ∧
    (∀ q, biscuit.queryAll q = some (F q)) ∧ biscuitIdFromToken biscuit = .ok id

/-- Every date in the token's `expires` facts has a `SystemTime`. -/
def DatesBelow [Base64Engine] {Key : Type} [BiscuitEngine Key] (policy : Policy Key)
    (credential : Credential) : Prop :=
  ∀ biscuit fs, Carries policy credential biscuit → biscuit.queryAll .expires = some fs →
    ∀ ts, ⟨[.date ts]⟩ ∈ fs → ts < 2 ^ 63

/-- What the facts of a token must say for it to be accepted. -/
structure FactsAdmit (selfId : NodeId) (deadline : Deadline) (contentType : ContentType)
    (now : SystemTime) (F : Facts) : Prop where
  named : F .callee ≠ []
  callee : ∀ f ∈ F .callee, f = ⟨[.bytes selfId.bytes]⟩
  dated : F .expires ≠ []
  expires : ∀ f ∈ F .expires, ∃ ts, f = ⟨[.date ts]⟩ ∧ unixSecs now < ts
  maxDeadline : ∀ f ∈ F .maxDeadlineMs, ∃ n : Int, f = ⟨[.integer n]⟩ ∧
    0 ≤ (deadline.ms : Int) ∧ (deadline.ms : Int) ≤ n
  contentType : ∀ f ∈ F .contentType, f = ⟨[.str contentType.value]⟩

/-- The live part of the spent set: each id with the date it is spent until. -/
def liveAt (spent : MemorySpentSet) (now : SystemTime) : BiscuitId → Option SystemTime :=
  fun id => Lease.lapse (spent.lookup id) now

/-- A single date as a fact is one that passes, when it is ahead and fits. -/
theorem factsAdmit_iff {F : Facts} (hdates : ∀ ts, ⟨[.date ts]⟩ ∈ F .expires → ts < 2 ^ 63) :
    FactsAdmit selfId deadline contentType now F ↔
      (∀ q, Required q → F q ≠ []) ∧
        ∀ q, ∀ f ∈ F q, FactPasses selfId deadline contentType now q f := by
  constructor
  · intro h
    constructor
    · intro q hq
      cases q with
      | callee => exact h.named
      | expires => exact h.dated
      | _ => exact hq.elim
    · intro q f hf
      cases q with
      | callee => exact ⟨_, h.callee f hf, rfl⟩
      | expires =>
          obtain ⟨ts, rfl, hts⟩ := h.expires f hf
          exact ⟨_, rfl, hts, hdates ts hf⟩
      | maxDeadlineMs =>
          obtain ⟨n, rfl, -, hn⟩ := h.maxDeadline f hf
          exact ⟨_, rfl, hn⟩
      | contentType => exact ⟨_, h.contentType f hf, rfl⟩
      | oneShot => trivial
  · rintro ⟨hreq, hpass⟩
    refine ⟨hreq .callee trivial, fun f hf => ?_, hreq .expires trivial, fun f hf => ?_,
      fun f hf => ?_, fun f hf => ?_⟩
    · obtain ⟨t, rfl, ht⟩ := hpass .callee f hf
      cases t with
      | bytes pk =>
          obtain rfl : pk = selfId.bytes := ht
          rfl
      | _ => exact ht.elim
    · obtain ⟨ts, rfl, hts, -⟩ := expires_passes_iff.mp (hpass .expires f hf)
      exact ⟨ts, rfl, hts⟩
    · obtain ⟨t, rfl, ht⟩ := hpass .maxDeadlineMs f hf
      cases t with
      | integer n => exact ⟨n, rfl, Int.natCast_nonneg _, ht⟩
      | _ => exact ht.elim
    · obtain ⟨t, rfl, ht⟩ := hpass .contentType f hf
      cases t with
      | str s =>
          obtain rfl : s = contentType.value := ht
          rfl
      | _ => exact ht.elim

/-- The earliest of the dates that the facts carry. -/
def EarliestOf (F : Facts) (e : SystemTime) : Prop :=
  ∃ ts : Nat, ⟨[.date ts]⟩ ∈ F .expires ∧ (∀ ts', ⟨[.date ts']⟩ ∈ F .expires → ts ≤ ts') ∧
    e.nanos = ts * 10 ^ 9

/-- The date of an `expires` fact. -/
def seconds : Fact → Nat
  | ⟨[.date ts]⟩ => ts
  | _ => 0

/-- A date that lies after exactly the clocks that precede every fact is the earliest. -/
theorem earliestOf_of_precedes {F : Facts} {e : SystemTime} (hne : F .expires ≠ [])
    (hall : ∀ f ∈ F .expires, ∃ ts, f = ⟨[.date ts]⟩ ∧ ts < 2 ^ 63)
    (he : ∀ t : SystemTime, t < e ↔ ∀ f ∈ F .expires, Precedes t f) : EarliestOf F e := by
  obtain ⟨f, hf⟩ := List.exists_mem_of_ne_nil _ hne
  -- The loop keeps a running minimum; the least date among the facts has the same clocks
  -- before it.
  obtain ⟨f, hf, hmin⟩ := Finset.exists_min_image (F .expires).toFinset seconds
    ⟨f, List.mem_toFinset.mpr hf⟩
  obtain ⟨ts, rfl, hts⟩ := hall f (List.mem_toFinset.mp hf)
  have hleast : ∀ ts', ⟨[.date ts']⟩ ∈ F .expires → ts ≤ ts' :=
    fun ts' hmem => hmin ⟨[.date ts']⟩ (List.mem_toFinset.mpr hmem)
  have hsame : e = secondsAfterEpoch ts hts := by
    refine eq_of_forall_lt_iff fun t => (he t).trans ?_
    constructor
    · intro h
      exact h _ (List.mem_toFinset.mp hf)
    · intro h f' hf'
      obtain ⟨ts', rfl, -⟩ := hall f' hf'
      have hle : ts ≤ ts' := hleast ts' hf'
      have ht : t.nanos < ts * 10 ^ 9 := h
      show t.nanos < ts' * 10 ^ 9
      omega
  exact ⟨ts, List.mem_toFinset.mp hf, hleast, by rw [hsame]; rfl⟩

section

variable [Base64Engine] {Key : Type} [BiscuitEngine Key] {policy : Policy Key}
  {credential : Credential}

/-- The oracle gives one answer. -/
theorem OracleAccepts.unique {F F' : Facts} {id id' : BiscuitId}
    (h : OracleAccepts policy credential F id) (h' : OracleAccepts policy credential F' id') :
    F = F' ∧ id = id' := by
  obtain ⟨b, hparse, -, hF, hid⟩ := h.token
  obtain ⟨b', hparse', -, hF', hid'⟩ := h'.token
  obtain rfl : b = b' := Except.ok.inj (hparse.symm.trans hparse')
  refine ⟨funext fun q => Option.some.inj ((hF q).symm.trans (hF' q)), ?_⟩
  exact Except.ok.inj (hid.symm.trans hid')

/-- What clears has been accepted by the oracle, with facts that admit. -/
theorem cleared_facts {c : Cleared}
    (h : clearCredential policy credential deadline contentType now = .ok c) :
    ∃ selfId F, policy.rootKeys ≠ [] ∧ policy.selfId = some selfId ∧
      OracleAccepts policy credential F c.id ∧
      FactsAdmit selfId deadline contentType now F ∧
      (c.oneShot = true ↔ F .oneShot ≠ []) ∧ EarliestOf F c.earliestExpires ∧
      now < c.earliestExpires := by
  obtain ⟨selfId, b, hroots, hself, hparse, hpass, hid, hone, hearliest⟩ := clearCredential_ok h
  -- The five queries are asked one at a time; together their answers are one function.
  obtain ⟨F, hF⟩ : ∃ F : Facts, ∀ q, b.queryAll q = some (F q) :=
    Classical.skolem.mp fun q => (hpass.facts q).imp fun _ h => h.1
  have hfacts : ∀ q, (Required q → F q ≠ []) ∧
      ∀ f ∈ F q, FactPasses selfId deadline contentType now q f := by
    intro q
    obtain ⟨fs, hfs, hreq, hall⟩ := hpass.facts q
    obtain rfl : fs = F q := Option.some.inj (hfs.symm.trans (hF q))
    exact ⟨hreq, hall⟩
  have hdates : ∀ f ∈ F .expires, ∃ ts, f = ⟨[.date ts]⟩ ∧ ts < 2 ^ 63 := by
    intro f hf
    obtain ⟨ts, rfl, -, hts⟩ := expires_passes_iff.mp ((hfacts .expires).2 f hf)
    exact ⟨ts, rfl, hts⟩
  have hbelow : ∀ ts, ⟨[.date ts]⟩ ∈ F .expires → ts < 2 ^ 63 := by
    intro ts hts
    obtain ⟨ts', heq, hlt⟩ := hdates _ hts
    cases heq
    exact hlt
  have hprecedes : ∀ t : SystemTime, t < c.earliestExpires ↔ ∀ f ∈ F .expires, Precedes t f := by
    intro t
    rw [hearliest t, hF .expires]
    exact ⟨fun h => h _ rfl, fun h fs hfs => Option.some.inj hfs ▸ h⟩
  refine ⟨selfId, F, hroots, hself, ⟨b, hparse, hpass.authorizes, hF, hid⟩,
    (factsAdmit_iff hbelow).mpr ⟨fun q => (hfacts q).1, fun q => (hfacts q).2⟩, ?_,
    earliestOf_of_precedes ((hfacts .expires).1 trivial) hdates hprecedes, ?_⟩
  · rw [hone, hF .oneShot]
    exact ⟨fun ⟨fs, hfs, hne⟩ => Option.some.inj hfs ▸ hne, fun hne => ⟨_, rfl, hne⟩⟩
  · exact (hprecedes now).mpr fun f hf => passes_precedes hpass (hF .expires) hf

/-- What the oracle accepts with facts that admit clears. -/
theorem clears_of_facts {F : Facts} {id : BiscuitId} (hroots : policy.rootKeys ≠ [])
    (hself : policy.selfId = some selfId) (hdates : DatesBelow policy credential)
    (horacle : OracleAccepts policy credential F id)
    (hadmitted : FactsAdmit selfId deadline contentType now F) :
    ∃ c, clearCredential policy credential deadline contentType now = .ok c := by
  obtain ⟨b, hparse, hauth, hF, hid⟩ := horacle.token
  refine clearCredential_total hroots hself hparse ?_
  have hanswers : Answers b F := fun q => ⟨F q, hF q, fun _ => Iff.rfl⟩
  refine (passes_iff hanswers hauth (biscuitIdFromToken_ok_iff.mp ⟨id, hid⟩)).mpr ?_
  exact (factsAdmit_iff fun ts hts => hdates b _ hparse (hF .expires) ts hts).mp hadmitted

/-- A clearing credential that fails leaves an error, not a panic. -/
theorem clear_fails {fault : Fault AuthError} (hdates : DatesBelow policy credential)
    (h : clearCredential policy credential deadline contentType now = .error fault) :
    ∃ e, fault = .err e := by
  cases fault with
  | err e => exact ⟨e, rfl⟩
  | panic =>
      obtain ⟨selfId, b, fs, -, -, hparse, hreach, hfit⟩ := panics_clearCredential_iff.mp h
      refine absurd (fun before ts after hfs _ => ?_) hfit
      refine hdates b fs hparse hreach.expires ts ?_
      rw [hfs]
      exact List.mem_append_right _ List.mem_cons_self

end

/-! ## The live part of the spent set -/

/-- A spend adds its id, until its date. -/
theorem liveAt_spend_granted {spent : MemorySpentSet} {c : Cleared} (hone : c.oneShot = true)
    (hfree : liveAt spent now c.id = none) (hahead : now < c.earliestExpires) :
    liveAt (spendToken spent now c).2 now =
      Function.update (liveAt spent now) c.id (some c.earliestExpires) := by
  have hg : Lease.Granted (spent.lookup c.id) (leaseRequest now c) := hfree
  funext k
  rw [liveAt, spendToken_lookup spent hone]
  by_cases hk : k = c.id
  · subst hk
    rw [if_pos rfl, Function.update_self, Lease.serve_granted hg]
    exact Lease.lapse_of_lt hahead
  · rw [if_neg hk, Function.update_of_ne hk, Lease.lapse_lapse]
    rfl

/-- A refused spend adds nothing. -/
theorem liveAt_spend_refused {spent : MemorySpentSet} {c : Cleared} (hone : c.oneShot = true)
    (hheld : liveAt spent now c.id ≠ none) :
    liveAt (spendToken spent now c).2 now = liveAt spent now := by
  have hg : ¬ Lease.Granted (spent.lookup c.id) (leaseRequest now c) := hheld
  funext k
  rw [spendToken_refused hone hg, liveAt, lookup_evictExpired, Lease.lapse_lapse]
  rfl

section

variable [Base64Engine] {Key : Type} [BiscuitEngine Key]

/-- `verify` of a header, as `authorize_submit_header` runs it. -/
theorem verify_eq (submit : UnverifiedSubmit) (policy : Policy Key) (spent : MemorySpentSet)
    (peer : NodeId) :
    submit.verify policy spent peer now =
      authorizeSubmitHeader submit.message policy spent peer now := by
  obtain ⟨message, task, deadline, contentType, credential, rfl⟩ := submit
  rfl

/-- The submit was admitted with this rule. -/
def AdmittedWith (rule : AuthRule) (v : Verdict AuthorizedSubmit) : Prop :=
  ∃ a, v = .ok a ∧ a.rule = rule

/-- **The decision**, and its effect on the spent set. -/
structure DecidesAs (policy : Policy Key) (spent : MemorySpentSet) (peer : NodeId)
    (now : SystemTime) (deadline : Deadline) (contentType : ContentType)
    (credential : Option Credential) (r : Verdict AuthorizedSubmit × MemorySpentSet) : Prop where
  allowlist : AdmittedWith .allowlist r.1 ↔ policy.contains peer = true
  token : policy.contains peer = false → ∀ id, AdmittedWith (.token id) r.1 ↔
    ∃ token selfId F, credential = some token ∧ policy.rootKeys ≠ [] ∧
      policy.selfId = some selfId ∧ OracleAccepts policy token F id ∧
      FactsAdmit selfId deadline contentType now F ∧
      (F .oneShot ≠ [] → liveAt spent now id = none)
  otherwise : (∀ a, r.1 ≠ .ok a) → ∃ e, r.1 = fail e
  spends : ∀ id token F, AdmittedWith (.token id) r.1 → credential = some token →
    OracleAccepts policy token F id → F .oneShot ≠ [] →
    ∃ e, EarliestOf F e ∧ liveAt r.2 now = Function.update (liveAt spent now) id (some e)
  keeps : (∀ id token F, AdmittedWith (.token id) r.1 → credential = some token →
    OracleAccepts policy token F id → F .oneShot = []) → liveAt r.2 now = liveAt spent now

/-- A listed peer. -/
theorem decidesAs_listed {policy : Policy Key} {spent : MemorySpentSet} {peer : NodeId}
    {credential : Option Credential} {a : AuthorizedSubmit} (hpeer : policy.contains peer = true)
    (hrule : a.rule = .allowlist) :
    DecidesAs policy spent peer now deadline contentType credential (.ok a, spent) := by
  have hno : ∀ id, ¬ AdmittedWith (.token id) (.ok a : Verdict AuthorizedSubmit) := by
    rintro id ⟨a', ha', hrule'⟩
    obtain rfl := Except.ok.inj ha'
    cases hrule.symm.trans hrule'
  refine ⟨⟨fun _ => hpeer, fun _ => ⟨a, rfl, hrule⟩⟩, fun hun => ?_, fun h => absurd rfl (h a),
    fun id _ _ h => absurd h (hno id), fun _ => rfl⟩
  cases hpeer.symm.trans hun

/-- A refusal that leaves the live part of the spent set as it was. -/
theorem decidesAs_refused {policy : Policy Key} {spent spent' : MemorySpentSet} {peer : NodeId}
    {credential : Option Credential} {e : AuthError} (hpeer : policy.contains peer = false)
    (hno : ∀ id token selfId F, credential = some token → policy.rootKeys ≠ [] →
      policy.selfId = some selfId → OracleAccepts policy token F id →
      FactsAdmit selfId deadline contentType now F →
      ¬ (F .oneShot ≠ [] → liveAt spent now id = none))
    (hlive : liveAt spent' now = liveAt spent now) :
    DecidesAs policy spent peer now deadline contentType credential (fail e, spent') := by
  have hrule : ∀ rule, ¬ AdmittedWith rule (fail e : Verdict AuthorizedSubmit) :=
    fun _ hx => (by obtain ⟨_, h, _⟩ := hx; cases h)
  refine ⟨⟨fun h => absurd h (hrule _), fun h => ?_⟩, fun _ id => ⟨fun h => absurd h (hrule _), ?_⟩,
    fun _ => ⟨e, rfl⟩, fun _ _ _ h => absurd h (hrule _), fun _ => hlive⟩
  · cases hpeer.symm.trans h
  · rintro ⟨token, selfId, F, hcred, hroots, hself, horacle, hadmitted, hfree⟩
    exact absurd hfree (hno id token selfId F hcred hroots hself horacle hadmitted)

/-- An acceptance under the oracle's id: either the token is no one-shot token and nothing
    changes, or its id was free and is taken. -/
theorem decidesAs_accepted {policy : Policy Key} {spent spent' : MemorySpentSet} {peer : NodeId}
    {credential : Credential} {a : AuthorizedSubmit} {F : Facts} {id : BiscuitId}
    (hpeer : policy.contains peer = false) (hrule : a.rule = .token id)
    (hroots : policy.rootKeys ≠ []) (hself : policy.selfId = some selfId)
    (horacle : OracleAccepts policy credential F id)
    (hadmitted : FactsAdmit selfId deadline contentType now F)
    (hlive : (F .oneShot = [] ∧ liveAt spent' now = liveAt spent now) ∨
      (F .oneShot ≠ [] ∧ liveAt spent now id = none ∧ ∃ e, EarliestOf F e ∧
        liveAt spent' now = Function.update (liveAt spent now) id (some e))) :
    DecidesAs policy spent peer now deadline contentType (some credential) (.ok a, spent') := by
  have hrules : ∀ rule, AdmittedWith rule (.ok a : Verdict AuthorizedSubmit) →
      rule = .token id := by
    rintro rule ⟨a', ha', rfl⟩
    obtain rfl := Except.ok.inj ha'
    exact hrule
  -- Whatever the oracle says about this credential, it says the same each time.
  have hsame : ∀ id' token F', AdmittedWith (.token id') (.ok a : Verdict AuthorizedSubmit) →
      some credential = some token → OracleAccepts policy token F' id' → F' = F ∧ id' = id := by
    intro id' token F' _ htoken horacle'
    obtain rfl := Option.some.inj htoken
    exact horacle'.unique horacle
  refine ⟨⟨fun h => (by cases hrules _ h), fun h => (by cases hpeer.symm.trans h)⟩,
    fun _ id' => ⟨fun h => ?_, ?_⟩, fun h => absurd rfl (h a), ?_, ?_⟩
  · obtain rfl := AuthRule.token.inj (hrules _ h)
    refine ⟨credential, selfId, F, rfl, hroots, hself, horacle, hadmitted, fun hone => ?_⟩
    rcases hlive with ⟨hnone, -⟩ | ⟨-, hfree, -⟩
    · exact absurd hnone hone
    · exact hfree
  · rintro ⟨token, -, F', htoken, -, -, horacle', -, -⟩
    obtain rfl := Option.some.inj htoken
    obtain ⟨-, rfl⟩ := horacle'.unique horacle
    exact ⟨a, rfl, hrule⟩
  · intro id' token F' h htoken horacle' hone
    obtain ⟨rfl, rfl⟩ := hsame id' token F' h htoken horacle'
    rcases hlive with ⟨hnone, -⟩ | ⟨-, -, hupdate⟩
    · exact absurd hnone hone
    · exact hupdate
  · intro h
    rcases hlive with ⟨-, hkeep⟩ | ⟨hone, -, -⟩
    · exact hkeep
    · exact absurd (h id credential F ⟨a, rfl, hrule⟩ rfl horacle) hone

/-- A token that clears is decided by the spent set. -/
theorem decidesAs_cleared {policy : Policy Key} {spent : MemorySpentSet} {peer : NodeId}
    {credential : Credential} {c : Cleared} {message : Message} (hsubmit : isSubmit message = true)
    (hpeer : policy.contains peer = false)
    (hc : clearCredential policy credential deadline contentType now = .ok c) :
    DecidesAs policy spent peer now deadline contentType (some credential)
      (match spendToken spent now c with
        | (.error fault, spent) => (.error fault, spent)
        | (.ok id, spent) => (.ok ⟨.token id, message, hsubmit⟩, spent)) := by
  obtain ⟨selfId, F, hroots, hself, horacle, hadmitted, hone, hearliest, hahead⟩ := cleared_facts hc
  cases hshot : c.oneShot with
  | false =>
      rw [spendToken_reusable spent hshot]
      refine decidesAs_accepted hpeer rfl hroots hself horacle hadmitted (Or.inl ⟨?_, rfl⟩)
      by_contra hne
      cases hshot.symm.trans (hone.mpr hne)
  | true =>
      -- The token is good; what is left is whether its id is still free.
      by_cases hfree : liveAt spent now c.id = none
      · have hlive := liveAt_spend_granted hshot hfree hahead
        have hg : Lease.Granted (spent.lookup c.id) (leaseRequest now c) := hfree
        rw [spendToken_granted hshot hg] at hlive ⊢
        exact decidesAs_accepted hpeer rfl hroots hself horacle hadmitted
          (Or.inr ⟨hone.mp hshot, hfree, c.earliestExpires, hearliest, hlive⟩)
      · have hlive := liveAt_spend_refused hshot hfree
        have hg : ¬ Lease.Granted (spent.lookup c.id) (leaseRequest now c) := hfree
        rw [spendToken_refused hshot hg] at hlive ⊢
        refine decidesAs_refused hpeer ?_ hlive
        intro id token _ F' htoken _ _ horacle' _ hfree'
        obtain rfl := Option.some.inj htoken
        obtain ⟨rfl, rfl⟩ := horacle'.unique horacle
        exact hfree (hfree' (hone.mp hshot))

/-- **VERIFY DECIDES BY THE ALLOWLIST, THE TOKEN'S FACTS AND THE SPENT SET.**  For every
    policy, spent set, peer, clock and header-only submit, with the token library as an
    oracle whose dates fit: `verify` returns the rule the decision names or an error, and
    the live part of the spent set changes only by an accepted one-shot token, which adds
    its id until the earliest of its dates. -/
theorem verify_decision (policy : Policy Key) (spent : MemorySpentSet) (peer : NodeId)
    (now : SystemTime) (submit : UnverifiedSubmit) (task : TaskId) (deadline : Deadline)
    (contentType : ContentType) (credential : Option Credential)
    (hsubmit : submit.message = .submit task deadline contentType credential [])
    (hdates : ∀ token, credential = some token → DatesBelow policy token) :
    DecidesAs policy spent peer now deadline contentType credential
      (submit.verify policy spent peer now) := by
  rw [verify_eq, hsubmit]
  cases hpeer : policy.contains peer with
  | true =>
      rw [authorize_listed hpeer]
      exact decidesAs_listed hpeer rfl
  | false =>
      cases credential with
      | none =>
          rw [authorize_denied hpeer]
          refine decidesAs_refused hpeer (fun _ _ _ _ hsome => ?_) rfl
          cases hsome
      | some token =>
          rw [authorize_token hpeer]
          cases hc : clearCredential policy token deadline contentType now with
          | ok c =>
              rw [verifyBiscuitCredential_cleared spent hc]
              exact decidesAs_cleared rfl hpeer hc
          | error fault =>
              obtain ⟨e, rfl⟩ := clear_fails (hdates token rfl) hc
              rw [verifyBiscuitCredential, hc]
              refine decidesAs_refused hpeer ?_ rfl
              intro id token' selfId F htoken hroots hself horacle hadmitted _
              obtain rfl := Option.some.inj htoken
              -- Facts that admit would have cleared, and this credential did not.
              obtain ⟨c, hc'⟩ := clears_of_facts hroots hself (hdates token rfl) horacle hadmitted
              cases hc.symm.trans hc'

end

section

attribute [local instance] plainText UatOneShot.tokenAndCopy

def headerOnly : UnverifiedSubmit :=
  ⟨.submit taskOne oneSecond plain (some original) [], _, _, _, _, rfl⟩

theorem tokenAndCopy_below (token : Credential) : DatesBelow oneRoot token := by
  intro biscuit fs hparse hfs ts hts
  obtain ⟨raw, -, hraw⟩ := carries_parses hparse
  have hraw' : (if raw = [] then some (ofFacts [7] UatOneShot.oneShotToken.facts)
      else some (ofFacts [7] (append UatOneShot.oneShotToken.facts UatOneShot.nearerDate))) =
        some biscuit := hraw
  split at hraw'
  · obtain rfl := Option.some.inj hraw'
    obtain rfl := Option.some.inj hfs
    cases List.mem_singleton.mp hts
    decide
  · obtain rfl := Option.some.inj hraw'
    obtain rfl := Option.some.inj hfs
    rcases List.mem_cons.mp hts with h | h
    · cases h
      decide
    · cases List.mem_singleton.mp h
      decide

theorem verify_decision_oneShot :
    headerOnly.message = .submit taskOne oneSecond plain (some original) [] ∧
      (∀ token, some original = some token → DatesBelow oneRoot token) ∧
      DecidesAs oneRoot .new stranger epoch oneSecond plain (some original)
        (headerOnly.verify oneRoot .new stranger epoch) :=
  ⟨rfl, fun token _ => tokenAndCopy_below token,
    verify_decision oneRoot .new stranger epoch headerOnly taskOne oneSecond plain (some original)
      rfl fun token _ => tokenAndCopy_below token⟩

end

end UatDecision
