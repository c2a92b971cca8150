import Uat.Attenuation

/-! # One-shot tokens under attenuation

    A sequence of `verify` calls against one spent set, all presenting copies of one
    one-shot token: same authority block, any appended facts.  The spent set remembers
    the token's id until the earliest date of the copy that was admitted, not of the
    token; a copy with a nearer date is remembered for a shorter time than another copy
    stays valid.

    The calls are read as requests for the lease on the token's id
    (`admissions_eq_grants`), and `one_shot_admitted_once_iff` is the lease's exact
    condition in terms of the calls. -/

namespace UatOneShot

open UatTypes UatPolicy UatVerify UatFactChecks UatAttenuation Checked

/-- What the issuer signed. -/
structure Authority where
  facts : Facts
  revocationId : Bytes

/-- The id of the token, which its copies share. -/
def Authority.id (a : Authority) : BiscuitId := idPrefix a.revocationId

/-- A copy of the token, with some facts appended. -/
structure IsCopy (a : Authority) (b : Biscuit) : Prop where
  facts : ∃ G, Answers b (append a.facts G)
  revocationId : b.revocationIdentifiers.head? = some a.revocationId

/-- A copy has the id of its authority block. -/
theorem copy_id {a : Authority} {b : Biscuit} (h : IsCopy a b) :
    biscuitIdFromToken b = .ok a.id := by
  rw [biscuitIdFromToken, h.revocationId]
  rfl

/-- Appending does not remove the one-shot marker. -/
theorem copy_oneShot {a : Authority} {b : Biscuit} (h : IsCopy a b)
    (hone : a.facts .oneShot ≠ []) : ∃ fs, b.queryAll .oneShot = some fs ∧ fs ≠ [] := by
  obtain ⟨G, hG⟩ := h.facts
  obtain ⟨fs, hfs, hmem⟩ := hG .oneShot
  obtain ⟨f, hf⟩ := List.exists_mem_of_ne_nil _ hone
  exact ⟨fs, hfs, List.ne_nil_of_mem ((hmem f).mpr (List.mem_append_left _ hf))⟩

section

variable [Base64Engine]

/-- One call of `verify`: the header's fields, the peer, the clock. -/
structure Call where
  task : TaskId
  deadline : Deadline
  contentType : ContentType
  credential : Credential
  peer : NodeId
  now : SystemTime

/-- The call as `verify` gets it. -/
def Call.submit (c : Call) : UnverifiedSubmit :=
  ⟨.submit c.task c.deadline c.contentType (some c.credential) [], _, _, _, _, rfl⟩

variable {Key : Type} [BiscuitEngine Key]

/-- The calls in order, each on the spent set the previous one left. -/
def verifyAll (policy : Policy Key) : MemorySpentSet → List Call → List (Verdict AuthorizedSubmit)
  | _, [] => []
  | spent, c :: cs =>
      let result := c.submit.verify policy spent c.peer c.now
      result.1 :: verifyAll policy result.2 cs

/-- How many of the calls are admitted under the id. -/
def admissions (policy : Policy Key) (spent : MemorySpentSet) (id : BiscuitId)
    (calls : List Call) : Nat :=
  (verifyAll policy spent calls).countP (admittedAs id)

/-- The call presents a token that passes every check but the spent set's. -/
def Clears (policy : Policy Key) (c : Call) : Prop :=
  ∃ selfId b, policy.rootKeys ≠ [] ∧ policy.selfId = some selfId ∧
    Carries policy c.credential b ∧ Passes selfId c.deadline c.contentType c.now b

/-- The clock lies before every date the call's token carries. -/
def BeforeDates (policy : Policy Key) (c : Call) (t : SystemTime) : Prop :=
  ∀ b, Carries policy c.credential b →
    ∀ fs, b.queryAll .expires = some fs → ∀ f ∈ fs, Precedes t f

/-- The first call that clears while the id is free brings dates that lie after every
    later clearing call.  `live` is the entry for the id before the calls. -/
def SpentLongEnough (policy : Policy Key) (live : Option SystemTime) : List Call → Prop
  | [] => True
  | c :: cs =>
      (Clears policy c ∧ Lease.lapse live c.now = none ∧
        ∀ d ∈ cs, Clears policy d → BeforeDates policy c d.now) ∨
      (¬ (Clears policy c ∧ Lease.lapse live c.now = none) ∧ SpentLongEnough policy live cs)

/-! ## Calls as requests for the lease on the id -/

/-- What the call asks of the spent set, if it gets that far. -/
def request (policy : Policy Key) (c : Call) : Option (Lease.Request SystemTime) :=
  match clearCredential policy c.credential c.deadline c.contentType c.now with
  | .ok cleared => some (leaseRequest c.now cleared)
  | .error _ => none

variable {policy : Policy Key}

/-- A request comes of a credential that clears. -/
theorem request_eq_some {c : Call} {r : Lease.Request SystemTime}
    (h : request policy c = some r) :
    ∃ cleared, clearCredential policy c.credential c.deadline c.contentType c.now = .ok cleared ∧
      r = leaseRequest c.now cleared := by
  rw [request] at h
  split at h
  · next cleared hc => exact ⟨cleared, hc, (Option.some.inj h).symm⟩
  · cases h

/-- No request, and the credential does not clear. -/
theorem request_eq_none {c : Call} (h : request policy c = none) :
    ∀ cleared,
      clearCredential policy c.credential c.deadline c.contentType c.now ≠ .ok cleared := by
  intro cleared hc
  rw [request] at h
  rw [hc] at h
  cases h

/-- A call makes a request exactly when it clears, at its own clock. -/
theorem request_isSome_iff {c : Call} :
    (∃ r, request policy c = some r) ↔ Clears policy c := by
  constructor
  · rintro ⟨r, hr⟩
    obtain ⟨cleared, hc, -⟩ := request_eq_some hr
    obtain ⟨selfId, b, hroots, hself, hcarries, hpass, -⟩ := clearCredential_ok hc
    exact ⟨selfId, b, hroots, hself, hcarries, hpass⟩
  · rintro ⟨selfId, b, hroots, hself, hcarries, hpass⟩
    obtain ⟨cleared, hc⟩ := clearCredential_total hroots hself hcarries hpass
    exact ⟨leaseRequest c.now cleared, by rw [request, hc]⟩

/-- A request brings its call's clock. -/
theorem request_now {c : Call} {r : Lease.Request SystemTime} (h : request policy c = some r) :
    r.now = c.now := by
  obtain ⟨cleared, -, rfl⟩ := request_eq_some h
  rfl

/-- The requested date is the earliest of the call's dates. -/
theorem request_till {c : Call} {r : Lease.Request SystemTime} (h : request policy c = some r)
    (t : SystemTime) : t < r.till ↔ BeforeDates policy c t := by
  obtain ⟨cleared, hc, rfl⟩ := request_eq_some h
  obtain ⟨selfId, b, -, -, hcarries, -, hcleared⟩ := clearCredential_ok hc
  refine (hcleared.earliest t).trans ?_
  constructor
  · intro h b' hb'
    obtain rfl : b = b' := Except.ok.inj (hcarries.symm.trans hb')
    exact h
  · intro h
    exact h b hcarries

/-- A call of a peer that is not listed clears as its credential does. -/
theorem clearSubmit_call {c : Call} (hpeer : policy.contains c.peer = false) :
    clearSubmit policy c.submit.message c.peer c.now =
      match clearCredential policy c.credential c.deadline c.contentType c.now with
      | .ok cleared => some cleared
      | .error _ => none := by
  show (if policy.contains c.peer then _ else _) = _
  rw [hpeer]
  rfl

/-- **A call that clears serves the lease**: it is admitted exactly when the lease is
    granted, and the entry for the id moves as the lease does. -/
theorem verify_request {a : Authority} {c : Call} {r : Lease.Request SystemTime}
    (spent : MemorySpentSet) (hone : a.facts .oneShot ≠ [])
    (hpeer : policy.contains c.peer = false)
    (hcopy : ∀ b, Carries policy c.credential b → IsCopy a b)
    (hr : request policy c = some r) :
    (admittedAs a.id (c.submit.verify policy spent c.peer c.now).1 =
      decide (Lease.Granted (spent.lookup a.id) r)) ∧
    (c.submit.verify policy spent c.peer c.now).2.lookup a.id =
      Lease.serve (spent.lookup a.id) r := by
  obtain ⟨cleared, hc, rfl⟩ := request_eq_some hr
  obtain ⟨selfId, b, -, -, hcarries, -, hcleared⟩ := clearCredential_ok hc
  -- A copy keeps the issuer's id and its `one_shot` fact, whatever it appends.
  have hid : cleared.id = a.id :=
    Except.ok.inj (hcleared.id.symm.trans (copy_id (hcopy b hcarries)))
  have hshot : cleared.oneShot = true :=
    hcleared.oneShot.mpr (copy_oneShot (hcopy b hcarries) hone)
  obtain ⟨hspent, hadm⟩ := authorize_cleared spent
    ((clearSubmit_call hpeer).trans (by rw [hc]))
  refine ⟨(hadm a.id).trans ?_, ?_⟩
  · rw [← hid]
    exact decide_eq_decide.mpr (spendToken_accepts hshot)
  · refine (congrArg (AList.lookup a.id) hspent).trans ?_
    rw [spendToken_lookup spent hshot, if_pos hid.symm]

/-- A call that does not clear changes nothing and is not admitted. -/
theorem verify_no_request {c : Call} (spent : MemorySpentSet) (id : BiscuitId)
    (hpeer : policy.contains c.peer = false) (hr : request policy c = none) :
    admittedAs id (c.submit.verify policy spent c.peer c.now).1 = false ∧
    (c.submit.verify policy spent c.peer c.now).2 = spent := by
  have hclear : clearSubmit policy c.submit.message c.peer c.now = none := by
    rw [clearSubmit_call hpeer]
    cases hc : clearCredential policy c.credential c.deadline c.contentType c.now with
    | error fault => rfl
    | ok cleared => exact absurd hc (request_eq_none hr cleared)
  obtain ⟨hspent, hadm⟩ := authorize_unclear spent hclear
  exact ⟨hadm id, hspent⟩

/-- The admissions of a sequence of calls are the grants of the lease on the id. -/
theorem admissions_eq_grants {a : Authority} (hone : a.facts .oneShot ≠ []) :
    ∀ {calls : List Call} {spent : MemorySpentSet},
      (∀ c ∈ calls, policy.contains c.peer = false) →
      (∀ c ∈ calls, ∀ b, Carries policy c.credential b → IsCopy a b) →
      admissions policy spent a.id calls =
        Lease.grants (spent.lookup a.id) (calls.filterMap (request policy)) := by
  intro calls
  induction calls with
  | nil => intro spent _ _; rfl
  | cons c cs ih =>
      intro spent hpeers hcopies
      obtain ⟨hpeer, hpeers'⟩ := List.forall_mem_cons.mp hpeers
      obtain ⟨hcopy, hcopies'⟩ := List.forall_mem_cons.mp hcopies
      rw [admissions, verifyAll, List.countP_cons]
      show admissions policy _ a.id cs + _ = _
      rw [ih hpeers' hcopies']
      -- A call that does not clear is not seen by the lease at all.
      cases hr : request policy c with
      | none =>
          obtain ⟨hno, hsame⟩ := verify_no_request spent a.id hpeer hr
          rw [List.filterMap_cons_none hr, hno, hsame]
          rfl
      | some r =>
          obtain ⟨hadm, hnext⟩ := verify_request spent hone hpeer hcopy hr
          rw [List.filterMap_cons_some hr, Lease.grants, hadm, hnext, Nat.add_comm]
          simp only [decide_eq_true_eq]

/-- The lease's exact condition, in terms of the calls. -/
theorem outlasts_iff {live : Option SystemTime} :
    ∀ {calls : List Call}, Lease.Outlasts live (calls.filterMap (request policy)) ↔
      SpentLongEnough policy live calls := by
  intro calls
  induction calls with
  | nil => exact Iff.rfl
  | cons c cs ih =>
      rw [SpentLongEnough]
      cases hr : request policy c with
      | none =>
          have hclears : ¬ Clears policy c := by
            rw [← request_isSome_iff]
            rintro ⟨r, hr'⟩
            cases hr.symm.trans hr'
          rw [List.filterMap_cons_none hr, ih]
          constructor
          · intro h
            exact Or.inr ⟨fun hopen => hclears hopen.1, h⟩
          · rintro (⟨hc, -, -⟩ | ⟨-, h⟩)
            · exact absurd hc hclears
            · exact h
      | some r =>
          have hclears : Clears policy c := request_isSome_iff.mp ⟨r, hr⟩
          have hnow := request_now hr
          rw [List.filterMap_cons_some hr, Lease.Outlasts]
          -- Granted or not is read off the clock of the call, which is that of its request.
          by_cases hg : Lease.Granted live r
          · have hfree : Lease.lapse live c.now = none := hnow ▸ hg
            rw [if_pos hg]
            constructor
            · intro h
              refine Or.inl ⟨hclears, hfree, fun d hd hdc => ?_⟩
              obtain ⟨q, hq⟩ := request_isSome_iff.mpr hdc
              rw [← request_till hr, ← request_now hq]
              exact h q (List.mem_filterMap.mpr ⟨d, hd, hq⟩)
            · rintro (⟨-, -, h⟩ | ⟨hno, -⟩)
              · intro q hq
                obtain ⟨d, hd, hdq⟩ := List.mem_filterMap.mp hq
                rw [request_now hdq, request_till hr]
                exact h d hd (request_isSome_iff.mp ⟨q, hdq⟩)
              · exact absurd ⟨hclears, hfree⟩ hno
          · have hheld : ¬ Lease.lapse live c.now = none := hnow ▸ hg
            rw [if_neg hg, ih]
            constructor
            · intro h
              exact Or.inr ⟨fun hopen => hheld hopen.2, h⟩
            · rintro (⟨-, hfree, -⟩ | ⟨-, h⟩)
              · exact absurd hfree hheld
              · exact h

/-- **ONE-SHOT TOKENS ARE SPENT ONCE, EXACTLY.**  However many copies of a one-shot token
    are presented, with whatever facts appended and at whatever clocks, at most one is
    admitted precisely when the first that finds the id free brings dates that lie after
    every later clearing presentation. -/
theorem one_shot_admitted_once_iff {a : Authority} {spent : MemorySpentSet}
    {calls : List Call} (hone : a.facts .oneShot ≠ [])
    (hpeers : ∀ c ∈ calls, policy.contains c.peer = false)
    (hcopies : ∀ c ∈ calls, ∀ b, Carries policy c.credential b → IsCopy a b) :
    admissions policy spent a.id calls ≤ 1 ↔
      SpentLongEnough policy (spent.lookup a.id) calls := by
  rw [admissions_eq_grants hone hpeers hcopies, Lease.grants_le_one_iff, outlasts_iff]

end

/-! ## A copy with a nearer date -/

/-- A one-shot token, valid for two thousand seconds. -/
def oneShotToken : Authority where
  facts
    | .callee => [⟨[.bytes answeringNode.bytes]⟩]
    | .expires => [⟨[.date 2000]⟩]
    | .oneShot => [⟨[.str "yes"]⟩]
    | _ => []
  revocationId := [7]

/-- The block a holder appends: a date much nearer. -/
def nearerDate : Facts
  | .expires => [⟨[.date 500]⟩]
  | _ => []

section

attribute [local instance] plainText

/-- An engine that reads the token, or its copy with the nearer date. -/
@[reducible] def tokenAndCopy : BiscuitEngine Unit := twoTokens Unit oneShotToken.facts nearerDate

attribute [local instance] tokenAndCopy

def stranger : NodeId := ⟨List.replicate 32 2, rfl⟩

def present (credential : Credential) (secs : Nat) (h : secs < 2 ^ 63) : Call where
  task := taskOne
  deadline := oneSecond
  contentType := plain
  credential := credential
  peer := stranger
  now := secondsAfterEpoch secs h

theorem tokenAndCopy_isCopy {credential : Credential} {b : Biscuit}
    (h : Carries oneRoot credential b) : IsCopy oneShotToken b := by
  have hcopies : ∀ raw, BiscuitEngine.fromBytes raw (chooseRoot oneRoot.rootKeys) = some b →
      IsCopy oneShotToken b := by
    intro raw hraw
    have hraw' : (if raw = [] then some (ofFacts [7] oneShotToken.facts)
        else some (ofFacts [7] (append oneShotToken.facts nearerDate))) = some b := hraw
    split at hraw'
    · obtain rfl := Option.some.inj hraw'
      refine ⟨⟨fun _ => [], fun q => ⟨_, rfl, fun f => ?_⟩⟩, rfl⟩
      rw [append, List.append_nil]
    · obtain rfl := Option.some.inj hraw'
      exact ⟨⟨nearerDate, answers_ofFacts _ _⟩, rfl⟩
  obtain ⟨raw, -, hraw⟩ := carries_parses h
  exact hcopies raw hraw

/-- The copy first, then the original once the copy's date has passed. -/
def copyThenOriginal : List Call :=
  [present attenuated 250 (by decide), present original 1000 (by decide)]

theorem copyThenOriginal_unlisted : ∀ c ∈ copyThenOriginal, oneRoot.contains c.peer = false := by
  decide

theorem one_shot_admitted_once_iff_copyThenOriginal :
    oneShotToken.facts .oneShot ≠ [] ∧
      (∀ c ∈ copyThenOriginal, oneRoot.contains c.peer = false) ∧
      (∀ c ∈ copyThenOriginal, ∀ b, Carries oneRoot c.credential b → IsCopy oneShotToken b) ∧
      (admissions oneRoot .new oneShotToken.id copyThenOriginal ≤ 1 ↔
        SpentLongEnough oneRoot (MemorySpentSet.new.lookup oneShotToken.id) copyThenOriginal) :=
  ⟨List.cons_ne_nil _ _, copyThenOriginal_unlisted, fun _ _ _ => tokenAndCopy_isCopy,
    one_shot_admitted_once_iff (List.cons_ne_nil _ _) copyThenOriginal_unlisted
      fun _ _ _ => tokenAndCopy_isCopy⟩

/-- Two admissions of one one-shot token, with a clock that only moves forward. -/
theorem copy_then_original_admitted_twice :
    oneShotToken.facts .oneShot ≠ [] ∧
      (∀ c ∈ copyThenOriginal, oneRoot.contains c.peer = false) ∧
      (∀ c ∈ copyThenOriginal, ∀ b, Carries oneRoot c.credential b → IsCopy oneShotToken b) ∧
      copyThenOriginal.Pairwise (fun c d => c.now ≤ d.now) ∧
      ¬ admissions oneRoot .new oneShotToken.id copyThenOriginal ≤ 1 := by
  refine ⟨List.cons_ne_nil _ _, copyThenOriginal_unlisted, fun _ _ _ => tokenAndCopy_isCopy,
    by decide, ?_⟩
  show ¬ 2 ≤ 1
  decide

end

end UatOneShot
