import Uat.Verify

/-! # What clears the fact checks

    `Passes` says which tokens the checks before the spent set let through: every query
    is answered by facts that each pass on their own, and two kinds must not be missing.
    `clearToken_ok` and `clearToken_total` show that the loops of the source compute
    exactly that, and `ClearedAs` says what they hand to the spent set; in particular a
    clock lies before the earliest date precisely when it lies before every date.

    `spendToken_lookup` then connects the spent set to the leases of `Uat.Base.Lease`,
    one for each id. -/

namespace UatFactChecks

open UatTypes UatPolicy UatVerify Checked HashMap

/-! ## What passes the fact checks -/

section Facts

variable (selfId : NodeId) (deadline : Deadline) (contentType : ContentType)
  (now : SystemTime)

/-- What the one term of a fact must say. -/
def TermPasses : Query → Term → Prop
  | .callee, .bytes pk => pk = selfId.bytes
  | .expires, .date ts => unixSecs now < ts ∧ ts < 2 ^ 63
  | .maxDeadlineMs, .integer n => (deadline.ms : Int) ≤ n
  | .contentType, .str s => s = contentType.value
  | _, _ => False

/-- A fact of a kind passes when it has one term and the term says the right thing;
    `one_shot()` says nothing. -/
def FactPasses : Query → Fact → Prop
  | .oneShot, _ => True
  | q, f => ∃ t, f = ⟨[t]⟩ ∧ TermPasses selfId deadline contentType now q t

/-- The kinds of which a token must carry at least one fact. -/
def Required : Query → Prop
  | .callee | .expires => True
  | _ => False

/-- A token passes when it authorizes, has an id, and every query is answered by facts
    that each pass, with none missing where one is required. -/
structure Passes (biscuit : Biscuit) : Prop where
  authorizes : biscuit.authorizes = true
  identified : biscuit.revocationIdentifiers ≠ []
  facts : ∀ q, ∃ fs, biscuit.queryAll q = some fs ∧ (Required q → fs ≠ []) ∧
    ∀ f ∈ fs, FactPasses selfId deadline contentType now q f

end Facts

/-- The clock lies before the date of an `expires` fact. -/
def Precedes (now : SystemTime) : Fact → Prop
  | ⟨[.date ts]⟩ => now.nanos < ts * 10 ^ 9
  | _ => True

/-- What passing the checks says about what the spent set is then told. -/
structure ClearedAs (biscuit : Biscuit) (c : Cleared) : Prop where
  id : biscuitIdFromToken biscuit = .ok c.id
  oneShot : c.oneShot = true ↔ ∃ fs, biscuit.queryAll .oneShot = some fs ∧ fs ≠ []
  earliest : ∀ t, t < c.earliestExpires ↔
    ∀ fs, biscuit.queryAll .expires = some fs → ∀ f ∈ fs, Precedes t f

variable {selfId : NodeId} {deadline : Deadline} {contentType : ContentType}
  {now : SystemTime}

/-- `ok_or` succeeds where there is a value. -/
@[simp] theorem okOr_ok_iff {α : Type} {x : Option α} {a : α} :
    okOr x = .ok a ↔ x = some a := by
  cases x with
  | none => exact ⟨nofun, nofun⟩
  | some b => exact ⟨fun h => congrArg some (Except.ok.inj h),
      fun h => congrArg Except.ok (Option.some.inj h)⟩

/-- A check of the one term of a fact. -/
theorem singleTerm_bind_ok_iff {β : Type} {f : Fact} {check : Term → Verdict β} {b : β} :
    (singleTerm f >>= check) = .ok b ↔ ∃ t, f = ⟨[t]⟩ ∧ check t = .ok b := by
  rw [bind_ok_iff]
  refine exists_congr fun t => and_congr_left fun _ => ?_
  obtain ⟨terms⟩ := f
  rw [Fact.mk.injEq]
  rw [singleTerm]
  split
  · next t' heq =>
      obtain rfl : terms = [t'] := heq
      rw [List.cons.injEq, and_iff_left rfl]
      exact ⟨Except.ok.inj, congrArg _⟩
  · next hne =>
      exact ⟨nofun, fun h => absurd h (hne t)⟩

/-- The check of a `callee` fact decides its definition. -/
theorem checkCallee_ok_iff {f : Fact} :
    checkCallee selfId f = .ok ⟨⟩ ↔ FactPasses selfId deadline contentType now .callee f := by
  refine singleTerm_bind_ok_iff.trans (exists_congr fun t => and_congr_right fun _ => ?_)
  cases t <;> simp [TermPasses]

/-- The check of a `max_deadline_ms` fact decides its definition. -/
theorem checkMaxDeadline_ok_iff {f : Fact} :
    checkMaxDeadline deadline f = .ok ⟨⟩ ↔
      FactPasses selfId deadline contentType now .maxDeadlineMs f := by
  refine singleTerm_bind_ok_iff.trans (exists_congr fun t => and_congr_right fun _ => ?_)
  cases t with
  | integer n =>
      refine ite_fail_ok_iff.trans ((and_iff_left rfl).trans ?_)
      -- A deadline is never negative, so the sign test adds nothing to the comparison.
      show ¬ (n < 0 ∨ deadline.ms > n.toNat) ↔ (deadline.ms : Int) ≤ n
      omega
  | _ => exact ⟨nofun, nofun⟩

/-- The check of a `content_type` fact decides its definition. -/
theorem checkContentType_ok_iff {f : Fact} :
    checkContentType contentType f = .ok ⟨⟩ ↔
      FactPasses selfId deadline contentType now .contentType f := by
  refine singleTerm_bind_ok_iff.trans (exists_congr fun t => and_congr_right fun _ => ?_)
  cases t <;> simp [TermPasses]

/-! The `expires` loop carries the earliest date so far; a clock lies before what it
    carries exactly when it lies before every date read. -/

/-- The clock lies before what the loop carries. -/
def Ahead (t : SystemTime) (earliest : Option SystemTime) : Prop := ∀ e ∈ earliest, t < e

/-- A date below `2 ^ 63` seconds is a time, and no other is. -/
theorem epochPlus_ok_iff {ts : Nat} {exp : SystemTime} :
    (epochPlus ts : Verdict SystemTime) = .ok exp ↔
      ts < 2 ^ 63 ∧ exp.nanos = ts * 10 ^ 9 := by
  rw [epochPlus]
  split
  · next h =>
      constructor
      · intro he
        obtain rfl := Except.ok.inj he
        exact ⟨h, rfl⟩
      · rintro ⟨-, hn⟩
        exact congrArg Except.ok (nanos_injective hn.symm)
  · next h => exact ⟨nofun, fun hp => absurd hp.1 h⟩

variable (selfId deadline contentType) in
/-- One turn of the `expires` loop. -/
theorem checkExpires_ok {acc r : Option SystemTime} {f : Fact}
    (h : checkExpires (unixSecs now) acc f = .ok r) :
    FactPasses selfId deadline contentType now .expires f ∧ (∃ e, r = some e) ∧
      ∀ t, Ahead t r ↔ Ahead t acc ∧ Precedes t f := by
  obtain ⟨term, rfl, h⟩ := singleTerm_bind_ok_iff.mp h
  cases term with
  | date ts =>
      obtain ⟨hts, h⟩ := ite_fail_ok_iff.mp h
      obtain ⟨exp, hexp, h⟩ := bind_ok_iff.mp h
      obtain ⟨hlt, hnanos⟩ := epochPlus_ok_iff.mp hexp
      obtain rfl := (pure_ok_iff _ _).mp h
      refine ⟨⟨_, rfl, not_le.mp hts, hlt⟩, ⟨_, rfl⟩, ?_⟩
      intro t
      -- The minimum of two dates lies ahead of the clock when both do.
      have hprec : Precedes t ⟨[.date ts]⟩ ↔ t < exp := by
        rw [systemTime_lt_iff, hnanos]
        rfl
      rw [hprec]
      cases acc with
      | none => simp [Ahead]
      | some prev =>
          simp only [Ahead, Option.mem_def, Option.some.injEq, forall_eq']
          split
          · next hle => exact ⟨fun ht => ⟨ht, lt_of_lt_of_le ht hle⟩, And.left⟩
          · next hle =>
              exact ⟨fun ht => ⟨ht.trans (not_le.mp hle), ht⟩, And.right⟩
  | _ => exact absurd h (fail_ne_ok _ _)

/-- A fact that passes is taken by the loop's turn, whatever the loop carries. -/
theorem checkExpires_total {f : Fact} (acc : Option SystemTime)
    (h : FactPasses selfId deadline contentType now .expires f) :
    ∃ r, checkExpires (unixSecs now) acc f = .ok r := by
  obtain ⟨t, rfl, ht⟩ := h
  cases t with
  | date ts =>
      obtain ⟨hts, hlt⟩ : unixSecs now < ts ∧ ts < 2 ^ 63 := ht
      have hguard : ¬ ts ≤ unixSecs now := not_le.mpr hts
      obtain ⟨exp, hexp⟩ : ∃ exp, (epochPlus ts : Verdict SystemTime) = .ok exp :=
        ⟨_, dif_pos hlt⟩
      refine exists_congr (fun r => singleTerm_bind_ok_iff) |>.mpr ?_
      exact ⟨_, .date ts, rfl, ite_fail_ok_iff.mpr ⟨hguard, bind_ok_iff.mpr ⟨exp, hexp, rfl⟩⟩⟩
  | _ => exact absurd ht id

variable (selfId deadline contentType) in
/-- The whole `expires` loop. -/
theorem expiresLoop_ok {fs : List Fact} :
    ∀ {acc r : Option SystemTime}, fs.foldlM (checkExpires (unixSecs now)) acc = .ok r →
      (∀ f ∈ fs, FactPasses selfId deadline contentType now .expires f) ∧
        ∀ t, Ahead t r ↔ Ahead t acc ∧ ∀ f ∈ fs, Precedes t f := by
  induction fs with
  | nil =>
      intro acc r h
      obtain rfl : acc = r := Except.ok.inj h
      simp
  | cons f fs ih =>
      intro acc r h
      rw [List.foldlM_cons, bind_ok_iff] at h
      obtain ⟨acc', hf, hfs⟩ := h
      obtain ⟨hpass, -, hahead⟩ := checkExpires_ok selfId deadline contentType hf
      obtain ⟨hrest, hr⟩ := ih hfs
      refine ⟨List.forall_mem_cons.mpr ⟨hpass, hrest⟩, ?_⟩
      intro t
      rw [hr, hahead, List.forall_mem_cons, and_assoc]

/-- Facts that pass leave the loop with a date, unless there were none. -/
theorem expiresLoop_total {fs : List Fact} :
    ∀ acc : Option SystemTime,
      (∀ f ∈ fs, FactPasses selfId deadline contentType now .expires f) →
      (acc ≠ none ∨ fs ≠ []) →
      ∃ e, fs.foldlM (checkExpires (unixSecs now)) acc = .ok (some e) := by
  induction fs with
  | nil =>
      -- Only a loop over no facts that starts without a date could end without one.
      rintro acc - (hacc | hfs)
      · obtain ⟨e, rfl⟩ := Option.ne_none_iff_exists'.mp hacc
        exact ⟨e, rfl⟩
      · exact absurd rfl hfs
  | cons f fs ih =>
      intro acc h _
      obtain ⟨hf, hfs⟩ := List.forall_mem_cons.mp h
      obtain ⟨acc', hacc'⟩ := checkExpires_total acc hf
      obtain ⟨-, ⟨e', rfl⟩, -⟩ := checkExpires_ok selfId deadline contentType hacc'
      obtain ⟨e, he⟩ := ih (some e') hfs (Or.inl nofun)
      exact ⟨e, by rw [List.foldlM_cons, bind_ok_iff]; exact ⟨_, hacc', he⟩⟩

/-- A token has an id when it has a revocation identifier. -/
theorem biscuitIdFromToken_ok_iff {b : Biscuit} :
    (∃ id, biscuitIdFromToken b = .ok id) ↔ b.revocationIdentifiers ≠ [] := by
  rw [biscuitIdFromToken]
  cases b.revocationIdentifiers with
  | nil => exact ⟨nofun, nofun⟩
  | cons id ids => exact ⟨fun _ => nofun, fun _ => ⟨_, rfl⟩⟩

/-- What a token that clears the fact checks must be. -/
theorem clearToken_ok {b : Biscuit} {c : Cleared}
    (h : clearToken selfId b deadline contentType now = .ok c) :
    Passes selfId deadline contentType now b ∧ ClearedAs b c := by
  simp only [clearToken, ite_fail_ok_iff, bind_ok_iff, okOr_ok_iff, pure_ok_iff] at h
  obtain ⟨hauth, callees, hcallees, hne, _, hpass, expires, hexpires, hne', r, hloop, e, rfl,
    maxs, hmaxs, _, hmpass, cts, hcts, _, hcpass, id, hid, shots, hshots, rfl⟩ := h
  obtain ⟨hepass, hahead⟩ := expiresLoop_ok selfId deadline contentType hloop
  -- The steps of the source, one for each kind of fact.
  have hfacts : ∀ q, ∃ fs, b.queryAll q = some fs ∧ (Required q → fs ≠ []) ∧
      ∀ f ∈ fs, FactPasses selfId deadline contentType now q f := by
    intro q
    cases q with
    | callee =>
        exact ⟨callees, hcallees, fun _ => hne,
          fun f hf => checkCallee_ok_iff.mp (forM_ok_iff.mp hpass f hf)⟩
    | expires => exact ⟨expires, hexpires, fun _ => hne', hepass⟩
    | maxDeadlineMs =>
        exact ⟨maxs, hmaxs, False.elim,
          fun f hf => checkMaxDeadline_ok_iff.mp (forM_ok_iff.mp hmpass f hf)⟩
    | contentType =>
        exact ⟨cts, hcts, False.elim,
          fun f hf => checkContentType_ok_iff.mp (forM_ok_iff.mp hcpass f hf)⟩
    | oneShot => exact ⟨shots, hshots, False.elim, fun _ _ => trivial⟩
  refine ⟨⟨not_not.mp hauth, biscuitIdFromToken_ok_iff.mp ⟨id, hid⟩, hfacts⟩, hid, ?_, ?_⟩
  · rw [hshots]
    cases shots <;> simp
  · intro t
    have ht := hahead t
    simp only [Ahead, Option.mem_def, Option.some.injEq, forall_eq', reduceCtorEq,
      IsEmpty.forall_iff, implies_true, true_and] at ht
    rw [ht, hexpires]
    exact ⟨fun h fs hfs => Option.some.inj hfs ▸ h, fun h => h expires rfl⟩

/-- A token passes only while its dates lie ahead. -/
theorem passes_precedes {b : Biscuit} (h : Passes selfId deadline contentType now b)
    {fs : List Fact} (hfs : b.queryAll .expires = some fs) {f : Fact} (hf : f ∈ fs) :
    Precedes now f := by
  obtain ⟨fs', hfs', -, hpass⟩ := h.facts .expires
  obtain rfl := Option.some.inj (hfs.symm.trans hfs')
  obtain ⟨t, rfl, ht⟩ := hpass f hf
  cases t with
  | date ts => exact lt_of_unixSecs_lt ht.1
  | _ => exact ht.elim

/-- Every token that passes clears. -/
theorem clearToken_total {b : Biscuit} (h : Passes selfId deadline contentType now b) :
    ∃ c, clearToken selfId b deadline contentType now = .ok c := by
  obtain ⟨callees, hcallees, hne, hpass⟩ := h.facts .callee
  obtain ⟨expires, hexpires, hne', hepass⟩ := h.facts .expires
  obtain ⟨maxs, hmaxs, -, hmpass⟩ := h.facts .maxDeadlineMs
  obtain ⟨cts, hcts, -, hcpass⟩ := h.facts .contentType
  obtain ⟨shots, hshots, -, -⟩ := h.facts .oneShot
  obtain ⟨e, hloop⟩ := expiresLoop_total none hepass (Or.inr (hne' trivial))
  obtain ⟨id, hid⟩ := biscuitIdFromToken_ok_iff.mpr h.identified
  refine ⟨⟨id, e, !shots.isEmpty⟩, ?_⟩
  simp only [clearToken, ite_fail_ok_iff, bind_ok_iff, okOr_ok_iff, pure_ok_iff]
  exact ⟨not_not.mpr h.authorizes, callees, hcallees, hne trivial, ⟨⟩,
    forM_ok_iff.mpr fun f hf => checkCallee_ok_iff.mpr (hpass f hf), expires, hexpires,
    hne' trivial, some e, hloop, e, rfl, maxs, hmaxs, ⟨⟩,
    forM_ok_iff.mpr fun f hf => checkMaxDeadline_ok_iff.mpr (hmpass f hf), cts, hcts, ⟨⟩,
    forM_ok_iff.mpr fun f hf => checkContentType_ok_iff.mpr (hcpass f hf), id, hid, shots,
    hshots, rfl⟩

/-! ## The spent set is one lease for each id -/

/-- Eviction lapses every lease. -/
@[simp] theorem lookup_evictExpired (spent : MemorySpentSet) (now : SystemTime)
    (k : BiscuitId) : (evictExpired spent now).lookup k = Lease.lapse (spent.lookup k) now :=
  lookup_retain spent _ k

/-- `contains` asks for a lease that has not lapsed. -/
theorem contains_eq (spent : MemorySpentSet) (id : BiscuitId) (now : SystemTime) :
    spent.contains id now =
      ((Lease.lapse (spent.lookup id) now).isSome, evictExpired spent now) := by
  rw [MemorySpentSet.contains, containsKey, lookup_evictExpired]

/-- Where the lease has lapsed, spending takes it. -/
theorem trySpend_free {spent : MemorySpentSet} {id : BiscuitId} {expires now : SystemTime}
    (h : Lease.lapse (spent.lookup id) now = none) :
    spent.trySpend id expires now = (true, (evictExpired spent now).insert id expires) := by
  rw [MemorySpentSet.trySpend, containsKey, lookup_evictExpired, h]
  rfl

/-- What the spent set is asked for on behalf of a cleared token. -/
def leaseRequest (now : SystemTime) (c : Cleared) : Lease.Request SystemTime :=
  ⟨now, c.earliestExpires⟩

/-- A one-shot token whose lease is free is accepted and takes it. -/
theorem spendToken_granted {spent : MemorySpentSet} {c : Cleared} (hc : c.oneShot = true)
    (hg : Lease.Granted (spent.lookup c.id) (leaseRequest now c)) :
    spendToken spent now c =
      (.ok c.id, (evictExpired (evictExpired spent now) now).insert c.id c.earliestExpires) := by
  have hfree : Lease.lapse (spent.lookup c.id) now = none := hg
  have hagain : Lease.lapse ((evictExpired spent now).lookup c.id) now = none := by
    rw [lookup_evictExpired, Lease.lapse_lapse, hfree]
  simp only [spendToken, if_pos hc, contains_eq, hfree, Option.isSome_none, trySpend_free hagain]

/-- A one-shot token whose lease is held is refused. -/
theorem spendToken_refused {spent : MemorySpentSet} {c : Cleared} (hc : c.oneShot = true)
    (hg : ¬ Lease.Granted (spent.lookup c.id) (leaseRequest now c)) :
    spendToken spent now c = (fail .tokenUnauthorized, evictExpired spent now) := by
  obtain ⟨e, he⟩ := Option.ne_none_iff_exists'.mp hg
  have hheld : Lease.lapse (spent.lookup c.id) now = some e := he
  rw [spendToken, if_pos hc, contains_eq, hheld]
  rfl

/-- A token that is not one-shot leaves the spent set alone. -/
theorem spendToken_reusable (spent : MemorySpentSet) {c : Cleared} (hc : c.oneShot = false) :
    spendToken spent now c = (.ok c.id, spent) := by
  rw [spendToken, hc]
  rfl

/-- Whatever is accepted is accepted under its own id. -/
theorem spendToken_ok_id {spent : MemorySpentSet} {c : Cleared} {id : BiscuitId}
    (h : (spendToken spent now c).1 = .ok id) : c.id = id := by
  cases hc : c.oneShot with
  | false =>
      rw [spendToken_reusable spent hc] at h
      exact Except.ok.inj h
  | true =>
      by_cases hg : Lease.Granted (spent.lookup c.id) (leaseRequest now c)
      · rw [spendToken_granted hc hg] at h
        exact Except.ok.inj h
      · rw [spendToken_refused hc hg] at h
        cases h

/-- A one-shot token is accepted exactly when the lease on its id is free. -/
theorem spendToken_accepts {spent : MemorySpentSet} {c : Cleared} (hc : c.oneShot = true) :
    (spendToken spent now c).1 = .ok c.id ↔
      Lease.Granted (spent.lookup c.id) (leaseRequest now c) := by
  by_cases hg : Lease.Granted (spent.lookup c.id) (leaseRequest now c)
  · rw [spendToken_granted hc hg]
    exact ⟨fun _ => hg, fun _ => rfl⟩
  · rw [spendToken_refused hc hg]
    exact ⟨nofun, fun h => absurd h hg⟩

/-- **The spent set refines a lease.** Presenting a one-shot token serves the lease on
    its id; the entries of all other ids only lapse. -/
theorem spendToken_lookup (spent : MemorySpentSet) {c : Cleared} (hc : c.oneShot = true)
    (k : BiscuitId) :
    (spendToken spent now c).2.lookup k =
      if k = c.id then Lease.serve (spent.lookup k) (leaseRequest now c)
      else Lease.lapse (spent.lookup k) now := by
  by_cases hg : Lease.Granted (spent.lookup c.id) (leaseRequest now c)
  · rw [spendToken_granted hc hg, lookup_insert_eq, lookup_evictExpired,
      lookup_evictExpired, Lease.lapse_lapse]
    by_cases hk : k = c.id
    · subst hk
      rw [if_pos rfl, if_pos rfl, Lease.serve_granted hg]
      rfl
    · rw [if_neg hk, if_neg hk]
  · rw [spendToken_refused hc hg, lookup_evictExpired]
    by_cases hk : k = c.id
    · subst hk
      obtain ⟨e, he⟩ := Option.ne_none_iff_exists'.mp hg
      have hheld : Lease.lapse (spent.lookup c.id) now = some e := he
      -- The serve changes nothing, and the lapse leaves a live entry as it is.
      rw [if_pos rfl, Lease.serve_refused hg, hheld]
      exact (Lease.lapse_eq_some_iff.mp hheld).1.symm
    · rw [if_neg hk]


/-! ## Verification of a submit -/

section

variable [Base64Engine] {Key : Type} [BiscuitEngine Key] {policy : Policy Key}

/-- The token a credential carries under the policy's roots. -/
def Carries (policy : Policy Key) (credential : Credential) (biscuit : Biscuit) : Prop :=
  parseToken policy credential = .ok biscuit

/-- The token is what the engine makes of the credential's bytes, under the chosen root. -/
theorem carries_parses {credential : Credential} {biscuit : Biscuit}
    (h : Carries policy credential biscuit) :
    ∃ raw, credential.decode = .ok raw ∧
      BiscuitEngine.fromBytes raw (chooseRoot policy.rootKeys) = some biscuit := by
  rw [Carries, parseToken] at h
  split at h
  · exact absurd h (fail_ne_ok _ _)
  · next raw hraw => exact ⟨raw, hraw, okOr_ok_iff.mp h⟩

/-- A credential that clears carries a token that passes, under configured roots. -/
theorem clearCredential_ok {credential : Credential} {c : Cleared}
    (h : clearCredential policy credential deadline contentType now = .ok c) :
    ∃ selfId biscuit, policy.rootKeys ≠ [] ∧ policy.selfId = some selfId ∧
      Carries policy credential biscuit ∧
      Passes selfId deadline contentType now biscuit ∧ ClearedAs biscuit c := by
  simp only [clearCredential, ite_fail_ok_iff, bind_ok_iff, okOr_ok_iff] at h
  obtain ⟨hroots, selfId, hself, biscuit, hparse, hclear⟩ := h
  obtain ⟨hpass, hcleared⟩ := clearToken_ok hclear
  refine ⟨selfId, biscuit, ?_, hself, hparse, hpass, hcleared⟩
  intro hnil
  exact hroots (List.isEmpty_iff.mpr hnil)

/-- Under configured roots, a token that passes clears. -/
theorem clearCredential_total {credential : Credential} {biscuit : Biscuit}
    (hroots : policy.rootKeys ≠ []) (hself : policy.selfId = some selfId)
    (hparse : Carries policy credential biscuit)
    (hpass : Passes selfId deadline contentType now biscuit) :
    ∃ c, clearCredential policy credential deadline contentType now = .ok c := by
  obtain ⟨c, hc⟩ := clearToken_total hpass
  refine ⟨c, ?_⟩
  simp only [clearCredential, ite_fail_ok_iff, bind_ok_iff, okOr_ok_iff]
  exact ⟨fun h => hroots (List.isEmpty_iff.mp h), selfId, hself, biscuit, hparse, hc⟩

/-- Verification of a credential that clears is left to the spent set. -/
theorem verifyBiscuitCredential_cleared {credential : Credential} {c : Cleared}
    (spent : MemorySpentSet)
    (h : clearCredential policy credential deadline contentType now = .ok c) :
    verifyBiscuitCredential policy spent credential deadline contentType now =
      spendToken spent now c := by
  rw [verifyBiscuitCredential, h]

/-- A credential that does not clear is not accepted and leaves the spent set alone. -/
theorem verifyBiscuitCredential_unclear {credential : Credential} (spent : MemorySpentSet)
    (h : ∀ c, clearCredential policy credential deadline contentType now ≠ .ok c) :
    ∃ fault, verifyBiscuitCredential policy spent credential deadline contentType now =
      (.error fault, spent) := by
  rw [verifyBiscuitCredential]
  cases hc : clearCredential policy credential deadline contentType now with
  | error fault => exact ⟨fault, rfl⟩
  | ok c => exact absurd hc (h c)

/-- What a header from `peer` at clock `now` brings to the spent set: nothing when it is
    no bodyless submit, when the peer is listed, when it carries no credential or one
    that does not clear. -/
def clearSubmit (policy : Policy Key) (header : Message) (peer : NodeId)
    (now : SystemTime) : Option Cleared :=
  match header with
  | .submit _ deadline contentType (some credential) [] =>
      if policy.contains peer then none else
      match clearCredential policy credential deadline contentType now with
      | .ok cleared => some cleared
      | .error _ => none
  | _ => none

/-- What clears is a bodyless submit of an unlisted peer, with a credential that clears. -/
theorem clearSubmit_eq_some {header : Message} {peer : NodeId} {c : Cleared}
    (h : clearSubmit policy header peer now = some c) :
    ∃ task deadline contentType credential,
      header = .submit task deadline contentType (some credential) [] ∧
      policy.contains peer = false ∧
      clearCredential policy credential deadline contentType now = .ok c := by
  simp only [clearSubmit] at h
  split at h
  · next task deadline contentType credential =>
      split at h
      · cases h
      · next hpeer =>
          split at h
          · next hc =>
              obtain rfl := Option.some.inj h
              exact ⟨task, deadline, contentType, credential, rfl,
                Bool.not_eq_true _ ▸ hpeer, hc⟩
          · cases h
  · cases h

/-- Was the submit admitted with the token rule of `id`? -/
def admittedAs (id : BiscuitId) : Verdict AuthorizedSubmit → Bool
  | .ok a => decide (a.rule = .token id)
  | .error _ => false

/-- A listed peer is admitted by the allowlist, whatever credential it brings. -/
theorem authorize_listed {task : TaskId} {credential : Option Credential} {peer : NodeId}
    {spent : MemorySpentSet} (hpeer : policy.contains peer = true) :
    authorizeSubmitHeader (.submit task deadline contentType credential []) policy spent peer
        now =
      (.ok ⟨.allowlist, .submit task deadline contentType credential [], rfl⟩, spent) := by
  show (if policy.contains peer then _ else _) = _
  rw [hpeer]
  rfl

/-- Any other peer is admitted by its credential or not at all. -/
theorem authorize_token {task : TaskId} {credential : Credential} {peer : NodeId}
    {spent : MemorySpentSet} (hpeer : policy.contains peer = false) :
    authorizeSubmitHeader (.submit task deadline contentType (some credential) []) policy
        spent peer now =
      match verifyBiscuitCredential policy spent credential deadline contentType now with
      | (.error fault, spent) => (.error fault, spent)
      | (.ok id, spent) =>
          (.ok ⟨.token id, .submit task deadline contentType (some credential) [], rfl⟩,
            spent) := by
  show (if policy.contains peer then _ else _) = _
  rw [hpeer]
  rfl

/-- An unlisted peer without a credential is denied. -/
theorem authorize_denied {task : TaskId} {peer : NodeId} {spent : MemorySpentSet}
    (hpeer : policy.contains peer = false) :
    authorizeSubmitHeader (.submit task deadline contentType none []) policy spent peer now =
      (fail (.denied peer), spent) := by
  show (if policy.contains peer then _ else _) = _
  rw [hpeer]
  rfl

/-- The allowlist rule admits only listed peers. -/
theorem authorize_rule_allowlist {header : Message} {peer : NodeId}
    {spent spent' : MemorySpentSet} {submit : AuthorizedSubmit}
    (h : authorizeSubmitHeader header policy spent peer now = (.ok submit, spent'))
    (hrule : submit.rule = .allowlist) : policy.contains peer = true := by
  by_contra hpeer
  rw [Bool.not_eq_true] at hpeer
  cases header with
  | submit task deadline contentType credential body =>
      cases body with
      | cons b body => cases h
      | nil =>
          cases credential with
          | none =>
              rw [authorize_denied hpeer] at h
              cases h
          | some credential =>
              rw [authorize_token hpeer] at h
              split at h
              · cases h
              · obtain ⟨h, -⟩ := Prod.mk.inj h
                rw [← Except.ok.inj h] at hrule
                cases hrule
  | _ => cases h

/-- **A header that clears is left to the spent set**: the set moves as `spendToken`
    says, and the admission is its verdict. -/
theorem authorize_cleared {header : Message} {peer : NodeId} {c : Cleared}
    (spent : MemorySpentSet) (h : clearSubmit policy header peer now = some c) :
    (authorizeSubmitHeader header policy spent peer now).2 = (spendToken spent now c).2 ∧
    ∀ id, admittedAs id (authorizeSubmitHeader header policy spent peer now).1 =
      decide ((spendToken spent now c).1 = .ok id) := by
  obtain ⟨task, deadline, contentType, credential, rfl, hpeer, hc⟩ := clearSubmit_eq_some h
  rw [authorize_token hpeer, verifyBiscuitCredential_cleared spent hc]
  cases hs : spendToken spent now c with
  | mk verdict spent' =>
      cases verdict with
      | error fault => exact ⟨rfl, fun id => (decide_eq_false nofun).symm⟩
      | ok id' =>
          refine ⟨rfl, fun id => ?_⟩
          simp only [admittedAs, AuthRule.token.injEq, Except.ok.injEq]

/-- A header that does not clear leaves the spent set alone and admits no token. -/
theorem authorize_unclear {header : Message} {peer : NodeId} (spent : MemorySpentSet)
    (h : clearSubmit policy header peer now = none) :
    (authorizeSubmitHeader header policy spent peer now).2 = spent ∧
    ∀ id, admittedAs id (authorizeSubmitHeader header policy spent peer now).1 = false := by
  cases header with
  | submit task deadline contentType credential body =>
      cases body with
      | cons b body => exact ⟨rfl, fun _ => rfl⟩
      | nil =>
          by_cases hpeer : policy.contains peer = true
          · rw [authorize_listed hpeer]
            exact ⟨rfl, fun _ => rfl⟩
          · rw [Bool.not_eq_true] at hpeer
            cases credential with
            | none =>
                rw [authorize_denied hpeer]
                exact ⟨rfl, fun _ => rfl⟩
            | some credential =>
                -- A credential that clears would have made this header clear.
                have hno : ∀ c, clearCredential policy credential deadline contentType now ≠
                    .ok c := by
                  intro c hc
                  rw [clearSubmit, hpeer, hc] at h
                  cases h
                obtain ⟨fault, hfault⟩ := verifyBiscuitCredential_unclear spent hno
                rw [authorize_token hpeer, hfault]
                exact ⟨rfl, fun _ => rfl⟩
  | _ => exact ⟨rfl, fun _ => rfl⟩

end

end UatFactChecks
