import Uat.FactChecks

/-! # Attenuation — appending facts to a token

    The holder of a token can append blocks, and `query_all` returns the facts of every
    block.  Verification asks of each kind "do all facts pass?" and of two kinds also "is
    there one at all?".  The first question is antitone in the facts, the second is
    monotone, so appending can restrict and it can also supply what was missing.

    `attenuation_restricts_iff` says for which tokens no appended block can help. -/

namespace UatAttenuation

open UatTypes UatPolicy UatVerify UatFactChecks Checked

/-- The facts of a token's blocks, by the predicate that a query reads. -/
abbrev Facts := Query → List Fact

/-- The facts of a token after the holder appended `G`. -/
def append (F G : Facts) : Facts := fun q => F q ++ G q

/-- `query_all` answers with the facts of all blocks, in any order. -/
def Answers (b : Biscuit) (F : Facts) : Prop :=
  ∀ q, ∃ fs, b.queryAll q = some fs ∧ ∀ f, f ∈ fs ↔ f ∈ F q

/-- A token that answers with `F`, with one revocation identifier for its authority
    block. -/
def ofFacts (revocationId : Bytes) (F : Facts) : Biscuit where
  authorizes := true
  queryAll q := some (F q)
  revocationIdentifiers := [revocationId]

/-- A token made of facts answers with them. -/
theorem answers_ofFacts (revocationId : Bytes) (F : Facts) :
    Answers (ofFacts revocationId F) F :=
  fun q => ⟨F q, rfl, fun _ => Iff.rfl⟩

variable {selfId : NodeId} {deadline : Deadline} {contentType : ContentType}
  {now : SystemTime}

/-- Passing, in terms of the facts alone. -/
theorem passes_iff {b : Biscuit} {F : Facts} (hb : Answers b F) (hauth : b.authorizes = true)
    (hid : b.revocationIdentifiers ≠ []) :
    Passes selfId deadline contentType now b ↔
      (∀ q, Required q → F q ≠ []) ∧
        ∀ q, ∀ f ∈ F q, FactPasses selfId deadline contentType now q f := by
  constructor
  · intro h
    refine ⟨fun q hq => ?_, fun q f hf => ?_⟩
    · obtain ⟨fs, hfs, hne, -⟩ := h.facts q
      obtain ⟨fs', hfs', hmem⟩ := hb q
      obtain rfl := Option.some.inj (hfs.symm.trans hfs')
      obtain ⟨f, hf⟩ := List.exists_mem_of_ne_nil fs (hne hq)
      exact List.ne_nil_of_mem ((hmem f).mp hf)
    · obtain ⟨fs, hfs, -, hpass⟩ := h.facts q
      obtain ⟨fs', hfs', hmem⟩ := hb q
      obtain rfl := Option.some.inj (hfs.symm.trans hfs')
      exact hpass f ((hmem f).mpr hf)
  · rintro ⟨hreq, hpass⟩
    refine ⟨hauth, hid, fun q => ?_⟩
    obtain ⟨fs, hfs, hmem⟩ := hb q
    refine ⟨fs, hfs, fun hq => ?_, fun f hf => hpass q f ((hmem f).mp hf)⟩
    obtain ⟨f, hf⟩ := List.exists_mem_of_ne_nil (F q) (hreq q hq)
    exact List.ne_nil_of_mem ((hmem f).mpr hf)

section

variable {Key : Type}

/-- The credential is a well-signed token whose blocks carry the facts `F`. -/
def IsToken [Base64Engine] [BiscuitEngine Key] (policy : Policy Key)
    (credential : Credential) (F : Facts) : Prop :=
  ∃ b, Carries policy credential b ∧ Answers b F ∧ b.authorizes = true ∧
    b.revocationIdentifiers ≠ []

/-- Verification accepts the credential, with nothing spent yet. -/
def Accepts [Base64Engine] [BiscuitEngine Key] (policy : Policy Key)
    (credential : Credential) (deadline : Deadline) (contentType : ContentType)
    (now : SystemTime) : Prop :=
  ∃ id, (verifyBiscuitCredential policy .new credential deadline contentType now).1 = .ok id

/-- Against an empty spent set, accepting is clearing. -/
theorem accepts_iff_clears [Base64Engine] [BiscuitEngine Key] {policy : Policy Key}
    {credential : Credential} :
    Accepts policy credential deadline contentType now ↔
      ∃ c, clearCredential policy credential deadline contentType now = .ok c := by
  constructor
  · rintro ⟨id, hid⟩
    by_contra hno
    have hunclear : ∀ c, clearCredential policy credential deadline contentType now ≠ .ok c :=
      fun c hc => hno ⟨c, hc⟩
    obtain ⟨fault, hfault⟩ := verifyBiscuitCredential_unclear .new hunclear
    rw [hfault] at hid
    cases hid
  · rintro ⟨c, hc⟩
    refine ⟨c.id, ?_⟩
    rw [verifyBiscuitCredential_cleared .new hc]
    cases hone : c.oneShot with
    | false => rw [spendToken_reusable .new hone]
    | true =>
        have hfree : Lease.Granted (MemorySpentSet.new.lookup c.id) (leaseRequest now c) := rfl
        rw [spendToken_granted hone hfree]

/-- Acceptance, in terms of the facts alone. -/
theorem accepts_iff [Base64Engine] [BiscuitEngine Key] {policy : Policy Key}
    {credential : Credential} {F : Facts} (hroots : policy.rootKeys ≠ [])
    (hself : policy.selfId = some selfId) (htoken : IsToken policy credential F) :
    Accepts policy credential deadline contentType now ↔
      (∀ q, Required q → F q ≠ []) ∧
        ∀ q, ∀ f ∈ F q, FactPasses selfId deadline contentType now q f := by
  obtain ⟨b, hparse, hb, hauth, hid⟩ := htoken
  rw [accepts_iff_clears, ← passes_iff hb hauth hid]
  constructor
  · rintro ⟨c, hc⟩
    obtain ⟨selfId', b', -, hself', hparse', hpass, -⟩ := clearCredential_ok hc
    obtain rfl := Option.some.inj (hself.symm.trans hself')
    obtain rfl : b = b' := Except.ok.inj (hparse.symm.trans hparse')
    exact hpass
  · exact clearCredential_total hroots hself hparse

/-- No block appended to a token that carries `F` turns a rejection into an acceptance,
    whatever the token library parses and however credentials are encoded. -/
def AttenuationRestricts (policy : Policy Key) (F : Facts) (deadline : Deadline)
    (contentType : ContentType) (now : SystemTime) : Prop :=
  ∀ [Base64Engine] [BiscuitEngine Key] (token attenuated : Credential) (G : Facts),
    IsToken policy token F → IsToken policy attenuated (append F G) →
    Accepts policy attenuated deadline contentType now →
    Accepts policy token deadline contentType now

end

/-! ## A library with two tokens -/

/-- Credentials that decode to themselves. -/
@[reducible] def plainText : Base64Engine := ⟨some⟩

/-- A library that knows one token, under the empty credential, and one attenuated copy
    of it under every other credential. -/
@[reducible] def twoTokens (Key : Type) (F G : Facts) : BiscuitEngine Key where
  fromBytes raw _ :=
    if raw = [] then some (ofFacts [7] F) else some (ofFacts [7] (append F G))

section

attribute [local instance] plainText

/-- The credential of the token. -/
def original : Credential := ⟨"", [], rfl, by decide⟩

/-- The credential of its copy. -/
def attenuated : Credential := ⟨"a", [97], by decide, by decide⟩

end

section

variable {Key : Type} (policy : Policy Key) (F G : Facts)

/-- The token's facts are read off its credential. -/
theorem original_isToken :
    @IsToken Key plainText (twoTokens Key F G) policy original F :=
  ⟨ofFacts [7] F, rfl, answers_ofFacts [7] F, rfl, List.cons_ne_nil _ _⟩

/-- Off the copy's, those and the appended ones. -/
theorem attenuated_isToken :
    @IsToken Key plainText (twoTokens Key F G) policy attenuated (append F G) :=
  ⟨ofFacts [7] (append F G), rfl, answers_ofFacts [7] (append F G), rfl,
    List.cons_ne_nil _ _⟩

end

/-- The block that supplies what verification requires. -/
def supply (selfId : NodeId) (now : SystemTime) : Facts
  | .callee => [⟨[.bytes selfId.bytes]⟩]
  | .expires => [⟨[.date (unixSecs now + 1)]⟩]
  | _ => []

/-- Every fact supplied passes its check. -/
theorem supply_passes (h : unixSecs now + 1 < 2 ^ 63) :
    ∀ q, ∀ f ∈ supply selfId now q, FactPasses selfId deadline contentType now q f := by
  intro q f hf
  cases q with
  | callee => exact ⟨.bytes selfId.bytes, List.mem_singleton.mp hf, rfl⟩
  | expires =>
      exact ⟨.date (unixSecs now + 1), List.mem_singleton.mp hf, Nat.lt_succ_self _, h⟩
  | _ => exact absurd hf List.not_mem_nil

/-- **ATTENUATION RESTRICTS, EXACTLY.**  No appended block can help a token precisely
    when the token already carries every required fact, or carries a fact that fails on
    its own, or the clock is so late that no date can pass. -/
theorem attenuation_restricts_iff {Key : Type} {policy : Policy Key} {F : Facts}
    (hroots : policy.rootKeys ≠ []) (hself : policy.selfId = some selfId) :
    AttenuationRestricts policy F deadline contentType now ↔
      (∀ q, Required q → F q ≠ []) ∨
      (∃ q, ∃ f ∈ F q, ¬ FactPasses selfId deadline contentType now q f) ∨
      2 ^ 63 ≤ unixSecs now + 1 := by
  constructor
  · intro h
    by_contra hnot
    obtain ⟨hmissing, hnofail, hdate⟩ := not_or.mp hnot |>.imp_right not_or.mp
    have hpass : ∀ q, ∀ f ∈ F q, FactPasses selfId deadline contentType now q f := by
      intro q f hf
      by_contra hbad
      exact hnofail ⟨q, f, hf, hbad⟩
    -- the holder appends exactly what is missing
    let G := supply selfId now
    let _ := plainText
    let _ := twoTokens Key F G
    have hcopy : Accepts policy attenuated deadline contentType now := by
      refine (accepts_iff hroots hself (attenuated_isToken policy F G)).mpr ⟨?_, ?_⟩
      · intro q hq
        have hG : G q ≠ [] := by cases q <;> first | exact List.cons_ne_nil _ _ | exact hq.elim
        exact List.append_ne_nil_of_right_ne_nil _ hG
      · intro q f hf
        rcases List.mem_append.mp hf with hf | hf
        · exact hpass q f hf
        · exact supply_passes (not_le.mp hdate) q f hf
    have horig := h original attenuated G (original_isToken policy F G)
      (attenuated_isToken policy F G) hcopy
    exact hmissing ((accepts_iff hroots hself (original_isToken policy F G)).mp horig).1
  · intro h _ _ token copy G htoken hcopy haccept
    obtain ⟨hreq, hpass⟩ := (accepts_iff hroots hself hcopy).mp haccept
    have hF : ∀ q, ∀ f ∈ F q, FactPasses selfId deadline contentType now q f :=
      fun q f hf => hpass q f (List.mem_append_left (G q) hf)
    refine (accepts_iff hroots hself htoken).mpr ⟨?_, hF⟩
    rcases h with hall | ⟨q, f, hf, hbad⟩ | hlate
    · exact hall
    · exact absurd (hF q f hf) hbad
    · -- an `expires` fact that passes needs a date between the clock and the last date
      obtain ⟨f, hf⟩ := List.exists_mem_of_ne_nil _ (hreq .expires trivial)
      obtain ⟨t, -, ht⟩ := hpass .expires f hf
      cases t with
      | date ts =>
          obtain ⟨hlt, hmax⟩ : unixSecs now < ts ∧ ts < 2 ^ 63 := ht
          omega
      | _ => exact ht.elim

/-! ## An issuer's token without a date -/

def answeringNode : NodeId := ⟨List.replicate 32 1, rfl⟩

def epoch : SystemTime := secondsAfterEpoch 0 (by decide)

/-- A policy with one root key. -/
def oneRoot : Policy Unit := Policy.empty.withBiscuitRoots answeringNode [()]

/-- The issuer named the callee and forgot the date. -/
def calleeOnly : Facts
  | .callee => [⟨[.bytes answeringNode.bytes]⟩]
  | _ => []

theorem attenuation_restricts_iff_oneRoot :
    oneRoot.rootKeys ≠ [] ∧ oneRoot.selfId = some answeringNode ∧
      (AttenuationRestricts oneRoot calleeOnly oneSecond plain epoch ↔
        (∀ q, Required q → calleeOnly q ≠ []) ∨
        (∃ q, ∃ f ∈ calleeOnly q, ¬ FactPasses answeringNode oneSecond plain epoch q f) ∨
        2 ^ 63 ≤ unixSecs epoch + 1) :=
  ⟨List.cons_ne_nil _ _, rfl, attenuation_restricts_iff (List.cons_ne_nil _ _) rfl⟩

/-- The token alone is rejected; with a date its holder appended it is accepted. -/
theorem appended_date_admits :
    ¬ AttenuationRestricts oneRoot calleeOnly oneSecond plain epoch := by
  intro h
  let _ := plainText
  let _ := twoTokens Unit calleeOnly (supply answeringNode epoch)
  have haccept : Accepts oneRoot attenuated oneSecond plain epoch :=
    ⟨⟨7 :: List.replicate 31 0, rfl⟩, rfl⟩
  obtain ⟨id, hid⟩ := h original attenuated (supply answeringNode epoch)
    (original_isToken _ _ _) (attenuated_isToken _ _ _) haccept
  cases hid

end UatAttenuation
