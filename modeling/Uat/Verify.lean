import Uat.Policy

/-! # `UnverifiedSubmit::verify` — from a header to an admission

    The allowlist wins, then a credential selects the Biscuit path, else the submit is
    denied.  `verifyBiscuitCredential` runs the fact checks in the order of the source
    and consults the spent set last.

    `clearToken` is everything before the spent set: it reads the token, the deadline,
    the content type and the clock, and no state.  Which tokens it lets through is said
    in `Uat.FactChecks`; what is proved about verification is proved from that, and from
    one lemma for each way a credential is cleared or not. -/

namespace UatVerify

open UatTypes UatPolicy Checked HashMap

/-- What `verify` gives: a value, an authorization error, or a panic. -/
abbrev Verdict (α : Type) := Exec AuthError α

/-- `single_term`: a fact that these checks read has exactly one term. -/
def singleTerm (fact : Fact) : Verdict Term :=
  match fact.terms with
  | [term] => .ok term
  | _ => fail .tokenUnauthorized

/-- The body of the `callee` loop: the fact names this node. -/
def checkCallee (selfId : NodeId) (fact : Fact) : Verdict PUnit := do
  match ← singleTerm fact with
  | .bytes pk => if pk ≠ selfId.bytes then fail .tokenUnauthorized else pure ⟨⟩
  | _ => fail .tokenUnauthorized

/-- One turn of the `expires` loop: the fact's date must lie ahead; the earliest date
    so far is carried along. -/
def checkExpires (nowSecs : Nat) (earliest : Option SystemTime) (fact : Fact) :
    Verdict (Option SystemTime) := do
  match ← singleTerm fact with
  | .date ts =>
      if ts ≤ nowSecs then fail .tokenUnauthorized else
      let exp ← epochPlus ts
      pure (some (match earliest with
        | some prev => if prev ≤ exp then prev else exp
        | none => exp))
  | _ => fail .tokenUnauthorized

/-- The body of the `max_deadline_ms` loop: the deadline is within the fact's. -/
def checkMaxDeadline (deadline : Deadline) (fact : Fact) : Verdict PUnit := do
  match ← singleTerm fact with
  | .integer n =>
      if n < 0 ∨ deadline.ms > n.toNat then fail .tokenUnauthorized else pure ⟨⟩
  | _ => fail .tokenUnauthorized

/-- The body of the `content_type` loop: the fact names the call's content type. -/
def checkContentType (contentType : ContentType) (fact : Fact) : Verdict PUnit := do
  match ← singleTerm fact with
  | .str s => if s ≠ contentType.value then fail .tokenUnauthorized else pure ⟨⟩
  | _ => fail .tokenUnauthorized

/-- `.ok_or(AuthError::TokenUnauthorized)`. -/
def okOr {α : Type} (x : Option α) : Verdict α :=
  match x with
  | some a => .ok a
  | none => fail .tokenUnauthorized

/-- The first 32 bytes of a revocation identifier, zero-padded. -/
def idPrefix (id : Bytes) : BiscuitId :=
  let n := min id.length 32
  ⟨id.take n ++ List.replicate (32 - n) 0, by
    rw [List.length_append, List.length_take, List.length_replicate]; omega⟩

/-- The id of a token: the identifier of its authority block. -/
def biscuitIdFromToken (biscuit : Biscuit) : Verdict BiscuitId := do
  let id ← okOr biscuit.revocationIdentifiers.head?
  pure (idPrefix id)

/-- What the checks before the spent set establish of a token. -/
structure Cleared where
  id : BiscuitId
  earliestExpires : SystemTime
  oneShot : Bool

/-- The fact checks of `verify_biscuit_credential`, up to the spent set. -/
def clearToken (selfId : NodeId) (biscuit : Biscuit) (deadline : Deadline)
    (contentType : ContentType) (now : SystemTime) : Verdict Cleared := do
  if ¬ biscuit.authorizes then fail .tokenUnauthorized else
  -- Required: callee(pk)
  let callees ← okOr (biscuit.queryAll .callee)
  if callees = [] then fail .tokenUnauthorized else
  callees.forM (checkCallee selfId)
  -- Required: expires(ts), all strictly after now
  let expires ← okOr (biscuit.queryAll .expires)
  if expires = [] then fail .tokenUnauthorized else
  let nowSecs := unixSecs now
  let earliestExpires ← okOr (← expires.foldlM (checkExpires nowSecs) none)
  -- Optional: max_deadline_ms(n), content_type(s)
  let maxDeadlines ← okOr (biscuit.queryAll .maxDeadlineMs)
  maxDeadlines.forM (checkMaxDeadline deadline)
  let contentTypes ← okOr (biscuit.queryAll .contentType)
  contentTypes.forM (checkContentType contentType)
  let id ← biscuitIdFromToken biscuit
  let oneshot ← okOr (biscuit.queryAll .oneShot)
  pure ⟨id, earliestExpires, !oneshot.isEmpty⟩

/-- The last step: `contains`, then `try_spend`, for a token that carries `one_shot()`. -/
def spendToken (spent : MemorySpentSet) (now : SystemTime) (c : Cleared) :
    Verdict BiscuitId × MemorySpentSet :=
  if c.oneShot then
    match spent.contains c.id now with
    | (true, spent) => (fail .tokenUnauthorized, spent)
    | (false, spent) =>
        match spent.trySpend c.id c.earliestExpires now with
        | (false, spent) => (fail .tokenUnauthorized, spent)
        | (true, spent) => (.ok c.id, spent)
  else (.ok c.id, spent)

section

variable [Base64Engine] {Key : Type} [BiscuitEngine Key]

/-- Decode and parse a credential under the policy's roots. -/
def parseToken (policy : Policy Key) (credential : Credential) : Verdict Biscuit :=
  match credential.decode with
  | .error _ => fail .tokenUnauthorized
  | .ok raw => okOr (BiscuitEngine.fromBytes raw (chooseRoot policy.rootKeys))

/-- Everything `verify_biscuit_credential` does before it consults the spent set. -/
def clearCredential (policy : Policy Key) (credential : Credential) (deadline : Deadline)
    (contentType : ContentType) (now : SystemTime) : Verdict Cleared := do
  if policy.rootKeys.isEmpty then fail .tokenUnauthorized else
  let selfId ← okOr policy.selfId
  let biscuit ← parseToken policy credential
  clearToken selfId biscuit deadline contentType now

/-- `verify_biscuit_credential`: what clears is put to the spent set. -/
def verifyBiscuitCredential (policy : Policy Key) (spent : MemorySpentSet)
    (credential : Credential) (deadline : Deadline) (contentType : ContentType)
    (now : SystemTime) : Verdict BiscuitId × MemorySpentSet :=
  match clearCredential policy credential deadline contentType now with
  | .error fault => (.error fault, spent)
  | .ok cleared => spendToken spent now cleared

/-- Is the message a `Submit`? -/
def isSubmit : Message → Bool
  | .submit .. => true
  | _ => false

/-- A parsed `Submit` header, without body bytes. -/
structure UnverifiedSubmit where
  message : Message
  headerOnly : ∃ task deadline contentType credential,
    message = .submit task deadline contentType credential []

/-- `from_header`: a `Submit`, and without its body. -/
def UnverifiedSubmit.fromHeader : Message → Except AuthError UnverifiedSubmit
  | .submit task deadline contentType credential [] =>
      .ok ⟨.submit task deadline contentType credential [], _, _, _, _, rfl⟩
  | .submit .. => .error .notHeaderOnly
  | _ => .error .notSubmit

/-- A `Submit` that passed `verify`. -/
structure AuthorizedSubmit where
  rule : AuthRule
  message : Message
  submit : isSubmit message

/-- `verify`: the allowlist first, then the credential. -/
def UnverifiedSubmit.verify (submit : UnverifiedSubmit) (policy : Policy Key)
    (spent : MemorySpentSet) (peer : NodeId) (now : SystemTime) :
    Verdict AuthorizedSubmit × MemorySpentSet :=
  match submit.message with
  | .submit task deadline contentType credential body =>
      let message := .submit task deadline contentType credential body
      if policy.contains peer then (.ok ⟨.allowlist, message, rfl⟩, spent) else
      match credential with
      | some cred =>
          match verifyBiscuitCredential policy spent cred deadline contentType now with
          | (.error fault, spent) => (.error fault, spent)
          | (.ok id, spent) => (.ok ⟨.token id, message, rfl⟩, spent)
      | none => (fail (.denied peer), spent)
  | _ => (fail .notSubmit, spent)

/-- Attach the body bytes after authorization succeeds. -/
def AuthorizedSubmit.withBody (a : AuthorizedSubmit) (body : Bytes) : AuthorizedSubmit :=
  match a.message, a.submit with
  | .submit task deadline contentType credential _, _ =>
      ⟨a.rule, .submit task deadline contentType credential body, rfl⟩

/-- The body does not change the rule that let the submit in. -/
theorem withBody_rule (a : AuthorizedSubmit) (body : Bytes) : (a.withBody body).rule = a.rule := by
  obtain ⟨rule, message, hsubmit⟩ := a
  cases message with
  | submit => rfl
  | _ => cases hsubmit

/-- Task id of the authorized header. -/
def AuthorizedSubmit.task (a : AuthorizedSubmit) : TaskId :=
  match a.message, a.submit with
  | .submit task _ _ _ _, _ => task

/-- `authorize_submit_header`. -/
def authorizeSubmitHeader (header : Message) (policy : Policy Key) (spent : MemorySpentSet)
    (peer : NodeId) (now : SystemTime) : Verdict AuthorizedSubmit × MemorySpentSet :=
  match UnverifiedSubmit.fromHeader header with
  | .error e => (fail e, spent)
  | .ok unverified => unverified.verify policy spent peer now

end

end UatVerify
