import Uat.FactChecks
import Uat.Header

/-! # The two ways a `Submit` frame is admitted

    The codec seam is `decode` with `PolicySubmitAuth`: it asks an authorizer about the
    parsed header before it copies the body.  The typed seam is what the callee runs:
    `split_frame`, `authorize_submit_header`, `with_body`.  Both change the spent set, so
    the authorizer is one with a state.

    `submit_paths_agree` compares them on every frame whose header is a `Submit`, and
    compares two frames that differ in the body alone. -/

namespace UatAdmission

open UatTypes UatPolicy UatVerify UatFactChecks UatCodec UatHeader Checked Positional

section

variable [Base64Engine]

/-! ## An authorizer with a state -/

section

variable {S : Type}

/-- `finish_body` with an authorizer that changes a state. -/
def finishBodyWith (header : Message) (body : Bytes)
    (auth : Message → S → Exec CodecError Bool × S) (s : S) : Exec CodecError Message × S :=
  match header with
  | .submit .. =>
      match auth header s with
      | (.ok true, s) => (pure (setBody header body), s)
      | (.ok false, s) => (fail .submitDenied, s)
      | (.error fault, s) => (.error fault, s)
  | .input _ | .completed _ => (pure (setBody header body), s)
  | _ => (if body ≠ [] then fail .badLength else pure header, s)

/-- `decode` with an authorizer that changes a state. -/
def decodeWith (parse : Bytes → Option Message) (buf : Bytes)
    (auth : Message → S → Exec CodecError Bool × S) (s : S) : Exec CodecError Message × S :=
  match decodeParts parse buf with
  | .ok (header, body) => finishBodyWith header body auth s
  | .error fault => (.error fault, s)

/-- With an authorizer that has no state it is `decode`. -/
theorem decodeWith_pure (parse : Bytes → Option Message) (buf : Bytes) (auth : SubmitAuthorizer)
    (s : S) :
    decodeWith parse buf (fun m s => (.ok (auth m), s)) s = (decode parse buf auth, s) := by
  rw [decodeWith, decode]
  cases decodeParts parse buf with
  | error fault => rfl
  | ok r =>
      obtain ⟨header, body⟩ := r
      show finishBodyWith header body _ s = (finishBody header body auth, s)
      cases header with
      | submit task deadline contentType credential inner =>
          rw [finishBodyWith, finishBody]
          cases auth (.submit task deadline contentType credential inner) <;> simp
      | _ => rfl

end

section

variable {Key : Type} [BiscuitEngine Key]

/-- `PolicySubmitAuth`: verify the header, and say whether that went well. -/
def policySubmitAuth (policy : Policy Key) (peer : NodeId) (now : SystemTime) (header : Message)
    (spent : MemorySpentSet) : Exec CodecError Bool × MemorySpentSet :=
  match UnverifiedSubmit.fromHeader header with
  | .ok unverified =>
      match unverified.verify policy spent peer now with
      | (.ok _, spent) => (.ok true, spent)
      | (.error (.err _), spent) => (.ok false, spent)
      | (.error .panic, spent) => (panicked, spent)
  | .error _ => (.ok false, spent)

/-- Why the typed seam does not admit a frame. -/
inductive AdmitError where
  | codec (err : CodecError)
  | auth (err : AuthError)
  deriving DecidableEq

/-- The typed seam: `split_frame`, `authorize_submit_header`, `with_body`. -/
def admitSubmit (parse : Bytes → Option Message) (buf : Bytes) (policy : Policy Key)
    (peer : NodeId) (now : SystemTime) (spent : MemorySpentSet) :
    Exec AdmitError AuthorizedSubmit × MemorySpentSet :=
  match decodeParts parse buf with
  | .ok (header, body) =>
      match authorizeSubmitHeader header policy spent peer now with
      | (.ok authorized, spent) => (.ok (authorized.withBody body), spent)
      | (.error (.err err), spent) => (fail (.auth err), spent)
      | (.error .panic, spent) => (panicked, spent)
  | .error (.err err) => (fail (.codec err), spent)
  | .error .panic => (panicked, spent)

end

/-- Header-only view of a frame. -/
structure InspectedSubmit where
  header : Message
  bodyLen : Nat

/-- Decode a `Submit` frame's header without copying the body. -/
def inspectSubmit (parse : Bytes → Option Message) (buf : Bytes) :
    Exec CodecError InspectedSubmit := do
  let (header, body) ← decodeParts parse buf
  if ¬ isSubmit header then fail .malformedHeader else
  pure ⟨header, body.length⟩

/-! ## What the authorizer sees -/

/-- A `submit` header comes without its body. -/
theorem deserializeSubmit_body {content : Content} {m : Message}
    (h : deserializeSubmit content = some m) : messageBody m = [] := by
  obtain ⟨fields, -, h⟩ := Option.bind_eq_some_iff.mp h
  split at h
  · obtain ⟨task, -, h⟩ := Option.bind_eq_some_iff.mp h
    obtain ⟨deadline, -, h⟩ := Option.bind_eq_some_iff.mp h
    obtain ⟨contentType, -, h⟩ := Option.bind_eq_some_iff.mp h
    obtain ⟨credential, -, h⟩ := Option.bind_eq_some_iff.mp h
    obtain rfl := Option.some.inj h
    rfl
  · cases h

/-- A variant without fields is that variant. -/
theorem deserializeUnit_eq {m m' : Message} {content : Content}
    (h : deserializeUnit m content = some m') : m' = m := by
  obtain ⟨_, -, h⟩ := Option.map_eq_some_iff.mp h
  exact h.symm

theorem deserializeFailed_body {content : Content} {m : Message}
    (h : deserializeFailed content = some m) : messageBody m = [] := by
  obtain ⟨fields, -, h⟩ := Option.bind_eq_some_iff.mp h
  split at h
  · obtain ⟨code, -, rfl⟩ := Option.map_eq_some_iff.mp h
    rfl
  · cases h

/-- **A header that was read has no body**, whatever the bytes. -/
theorem fromSlice_body [text : JsonText] {bytes : Bytes} {m : Message}
    (h : fromSlice bytes = some m) :
    messageBody m = [] := by
  obtain ⟨v, -, hv⟩ := Option.bind_eq_some_iff.mp h
  obtain ⟨⟨tag, content⟩, -, hvariant⟩ := Option.bind_eq_some_iff.mp hv
  change deserializeVariant tag content = some m at hvariant
  simp only [deserializeVariant] at hvariant
  split at hvariant
  · exact deserializeSubmit_body hvariant
  · rw [deserializeUnit_eq hvariant]; rfl
  · rw [deserializeUnit_eq hvariant]; rfl
  · rw [deserializeUnit_eq hvariant]; rfl
  · rw [deserializeUnit_eq hvariant]; rfl
  · rw [deserializeUnit_eq hvariant]; rfl
  · exact deserializeFailed_body hvariant
  · rw [deserializeUnit_eq hvariant]; rfl
  · rw [deserializeUnit_eq hvariant]; rfl
  · cases hvariant

section

variable {Key : Type} [BiscuitEngine Key] {policy : Policy Key} {peer : NodeId}
  {now : SystemTime}

/-- The typed seam's authorization, as the authorizer of the codec seam reports it. -/
theorem policySubmitAuth_eq (header : Message) (spent : MemorySpentSet) :
    policySubmitAuth policy peer now header spent =
      match authorizeSubmitHeader header policy spent peer now with
      | (.ok _, spent) => (.ok true, spent)
      | (.error (.err _), spent) => (.ok false, spent)
      | (.error .panic, spent) => (panicked, spent) := by
  rw [policySubmitAuth, authorizeSubmitHeader]
  cases UnverifiedSubmit.fromHeader header with
  | error e => rfl
  | ok unverified => rfl

/-- What is authorized is the header. -/
theorem authorize_message {header : Message} {spent spent' : MemorySpentSet}
    {a : AuthorizedSubmit}
    (h : authorizeSubmitHeader header policy spent peer now = (.ok a, spent')) :
    a.message = header := by
  cases header with
  | submit task deadline contentType credential body =>
      cases body with
      | cons b body => cases h
      | nil =>
          cases hpeer : policy.contains peer with
          | true =>
              rw [authorize_listed hpeer] at h
              obtain rfl := Except.ok.inj (Prod.mk.inj h).1
              rfl
          | false =>
              cases credential with
              | none =>
                  rw [authorize_denied hpeer] at h
                  cases h
              | some credential =>
                  rw [authorize_token hpeer] at h
                  split at h
                  · cases h
                  · obtain rfl := Except.ok.inj (Prod.mk.inj h).1
                    rfl
  | _ => cases h

/-- A submit without a body is a header. -/
theorem fromHeader_ok {header : Message} (hsubmit : isSubmit header = true)
    (hbody : messageBody header = []) : ∃ u, UnverifiedSubmit.fromHeader header = .ok u := by
  cases header with
  | submit task deadline contentType credential body =>
      obtain rfl : body = [] := hbody
      exact ⟨_, rfl⟩
  | _ => cases hsubmit

/-- Attaching the body to what was authorized is setting it in the header. -/
theorem withBody_message (a : AuthorizedSubmit) (body : Bytes) :
    (a.withBody body).message = setBody a.message body := by
  obtain ⟨rule, message, hsubmit⟩ := a
  cases message with
  | submit => rfl
  | _ => cases hsubmit

/-! ## The comparison -/

/-- The codec seam asks the authorizer about every submit. -/
theorem finishBodyWith_submit {S : Type} {header : Message} (hsubmit : isSubmit header = true)
    (body : Bytes) (auth : Message → S → Exec CodecError Bool × S) (s : S) :
    finishBodyWith header body auth s =
      match auth header s with
      | (.ok true, s) => (pure (setBody header body), s)
      | (.ok false, s) => (fail .submitDenied, s)
      | (.error fault, s) => (.error fault, s) := by
  cases header with
  | submit => rfl
  | _ => cases hsubmit

end

section

variable [text : JsonText] {Key : Type} [BiscuitEngine Key] (policy : Policy Key) (peer : NodeId)
  (now : SystemTime) (spent : MemorySpentSet)

/-- The codec seam: `decode(buf, PolicySubmitAuth(policy, peer, now))`. -/
def decodeSubmit (buf : Bytes) : Exec CodecError Message × MemorySpentSet :=
  decodeWith fromSlice buf (policySubmitAuth policy peer now) spent

/-- **The seams agree** on a frame with this header and body. -/
structure PathsAgree (buf : Bytes) (header : Message) (body : Bytes) : Prop where
  admitted : ∀ m, (decodeSubmit policy peer now spent buf).1 = .ok m ↔
    ∃ a, (admitSubmit fromSlice buf policy peer now spent).1 = .ok a ∧ a.message = m
  sameSpent : (decodeSubmit policy peer now spent buf).2 =
    (admitSubmit fromSlice buf policy peer now spent).2
  denied : ∀ err, (authorizeSubmitHeader header policy spent peer now).1 = fail err →
    (decodeSubmit policy peer now spent buf).1 = fail .submitDenied
  headerOnly : ∃ u, UnverifiedSubmit.fromHeader header = .ok u
  inspected : inspectSubmit fromSlice buf = .ok ⟨header, body.length⟩

/-- **The body is not seen** before the authorization: verdict, rule and spent set are the
    same for both frames. -/
structure BodyUnseen (buf buf' : Bytes) : Prop where
  decodes : (∃ m, (decodeSubmit policy peer now spent buf).1 = .ok m) ↔
    ∃ m, (decodeSubmit policy peer now spent buf').1 = .ok m
  rule : ∀ rule,
    (∃ a, (admitSubmit fromSlice buf policy peer now spent).1 = .ok a ∧ a.rule = rule) ↔
    ∃ a, (admitSubmit fromSlice buf' policy peer now spent).1 = .ok a ∧ a.rule = rule
  error : ∀ err, (admitSubmit fromSlice buf policy peer now spent).1 = fail err ↔
    (admitSubmit fromSlice buf' policy peer now spent).1 = fail err
  codecSpent : (decodeSubmit policy peer now spent buf).2 =
    (decodeSubmit policy peer now spent buf').2
  typedSpent : (admitSubmit fromSlice buf policy peer now spent).2 =
    (admitSubmit fromSlice buf' policy peer now spent).2

/-- Both seams on one frame, by what the authorization of its header returns. -/
theorem seams_eq {buf : Bytes} {header : Message} {body : Bytes}
    (hframe : decodeParts fromSlice buf = .ok (header, body)) (hsubmit : isSubmit header = true) :
    (decodeSubmit policy peer now spent buf,
        admitSubmit fromSlice buf policy peer now spent) =
      match authorizeSubmitHeader header policy spent peer now with
      | (.ok a, spent') => ((.ok (setBody header body), spent'), (.ok (a.withBody body), spent'))
      | (.error (.err err), spent') => ((fail .submitDenied, spent'), (fail (.auth err), spent'))
      | (.error .panic, spent') => ((panicked, spent'), (panicked, spent')) := by
  rw [decodeSubmit, decodeWith, admitSubmit]
  rw [hframe]
  dsimp only
  rw [finishBodyWith_submit hsubmit, policySubmitAuth_eq]
  match authorizeSubmitHeader header policy spent peer now with
  | (.ok a, spent') => rfl
  | (.error (.err err), spent') => rfl
  | (.error .panic, spent') => rfl

variable {policy peer now spent}

/-- The view of a `Submit` frame. -/
theorem inspectSubmit_ok {buf : Bytes} {header : Message} {body : Bytes}
    (hframe : decodeParts fromSlice buf = .ok (header, body)) (hsubmit : isSubmit header = true) :
    inspectSubmit fromSlice buf = .ok ⟨header, body.length⟩ := by
  rw [inspectSubmit]
  rw [hframe]
  exact if_neg (not_not.mpr hsubmit)

/-- A header in a frame has no body of its own. -/
theorem frame_header_body {buf : Bytes} {header : Message} {body : Bytes}
    (hframe : decodeParts fromSlice buf = .ok (header, body)) : messageBody header = [] := by
  obtain ⟨bytes, -, -, hparse⟩ := decodeParts_ok_iff.mp hframe
  exact fromSlice_body hparse

/-- On a `Submit` frame the codec and the typed seam agree. -/
theorem pathsAgree_of_frame {buf : Bytes} {header : Message} {body : Bytes}
    (hframe : decodeParts fromSlice buf = .ok (header, body)) (hsubmit : isSubmit header = true) :
    PathsAgree policy peer now spent buf header body := by
  have hheader := fromHeader_ok hsubmit (frame_header_body hframe)
  have hinspect := inspectSubmit_ok hframe hsubmit
  have hseams := seams_eq policy peer now spent hframe hsubmit
  -- Both seams ask this one verdict, and differ in what they make of a refusal.
  cases hauth : authorizeSubmitHeader header policy spent peer now with
  | mk verdict spent' =>
      rw [hauth] at hseams
      match verdict with
      | .ok a =>
          obtain ⟨hcodec, htyped⟩ := Prod.mk.inj hseams
          have hmessage : (a.withBody body).message = setBody header body := by
            rw [withBody_message, authorize_message hauth]
          refine ⟨fun m => ?_, ?_, ?_, hheader, hinspect⟩
          · rw [hcodec, htyped]
            constructor
            · intro h
              exact ⟨_, rfl, hmessage.trans (Except.ok.inj h)⟩
            · rintro ⟨a', ha', rfl⟩
              obtain rfl := Except.ok.inj ha'
              exact congrArg Except.ok hmessage.symm
          · rw [hcodec, htyped]
          · intro err herr
            rw [hauth] at herr
            cases herr
      | .error (.err err) =>
          obtain ⟨hcodec, htyped⟩ := Prod.mk.inj hseams
          refine ⟨fun m => ?_, ?_, ?_, hheader, hinspect⟩
          · rw [hcodec, htyped]
            exact ⟨fun h => (nomatch h), fun ⟨_, h, _⟩ => nomatch h⟩
          · rw [hcodec, htyped]
          · intro _ _
            rw [hcodec]
      | .error .panic =>
          obtain ⟨hcodec, htyped⟩ := Prod.mk.inj hseams
          refine ⟨fun m => ?_, ?_, ?_, hheader, hinspect⟩
          · rw [hcodec, htyped]
            exact ⟨fun h => (nomatch h), fun ⟨_, h, _⟩ => nomatch h⟩
          · rw [hcodec, htyped]
          · intro err herr
            rw [hauth] at herr
            cases Except.error.inj herr

/-- Two frames that differ in their bodies are decided alike. -/
theorem bodyUnseen_of_frames {buf buf' : Bytes} {header : Message} {body body' : Bytes}
    (hframe : decodeParts fromSlice buf = .ok (header, body))
    (hframe' : decodeParts fromSlice buf' = .ok (header, body'))
    (hsubmit : isSubmit header = true) : BodyUnseen policy peer now spent buf buf' := by
  have hseams := seams_eq policy peer now spent hframe hsubmit
  have hseams' := seams_eq policy peer now spent hframe' hsubmit
  cases hauth : authorizeSubmitHeader header policy spent peer now with
  | mk verdict spent' =>
      rw [hauth] at hseams hseams'
      match verdict with
      | .ok a =>
          obtain ⟨hcodec, htyped⟩ := Prod.mk.inj hseams
          obtain ⟨hcodec', htyped'⟩ := Prod.mk.inj hseams'
          -- The body is put in after the rule is known.
          have hrule : ∀ (b : Bytes) (rule : AuthRule),
              (∃ a', (.ok (a.withBody b) : Exec AdmitError AuthorizedSubmit) = .ok a' ∧
                a'.rule = rule) ↔ a.rule = rule := by
            intro b rule
            constructor
            · rintro ⟨a', ha', rfl⟩
              obtain rfl := Except.ok.inj ha'
              exact (withBody_rule a b).symm
            · rintro rfl
              exact ⟨_, rfl, withBody_rule a b⟩
          refine ⟨?_, fun rule => ?_, fun err => ?_, ?_, ?_⟩
          · rw [hcodec, hcodec']
            exact ⟨fun _ => ⟨_, rfl⟩, fun _ => ⟨_, rfl⟩⟩
          · rw [htyped, htyped', hrule, hrule]
          · rw [htyped, htyped']
            exact ⟨fun h => (nomatch h), fun h => (nomatch h)⟩
          · rw [hcodec, hcodec']
          · rw [htyped, htyped']
      | .error (.err err) =>
          obtain ⟨hcodec, htyped⟩ := Prod.mk.inj hseams
          obtain ⟨hcodec', htyped'⟩ := Prod.mk.inj hseams'
          constructor <;> simp only [hcodec, hcodec', htyped, htyped', implies_true]
      | .error .panic =>
          obtain ⟨hcodec, htyped⟩ := Prod.mk.inj hseams
          obtain ⟨hcodec', htyped'⟩ := Prod.mk.inj hseams'
          constructor <;> simp only [hcodec, hcodec', htyped, htyped', implies_true]

/-- **THE TWO ADMISSION PATHS AGREE AND DO NOT SEE THE BODY.**  For every frame whose header
    is a `Submit`, every policy, peer, clock and spent set: the seams admit the same message
    and leave the same spent set, a refused authorization is `SubmitDenied`, the inspection
    reports the header and the length of the body; and two frames with the same header get
    the same verdict. -/
theorem submit_paths_agree (policy : Policy Key) (peer : NodeId) (now : SystemTime)
    (spent : MemorySpentSet) (buf : Bytes) (header : Message) (body : Bytes)
    (hframe : decodeParts fromSlice buf = .ok (header, body)) (hsubmit : isSubmit header = true) :
    PathsAgree policy peer now spent buf header body ∧
      ∀ buf' body', decodeParts fromSlice buf' = .ok (header, body') →
        BodyUnseen policy peer now spent buf buf' := by
  exact ⟨pathsAgree_of_frame hframe hsubmit,
    fun _ _ hframe' => bodyUnseen_of_frames hframe hframe' hsubmit⟩

end

end

section

local instance : Base64Engine := urlSafeNoPad

attribute [local instance] compactJson noToken

def sampleHeader : Message := .submit taskOne oneSecond plain none []

/-- A frame with the sample header. -/
def sampleFrame (body : Bytes) : Bytes :=
  toBe 4 (2 + (Json.print (serialize sampleHeader)).length + body.length) ++
    toBe 2 (Json.print (serialize sampleHeader)).length ++ Json.print (serialize sampleHeader) ++
    body ++ []

/-- The frame is taken apart into what it was made of. -/
theorem sampleFrame_parts (body : Bytes) (h : body.length ≤ 1000) :
    decodeParts fromSlice (sampleFrame body) = .ok (sampleHeader, body) := by
  have hlen : (Json.print (serialize sampleHeader)).length ≤ 1000 := by decide
  refine decodeParts_ok_iff.mpr ⟨Json.print (serialize sampleHeader), [], ⟨rfl, ?_, ?_⟩, ?_⟩
  · rw [maxFrame]
    omega
  · rw [maxHdrLen]
    omega
  · exact fromSlice_toVec compactJson_readsBack rfl

theorem submit_paths_agree_sample :
    decodeParts fromSlice (sampleFrame [1, 2]) = .ok (sampleHeader, [1, 2]) ∧
      isSubmit sampleHeader = true ∧
      PathsAgree (.allow ⟨List.replicate 32 1, rfl⟩ : Policy Unit) ⟨List.replicate 32 1, rfl⟩
        (secondsAfterEpoch 0 (by decide)) .new (sampleFrame [1, 2]) sampleHeader [1, 2] :=
  ⟨sampleFrame_parts _ (by decide), rfl,
    (submit_paths_agree (.allow ⟨List.replicate 32 1, rfl⟩) ⟨List.replicate 32 1, rfl⟩
      (secondsAfterEpoch 0 (by decide)) .new (sampleFrame [1, 2]) sampleHeader [1, 2]
      (sampleFrame_parts _ (by decide)) rfl).1⟩

end

end UatAdmission
