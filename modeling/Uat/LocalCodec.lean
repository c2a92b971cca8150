import Uat.Header

/-! # The local socket codec — the peer's framing, copied by hand

    The daemon's Unix socket speaks `Dial`, `Inbox` and `Message` in the frame layout of
    the peer codec, through a second copy of that code: its own `decode_parts`, its own
    encoder, its own rules for where a body goes back.

    * **`decodeParts_agrees`** — the two copies of `decode_parts` take the same decision on
      every buffer, before any JSON is read.
    * **`local_codec_faithful`** — what either side encodes, the other decodes to the same
      request or response, whatever follows the frame. -/

namespace UatLocalCodec

open UatTypes UatHeader Checked Positional
open UatCodec (maxFrame maxHdrLen checkedAdd tryFrom CodecError Layout)
open Json (Value)

/-- Errors encoding and decoding local socket frames. -/
inductive LocalCodecError where
  | frameTooLarge
  | truncated
  | badLength
  | malformedHeader
  | headerTooLarge
  | encodeTooLarge
  deriving DecidableEq, Repr

/-! ## Frames -/

/-- `encode_json_frame`: append header and body to `out`. -/
def encodeJsonFrame (header body out : Bytes) : Except LocalCodecError Bytes :=
  if header.length > maxHdrLen then .error .headerTooLarge else
  match (checkedAdd 2 header.length).bind (checkedAdd · body.length) with
  | none => .error .encodeTooLarge
  | some lenU =>
      if lenU > maxFrame then .error .encodeTooLarge else
      match tryFrom 32 lenU, tryFrom 16 header.length with
      | none, _ => .error .encodeTooLarge
      | some _, none => .error .headerTooLarge
      | some len, some hdrLen => .ok (out ++ toBe 4 len ++ toBe 2 hdrLen ++ header ++ body)

/-- **What `encode_json_frame` appends**, and when it does. -/
theorem encodeJsonFrame_ok_iff {header body out out' : Bytes} :
    encodeJsonFrame header body out = .ok out' ↔
      header.length ≤ maxHdrLen ∧ 2 + header.length + body.length ≤ maxFrame ∧
        out' = out ++ (toBe 4 (2 + header.length + body.length) ++ toBe 2 header.length ++
          header ++ body) := by
  have hmax : maxFrame < 2 ^ 32 := by decide
  have hhdr : maxHdrLen < 2 ^ 16 := by decide
  rw [encodeJsonFrame]
  by_cases hlong : header.length > maxHdrLen
  · rw [if_pos hlong]
    exact ⟨fun h => (by cases h), fun h => absurd hlong (not_lt.mpr h.1)⟩
  rw [if_neg hlong]
  -- Within the frame no sum overflows and both lengths fit their fields.
  by_cases hfit : 2 + header.length + body.length ≤ maxFrame
  · rw [UatCodec.checkedAdd_of_le hfit]
    dsimp only
    rw [if_neg (not_lt.mpr hfit), tryFrom, tryFrom, if_pos (by omega), if_pos (by omega)]
    dsimp only
    constructor
    · intro h
      obtain rfl := Except.ok.inj h
      exact ⟨not_lt.mp hlong, hfit, by simp only [List.append_assoc]⟩
    · rintro ⟨-, -, rfl⟩
      simp only [List.append_assoc]
  · refine ⟨fun h => ?_, fun h => absurd h.2.1 hfit⟩
    cases hsum : (checkedAdd 2 header.length).bind (checkedAdd · body.length) with
    | none =>
        rw [hsum] at h
        cases h
    | some n =>
        obtain rfl := UatCodec.checkedAdd_eq hsum
        rw [hsum] at h
        dsimp only at h
        rw [if_pos (not_le.mp hfit)] at h
        cases h

/-- What is appended to a buffer is a layout, whatever follows. -/
theorem layout_of_encode {header body out out' : Bytes}
    (h : encodeJsonFrame header body out = .ok out') :
    ∃ frame, out' = out ++ frame ∧ ∀ suffix, Layout (frame ++ suffix) header body suffix := by
  obtain ⟨hhdr, hfit, rfl⟩ := encodeJsonFrame_ok_iff.mp h
  exact ⟨_, rfl, fun suffix => ⟨rfl, hfit, hhdr⟩⟩

/-! ## Lists and optional fields -/

/-- The round-trip time is left out of the header when there is none. -/
def rttField : Option UInt64 → List (String × Value)
  | some ms => [("rtt_ms", .nat ms.toNat)]
  | none => []

/-- A list of strings. -/
def deserializeStrings : Value → Option (List String)
  | .arr items => items.mapM deserializeString
  | _ => none

/-- An unsigned integer of at most 64 bits. -/
def deserializeU64 : Value → Option UInt64
  | .nat n => (tryFrom 64 n).map UInt64.ofNat
  | _ => none

/-- A defaulted optional field. -/
def deserializeRtt : Option Value → Option (Option UInt64)
  | none | some .null => some none
  | some v => (deserializeU64 v).map some

/-- A list of strings is read back. -/
theorem deserializeStrings_map (ss : List String) :
    deserializeStrings (.arr (ss.map .str)) = some ss := by
  rw [deserializeStrings]
  induction ss with
  | nil => rfl
  | cons s ss ih =>
      rw [List.map_cons, List.mapM_cons, ih]
      rfl

/-- The round-trip time is read back, a missing one as none. -/
theorem deserializeRtt_field (rtt : Option UInt64) :
    deserializeRtt (rtt.map fun ms => .nat ms.toNat) = some rtt := by
  cases rtt with
  | none => rfl
  | some ms =>
      have hms : deserializeU64 (.nat ms.toNat) = some ms := by
        rw [deserializeU64, tryFrom, if_pos ms.toNat_lt, Option.map_some, UInt64.ofNat_toNat]
      rw [Option.map_some, deserializeRtt, hms]
      · rfl
      · rintro ⟨⟩

/-! ## Requests and responses -/

section

variable [Base64Engine]

/-- Client → daemon request.  Only Dial / Inbox / Message. -/
inductive LocalRequest where
  | dial (peer : String) (addrs : List String) (task : TaskId) (deadline : Deadline)
      (contentType : ContentType) (credential : Option Credential) (body : Bytes)
  | inbox
  | message (message : Message)
  deriving DecidableEq

/-- Daemon → client response. -/
inductive LocalResponse where
  | dialResult (outcome : Outcome) (rttMs : Option UInt64)
  | inboxIdle
  | inboxEvent (peer : String) (outcome : Outcome)
  | message (message : Message)
  | error (message : String)
  deriving DecidableEq

/-! ## Bodies -/

/-- `message_body`: the bytes that a message sends after its header. -/
def messageBody : Message → Bytes
  | .submit _ _ _ _ body | .input body | .completed body => body
  | _ => []

/-- `set_message_body`: a message that carries no body is left as it is. -/
def setMessageBody (message : Message) (body : Bytes) : Message :=
  match message with
  | .submit task deadline contentType credential _ =>
      .submit task deadline contentType credential body
  | .input _ => .input body
  | .completed _ => .completed body
  | m => m

/-- The copy of `set_body` is the peer codec's. -/
theorem setMessageBody_eq (m : Message) (body : Bytes) :
    setMessageBody m body = UatCodec.setBody m body := by
  cases m <;> rfl

/-- `request_body`: the bytes that follow a request's header. -/
def requestBody : LocalRequest → Bytes
  | .dial _ _ _ _ _ _ body => body
  | .message message => messageBody message
  | .inbox => []

/-- `response_body`: the bytes that follow a response's header. -/
def responseBody : LocalResponse → Bytes
  | .message message => messageBody message
  | _ => []

/-- A body goes back into a message that carries one, and else must be empty. -/
def restoreBody (message : Message) (body : Bytes) : Exec LocalCodecError Message :=
  match message with
  | .submit .. | .input _ | .completed _ => pure (setMessageBody message body)
  | _ => if body = [] then pure message else fail .badLength

/-- `set_request_body`: an inbox poll must come without a body. -/
def setRequestBody (req : LocalRequest) (body : Bytes) : Exec LocalCodecError LocalRequest :=
  match req with
  | .dial peer addrs task deadline contentType credential _ =>
      pure (.dial peer addrs task deadline contentType credential body)
  | .message message => (restoreBody message body).map .message
  | .inbox => if body = [] then pure .inbox else fail .badLength

/-- `set_response_body`: only a message may come with a body. -/
def setResponseBody (resp : LocalResponse) (body : Bytes) : Exec LocalCodecError LocalResponse :=
  match resp with
  | .message message => (restoreBody message body).map .message
  | resp => if body = [] then pure resp else fail .badLength

/-! ## The headers -/

/-- The header of a request: its tag and its fields, without the body. -/
def LocalRequest.serialize : LocalRequest → Value
  | .dial peer addrs task deadline contentType credential _ =>
      .obj ([("type", .str "dial"), ("peer", .str peer), ("addrs", .arr (addrs.map .str)),
        ("task", .str (TaskId.toHex task)), ("deadline", .nat deadline.ms),
        ("content_type", .str contentType.value)] ++ credentialField credential)
  | .inbox => .obj [("type", .str "inbox")]
  | .message m => .obj [("type", .str "message"), ("message", UatHeader.serialize m)]

/-- The header of a response: its tag and its fields, without the body. -/
def LocalResponse.serialize : LocalResponse → Value
  | .dialResult outcome rttMs =>
      .obj ([("type", .str "dial_result"), ("outcome", Outcome.serialize outcome)] ++
        rttField rttMs)
  | .inboxIdle => .obj [("type", .str "inbox_idle")]
  | .inboxEvent peer outcome =>
      .obj [("type", .str "inbox_event"), ("peer", .str peer),
        ("outcome", Outcome.serialize outcome)]
  | .message m => .obj [("type", .str "message"), ("message", UatHeader.serialize m)]
  | .error text => .obj [("type", .str "error"), ("message", .str text)]

/-- The fields of a `dial`; the credential may be missing. -/
def deserializeDial (content : Content) : Option LocalRequest := do
  match ← fieldsOf ["peer", "addrs", "task", "deadline", "content_type", "credential"] content with
  | [some peer, some addrs, some task, some deadline, some contentType, credential] =>
      let peer ← deserializeString peer
      let addrs ← deserializeStrings addrs
      let task ← deserializeTask task
      let deadline ← deserializeDeadline deadline
      let contentType ← deserializeContentType contentType
      let credential ← deserializeCredential credential
      some (.dial peer addrs task deadline contentType credential [])
  | _ => none

/-- The one field of the variants that carry a message. -/
def deserializeMessage (content : Content) : Option Message := do
  match ← fieldsOf ["message"] content with
  | [some message] => deserialize message
  | _ => none

/-- The fields of a `dial_result`; the round-trip time may be missing. -/
def deserializeDialResult (content : Content) : Option LocalResponse := do
  match ← fieldsOf ["outcome", "rtt_ms"] content with
  | [some outcome, rttMs] =>
      let outcome ← deserializeOutcome outcome
      let rttMs ← deserializeRtt rttMs
      some (.dialResult outcome rttMs)
  | _ => none

/-- The fields of an `inbox_event`. -/
def deserializeInboxEvent (content : Content) : Option LocalResponse := do
  match ← fieldsOf ["peer", "outcome"] content with
  | [some peer, some outcome] =>
      let peer ← deserializeString peer
      let outcome ← deserializeOutcome outcome
      some (.inboxEvent peer outcome)
  | _ => none

/-- The field of an `error`. -/
def deserializeError (content : Content) : Option LocalResponse := do
  match ← fieldsOf ["message"] content with
  | [some message] => (deserializeString message).map .error
  | _ => none

/-- The request that a tag names. -/
def deserializeRequestVariant : String → Content → Option LocalRequest
  | "dial", content => deserializeDial content
  | "inbox", content => (fieldsOf [] content).map fun _ => .inbox
  | "message", content => (deserializeMessage content).map .message
  | _, _ => none

/-- The response that a tag names. -/
def deserializeResponseVariant : String → Content → Option LocalResponse
  | "dial_result", content => deserializeDialResult content
  | "inbox_idle", content => (fieldsOf [] content).map fun _ => .inboxIdle
  | "inbox_event", content => deserializeInboxEvent content
  | "message", content => (deserializeMessage content).map .message
  | "error", content => deserializeError content
  | _, _ => none

/-- The request a tagged object stands for, with an empty body. -/
def deserializeRequest (v : Value) : Option LocalRequest :=
  (tagged "type" v).bind fun r => deserializeRequestVariant r.1 r.2

/-- The response a tagged object stands for, with an empty body. -/
def deserializeResponse (v : Value) : Option LocalResponse :=
  (tagged "type" v).bind fun r => deserializeResponseVariant r.1 r.2

/-! ## Decoding -/

/-- The second half of `decode_parts`. -/
def decodePayload (len : Nat) (payload : Bytes) : Exec LocalCodecError (Bytes × Bytes) := do
  if payload.length < 2 then fail .badLength else
  let hdrLen := fromBe [← index payload 0, ← index payload 1]
  if hdrLen > maxHdrLen then fail .frameTooLarge else
  if payload.length < 2 + hdrLen then fail .badLength else
  if len < 2 + hdrLen then fail .badLength else
  let header ← slice payload 2 (2 + hdrLen)
  let body ← sliceFrom payload (2 + hdrLen)
  if 2 + hdrLen + body.length ≠ len then fail .badLength else
  pure (header, body)

/-- Header and body of a frame, as slices of the buffer. -/
def decodeParts (buf : Bytes) : Exec LocalCodecError (Bytes × Bytes) := do
  if buf.length < 4 then fail .truncated else
  let len := fromBe [← index buf 0, ← index buf 1, ← index buf 2, ← index buf 3]
  if len > maxFrame then fail .frameTooLarge else
  if buf.length < 4 + len then fail .truncated else
  let payload ← slice buf 4 (4 + len)
  decodePayload len payload

/-! ## The two copies of `decode_parts` -/

/-- The framing errors under the peer codec's names. -/
def LocalCodecError.toPeer : LocalCodecError → CodecError
  | .frameTooLarge => .frameTooLarge
  | .truncated => .truncated
  | .badLength => .badLength
  | .malformedHeader => .malformedHeader
  | .headerTooLarge => .headerTooLarge
  | .encodeTooLarge => .encodeTooLarge

/-- What the peer codec goes on to do with the parts. -/
def thenParse (parse : Bytes → Option Message) :
    Exec LocalCodecError (Bytes × Bytes) → Exec CodecError (Message × Bytes)
  | .ok (header, body) =>
      match parse header with
      | some m => .ok (m, body)
      | none => fail .malformedHeader
  | .error (.err err) => fail err.toPeer
  | .error .panic => panicked

/-- The two codecs take the same payloads apart in the same way. -/
theorem decodePayload_agrees (parse : Bytes → Option Message) {len : Nat} {payload : Bytes}
    (hlen : payload.length = len) :
    UatCodec.decodePayload parse len payload = thenParse parse (decodePayload len payload) := by
  match payload, hlen with
  | [], _ => rfl
  | [_], _ => rfl
  | h₀ :: h₁ :: rest, hlen =>
      have htwo : ¬ (h₀ :: h₁ :: rest).length < 2 := by
        simp only [List.length_cons]
        omega
      rw [UatCodec.decodePayload, decodePayload, if_neg htwo, if_neg htwo]
      show (if fromBe [h₀, h₁] > maxHdrLen then _ else _) =
        thenParse parse (if fromBe [h₀, h₁] > maxHdrLen then _ else _)
      -- The checks stand in one order in both copies: split on each.
      by_cases hmax : fromBe [h₀, h₁] > maxHdrLen
      · rw [if_pos hmax, if_pos hmax]
        rfl
      rw [if_neg hmax, if_neg hmax]
      by_cases hshort : (h₀ :: h₁ :: rest).length < 2 + fromBe [h₀, h₁]
      · rw [if_pos hshort, if_pos hshort]
        rfl
      rw [if_neg hshort, if_neg hshort, if_neg (by omega), if_neg (by omega)]
      have hslice : ∀ ε : Type, (slice (h₀ :: h₁ :: rest) 2 (2 + fromBe [h₀, h₁]) : Exec ε _) =
          .ok _ := fun _ => slice_of_le (by omega) (not_lt.mp hshort)
      have hfrom : ∀ ε : Type, (sliceFrom (h₀ :: h₁ :: rest) (2 + fromBe [h₀, h₁]) : Exec ε _) =
          .ok _ := fun _ => sliceFrom_of_le (not_lt.mp hshort)
      rw [hslice, hslice, hfrom, hfrom]
      dsimp only [bind, Except.bind]
      by_cases hwhole : 2 + fromBe [h₀, h₁] +
          ((h₀ :: h₁ :: rest).drop (2 + fromBe [h₀, h₁])).length ≠ len
      · rw [if_pos hwhole, if_pos hwhole]
        rfl
      · rw [if_neg hwhole, if_neg hwhole]
        rfl

/-- **THE TWO COPIES AGREE.**  On every buffer the peer codec does what the local parts and
    its own header parser make of it. -/
theorem decodeParts_agrees (parse : Bytes → Option Message) (buf : Bytes) :
    UatCodec.decodeParts parse buf = thenParse parse (decodeParts buf) := by
  match buf with
  | [] => rfl
  | [_] => rfl
  | [_, _] => rfl
  | [_, _, _] => rfl
  | b₀ :: b₁ :: b₂ :: b₃ :: rest =>
      have hfour : ¬ (b₀ :: b₁ :: b₂ :: b₃ :: rest).length < 4 := by
        simp only [List.length_cons]
        omega
      rw [UatCodec.decodeParts, decodeParts, if_neg hfour, if_neg hfour]
      show (if fromBe [b₀, b₁, b₂, b₃] > maxFrame then _ else _) =
        thenParse parse (if fromBe [b₀, b₁, b₂, b₃] > maxFrame then _ else _)
      -- The length prefix first, then the bytes it promises, then the payload.
      by_cases hmax : fromBe [b₀, b₁, b₂, b₃] > maxFrame
      · rw [if_pos hmax, if_pos hmax]
        rfl
      rw [if_neg hmax, if_neg hmax]
      by_cases hshort : (b₀ :: b₁ :: b₂ :: b₃ :: rest).length < 4 + fromBe [b₀, b₁, b₂, b₃]
      · rw [if_pos hshort, if_pos hshort]
        rfl
      rw [if_neg hshort, if_neg hshort]
      have hslice : ∀ ε : Type, (slice (b₀ :: b₁ :: b₂ :: b₃ :: rest) 4
          (4 + fromBe [b₀, b₁, b₂, b₃]) : Exec ε _) = .ok _ :=
        fun _ => slice_of_le (by omega) (not_lt.mp hshort)
      rw [hslice, hslice]
      refine decodePayload_agrees parse ?_
      rw [List.length_take, List.length_drop]
      omega

/-- The peer codec refuses a frame for one of three reasons before it parses. -/
theorem matchFrame_errors {parse : Bytes → Option Message} (hparse : ∀ header, parse header ≠ none)
    {buf : Bytes} {stop : Fault CodecError} (h : UatCodec.matchFrame parse buf = .error stop) :
    stop = .err .frameTooLarge ∨ stop = .err .truncated ∨ stop = .err .badLength := by
  have hpayload : ∀ {payload}, UatCodec.matchPayload parse payload = .error stop →
      stop = .err .frameTooLarge ∨ stop = .err .badLength := by
    intro payload h
    rcases payload with _ | ⟨h₀, _ | ⟨h₁, rest⟩⟩
    · cases h
      exact Or.inr rfl
    · cases h
      exact Or.inr rfl
    · rw [UatCodec.matchPayload] at h
      split at h
      · cases h
        exact Or.inl rfl
      split at h
      · cases h
        exact Or.inr rfl
      split at h
      · cases h
      · next hnone => exact absurd hnone (hparse _)
  -- Four bytes of length, or the buffer is truncated.
  rcases buf with _ | ⟨b₀, _ | ⟨b₁, _ | ⟨b₂, _ | ⟨b₃, rest⟩⟩⟩⟩
  iterate 4
    · cases h
      exact Or.inr (Or.inl rfl)
  rw [UatCodec.matchFrame] at h
  split at h
  · cases h
    exact Or.inl rfl
  split at h
  · cases h
    exact Or.inr (Or.inl rfl)
  · rcases hpayload h with hstop | hstop
    · exact Or.inl hstop
    · exact Or.inr (Or.inr hstop)

/-- So does the local copy, and it never indexes out of bounds. -/
theorem decodeParts_errors {buf : Bytes} {stop : Fault LocalCodecError}
    (h : decodeParts buf = .error stop) :
    stop = .err .frameTooLarge ∨ stop = .err .truncated ∨ stop = .err .badLength := by
  have hpeer := decodeParts_agrees (fun _ => some .accepted) buf
  rw [UatCodec.decodeParts_eq, h] at hpeer
  cases stop with
  | panic =>
      have hstop := matchFrame_errors (fun _ hnone => by cases hnone) hpeer
      rcases hstop with hstop | hstop | hstop <;> cases hstop
  | err err =>
      have hstop := matchFrame_errors (fun _ hnone => by cases hnone) hpeer
      cases err <;> rcases hstop with hstop | hstop | hstop <;>
        first | cases hstop; done | exact Or.inl rfl | exact Or.inr (Or.inl rfl) |
          exact Or.inr (Or.inr rfl)

/-- The local parts of a layout are its header and its body: the peer codec reads them so,
    with a parser that knows this header alone. -/
theorem decodeParts_layout {b header body rest : Bytes} (h : Layout b header body rest) :
    decodeParts b = .ok (header, body) := by
  let only : Bytes → Option Message := fun bs => if bs = header then some .accepted else none
  have hpeer : UatCodec.decodeParts only b = .ok (.accepted, body) :=
    UatCodec.decodeParts_ok_iff.mpr ⟨header, rest, h, if_pos rfl⟩
  rw [decodeParts_agrees] at hpeer
  rcases hparts : decodeParts b with (err | _) | ⟨header', body'⟩
  · rw [hparts] at hpeer
    cases hpeer
  · rw [hparts] at hpeer
    cases hpeer
  · rw [hparts] at hpeer
    by_cases heq : header' = header
    · have honly : only header' = some .accepted := if_pos heq
      simp only [thenParse, honly] at hpeer
      obtain ⟨-, rfl⟩ := Prod.mk.inj (Except.ok.inj hpeer)
      rw [heq]
    · have honly : only header' = none := if_neg heq
      simp only [thenParse, honly] at hpeer
      cases hpeer

/-- A carried body goes back, and one that is not carried is empty. -/
theorem restoreBody_messageBody (m : Message) :
    restoreBody (setMessageBody m []) (messageBody m) = .ok m := by
  cases m <;> rfl

/-- The header of a request has everything but the bodies. -/
def LocalRequest.withoutBody : LocalRequest → LocalRequest
  | .dial peer addrs task deadline contentType credential _ =>
      .dial peer addrs task deadline contentType credential []
  | .inbox => .inbox
  | .message m => .message (setMessageBody m [])

/-- A response as its header alone describes it. -/
def LocalResponse.withoutBody : LocalResponse → LocalResponse
  | .message m => .message (setMessageBody m [])
  | resp => resp

/-- The body that was sent beside a request goes back into it. -/
theorem setRequestBody_requestBody (req : LocalRequest) :
    setRequestBody req.withoutBody (requestBody req) = .ok req := by
  cases req with
  | message m =>
      show (restoreBody (setMessageBody m []) (messageBody m)).map LocalRequest.message = _
      rw [restoreBody_messageBody]
      rfl
  | _ => rfl

/-- The body that was sent beside a response goes back into it. -/
theorem setResponseBody_responseBody (resp : LocalResponse) :
    setResponseBody resp.withoutBody (responseBody resp) = .ok resp := by
  cases resp with
  | message m =>
      show (restoreBody (setMessageBody m []) (messageBody m)).map LocalResponse.message = _
      rw [restoreBody_messageBody]
      rfl
  | _ => rfl

/-- The header of a message field. -/
theorem deserializeMessage_field (m : Message) :
    deserializeMessage (.map [("message", UatHeader.serialize m)]) =
      some (setMessageBody m []) := by
  have hfields : ∀ v, fieldsOf ["message"] (.map [("message", v)]) = some [some v] := fun _ => rfl
  rw [deserializeMessage, hfields, Option.bind_eq_bind, Option.bind_some]
  rw [setMessageBody_eq]
  exact deserialize_serialize m

/-- The fields of a `dial` are found under their names, with the credential and without. -/
theorem fieldsOf_dial (peer addrs task deadline contentType : Value) (c : Option Credential) :
    fieldsOf ["peer", "addrs", "task", "deadline", "content_type", "credential"]
      (.map ([("peer", peer), ("addrs", addrs), ("task", task), ("deadline", deadline),
        ("content_type", contentType)] ++ credentialField c)) =
      some [some peer, some addrs, some task, some deadline, some contentType,
        c.map fun c => .str c.encoded] := by
  cases c <;> rfl

/-- **A serialized request is deserialized**, with its body left out. -/
theorem deserializeRequest_serialize (req : LocalRequest) :
    deserializeRequest req.serialize = some req.withoutBody := by
  cases req with
  | dial peer addrs task deadline contentType credential body =>
      have hname : "type" ∉ ([("peer", Value.str peer), ("addrs", .arr (addrs.map .str)),
          ("task", .str (TaskId.toHex task)), ("deadline", .nat deadline.ms),
          ("content_type", .str contentType.value)] ++
            credentialField credential).map Prod.fst := by
        cases credential with
        | none =>
            exact (by decide : "type" ∉ ["peer", "addrs", "task", "deadline", "content_type"])
        | some c =>
            exact (by decide : "type" ∉
              ["peer", "addrs", "task", "deadline", "content_type", "credential"])
      rw [LocalRequest.serialize, List.cons_append, deserializeRequest, tagged_obj hname,
        Option.bind_some]
      show deserializeDial _ = _
      rw [deserializeDial, fieldsOf_dial, Option.bind_eq_bind, Option.bind_some]
      dsimp only
      rw [deserializeStrings_map, deserializeTask_toHex, deserializeDeadline_ms,
        deserializeContentType_value, deserializeCredential_field]
      rfl
  | inbox => rfl
  | message m =>
      have hname : "type" ∉ [("message", UatHeader.serialize m)].map Prod.fst :=
        (by decide : "type" ∉ ["message"])
      rw [LocalRequest.serialize, deserializeRequest, tagged_obj hname, Option.bind_some]
      show (deserializeMessage _).map LocalRequest.message = _
      rw [deserializeMessage_field]
      rfl

/-- **A serialized response is deserialized**, with its body left out. -/
theorem deserializeResponse_serialize (resp : LocalResponse) :
    deserializeResponse resp.serialize = some resp.withoutBody := by
  cases resp with
  | dialResult outcome rttMs =>
      have hname : "type" ∉ ([("outcome", Outcome.serialize outcome)] ++ rttField rttMs).map
          Prod.fst := by
        cases rttMs with
        | none => exact (by decide : "type" ∉ ["outcome"])
        | some ms => exact (by decide : "type" ∉ ["outcome", "rtt_ms"])
      have hfields : fieldsOf ["outcome", "rtt_ms"]
          (.map ([("outcome", Outcome.serialize outcome)] ++ rttField rttMs)) =
          some [some (Outcome.serialize outcome), rttMs.map fun ms => .nat ms.toNat] := by
        cases rttMs <;> rfl
      rw [LocalResponse.serialize, List.cons_append, deserializeResponse, tagged_obj hname,
        Option.bind_some]
      show deserializeDialResult _ = _
      rw [deserializeDialResult, hfields, Option.bind_eq_bind, Option.bind_some]
      dsimp only
      rw [deserializeOutcome_serialize, deserializeRtt_field]
      rfl
  | inboxIdle => rfl
  | inboxEvent peer outcome =>
      have hname : "type" ∉ [("peer", Value.str peer), ("outcome", Outcome.serialize outcome)].map
          Prod.fst := (by decide : "type" ∉ ["peer", "outcome"])
      have hfields : ∀ v w, fieldsOf ["peer", "outcome"] (.map [("peer", v), ("outcome", w)]) =
          some [some v, some w] := fun _ _ => rfl
      rw [LocalResponse.serialize, deserializeResponse, tagged_obj hname, Option.bind_some]
      show deserializeInboxEvent _ = _
      rw [deserializeInboxEvent, hfields, Option.bind_eq_bind, Option.bind_some]
      dsimp only
      rw [deserializeOutcome_serialize]
      rfl
  | message m =>
      have hname : "type" ∉ [("message", UatHeader.serialize m)].map Prod.fst :=
        (by decide : "type" ∉ ["message"])
      rw [LocalResponse.serialize, deserializeResponse, tagged_obj hname, Option.bind_some]
      show (deserializeMessage _).map LocalResponse.message = _
      rw [deserializeMessage_field]
      rfl
  | error text => rfl

/-! ## Plain headers -/

/-- A message's header is an object of scalars. -/
theorem plain_message (m : Message) : Plain 1 (UatHeader.serialize m) := by
  obtain ⟨fields, hfields, hscalar⟩ := serialize_scalars m
  rw [hfields]
  unfold Plain
  exact fun p hp => plain_of_scalar (hscalar p hp)

/-- The tagged object that carries a message. -/
theorem plain_tagged_message (m : Message) :
    Plain 2 (.obj [("type", .str "message"), ("message", UatHeader.serialize m)]) := by
  unfold Plain
  intro p hp
  simp only [List.mem_cons, List.not_mem_nil, or_false] at hp
  rcases hp with rfl | rfl
  exacts [plain_str 1 _, plain_message m]

/-- The credential's field is a string. -/
theorem plain_credentialField (c : Option Credential) :
    ∀ p ∈ credentialField c, Plain 1 p.2 := by
  intro p hp
  cases c with
  | none => exact absurd hp List.not_mem_nil
  | some c =>
      obtain rfl := List.mem_singleton.mp hp
      exact plain_str 1 _

/-- The header of a request is nested two deep. -/
theorem plain_request (req : LocalRequest) : Plain 2 req.serialize := by
  cases req with
  | dial peer addrs task deadline contentType credential body =>
      have hdeadline : deadline.ms < 2 ^ 64 := lt_of_le_of_lt deadline.le_max (by decide)
      have haddrs : Plain 1 (.arr (addrs.map .str)) := by
        unfold Plain
        intro v hv
        obtain ⟨addr, -, rfl⟩ := List.mem_map.mp hv
        exact plain_str 0 addr
      rw [LocalRequest.serialize]
      unfold Plain
      intro p hp
      rcases List.mem_append.mp hp with hp | hp
      · simp only [List.mem_cons, List.not_mem_nil, or_false] at hp
        rcases hp with rfl | rfl | rfl | rfl | rfl | rfl
        exacts [plain_str 1 _, plain_str 1 _, haddrs, plain_str 1 _, plain_nat 1 hdeadline,
          plain_str 1 _]
      · exact plain_credentialField credential p hp
  | inbox =>
      rw [LocalRequest.serialize]
      unfold Plain
      intro p hp
      obtain rfl := List.mem_singleton.mp hp
      exact plain_str 1 _
  | message m => exact plain_tagged_message m

/-- The header of a response is nested two deep. -/
theorem plain_response (resp : LocalResponse) : Plain 2 resp.serialize := by
  cases resp with
  | dialResult outcome rttMs =>
      rw [LocalResponse.serialize]
      unfold Plain
      intro p hp
      rcases List.mem_append.mp hp with hp | hp
      · simp only [List.mem_cons, List.not_mem_nil, or_false] at hp
        rcases hp with rfl | rfl
        exacts [plain_str 1 _, plain_outcome outcome]
      · cases rttMs with
        | none => exact absurd hp List.not_mem_nil
        | some ms =>
            obtain rfl := List.mem_singleton.mp hp
            exact plain_nat 1 ms.toNat_lt
  | inboxIdle =>
      rw [LocalResponse.serialize]
      unfold Plain
      intro p hp
      obtain rfl := List.mem_singleton.mp hp
      exact plain_str 1 _
  | inboxEvent peer outcome =>
      rw [LocalResponse.serialize]
      unfold Plain
      intro p hp
      simp only [List.mem_cons, List.not_mem_nil, or_false] at hp
      rcases hp with rfl | rfl | rfl
      exacts [plain_str 1 _, plain_str 1 _, plain_outcome outcome]
  | message m => exact plain_tagged_message m
  | error text =>
      rw [LocalResponse.serialize]
      unfold Plain
      intro p hp
      simp only [List.mem_cons, List.not_mem_nil, or_false] at hp
      rcases hp with rfl | rfl <;> exact plain_str 1 _

/-! ## The round trip -/

variable [text : JsonText]

/-- The crate's `to_vec` does not fail on such values. -/
def encodeRequest (req : LocalRequest) (out : Bytes) : Except LocalCodecError Bytes :=
  encodeJsonFrame (text.print req.serialize) (requestBody req) out

def encodeResponse (resp : LocalResponse) (out : Bytes) : Except LocalCodecError Bytes :=
  encodeJsonFrame (text.print resp.serialize) (responseBody resp) out

/-- `decode_request`: the frame, then the header, then the body put back. -/
def decodeRequest (buf : Bytes) : Exec LocalCodecError LocalRequest := do
  let (header, body) ← decodeParts buf
  match (text.parse header).bind deserializeRequest with
  | some req => setRequestBody req body
  | none => fail .malformedHeader

/-- `decode_response`: the frame, then the header, then the body put back. -/
def decodeResponse (buf : Bytes) : Exec LocalCodecError LocalResponse := do
  let (header, body) ← decodeParts buf
  match (text.parse header).bind deserializeResponse with
  | some resp => setResponseBody resp body
  | none => fail .malformedHeader

/-- A frame around the header and the body of a request is decoded to it. -/
theorem decodeRequest_layout (htext : ReadsBackNested text) {req : LocalRequest}
    {frame suffix : Bytes}
    (h : Layout frame (text.print req.serialize) (requestBody req) suffix) :
    decodeRequest frame = .ok req := by
  rw [decodeRequest, decodeParts_layout h]
  show (match (text.parse (text.print req.serialize)).bind deserializeRequest with
    | some req => setRequestBody req _
    | none => _) = _
  rw [htext _ (plain_mono (plain_request req) (by decide)), Option.bind_some,
    deserializeRequest_serialize]
  exact setRequestBody_requestBody req

/-- A frame laid out for a response is read as that response. -/
theorem decodeResponse_layout (htext : ReadsBackNested text) {resp : LocalResponse}
    {frame suffix : Bytes}
    (h : Layout frame (text.print resp.serialize) (responseBody resp) suffix) :
    decodeResponse frame = .ok resp := by
  rw [decodeResponse, decodeParts_layout h]
  show (match (text.parse (text.print resp.serialize)).bind deserializeResponse with
    | some resp => setResponseBody resp _
    | none => _) = _
  rw [htext _ (plain_mono (plain_response resp) (by decide)), Option.bind_some,
    deserializeResponse_serialize]
  exact setResponseBody_responseBody resp

/-- **THE LOCAL CODEC IS FAITHFUL.**  Whatever is encoded is decoded to the same request or
    response, with any bytes behind the frame; and on every buffer the local framing and the
    peer's decide alike, one of three refusals or the same slices. -/
theorem local_codec_faithful (htext : ReadsBackNested text) :
    (∀ req out out', encodeRequest req out = .ok out' → ∃ frame, out' = out ++ frame ∧
      ∀ suffix, decodeRequest (frame ++ suffix) = .ok req) ∧
    (∀ resp out out', encodeResponse resp out = .ok out' → ∃ frame, out' = out ++ frame ∧
      ∀ suffix, decodeResponse (frame ++ suffix) = .ok resp) ∧
    ∀ buf, (∀ parse, UatCodec.decodeParts parse buf = thenParse parse (decodeParts buf)) ∧
      ∀ stop, decodeParts buf = .error stop →
        stop = .err .frameTooLarge ∨ stop = .err .truncated ∨ stop = .err .badLength := by
  refine ⟨fun req out out' h => ?_, fun resp out out' h => ?_, fun buf =>
    ⟨fun parse => decodeParts_agrees parse buf, fun stop h => decodeParts_errors h⟩⟩
  · obtain ⟨frame, rfl, hlayout⟩ := layout_of_encode h
    exact ⟨frame, rfl, fun suffix => decodeRequest_layout htext (hlayout suffix)⟩
  · obtain ⟨frame, rfl, hlayout⟩ := layout_of_encode h
    exact ⟨frame, rfl, fun suffix => decodeResponse_layout htext (hlayout suffix)⟩

end

section

local instance : Base64Engine := urlSafeNoPad

local instance : JsonText := compactJson

/-- A message with a body. -/
def inputOne : LocalRequest := .message (.input [1, 2, 3])

theorem local_codec_faithful_inputOne :
    ∃ frame, encodeRequest inputOne [] = .ok frame ∧
      decodeRequest (frame ++ [7]) = .ok inputOne := by
  obtain ⟨frame, hframe, hdecode⟩ :=
    (local_codec_faithful compactJson_readsBackNested).1 inputOne [] _ rfl
  exact ⟨frame, congrArg Except.ok hframe, hdecode [7]⟩

end

end UatLocalCodec
