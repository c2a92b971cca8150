import Uat.Types
import Uat.Base.Checked
import Uat.Base.Positional

/-! # The frame codec — length-prefixed header and body

    A frame is a 32-bit length, a 16-bit header length, the JSON header and the raw
    body.  `decodeParts` is the source's function statement by statement: every index
    and slice is one that panics out of bounds.  The header parser and printer are
    parameters.

    `decodeParts_eq` shows that the function is a pattern match on the buffer, so that
    no index is out of bounds; the grammar, the order of the length check, and the
    independence of what follows the frame are read off the match. -/

namespace UatCodec

open UatTypes Checked Positional

/-- `MAX_FRAME`: 64 KiB behind the length prefix. -/
def maxFrame : Nat := 65536

/-- `MAX_HDR_LEN`: 4 KiB of header. -/
def maxHdrLen : Nat := 4096

/-- Errors encoding and decoding frames. -/
inductive CodecError where
  | frameTooLarge
  | truncated
  | badLength
  | malformedHeader
  | headerTooLarge
  | encodeTooLarge
  | submitDenied
  deriving DecidableEq, Repr

/-- Suggested connection close code, when applicable. -/
def CodecError.closeCode : CodecError → Option CloseCode
  | .frameTooLarge => some .frameTooLarge
  | .malformedHeader | .badLength | .truncated => some .malformedFrame
  | .headerTooLarge | .encodeTooLarge | .submitDenied => none

/-- `usize` addition that reports overflow. -/
def checkedAdd (a b : Nat) : Option Nat := if a + b < 2 ^ 64 then some (a + b) else none

/-- `try_from` into an unsigned integer of the given width. -/
def tryFrom (width n : Nat) : Option Nat := if n < 2 ^ width then some n else none

/-- A checked sum is the sum, and it is there whenever the sum fits a frame. -/
theorem checkedAdd_eq {a b c n : Nat} (h : (checkedAdd a b).bind (checkedAdd · c) = some n) :
    n = a + b + c := by
  obtain ⟨ab, hab, hn⟩ := Option.bind_eq_some_iff.mp h
  obtain ⟨-, hab⟩ := Option.ite_none_right_eq_some.mp hab
  obtain ⟨-, hn⟩ := Option.ite_none_right_eq_some.mp hn
  rw [← Option.some.inj hn, ← Option.some.inj hab]

/-- A sum that fits a frame does not overflow. -/
theorem checkedAdd_of_le {a b c : Nat} (h : a + b + c ≤ maxFrame) :
    (checkedAdd a b).bind (checkedAdd · c) = some (a + b + c) := by
  have hmax : maxFrame < 2 ^ 64 := by decide
  rw [checkedAdd, if_pos (by omega), Option.bind_some, checkedAdd, if_pos (by omega)]

variable [Base64Engine]

/-- Decides whether a parsed `Submit` header may take its body. -/
abbrev SubmitAuthorizer := Message → Bool

def denyAll : SubmitAuthorizer := fun _ => false

def allowAll : SubmitAuthorizer := fun _ => true

/-- `message_body`: the bytes that a message sends after its header. -/
def messageBody : Message → Bytes
  | .submit _ _ _ _ body | .input body | .completed body => body
  | _ => []

/-- `set_body`: a message that carries no body is left as it is. -/
def setBody (message : Message) (body : Bytes) : Message :=
  match message with
  | .submit task deadline contentType credential _ =>
      .submit task deadline contentType credential body
  | .input _ => .input body
  | .completed _ => .completed body
  | m => m

/-- The variants whose body travels in the frame. -/
def carriesBody : Message → Bool
  | .submit .. | .input _ | .completed _ => true
  | _ => false

/-- The body that was sent beside a header goes back into it. -/
theorem setBody_messageBody (m : Message) : setBody (setBody m []) (messageBody m) = m := by
  cases m <;> rfl

/-- Only a message that carries a body has one. -/
theorem messageBody_carried (m : Message) :
    messageBody m = [] ∨ carriesBody (setBody m []) = true := by
  cases m with
  | submit | input | completed => exact Or.inr rfl
  | _ => exact Or.inl rfl

/-! ## Decoding -/

section

variable (parse : Bytes → Option Message)

/-- The second half of `decode_parts`: header length, header and body of a payload of
    `len` bytes. -/
def decodePayload (len : Nat) (payload : Bytes) : Exec CodecError (Message × Bytes) := do
  if payload.length < 2 then fail .badLength else
  let hdrLen := fromBe [← index payload 0, ← index payload 1]
  if hdrLen > maxHdrLen then fail .frameTooLarge else
  if payload.length < 2 + hdrLen then fail .badLength else
  if len < 2 + hdrLen then fail .badLength else
  let headerBytes ← slice payload 2 (2 + hdrLen)
  let body ← sliceFrom payload (2 + hdrLen)
  if 2 + hdrLen + body.length ≠ len then fail .badLength else
  match parse headerBytes with
  | some header => pure (header, body)
  | none => fail .malformedHeader

/-- Parse length prefix and header without copying the body. -/
def decodeParts (buf : Bytes) : Exec CodecError (Message × Bytes) := do
  if buf.length < 4 then fail .truncated else
  let len := fromBe [← index buf 0, ← index buf 1, ← index buf 2, ← index buf 3]
  -- F1: reject before any allocation sized by the peer.
  if len > maxFrame then fail .frameTooLarge else
  if buf.length < 4 + len then fail .truncated else
  let payload ← slice buf 4 (4 + len)
  decodePayload parse len payload

/-- The body goes into the header's message: a `Submit` asks first, and a message that carries
    none must come without. -/
def finishBody (header : Message) (body : Bytes) (auth : SubmitAuthorizer) :
    Exec CodecError Message :=
  match header with
  | .submit .. => if ¬ auth header then fail .submitDenied else pure (setBody header body)
  | .input _ | .completed _ => pure (setBody header body)
  | _ => if body ≠ [] then fail .badLength else pure header

/-- Decode a full frame, copying bodies only when `auth` allows `Submit`. -/
def decode (buf : Bytes) (auth : SubmitAuthorizer) : Exec CodecError Message := do
  let (header, body) ← decodeParts parse buf
  finishBody header body auth

end

/-! ## Encoding -/

/-- `ok_or`. -/
def orElse {α : Type} (x : Option α) (e : CodecError) : Except CodecError α :=
  match x with
  | some a => .ok a
  | none => .error e

/-- Append the encoding of `message` to `out`. -/
def encode (print : Message → Option Bytes) (message : Message) (out : Bytes) :
    Except CodecError Bytes := do
  let header ← orElse (print message) .malformedHeader
  if header.length > maxHdrLen then .error .headerTooLarge else
  let body := messageBody message
  let hdrLen ← orElse (tryFrom 16 header.length) .headerTooLarge
  let lenU ← orElse ((checkedAdd 2 header.length).bind (checkedAdd · body.length)) .encodeTooLarge
  if lenU > maxFrame then .error .encodeTooLarge else
  let len ← orElse (tryFrom 32 lenU) .encodeTooLarge
  .ok (out ++ toBe 4 len ++ toBe 2 hdrLen ++ header ++ body)

/-- **What `encode` appends**: the two length fields, the header and the body, and it
    does so exactly when they fit. -/
theorem encode_ok_iff {print : Message → Option Bytes} {m : Message} {out out' : Bytes} :
    encode print m out = .ok out' ↔
      ∃ header, print m = some header ∧ header.length ≤ maxHdrLen ∧
        2 + header.length + (messageBody m).length ≤ maxFrame ∧
        out' = out ++ toBe 4 (2 + header.length + (messageBody m).length) ++
          toBe 2 header.length ++ header ++ messageBody m := by
  rw [encode]
  cases print m with
  | none => exact ⟨nofun, fun ⟨_, h, _⟩ => nomatch h⟩
  | some header =>
      have hmax : maxFrame < 2 ^ 32 := by decide
      have hhdr : maxHdrLen < 2 ^ 16 := by decide
      show (if header.length > maxHdrLen then _ else _) = _ ↔ _
      by_cases hlong : header.length > maxHdrLen
      · rw [if_pos hlong]
        refine ⟨nofun, ?_⟩
        rintro ⟨_, h, hle, -⟩
        obtain rfl := Option.some.inj h
        exact absurd hlong (not_lt.mpr hle)
      -- Behind the length test the conversion to 16 bits cannot fail.
      rw [if_neg hlong, show tryFrom 16 header.length = some header.length from
        if_pos (by omega)]
      show (orElse _ _ >>= _) = _ ↔ _
      by_cases hfit : 2 + header.length + (messageBody m).length ≤ maxFrame
      · rw [checkedAdd_of_le hfit]
        show (if _ > maxFrame then _ else _) = _ ↔ _
        rw [if_neg (not_lt.mpr hfit), show tryFrom 32 (2 + header.length + (messageBody m).length) =
          some (2 + header.length + (messageBody m).length) from if_pos (by omega)]
        constructor
        · intro h
          exact ⟨header, rfl, not_lt.mp hlong, hfit, (Except.ok.inj h).symm⟩
        · rintro ⟨_, h, -, -, rfl⟩
          obtain rfl := Option.some.inj h
          rfl
      · have hno : ¬ ∃ h, some header = some h ∧ h.length ≤ maxHdrLen ∧
            2 + h.length + (messageBody m).length ≤ maxFrame ∧
            out' = out ++ toBe 4 (2 + h.length + (messageBody m).length) ++
              toBe 2 h.length ++ h ++ messageBody m := by
          rintro ⟨_, h, -, hle, -⟩
          obtain rfl := Option.some.inj h
          exact hfit hle
        refine ⟨fun h => ?_, fun h => absurd h hno⟩
        -- A sum that overflows is refused with the same error as one that is too long.
        cases hsum : (checkedAdd 2 header.length).bind (checkedAdd · (messageBody m).length) with
        | none =>
            rw [hsum] at h
            cases h
        | some n =>
            obtain rfl := checkedAdd_eq hsum
            rw [hsum] at h
            change (if _ > maxFrame then _ else _) = _ at h
            rw [if_pos (not_le.mp hfit)] at h
            cases h

/-! ## Decoding as a match on the buffer -/

variable {parse : Bytes → Option Message}

/-- What follows the length prefix. -/
def matchPayload (parse : Bytes → Option Message) : Bytes → Exec CodecError (Message × Bytes)
  | h₀ :: h₁ :: rest =>
      if fromBe [h₀, h₁] > maxHdrLen then fail .frameTooLarge
      else if rest.length < fromBe [h₀, h₁] then fail .badLength
      else
        match parse (rest.take (fromBe [h₀, h₁])) with
        | some header => .ok (header, rest.drop (fromBe [h₀, h₁]))
        | none => fail .malformedHeader
  | _ => fail .badLength

/-- The frame's layout, read by matching. -/
def matchFrame (parse : Bytes → Option Message) : Bytes → Exec CodecError (Message × Bytes)
  | b₀ :: b₁ :: b₂ :: b₃ :: rest =>
      if fromBe [b₀, b₁, b₂, b₃] > maxFrame then fail .frameTooLarge
      else if rest.length < fromBe [b₀, b₁, b₂, b₃] then fail .truncated
      else matchPayload parse (rest.take (fromBe [b₀, b₁, b₂, b₃]))
  | _ => fail .truncated

/-- In a payload of `len` bytes every index and slice is in bounds. -/
theorem decodePayload_eq {len : Nat} {payload : Bytes} (hlen : payload.length = len) :
    decodePayload parse len payload = matchPayload parse payload := by
  match payload, hlen with
  | [], _ => rfl
  | [_], _ => rfl
  | h₀ :: h₁ :: rest, hlen =>
      have htwo : ¬ (h₀ :: h₁ :: rest).length < 2 := by
        simp only [List.length_cons]
        omega
      rw [decodePayload, if_neg htwo]
      show (if fromBe [h₀, h₁] > maxHdrLen then _ else _) = (if _ then _ else _)
      by_cases hmax : fromBe [h₀, h₁] > maxHdrLen
      · rw [if_pos hmax, if_pos hmax]
      · rw [if_neg hmax, if_neg hmax]
        simp only [List.length_cons] at hlen ⊢
        by_cases hshort : rest.length < fromBe [h₀, h₁]
        · rw [if_pos (by omega), if_pos hshort]
        · rw [if_neg (by omega), if_neg (by omega), if_neg hshort]
          -- The header and the body are cut out of a payload that has them; `len` is its length.
          have hheader : (slice (h₀ :: h₁ :: rest) 2 (2 + fromBe [h₀, h₁]) : Exec CodecError _) =
              .ok (rest.take (fromBe [h₀, h₁])) := by
            rw [slice_of_le (by omega) (by simp only [List.length_cons]; omega),
              Nat.add_sub_cancel_left]
            rfl
          have hbody : (sliceFrom (h₀ :: h₁ :: rest) (2 + fromBe [h₀, h₁]) :
              Exec CodecError _) = .ok (rest.drop (fromBe [h₀, h₁])) := by
            rw [sliceFrom_of_le (by simp only [List.length_cons]; omega), Nat.add_comm,
              List.drop_succ_cons, List.drop_succ_cons]
          have hwhole : ¬ 2 + fromBe [h₀, h₁] + (rest.drop (fromBe [h₀, h₁])).length ≠ len := by
            rw [List.length_drop]
            omega
          rw [hheader, hbody]
          show (if 2 + fromBe [h₀, h₁] + (rest.drop (fromBe [h₀, h₁])).length ≠ len then _
            else _) = _
          rw [if_neg hwhole]
          rfl

/-- **No index is out of bounds.** Every index and slice of `decodeParts` is taken where
    the buffer has it: the function is a match on the buffer. -/
theorem decodeParts_eq (buf : Bytes) : decodeParts parse buf = matchFrame parse buf := by
  match buf with
  | [] => rfl
  | [_] => rfl
  | [_, _] => rfl
  | [_, _, _] => rfl
  | b₀ :: b₁ :: b₂ :: b₃ :: rest =>
      have hfour : ¬ (b₀ :: b₁ :: b₂ :: b₃ :: rest).length < 4 := by
        simp only [List.length_cons]
        omega
      rw [decodeParts, if_neg hfour]
      show (if fromBe [b₀, b₁, b₂, b₃] > maxFrame then _ else _) = (if _ then _ else _)
      by_cases hmax : fromBe [b₀, b₁, b₂, b₃] > maxFrame
      · rw [if_pos hmax, if_pos hmax]
      · rw [if_neg hmax, if_neg hmax]
        by_cases hshort : rest.length < fromBe [b₀, b₁, b₂, b₃]
        · rw [if_pos (by simp only [List.length_cons]; omega), if_pos hshort]
        · rw [if_neg (by simp only [List.length_cons]; omega), if_neg hshort]
          have hpayload : (slice (b₀ :: b₁ :: b₂ :: b₃ :: rest) 4
              (4 + fromBe [b₀, b₁, b₂, b₃]) : Exec CodecError _) =
              .ok (rest.take (fromBe [b₀, b₁, b₂, b₃])) := by
            rw [slice_of_le (by omega) (by simp only [List.length_cons]; omega),
              Nat.add_sub_cancel_left]
            rfl
          rw [hpayload]
          refine decodePayload_eq ?_
          rw [List.length_take]
          omega

/-! ## The grammar -/

/-- A length prefix followed by as many bytes is that payload, whatever comes after. -/
theorem matchFrame_layout (parse : Bytes → Option Message) {payload : Bytes} (rest : Bytes)
    (h : payload.length ≤ maxFrame) :
    matchFrame parse (toBe 4 payload.length ++ (payload ++ rest)) = matchPayload parse payload := by
  have hfit : fromBe (toBe 4 payload.length) = payload.length :=
    fromBe_toBe (lt_of_le_of_lt h (by decide))
  match hb : toBe 4 payload.length, length_toBe 4 payload.length with
  | [b₀, b₁, b₂, b₃], _ =>
      rw [hb] at hfit
      show (if fromBe [b₀, b₁, b₂, b₃] > maxFrame then fail .frameTooLarge
        else if (payload ++ rest).length < fromBe [b₀, b₁, b₂, b₃] then fail .truncated
        else matchPayload parse ((payload ++ rest).take (fromBe [b₀, b₁, b₂, b₃]))) = _
      rw [hfit, if_neg (not_lt.mpr h), if_neg (by rw [List.length_append]; omega),
        List.take_left]

/-- What is accepted as a frame is a length prefix, a payload of that length, and a rest. -/
theorem matchFrame_ok {b : Bytes} {r : Message × Bytes} (h : matchFrame parse b = .ok r) :
    ∃ payload rest, b = toBe 4 payload.length ++ (payload ++ rest) ∧
      payload.length ≤ maxFrame ∧ matchPayload parse payload = .ok r := by
  match b with
  | b₀ :: b₁ :: b₂ :: b₃ :: rest =>
      obtain ⟨hmax, h⟩ := ite_fail_ok_iff.mp h
      obtain ⟨hshort, h⟩ := ite_fail_ok_iff.mp h
      have hlen : (rest.take (fromBe [b₀, b₁, b₂, b₃])).length = fromBe [b₀, b₁, b₂, b₃] := by
        rw [List.length_take]
        omega
      refine ⟨rest.take (fromBe [b₀, b₁, b₂, b₃]), rest.drop (fromBe [b₀, b₁, b₂, b₃]), ?_,
        by rw [hlen]; exact not_lt.mp hmax, h⟩
      rw [hlen, List.take_append_drop, show toBe 4 (fromBe [b₀, b₁, b₂, b₃]) =
        [b₀, b₁, b₂, b₃] from toBe_fromBe [b₀, b₁, b₂, b₃]]
      rfl
  | [] | [_] | [_, _] | [_, _, _] => exact absurd h (fail_ne_ok _ _)

/-- A header length followed by as many bytes is that header; the rest is the body. -/
theorem matchPayload_layout {header : Bytes} (body : Bytes) (h : header.length ≤ maxHdrLen) :
    matchPayload parse (toBe 2 header.length ++ (header ++ body)) =
      match parse header with
      | some m => .ok (m, body)
      | none => fail .malformedHeader := by
  have hfit : fromBe (toBe 2 header.length) = header.length :=
    fromBe_toBe (lt_of_le_of_lt h (by decide))
  match hb : toBe 2 header.length, length_toBe 2 header.length with
  | [h₀, h₁], _ =>
      rw [hb] at hfit
      rw [List.cons_append, List.cons_append, List.nil_append, matchPayload, hfit,
        if_neg (not_lt.mpr h), if_neg (by rw [List.length_append]; omega), List.take_left,
        List.drop_left]

/-- A payload that is accepted is a length, a header that parses and a body. -/
theorem matchPayload_ok {payload : Bytes} {m : Message} {body : Bytes}
    (h : matchPayload parse payload = .ok (m, body)) :
    ∃ header, payload = toBe 2 header.length ++ (header ++ body) ∧
      header.length ≤ maxHdrLen ∧ parse header = some m := by
  match payload with
  | h₀ :: h₁ :: rest =>
      obtain ⟨hmax, h⟩ := ite_fail_ok_iff.mp h
      obtain ⟨hshort, h⟩ := ite_fail_ok_iff.mp h
      have hlen : (rest.take (fromBe [h₀, h₁])).length = fromBe [h₀, h₁] := by
        rw [List.length_take]
        omega
      cases hparse : parse (rest.take (fromBe [h₀, h₁])) with
      | none =>
          rw [hparse] at h
          exact absurd h (fail_ne_ok _ _)
      | some m' =>
          rw [hparse] at h
          obtain ⟨rfl, rfl⟩ := Prod.mk.inj (Except.ok.inj h)
          refine ⟨rest.take (fromBe [h₀, h₁]), ?_, by rw [hlen]; exact not_lt.mp hmax, hparse⟩
          rw [hlen, List.take_append_drop, show toBe 2 (fromBe [h₀, h₁]) = [h₀, h₁] from
            toBe_fromBe [h₀, h₁]]
          rfl
  | [] | [_] => exact absurd h (fail_ne_ok _ _)

/-- The bytes of a frame: two length fields within their limits, header, body, and
    whatever follows. -/
structure Layout (b header body rest : Bytes) : Prop where
  bytes : b = toBe 4 (2 + header.length + body.length) ++ toBe 2 header.length ++ header ++
    body ++ rest
  frame_le : 2 + header.length + body.length ≤ maxFrame
  header_le : header.length ≤ maxHdrLen

/-- `decode_parts` accepts a layout whose header parses, and nothing else. -/
theorem decodeParts_ok_iff {b : Bytes} {m : Message} {body : Bytes} :
    decodeParts parse b = .ok (m, body) ↔
      ∃ header rest, Layout b header body rest ∧ parse header = some m := by
  rw [decodeParts_eq]
  constructor
  · intro h
    obtain ⟨payload, rest, rfl, hmax, h⟩ := matchFrame_ok h
    obtain ⟨header, rfl, hhdr, hparse⟩ := matchPayload_ok h
    have hlen : (toBe 2 header.length ++ (header ++ body)).length =
        2 + header.length + body.length := by
      rw [List.length_append, List.length_append, length_toBe, Nat.add_assoc]
    rw [hlen] at hmax ⊢
    refine ⟨header, rest, ⟨?_, hmax, hhdr⟩, hparse⟩
    simp only [List.append_assoc]
  · rintro ⟨header, rest, ⟨rfl, hmax, hhdr⟩, hparse⟩
    have hlen : (toBe 2 header.length ++ (header ++ body)).length =
        2 + header.length + body.length := by
      rw [List.length_append, List.length_append, length_toBe, Nat.add_assoc]
    have hframe := matchFrame_layout parse rest (hlen ▸ hmax)
    rw [hlen, matchPayload_layout body hhdr, hparse] at hframe
    simpa only [List.append_assoc] using hframe

/-- With `AllowAll`, a body is accepted exactly where the variant carries one. -/
theorem finishBody_allowAll {m m' : Message} {body : Bytes} :
    finishBody m body allowAll = .ok m' ↔
      (body = [] ∨ carriesBody m = true) ∧ m' = setBody m body := by
  cases m with
  | submit _ _ _ _ _ | input _ | completed _ =>
      refine (pure_ok_iff _ _).trans ⟨fun h => ⟨Or.inr rfl, h.symm⟩, fun h => h.2.symm⟩
  | _ =>
      refine ite_fail_ok_iff.trans ?_
      rw [pure_ok_iff, not_not]
      exact ⟨fun h => ⟨Or.inl h.1, h.2.symm⟩,
        fun h => ⟨h.1.resolve_right Bool.false_ne_true, h.2.symm⟩⟩

/-- With `AllowAll`, a frame decodes exactly when it is a layout whose header parses, with
    a body only where the variant carries one. -/
theorem decode_allowAll_iff {b : Bytes} {m : Message} :
    decode parse b allowAll = .ok m ↔
      ∃ header body rest parsed, Layout b header body rest ∧ parse header = some parsed ∧
        (body = [] ∨ carriesBody parsed = true) ∧ m = setBody parsed body := by
  rw [decode, bind_ok_iff]
  constructor
  · rintro ⟨⟨parsed, body⟩, hparts, hfinish⟩
    obtain ⟨header, rest, hlayout, hparse⟩ := decodeParts_ok_iff.mp hparts
    exact ⟨header, body, rest, parsed, hlayout, hparse, finishBody_allowAll.mp hfinish⟩
  · rintro ⟨header, body, rest, parsed, hlayout, hparse, hbody⟩
    exact ⟨(parsed, body), decodeParts_ok_iff.mpr ⟨header, rest, hlayout, hparse⟩,
      finishBody_allowAll.mpr hbody⟩

/-- Matching a payload does not panic. -/
theorem matchPayload_no_panic (payload : Bytes) : ¬ Panics (matchPayload parse payload) := by
  intro h
  simp only [Panics, matchPayload] at h
  split at h
  · split at h
    · cases h
    split at h
    · cases h
    split at h <;> cases h
  · cases h

/-- Nor does matching a frame. -/
theorem matchFrame_no_panic (b : Bytes) : ¬ Panics (matchFrame parse b) := by
  intro h
  simp only [Panics, matchFrame] at h
  split at h
  · split at h
    · cases h
    split at h
    · cases h
    exact matchPayload_no_panic _ h
  · cases h

/-- Nor does putting the body back. -/
theorem finishBody_no_panic (m : Message) (body : Bytes) (auth : SubmitAuthorizer) :
    ¬ Panics (finishBody m body auth) := by
  intro h
  simp only [Panics, finishBody] at h
  split at h
  · split at h <;> cases h
  · cases h
  · cases h
  · split at h <;> cases h

/-- A frame is decided by its length prefix and that many bytes. -/
theorem matchFrame_take {b b' : Bytes} (hb : 4 ≤ b.length)
    (h : b'.take (4 + fromBe (b.take 4)) = b.take (4 + fromBe (b.take 4))) :
    matchFrame parse b' = matchFrame parse b := by
  match b, hb with
  | b₀ :: b₁ :: b₂ :: b₃ :: rest, _ =>
      have hfour : 4 + fromBe [b₀, b₁, b₂, b₃] = fromBe [b₀, b₁, b₂, b₃] + 1 + 1 + 1 + 1 := by
        omega
      have htake : (b₀ :: b₁ :: b₂ :: b₃ :: rest).take 4 = [b₀, b₁, b₂, b₃] := rfl
      rw [htake, hfour] at h
      simp only [List.take_succ_cons] at h
      match b' with
      | c₀ :: c₁ :: c₂ :: c₃ :: rest' =>
          simp only [List.take_succ_cons, List.cons.injEq] at h
          -- The same four length bytes, so the same number of bytes is read behind them.
          obtain ⟨rfl, rfl, rfl, rfl, htail⟩ := h
          have hlen := congrArg List.length htail
          rw [List.length_take, List.length_take] at hlen
          show (if _ then _ else
          if rest'.length < _ then _ else matchPayload parse (rest'.take _)) =
            (if _ then _ else if rest.length < _ then _ else matchPayload parse (rest.take _))
          rw [htail]
          by_cases hshort : rest.length < fromBe [c₀, c₁, c₂, c₃]
          · rw [if_pos (show rest'.length < fromBe [c₀, c₁, c₂, c₃] by omega), if_pos hshort]
          · rw [if_neg (show ¬ rest'.length < fromBe [c₀, c₁, c₂, c₃] by omega), if_neg hshort]
      | [] | [_] | [_, _] | [_, _, _] => simp at h

/-- **THE DECODER ACCEPTS EXACTLY ITS GRAMMAR.**  For every buffer: no index or slice is
    out of bounds; an oversized length is refused as soon as its four bytes are there;
    what is accepted is a layout with a header that parses and a body only where the
    variant carries one; and what follows the frame does not matter. -/
theorem decode_grammar (parse : Bytes → Option Message) (b : Bytes) :
    (¬ Panics (decodeParts parse b) ∧ ∀ auth, ¬ Panics (decode parse b auth)) ∧
    (4 ≤ b.length → fromBe (b.take 4) > maxFrame →
      ∀ auth, decode parse b auth = fail .frameTooLarge) ∧
    (∀ m, decode parse b allowAll = .ok m ↔
      ∃ header body rest parsed, Layout b header body rest ∧ parse header = some parsed ∧
        (body = [] ∨ carriesBody parsed = true) ∧ m = setBody parsed body) ∧
    (4 ≤ b.length → ∀ b', b'.take (4 + fromBe (b.take 4)) = b.take (4 + fromBe (b.take 4)) →
      ∀ auth, decode parse b' auth = decode parse b auth) := by
  refine ⟨⟨?_, fun auth => ?_⟩, fun hfour hbig auth => ?_, fun m => ?_, fun hfour b' h auth => ?_⟩
  · rw [decodeParts_eq]
    exact matchFrame_no_panic b
  · intro h
    rw [Panics, decode] at h
    rw [decodeParts_eq] at h
    -- The authorizer is asked only about parts that are there.
    cases hparts : matchFrame parse b with
    | error fault =>
        rw [hparts] at h
        obtain rfl : fault = .panic :=
          Except.error.inj (show (Except.error fault : Exec CodecError Message) = _ from h)
        exact matchFrame_no_panic b hparts
    | ok r =>
        rw [hparts] at h
        exact finishBody_no_panic r.1 r.2 auth h
  · match b, hfour with
    | b₀ :: b₁ :: b₂ :: b₃ :: rest, _ =>
        have hfail : matchFrame parse (b₀ :: b₁ :: b₂ :: b₃ :: rest) = fail .frameTooLarge :=
          if_pos hbig
        rw [decode, decodeParts_eq, hfail]
        rfl
  · exact decode_allowAll_iff
  · rw [decode, decode, decodeParts_eq, decodeParts_eq, matchFrame_take hfour h]

end UatCodec
