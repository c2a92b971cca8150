import Uat.Header
import Mathlib.Data.List.Forall2

/-! # Frames on a stream — reading, writing, and the round trip of a whole stream

    `readFrame` takes four length bytes and then that many; `readMessage` decodes the
    frame.  Here the stream is given as all of its bytes; `Uat.RecvStream` relates to it
    a reader that is polled while the bytes arrive.

    A *frame* of a payload is its length prefix and the payload.  `encode_frame` shows
    that one encoding is one frame that decodes to the message; the list of messages
    then follows by induction over the concatenated frames. -/

namespace UatStream

open UatTypes UatCodec UatHeader Checked Positional

/-- Why `read_exact` did not fill its buffer. -/
inductive ReadExactError where
  | finishedEarly (read : Nat)
  | readError
  deriving DecidableEq, Repr

/-- Errors reading or writing frames on a stream. -/
inductive FrameIoError where
  | codec (err : CodecError)
  | read (source : ReadExactError)
  | write
  | unexpectedEnd
  deriving DecidableEq, Repr

/-- Suggested close code, when the error should close the connection. -/
def FrameIoError.closeCode : FrameIoError → Option CloseCode
  | .codec err => err.closeCode
  | .read (.finishedEarly _) | .unexpectedEnd => some .malformedFrame
  | .read _ | .write => none

/-- `map_read_exact`: a stream that ends early has an error of its own. -/
def mapReadExact : ReadExactError → FrameIoError
  | .finishedEarly _ => .unexpectedEnd
  | other => .read other

/-- `read_exact` into a buffer of `n` bytes, on a stream that ends after `recv`. -/
def readExact (n : Nat) (recv : Bytes) : Exec ReadExactError (Bytes × Bytes) :=
  if n ≤ recv.length then .ok (recv.take n, recv.drop n)
  else fail (.finishedEarly recv.length)

/-- Read one full length-prefixed frame (no decode). -/
def readFrame (recv : Bytes) : Exec FrameIoError (Bytes × Bytes) := do
  let (lenBuf, recv) ← mapErr mapReadExact (readExact 4 recv)
  if fromBe lenBuf > maxFrame then fail (.codec .frameTooLarge) else
  let (payload, recv) ← mapErr mapReadExact (readExact (fromBe lenBuf) recv)
  pure (lenBuf ++ payload, recv)

/-- What is there is read, and what follows is left. -/
theorem readExact_append (bs rest : Bytes) : readExact bs.length (bs ++ rest) = .ok (bs, rest) := by
  rw [readExact, if_pos (by rw [List.length_append]; omega), List.take_left, List.drop_left]

/-! ## Frames -/

/-- The frame of a payload. -/
def frameOf (payload : Bytes) : Bytes := toBe 4 payload.length ++ payload

/-- A frame is read off the stream that begins with it. -/
theorem readFrame_frameOf {payload : Bytes} (h : payload.length ≤ maxFrame) (rest : Bytes) :
    readFrame (frameOf payload ++ rest) = .ok (frameOf payload, rest) := by
  have hfit : fromBe (toBe 4 payload.length) = payload.length :=
    fromBe_toBe (lt_of_le_of_lt h (by decide))
  have hlen := readExact_append (toBe 4 payload.length) (payload ++ rest)
  rw [length_toBe] at hlen
  rw [readFrame, frameOf, List.append_assoc, hlen]
  show (if fromBe (toBe 4 payload.length) > maxFrame then _ else _) = _
  rw [hfit, if_neg (not_lt.mpr h), readExact_append]
  rfl

/-- A frame is shorter than what it was read from. -/
theorem length_readFrame {recv frame rest : Bytes} (h : readFrame recv = .ok (frame, rest)) :
    rest.length < recv.length := by
  rw [readFrame] at h
  obtain ⟨⟨lenBuf, tail⟩, h4, h⟩ := bind_ok_iff.mp h
  obtain ⟨-, h⟩ := ite_fail_ok_iff.mp h
  obtain ⟨⟨payload, tail'⟩, hpayload, h⟩ := bind_ok_iff.mp h
  obtain ⟨h4, h4'⟩ := ite_ok_fail_iff.mp (mapErr_ok_iff.mp h4)
  obtain ⟨-, hp'⟩ := ite_ok_fail_iff.mp (mapErr_ok_iff.mp hpayload)
  obtain ⟨-, rfl⟩ := Prod.mk.inj (Except.ok.inj h4')
  obtain ⟨-, rfl⟩ := Prod.mk.inj (Except.ok.inj hp')
  obtain ⟨-, rfl⟩ := Prod.mk.inj ((pure_ok_iff _ _).mp h)
  rw [List.length_drop, List.length_drop]
  omega

/-- A frame is not empty. -/
theorem frameOf_ne_nil (payload rest : Bytes) : frameOf payload ++ rest ≠ [] := by
  intro h
  have hlen := congrArg List.length h
  rw [List.length_append, frameOf, List.length_append, length_toBe, List.length_nil] at hlen
  omega

section

variable [Base64Engine] [text : JsonText]

/-- Read one frame and decode it with `auth`. -/
def readMessage (auth : SubmitAuthorizer) (recv : Bytes) : Exec FrameIoError (Message × Bytes) := do
  let (frame, recv) ← readFrame recv
  let m ← mapErr .codec (decode fromSlice frame auth)
  pure (m, recv)

/-- Reading a message shortens the stream. -/
theorem length_readMessage {auth : SubmitAuthorizer} {recv rest : Bytes} {m : Message}
    (h : readMessage auth recv = .ok (m, rest)) : rest.length < recv.length := by
  obtain ⟨⟨frame, tail⟩, hframe, h⟩ := bind_ok_iff.mp h
  obtain ⟨_, -, h⟩ := bind_ok_iff.mp h
  obtain ⟨-, rfl⟩ := Prod.mk.inj ((pure_ok_iff _ _).mp h)
  exact length_readFrame hframe

/-- Append the encodings of a list of messages. -/
def encodeAll (ms : List Message) (out : Bytes) : Except CodecError Bytes :=
  ms.foldlM (fun out m => encode toVec m out) out

/-- Read messages until no byte is left. -/
def readAll (auth : SubmitAuthorizer) (recv : Bytes) : Exec FrameIoError (List Message) :=
  if recv = [] then pure []
  else
    match h : readMessage auth recv with
    | .error e => .error e
    | .ok (m, rest) => do
        have := length_readMessage h
        let ms ← readAll auth rest
        pure (m :: ms)
termination_by recv.length

/-- The frame of `payload` decodes to `m`. -/
structure Frames (m : Message) (payload : Bytes) : Prop where
  le_max : payload.length ≤ maxFrame
  decodes : decode fromSlice (frameOf payload) allowAll = .ok m

/-- A message is read off the stream that begins with its frame. -/
theorem readMessage_frameOf {m : Message} {payload : Bytes} (h : Frames m payload) (rest : Bytes) :
    readMessage allowAll (frameOf payload ++ rest) = .ok (m, rest) := by
  rw [readMessage, readFrame_frameOf h.le_max]
  show mapErr FrameIoError.codec (decode fromSlice (frameOf payload) allowAll) >>= _ = _
  rw [h.decodes]
  rfl

/-- **One encoding is one frame.**  A message that can be encoded appends the same frame
    to every buffer, and the frame decodes to the message. -/
theorem encode_frame (htext : ReadsBack text) {m : Message} {out out' : Bytes}
    (h : encode toVec m out = .ok out') :
    ∃ payload, Frames m payload ∧ ∀ out, encode toVec m out = .ok (out ++ frameOf payload) := by
  obtain ⟨header, hprint, hhdr, hmax, -⟩ := encode_ok_iff.mp h
  have hlen : (toBe 2 header.length ++ (header ++ messageBody m)).length =
      2 + header.length + (messageBody m).length := by
    rw [List.length_append, List.length_append, length_toBe, Nat.add_assoc]
  -- The payload is made of the message alone, whatever is in the buffer.
  refine ⟨toBe 2 header.length ++ (header ++ messageBody m), ⟨hlen.trans_le hmax, ?_⟩,
    fun out => encode_ok_iff.mpr ⟨header, hprint, hhdr, hmax, ?_⟩⟩
  · refine decode_allowAll_iff.mpr ⟨header, messageBody m, [], setBody m [], ⟨?_, hmax, hhdr⟩,
      fromSlice_toVec htext hprint, messageBody_carried m, (setBody_messageBody m).symm⟩
    rw [frameOf, hlen]
    simp only [List.append_assoc, List.append_nil]
  · rw [frameOf, hlen]
    simp only [List.append_assoc]

/-- A list of encodings is a list of frames. -/
theorem encodeAll_frames (htext : ReadsBack text) {ms : List Message}
    (h : ∀ m ∈ ms, ∃ out out', encode toVec m out = .ok out') :
    ∃ payloads, List.Forall₂ Frames ms payloads ∧
      ∀ out, encodeAll ms out = .ok (out ++ (payloads.map frameOf).flatten) := by
  induction ms with
  | nil =>
      refine ⟨[], .nil, fun out => ?_⟩
      rw [List.map_nil, List.flatten_nil, List.append_nil]
      rfl
  | cons m ms ih =>
      obtain ⟨⟨out₀, out₁, hm⟩, hms⟩ := List.forall_mem_cons.mp h
      obtain ⟨payload, hframe, hencode⟩ := encode_frame htext hm
      obtain ⟨payloads, hframes, hall⟩ := ih hms
      refine ⟨payload :: payloads, .cons hframe hframes, fun out => ?_⟩
      show encode toVec m out >>= (fun out => encodeAll ms out) = _
      rw [hencode out]
      show encodeAll ms (out ++ frameOf payload) = _
      rw [hall, List.map_cons, List.flatten_cons, List.append_assoc]

/-- A list that was encoded was encoded message by message. -/
theorem encodeAll_each {ms : List Message} {out wire : Bytes}
    (h : encodeAll ms out = .ok wire) : ∀ m ∈ ms, ∃ out out', encode toVec m out = .ok out' := by
  induction ms generalizing out with
  | nil => exact fun m hm => absurd hm List.not_mem_nil
  | cons m ms ih =>
      change (encode toVec m out).bind (fun out => encodeAll ms out) = .ok wire at h
      cases hm : encode toVec m out with
      | error e =>
          rw [hm] at h
          cases h
      | ok out' =>
          rw [hm] at h
          exact List.forall_mem_cons.mpr ⟨⟨out, out', hm⟩, ih h⟩

/-- Frames are read one after another until none is left. -/
theorem readAll_frames {ms : List Message} {payloads : List Bytes}
    (h : List.Forall₂ Frames ms payloads) :
    readAll allowAll (payloads.map frameOf).flatten = .ok ms := by
  induction h with
  | nil =>
      rw [List.map_nil, List.flatten_nil, readAll, if_pos rfl]
      rfl
  | @cons m payload ms payloads hframe _ ih =>
      have hread := readMessage_frameOf hframe (payloads.map frameOf).flatten
      rw [List.map_cons, List.flatten_cons, readAll, if_neg (frameOf_ne_nil _ _)]
      split
      · next e he =>
          rw [hread] at he
          cases he
      · next m' rest he =>
          rw [hread] at he
          obtain ⟨rfl, rfl⟩ := Prod.mk.inj (Except.ok.inj he)
          rw [ih]
          rfl

/-- **THE STREAM ROUND TRIP.**  Encode any messages that can be encoded one after another,
    then read messages until no byte is left: the same list comes back. -/
theorem stream_round_trip (htext : ReadsBack text) (ms : List Message)
    (h : ∀ m ∈ ms, ∃ out out', encode toVec m out = .ok out') :
    ∃ wire, encodeAll ms [] = .ok wire ∧ readAll allowAll wire = .ok ms := by
  obtain ⟨payloads, hframes, hall⟩ := encodeAll_frames htext h
  exact ⟨(payloads.map frameOf).flatten, hall [], readAll_frames hframes⟩

end

section

local instance : Base64Engine := urlSafeNoPad

local instance : JsonText := compactJson

/-- A submit with a body, a progress note and a completion with a body. -/
theorem stream_round_trip_three :
    ∃ wire, encodeAll [.submit taskOne oneSecond plain none [1, 2], .progress, .completed [7]] [] =
        .ok wire ∧
      readAll allowAll wire =
        .ok [.submit taskOne oneSecond plain none [1, 2], .progress, .completed [7]] := by
  refine stream_round_trip compactJson_readsBack _ fun m hm => ⟨[], ?_⟩
  simp only [List.mem_cons, List.not_mem_nil, or_false] at hm
  rcases hm with rfl | rfl | rfl <;> exact ⟨_, rfl⟩

end

end UatStream
