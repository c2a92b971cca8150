import Uat.Stream

/-! # Reading frames as the bytes arrive

    `read_frame` as the future it is: between polls it holds the bytes its current
    `read_exact` has taken off the stream, and a poll takes what has arrived.  Dropping
    the future drops those bytes with it.

    `pollFrame_eq` relates the future to `readFrame`: a poll does what `readFrame` does
    on the bytes the future holds followed by those that have arrived, and waits where
    `readFrame` finds the stream too short. -/

namespace UatRecvStream

open UatTypes UatCodec UatHeader UatStream Checked Positional

/-- How the stream ended after the bytes that arrived. -/
inductive StreamEnd where
  | finished
  | lost
  deriving DecidableEq, Repr

/-- The receiving half of a stream: the bytes that arrived and were not yet read. -/
structure RecvStream where
  arrived : Bytes
  ended : Option StreamEnd
  deriving DecidableEq

/-- One poll of a future: either it waits in a new state, or it is done. -/
inductive Poll (σ α : Type) where
  | pending (state : σ)
  | ready (value : α)

/-- The bytes `read_exact` has put into its buffer, and the stream after a poll. -/
def pollReadExact (n : Nat) (got : Bytes) (recv : RecvStream) :
    Poll Bytes (Exec ReadExactError Bytes) × RecvStream :=
  let need := n - got.length
  let got := got ++ recv.arrived.take need
  let recv := { recv with arrived := recv.arrived.drop need }
  if got.length = n then (.ready (.ok got), recv)
  else
    match recv.ended with
    | none => (.pending got, recv)
    | some .finished => (.ready (fail (.finishedEarly got.length)), recv)
    | some .lost => (.ready (fail .readError), recv)

/-- Where `read_frame` is suspended. -/
inductive ReadFrame where
  | readLen (got : Bytes)
  | readPayload (lenBuf got : Bytes)
  deriving DecidableEq

/-- The future before its first poll. -/
def ReadFrame.fresh : ReadFrame := .readLen []

/-- The bytes that are lost when the future is dropped. -/
def ReadFrame.held : ReadFrame → Bytes
  | .readLen got => got
  | .readPayload lenBuf got => lenBuf ++ got

/-- Poll the second half of `read_frame`. -/
def pollPayload (lenBuf got : Bytes) (recv : RecvStream) :
    Poll ReadFrame (Exec FrameIoError Bytes) × RecvStream :=
  match pollReadExact (fromBe lenBuf) got recv with
  | (.pending got, recv) => (.pending (.readPayload lenBuf got), recv)
  | (.ready r, recv) => (.ready ((mapErr mapReadExact r).map (lenBuf ++ ·)), recv)

/-- Poll `read_frame`. -/
def pollFrame (read : ReadFrame) (recv : RecvStream) :
    Poll ReadFrame (Exec FrameIoError Bytes) × RecvStream :=
  match read with
  | .readLen got =>
      match pollReadExact 4 got recv with
      | (.pending got, recv) => (.pending (.readLen got), recv)
      | (.ready (.ok lenBuf), recv) =>
          if fromBe lenBuf > maxFrame then (.ready (fail (.codec .frameTooLarge)), recv)
          else pollPayload lenBuf [] recv
      | (.ready (.error fault), recv) => (.ready (mapErr mapReadExact (.error fault)), recv)
  | .readPayload lenBuf got => pollPayload lenBuf got recv

/-- The buffers are not full: what a pending future looks like. -/
def ReadFrame.Partial : ReadFrame → Prop
  | .readLen got => got.length ≤ 4
  | .readPayload lenBuf got =>
      lenBuf.length = 4 ∧ fromBe lenBuf ≤ maxFrame ∧ got.length ≤ fromBe lenBuf

/-- A poll looks at the bytes it holds and those that arrived as one string. -/
theorem pollReadExact_eq {n : Nat} {got : Bytes} {recv : RecvStream} (h : got.length ≤ n) :
    pollReadExact n got recv =
      if n ≤ (got ++ recv.arrived).length then
        (.ready (.ok ((got ++ recv.arrived).take n)),
          { recv with arrived := (got ++ recv.arrived).drop n })
      else
        match recv.ended with
        | none => (.pending (got ++ recv.arrived), { recv with arrived := [] })
        | some .finished =>
            (.ready (fail (.finishedEarly (got ++ recv.arrived).length)),
              { recv with arrived := [] })
        | some .lost => (.ready (fail .readError), { recv with arrived := [] }) := by
  have htake : got ++ recv.arrived.take (n - got.length) = (got ++ recv.arrived).take n := by
    rw [List.take_append, List.take_of_length_le h]
  have hdrop : recv.arrived.drop (n - got.length) = (got ++ recv.arrived).drop n := by
    rw [List.drop_append, List.drop_of_length_le h, List.nil_append]
  rw [pollReadExact, htake, hdrop]
  by_cases hn : n ≤ (got ++ recv.arrived).length
  · rw [if_pos (by rw [List.length_take]; omega), if_pos hn]
  · have hshort : (got ++ recv.arrived).length ≤ n := by omega
    rw [List.take_of_length_le hshort, List.drop_of_length_le hshort, if_neg (by omega), if_neg hn]

/-- The future that has taken `bs` off the stream and waits for more. -/
def resume (bs : Bytes) : ReadFrame :=
  if bs.length < 4 then .readLen bs else .readPayload (bs.take 4) (bs.drop 4)

/-- What a poll does when the bytes so far are not a whole frame. -/
def awaitMore (bs : Bytes) (recv : RecvStream) :
    Poll ReadFrame (Exec FrameIoError Bytes) × RecvStream :=
  match recv.ended with
  | none => (.pending (resume bs), { recv with arrived := [] })
  | some .finished => (.ready (fail .unexpectedEnd), { recv with arrived := [] })
  | some .lost => (.ready (fail (.read .readError)), { recv with arrived := [] })

/-- `readFrame` on the bytes so far, waiting where they are too few. -/
def pollBytes (bs : Bytes) (recv : RecvStream) :
    Poll ReadFrame (Exec FrameIoError Bytes) × RecvStream :=
  match readFrame bs with
  | .ok (frame, rest) => (.ready (.ok frame), { recv with arrived := rest })
  | .error fault =>
      if fault = .err .unexpectedEnd then awaitMore bs recv
      else (.ready (.error fault), { recv with arrived := bs.drop 4 })

theorem readFrame_short {bs : Bytes} (h : bs.length < 4) :
    readFrame bs = fail .unexpectedEnd := by
  rw [readFrame, readExact, if_neg (not_le.mpr h)]
  rfl

/-- With four length bytes there, the rest is the payload's `read_exact`. -/
theorem readFrame_lenBuf {lenBuf : Bytes} (h4 : lenBuf.length = 4) (bs : Bytes) :
    readFrame (lenBuf ++ bs) =
      if fromBe lenBuf > maxFrame then fail (.codec .frameTooLarge)
      else if fromBe lenBuf ≤ bs.length then
        .ok (lenBuf ++ bs.take (fromBe lenBuf), bs.drop (fromBe lenBuf))
      else fail .unexpectedEnd := by
  have hlen := readExact_append lenBuf bs
  rw [h4] at hlen
  rw [readFrame, hlen]
  show (if fromBe lenBuf > maxFrame then _ else _) = _
  by_cases hmax : fromBe lenBuf > maxFrame
  · rw [if_pos hmax, if_pos hmax]
  · rw [if_neg hmax, if_neg hmax, readExact]
    by_cases hbs : fromBe lenBuf ≤ bs.length
    · rw [if_pos hbs, if_pos hbs]
      rfl
    · rw [if_neg hbs, if_neg hbs]
      rfl

theorem pollPayload_eq {lenBuf got : Bytes} {recv : RecvStream} (h4 : lenBuf.length = 4)
    (hmax : fromBe lenBuf ≤ maxFrame) (hgot : got.length ≤ fromBe lenBuf) :
    pollPayload lenBuf got recv = pollBytes (lenBuf ++ (got ++ recv.arrived)) recv := by
  rw [pollPayload, pollReadExact_eq hgot, pollBytes, readFrame_lenBuf h4,
    if_neg (not_lt.mpr hmax)]
  by_cases hbs : fromBe lenBuf ≤ (got ++ recv.arrived).length
  · rw [if_pos hbs, if_pos hbs]
    rfl
  · have hresume : resume (lenBuf ++ (got ++ recv.arrived)) =
        .readPayload lenBuf (got ++ recv.arrived) := by
      rw [resume, if_neg (by rw [List.length_append]; omega), ← h4, List.take_left,
        List.drop_left]
    rw [if_neg hbs, if_neg hbs]
    show _ = awaitMore _ _
    rw [awaitMore, hresume]
    rcases recv.ended with _ | _ | _ <;> rfl

/-- **Polling in pieces reads the whole.**  A poll does what `readFrame` does on the bytes
    the future holds and those that arrived, and waits where they are too few. -/
theorem pollFrame_eq {read : ReadFrame} (h : read.Partial) (recv : RecvStream) :
    pollFrame read recv = pollBytes (read.held ++ recv.arrived) recv := by
  cases read with
  | readPayload lenBuf got =>
      obtain ⟨h4, hmax, hgot⟩ := h
      rw [ReadFrame.held, List.append_assoc]
      exact pollPayload_eq h4 hmax hgot
  | readLen got =>
      have hgot : got.length ≤ 4 := h
      rw [pollFrame, ReadFrame.held, pollReadExact_eq hgot]
      -- With four length bytes here the future goes on to the payload in the same poll.
      by_cases h4 : 4 ≤ (got ++ recv.arrived).length
      · have htake : ((got ++ recv.arrived).take 4).length = 4 := by
          rw [List.length_take]
          omega
        have hsplit := readFrame_lenBuf htake ((got ++ recv.arrived).drop 4)
        rw [List.take_append_drop] at hsplit
        rw [if_pos h4]
        dsimp only
        by_cases hmax : fromBe ((got ++ recv.arrived).take 4) > maxFrame
        · rw [if_pos hmax] at hsplit ⊢
          rw [pollBytes, hsplit]
          rfl
        · rw [if_neg hmax, pollPayload_eq htake (not_lt.mp hmax) (Nat.zero_le _), List.nil_append,
            List.take_append_drop]
          rfl
      · rw [if_neg h4, pollBytes, readFrame_short (not_le.mp h4)]
        show _ = awaitMore _ _
        rw [awaitMore, resume, if_pos (not_le.mp h4)]
        rcases recv.ended with _ | _ | _ <;> rfl

/-! ## On a stream of frames -/

/-- A future that waits has lost nothing of what it took. -/
theorem resume_spec {bs : Bytes} (h : readFrame bs = fail .unexpectedEnd) :
    (resume bs).held = bs ∧ (resume bs).Partial := by
  rw [resume]
  by_cases h4 : bs.length < 4
  · rw [if_pos h4]
    exact ⟨rfl, show bs.length ≤ 4 from Nat.le_of_lt h4⟩
  · have htake : (bs.take 4).length = 4 := by
      rw [List.length_take]
      omega
    have hsplit := readFrame_lenBuf htake (bs.drop 4)
    rw [List.take_append_drop, h] at hsplit
    rw [if_neg h4]
    -- Four bytes and still too few: the length is allowed, and not all of it is here.
    refine ⟨List.take_append_drop 4 bs, htake, ?_, ?_⟩
    · by_contra hmax
      rw [if_pos (not_le.mp hmax)] at hsplit
      cases hsplit
    · by_contra hlong
      by_cases hmax : fromBe (bs.take 4) > maxFrame
      · rw [if_pos hmax] at hsplit
        cases hsplit
      · rw [if_neg hmax, if_pos (Nat.le_of_lt (not_le.mp hlong))] at hsplit
        cases hsplit

/-- A frame that was polled is one that `readFrame` reads. -/
theorem pollFrame_ready {read : ReadFrame} {recv recv' : RecvStream} {frame : Bytes}
    (h : read.Partial) (hpoll : pollFrame read recv = (.ready (.ok frame), recv')) :
    ∃ rest, readFrame (read.held ++ recv.arrived) = .ok (frame, rest) := by
  rw [pollFrame_eq h, pollBytes] at hpoll
  cases hread : readFrame (read.held ++ recv.arrived) with
  | ok r =>
      rw [hread] at hpoll
      obtain ⟨hframe, -⟩ := Prod.mk.inj hpoll
      cases hframe
      exact ⟨r.2, rfl⟩
  | error fault =>
      rw [hread] at hpoll
      dsimp only at hpoll
      split at hpoll
      · rw [awaitMore] at hpoll
        split at hpoll <;> cases (Prod.mk.inj hpoll).1
      · cases (Prod.mk.inj hpoll).1

/-- A poll that waits has moved bytes from the stream to the future. -/
theorem pollFrame_pending {read read' : ReadFrame} {recv recv' : RecvStream} (h : read.Partial)
    (hpoll : pollFrame read recv = (.pending read', recv')) :
    read'.Partial ∧ read'.held ++ recv'.arrived = read.held ++ recv.arrived := by
  rw [pollFrame_eq h, pollBytes] at hpoll
  cases hread : readFrame (read.held ++ recv.arrived) with
  | ok r =>
      rw [hread] at hpoll
      cases (Prod.mk.inj hpoll).1
  | error fault =>
      rw [hread] at hpoll
      dsimp only at hpoll
      by_cases hshort : fault = .err .unexpectedEnd
      · rw [hshort] at hread
        rw [if_pos hshort, awaitMore] at hpoll
        obtain ⟨hheld, hpart⟩ := resume_spec hread
        cases hended : recv.ended with
        | none =>
            rw [hended] at hpoll
            obtain ⟨hread', rfl⟩ := Prod.mk.inj hpoll
            obtain rfl := Poll.pending.inj hread'
            exact ⟨hpart, by rw [hheld, List.append_nil]⟩
        | some e =>
            rw [hended] at hpoll
            cases e <;> cases (Prod.mk.inj hpoll).1
      · rw [if_neg hshort] at hpoll
        cases (Prod.mk.inj hpoll).1

/-- A frame cut short is no frame yet. -/
theorem readFrame_cut {payload bs missing : Bytes} (h : payload.length ≤ maxFrame)
    (hbs : bs ++ missing = frameOf payload) (hmissing : missing ≠ []) :
    readFrame bs = fail .unexpectedEnd := by
  by_cases h4 : bs.length < 4
  · exact readFrame_short h4
  · have hlen : (toBe 4 payload.length).length = 4 := length_toBe 4 _
    -- All four length bytes are here, so the cut is behind them.
    obtain ⟨bs', rfl, hpayload⟩ : ∃ bs', bs = toBe 4 payload.length ++ bs' ∧
        bs' ++ missing = payload := by
      rcases List.append_eq_append_iff.mp hbs with ⟨as, hlenBuf, hrest⟩ | ⟨as, hbs, hrest⟩
      · have hnil : as = [] := by
          have := congrArg List.length hlenBuf
          rw [List.length_append] at this
          exact List.length_eq_zero_iff.mp (by omega)
        subst hnil
        exact ⟨[], by rw [hlenBuf, List.append_nil, List.append_nil], hrest⟩
      · exact ⟨as, hbs, hrest.symm⟩
    have hfit : fromBe (toBe 4 payload.length) = payload.length :=
      fromBe_toBe (lt_of_le_of_lt h (by decide))
    have hshort : ¬ payload.length ≤ bs'.length := by
      have hsum := congrArg List.length hpayload
      have hpos := List.length_pos_iff.mpr hmissing
      rw [List.length_append] at hsum
      omega
    rw [readFrame_lenBuf hlen, hfit, if_neg (not_lt.mpr h), if_neg hshort]

/-- A part of a stream that starts with a frame either has the frame or is too short. -/
theorem readFrame_part {payload bs later rest : Bytes} (h : payload.length ≤ maxFrame)
    (hbs : bs ++ later = frameOf payload ++ rest) :
    (∃ rest', readFrame bs = .ok (frameOf payload, rest') ∧ rest' ++ later = rest) ∨
      (readFrame bs = fail .unexpectedEnd ∧ ∃ missing, missing ≠ [] ∧
        missing ++ rest = later) := by
  -- The part ends inside the frame, or at its end or behind it.
  rcases List.append_eq_append_iff.mp hbs with ⟨missing, hframe, hlater⟩ | ⟨rest', hbs', hrest⟩
  · by_cases hnil : missing = []
    · subst hnil
      rw [List.append_nil] at hframe
      refine Or.inl ⟨[], ?_, hlater.trans (List.nil_append rest)⟩
      have hread := readFrame_frameOf h []
      rw [List.append_nil] at hread
      rw [← hframe]
      exact hread
    · exact Or.inr ⟨readFrame_cut h hframe.symm hnil, missing, hnil, hlater.symm⟩
  · exact Or.inl ⟨rest', by rw [hbs', readFrame_frameOf h], hrest.symm⟩

section

variable [Base64Engine] [text : JsonText]

/-- Poll `read_message(recv, &AllowAll)`. -/
def pollMessage (read : ReadFrame) (recv : RecvStream) :
    Poll ReadFrame (Exec FrameIoError Message) × RecvStream :=
  match pollFrame read recv with
  | (.pending read, recv) => (.pending read, recv)
  | (.ready r, recv) =>
      (.ready (r.bind fun frame => mapErr .codec (decode fromSlice frame allowAll)), recv)

/-- What a poll does on a stream that carries the frames of `ms`, of which the bytes
    `later` are still to arrive. -/
inductive PollsFrames (ms : List Message) (later bs : Bytes) (recv : RecvStream) :
    Poll ReadFrame (Exec FrameIoError Message) × RecvStream → Prop where
  | message {m : Message} {ms' : List Message} {payloads : List Bytes} {arrived : Bytes}
      (hms : ms = m :: ms') (hframes : List.Forall₂ Frames ms' payloads)
      (hbytes : arrived ++ later = (payloads.map frameOf).flatten) :
      PollsFrames ms later bs recv (.ready (.ok m), { recv with arrived := arrived })
  | waits {read : ReadFrame} (hopen : recv.ended = none) (hpart : read.Partial)
      (hheld : read.held = bs) :
      PollsFrames ms later bs recv (.pending read, { recv with arrived := [] })
  | finished (hended : recv.ended = some .finished) (hlast : later = [] → ms = []) :
      PollsFrames ms later bs recv (.ready (fail .unexpectedEnd), { recv with arrived := [] })
  | lost (hended : recv.ended = some .lost) :
      PollsFrames ms later bs recv
        (.ready (fail (.read .readError)), { recv with arrived := [] })

/-- Waiting for more, on a stream of frames of which `bs` is not a whole one. -/
theorem awaitMore_pollsFrames {ms : List Message} {later bs : Bytes} {read : ReadFrame}
    {recv : RecvStream} (hpoll : pollFrame read recv = awaitMore bs recv)
    (hshort : readFrame bs = fail .unexpectedEnd) (hlast : later = [] → ms = []) :
    PollsFrames ms later bs recv (pollMessage read recv) := by
  obtain ⟨hheld, hpart⟩ := resume_spec hshort
  rw [pollMessage, hpoll, awaitMore]
  obtain ⟨arrived, ended⟩ := recv
  rcases ended with _ | _ | _
  · exact .waits rfl hpart hheld
  · exact .finished rfl hlast
  · exact .lost rfl

/-- **A reader that kept its bytes reads the next message**, or waits for it. -/
theorem pollMessage_frames {ms : List Message} {payloads : List Bytes} {read : ReadFrame}
    {recv : RecvStream} {later : Bytes} (hread : read.Partial)
    (hframes : List.Forall₂ Frames ms payloads)
    (hbytes : read.held ++ recv.arrived ++ later = (payloads.map frameOf).flatten) :
    PollsFrames ms later (read.held ++ recv.arrived) recv (pollMessage read recv) := by
  have hpoll := pollFrame_eq hread recv
  cases hframes with
  | nil =>
      have hnil : read.held ++ recv.arrived = [] := (List.append_eq_nil_iff.mp hbytes).1
      have hshort : readFrame (read.held ++ recv.arrived) = fail .unexpectedEnd :=
        readFrame_short (by rw [hnil]; exact Nat.zero_lt_succ 3)
      rw [pollBytes, hshort] at hpoll
      exact awaitMore_pollsFrames hpoll hshort fun _ => rfl
  | @cons m payload ms payloads hframe hframes =>
      rw [List.map_cons, List.flatten_cons] at hbytes
      rcases readFrame_part hframe.le_max hbytes with
        ⟨rest, hok, hrest⟩ | ⟨hshort, missing, hmissing, hlater⟩
      · rw [pollBytes, hok] at hpoll
        rw [pollMessage, hpoll]
        show PollsFrames _ _ _ _ (.ready (mapErr .codec (decode fromSlice _ allowAll)), _)
        rw [hframe.decodes]
        exact .message rfl hframes hrest
      · rw [pollBytes, hshort] at hpoll
        -- What is missing is still to come, so the stream is not at its end.
        refine awaitMore_pollsFrames hpoll hshort fun hnil => absurd ?_ hmissing
        rw [hnil] at hlater
        exact (List.append_eq_nil_iff.mp hlater).1

end

end UatRecvStream
