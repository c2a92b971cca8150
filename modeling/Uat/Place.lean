import Uat.Verify
import Uat.Wire

/-! # The reader's place in a stream of frames

    `Wire` says what a reader can have in front of it when its read future may be dropped
    at any moment.  Where at most one future is dropped inside a frame more can be said:
    the reader either stands at the start of a frame, with the messages of the queue still
    to read in their order, or it has lost its place, for good.

    - `Place q k missing bytes` is a reader `k` bytes inside the first frame of the queue `q`.
    - `pollFrame_place` is one poll: at the start of a frame it takes the first frame of the
      queue or waits, anywhere else it takes none.
    - `Place.lose` and `Place.loseAgain` are the drop of a future that waits. -/

namespace UatPlace

open UatTypes UatVerify UatCodec UatHeader UatStream UatRecvStream Checked
open UatWire

/-- The future waits: what it has taken off the stream is no frame yet. -/
structure Waits (read : ReadFrame) : Prop where
  part : read.Partial
  short : readFrame read.held = fail .unexpectedEnd

theorem waits_fresh : Waits .fresh := ⟨Nat.zero_le 4, rfl⟩

/-- What waits is shorter than the frame it is a part of. -/
theorem held_lt {held later payload rest : Bytes} (h : payload.length ≤ maxFrame)
    (hshort : readFrame held = fail .unexpectedEnd)
    (hbytes : held ++ later = frameOf payload ++ rest) :
    held.length < (frameOf payload).length := by
  rcases readFrame_part h hbytes with ⟨rest', hok, -⟩ | ⟨-, missing, hmissing, hlater⟩
  · cases hok.symm.trans hshort
  · have hlen := congrArg List.length hbytes
    have hpos := List.length_pos_iff.mpr hmissing
    rw [List.length_append, List.length_append, ← hlater, List.length_append] at hlen
    omega

section

variable [Base64Engine] [text : JsonText]

/-- A frame of a call: all but that of the `Submit` are short. -/
structure CallFrame (m : Message) (payload : Bytes) : Prop extends Frames m payload where
  said : isSubmit m = false → SaidFrame m payload

theorem callFrame_of_said {m : Message} {payload : Bytes} (h : SaidFrame m payload) :
    CallFrame m payload := ⟨h.toFrames, fun _ => h⟩

theorem saidFrames {q : List Message} {payloads : List Bytes}
    (h : List.Forall₂ CallFrame q payloads) (hq : ∀ m ∈ q, isSubmit m = false) :
    List.Forall₂ SaidFrame q payloads := by
  induction h with
  | nil => exact .nil
  | cons hframe _ ih =>
      obtain ⟨hm, hq⟩ := List.forall_mem_cons.mp hq
      exact .cons (hframe.said hm) (ih hq)

/-- A reader in front of the frames of `q`: `bytes` are there or on their way, `missing` is
    not put yet.  A reader that has lost its place stands inside the first frame. -/
structure Place (q : List Message) (k : Nat) (missing bytes : Bytes) : Prop where
  frames : ∃ payloads, List.Forall₂ CallFrame q payloads ∧
    bytes ++ missing = ((payloads.map frameOf).flatten).drop k ∧
    (0 < k → ∃ payload rest, payloads = payload :: rest ∧ k < (frameOf payload).length)
  lost : 0 < k → ∀ m ∈ q, isSubmit m = false

variable {q : List Message} {k : Nat} {missing bytes : Bytes}

/-- Nothing in the queue, nothing in front of the reader. -/
theorem place_nil : Place [] 0 [] [] :=
  ⟨⟨[], .nil, rfl, fun hk => absurd hk (Nat.lt_irrefl 0)⟩, fun hk => absurd hk (Nat.lt_irrefl 0)⟩

/-- Bytes move from what is missing to what is there. -/
theorem Place.more {missing' bytes' : Bytes} (h : Place q k missing bytes)
    (hsame : bytes' ++ missing' = bytes ++ missing) : Place q k missing' bytes' := by
  obtain ⟨payloads, hframes, hbytes, hin⟩ := h.frames
  exact ⟨⟨payloads, hframes, hsame.trans hbytes, hin⟩, h.lost⟩

/-- A message joins the queue, and its frame what is missing. -/
theorem Place.push {m : Message} {payload : Bytes} (h : Place q k [] bytes)
    (hframe : CallFrame m payload) (hm : 0 < k → isSubmit m = false) :
    Place (q ++ [m]) k (frameOf payload) bytes := by
  obtain ⟨payloads, hframes, hbytes, hlost⟩ := h.frames
  have hflat : ((payloads ++ [payload]).map frameOf).flatten =
      (payloads.map frameOf).flatten ++ frameOf payload := by
    rw [List.map_append, List.flatten_append]
    simp
  have hk : k ≤ ((payloads.map frameOf).flatten).length := by
    rcases Nat.eq_zero_or_pos k with rfl | hpos
    · exact Nat.zero_le _
    · obtain ⟨first, rest, rfl, hin⟩ := hlost hpos
      rw [List.map_cons, List.flatten_cons, List.length_append]
      omega
  refine ⟨⟨payloads ++ [payload], List.rel_append hframes (.cons hframe .nil), ?_, ?_⟩, ?_⟩
  · rw [hflat, List.drop_append_of_le_length hk, ← hbytes, List.append_nil]
  · intro hpos
    obtain ⟨first, rest, rfl, hin⟩ := hlost hpos
    exact ⟨first, rest ++ [payload], rfl, hin⟩
  · intro hpos
    exact List.forall_mem_append.mpr
      ⟨h.lost hpos, List.forall_mem_singleton.mpr (hm hpos)⟩

/-- **The drop of a future that waits.**  It had taken nothing, or the reader has lost its
    place. -/
theorem Place.lose {held : Bytes} (h : Place q 0 missing (held ++ bytes))
    (hshort : readFrame held = fail .unexpectedEnd) (hq : ∀ m ∈ q, isSubmit m = false) :
    Place q held.length missing bytes := by
  obtain ⟨payloads, hframes, hbytes, -⟩ := h.frames
  rw [List.drop_zero, List.append_assoc] at hbytes
  refine ⟨⟨payloads, hframes, ?_, fun hpos => ?_⟩, fun _ => hq⟩
  · rw [← hbytes, List.drop_left]
  · cases hframes with
    | nil =>
        have hnil : held = [] := (List.append_eq_nil_iff.mp hbytes).1
        rw [hnil] at hpos
        exact absurd hpos (Nat.lt_irrefl 0)
    | @cons m payload ms payloads hframe hframes =>
        rw [List.map_cons, List.flatten_cons] at hbytes
        exact ⟨payload, payloads, rfl, held_lt hframe.le_max hshort hbytes⟩

/-- Of the queue a reader that loses its place more than once may have nothing left. -/
theorem Place.loseAgain {held : Bytes} (h : Place q k missing (held ++ bytes))
    (hshort : readFrame held = fail .unexpectedEnd) (hone : q.length ≤ 1)
    (hq : ∀ m ∈ q, isSubmit m = false) :
    ∃ q' k', (q' = q ∨ q' = []) ∧ Place q' k' missing bytes := by
  rcases Nat.eq_zero_or_pos k with rfl | hpos
  · exact ⟨q, held.length, Or.inl rfl, h.lose hshort hq⟩
  obtain ⟨payloads, hframes, hbytes, hin⟩ := h.frames
  obtain ⟨payload, rest, rfl, hlt⟩ := hin hpos
  cases hframes with
  | @cons m _ ms _ hframe hframes =>
      have hnone : ms.length = 0 := Nat.le_zero.mp (Nat.le_of_succ_le_succ hone)
      obtain rfl : ms = [] := List.length_eq_zero_iff.mp hnone
      cases hframes
      simp only [List.map_cons, List.map_nil, List.flatten_cons, List.flatten_nil,
        List.append_nil] at hbytes
      have hdrop : bytes ++ missing = (frameOf payload).drop (k + held.length) := by
        rw [← List.drop_drop, ← hbytes, List.append_assoc, List.drop_left]
      by_cases hmore : k + held.length < (frameOf payload).length
      · refine ⟨[m], k + held.length, Or.inl rfl, ⟨⟨[payload], .cons hframe .nil, ?_,
          fun _ => ⟨payload, [], rfl, hmore⟩⟩, fun _ => hq⟩⟩
        simp only [List.map_cons, List.map_nil, List.flatten_cons, List.flatten_nil,
          List.append_nil]
        exact hdrop
      · -- The frame has been lost to its last byte.
        rw [List.drop_of_length_le (not_lt.mp hmore)] at hdrop
        obtain ⟨rfl, rfl⟩ := List.append_eq_nil_iff.mp hdrop
        exact ⟨[], 0, Or.inr rfl, place_nil⟩

/-- What one poll for a frame makes of the place. -/
inductive TakesFrame (q : List Message) (k : Nat) (missing later : Bytes) :
    Poll ReadFrame (Exec FrameIoError Bytes) × RecvStream → Prop where
  | frame {m : Message} {q' : List Message} {payload : Bytes} {recv : RecvStream} (hq : q = m :: q')
      (hk : k = 0) (hframe : CallFrame m payload)
      (hplace : Place q' 0 missing (recv.arrived ++ later)) :
      TakesFrame q k missing later (.ready (.ok (frameOf payload)), recv)
  | waits {read : ReadFrame} {recv : RecvStream} (hwaits : Waits read)
      (hplace : Place q k missing (read.held ++ recv.arrived ++ later)) :
      TakesFrame q k missing later (.pending read, recv)
  | fails (fault : Fault FrameIoError) (recv : RecvStream) :
      TakesFrame q k missing later (.ready (.error fault), recv)

/-- What one poll for a message makes of it. -/
inductive Takes (q : List Message) (k : Nat) (missing later : Bytes) :
    Poll ReadFrame (Exec FrameIoError Message) × RecvStream → Prop where
  | message {m : Message} {q' : List Message} {recv : RecvStream} (hq : q = m :: q') (hk : k = 0)
      (hplace : Place q' 0 missing (recv.arrived ++ later)) :
      Takes q k missing later (.ready (.ok m), recv)
  | waits {read : ReadFrame} {recv : RecvStream} (hwaits : Waits read)
      (hplace : Place q k missing (read.held ++ recv.arrived ++ later)) :
      Takes q k missing later (.pending read, recv)
  | fails (fault : Fault FrameIoError) (recv : RecvStream) :
      Takes q k missing later (.ready (.error fault), recv)

/-- A frame that is read is the first of the queue, read from its start. -/
theorem Place.frame {bs later : Bytes} {r : Bytes × Bytes} (hbudget : q.length ≤ 3)
    (h : Place q k missing (bs ++ later)) (hread : readFrame bs = .ok r) :
    k = 0 ∧ ∃ m q' payload, q = m :: q' ∧ CallFrame m payload ∧ r.1 = frameOf payload ∧
      Place q' 0 missing (r.2 ++ later) := by
  obtain ⟨payloads, hframes, hbytes, hlost⟩ := h.frames
  rw [List.append_assoc] at hbytes
  rcases Nat.eq_zero_or_pos k with rfl | hpos
  · refine ⟨rfl, ?_⟩
    rw [List.drop_zero] at hbytes
    cases hframes with
    | nil =>
        rw [(List.append_eq_nil_iff.mp hbytes).1] at hread
        cases hread
    | @cons m payload ms payloads hframe hframes =>
        rw [List.map_cons, List.flatten_cons] at hbytes
        rcases readFrame_part hframe.le_max hbytes with ⟨rest, hok, hrest⟩ | ⟨hshort, -⟩
        · obtain rfl := Except.ok.inj (hread.symm.trans hok)
          have hzero : ∀ {P : Prop}, 0 < 0 → P := fun hk => absurd hk (Nat.lt_irrefl 0)
          refine ⟨m, ms, payload, rfl, hframe, rfl, ⟨payloads, hframes, ?_, hzero⟩, hzero⟩
          rw [List.append_assoc]
          exact hrest
        · cases hread.symm.trans hshort
  · -- Inside a frame there is nothing to read.
    obtain ⟨payload, rest, rfl, hin⟩ := hlost hpos
    have hsaids := saidFrames hframes (h.lost hpos)
    have hlen := length_frames_le hsaids
    cases hsaids with
    | @cons m _ ms _ hsaid hsaids =>
        rw [List.map_cons, List.flatten_cons] at hbytes hlen
        rw [List.drop_append_of_le_length (Nat.le_of_lt hin)] at hbytes
        refine absurd hread (no_frame_inside hsaid hpos hin hbytes ?_ r)
        rw [List.length_append, List.length_drop]
        rw [List.length_append] at hlen
        omega

/-- **One poll.**  A reader at the start of a frame takes the first frame of the queue or
    waits for the rest of it; a reader inside a frame takes nothing. -/
theorem pollFrame_place {read : ReadFrame} {recv : RecvStream} {later : Bytes}
    (hwaits : Waits read) (hbudget : q.length ≤ 3)
    (h : Place q k missing (read.held ++ recv.arrived ++ later)) :
    TakesFrame q k missing later (pollFrame read recv) := by
  rw [pollFrame_eq hwaits.part, pollBytes]
  cases hread : readFrame (read.held ++ recv.arrived) with
  | ok r =>
      obtain ⟨hk, m, q', payload, hq, hframe, hfirst, hplace⟩ := h.frame hbudget hread
      show TakesFrame _ _ _ _ (.ready (.ok r.1), _)
      rw [hfirst]
      exact .frame hq hk hframe hplace
  | error fault =>
      dsimp only
      by_cases hshort : fault = .err .unexpectedEnd
      · rw [if_pos hshort, awaitMore]
        rw [hshort] at hread
        obtain ⟨hheld, hpart⟩ := resume_spec hread
        cases recv.ended with
        | none =>
            refine .waits ⟨hpart, hheld.symm ▸ hread⟩ ?_
            show Place q k missing ((resume _).held ++ [] ++ later)
            rw [hheld, List.append_nil]
            exact h
        | some e => cases e <;> exact .fails _ _
      · rw [if_neg hshort]
        exact .fails _ _

/-- The frame it takes is that of the message. -/
theorem pollMessage_place {read : ReadFrame} {recv : RecvStream} {later : Bytes}
    (hwaits : Waits read) (hbudget : q.length ≤ 3)
    (h : Place q k missing (read.held ++ recv.arrived ++ later)) :
    Takes q k missing later (pollMessage read recv) := by
  have htakes := pollFrame_place hwaits hbudget h
  rw [pollMessage]
  generalize pollFrame read recv = polled at htakes ⊢
  cases htakes with
  | @frame m q' payload recv' hq hk hframe hplace =>
      show Takes _ _ _ _ (.ready (mapErr .codec (decode fromSlice (frameOf payload) allowAll)), _)
      rw [hframe.decodes]
      exact .message hq hk hplace
  | waits hwaits' hplace => exact .waits hwaits' hplace
  | fails fault recv' => exact .fails fault recv'

end

end UatPlace
