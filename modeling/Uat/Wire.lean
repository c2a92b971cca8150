import Uat.RecvStream

/-! # A stream between a writer inside a frame and a reader that lost its place

    Both ends at work at once: the writer may have put a part of a frame, and a reader
    whose future was dropped has lost the bytes it held.  `Wire` says that what a reader
    has in front of it, followed by what is missing of the frame being written, is what
    the frames begun so far leave behind some position.

    At the start of a frame a poll takes the message.  Anywhere else no poll completes:
    the callee writes at most three frames, short ones without a zero byte in their
    headers, and what then stands where a length is expected is more than all that is
    left (`fromBe_cut`). -/

namespace UatWire

open UatTypes UatCodec UatHeader UatStream UatRecvStream Checked Positional

/-! ## Short frames -/

/-- Between 1 and 64 bytes, none of them zero. -/
structure ShortHeader (header : Bytes) : Prop where
  nonempty : header ≠ []
  le_max : header.length ≤ 64
  nonzero : 0 ∉ header

/-- A frame is its payload. -/
theorem frameOf_injective {p q : Bytes} (h : frameOf p = frameOf q) : p = q := by
  refine (List.append_inj h ?_).2
  rw [length_toBe, length_toBe]

/-- The six bytes in front of a short header. -/
theorem frameOf_short {header : Bytes} (h : ShortHeader header) :
    ∃ len hdrLen : UInt8, len ≠ 0 ∧ hdrLen ≠ 0 ∧
      frameOf (toBe 2 header.length ++ header) =
        0 :: 0 :: 0 :: len :: 0 :: hdrLen :: header := by
  have hpos : 0 < header.length := List.length_pos_iff.mpr h.nonempty
  have hmax := h.le_max
  have hbyte : ∀ n : Nat, 0 < n → n ≤ 66 → UInt8.ofNat n ≠ 0 := by
    intro n hn hn' hzero
    have hnat := congrArg UInt8.toNat hzero
    rw [UInt8.toNat_ofNat', Nat.mod_eq_of_lt (by omega)] at hnat
    exact absurd hnat (by show ¬ n = 0; omega)
  refine ⟨.ofNat (2 + header.length), .ofNat header.length, hbyte _ (by omega) (by omega),
    hbyte _ hpos (by omega), ?_⟩
  have hdigits : ∀ n : Nat, n < 256 →
      toBe 4 n = [0, 0, 0, .ofNat n] ∧ toBe 2 n = [0, .ofNat n] := by
    intro n hn
    have hdiv : n / 256 = 0 := Nat.div_eq_of_lt hn
    have hmod : n % 256 = n := Nat.mod_eq_of_lt hn
    simp [toBe, digits, hdiv, hmod]
  rw [frameOf, List.length_append, length_toBe, (hdigits _ (by omega)).1,
    (hdigits _ (by omega)).2]
  rfl

/-- Four bytes with one that is not zero among the first three. -/
theorem fromBe_take_four {bs : Bytes} {i : Nat} {b : UInt8} (h4 : 4 ≤ bs.length) (hi : i < 3)
    (hb : bs[i]? = some b) (hne : b ≠ 0) : 256 ≤ fromBe (bs.take 4) := by
  have hpos : 0 < b.toNat := by
    refine Nat.pos_of_ne_zero fun hzero => hne ?_
    exact UInt8.toNat_inj.mp hzero
  match bs, h4 with
  | x :: y :: z :: w :: rest, _ =>
      show 256 ≤ (((0 * 256 + x.toNat) * 256 + y.toNat) * 256 + z.toNat) * 256 + w.toNat
      match i, hi with
      | 0, _ | 1, _ | 2, _ =>
          obtain rfl := Option.some.inj hb
          omega

/-- A frame that was read is no longer than what it was read from. -/
theorem readFrame_ok_le {bs : Bytes} {r : Bytes × Bytes} (h : readFrame bs = .ok r) :
    4 ≤ bs.length ∧ fromBe (bs.take 4) + 4 ≤ bs.length := by
  by_cases h4 : bs.length < 4
  · rw [readFrame_short h4] at h
    cases h
  · have htake : (bs.take 4).length = 4 := by
      rw [List.length_take]
      omega
    have hsplit := readFrame_lenBuf htake (bs.drop 4)
    rw [List.take_append_drop, h] at hsplit
    refine ⟨not_lt.mp h4, ?_⟩
    by_contra hlong
    by_cases hmax : fromBe (bs.take 4) > maxFrame
    · rw [if_pos hmax] at hsplit
      cases hsplit
    · rw [if_neg hmax, if_neg (by rw [List.length_drop]; omega)] at hsplit
      cases hsplit

section

variable [Base64Engine]

/-- What `run_callee_with` ever puts on the stream. -/
def said : List Message :=
  [.accepted, .needInput, .completed [], .canceled, .failed .deadlineExceeded,
    .failed .unauthorized]

/-- The text layer prints the headers of these messages in at most 64 bytes, none of them
    zero. -/
def PrintsShort (text : JsonText) : Prop :=
  ∀ m ∈ said, ShortHeader (text.print (serialize m))

/-- The compact printer of the tests prints short headers. -/
theorem compactJson_printsShort : PrintsShort compactJson := by
  have hshort : ∀ v, Json.print v ≠ [] ∧ (Json.print v).length ≤ 64 ∧ 0 ∉ Json.print v →
      ShortHeader (compactJson.print v) := fun _ h => ⟨h.1, h.2.1, h.2.2⟩
  intro m hm
  simp only [said, List.mem_cons, List.not_mem_nil, or_false] at hm
  rcases hm with rfl | rfl | rfl | rfl | rfl | rfl
  · exact hshort (.obj [("type", .str "accepted")]) (by decide)
  · exact hshort (.obj [("type", .str "need_input")]) (by decide)
  · exact hshort (.obj [("type", .str "completed")]) (by decide)
  · exact hshort (.obj [("type", .str "canceled")]) (by decide)
  · exact hshort (.obj [("type", .str "failed"), ("code", .str "deadline_exceeded")]) (by decide)
  · exact hshort (.obj [("type", .str "failed"), ("code", .str "unauthorized")]) (by decide)

/-- What the callee says has no body. -/
theorem said_body {m : Message} (hm : m ∈ said) : messageBody m = [] := by
  simp only [said, List.mem_cons, List.not_mem_nil, or_false] at hm
  rcases hm with rfl | rfl | rfl | rfl | rfl | rfl <;> rfl

/-! ## Frames begun -/

variable [text : JsonText]

/-- A frame that the callee can have begun. -/
structure SaidFrame (m : Message) (payload : Bytes) : Prop extends Frames m payload where
  short : ∃ header, ShortHeader header ∧ payload = toBe 2 header.length ++ header

/-- A message without a body and with a short header is encoded as such a frame. -/
theorem short_frame (htext : ReadsBack text) {m : Message} (hbody : messageBody m = [])
    (hshort : ShortHeader (text.print (serialize m))) {frame : Bytes}
    (h : encode toVec m [] = .ok frame) :
    ∃ payload, frame = frameOf payload ∧ SaidFrame m payload := by
  obtain ⟨payload, hframes, hencode⟩ := encode_frame htext h
  obtain rfl : frame = frameOf payload := Except.ok.inj (h.symm.trans (hencode []))
  refine ⟨payload, rfl, hframes, text.print (serialize m), hshort, ?_⟩
  obtain ⟨header, hprint, -, -, hbytes⟩ := encode_ok_iff.mp h
  obtain rfl : text.print (serialize m) = header := Option.some.inj hprint
  refine frameOf_injective ?_
  rw [hbytes, hbody, frameOf, List.length_append, length_toBe, List.nil_append, List.append_nil,
    List.length_nil, Nat.add_zero, List.append_assoc]

/-- What the callee encodes is such a frame. -/
theorem said_frame (htext : ReadsBack text) (hshort : PrintsShort text) {m : Message}
    (hm : m ∈ said) {frame : Bytes} (h : encode toVec m [] = .ok frame) :
    ∃ payload, frame = frameOf payload ∧ SaidFrame m payload :=
  short_frame htext (said_body hm) (hshort m hm) h

/-- Whatever a callee says fits 70 bytes. -/
theorem SaidFrame.length_le {m : Message} {payload : Bytes} (h : SaidFrame m payload) :
    (frameOf payload).length ≤ 70 := by
  obtain ⟨header, hheader, rfl⟩ := h.short
  have hmax := hheader.le_max
  rw [frameOf, List.length_append, List.length_append, length_toBe, length_toBe]
  omega

/-- Behind the first byte of a frame, what stands where a length is expected is at least
    256. -/
theorem fromBe_cut {m : Message} {payload rest : Bytes} {j : Nat} (h : SaidFrame m payload)
    (hj : 0 < j) (hlen : j < (frameOf payload).length)
    (h4 : 4 ≤ ((frameOf payload).drop j ++ rest).length) :
    256 ≤ fromBe (((frameOf payload).drop j ++ rest).take 4) := by
  obtain ⟨header, hheader, rfl⟩ := h.short
  obtain ⟨len, hdrLen, hlen0, hhdr0, hframe⟩ := frameOf_short hheader
  rw [hframe] at hlen h4 ⊢
  -- The bytes before the header are 0, 0, 0, `len`, 0, `hdrLen`.
  match j, hj with
  | 1, _ => exact fromBe_take_four h4 (by omega : 2 < 3) rfl hlen0
  | 2, _ => exact fromBe_take_four h4 (by omega : 1 < 3) rfl hlen0
  | 3, _ => exact fromBe_take_four h4 (by omega : 0 < 3) rfl hlen0
  | 4, _ => exact fromBe_take_four h4 (by omega : 1 < 3) rfl hhdr0
  | 5, _ => exact fromBe_take_four h4 (by omega : 0 < 3) rfl hhdr0
  | j + 6, _ =>
      have hin : j < header.length := by
        simp only [List.length_cons] at hlen
        omega
      have hdrop : (0 :: 0 :: 0 :: len :: 0 :: hdrLen :: header).drop (j + 6) =
          header[j] :: header.drop (j + 1) := List.drop_eq_getElem_cons hin
      rw [hdrop] at h4 ⊢
      refine fromBe_take_four h4 (by omega : 0 < 3) rfl fun hzero => hheader.nonzero ?_
      rw [← hzero]
      exact List.getElem_mem hin

/-- So all it says fits 70 bytes a message. -/
theorem length_frames_le {ms : List Message} {payloads : List Bytes}
    (h : List.Forall₂ SaidFrame ms payloads) :
    ((payloads.map frameOf).flatten).length ≤ 70 * ms.length := by
  induction h with
  | nil => exact Nat.zero_le _
  | cons hframe _ ih =>
      have hle := hframe.length_le
      rw [List.map_cons, List.flatten_cons, List.length_append, List.length_cons]
      omega

/-- A position in a stream of frames: at the start of one, or inside one. -/
theorem drop_frames {ms : List Message} {payloads : List Bytes}
    (h : List.Forall₂ SaidFrame ms payloads) {k : Nat}
    (hk : k ≤ ((payloads.map frameOf).flatten).length) :
    (∃ read ms' payloads', ms = read ++ ms' ∧ List.Forall₂ SaidFrame ms' payloads' ∧
      ((payloads.map frameOf).flatten).drop k = (payloads'.map frameOf).flatten) ∨
    (∃ m payload j rest, SaidFrame m payload ∧ 0 < j ∧ j < (frameOf payload).length ∧
      ((payloads.map frameOf).flatten).drop k = (frameOf payload).drop j ++ rest) := by
  induction h generalizing k with
  | nil => exact Or.inl ⟨[], [], [], rfl, .nil, List.drop_nil⟩
  | @cons m payload ms payloads hframe hframes ih =>
      rw [List.map_cons, List.flatten_cons] at hk ⊢
      rcases Nat.eq_zero_or_pos k with rfl | hpos
      · exact Or.inl ⟨[], m :: ms, payload :: payloads, rfl, .cons hframe hframes, rfl⟩
      by_cases hin : k < (frameOf payload).length
      · refine Or.inr ⟨m, payload, k, (payloads.map frameOf).flatten, hframe, hpos, hin, ?_⟩
        exact List.drop_append_of_le_length (Nat.le_of_lt hin)
      · obtain ⟨k', rfl⟩ := Nat.exists_eq_add_of_le (not_lt.mp hin)
        rw [List.length_append] at hk
        rw [List.drop_length_add_append]
        rcases ih (Nat.le_of_add_le_add_left hk) with ⟨read, ms', payloads', hms, hrest⟩ | hcut
        · exact Or.inl ⟨m :: read, ms', payloads', by rw [hms]; rfl, hrest⟩
        · exact Or.inr hcut

/-! ## What the reader has in front of it -/

/-- `bytes` are there, `missing` is the rest of the frame being written: together they are
    what the frames of `begun` leave behind some position. -/
def Wire (begun : List Message) (missing bytes : Bytes) : Prop :=
  ∃ payloads k, List.Forall₂ SaidFrame begun payloads ∧
    k ≤ ((payloads.map frameOf).flatten).length ∧
    bytes ++ missing = ((payloads.map frameOf).flatten).drop k

theorem wire_start : Wire [] [] [] := ⟨[], 0, .nil, Nat.le_refl _, rfl⟩

/-- Bytes move from what is missing to what is there. -/
theorem Wire.more {begun : List Message} {missing missing' bytes bytes' : Bytes}
    (h : Wire begun missing bytes) (hsame : bytes' ++ missing' = bytes ++ missing) :
    Wire begun missing' bytes' := by
  obtain ⟨payloads, k, hframes, hk, hbytes⟩ := h
  exact ⟨payloads, k, hframes, hk, hsame.trans hbytes⟩

/-- The writer begins a frame and puts a part of it. -/
theorem Wire.begins {begun : List Message} {bytes put missing payload : Bytes} {m : Message}
    (h : Wire begun [] bytes) (hframe : SaidFrame m payload)
    (hput : put ++ missing = frameOf payload) : Wire (begun ++ [m]) missing (bytes ++ put) := by
  obtain ⟨payloads, k, hframes, hk, hbytes⟩ := h
  have hflat : ((payloads ++ [payload]).map frameOf).flatten =
      (payloads.map frameOf).flatten ++ frameOf payload := by
    rw [List.map_append, List.flatten_append]
    simp
  refine ⟨payloads ++ [payload], k, List.rel_append hframes (.cons hframe .nil), ?_, ?_⟩
  · rw [hflat, List.length_append]
    omega
  · rw [hflat, List.drop_append_of_le_length hk, ← hbytes, List.append_nil, List.append_assoc, hput]

/-- The reader takes bytes, or loses them. -/
theorem Wire.drop {begun : List Message} {missing held bytes : Bytes}
    (h : Wire begun missing (held ++ bytes)) : Wire begun missing bytes := by
  obtain ⟨payloads, k, hframes, hk, hbytes⟩ := h
  have hlen := congrArg List.length hbytes
  rw [List.length_drop, List.length_append, List.length_append] at hlen
  refine ⟨payloads, k + held.length, hframes, by omega, ?_⟩
  rw [← List.drop_drop, ← hbytes, List.append_assoc, List.drop_left]

/-- Nothing of a stream is a well-formed rest of it. -/
theorem Wire.gone {begun : List Message} {missing bytes : Bytes} (h : Wire begun missing bytes) :
    Wire begun missing [] := by
  rw [← List.append_nil bytes] at h
  exact h.drop

/-- What is complete of the messages begun: all of them, or all but the last. -/
def Complete (told begun : List Message) (missing : Bytes) : Prop :=
  begun = told ∨ ∃ m, begun = told ++ [m] ∧ missing ≠ []

/-- What a poll makes of the wire: it takes a message that is complete, or waits, or fails. -/
inductive Reads (told begun : List Message) (missing later : Bytes) :
    Poll ReadFrame (Exec FrameIoError Message) × RecvStream → Prop where
  | message {m : Message} {recv : RecvStream} (htold : m ∈ told)
      (hwire : Wire begun missing (recv.arrived ++ later)) :
      Reads told begun missing later (.ready (.ok m), recv)
  | waits {read : ReadFrame} {recv : RecvStream} (hpart : read.Partial)
      (hwire : Wire begun missing (read.held ++ recv.arrived ++ later)) :
      Reads told begun missing later (.pending read, recv)
  | fails (fault : Fault FrameIoError) (recv : RecvStream) :
      Reads told begun missing later (.ready (.error fault), recv)

/-- Inside a frame there is nothing to read: a length that is at least 256 asks for more
    than three short frames have left. -/
theorem no_frame_inside {m : Message} {payload rest bs later : Bytes} {j : Nat}
    (h : SaidFrame m payload) (hj : 0 < j) (hlen : j < (frameOf payload).length)
    (hbs : bs ++ later = (frameOf payload).drop j ++ rest)
    (hmax : ((frameOf payload).drop j ++ rest).length ≤ 210) (r : Bytes × Bytes) :
    readFrame bs ≠ .ok r := by
  intro hok
  obtain ⟨h4, hle⟩ := readFrame_ok_le hok
  rw [← hbs, List.length_append] at hmax
  have h4' : 4 ≤ ((frameOf payload).drop j ++ rest).length := by
    rw [← hbs, List.length_append]
    omega
  have hlarge := fromBe_cut h hj hlen h4'
  rw [← hbs, List.take_append_of_le_length h4] at hlarge
  omega

/-- A message that was read whole is complete. -/
theorem Complete.mem {told begun before after : List Message} {m : Message} {missing bytes : Bytes}
    {payloads : List Bytes} (h : Complete told begun missing)
    (hbegun : begun = before ++ m :: after)
    (hframes : List.Forall₂ SaidFrame after payloads)
    (hbytes : bytes ++ missing = (payloads.map frameOf).flatten) : m ∈ told := by
  rcases h with rfl | ⟨last, hlast, hmissing⟩
  · rw [hbegun]
    exact List.mem_append_right before List.mem_cons_self
  · rcases List.eq_nil_or_concat' after with rfl | ⟨after, m', rfl⟩
    · -- Nothing is left to come, so nothing can be missing.
      cases hframes
      exact absurd (List.append_eq_nil_iff.mp hbytes).2 hmissing
    · rw [hbegun, ← List.cons_append, ← List.append_assoc] at hlast
      rw [← List.append_inj_left' hlast rfl]
      exact List.mem_append_right before List.mem_cons_self

/-- A frame that is read is the first one that is left, and its message is complete. -/
theorem frame_wire {told begun : List Message} {missing later held frame rest : Bytes}
    {recv : RecvStream} (hbudget : begun.length ≤ 3) (hcomplete : Complete told begun missing)
    (hwire : Wire begun missing (held ++ recv.arrived ++ later))
    (hread : readFrame (held ++ recv.arrived) = .ok (frame, rest)) :
    Reads told begun missing later
      (.ready (mapErr .codec (decode fromSlice frame allowAll)),
        { recv with arrived := rest }) := by
  obtain ⟨payloads, k, hframes, hk, hbytes⟩ := hwire
  rw [List.append_assoc] at hbytes
  -- The reader stands at the start of a frame, or inside one.
  rcases drop_frames hframes hk with
    ⟨before, ms, payloads', hbegun, hframes', hdrop⟩ |
    ⟨m, payload, j, rest', hframe, hj, hin, hdrop⟩
  · rw [hdrop] at hbytes
    cases hframes' with
    | nil =>
        have hnil : held ++ recv.arrived = [] := (List.append_eq_nil_iff.mp hbytes).1
        rw [hnil] at hread
        cases hread
    | @cons m payload ms payloads' hframe hframes' =>
        rw [List.map_cons, List.flatten_cons] at hbytes hdrop
        rcases readFrame_part hframe.le_max hbytes with ⟨rest', hok, hrest⟩ | ⟨hshort, -⟩
        · obtain ⟨rfl, rfl⟩ := Prod.mk.inj (Except.ok.inj (hread.symm.trans hok))
          rw [hframe.decodes]
          rw [← List.append_assoc] at hrest
          refine .message (hcomplete.mem hbegun hframes' hrest) ?_
          refine ⟨payloads, k + (frameOf payload).length, hframes, ?_, ?_⟩
          · have hlen := congrArg List.length hdrop
            rw [List.length_drop, List.length_append] at hlen
            omega
          · rw [← List.drop_drop, hdrop, List.drop_left]
            exact hrest
        · cases hread.symm.trans hshort
  · refine absurd hread (no_frame_inside hframe hj hin (hbytes.trans hdrop) ?_ _)
    have hmax := length_frames_le hframes
    rw [← hdrop, List.length_drop]
    omega

/-- **One poll.**  Wherever the reader stands, what it takes is a complete message, and
    what it does not take it still has. -/
theorem pollMessage_wire {told begun : List Message} {missing later : Bytes} {read : ReadFrame}
    {recv : RecvStream} (hpart : read.Partial) (hbudget : begun.length ≤ 3)
    (hcomplete : Complete told begun missing)
    (hwire : Wire begun missing (read.held ++ recv.arrived ++ later)) :
    Reads told begun missing later (pollMessage read recv) := by
  rw [pollMessage, pollFrame_eq hpart, pollBytes]
  cases hread : readFrame (read.held ++ recv.arrived) with
  | ok r => exact frame_wire hbudget hcomplete hwire hread
  | error fault =>
      dsimp only
      by_cases hshort : fault = .err .unexpectedEnd
      · rw [if_pos hshort]
        rw [hshort] at hread
        obtain ⟨hheld, hpart'⟩ := resume_spec hread
        rw [awaitMore]
        cases recv.ended with
        | none =>
            refine .waits hpart' ?_
            rw [hheld, List.append_nil]
            exact hwire
        | some e => cases e <;> exact .fails _ _
      · rw [if_neg hshort]
        exact .fails _ _

end

end UatWire
