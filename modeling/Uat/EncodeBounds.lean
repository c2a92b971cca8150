import Uat.Header

/-! # Encoding — its only failure, and that it leaves the vector alone

    `Codec.encode` returns the vector it was given with a frame after it; the source
    appends to a vector that its caller keeps.  Here the function is written again with
    that vector as a state, one `extend_from_slice` after another, and `encodeInto_settles`
    relates the two.

    What is assumed of the two third-party layers is what they document:

    * **`UrlSafeNoPad`** — the base64 engine accepts text of its alphabet only, four
      characters for three bytes;
    * **`CompactPrinting`** — the JSON printer writes objects without white space, takes
      at most six bytes for a byte of a string and does not escape the base64url
      alphabet.

    `header_length_le` adds the worst cases of every field up; `encode_fails_only_oversized`
    is what is left of the errors. -/

namespace UatEncodeBounds

open UatTypes UatCodec UatHeader Positional
open Json (Value)

/-! ## The two layers below -/

/-- The base64 engine: what it decodes is text of the alphabet, four characters for
    three bytes. -/
def UrlSafeNoPad (engine : Base64Engine) : Prop :=
  ∀ bs raw, engine.decode bs = some raw →
    (∀ b ∈ bs, (Base64Url.sextet b).isSome = true) ∧ 3 * bs.length ≤ 4 * raw.length + 2

/-- The engine of the tests is one of those. -/
theorem urlSafeNoPad_holds : UrlSafeNoPad urlSafeNoPad :=
  fun _ _ h => Base64Url.decode_spec h

/-- Text of the base64url alphabet, as identifiers and hexadecimal digits are. -/
def Alphabetic (s : String) : Prop := ∀ b ∈ asBytes s, (Base64Url.sextet b).isSome = true

instance (s : String) : Decidable (Alphabetic s) :=
  List.decidableBAll _ (asBytes s)

/-- A string or an integer, with the strings quoted as given. -/
def printScalar (quote : String → Bytes) : Value → Bytes
  | .str s => quote s
  | .nat n => Json.decimal n
  | _ => []

/-- Fields, each after a comma. -/
def printFields (quote : String → Bytes) : List (String × Value) → Bytes
  | [] => []
  | (k, v) :: fields =>
      44 :: (quote k ++ 58 :: (printScalar quote v ++ printFields quote fields))

/-- Compact text of the objects a header can be, given how strings are quoted. -/
structure CompactPrinting (text : JsonText) (quote : String → Bytes) : Prop where
  object : ∀ fields : List (String × Value), (∀ p ∈ fields, Scalar p.2) →
    text.print (.obj fields) = 123 :: ((printFields quote fields).tail ++ [125])
  length_quote_le : ∀ s, (quote s).length ≤ 2 + 6 * (asBytes s).length
  length_quote_eq : ∀ s, Alphabetic s → (quote s).length = 2 + (asBytes s).length

/-- On strings and integers this is the compact printer. -/
theorem printFields_scalars {fields : List (String × Value)} (h : ∀ p ∈ fields, Scalar p.2) :
    Json.printFields fields = printFields Json.quote fields := by
  induction fields with
  | nil => rfl
  | cons p fields ih =>
      obtain ⟨hp, hfields⟩ := List.forall_mem_cons.mp h
      obtain ⟨k, v⟩ := p
      have hv : Json.print v = printScalar Json.quote v := by
        cases v with
        | str s | nat n => rfl
        | _ => exact hp.elim
      rw [Json.printFields, printFields, hv, ih hfields]

/-- No character of the alphabet is escaped. -/
theorem escape_of_alphabet {b : UInt8} (h : (Base64Url.sextet b).isSome = true) :
    Json.escape b = [b] := by
  have hall : ∀ n < 256, (Base64Url.sextet (.ofNat n)).isSome = true →
      Json.escape (.ofNat n) = [.ofNat n] := by
    decide +kernel
  have hb := hall b.toNat b.toNat_lt
  rw [UInt8.ofNat_toNat] at hb
  exact hb h

/-- The compact printer of the tests is one of those. -/
theorem compactJson_holds : CompactPrinting compactJson Json.quote where
  object fields h := by
    show 123 :: ((Json.printFields fields).tail ++ [125]) = _
    rw [printFields_scalars h]
  length_quote_le := Json.length_quote_le
  length_quote_eq _ h := Json.length_quote_eq fun b hb => escape_of_alphabet (h b hb)

/-! ## How long a header is -/

section

variable {text : JsonText} {quote : String → Bytes}

/-- What a field adds to an object, with its comma and its colon. -/
def width (quote : String → Bytes) (p : String × Value) : Nat :=
  (quote p.1).length + (printScalar quote p.2).length + 2

/-- The width of the fields is the sum of their widths. -/
theorem length_printFields (fields : List (String × Value)) :
    (printFields quote fields).length = (fields.map (width quote)).sum := by
  induction fields with
  | nil => rfl
  | cons p fields ih =>
      obtain ⟨k, v⟩ := p
      rw [printFields, List.length_cons, List.length_append, List.length_cons,
        List.length_append, ih, List.map_cons, List.sum_cons]
      show _ = (quote k).length + (printScalar quote v).length + 2 + _
      omega

/-- The first field has no comma; the two braces make up for it and one byte more. -/
theorem CompactPrinting.length_object (h : CompactPrinting text quote)
    {p : String × Value} {fields : List (String × Value)}
    (hscalar : ∀ q ∈ p :: fields, Scalar q.2) :
    (text.print (.obj (p :: fields))).length = 1 + ((p :: fields).map (width quote)).sum := by
  have hpos : 2 ≤ ((p :: fields).map (width quote)).sum := by
    rw [List.map_cons, List.sum_cons, width]
    omega
  rw [h.object _ hscalar, List.length_cons, List.length_append, List.length_tail,
    length_printFields, List.length_singleton]
  omega

/-- A field whose name and text are of the alphabet. -/
theorem CompactPrinting.width_str (h : CompactPrinting text quote) {k s : String}
    (hk : Alphabetic k) (hs : Alphabetic s) :
    width quote (k, .str s) = (asBytes k).length + (asBytes s).length + 6 := by
  rw [width, printScalar, h.length_quote_eq k hk, h.length_quote_eq s hs]
  omega

/-- The text of the base64 alphabet a credential is: 2048 bytes take 2731 characters. -/
theorem credential_text [engine : Base64Engine] (h : UrlSafeNoPad engine) (c : Credential) :
    Alphabetic c.encoded ∧ (asBytes c.encoded).length ≤ 2731 := by
  obtain ⟨raw, hraw, hlen⟩ := c.decodes
  obtain ⟨halphabet, hwidth⟩ := h _ _ hraw
  have hmax : maxCredentialDecodedLen = 2048 := rfl
  exact ⟨halphabet, by omega⟩

/-- A task id is 32 characters of the alphabet. -/
theorem taskId_text (t : TaskId) :
    Alphabetic (TaskId.toHex t) ∧ (asBytes (TaskId.toHex t)).length = 32 := by
  have hbytes : asBytes (TaskId.toHex t) =
      ((digits 16 32 t.value).map hexChar).flatMap String.utf8EncodeChar := by
    rw [asBytes, TaskId.toHex, String.toByteArray_ofList, List.utf8Encode,
      List.toList_data_toByteArray]
  have hdigit : ∀ d < 16, ∃ b, String.utf8EncodeChar (hexChar d) = [b] ∧
      (Base64Url.sextet b).isSome = true := by
    intro d hd
    refine ⟨.ofNat (hexChar d).toNat, ?_⟩
    revert d
    decide
  constructor
  · intro b hb
    rw [hbytes] at hb
    obtain ⟨c, hc, hb⟩ := List.mem_flatMap.mp hb
    obtain ⟨d, hd, rfl⟩ := List.mem_map.mp hc
    obtain ⟨b', hb', halphabet⟩ := hdigit d (digits_lt (by decide) d hd)
    rw [hb'] at hb
    obtain rfl := List.mem_singleton.mp hb
    exact halphabet
  · rw [length_asBytes, utf8ByteSize_toHex]

/-- **The longest `Submit` header**: 3226 bytes, most of them the credential. -/
theorem length_submit_le [engine : Base64Engine] (hengine : UrlSafeNoPad engine)
    (htext : CompactPrinting text quote) (task : TaskId) (deadline : Deadline)
    (contentType : ContentType) (credential : Option Credential) (body : Bytes) :
    (text.print (serialize (.submit task deadline contentType credential body))).length ≤
      3226 := by
  have hscalars := serialize_scalars (.submit task deadline contentType credential body)
  obtain ⟨fields, hfields, hscalar⟩ := hscalars
  obtain rfl := Json.Value.obj.inj hfields
  rw [List.cons_append] at hscalar
  have htag : width quote ("type", .str "submit") = 16 :=
    htext.width_str (by decide) (by decide)
  have htask : width quote ("task", .str (TaskId.toHex task)) = 42 := by
    rw [htext.width_str (by decide) (taskId_text task).1, (taskId_text task).2]
    rfl
  have hdeadline : width quote ("deadline", .nat deadline.ms) ≤ 18 := by
    have hkey : (quote "deadline").length = 10 := htext.length_quote_eq _ (by decide)
    have hdigits : (Json.decimal deadline.ms).length ≤ 6 :=
      Json.length_decimal_le (by decide) (lt_of_le_of_lt deadline.le_max (by decide))
    show (quote "deadline").length + (Json.decimal deadline.ms).length + 2 ≤ 18
    omega
  -- The content type is any text: every byte of it may take six.
  have hcontentType : width quote ("content_type", .str contentType.value) ≤ 402 := by
    have hkey : (quote "content_type").length = 14 := htext.length_quote_eq _ (by decide)
    have hvalue := htext.length_quote_le contentType.value
    have hlen : (asBytes contentType.value).length ≤ 64 := contentType.le_max
    show (quote "content_type").length + (quote contentType.value).length + 2 ≤ 402
    omega
  have hcredential : ((credentialField credential).map (width quote)).sum ≤ 2747 := by
    cases credential with
    | none => exact Nat.zero_le _
    | some c =>
        obtain ⟨halphabet, hlen⟩ := credential_text hengine c
        have hkey : (asBytes "credential").length = 10 := rfl
        show width quote ("credential", .str c.encoded) + 0 ≤ 2747
        rw [htext.width_str (by decide) halphabet, hkey]
        omega
  rw [serialize, List.cons_append, htext.length_object hscalar]
  simp only [List.map_cons, List.cons_append, List.nil_append, List.sum_cons]
  omega

/-- The other headers are a tag, and a code's name. -/
theorem length_tagged_le [Base64Engine] (htext : CompactPrinting text quote) {m : Message}
    (h : ∀ task deadline contentType credential body,
      m ≠ .submit task deadline contentType credential body) :
    (text.print (serialize m)).length ≤ 64 := by
  have htag : ∀ s, Alphabetic s → (asBytes s).length ≤ 17 →
      (text.print (.obj [("type", .str s)])).length ≤ 64 := by
    intro s hs hlen
    have hkey : (asBytes "type").length = 4 := rfl
    rw [htext.length_object (by simp [Scalar]), List.map_singleton, List.sum_singleton,
      htext.width_str (by decide) hs, hkey]
    omega
  cases m with
  | submit => exact absurd rfl (h _ _ _ _ _)
  | failed code =>
      have hcode : Alphabetic (FailureCode.name code) ∧
          (asBytes (FailureCode.name code)).length ≤ 17 := by
        cases code <;> decide
      have htype : width quote ("type", .str "failed") = 16 :=
        htext.width_str (by decide) (by decide)
      have hkey : (asBytes "code").length = 4 := rfl
      rw [serialize, htext.length_object (by simp [Scalar]), List.map_cons, List.map_singleton,
        List.sum_cons, List.sum_singleton, htype, htext.width_str (by decide) hcode.1, hkey]
      omega
  | _ => exact htag _ (by decide) (by decide)

/-- **No header is too long.** -/
theorem header_length_le [engine : Base64Engine] (hengine : UrlSafeNoPad engine)
    (htext : CompactPrinting text quote) (m : Message) :
    (text.print (serialize m)).length ≤ maxHdrLen := by
  cases m with
  | submit task deadline contentType credential body =>
      exact (length_submit_le hengine htext task deadline contentType credential body).trans
        (by decide)
  | _ => exact (length_tagged_le htext (by simp)).trans (by decide)

end

/-! ## Encoding into a vector -/

/-- Code that may fail and writes to the vector of its caller. -/
abbrev Writing := ExceptT CodecError (StateM Bytes)

/-- What the code returns, and the vector it leaves. -/
def Writing.result (x : Writing Unit) (out : Bytes) : Except CodecError Unit × Bytes := x.run out

def extendFromSlice (bs : Bytes) : Writing Unit := modify (· ++ bs)

/-- The writing code does to `out` what the pure one says: the new vector on success, and
    on an error the vector as it was. -/
def Settles (x : Except CodecError Bytes) (y : Writing Unit) (out : Bytes) : Prop :=
  (∃ out', x = .ok out' ∧ y.result out = (.ok (), out')) ∨
    ∃ e, x = .error e ∧ y.result out = (.error e, out)

/-- A check comes before any write: if it fails, both fail and nothing was written. -/
theorem settles_orElse {α : Type} {a : Option α} {e : CodecError}
    {f : α → Except CodecError Bytes} {g : α → Writing Unit} {out : Bytes}
    (h : ∀ b, Settles (f b) (g b) out) :
    Settles (orElse a e >>= f) (do g (← (orElse a e : Except CodecError α))) out := by
  cases a with
  | none => exact Or.inr ⟨e, rfl, rfl⟩
  | some b => exact h b

/-- A guard that fails leaves the vector as it was. -/
theorem settles_guard {p : Prop} [Decidable p] {e : CodecError} {x : Except CodecError Bytes}
    {y : Writing Unit} {out : Bytes} (h : Settles x y out) :
    Settles (if p then .error e else x) (if p then throw e else y) out := by
  by_cases hp : p
  · rw [if_pos hp, if_pos hp]
    exact Or.inr ⟨e, rfl, rfl⟩
  · rw [if_neg hp, if_neg hp]
    exact h

/-- `encode(message, &mut out)`. -/
def encodeInto [Base64Engine] (print : Message → Option Bytes) (message : Message) :
    Writing Unit := do
  let header ← orElse (print message) .malformedHeader
  if header.length > maxHdrLen then throw .headerTooLarge else
  let body := messageBody message
  let hdrLen ← orElse (tryFrom 16 header.length) .headerTooLarge
  let lenU ← orElse ((checkedAdd 2 header.length).bind (checkedAdd · body.length)) .encodeTooLarge
  if lenU > maxFrame then throw .encodeTooLarge else
  let len ← orElse (tryFrom 32 lenU) .encodeTooLarge
  extendFromSlice (toBe 4 len)
  extendFromSlice (toBe 2 hdrLen)
  extendFromSlice header
  extendFromSlice body

/-- **The vector is extended as `encode` says, and left alone when it fails.**  Every
    check of the source comes before the first of its four writes. -/
theorem encodeInto_settles [Base64Engine] (print : Message → Option Bytes) (m : Message)
    (out : Bytes) : Settles (encode print m out) (encodeInto print m) out := by
  rw [encode, encodeInto]
  refine settles_orElse fun header => settles_guard ?_
  refine settles_orElse fun hdrLen => settles_orElse fun lenU => settles_guard ?_
  refine settles_orElse fun len => Or.inl ?_
  exact ⟨out ++ toBe 4 len ++ toBe 2 hdrLen ++ header ++ messageBody m, rfl, rfl⟩

/-! ## What is left of the errors -/

/-- A frame for a header and a body: four bytes for the length of what follows, two for
    the header's, both exact, and nothing after the body. -/
structure FrameOf (header body frame : Bytes) : Prop where
  length_eq : frame.length = 4 + fromBe (frame.take 4)
  len_eq : fromBe (frame.take 4) = 2 + header.length + body.length
  hdrLen_eq : fromBe ((frame.drop 4).take 2) = header.length
  content_eq : frame.drop 6 = header ++ body

/-- Prefix, header length, header and body are a frame. -/
theorem frameOf_layout {header body : Bytes} (hhdr : header.length ≤ maxHdrLen)
    (hfit : 2 + header.length + body.length ≤ maxFrame) :
    FrameOf header body (toBe 4 (2 + header.length + body.length) ++
      (toBe 2 header.length ++ (header ++ body))) := by
  have hlen : fromBe (toBe 4 (2 + header.length + body.length)) =
      2 + header.length + body.length := fromBe_toBe (lt_of_le_of_lt hfit (by decide))
  have hhdrLen : fromBe (toBe 2 header.length) = header.length :=
    fromBe_toBe (lt_of_le_of_lt hhdr (by decide))
  have htake : ∀ rest, (toBe 4 (2 + header.length + body.length) ++ rest).take 4 =
      toBe 4 (2 + header.length + body.length) :=
    fun rest => List.take_left' (length_toBe 4 _)
  have hdrop : ∀ rest, (toBe 4 (2 + header.length + body.length) ++ rest).drop 4 = rest :=
    fun rest => List.drop_left' (length_toBe 4 _)
  constructor
  · rw [htake, hlen]
    simp only [List.length_append, length_toBe]
    omega
  · rw [htake, hlen]
  · rw [hdrop, List.take_left' (length_toBe 2 _), hhdrLen]
  · rw [show 6 = 4 + 2 from rfl, ← List.drop_drop, hdrop, List.drop_left' (length_toBe 2 _)]

/-- With a header that fits, `encode` has one error left. -/
theorem encode_oversized [Base64Engine] {print : Message → Option Bytes} {m : Message}
    {header : Bytes} (out : Bytes) (hprint : print m = some header)
    (hhdr : header.length ≤ maxHdrLen)
    (hover : maxFrame < 2 + header.length + (messageBody m).length) :
    encode print m out = .error .encodeTooLarge := by
  have hmax : maxHdrLen < 2 ^ 16 := by decide
  rw [encode, hprint]
  show (if header.length > maxHdrLen then _ else _) = _
  rw [if_neg (not_lt.mpr hhdr), show tryFrom 16 header.length = some header.length from
    if_pos (by omega)]
  show (orElse _ _ >>= _) = _
  cases hsum : (checkedAdd 2 header.length).bind (checkedAdd · (messageBody m).length) with
  | none => rfl
  | some n =>
      obtain rfl := checkedAdd_eq hsum
      show (if _ > maxFrame then _ else _) = _
      rw [if_pos hover]

section

variable [engine : Base64Engine] [text : JsonText] {quote : String → Bytes}

/-- **A BODY TOO LARGE IS THE ONLY WAY ENCODING FAILS, AND IT FAILS WITHOUT A TRACE.** For
    every message and vector: the header is within its cap, the call fails exactly when
    header and body do not fit a frame, every failure is that one and leaves the vector as
    it was, and a success appends one frame whose length fields are exact. -/
theorem encode_fails_only_oversized (hengine : UrlSafeNoPad engine)
    (htext : CompactPrinting text quote) (m : Message) (out : Bytes) :
    (text.print (serialize m)).length ≤ maxHdrLen ∧
    (((encodeInto toVec m).result out).1 = .error .encodeTooLarge ↔
      maxFrame < 2 + (text.print (serialize m)).length + (messageBody m).length) ∧
    (∀ e out', (encodeInto toVec m).result out = (.error e, out') →
      e = .encodeTooLarge ∧ out' = out) ∧
    ∀ out', (encodeInto toVec m).result out = (.ok (), out') →
      ∃ frame, out' = out ++ frame ∧
        FrameOf (text.print (serialize m)) (messageBody m) frame := by
  -- No header is too long, so the frame as a whole decides.
  have hhdr := header_length_le hengine htext m
  have hprint : toVec m = some (text.print (serialize m)) := rfl
  have hrun := encodeInto_settles toVec m out
  by_cases hover : maxFrame < 2 + (text.print (serialize m)).length + (messageBody m).length
  · have hfail := encode_oversized out hprint hhdr hover
    have hresult : (encodeInto toVec m).result out = (.error .encodeTooLarge, out) := by
      rcases hrun with ⟨out', hok, -⟩ | ⟨e, he, hresult⟩
      · rw [hfail] at hok
        cases hok
      · rw [hfail] at he
        obtain rfl := Except.error.inj he
        exact hresult
    rw [hresult]
    refine ⟨hhdr, iff_of_true rfl hover, ?_, ?_⟩
    · intro e out' h
      obtain ⟨he, rfl⟩ := Prod.mk.inj h
      exact ⟨(Except.error.inj he).symm, rfl⟩
    · intro out' h
      cases (Prod.mk.inj h).1
  · have hfit := not_lt.mp hover
    obtain ⟨out', hok⟩ : ∃ out', encode toVec m out = .ok out' :=
      ⟨_, encode_ok_iff.mpr ⟨_, hprint, hhdr, hfit, rfl⟩⟩
    have hresult : (encodeInto toVec m).result out = (.ok (), out') := by
      rcases hrun with ⟨out'', hok', hresult⟩ | ⟨e, he, -⟩
      · rw [hok] at hok'
        obtain rfl := Except.ok.inj hok'
        exact hresult
      · rw [hok] at he
        cases he
    rw [hresult]
    refine ⟨hhdr, iff_of_false (by intro h; cases h) hover, ?_, ?_⟩
    · intro e out' h
      cases (Prod.mk.inj h).1
    · intro out'' h
      obtain ⟨-, rfl⟩ := Prod.mk.inj h
      obtain ⟨header, hheader, -, -, rfl⟩ := encode_ok_iff.mp hok
      obtain rfl := Option.some.inj (hprint.symm.trans hheader)
      refine ⟨_, ?_, frameOf_layout hhdr hfit⟩
      simp only [List.append_assoc]

end

section

attribute [local instance] urlSafeNoPad compactJson

/-- At one input the failure is ruled out by the bound on the header alone. -/
theorem encode_fails_only_oversized_submit :
    ((encodeInto toVec (.submit taskOne oneSecond plain none [7])).result [1]).1 ≠
      .error .encodeTooLarge := by
  obtain ⟨hhdr, hiff, -⟩ := encode_fails_only_oversized urlSafeNoPad_holds compactJson_holds
    (.submit taskOne oneSecond plain none [7]) [1]
  intro hfail
  have hover := hiff.mp hfail
  have hbody : (messageBody (.submit taskOne oneSecond plain none [7])).length = 1 := rfl
  have hhdrMax : maxHdrLen = 4096 := rfl
  have hmax : maxFrame = 65536 := rfl
  omega

end

end UatEncodeBounds
