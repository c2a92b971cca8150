import Uat.Codec
import Uat.Base.Json

/-! # The JSON header — messages as tagged objects

    What the derived serializers make of a `Message`: an object tagged by `"type"`, with
    the variant's fields beside the tag and without the body.  The repository's own
    (de)serializers of the newtypes are translated; the text layer, which turns a JSON
    value into bytes and back, is third-party and a parameter (`JsonText`).

    `deserialize_serialize` needs nothing of the text layer.  `fromSlice_toVec` needs that
    it reads back the objects of strings and integers it printed (`ReadsBack`). -/

namespace UatHeader

open UatTypes UatCodec Positional
open Json (Value)

/-! ## The task id -/

/-- A hex digit as a character, in lower case. -/
def hexChar (d : Nat) : Char := Char.ofNat (if d < 10 then 48 + d else 87 + d)

/-- `char::is_ascii_hexdigit`. -/
def isAsciiHexdigit (c : Char) : Bool :=
  (48 ≤ c.toNat && c.toNat ≤ 57) || (65 ≤ c.toNat && c.toNat ≤ 70) ||
    (97 ≤ c.toNat && c.toNat ≤ 102)

/-- The value of a hex digit of either case. -/
def hexCharValue (c : Char) : Nat :=
  if c.toNat ≤ 57 then c.toNat - 48 else if c.toNat ≤ 70 then c.toNat - 55 else c.toNat - 87

/-- Format as 32 lowercase hex characters. -/
def TaskId.toHex (t : TaskId) : String := String.ofList ((digits 16 32 t.value).map hexChar)

/-- Parse the 32-character hex wire form. -/
def TaskId.fromHex (s : String) : Except TypeError TaskId :=
  if s.utf8ByteSize ≠ 32 then .error .taskIdBadHex
  else if ¬ s.toList.all isAsciiHexdigit then .error .taskIdBadHex
  else if h : value 16 (s.toList.map hexCharValue) < 2 ^ 128 then .ok ⟨_, h⟩
  else .error .taskIdBadHex

/-- What is needed of the sixteen digits: hex digits, read back, one byte each. -/
theorem hexChar_spec : ∀ d < 16, isAsciiHexdigit (hexChar d) = true ∧
    hexCharValue (hexChar d) = d ∧ (hexChar d).utf8Size = 1 := by
  decide

/-- A string of one-byte characters has as many bytes as characters. -/
theorem utf8ByteSize_ofList {cs : List Char} (h : ∀ c ∈ cs, c.utf8Size = 1) :
    (String.ofList cs).utf8ByteSize = cs.length := by
  induction cs with
  | nil => rfl
  | cons c cs ih =>
      rw [List.forall_mem_cons] at h
      have hcons : String.ofList (c :: cs) = String.singleton c ++ String.ofList cs := by
        rw [String.singleton_eq_ofList, ← String.ofList_append, List.singleton_append]
      rw [hcons, String.utf8ByteSize_append, String.utf8ByteSize_singleton, h.1, ih h.2,
        List.length_cons, Nat.add_comm]

/-- Every character of a task id is a digit of one byte. -/
theorem toHex_chars (t : TaskId) : ∀ c ∈ (digits 16 32 t.value).map hexChar,
    isAsciiHexdigit c = true ∧ c.utf8Size = 1 := by
  intro c hc
  obtain ⟨d, hd, rfl⟩ := List.mem_map.mp hc
  obtain ⟨hhex, -, hsize⟩ := hexChar_spec d (digits_lt (by decide) d hd)
  exact ⟨hhex, hsize⟩

/-- The wire form of a task id is 32 bytes long. -/
theorem utf8ByteSize_toHex (t : TaskId) : (TaskId.toHex t).utf8ByteSize = 32 := by
  rw [TaskId.toHex, utf8ByteSize_ofList fun c hc => (toHex_chars t c hc).2, List.length_map,
    length_digits]

/-- **The wire form of a task id is read back.** -/
theorem fromHex_toHex (t : TaskId) : TaskId.fromHex (TaskId.toHex t) = .ok t := by
  have hall : (TaskId.toHex t).toList.all isAsciiHexdigit = true := by
    rw [TaskId.toHex, String.toList_ofList, List.all_eq_true]
    exact fun c hc => (toHex_chars t c hc).1
  have hvalue : value 16 ((TaskId.toHex t).toList.map hexCharValue) = t.value := by
    have hmap : (digits 16 32 t.value).map (hexCharValue ∘ hexChar) = digits 16 32 t.value :=
      (List.map_congr_left fun d hd => (hexChar_spec d (digits_lt (by decide) d hd)).2.1).trans
        (List.map_id _)
    rw [TaskId.toHex, String.toList_ofList, List.map_map, hmap,
      value_digits (lt_of_lt_of_eq t.isLt (by norm_num))]
  rw [TaskId.fromHex, if_neg (not_not.mpr (utf8ByteSize_toHex t)), if_neg (not_not.mpr hall),
    dif_pos (by rw [hvalue]; exact t.isLt)]
  exact congrArg Except.ok (by cases t; simp only [hvalue])

/-! ## Failure codes -/

/-- The failure codes by their names on the wire. -/
def FailureCode.name : FailureCode → String
  | .unauthorized => "unauthorized"
  | .rejected => "rejected"
  | .deadlineExceeded => "deadline_exceeded"
  | .handlerError => "handler_error"

/-- The failure code of a name. -/
def FailureCode.ofName : String → Option FailureCode
  | "unauthorized" => some .unauthorized
  | "rejected" => some .rejected
  | "deadline_exceeded" => some .deadlineExceeded
  | "handler_error" => some .handlerError
  | _ => none

/-! ## Close codes and outcomes -/

/-- The close codes keep the names of their variants. -/
def CloseCode.variant : CloseCode → String
  | .normal => "Normal"
  | .rateLimited => "RateLimited"
  | .frameTooLarge => "FrameTooLarge"
  | .malformedFrame => "MalformedFrame"
  | .protocolViolation => "ProtocolViolation"
  | .timeout => "Timeout"

/-- The close code of a variant's name. -/
def CloseCode.ofVariant : String → Option CloseCode
  | "Normal" => some .normal
  | "RateLimited" => some .rateLimited
  | "FrameTooLarge" => some .frameTooLarge
  | "MalformedFrame" => some .malformedFrame
  | "ProtocolViolation" => some .protocolViolation
  | "Timeout" => some .timeout
  | _ => none

/-- An externally tagged enum: a name, or an object with the name and the content. -/
def Outcome.serialize : Outcome → Value
  | .completed => .str "completed"
  | .failed code => .obj [("failed", .str (FailureCode.name code))]
  | .canceled => .str "canceled"
  | .closed code => .obj [("closed", .str (CloseCode.variant code))]
  | .peerLost => .str "peer_lost"

/-! ## Tags and fields -/

/-- What stands beside the tag: named fields, or values in the order of the fields. -/
inductive Content where
  | map (fields : List (String × Value))
  | seq (items : List Value)

/-- Take the tag out of an internally tagged value. -/
def tagged (tag : String) : Value → Option (String × Content)
  | .obj fields =>
      match fields.filter fun p => p.1 = tag with
      | [(_, .str variant)] => some (variant, .map (fields.filter fun p => p.1 ≠ tag))
      | _ => none
  | .arr (.str variant :: items) => some (variant, .seq items)
  | _ => none

/-- The values of a variant's fields, where they are given.  Unknown names are ignored; a
    known name twice, or more values than fields, is an error. -/
def fieldsOf (names : List String) : Content → Option (List (Option Value))
  | .map fields =>
      if ∀ name ∈ names, fields.countP (fun p => p.1 = name) ≤ 1 then
        some (names.map fun name => fields.lookup name)
      else none
  | .seq items =>
      if items.length ≤ names.length then
        some (items.map some ++ List.replicate (names.length - items.length) none)
      else none

def deserializeString : Value → Option String
  | .str s => some s
  | _ => none

/-- An unsigned integer of at most 32 bits. -/
def deserializeU32 : Value → Option Nat
  | .nat n => tryFrom 32 n
  | _ => none

/-- A task id is a string that must be in its wire form. -/
def deserializeTask (v : Value) : Option TaskId :=
  (deserializeString v).bind fun s => (TaskId.fromHex s).toOption

/-- A deadline is an integer that must pass the deadline's own check. -/
def deserializeDeadline (v : Value) : Option Deadline :=
  (deserializeU32 v).bind fun ms => (Deadline.new ms).toOption

/-- A content type is a string that must pass the content type's own check. -/
def deserializeContentType (v : Value) : Option ContentType :=
  (deserializeString v).bind fun s => (ContentType.new s).toOption

/-- A unit variant: its name, or an object with that one key and an empty value. -/
def deserializeCode : Value → Option FailureCode
  | .str s | .obj [(s, .null)] | .obj [(s, .obj [])] => FailureCode.ofName s
  | _ => none

/-- A close code is a unit variant. -/
def deserializeCloseCode : Value → Option CloseCode
  | .str s | .obj [(s, .null)] | .obj [(s, .obj [])] => CloseCode.ofVariant s
  | _ => none

/-- The variants of an outcome that have no content. -/
def Outcome.ofName : String → Option Outcome
  | "completed" => some .completed
  | "canceled" => some .canceled
  | "peer_lost" => some .peerLost
  | _ => none

/-- An outcome: a unit variant, or one of the two with a code. -/
def deserializeOutcome : Value → Option Outcome
  | .obj [("failed", v)] => (deserializeCode v).map .failed
  | .obj [("closed", v)] => (deserializeCloseCode v).map .closed
  | .str s | .obj [(s, .null)] | .obj [(s, .obj [])] => Outcome.ofName s
  | _ => none

/-- Every outcome is read back. -/
theorem deserializeOutcome_serialize (o : Outcome) :
    deserializeOutcome (Outcome.serialize o) = some o := by
  cases o with
  | failed code | closed code => cases code <;> rfl
  | _ => rfl

/-- The tag comes first and no other field has its name. -/
theorem tagged_obj {tag variant : String} {fields : List (String × Value)}
    (h : tag ∉ fields.map Prod.fst) :
    tagged tag (.obj ((tag, .str variant) :: fields)) = some (variant, .map fields) := by
  have hne : ∀ p ∈ fields, p.1 ≠ tag := by
    rintro p hp rfl
    exact h (List.mem_map_of_mem hp)
  have hsame : fields.filter (fun p => p.1 = tag) = [] := by
    rw [List.filter_eq_nil_iff]
    intro p hp
    rw [decide_eq_true_eq]
    exact hne p hp
  -- The tag is taken out once and leaves the other fields in their order.
  have hrest : fields.filter (fun p => p.1 ≠ tag) = fields := by
    rw [List.filter_eq_self]
    intro p hp
    exact decide_eq_true (hne p hp)
  simp only [tagged, List.filter_cons, ne_eq, not_true, decide_true, decide_false, if_true, hsame,
    Bool.false_eq_true, if_false]
  exact congrArg (fun fs => some (variant, Content.map fs)) hrest

/-- A task id is read back. -/
theorem deserializeTask_toHex (t : TaskId) : deserializeTask (.str (TaskId.toHex t)) = some t := by
  rw [deserializeTask, deserializeString, Option.bind_some, fromHex_toHex]
  rfl

/-- A deadline is read back. -/
theorem deserializeDeadline_ms (d : Deadline) : deserializeDeadline (.nat d.ms) = some d := by
  have hfit : d.ms < 2 ^ 32 := lt_of_le_of_lt d.le_max (by decide)
  rw [deserializeDeadline, deserializeU32, tryFrom, if_pos hfit, Option.bind_some,
    deadline_new_eq]
  rfl

/-- A content type is read back. -/
theorem deserializeContentType_value (c : ContentType) :
    deserializeContentType (.str c.value) = some c := by
  rw [deserializeContentType, deserializeString, Option.bind_some, contentType_new_eq]
  rfl

/-! ## The text layer -/

/-- The JSON text crate: the bytes it prints for a value and the value it reads from
    bytes. -/
class JsonText where
  print : Value → Bytes
  parse : Bytes → Option Value

/-- A string or an integer of at most 64 bits. -/
def Scalar : Value → Prop
  | .str _ => True
  | .nat n => n < 2 ^ 64
  | _ => False

/-- The text layer reads back the objects of strings and integers it printed. -/
def ReadsBack (text : JsonText) : Prop :=
  ∀ fields : List (String × Value), (∀ p ∈ fields, Scalar p.2) →
    text.parse (text.print (.obj fields)) = some (.obj fields)

/-- Strings, integers of at most 64 bits, and lists and objects of such, nested at most
    `depth` deep. -/
def Plain : Nat → Value → Prop
  | _, .str _ => True
  | _, .nat n => n < 2 ^ 64
  | depth + 1, .arr items => ∀ v ∈ items, Plain depth v
  | depth + 1, .obj fields => ∀ p ∈ fields, Plain depth p.2
  | _, _ => False

/-- The text layer reads back what it printed, up to its recursion limit. -/
def ReadsBackNested (text : JsonText) : Prop :=
  ∀ v, Plain 127 v → text.parse (text.print v) = some v

/-- The compact printer and its reader, for runs on concrete inputs. -/
@[reducible] def compactJson : JsonText := ⟨Json.print, Json.parse⟩

/-- Fields of strings and integers have no foreign numeral. -/
theorem readableFields {fields : List (String × Value)} (h : ∀ p ∈ fields, Scalar p.2) :
    Json.ReadableFields fields := by
  induction fields with
  | nil => unfold Json.ReadableFields; exact trivial
  | cons p fields ih =>
      obtain ⟨hp, hfields⟩ := List.forall_mem_cons.mp h
      obtain ⟨k, v⟩ := p
      rw [Json.ReadableFields]
      refine ⟨?_, ih hfields⟩
      cases v with
      | str s | nat n => unfold Json.Readable; exact trivial
      | _ => exact hp.elim

/-- Its reader reads back what the compact printer prints. -/
theorem compactJson_readsBack : ReadsBack compactJson := by
  intro fields h
  exact Json.parse_print (by unfold Json.Readable; exact readableFields h)

theorem plain_str (depth : Nat) (s : String) : Plain depth (.str s) := by
  cases depth <;> unfold Plain <;> exact trivial

theorem plain_nat (depth : Nat) {n : Nat} (h : n < 2 ^ 64) : Plain depth (.nat n) := by
  cases depth <;> unfold Plain <;> exact h

/-- A deeper limit allows no less. -/
theorem plain_mono {d d' : Nat} {v : Value} (h : Plain d v) (hle : d ≤ d') : Plain d' v := by
  induction d generalizing d' v with
  | zero =>
      cases v with
      | str s => exact plain_str d' s
      | nat n =>
          unfold Plain at h
          exact plain_nat d' h
      | _ => unfold Plain at h; exact h.elim
  | succ d ih =>
      have hpos := lt_of_lt_of_le d.succ_pos hle
      obtain ⟨d', rfl⟩ := Nat.exists_eq_add_one_of_ne_zero (Nat.ne_of_gt hpos)
      have hle' := Nat.le_of_succ_le_succ hle
      cases v with
      | str s => exact plain_str (d' + 1) s
      | nat n =>
          unfold Plain at h
          exact plain_nat (d' + 1) h
      | arr items =>
          -- One level less is left for the items, on both sides.
          unfold Plain at h ⊢
          exact fun v hv => ih (h v hv) hle'
      | obj fields =>
          unfold Plain at h ⊢
          exact fun p hp => ih (h p hp) hle'
      | _ => unfold Plain at h; exact h.elim

/-- Scalars are plain. -/
theorem plain_of_scalar {v : Value} (h : Scalar v) : Plain 0 v := by
  cases v with
  | str s => exact plain_str 0 s
  | nat n => exact plain_nat 0 h
  | _ => exact h.elim

mutual

/-- A plain value has no foreign numeral. -/
theorem readable_of_plain : ∀ {d : Nat} (v : Value), Plain d v → Json.Readable v
  | _, .str _, _ => by unfold Json.Readable; exact trivial
  | _, .nat _, _ => by unfold Json.Readable; exact trivial
  | d + 1, .arr items, h => by
      unfold Plain at h
      unfold Json.Readable
      exact readableItems_of_plain items h
  | d + 1, .obj fields, h => by
      unfold Plain at h
      unfold Json.Readable
      exact readableFields_of_plain fields h
  | 0, .arr _, h | 0, .obj _, h => by unfold Plain at h; exact h.elim
  | _, .null, h | _, .bool _, h | _, .numeral _, h => by unfold Plain at h; exact h.elim

theorem readableItems_of_plain {d : Nat} : ∀ items : List Value,
    (∀ v ∈ items, Plain d v) → Json.ReadableItems items
  | [], _ => by unfold Json.ReadableItems; exact trivial
  | v :: items, h => by
      obtain ⟨hv, hitems⟩ := List.forall_mem_cons.mp h
      unfold Json.ReadableItems
      exact ⟨readable_of_plain v hv, readableItems_of_plain items hitems⟩

theorem readableFields_of_plain {d : Nat} : ∀ fields : List (String × Value),
    (∀ p ∈ fields, Plain d p.2) → Json.ReadableFields fields
  | [], _ => by unfold Json.ReadableFields; exact trivial
  | (k, v) :: fields, h => by
      obtain ⟨hv, hfields⟩ := List.forall_mem_cons.mp h
      unfold Json.ReadableFields
      exact ⟨readable_of_plain v hv, readableFields_of_plain fields hfields⟩

end

/-- An outcome is nested one deep. -/
theorem plain_outcome (o : Outcome) : Plain 1 (Outcome.serialize o) := by
  have hobj : ∀ k s, Plain 1 (.obj [(k, .str s)]) := by
    intro k s
    unfold Plain
    intro p hp
    obtain rfl := List.mem_singleton.mp hp
    exact plain_str 0 s
  cases o with
  | failed code | closed code => exact hobj _ _
  | _ => exact plain_str 1 _

/-- Also where it is nested. -/
theorem compactJson_readsBackNested : ReadsBackNested compactJson :=
  fun v h => Json.parse_print (readable_of_plain v h)

/-! ## Messages -/

variable [Base64Engine]

/-- The credential is left out of the header when there is none. -/
def credentialField : Option Credential → List (String × Value)
  | some c => [("credential", .str c.encoded)]
  | none => []

/-- The tag and the fields of a message; the body is skipped. -/
def serialize : Message → Value
  | .submit task deadline contentType credential _ =>
      .obj ([("type", .str "submit"), ("task", .str (TaskId.toHex task)),
        ("deadline", .nat deadline.ms), ("content_type", .str contentType.value)] ++
        credentialField credential)
  | .accepted => .obj [("type", .str "accepted")]
  | .progress => .obj [("type", .str "progress")]
  | .needInput => .obj [("type", .str "need_input")]
  | .input _ => .obj [("type", .str "input")]
  | .completed _ => .obj [("type", .str "completed")]
  | .failed code => .obj [("type", .str "failed"), ("code", .str (FailureCode.name code))]
  | .cancel => .obj [("type", .str "cancel")]
  | .canceled => .obj [("type", .str "canceled")]

/-- A defaulted optional field: missing and `null` are both `None`. -/
def deserializeCredential : Option Value → Option (Option Credential)
  | none | some .null => some none
  | some v => (deserializeString v).bind fun s => (Credential.new s).toOption.map some

/-- The fields of a `submit`; the credential may be missing. -/
def deserializeSubmit (content : Content) : Option Message := do
  match ← fieldsOf ["task", "deadline", "content_type", "credential"] content with
  | [some task, some deadline, some contentType, credential] =>
      let task ← deserializeTask task
      let deadline ← deserializeDeadline deadline
      let contentType ← deserializeContentType contentType
      let credential ← deserializeCredential credential
      some (.submit task deadline contentType credential [])
  | _ => none

/-- The field of a `failed`. -/
def deserializeFailed (content : Content) : Option Message := do
  match ← fieldsOf ["code"] content with
  | [some code] => (deserializeCode code).map .failed
  | _ => none

/-- A variant without fields in the header. -/
def deserializeUnit (m : Message) (content : Content) : Option Message :=
  (fieldsOf [] content).map fun _ => m

/-- The message that a tag names. -/
def deserializeVariant : String → Content → Option Message
  | "submit" => deserializeSubmit
  | "accepted" => deserializeUnit .accepted
  | "progress" => deserializeUnit .progress
  | "need_input" => deserializeUnit .needInput
  | "input" => deserializeUnit (.input [])
  | "completed" => deserializeUnit (.completed [])
  | "failed" => deserializeFailed
  | "cancel" => deserializeUnit .cancel
  | "canceled" => deserializeUnit .canceled
  | _ => fun _ => none

/-- The message a tagged object stands for, with an empty body. -/
def deserialize (v : Value) : Option Message :=
  (tagged "type" v).bind fun r => deserializeVariant r.1 r.2

/-- The fields of a `submit` are found under their names, with the credential and without. -/
theorem fieldsOf_credentialField (task deadline contentType : Value) (c : Option Credential) :
    fieldsOf ["task", "deadline", "content_type", "credential"]
      (.map ([("task", task), ("deadline", deadline), ("content_type", contentType)] ++
        credentialField c)) =
      some [some task, some deadline, some contentType, c.map fun c => .str c.encoded] := by
  cases c <;> rfl

/-- The credential is read back, a missing one as none. -/
theorem deserializeCredential_field (c : Option Credential) :
    deserializeCredential (c.map fun c => .str c.encoded) = some c := by
  cases c with
  | none => rfl
  | some c =>
      rw [Option.map_some, deserializeCredential, deserializeString, Option.bind_some,
        credential_new_eq]
      · rfl
      · rintro ⟨⟩

/-- The fields of a `submit` are read back. -/
theorem deserializeSubmit_ok {task : TaskId} {deadline : Deadline} {contentType : ContentType}
    {credential : Option Credential} :
    deserializeSubmit (.map ([("task", .str (TaskId.toHex task)), ("deadline", .nat deadline.ms),
      ("content_type", .str contentType.value)] ++ credentialField credential)) =
      some (.submit task deadline contentType credential []) := by
  rw [deserializeSubmit, fieldsOf_credentialField, Option.bind_eq_bind, Option.bind_some]
  dsimp only
  rw [deserializeTask_toHex, deserializeDeadline_ms, deserializeContentType_value,
    deserializeCredential_field]
  rfl

/-- **A serialized message is deserialized**, with its body left out. -/
theorem deserialize_serialize (m : Message) : deserialize (serialize m) = some (setBody m []) := by
  cases m with
  | submit task deadline contentType credential body =>
      have hname : "type" ∉ ([("task", Value.str (TaskId.toHex task)),
          ("deadline", .nat deadline.ms), ("content_type", .str contentType.value)] ++
          credentialField credential).map Prod.fst := by
        cases credential with
        | none => exact (by decide : "type" ∉ ["task", "deadline", "content_type"])
        | some c => exact (by decide : "type" ∉ ["task", "deadline", "content_type", "credential"])
      -- No other field is called `type`, so the tag found is the variant.
      rw [serialize, List.cons_append, deserialize, tagged_obj hname, Option.bind_some]
      exact deserializeSubmit_ok
  | failed code => cases code <;> rfl
  | _ => rfl

/-- A header is an object of strings and integers. -/
theorem serialize_scalars (m : Message) :
    ∃ fields, serialize m = .obj fields ∧ ∀ p ∈ fields, Scalar p.2 := by
  cases m with
  | submit task deadline contentType credential body =>
      have hdeadline : deadline.ms < 2 ^ 64 := lt_of_le_of_lt deadline.le_max (by decide)
      refine ⟨_, rfl, fun p hp => ?_⟩
      rcases List.mem_append.mp hp with hp | hp
      · simp only [List.mem_cons, List.not_mem_nil, or_false] at hp
        rcases hp with rfl | rfl | rfl | rfl
        exacts [trivial, trivial, hdeadline, trivial]
      · cases credential with
        | none => exact absurd hp List.not_mem_nil
        | some c =>
            obtain rfl := List.mem_singleton.mp hp
            trivial
  | failed code =>
      refine ⟨_, rfl, fun p hp => ?_⟩
      simp only [List.mem_cons, List.not_mem_nil, or_false] at hp
      rcases hp with rfl | rfl <;> trivial
  | _ =>
      refine ⟨_, rfl, fun p hp => ?_⟩
      obtain rfl := List.mem_singleton.mp hp
      trivial

/-! ## Headers -/

variable [text : JsonText]

/-- `serde_json::to_vec(message)`. -/
def toVec (m : Message) : Option Bytes := some (text.print (serialize m))

/-- `serde_json::from_slice(bytes)`. -/
def fromSlice (bytes : Bytes) : Option Message := (text.parse bytes).bind deserialize

/-- **The header round trip.** -/
theorem fromSlice_toVec (htext : ReadsBack text) {m : Message} {header : Bytes}
    (h : toVec m = some header) : fromSlice header = some (setBody m []) := by
  obtain rfl := Option.some.inj h
  obtain ⟨fields, hm, hscalar⟩ := serialize_scalars m
  rw [fromSlice, hm, htext fields hscalar, ← hm, Option.bind_some, deserialize_serialize]

end UatHeader
