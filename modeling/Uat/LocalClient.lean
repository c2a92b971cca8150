import Uat.LocalCodec
import Uat.Incoming

/-! # The local socket's answers — what the client is told, and when it is told nothing

    `handle_client` reads one request, makes one response of it and writes that.  The
    response to a refused `Dial` quotes the address that does not parse, printed for
    debugging inside a JSON string, under the cap that the request's header was read
    under; the two escapings can make the text longer than the cap.

    * **`handleClient`** — one session: the frame written, or the error it ends with, and
      what is left in the inbox slot.
    * **`answered_iff_quotable`** — a request that does not reach the node is answered
      exactly when the address its refusal would quote is at most 4019 bytes wide after
      both escapings.

    The two parsers, the node's `dial` and the Unicode tables of the standard library are
    parameters; nothing is assumed of them. -/

namespace UatLocalClient

open UatTypes UatHeader UatLocalCodec UatIncoming Checked
open UatCodec (maxFrame maxHdrLen Layout)
open Json (Value escapedWidth stringWidth stringWidth_append)

/-! ## Debug printing -/

/-- The tables `Debug` for strings looks characters up in, beyond ASCII. -/
class UnicodeTables where
  isGraphemeExtended : Char → Bool
  isPrintable : Char → Bool

section

variable [UnicodeTables]

/-- The hexadecimal escape. -/
def escapeUnicode (c : Char) : List Char :=
  "\\u\x7b".toList ++ Nat.toDigits 16 c.toNat ++ "\x7d".toList

/-- A character of a string as `Debug` writes it. -/
def escapeDebug (c : Char) : List Char :=
  if c.toNat = 0 then "\\0".toList
  else if c.toNat = 9 then "\\t".toList
  else if c.toNat = 10 then "\\n".toList
  else if c.toNat = 13 then "\\r".toList
  else if c.toNat = 34 then "\\\"".toList
  else if c.toNat = 92 then "\\\\".toList
  else if 32 ≤ c.toNat ∧ c.toNat ≤ 126 then [c]
  else if UnicodeTables.isGraphemeExtended c then escapeUnicode c
  else if UnicodeTables.isPrintable c then [c]
  else escapeUnicode c

/-- `format!("{s:?}")` of a string. -/
def debugStr (s : String) : String :=
  "\"" ++ String.ofList (s.toList.flatMap escapeDebug) ++ "\""

/-- The bytes a character takes in a debug-printed text inside a JSON string. -/
def quotedWidth (c : Char) : Nat := ((escapeDebug c).map escapedWidth).sum

/-- The two quotation marks take two bytes each. -/
theorem stringWidth_debugStr (s : String) :
    stringWidth (debugStr s) = 4 + (s.toList.map quotedWidth).sum := by
  have hquote : stringWidth "\"" = 2 := by decide
  have hinner : stringWidth (String.ofList (s.toList.flatMap escapeDebug)) =
      (s.toList.map quotedWidth).sum := by
    rw [stringWidth, String.toList_ofList]
    induction s.toList with
    | nil => rfl
    | cons c cs ih =>
        rw [List.flatMap_cons, List.map_append, List.sum_append, ih, List.map_cons, List.sum_cons]
        rfl
  rw [debugStr, stringWidth_append, stringWidth_append, hquote, hinner]
  omega

/-- The text of the standard library's `AddrParseError` for socket addresses. -/
def addrParseError : String := "invalid socket address syntax"

/-- The refusal of an address. -/
def invalidAddr (a : String) : String := "invalid addr " ++ debugStr a ++ ": " ++ addrParseError

/-- The refusal of an address is 48 bytes and the address, escaped twice. -/
theorem stringWidth_invalidAddr (a : String) :
    stringWidth (invalidAddr a) = 48 + (a.toList.map quotedWidth).sum := by
  have hbefore : stringWidth "invalid addr " = 13 := by decide
  have hcolon : stringWidth ": " = 2 := by decide
  have hafter : stringWidth addrParseError = 29 := by decide
  have happend : stringWidth (invalidAddr a) =
      stringWidth "invalid addr " + stringWidth (debugStr a) + stringWidth ": " +
        stringWidth addrParseError := by
    rw [invalidAddr, stringWidth_append, stringWidth_append, stringWidth_append]
  have hquoted := stringWidth_debugStr a
  omega

end

/-- The items of a debug-printed byte array. -/
def debugBytes : Bytes → String
  | [] => ""
  | [b] => Nat.repr b.toNat
  | b :: bs => Nat.repr b.toNat ++ ", " ++ debugBytes bs

/-- `format!("{id:?}")` of a node id. -/
def debugNodeId (id : NodeId) : String := "NodeId([" ++ debugBytes id.bytes ++ "])"

theorem escapedWidth_digit {c : Char} (h : c.isDigit = true) : escapedWidth c = 1 := by
  obtain ⟨hlow, hhigh⟩ := Bool.and_eq_true_iff.mp h
  have h48 : 48 ≤ c.toNat := of_decide_eq_true hlow
  have h57 : c.toNat ≤ 57 := of_decide_eq_true hhigh
  have hall : ∀ n < 58, 48 ≤ n → escapedWidth (Char.ofNat n) = 1 := by
    decide +kernel
  rw [← Char.ofNat_toNat c]
  exact hall c.toNat (by omega) h48

/-- No digit is escaped. -/
theorem stringWidth_repr (b : UInt8) : stringWidth (Nat.repr b.toNat) ≤ 3 := by
  have hdigit : ∀ c ∈ Nat.toDigits 10 b.toNat, escapedWidth c = 1 := fun c hc =>
    escapedWidth_digit (Nat.isDigit_of_mem_toDigits (by decide) (by decide) hc)
  have hlen : (Nat.toDigits 10 b.toNat).length ≤ 3 :=
    (Nat.length_toDigits_le_iff (by decide) (by decide)).mpr
      (b.toNat_lt.trans (by decide))
  rw [stringWidth, Nat.toList_repr, List.map_congr_left hdigit, List.map_const',
    List.sum_replicate_nat]
  omega

/-- The `Debug` text of bytes takes at most five characters a byte. -/
theorem stringWidth_debugBytes (bs : Bytes) : stringWidth (debugBytes bs) ≤ 5 * bs.length := by
  induction bs using debugBytes.induct with
  | case1 => exact Nat.le_refl 0
  | case2 b => exact (stringWidth_repr b).trans (Nat.le_add_left 3 2)
  | case3 b bs hne ih =>
      have hb := stringWidth_repr b
      have hcomma : stringWidth ", " = 2 := by decide
      rw [debugBytes, stringWidth_append, stringWidth_append, hcomma, List.length_cons]
      · omega
      · exact hne

/-- A node id is 32 numbers of at most three digits. -/
theorem stringWidth_debugNodeId (id : NodeId) : stringWidth (debugNodeId id) ≤ 170 := by
  have hbytes := stringWidth_debugBytes id.bytes
  have hopen : stringWidth "NodeId([" = 8 := by decide
  have hclose : stringWidth "])" = 2 := by decide
  have hlen := id.length_eq
  rw [debugNodeId, stringWidth_append, stringWidth_append, hopen, hclose]
  omega

/-! ## How long an answer is -/

/-- The header of an error is its text and 29 bytes. -/
theorem length_error [Base64Engine] (message : String) :
    (Json.print (LocalResponse.error message).serialize).length = 29 + stringWidth message := by
  have htype : (Json.quote "type").length = 6 := by decide
  have herror : (Json.quote "error").length = 7 := by decide
  have hmessage : (Json.quote "message").length = 9 := by decide
  rw [LocalResponse.serialize]
  simp only [Json.print, Json.printFields, List.length_cons, List.length_append, List.tail_cons,
    List.length_nil, htype, herror, hmessage, Json.length_quote message]
  omega

/-- An outcome takes 40 bytes, at most. -/
theorem length_outcome_le (o : Outcome) : (Json.print (Outcome.serialize o)).length ≤ 40 := by
  cases o with
  | failed code | closed code => cases code <;> decide
  | _ => decide

/-- The answer to a poll of a filled slot. -/
theorem length_inboxEvent_le [Base64Engine] (peer : String) (outcome : Outcome) :
    (Json.print (LocalResponse.inboxEvent peer outcome).serialize).length ≤
      90 + stringWidth peer := by
  have htype : (Json.quote "type").length = 6 := by decide
  have hevent : (Json.quote "inbox_event").length = 13 := by decide
  have hpeer : (Json.quote "peer").length = 6 := by decide
  have hkey : (Json.quote "outcome").length = 9 := by decide
  have houtcome := length_outcome_le outcome
  rw [LocalResponse.serialize]
  simp only [Json.print, Json.printFields, List.length_cons, List.length_append, List.tail_cons,
    List.length_nil, htype, hevent, hpeer, hkey, Json.length_quote peer]
  omega

/-! ## One session -/

/-- What the daemon answers with: the parser of endpoint ids and the text of its errors,
    the parser of socket addresses, and `Node::dial` with the text of its errors. -/
structure Daemon [Base64Engine] (Peer Addr : Type) where
  parsePeer : String → Except String Peer
  parseAddr : String → Option Addr
  dial : Peer × List Addr → Message → Except String (Outcome × Option UInt64)

section

variable [Base64Engine] [UnicodeTables] {Peer Addr : Type}

/-- The loop over the addresses: the first that does not parse ends it. -/
def sockAddrs (daemon : Daemon Peer Addr) : List String → Except String (List Addr)
  | [] => .ok []
  | a :: addrs =>
      match daemon.parseAddr a with
      | none => .error (invalidAddr a)
      | some addr => (sockAddrs daemon addrs).map (addr :: ·)

/-- The arguments of `Node::dial`, or the error that the first of them to fail gives. -/
def buildDial (daemon : Daemon Peer Addr) (peer : String) (addrs : List String) (task : TaskId)
    (deadline : Deadline) (contentType : ContentType) (credential : Option Credential)
    (body : Bytes) : Except String ((Peer × List Addr) × Message) := do
  let peerId ← (daemon.parsePeer peer).mapError ("invalid peer endpoint id: " ++ ·)
  if addrs = [] then .error "dial requires at least one addr" else
  let addrs ← sockAddrs daemon addrs
  .ok ((peerId, addrs), .submit task deadline contentType credential body)

/-- The response to a request, and what it leaves in the inbox slot. -/
def respond (daemon : Daemon Peer Addr) (req : LocalRequest) (slot : Option InboxEvent) :
    LocalResponse × Option InboxEvent :=
  match req with
  | .dial peer addrs task deadline contentType credential body =>
      match buildDial daemon peer addrs task deadline contentType credential body with
      | .ok (addr, submit) =>
          match daemon.dial addr submit with
          | .ok (outcome, rttMs) => (.dialResult outcome rttMs, slot)
          | .error err => (.error err, slot)
      | .error message => (.error message, slot)
  | .inbox =>
      match slot with
      | some ev => (.inboxEvent (debugNodeId ev.peer) ev.outcome, none)
      | none => (.inboxIdle, none)
  | .message _ =>
      (.error ("message forwarding on the local socket requires an active call session " ++
        "(M1 dial is one-shot; use Dial)"), slot)

/-- `handle_client` on one frame: what is written to the stream or the error that ends the
    session without a word, and the slot. -/
def handleClient [JsonText] (daemon : Daemon Peer Addr) (frame : Bytes)
    (slot : Option InboxEvent) : Exec LocalCodecError Bytes × Option InboxEvent :=
  match decodeRequest frame with
  | .error stop => (.error stop, slot)
  | .ok req =>
      ((encodeResponse (respond daemon req slot).1 []).mapError .err,
        (respond daemon req slot).2)

/-! ## Which address is refused -/

/-- The address a refused `Dial` is refused for. -/
def firstInvalid (daemon : Daemon Peer Addr) (addrs : List String) : Option String :=
  addrs.find? fun a => (daemon.parseAddr a).isNone

/-- The loop fails on the first address that does not parse, and on no other. -/
theorem sockAddrs_error_iff {daemon : Daemon Peer Addr} {addrs : List String} {err : String} :
    sockAddrs daemon addrs = .error err ↔
      ∃ a, firstInvalid daemon addrs = some a ∧ err = invalidAddr a := by
  induction addrs with
  | nil =>
      constructor
      · intro h
        cases h
      · rintro ⟨a, h, -⟩
        cases h
  | cons a addrs ih =>
      rw [sockAddrs, firstInvalid, List.find?_cons]
      cases hparse : daemon.parseAddr a with
      | none =>
          constructor
          · intro h
            exact ⟨a, rfl, (Except.error.inj h).symm⟩
          · rintro ⟨a', ha, rfl⟩
            obtain rfl := Option.some.inj ha
            rfl
      | some addr =>
          show (sockAddrs daemon addrs).map _ = _ ↔
            ∃ a, firstInvalid daemon addrs = some a ∧ err = invalidAddr a
          rw [← ih]
          cases sockAddrs daemon addrs with
          | error err' => exact Iff.rfl
          | ok l => exact ⟨fun h => (by cases h), fun h => (by cases h)⟩

/-- With a valid peer id, the addresses decide. -/
theorem buildDial_of_peer {daemon : Daemon Peer Addr} {peer : String} {id : Peer}
    (hpeer : daemon.parsePeer peer = .ok id) (addrs : List String) (task : TaskId)
    (deadline : Deadline) (contentType : ContentType) (credential : Option Credential)
    (body : Bytes) :
    buildDial daemon peer addrs task deadline contentType credential body =
      if addrs = [] then .error "dial requires at least one addr"
      else (sockAddrs daemon addrs).map fun addrs =>
        ((id, addrs), .submit task deadline contentType credential body) := by
  rw [buildDial, hpeer]
  show (if addrs = [] then _ else _) = _
  by_cases hempty : addrs = []
  · rw [if_pos hempty, if_pos hempty]
  · rw [if_neg hempty, if_neg hempty]
    cases sockAddrs daemon addrs with
    | error err => rfl
    | ok l => rfl

/-! ## Which requests are answered -/

/-- `build_dial` accepts the request, and it goes on to the node. -/
def ReachesDial (daemon : Daemon Peer Addr) : LocalRequest → Prop
  | .dial peer addrs task deadline contentType credential body =>
      ∃ r, buildDial daemon peer addrs task deadline contentType credential body = .ok r
  | _ => False

/-- The peer's id can be read. -/
def ValidPeer (daemon : Daemon Peer Addr) : LocalRequest → Prop
  | .dial peer _ _ _ _ _ _ => ∃ id, daemon.parsePeer peer = .ok id
  | _ => True

/-- The address a refusal would quote leaves room for the rest of the header. -/
def Quotable (daemon : Daemon Peer Addr) : LocalRequest → Prop
  | .dial _ addrs _ _ _ _ _ =>
      ∀ a, firstInvalid daemon addrs = some a → (a.toList.map quotedWidth).sum ≤ 4019
  | _ => True

/-- Of a request that stays with the socket, only the refusal of an address can be too long. -/
theorem length_respond_le_iff {daemon : Daemon Peer Addr} {req : LocalRequest}
    (hpeer : ValidPeer daemon req) (hdial : ¬ ReachesDial daemon req) (slot : Option InboxEvent) :
    (Json.print (respond daemon req slot).1.serialize).length ≤ maxHdrLen ↔
      Quotable daemon req := by
  have hmax : maxHdrLen = 4096 := rfl
  cases req with
  | dial peer addrs task deadline contentType credential body =>
      obtain ⟨id, hid⟩ := hpeer
      have hbuild := buildDial_of_peer hid addrs task deadline contentType credential body
      by_cases hempty : addrs = []
      · -- No address at all: the text is fixed, and there is none to quote.
        have hwidth : stringWidth "dial requires at least one addr" = 31 := by decide +kernel
        rw [if_pos hempty] at hbuild
        simp only [respond, hbuild, length_error, hwidth]
        refine iff_of_true (by omega) fun a ha => ?_
        rw [hempty] at ha
        cases ha
      rw [if_neg hempty] at hbuild
      cases haddrs : sockAddrs daemon addrs with
      | ok l =>
          rw [haddrs] at hbuild
          exact absurd ⟨_, hbuild⟩ hdial
      | error err =>
          -- The refused address is quoted: its width is all that varies.
          obtain ⟨a, ha, rfl⟩ := sockAddrs_error_iff.mp haddrs
          rw [haddrs] at hbuild
          change _ = Except.error (invalidAddr a) at hbuild
          simp only [respond, hbuild, length_error, stringWidth_invalidAddr]
          constructor
          · intro hle a' ha'
            obtain rfl := Option.some.inj (ha.symm.trans ha')
            omega
          · intro hquotable
            have := hquotable a ha
            omega
  | inbox =>
      refine iff_of_true ?_ trivial
      cases slot with
      | none =>
          exact (by decide :
            (Json.print (.obj [("type", .str "inbox_idle")])).length ≤ maxHdrLen)
      | some ev =>
          have hevent := length_inboxEvent_le (debugNodeId ev.peer) ev.outcome
          have hpeer := stringWidth_debugNodeId ev.peer
          show (Json.print (LocalResponse.inboxEvent _ _).serialize).length ≤ maxHdrLen
          omega
  | message m =>
      refine iff_of_true ?_ trivial
      show (Json.print (LocalResponse.error _).serialize).length ≤ maxHdrLen
      rw [length_error, stringWidth_append]
      decide

/-- Only the answer to a message could have a body, and no answer is of that kind. -/
theorem responseBody_respond (daemon : Daemon Peer Addr) (req : LocalRequest)
    (slot : Option InboxEvent) : responseBody (respond daemon req slot).1 = [] := by
  cases req with
  | dial peer addrs task deadline contentType credential body =>
      rw [respond]
      cases buildDial daemon peer addrs task deadline contentType credential body with
      | error message => rfl
      | ok r =>
          obtain ⟨addr, submit⟩ := r
          dsimp only
          cases daemon.dial addr submit with
          | error err => rfl
          | ok finish => rfl
  | inbox => cases slot <;> rfl
  | message m => rfl

variable [text : JsonText]

/-- The printer is the compact one. -/
def Compact (text : JsonText) : Prop := ∀ v, Plain 127 v → text.print v = Json.print v

/-- One response frame is written, and a client can decode it. -/
def Answered (daemon : Daemon Peer Addr) (frame : Bytes) (slot : Option InboxEvent) : Prop :=
  ∃ out header body resp, (handleClient daemon frame slot).1 = .ok out ∧
    Layout out header body [] ∧ decodeResponse out = .ok resp

/-- What the session ends with, from the length of the response's header. -/
theorem handleClient_fst (daemon : Daemon Peer Addr) {frame : Bytes} {req : LocalRequest}
    (slot : Option InboxEvent) (hreq : decodeRequest frame = .ok req) :
    (handleClient daemon frame slot).1 =
      (encodeResponse (respond daemon req slot).1 []).mapError .err := by
  rw [handleClient, hreq]

/-- A request is answered when its response's header fits. -/
theorem answered_iff_length (hread : ReadsBackNested text) (daemon : Daemon Peer Addr)
    {frame : Bytes} {req : LocalRequest} (hreq : decodeRequest frame = .ok req)
    (slot : Option InboxEvent) :
    Answered daemon frame slot ↔
      (text.print (respond daemon req slot).1.serialize).length ≤ maxHdrLen := by
  rw [Answered, handleClient_fst daemon slot hreq]
  constructor
  · rintro ⟨out, header, body, resp, hout, -, -⟩
    cases hencode : encodeResponse (respond daemon req slot).1 [] with
    | error err =>
        rw [hencode] at hout
        cases hout
    | ok out' => exact (encodeJsonFrame_ok_iff.mp hencode).1
  · intro hle
    -- A response has no body here: a header that fits makes a frame that fits.
    have hfit : 2 + (text.print (respond daemon req slot).1.serialize).length +
        (responseBody (respond daemon req slot).1).length ≤ maxFrame := by
      have hhdr : maxHdrLen = 4096 := rfl
      have hmax : maxFrame = 65536 := rfl
      rw [responseBody_respond, List.length_nil]
      omega
    obtain ⟨out, hencode⟩ : ∃ out, encodeResponse (respond daemon req slot).1 [] = .ok out :=
      ⟨_, encodeJsonFrame_ok_iff.mpr ⟨hle, hfit, rfl⟩⟩
    obtain ⟨out', rfl, hlayout⟩ := layout_of_encode hencode
    have hout := hlayout []
    rw [List.append_nil] at hout
    rw [hencode]
    exact ⟨_, _, _, _, rfl, hout, decodeResponse_layout hread hout⟩

/-- **A REQUEST IS ANSWERED EXACTLY WHEN ITS REFUSAL CAN BE QUOTED.**  Of the requests that
    do not reach the node, those are left without an answer that are refused for an address
    of more than 4019 bytes, each character counted as it stands in the response: debug
    printed, and then escaped for JSON. -/
theorem answered_iff_quotable (htext : Compact text) (hread : ReadsBackNested text)
    (daemon : Daemon Peer Addr) {frame : Bytes} {req : LocalRequest}
    (hreq : decodeRequest frame = .ok req) (hpeer : ValidPeer daemon req)
    (hdial : ¬ ReachesDial daemon req) (slot : Option InboxEvent) :
    Answered daemon frame slot ↔ Quotable daemon req := by
  rw [answered_iff_length hread daemon hreq slot,
    htext _ (plain_mono (plain_response _) (by decide))]
  exact length_respond_le_iff hpeer hdial slot

/-- What happens instead: the session ends in an error of the encoder, and nothing was
    written. -/
theorem headerTooLarge_of_not_quotable (htext : Compact text) (daemon : Daemon Peer Addr)
    {frame : Bytes} {req : LocalRequest} (hreq : decodeRequest frame = .ok req)
    (hpeer : ValidPeer daemon req) (hdial : ¬ ReachesDial daemon req)
    (slot : Option InboxEvent) (hquotable : ¬ Quotable daemon req) :
    (handleClient daemon frame slot).1 = fail .headerTooLarge := by
  have hlong : ¬ (text.print (respond daemon req slot).1.serialize).length ≤ maxHdrLen := by
    rw [htext _ (plain_mono (plain_response _) (by decide))]
    exact fun h => hquotable ((length_respond_le_iff hpeer hdial slot).mp h)
  rw [handleClient_fst daemon slot hreq, encodeResponse, encodeJsonFrame,
    if_pos (not_le.mp hlong)]
  rfl

end

/-! ## An address of quotation marks -/

section

attribute [local instance] urlSafeNoPad compactJson

/-- Tables without a character that needs an escape. -/
local instance : UnicodeTables := ⟨fun _ => false, fun _ => true⟩

/-- A public key in its printed form. -/
def knownPeer : String := "5866666666666666666666666666666666666666666666666666666666666666"

/-- A daemon that knows one peer and one address, and cannot dial. -/
def loopback : Daemon String Nat where
  parsePeer s := if s = knownPeer then .ok s else .error "invalid length"
  parseAddr s := if s = "127.0.0.1:4433" then some 4433 else none
  dial _ _ := .error "dial timeout"

/-- A request to dial the peer at one address. -/
def dialAt (addr : String) : LocalRequest :=
  .dial knownPeer [addr] taskOne oneSecond plain none []

/-- The frame a client sends for a request without a body. -/
def requestFrame (req : LocalRequest) : Bytes :=
  Positional.toBe 4 (2 + (Json.print req.serialize).length) ++
    Positional.toBe 2 (Json.print req.serialize).length ++ Json.print req.serialize

/-- A `dial` of one address is its quoted address and 250 bytes, at most. -/
theorem length_dialAt_le (addr : String) :
    (Json.print (dialAt addr).serialize).length ≤ 250 + stringWidth addr := by
  have htype : (Json.quote "type").length = 6 := by decide
  have hdial : (Json.quote "dial").length = 6 := by decide
  have hpeer : (Json.quote "peer").length = 6 := by decide
  have hid : (Json.quote knownPeer).length = 66 := by decide
  have haddrs : (Json.quote "addrs").length = 7 := by decide
  have htask : (Json.quote "task").length = 6 := by decide
  have hhex : (Json.quote (TaskId.toHex taskOne)).length = 34 := by decide
  have hdeadline : (Json.quote "deadline").length = 10 := by decide
  have hdigits : (Json.decimal oneSecond.ms).length ≤ 4 :=
    Json.length_decimal_le (by decide) (by decide)
  have hcontentType : (Json.quote "content_type").length = 14 := by decide
  have hplain : (Json.quote plain.value).length = 12 := by decide
  rw [dialAt, LocalRequest.serialize]
  simp only [credentialField, List.append_nil, List.map_cons, List.map_nil, Json.print,
    Json.printFields, Json.printItems, List.length_cons, List.length_append, List.tail_cons,
    List.length_nil, htype, hdial, hpeer, hid, haddrs, htask, hhex, hdeadline, hcontentType,
    hplain, Json.length_quote addr]
  omega

/-- Such a request is read back, if its address is not too long. -/
theorem decodeRequest_dialAt {addr : String} (h : stringWidth addr ≤ 3800) :
    decodeRequest (requestFrame (dialAt addr)) = .ok (dialAt addr) := by
  have hle := length_dialAt_le addr
  have hhdr : maxHdrLen = 4096 := rfl
  have hmax : maxFrame = 65536 := rfl
  have hlayout :
      Layout (requestFrame (dialAt addr)) (Json.print (dialAt addr).serialize) [] [] := by
    refine ⟨?_, ?_, ?_⟩
    · rw [requestFrame, List.append_nil, List.append_nil]
      rfl
    · rw [List.length_nil]
      omega
    · omega
  exact decodeRequest_layout compactJson_readsBackNested hlayout

theorem parseAddr_loopback {addr : String} (h : addr ≠ "127.0.0.1:4433") :
    loopback.parseAddr addr = none := if_neg h

/-- An address that is not the one known is where the request ends. -/
theorem not_reachesDial_dialAt {addr : String} (h : addr ≠ "127.0.0.1:4433") :
    ¬ ReachesDial loopback (dialAt addr) := by
  have hpeer : loopback.parsePeer knownPeer = .ok knownPeer := rfl
  have haddrs : sockAddrs loopback [addr] = .error (invalidAddr addr) := by
    rw [sockAddrs, parseAddr_loopback h]
  rintro ⟨r, hr⟩
  rw [buildDial_of_peer hpeer, if_neg (List.cons_ne_nil _ _), haddrs] at hr
  cases hr

theorem compactJson_compact : Compact compactJson := fun _ _ => rfl

/-- A host name is no socket address, and its refusal is told. -/
theorem answered_iff_quotable_hostName :
    Answered loopback (requestFrame (dialAt "localhost:4433")) none := by
  have hwidth : stringWidth "localhost:4433" ≤ 3800 := by decide
  have hreq := decodeRequest_dialAt hwidth
  refine (answered_iff_quotable compactJson_compact compactJson_readsBackNested loopback hreq
    ⟨knownPeer, rfl⟩ (not_reachesDial_dialAt (by decide)) none).mpr ?_
  intro a ha
  obtain rfl : "localhost:4433" = a := Option.some.inj ha
  decide

/-- 1500 quotation marks. -/
def quotationMarks : String := String.ofList (List.replicate 1500 (Char.ofNat 34))

/-- **The same request with quotation marks for an address is not answered.**  They take two
    bytes each in the request and four in the response. -/
theorem quotation_marks_unanswered :
    decodeRequest (requestFrame (dialAt quotationMarks)) = .ok (dialAt quotationMarks) ∧
      ValidPeer loopback (dialAt quotationMarks) ∧
      ¬ ReachesDial loopback (dialAt quotationMarks) ∧
      (handleClient loopback (requestFrame (dialAt quotationMarks)) none).1 =
        fail .headerTooLarge ∧
      ¬ Answered loopback (requestFrame (dialAt quotationMarks)) none := by
  have hchars : quotationMarks.toList = List.replicate 1500 (Char.ofNat 34) :=
    String.toList_ofList
  have hjson : stringWidth quotationMarks = 1500 * 2 := by
    rw [stringWidth, hchars, List.map_replicate, List.sum_replicate_nat]
    rfl
  have hboth : (quotationMarks.toList.map quotedWidth).sum = 1500 * 4 := by
    rw [hchars, List.map_replicate, List.sum_replicate_nat]
    rfl
  have hne : quotationMarks ≠ "127.0.0.1:4433" := by
    intro h
    rw [h] at hjson
    revert hjson
    decide
  have hreq := decodeRequest_dialAt (hjson.trans_le (by decide))
  have hpeer : ValidPeer loopback (dialAt quotationMarks) := ⟨knownPeer, rfl⟩
  have hdial := not_reachesDial_dialAt hne
  have hinvalid : firstInvalid loopback [quotationMarks] = some quotationMarks := by
    rw [firstInvalid, List.find?_cons, parseAddr_loopback hne]
    rfl
  -- 6000 bytes of quotation, and 4019 have room.
  have hquotable : ¬ Quotable loopback (dialAt quotationMarks) := by
    intro h
    have := h quotationMarks hinvalid
    omega
  have hrun := headerTooLarge_of_not_quotable compactJson_compact loopback hreq hpeer hdial none
    hquotable
  refine ⟨hreq, hpeer, hdial, hrun, ?_⟩
  rintro ⟨out, header, body, resp, hout, -, -⟩
  rw [hrun] at hout
  cases hout

end

end UatLocalClient
