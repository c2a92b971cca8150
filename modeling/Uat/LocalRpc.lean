import Uat.LocalSession

/-! # Requests and answers on the local socket

    A session answers one request, and its client waits for one answer; both may be cut off
    anywhere.  What the daemon does on the way, a dial or the taking of an inbox event, is
    kept as its deeds: those of a session, and those of all sessions in their order.

    * **`Served`** — all that a request may make the daemon do, with the response to it.
    * **`Session.Sound`** — the invariant of a session: what went in either direction is a
      beginning of one frame, and what was done fits the request.
    * **`local_rpc`** — a session does at most what its own request asks for, once, and what
      its client is told is what was done.
    * **`local_inbox`** — no event of the inbox is told to two clients. -/

namespace UatLocalSession

open UatTypes UatHeader UatLocalCodec UatLocalClient UatIncoming UatRecvStream UatStream Checked
open StepRun TaskPool

/-! ## Who still reads -/

/-- The reader of a session that has not got its request. -/
def Server.reader : Server → Option Reader
  | .backlog => some .start
  | .reading r => some r
  | _ => none

/-- A session that reads is connected. -/
theorem ne_unconnected_of_reader {server : Server} {r : Reader} (h : server.reader = some r) :
    server ≠ .unconnected := by
  rintro rfl
  cases h

section

variable [Base64Engine] {Peer Addr : Type} {d d' : Shared Peer Addr} {s s' : Session Peer Addr}

/-! ## What is taken out of the inbox -/

/-- The events that were taken out of the slot. -/
def Deed.event : Deed Peer Addr → Option InboxEvent
  | .took ev => some ev
  | _ => none

/-- The events that were taken, and the one in the slot. -/
def Shared.events (d : Shared Peer Addr) : List InboxEvent :=
  d.deeds.filterMap Deed.event ++ d.latestInbox.toList

/-- What takes no event leaves the events as they are. -/
theorem Shared.events_does {deed : Deed Peer Addr} (h : deed.event = none) :
    (d.does deed).events = d.events := by
  have hlast : [deed].filterMap Deed.event = [] := List.filterMap_cons_none h
  show (d.deeds ++ [deed]).filterMap Deed.event ++ d.latestInbox.toList = _
  rw [List.filterMap_append, hlast, List.append_nil]
  rfl

/-- Events leave the slot in the order in which they came. -/
theorem signal_events {c : Signal} (h : d.events.Sublist d.stored)
    (hs : d.signal c = some d') : d'.events.Sublist d'.stored := by
  cases c with
  | store ev =>
      obtain rfl := Option.some.inj hs
      -- The event that was in the slot is overwritten.
      refine List.Sublist.append ?_ (List.Sublist.refl [ev])
      exact (List.sublist_append_left _ _).trans h
  | stop =>
      obtain rfl := Option.some.inj hs
      exact h

/-! ## What a request makes the daemon do -/

section

variable [UnicodeTables] (daemon : Daemon Peer Addr)

/-- All that a request may make the daemon do, and the response once there is one. -/
inductive Served : LocalRequest → List (Deed Peer Addr) → Option LocalResponse → Prop where
  | nothing (req : LocalRequest) : Served req [] none
  | dialing {peer : String} {addrs : List String} {task : TaskId} {deadline : Deadline}
      {contentType : ContentType} {credential : Option Credential} {body : Bytes}
      {addr : Peer × List Addr} {submit : Message}
      (h : buildDial daemon peer addrs task deadline contentType credential body =
        .ok (addr, submit)) :
      Served (.dial peer addrs task deadline contentType credential body)
        [.dialed addr submit] none
  | dialed {peer : String} {addrs : List String} {task : TaskId} {deadline : Deadline}
      {contentType : ContentType} {credential : Option Credential} {body : Bytes}
      {addr : Peer × List Addr} {submit : Message} (r : Except String (Outcome × Option UInt64))
      (h : buildDial daemon peer addrs task deadline contentType credential body =
        .ok (addr, submit)) :
      Served (.dial peer addrs task deadline contentType credential body)
        [.dialed addr submit, .dialEnded r] (some (dialResponse r))
  | refused {peer : String} {addrs : List String} {task : TaskId} {deadline : Deadline}
      {contentType : ContentType} {credential : Option Credential} {body : Bytes}
      {message : String}
      (h : buildDial daemon peer addrs task deadline contentType credential body =
        .error message) :
      Served (.dial peer addrs task deadline contentType credential body) []
        (some (.error message))
  | took (ev : InboxEvent) :
      Served .inbox [.took ev] (some (.inboxEvent (debugNodeId ev.peer) ev.outcome))
  | idle : Served .inbox [] (some .inboxIdle)
  | unforwarded (m : Message) : Served (.message m) [] (some unforwarded)

variable {daemon}

/-- Parsing addresses does not ask how dials end. -/
theorem sockAddrs_dial (daemon : Daemon Peer Addr)
    (dial : Peer × List Addr → Message → Except String (Outcome × Option UInt64))
    (addrs : List String) :
    sockAddrs { daemon with dial := dial } addrs = sockAddrs daemon addrs := by
  induction addrs with
  | nil => rfl
  | cons a addrs ih => rw [sockAddrs, sockAddrs, ih]

/-- Building a dial does not ask how dials end. -/
theorem buildDial_dial (daemon : Daemon Peer Addr)
    (dial : Peer × List Addr → Message → Except String (Outcome × Option UInt64))
    (peer : String) (addrs : List String) (task : TaskId) (deadline : Deadline)
    (contentType : ContentType) (credential : Option Credential) (body : Bytes) :
    buildDial { daemon with dial := dial } peer addrs task deadline contentType credential body =
      buildDial daemon peer addrs task deadline contentType credential body := by
  rw [buildDial, buildDial, sockAddrs_dial]

/-- The response is the one that `respond` makes, with the dial that was made and the slot
    that was found. -/
theorem Served.respond {req : LocalRequest} {deeds : List (Deed Peer Addr)}
    {resp : LocalResponse} (h : Served daemon req deeds (some resp)) :
    ∃ dial slot, (respond { daemon with dial := dial } req slot).1 = resp := by
  cases h with
  | dialed r h =>
      refine ⟨fun _ _ => r, none, ?_⟩
      rw [UatLocalClient.respond, buildDial_dial, h]
      cases r with
      | error err => rfl
      | ok finish => rfl
  | refused h =>
      refine ⟨daemon.dial, none, ?_⟩
      rw [UatLocalClient.respond, h]
  | took ev => exact ⟨daemon.dial, some ev, rfl⟩
  | idle => exact ⟨daemon.dial, none, rfl⟩
  | unforwarded m => exact ⟨daemon.dial, none, rfl⟩

end

/-! ## What is on the streams -/

/-- The reader of a client that has not got its response. -/
def Client.reader : Client → Option Reader
  | .writing _ => some .start
  | .reading r => some r
  | _ => none

/-- The session has done nothing yet. -/
def Session.Untouched (s : Session Peer Addr) : Prop := s.deeds = [] ∧ s.answer = none

/-- The client puts nothing on the stream. -/
theorem putsNothing (s : Session Peer Addr) {client : Client} (hleft : client.left = []) :
    ∃ new, s.toServer = s.toServer ++ new ∧ s.sent = s.sent ++ new ∧
      new ++ client.left <+: s.client.left :=
  ⟨[], (List.append_nil _).symm, (List.append_nil _).symm, by rw [hleft]; exact List.nil_prefix⟩

variable [text : JsonText]

/-- What the client puts on the stream, if it gets to it. -/
def Session.wire (s : Session Peer Addr) : Bytes := wireOf (encodeRequest s.req [])

/-- What the session puts on the stream. -/
def Session.answerWire (s : Session Peer Addr) : Bytes :=
  match s.answer with
  | some resp => wireOf (encodeResponse resp [])
  | none => []

/-- What the client returns: the answer, or an error that tells little, unless the request
    never got away. -/
def Session.Told (s : Session Peer Addr) : Exec LocalClientError LocalResponse → Prop
  | .ok resp => s.answer = some resp
  | .error stop =>
      (∃ err, stop = .err (.io err)) ∨ s.server = .unconnected ∨ s.wire = []

/-- What the client was told does not depend on what its session does later. -/
theorem Session.Told.later (hserver : s.server ≠ .unconnected) (hanswer : s'.answer = s.answer)
    (hreq : s'.req = s.req) {r : Exec LocalClientError LocalResponse} (h : s.Told r) :
    s'.Told r := by
  cases r with
  | ok resp => exact hanswer.trans h
  | error stop =>
      rcases h with hio | hun | hwire
      · exact Or.inl hio
      · exact absurd hun hserver
      · refine Or.inr (Or.inr ?_)
        rw [Session.wire, hreq]
        exact hwire

/-- What the client puts on the stream is read as its request. -/
theorem requested_wire (hread : ReadsBackNested text) (hne : s.wire ≠ []) :
    requested (.ok s.wire) = .ok s.req := by
  obtain ⟨out, hout, hlayout⟩ := layout_of_encode (encode_of_wireOf hne)
  rw [List.nil_append] at hout
  have hdecode := decodeRequest_layout hread (hlayout [])
  rw [List.append_nil, ← hout] at hdecode
  show mapErr LocalClientError.codec (decodeRequest (wireOf (encodeJsonFrame _ _ []))) = _
  rw [hdecode]
  rfl

/-- There is nothing else to read than an answer. -/
theorem oneFrame_answerWire (s : Session Peer Addr) : OneFrame s.answerWire := by
  rw [Session.answerWire]
  cases s.answer with
  | none => exact Or.inl rfl
  | some resp => exact oneFrame_wireOf _ _

theorem exists_answer (hne : s.answerWire ≠ []) : ∃ resp, s.answer = some resp := by
  cases hanswer : s.answer with
  | none =>
      refine absurd ?_ hne
      rw [Session.answerWire, hanswer]
  | some resp => exact ⟨resp, rfl⟩

/-- What the session puts on the stream is read as its answer. -/
theorem received_answerWire (hread : ReadsBackNested text) {resp : LocalResponse}
    (hanswer : s.answer = some resp) (hne : s.answerWire ≠ []) :
    received (.ok s.answerWire) = .ok resp := by
  have hwire : s.answerWire = wireOf (encodeResponse resp []) := by
    rw [Session.answerWire, hanswer]
  rw [hwire] at hne ⊢
  obtain ⟨out, hout, hlayout⟩ := layout_of_encode (encode_of_wireOf hne)
  rw [List.nil_append] at hout
  have hdecode := decodeResponse_layout hread (hlayout [])
  rw [List.append_nil, ← hout] at hdecode
  show mapErr LocalClientError.codec (decodeResponse (wireOf (encodeJsonFrame _ _ []))) = _
  rw [hdecode]
  rfl

theorem ClientStepped.deeds (h : ClientStepped s s') : s'.deeds = s.deeds := by
  cases h <;> rfl

/-! ## The invariant of a session -/

variable [UnicodeTables] (daemon : Daemon Peer Addr)

/-- What holds of every session. -/
structure Session.Sound (s : Session Peer Addr) : Prop where
  served : Served daemon s.req s.deeds s.answer
  /-- The client writes its request from the start on, and no more. -/
  puts : s.sent ++ s.client.left <+: s.wire
  /-- Until the request is read nothing is done, and no byte that was sent is lost. -/
  request : ∀ r, s.server.reader = some r →
    s.Untouched ∧ r.read.Partial ∧ r.bytes ++ s.toServer = s.sent
  dialing : s.server = .dialing → s.answer = none ∧ ∃ addr submit, s.deeds = [.dialed addr submit]
  /-- Something is done only for a client that has sent its whole request. -/
  sent : s.Untouched ∨ (s.server ≠ .unconnected ∧ s.wire ≠ [] ∧ s.sent = s.wire)
  response : ∀ r, s.client.reader = some r → r.read.Partial ∧
    r.bytes ++ (s.toClient ++ s.server.left) <+: s.answerWire
  told : ∀ r, s.client = .returned r → s.Told r

variable {daemon}

theorem sound_start (start : Start) : (Session.start start : Session Peer Addr).Sound daemon := by
  unfold Session.start
  cases hconnect : connect start.path start.reach with
  | error err =>
      exact ⟨.nothing _, List.nil_prefix, fun _ h => (by cases h), fun h => (by cases h),
        Or.inl ⟨rfl, rfl⟩, fun _ h => (by cases h),
        fun r h => by cases h; exact Or.inr (Or.inl rfl)⟩
  | ok _ =>
      dsimp only
      cases hencode : encodeRequest start.req [] with
      | error err =>
          refine ⟨.nothing _, List.nil_prefix, fun r h => ?_, fun h => (by cases h),
            Or.inl ⟨rfl, rfl⟩, fun _ h => (by cases h), fun r h => ?_⟩
          · obtain rfl := Option.some.inj h
            exact ⟨⟨rfl, rfl⟩, Nat.zero_le 4, rfl⟩
          · cases h
            refine Or.inr (Or.inr ?_)
            rw [Session.wire, hencode]
            rfl
      | ok buf =>
          refine ⟨.nothing _, ?_, fun r h => ?_, fun h => (by cases h), Or.inl ⟨rfl, rfl⟩,
            fun r h => ?_, fun _ h => (by cases h)⟩
          · rw [Session.wire, hencode]
            exact List.prefix_refl buf
          · obtain rfl := Option.some.inj h
            exact ⟨⟨rfl, rfl⟩, Nat.zero_le 4, rfl⟩
          · obtain rfl := Option.some.inj h
            exact ⟨Nat.zero_le 4, List.nil_prefix⟩

/-- A client that has sent all of its request has nothing to go. -/
theorem Session.Sound.left_nil (h : s.Sound daemon) (hsent : s.sent = s.wire) :
    s.client.left = [] := by
  have hle := h.puts.length_le
  rw [hsent, List.length_append] at hle
  exact List.length_eq_zero_iff.mp (by omega)

/-- The client moves: it puts and takes bytes in order, and it says what it was told. -/
theorem Session.Sound.client (h : s.Sound daemon) {client : Client}
    {toServer toClient sent : Bytes}
    (hup : ∃ new, toServer = s.toServer ++ new ∧ sent = s.sent ++ new ∧
      new ++ client.left <+: s.client.left)
    (hdown : ∀ r, client.reader = some r → r.read.Partial ∧
      ∃ r₀, s.client.reader = some r₀ ∧ r.bytes ++ toClient = r₀.bytes ++ s.toClient)
    (htold : ∀ r, client = .returned r → s.Told r) :
    ({ s with client := client, toServer := toServer, toClient := toClient,
              sent := sent }).Sound daemon where
  served := h.served
  puts := by
    obtain ⟨new, -, rfl, hnew⟩ := hup
    show s.sent ++ new ++ client.left <+: s.wire
    rw [List.append_assoc]
    exact ((List.prefix_append_right_inj s.sent).mpr hnew).trans h.puts
  request r hr := by
    obtain ⟨hnone, hpart, hbytes⟩ := h.request r hr
    obtain ⟨new, rfl, rfl, -⟩ := hup
    refine ⟨hnone, hpart, ?_⟩
    show r.bytes ++ (s.toServer ++ new) = s.sent ++ new
    rw [← List.append_assoc, hbytes]
  dialing := h.dialing
  sent := h.sent.imp_right fun ⟨hserver, hwire, hsent⟩ => by
    obtain ⟨new, -, rfl, hnew⟩ := hup
    -- There is nothing new to send.
    rw [h.left_nil hsent] at hnew
    obtain ⟨rfl, -⟩ := List.append_eq_nil_iff.mp (List.prefix_nil.mp hnew)
    exact ⟨hserver, hwire, (List.append_nil _).trans hsent⟩
  response r hr := by
    obtain ⟨hpart, r₀, hr₀, hbytes⟩ := hdown r hr
    refine ⟨hpart, ?_⟩
    show r.bytes ++ (toClient ++ s.server.left) <+: s.answerWire
    rw [← List.append_assoc, hbytes, List.append_assoc]
    exact (h.response r₀ hr₀).2
  told := htold

/-- The client reads on. -/
theorem Session.Sound.clientReads (h : s.Sound daemon) {r₀ r : Reader} {toClient : Bytes}
    (hr₀ : s.client.reader = some r₀) (hpart : r.read.Partial)
    (hbytes : r.bytes ++ toClient = r₀.bytes ++ s.toClient) :
    ({ s with client := .reading r, toClient := toClient }).Sound daemon := by
  refine h.client (putsNothing s rfl) (fun r' hr => ?_) (fun r' hr => (by cases hr))
  obtain rfl := Option.some.inj hr
  exact ⟨hpart, r₀, hr₀, hbytes⟩

/-- What the client reads is the answer. -/
theorem told_of_ready (hread : ReadsBackNested text) (h : s.Sound daemon) {r : Reader}
    {frame : Exec LocalClientError Bytes} (hclient : s.client = .reading r)
    (hpoll : r.poll = .ready frame) : s.Told (received frame) := by
  obtain ⟨hpart, hbytes⟩ := h.response r (by rw [hclient]; rfl)
  have hone := poll_pollsOne (oneFrame_answerWire s) hpart hbytes
  rw [hpoll] at hone
  cases hone with
  | whole hlater hall hne =>
      obtain ⟨resp, hanswer⟩ := exists_answer hne
      rw [received_answerWire hread hanswer hne]
      exact hanswer
  | broken err => exact Or.inl ⟨err, rfl⟩

/-- The client's side keeps the invariant. -/
theorem Session.Sound.clientStepped (hread : ReadsBackNested text) (h : s.Sound daemon)
    (hs : ClientStepped s s') : s'.Sound daemon := by
  cases hs with
  | puts left n hclient =>
      refine h.client ⟨left.take n, rfl, rfl, ?_⟩ (fun r hr => ?_) (fun r hr => (by cases hr))
      · rw [hclient]
        show left.take n ++ left.drop n <+: left
        rw [List.take_append_drop]
      · obtain rfl := Option.some.inj hr
        exact ⟨Nat.zero_le 4, .start, by rw [hclient]; rfl, rfl⟩
  | wrote hclient =>
      have hr : s.client.reader = some .start := by rw [hclient]; rfl
      exact h.clientReads hr (Nat.zero_le 4) rfl
  | gets r n hclient =>
      have hr : s.client.reader = some r := by rw [hclient]; rfl
      exact h.clientReads hr (h.response r hr).1 (Reader.bytes_gets_take r n s.toClient)
  | ends r e hclient =>
      have hr : s.client.reader = some r := by rw [hclient]; rfl
      exact h.clientReads hr (h.response r hr).1 rfl
  | polled r r' hclient hpoll =>
      have hr : s.client.reader = some r := by rw [hclient]; rfl
      obtain ⟨hpart, hsame⟩ := poll_pending (h.response r hr).1 hpoll
      exact h.clientReads hr hpart (by rw [hsame])
  | read r frame hclient hpoll =>
      refine h.client (putsNothing s rfl) (fun r' hr => (by cases hr)) (fun r' hr => ?_)
      obtain rfl := Client.returned.inj hr
      exact told_of_ready hread h hclient hpoll
  | failed =>
      refine h.client (putsNothing s rfl) (fun r' hr => (by cases hr)) (fun r' hr => ?_)
      obtain rfl := Client.returned.inj hr
      exact Or.inl ⟨.other, rfl⟩
  | dropped =>
      exact h.client (putsNothing s rfl) (fun r' hr => (by cases hr)) (fun r' hr => (by cases hr))

/-- The session moves, and has done nothing new. -/
theorem Session.Sound.server (h : s.Sound daemon) (hruns : s.server ≠ .unconnected)
    {server : Server} {toServer toClient : Bytes} (hun : server ≠ .unconnected)
    (hdialing : server ≠ .dialing)
    (hup : ∀ r, server.reader = some r → r.read.Partial ∧
      ∃ r₀, s.server.reader = some r₀ ∧ r.bytes ++ toServer = r₀.bytes ++ s.toServer)
    (hdown : toClient ++ server.left <+: s.toClient ++ s.server.left) :
    ({ s with server := server, toServer := toServer, toClient := toClient }).Sound daemon where
  served := h.served
  puts := h.puts
  request r hr := by
    obtain ⟨hpart, r₀, hr₀, hbytes⟩ := hup r hr
    obtain ⟨hnone, -, hsent⟩ := h.request r₀ hr₀
    exact ⟨hnone, hpart, hbytes.trans hsent⟩
  dialing hd := absurd hd hdialing
  sent := h.sent.imp_right fun ⟨_, hwire, hsent⟩ => ⟨hun, hwire, hsent⟩
  response r hr := by
    obtain ⟨hpart, hbytes⟩ := h.response r hr
    exact ⟨hpart, ((List.prefix_append_right_inj r.bytes).mpr hdown).trans hbytes⟩
  told r hr := by
    refine (h.told r hr).later hruns ?_ ?_
    · rfl
    · rfl

/-- The session reads on. -/
theorem Session.Sound.serverReads (h : s.Sound daemon) {r₀ r : Reader} {toServer : Bytes}
    (hr₀ : s.server.reader = some r₀) (hpart : r.read.Partial)
    (hbytes : r.bytes ++ toServer = r₀.bytes ++ s.toServer) :
    ({ s with server := .reading r, toServer := toServer }).Sound daemon := by
  refine h.server (ne_unconnected_of_reader hr₀) (fun h => (by cases h)) (fun h => (by cases h))
    (fun r' hr => ?_) ?_
  · obtain rfl := Option.some.inj hr
    exact ⟨hpart, r₀, hr₀, hbytes⟩
  · exact (List.prefix_append_right_inj _).mpr List.nil_prefix

/-- Before there is a response, nothing comes back. -/
theorem Session.Sound.silent (h : s.Sound daemon) (hanswer : s.answer = none) {r : Reader}
    (hr : s.client.reader = some r) : r.bytes = [] ∧ s.toClient = [] := by
  have hbytes := (h.response r hr).2
  rw [Session.answerWire, hanswer] at hbytes
  obtain ⟨hnil, hrest⟩ := List.append_eq_nil_iff.mp (List.prefix_nil.mp hbytes)
  exact ⟨hnil, (List.append_eq_nil_iff.mp hrest).1⟩

/-- The session has its response, and writes it. -/
theorem Session.Sound.respondWith (h : s.Sound daemon) (hanswer : s.answer = none)
    (hruns : s.server ≠ .unconnected) (hwire : s.wire ≠ []) (hsent : s.sent = s.wire)
    {deeds : List (Deed Peer Addr)} {resp : LocalResponse}
    (hserved : Served daemon s.req deeds (some resp)) :
    (({ s with deeds := deeds }).respondWith resp).Sound daemon := by
  -- Whether it can be written or not, what is left to write is what was encoded.
  obtain ⟨server, hserver, hun, hdialing, hreader, hputs⟩ : ∃ server : Server,
      ({ s with deeds := deeds }).respondWith resp =
        { s with deeds := deeds, answer := some resp, server := server } ∧
      server ≠ .unconnected ∧ server ≠ .dialing ∧ server.reader = none ∧
      server.left = wireOf (encodeResponse resp []) := by
    refine ⟨_, rfl, ?_⟩
    cases encodeResponse resp [] with
    | ok out => exact ⟨fun h => (by cases h), fun h => (by cases h), rfl, rfl⟩
    | error err => exact ⟨fun h => (by cases h), fun h => (by cases h), rfl, rfl⟩
  rw [hserver]
  refine ⟨hserved, h.puts, fun r hr => ?_, fun hd => absurd hd hdialing,
    Or.inr ⟨hun, hwire, hsent⟩, fun r hr => ?_, fun r hr => ?_⟩
  · rw [show server.reader = some r from hr] at hreader
    cases hreader
  · obtain ⟨hnil, htoClient⟩ := h.silent hanswer hr
    refine ⟨(h.response r hr).1, ?_⟩
    show r.bytes ++ (s.toClient ++ server.left) <+: wireOf (encodeResponse resp [])
    rw [hnil, htoClient, hputs]
    exact List.prefix_refl _
  · have htold := h.told r hr
    cases r with
    | ok resp' =>
        have hsome : s.answer = some resp' := htold
        rw [hanswer] at hsome
        cases hsome
    | error stop =>
        rcases htold with hio | hnever | hnone
        · exact Or.inl hio
        · exact absurd hnever hruns
        · exact absurd hnone hwire

/-- **The request that is read is the client's.** -/
theorem handle_cases (hread : ReadsBackNested text) (h : s.Sound daemon) {r : Reader}
    {frame : Exec LocalClientError Bytes} (d : Shared Peer Addr)
    (hserver : s.server = .reading r) (hpoll : r.poll = .ready frame) :
    (∃ err, handle daemon d s frame = (d, { s with server := .ended (fail (.io err)) })) ∨
      (s.Untouched ∧ s.wire ≠ [] ∧ s.sent = s.wire ∧
        handle daemon d s frame = serve daemon d s s.req) := by
  obtain ⟨hnone, hpart, hbytes⟩ := h.request r (by rw [hserver]; rfl)
  have hframe : OneFrame s.wire := oneFrame_wireOf _ _
  have hprefix : r.bytes ++ s.toServer <+: s.wire := by
    rw [hbytes]
    exact (List.prefix_append _ _).trans h.puts
  have hone := poll_pollsOne hframe hpart hprefix
  rw [hpoll] at hone
  cases hone with
  | whole hlater hall hne =>
      rw [hall, hlater, List.append_nil] at hbytes
      refine Or.inr ⟨hnone, hne, hbytes.symm, ?_⟩
      rw [handle, requested_wire hread hne]
  | broken err => exact Or.inl ⟨err, rfl⟩

/-- Serving the client's own request keeps the invariant. -/
theorem Session.Sound.serve (h : s.Sound daemon) (hnone : s.Untouched) {r : Reader}
    (hserver : s.server = .reading r) (hwire : s.wire ≠ []) (hsent : s.sent = s.wire) :
    (serve daemon d s s.req).2.Sound daemon := by
  obtain ⟨hdeeds, hanswer⟩ := hnone
  have hruns : s.server ≠ .unconnected := by
    rw [hserver]
    exact fun h => (by cases h)
  cases hreq : s.req with
  | dial peer addrs task deadline contentType credential body =>
      rw [UatLocalSession.serve]
      cases hbuild : buildDial daemon peer addrs task deadline contentType credential body with
      | error message =>
          exact h.respondWith hanswer hruns hwire hsent (by
            rw [hreq, hdeeds]
            exact .refused hbuild)
      | ok dial =>
          obtain ⟨addr, submit⟩ := dial
          refine ⟨?_, h.puts, fun r hr => (by cases hr), fun _ => ⟨hanswer, addr, submit, ?_⟩,
            Or.inr ⟨fun h => (by cases h), hwire, hsent⟩, fun r hr => ?_, fun r hr => ?_⟩
          · show Served daemon s.req (s.deeds ++ _) s.answer
            rw [hreq, hdeeds, hanswer]
            exact .dialing hbuild
          · show s.deeds ++ _ = _
            rw [hdeeds]
            rfl
          · obtain ⟨hnil, htoClient⟩ := h.silent hanswer hr
            refine ⟨(h.response r hr).1, ?_⟩
            show r.bytes ++ (s.toClient ++ []) <+: s.answerWire
            rw [hnil, htoClient]
            exact List.nil_prefix
          · refine (h.told r hr).later hruns ?_ ?_
            · rfl
            · rfl
  | inbox =>
      rw [UatLocalSession.serve]
      cases hslot : d.latestInbox with
      | none =>
          exact h.respondWith hanswer hruns hwire hsent (by
            rw [hreq, hdeeds]
            exact .idle)
      | some ev =>
          exact h.respondWith hanswer hruns hwire hsent (by
            rw [hreq, hdeeds]
            exact .took ev)
  | message m =>
      exact h.respondWith hanswer hruns hwire hsent (by
        rw [hreq, hdeeds]
        exact .unforwarded m)

/-- The dial that ends is the one the request asked for. -/
theorem Session.Sound.dialEnded (h : s.Sound daemon) (hserver : s.server = .dialing)
    (r : Except String (Outcome × Option UInt64)) :
    ((s.does (.dialEnded r)).respondWith (dialResponse r)).Sound daemon := by
  obtain ⟨hanswer, addr, submit, hdeeds⟩ := h.dialing hserver
  have hruns : s.server ≠ .unconnected := by
    rw [hserver]
    exact fun h => (by cases h)
  have hserved := h.served
  rw [hanswer, hdeeds] at hserved
  -- A dial was made, so the request was sent.
  rcases h.sent with ⟨hnone, -⟩ | ⟨-, hwire, hsent⟩
  · rw [hnone] at hdeeds
    cases hdeeds
  refine h.respondWith hanswer hruns hwire hsent ?_
  rw [hdeeds]
  generalize s.req = req at hserved ⊢
  cases hserved with
  | dialing hbuild => exact .dialed r hbuild

/-- **A step keeps the invariant.** -/
theorem Session.Sound.step (hread : ReadsBackNested text) (h : s.Sound daemon)
    (hs : Stepped daemon d s d' s') : s'.Sound daemon := by
  cases hs with
  | client hs => exact h.clientStepped hread hs
  | accepted hserver =>
      have hr : s.server.reader = some .start := by rw [hserver]; rfl
      exact h.serverReads hr (Nat.zero_le 4) rfl
  | gets r n hserver =>
      have hr : s.server.reader = some r := by rw [hserver]; rfl
      exact h.serverReads hr (h.request r hr).2.1 (Reader.bytes_gets_take r n s.toServer)
  | ends r e hserver =>
      have hr : s.server.reader = some r := by rw [hserver]; rfl
      exact h.serverReads hr (h.request r hr).2.1 rfl
  | polled r r' hserver hpoll =>
      have hr : s.server.reader = some r := by rw [hserver]; rfl
      obtain ⟨hpart, hsame⟩ := poll_pending (h.request r hr).2.1 hpoll
      exact h.serverReads hr hpart (by rw [hsame])
  | read r frame hserver hpoll =>
      have hr : s.server.reader = some r := by rw [hserver]; rfl
      rcases handle_cases hread h d hserver hpoll with
        ⟨err, hhandle⟩ | ⟨hnone, hwire, hsent, hhandle⟩
      · rw [hhandle]
        refine h.server (ne_unconnected_of_reader hr) (fun h => (by cases h))
          (fun h => (by cases h)) (fun r' hr => (by cases hr)) ?_
        exact (List.prefix_append_right_inj _).mpr List.nil_prefix
      · rw [hhandle]
        exact h.serve hnone hserver hwire hsent
  | dialEnded r hserver => exact h.dialEnded hserver r
  | puts left n hserver =>
      refine h.server (by rw [hserver]; exact fun h => (by cases h)) (fun h => (by cases h))
        (fun h => (by cases h)) (fun r' hr => (by cases hr)) ?_
      rw [hserver, List.append_assoc]
      show s.toClient ++ (left.take n ++ left.drop n) <+: s.toClient ++ left
      rw [List.take_append_drop]
  | wrote hserver =>
      refine h.server (by rw [hserver]; exact fun h => (by cases h)) (fun h => (by cases h))
        (fun h => (by cases h)) (fun r' hr => (by cases hr)) ?_
      exact (List.prefix_append_right_inj _).mpr List.nil_prefix
  | stopped server hover hruns =>
      have hrunning : s.server ≠ .unconnected := by
        intro hun
        rw [hun] at hruns
        cases hruns
      have hnothing : s.toClient ++ [] <+: s.toClient ++ s.server.left :=
        (List.prefix_append_right_inj _).mpr List.nil_prefix
      cases hover with
      | failed stop =>
          exact h.server hrunning (fun h => (by cases h)) (fun h => (by cases h))
            (fun r' hr => (by cases hr)) hnothing
      | dropped =>
          exact h.server hrunning (fun h => (by cases h)) (fun h => (by cases h))
            (fun r' hr => (by cases hr)) hnothing

/-! ## All sessions -/

/-- What one request does is done in its session, and entered with the others. -/
theorem serve_deeds (d : Shared Peer Addr) (s : Session Peer Addr) (req : LocalRequest) :
    ∃ new, (serve daemon d s req).1.deeds = d.deeds ++ new ∧
      (serve daemon d s req).2.deeds = s.deeds ++ new := by
  have hnothing : ∃ new, d.deeds = d.deeds ++ new ∧ s.deeds = s.deeds ++ new :=
    ⟨[], (List.append_nil _).symm, (List.append_nil _).symm⟩
  cases req with
  | dial peer addrs task deadline contentType credential body =>
      rw [UatLocalSession.serve]
      cases buildDial daemon peer addrs task deadline contentType credential body with
      | ok dial => exact ⟨[.dialed dial.1 dial.2], rfl, rfl⟩
      | error message => exact hnothing
  | inbox =>
      rw [UatLocalSession.serve]
      cases d.latestInbox with
      | some ev => exact ⟨[.took ev], rfl, rfl⟩
      | none => exact hnothing
  | message m => exact hnothing

theorem handle_deeds (d : Shared Peer Addr) (s : Session Peer Addr)
    (frame : Exec LocalClientError Bytes) :
    ∃ new, (handle daemon d s frame).1.deeds = d.deeds ++ new ∧
      (handle daemon d s frame).2.deeds = s.deeds ++ new := by
  rw [handle]
  cases requested frame with
  | ok req => exact serve_deeds d s req
  | error stop => exact ⟨[], (List.append_nil _).symm, (List.append_nil _).symm⟩

theorem Stepped.deeds (h : Stepped daemon d s d' s') :
    ∃ new, d'.deeds = d.deeds ++ new ∧ s'.deeds = s.deeds ++ new := by
  have hnothing : ∃ new, d.deeds = d.deeds ++ new ∧ s.deeds = s.deeds ++ new :=
    ⟨[], (List.append_nil _).symm, (List.append_nil _).symm⟩
  cases h with
  | client hs =>
      rw [hs.deeds]
      exact hnothing
  | read r frame hserver hpoll => exact handle_deeds d s frame
  | dialEnded r hserver => exact ⟨[.dialEnded r], rfl, rfl⟩
  | _ => exact hnothing

theorem serve_events (d : Shared Peer Addr) (s : Session Peer Addr) (req : LocalRequest) :
    (serve daemon d s req).1.events = d.events ∧
      (serve daemon d s req).1.stored = d.stored := by
  cases req with
  | dial peer addrs task deadline contentType credential body =>
      rw [UatLocalSession.serve]
      cases buildDial daemon peer addrs task deadline contentType credential body with
      | ok dial => exact ⟨Shared.events_does rfl, rfl⟩
      | error message => exact ⟨rfl, rfl⟩
  | inbox =>
      rw [UatLocalSession.serve]
      cases hslot : d.latestInbox with
      | some ev =>
          -- It moves from the slot to the end of those that were taken.
          refine ⟨?_, rfl⟩
          show (d.deeds ++ [Deed.took ev]).filterMap Deed.event ++ [] = _
          rw [Shared.events, hslot, List.filterMap_append, List.append_nil]
          rfl
      | none => exact ⟨rfl, rfl⟩
  | message m => exact ⟨rfl, rfl⟩

theorem Stepped.events (h : Stepped daemon d s d' s') :
    d'.events = d.events ∧ d'.stored = d.stored := by
  cases h with
  | read r frame hserver hpoll =>
      rw [handle]
      cases requested frame with
      | ok req => exact serve_events d s req
      | error stop => exact ⟨rfl, rfl⟩
  | dialEnded r hserver => exact ⟨Shared.events_does rfl, rfl⟩
  | _ => exact ⟨rfl, rfl⟩

variable {w : Pool (Shared Peer Addr) (Session Peer Addr)}
  {es : List (TaskPool.Ev Act Start Signal)}

theorem run_sound (hread : ReadsBackNested text)
    (hrun : runFrom (TaskPool.step (localSocket daemon)) ⟨.start, []⟩ es = some w) :
    w.shared.events.Sublist w.shared.stored ∧ ∀ s ∈ w.members, s.Sound daemon := by
  have hstart : (Shared.start : Shared Peer Addr).events.Sublist
      (Shared.start : Shared Peer Addr).stored := List.Sublist.refl []
  have hholds : Holds (fun d : Shared Peer Addr => d.events.Sublist d.stored)
      (fun _ _ s => Session.Sound daemon s) w := by
    refine run_invariant (Holds _ _) (fun w e w' hw hs => ?_) es _ w
      (holds_empty hstart) hrun
    refine hw.step (Q := fun _ => True) (fun d start d' s hd _ hs => ?_)
      (fun d i s a d' s' hd hsound _ hs => ?_) (fun d c d' hd _ hs => ?_) trivial hs
    · obtain ⟨rfl, rfl⟩ := Prod.mk.inj (Option.some.inj hs)
      exact ⟨hd, fun _ => sound_start start, fun _ _ hz => hz⟩
    · have hstepped := stepped_of_act hs
      obtain ⟨hevents, hstored⟩ := hstepped.events
      refine ⟨?_, hsound.step hread hstepped, fun _ _ _ hz => hz⟩
      rw [hevents, hstored]
      exact hd
    · exact ⟨signal_events hd hs, fun _ _ hz => hz⟩
  refine ⟨hholds.shared, fun s hs => ?_⟩
  obtain ⟨i, hi⟩ := List.mem_iff_getElem?.mp hs
  exact hholds.members i s hi

/-- The deeds of all sessions are what was done. -/
theorem run_deeds (hrun : runFrom (TaskPool.step (localSocket daemon)) ⟨.start, []⟩ es = some w) :
    w.shared.deeds.Perm (w.members.flatMap Session.deeds) := by
  refine log_perm Shared.deeds Session.deeds (fun d start d' s hs => ?_)
    (fun i d s a d' s' hs => (stepped_of_act hs).deeds) (fun d c d' hs => ?_) (.refl []) hrun
  · obtain ⟨rfl, rfl⟩ := Prod.mk.inj (Option.some.inj hs)
    have hnew : (Session.start start : Session Peer Addr).deeds = [] := by
      unfold Session.start
      cases connect start.path start.reach with
      | error err => rfl
      | ok _ =>
          dsimp only
          cases encodeRequest start.req [] <;> rfl
    rw [hnew, List.append_nil]
  · cases c <;> obtain rfl := Option.some.inj hs <;> rfl

/-- **ONE REQUEST, ONE ANSWER, AND NOTHING BESIDE.**  However the clients of a daemon come
    and go, and at whatever byte they or their sessions give up: the daemon does for a
    session at most what the request of its own client asks for, once; it does so only for a
    client that has put the whole request on the stream, also where the client has given up
    since; and a client that is told a response is told the daemon's.  An error other than
    one of the stream means that nothing was done. -/
theorem local_rpc (hread : ReadsBackNested text)
    (hrun : runFrom (TaskPool.step (localSocket daemon)) ⟨.start, []⟩ es = some w) :
    w.shared.deeds.Perm (w.members.flatMap Session.deeds) ∧ ∀ s ∈ w.members,
      Served daemon s.req s.deeds s.answer ∧
      (s.deeds ≠ [] → s.client.left = [] ∧ encodeRequest s.req [] = .ok s.sent) ∧
      (∀ resp, s.client = .returned (.ok resp) → s.answer = some resp) ∧
      ∀ stop, s.client = .returned (.error stop) →
        (∃ err, stop = .err (.io err)) ∨ (s.deeds = [] ∧ s.answer = none) := by
  refine ⟨run_deeds hrun, fun s hs => ?_⟩
  have hsound := (run_sound hread hrun).2 s hs
  refine ⟨hsound.served, fun hdeeds => ?_, fun resp hresp => hsound.told _ hresp,
    fun stop hstop => ?_⟩
  · rcases hsound.sent with ⟨hnone, -⟩ | ⟨-, hwire, hsent⟩
    · exact absurd hnone hdeeds
    · refine ⟨hsound.left_nil hsent, ?_⟩
      rw [hsent]
      exact encode_of_wireOf hwire
  · rcases hsound.told _ hstop with hio | hun
    · exact Or.inl hio
    · rcases hsound.sent with hnone | ⟨hserver, hwire, -⟩
      · exact Or.inr hnone
      · exact (hun.elim (fun h => hserver h) fun h => hwire h).elim

/-! ## What the clients are told of the inbox -/

/-- What an event is told as. -/
def printed (ev : InboxEvent) : String × Outcome := (debugNodeId ev.peer, ev.outcome)

/-- The event that a client was told. -/
def Session.toldEvent (s : Session Peer Addr) : Option (String × Outcome) :=
  match s.client with
  | .returned (.ok (.inboxEvent peer outcome)) => some (peer, outcome)
  | _ => none

/-- A client is told the event its session took. -/
theorem toldEvent_sublist (h : s.Sound daemon) :
    s.toldEvent.toList.Sublist ((s.deeds.filterMap Deed.event).map printed) := by
  have htold := h.told
  unfold Session.toldEvent
  split
  · next peer outcome hclient =>
      have hanswer : s.answer = some (.inboxEvent peer outcome) := htold _ hclient
      have hserved := h.served
      rw [hanswer] at hserved
      generalize s.req = req at hserved
      generalize s.deeds = deeds at hserved
      generalize hresp : LocalResponse.inboxEvent peer outcome = resp at hserved
      cases hserved with
      | took ev =>
          obtain ⟨rfl, rfl⟩ := LocalResponse.inboxEvent.inj hresp
          exact List.Sublist.refl _
      | dialed r hbuild => rcases r with err | ⟨o, rtt⟩ <;> cases hresp
      | _ => cases hresp
  · exact List.nil_sublist _

/-- **NO EVENT IS TOLD TWICE.**  What the clients were told of the inbox, all of them
    together, is part of what the forwarder stored: an event that was stored once is told to
    one client at most. -/
theorem local_inbox (hread : ReadsBackNested text)
    (hrun : runFrom (TaskPool.step (localSocket daemon)) ⟨.start, []⟩ es = some w) :
    (w.members.filterMap Session.toldEvent).Subperm (w.shared.stored.map printed) := by
  obtain ⟨hevents, hsound⟩ := run_sound hread hrun
  -- What was told is among what was taken, and that among what was stored.
  have htold : ∀ l : List (Session Peer Addr), (∀ s ∈ l, s.Sound daemon) →
      (l.filterMap Session.toldEvent).Sublist
        (((l.flatMap Session.deeds).filterMap Deed.event).map printed) := by
    intro l
    induction l with
    | nil => exact fun _ => List.Sublist.refl []
    | cons s l ih =>
        intro hl
        obtain ⟨hs, hl⟩ := List.forall_mem_cons.mp hl
        have hcons : (s :: l).filterMap Session.toldEvent =
            s.toldEvent.toList ++ l.filterMap Session.toldEvent := by
          rw [List.filterMap_cons]
          cases s.toldEvent <;> rfl
        rw [hcons, List.flatMap_cons, List.filterMap_append, List.map_append]
        exact (toldEvent_sublist hs).append (ih hl)
  have htaken : (((w.members.flatMap Session.deeds).filterMap Deed.event).map printed).Perm
      ((w.shared.deeds.filterMap Deed.event).map printed) :=
    ((run_deeds hrun).symm.filterMap Deed.event).map printed
  have hstored : ((w.shared.deeds.filterMap Deed.event).map printed).Sublist
      (w.shared.stored.map printed) :=
    ((List.sublist_append_left _ _).trans hevents).map printed
  exact (htold w.members hsound).subperm.trans (htaken.subperm.trans hstored.subperm)

end

section

attribute [local instance] urlSafeNoPad compactJson

/-- No character needs an escape. -/
local instance : UnicodeTables := ⟨fun _ => false, fun _ => true⟩

/-- An event is stored, and a client that polls is told of it. -/
def pollStored : List (TaskPool.Ev Act Start Signal) :=
  [.spawn ⟨"node.sock", .connected, .inbox⟩, .act 0 (.client (.puts 7)), .act 0 .accept,
    .act 0 (.server (.gets 7)), .act 0 (.server .poll), .act 0 (.client (.puts 93)),
    .act 0 (.client .wrote), .env (.store ⟨sampleNode 7, .completed⟩),
    .act 0 (.server (.gets 93)), .act 0 (.server .poll), .act 0 (.server (.puts 500)),
    .act 0 (.server .wrote), .act 0 (.client (.gets 500)), .act 0 (.client .poll)]

theorem pollStored_told :
    ((runFrom (TaskPool.step (localSocket loopback)) ⟨.start, []⟩ pollStored).map fun w =>
      w.members.map Session.toldEvent) = some [some (printed ⟨sampleNode 7, .completed⟩)] := by
  decide +kernel

theorem local_rpc_pollStored : ∃ w,
    runFrom (TaskPool.step (localSocket loopback)) ⟨.start, []⟩ pollStored = some w ∧
      w.shared.deeds.Perm (w.members.flatMap Session.deeds) := by
  obtain ⟨w, hrun, -⟩ := Option.map_eq_some_iff.mp pollStored_told
  exact ⟨w, hrun, (local_rpc compactJson_readsBackNested hrun).1⟩

theorem local_inbox_pollStored : ∃ w,
    runFrom (TaskPool.step (localSocket loopback)) ⟨.start, []⟩ pollStored = some w ∧
      w.members.filterMap Session.toldEvent = [printed ⟨sampleNode 7, .completed⟩] ∧
      (w.members.filterMap Session.toldEvent).Subperm (w.shared.stored.map printed) := by
  obtain ⟨w, hrun, htold⟩ := Option.map_eq_some_iff.mp pollStored_told
  refine ⟨w, hrun, ?_, local_inbox compactJson_readsBackNested hrun⟩
  have hmap : w.members.filterMap Session.toldEvent =
      (w.members.map Session.toldEvent).filterMap id := by
    rw [List.filterMap_map]
    rfl
  rw [hmap, htold]
  rfl

end

end UatLocalSession
