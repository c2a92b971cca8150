import Uat.LocalRpc

/-! # A client that waits is answered

    `Uat.LocalRpc` says what a session does at most.  Here a client and its session that
    have not given up are left alone: the streams take and carry their bytes and do not
    end.  Then no byte is lost between them, and every step of theirs that is left to take
    leads on to the answer.

    * **`Session.Whole`** — while a client waits, the bytes of either direction are all
      there.
    * **`local_rpc_answered`** — from every reachable state the client can still get the
      response, unless that does not fit a frame. -/

namespace UatLocalSession

open UatTypes UatHeader UatLocalCodec UatLocalClient UatIncoming UatRecvStream UatStream Checked
open StepRun TaskPool

/-! ## Bytes and frames -/

/-- One more move, if there are bytes to move. -/
def toMove (bs : Bytes) : Nat := if bs = [] then 0 else 1

theorem toMove_le (bs : Bytes) : toMove bs ≤ 1 := by
  rw [toMove]
  split <;> omega

theorem toMove_of_ne {bs : Bytes} (h : bs ≠ []) : toMove bs = 1 := if_neg h

/-- With all of the frame there, a poll has it. -/
theorem poll_whole {wire : Bytes} {r : Reader} (hwire : OneFrame wire) (hne : wire ≠ [])
    (hpart : r.read.Partial) (hbytes : r.bytes = wire) : r.poll = .ready (.ok wire) := by
  rcases hwire with hnil | ⟨payload, hle, rfl⟩
  · exact absurd hnil hne
  · have hread := readFrame_frameOf hle []
    rw [List.append_nil] at hread
    rw [Reader.poll, pollFrame_eq hpart, ← Reader.bytes, hbytes, pollBytes, hread]
    rfl

section

variable [Base64Engine] {Peer Addr : Type} {d d' : Shared Peer Addr} {s s' : Session Peer Addr}

/-! ## What is left to do -/

/-- The client has not given up. -/
inductive Client.Waits : Client → Prop where
  | writing (left : Bytes) : Waits (.writing left)
  | reading (r : Reader) (hopen : r.recv.ended = none) : Waits (.reading r)

theorem Client.Waits.reader {c : Client} (h : c.Waits) : ∃ r, c.reader = some r := by
  cases h with
  | writing left => exact ⟨_, rfl⟩
  | reading r hopen => exact ⟨_, rfl⟩

/-- The session has not given up. -/
inductive Server.Serves : Server → Prop where
  | backlog : Serves .backlog
  | reading (r : Reader) (hopen : r.recv.ended = none) : Serves (.reading r)
  | dialing : Serves .dialing
  | writing (left : Bytes) : Serves (.writing left)
  | written : Serves (.ended (.ok ()))

structure Session.Alone (s : Session Peer Addr) : Prop where
  client : s.client.Waits
  server : s.server.Serves

/-- The stages a client has ahead of it. -/
def Client.stage : Client → Nat
  | .writing _ => 2
  | .reading _ => 1
  | _ => 0

/-- The stages a session has ahead of its answer. -/
def Server.stage : Server → Nat
  | .backlog => 5
  | .reading _ => 4
  | .dialing => 3
  | .writing _ => 2
  | _ => 1

/-- The stages ahead and the bytes that wait; a byte that is written has still to arrive. -/
def Session.todo (s : Session Peer Addr) : Nat :=
  8 * s.server.stage + 4 * s.client.stage + 2 * toMove s.client.left + toMove s.toServer +
    2 * toMove s.server.left + toMove s.toClient

variable [text : JsonText]

/-- The client has the response, or there is none that could be written. -/
def Session.Answered (s : Session Peer Addr) : Prop :=
  ∃ resp, s.answer = some resp ∧
    (s.client = .returned (.ok resp) ∨ ∃ err, encodeResponse resp [] = .error err)

/-- From the response on. -/
theorem respondWith_nearer (hclient : s.client.Waits) (hserver : 3 ≤ s.server.stage)
    {deeds : List (Deed Peer Addr)} {resp : LocalResponse} :
    ((({ s with deeds := deeds }).respondWith resp).Alone ∨
        (({ s with deeds := deeds }).respondWith resp).Answered) ∧
      (({ s with deeds := deeds }).respondWith resp).todo < s.todo := by
  unfold Session.respondWith
  dsimp only
  cases hencode : encodeResponse resp [] with
  | error err =>
      refine ⟨Or.inr ⟨resp, rfl, Or.inr ⟨err, hencode⟩⟩, ?_⟩
      show 8 * 1 + 4 * s.client.stage + 2 * toMove s.client.left + toMove s.toServer + 2 * 0 +
        toMove s.toClient < s.todo
      rw [Session.todo]
      omega
  | ok out =>
      refine ⟨Or.inl ⟨hclient, .writing out⟩, ?_⟩
      have hout := toMove_le out
      show 8 * 2 + 4 * s.client.stage + 2 * toMove s.client.left + toMove s.toServer +
        2 * toMove out + toMove s.toClient < s.todo
      rw [Session.todo]
      omega

/-! ## No byte is lost -/

/-- The session is writing its response, or has written it. -/
inductive Server.Delivers : Server → Prop where
  | writing (left : Bytes) : Delivers (.writing left)
  | written : Delivers (.ended (.ok ()))

/-- While the client waits, all bytes of either direction are there. -/
structure Session.Whole (s : Session Peer Addr) : Prop where
  encoded : ∀ r, s.client.reader = some r → s.server ≠ .unconnected ∧ s.wire ≠ []
  request : ∀ r, s.client.reader = some r → s.sent ++ s.client.left = s.wire
  response : ∀ r, s.client.reader = some r → s.server.Delivers →
    s.answerWire ≠ [] ∧ r.bytes ++ (s.toClient ++ s.server.left) = s.answerWire

/-- A client starts with its whole request to write. -/
theorem whole_start (start : Start) : (Session.start start : Session Peer Addr).Whole := by
  unfold Session.start
  cases connect start.path start.reach with
  | error err => exact ⟨fun _ h => (by cases h), fun _ h => (by cases h), fun _ h => (by cases h)⟩
  | ok _ =>
      dsimp only
      cases hencode : encodeRequest start.req [] with
      | error err =>
          exact ⟨fun _ h => (by cases h), fun _ h => (by cases h), fun _ h => (by cases h)⟩
      | ok buf =>
          have hwire : wireOf (encodeRequest start.req []) = buf := by
            rw [hencode]
            rfl
          refine ⟨fun r _ => ⟨fun h => (by cases h), ?_⟩, fun r _ => hwire.symm, fun _ _ h => ?_⟩
          · show wireOf (encodeRequest start.req []) ≠ []
            rw [hwire]
            exact encode_ne_nil hencode
          · cases h

/-- The client moves, and loses nothing. -/
theorem Session.Whole.client (h : s.Whole) {client : Client} {toServer toClient sent : Bytes}
    (hkept : ∀ r, client.reader = some r → ∃ r₀, s.client.reader = some r₀ ∧
      sent ++ client.left = s.sent ++ s.client.left ∧
      r.bytes ++ toClient = r₀.bytes ++ s.toClient) :
    ({ s with client := client, toServer := toServer, toClient := toClient,
              sent := sent }).Whole where
  encoded r hr := by
    obtain ⟨r₀, hr₀, -⟩ := hkept r hr
    exact h.encoded r₀ hr₀
  request r hr := by
    obtain ⟨r₀, hr₀, hup, -⟩ := hkept r hr
    exact hup.trans (h.request r₀ hr₀)
  response r hr hdelivers := by
    obtain ⟨r₀, hr₀, -, hdown⟩ := hkept r hr
    obtain ⟨hne, hbytes⟩ := h.response r₀ hr₀ hdelivers
    refine ⟨hne, ?_⟩
    show r.bytes ++ (toClient ++ s.server.left) = s.answerWire
    rw [← List.append_assoc, hdown, List.append_assoc]
    exact hbytes

/-- The session moves before its answer or behind it, and loses nothing. -/
theorem Session.Whole.server (h : s.Whole) {server : Server} {toServer toClient : Bytes}
    (hun : server ≠ .unconnected)
    (hdelivers : server.Delivers → s.server.Delivers ∧
      toClient ++ server.left = s.toClient ++ s.server.left) :
    ({ s with server := server, toServer := toServer, toClient := toClient }).Whole where
  encoded r hr := ⟨hun, (h.encoded r hr).2⟩
  request := h.request
  response r hr hserver := by
    obtain ⟨hold, hbytes⟩ := hdelivers hserver
    obtain ⟨hne, hall⟩ := h.response r hr hold
    refine ⟨hne, ?_⟩
    show r.bytes ++ (toClient ++ server.left) = s.answerWire
    rw [hbytes]
    exact hall

variable [UnicodeTables] {daemon : Daemon Peer Addr}

/-- What a client does keeps both ways whole. -/
theorem Session.Whole.clientStepped (hsound : s.Sound daemon) (h : s.Whole)
    (hs : ClientStepped s s') : s'.Whole := by
  cases hs with
  | puts left n hclient =>
      refine h.client fun r hr => ⟨.start, by rw [hclient]; rfl, ?_, ?_⟩
      · rw [hclient, List.append_assoc]
        show s.sent ++ (left.take n ++ left.drop n) = s.sent ++ left
        rw [List.take_append_drop]
      · obtain rfl := Option.some.inj hr
        rfl
  | wrote hclient =>
      refine h.client fun r hr => ⟨.start, by rw [hclient]; rfl, by rw [hclient]; rfl, ?_⟩
      obtain rfl := Option.some.inj hr
      rfl
  | gets r n hclient =>
      refine h.client fun r' hr => ⟨r, by rw [hclient]; rfl, by rw [hclient]; rfl, ?_⟩
      obtain rfl := Option.some.inj hr
      exact Reader.bytes_gets_take r n s.toClient
  | ends r e hclient =>
      refine h.client fun r' hr => ⟨r, by rw [hclient]; rfl, by rw [hclient]; rfl, ?_⟩
      obtain rfl := Option.some.inj hr
      rfl
  | polled r r' hclient hpoll =>
      have hpart := (hsound.response r (by rw [hclient]; rfl)).1
      refine h.client fun r'' hr => ⟨r, by rw [hclient]; rfl, by rw [hclient]; rfl, ?_⟩
      obtain rfl := Option.some.inj hr
      rw [(poll_pending hpart hpoll).2]
  | read r frame hclient hpoll => exact h.client fun r' hr => (by cases hr)
  | failed => exact h.client fun r' hr => (by cases hr)
  | dropped => exact h.client fun r' hr => (by cases hr)

/-- The response is ahead of everything. -/
theorem Session.Whole.respondWith (hsound : s.Sound daemon) (h : s.Whole)
    (hanswer : s.answer = none) {deeds : List (Deed Peer Addr)} (resp : LocalResponse) :
    (({ s with deeds := deeds }).respondWith resp).Whole := by
  unfold Session.respondWith
  dsimp only
  cases hencode : encodeResponse resp [] with
  | error err =>
      exact ⟨fun r hr => ⟨fun h => (by cases h), (h.encoded r hr).2⟩, h.request,
        fun _ _ hdelivers => (by cases hdelivers)⟩
  | ok out =>
      have hwire : wireOf (encodeResponse resp []) = out := by
        rw [hencode]
        rfl
      refine ⟨fun r hr => ⟨fun h => (by cases h), (h.encoded r hr).2⟩, h.request, fun r hr _ => ?_⟩
      obtain ⟨hnil, htoClient⟩ := hsound.silent hanswer hr
      show wireOf (encodeResponse resp []) ≠ [] ∧
        r.bytes ++ (s.toClient ++ out) = wireOf (encodeResponse resp [])
      rw [hnil, htoClient, hwire]
      exact ⟨encode_ne_nil hencode, rfl⟩

/-- So does what the daemon does with a request. -/
theorem Session.Whole.serve (hsound : s.Sound daemon) (h : s.Whole) (hanswer : s.answer = none)
    (req : LocalRequest) : (UatLocalSession.serve daemon d s req).2.Whole := by
  cases req with
  | dial peer addrs task deadline contentType credential body =>
      rw [UatLocalSession.serve]
      cases buildDial daemon peer addrs task deadline contentType credential body with
      | error message => exact h.respondWith hsound hanswer _
      | ok dial =>
          exact ⟨fun r hr => ⟨fun h => (by cases h), (h.encoded r hr).2⟩, h.request,
            fun _ _ hdelivers => (by cases hdelivers)⟩
  | inbox =>
      rw [UatLocalSession.serve]
      cases d.latestInbox with
      | none => exact h.respondWith hsound hanswer _
      | some ev => exact h.respondWith hsound hanswer _
  | message m => exact h.respondWith hsound hanswer _

/-- **A step loses no byte**, or one side gives up. -/
theorem Session.Whole.step (hread : ReadsBackNested text) (hsound : s.Sound daemon) (h : s.Whole)
    (hs : Stepped daemon d s d' s') : s'.Whole := by
  cases hs with
  | client hs => exact h.clientStepped hsound hs
  | accepted hserver => exact h.server (fun h => (by cases h)) (fun hd => (by cases hd))
  | gets r n hserver => exact h.server (fun h => (by cases h)) (fun hd => (by cases hd))
  | ends r e hserver => exact h.server (fun h => (by cases h)) (fun hd => (by cases hd))
  | polled r r' hserver hpoll => exact h.server (fun h => (by cases h)) (fun hd => (by cases hd))
  | read r frame hserver hpoll =>
      rcases handle_cases hread hsound d hserver hpoll with ⟨err, hhandle⟩ | ⟨hnone, -, -, hhandle⟩
      · rw [hhandle]
        exact h.server (fun h => (by cases h)) (fun hd => (by cases hd))
      · rw [hhandle]
        exact h.serve hsound hnone.2 s.req
  | dialEnded r hserver => exact h.respondWith hsound (hsound.dialing hserver).1 _
  | puts left n hserver =>
      refine h.server (fun h => (by cases h)) fun _ => ?_
      rw [hserver, List.append_assoc]
      refine ⟨.writing left, ?_⟩
      show s.toClient ++ (left.take n ++ left.drop n) = s.toClient ++ left
      rw [List.take_append_drop]
  | wrote hserver =>
      refine h.server (fun h => (by cases h)) fun _ => ?_
      rw [hserver]
      exact ⟨.writing [], rfl⟩
  | stopped server hover hruns =>
      cases hover with
      | failed stop =>
          exact h.server (fun h => (by cases h)) (fun hd => (by cases hd))
      | dropped =>
          exact h.server (fun h => (by cases h)) (fun hd => (by cases hd))

/-! ## The next step -/

/-- The stream carries on. -/
def Io.Calm : Io → Prop
  | .writeFails | .ends _ | .drop => False
  | _ => True

/-- Neither side gives up, and a dial ends as it ends. -/
def Act.Calm (result : Except String (Outcome × Option UInt64)) : Act → Prop
  | .client io | .server io => io.Calm
  | .accept => True
  | .dialEnds r => r = result

/-- A step that is left to take: it is calm and brings the answer nearer. -/
def Nearer (daemon : Daemon Peer Addr) (result : Except String (Outcome × Option UInt64))
    (d : Shared Peer Addr) (s : Session Peer Addr) : Prop :=
  ∃ a d' s', a.Calm result ∧ act daemon d s a = some (d', s') ∧ d'.listening = d.listening ∧
    (s'.Alone ∨ s'.Answered) ∧ s'.todo < s.todo

variable {result : Except String (Outcome × Option UInt64)}

/-- Serving a request brings the session nearer to its answer. -/
theorem serve_nearer (hclient : s.client.Waits) {r : Reader} (hserver : s.server = .reading r)
    (d : Shared Peer Addr) (req : LocalRequest) :
    (serve daemon d s req).1.listening = d.listening ∧
      ((serve daemon d s req).2.Alone ∨ (serve daemon d s req).2.Answered) ∧
      (serve daemon d s req).2.todo < s.todo := by
  have hstage : 3 ≤ s.server.stage := by
    rw [hserver]
    exact (by decide : 3 ≤ 4)
  cases req with
  | dial peer addrs task deadline contentType credential body =>
      rw [UatLocalSession.serve]
      cases buildDial daemon peer addrs task deadline contentType credential body with
      | error message => exact ⟨rfl, respondWith_nearer hclient hstage⟩
      | ok dial =>
          refine ⟨rfl, Or.inl ⟨hclient, .dialing⟩, ?_⟩
          show 8 * 3 + 4 * s.client.stage + 2 * toMove s.client.left + toMove s.toServer + 2 * 0 +
            toMove s.toClient < s.todo
          rw [Session.todo, hserver]
          show _ < 8 * 4 + _ + _ + _ + _ + _
          omega
  | inbox =>
      rw [UatLocalSession.serve]
      cases d.latestInbox with
      | none => exact ⟨rfl, respondWith_nearer hclient hstage⟩
      | some ev => exact ⟨rfl, respondWith_nearer hclient hstage⟩
  | message m => exact ⟨rfl, respondWith_nearer hclient hstage⟩

/-- The client puts what it has left. -/
theorem puts_nearer (halone : s.Alone) {left : Bytes} (hclient : s.client = .writing left)
    (hleft : left ≠ []) (d : Shared Peer Addr) : Nearer daemon result d s := by
  refine ⟨.client (.puts left.length), d,
    { s with client := .writing [], toServer := s.toServer ++ left, sent := s.sent ++ left },
    trivial, ?_, rfl, Or.inl ⟨.writing [], halone.server⟩, ?_⟩
  · show (clientStep s (.puts left.length)).map _ = _
    unfold clientStep
    rw [hclient]
    show some (d, { s with client := .writing (left.drop left.length)
                           toServer := s.toServer ++ left.take left.length
                           sent := s.sent ++ left.take left.length }) = _
    rw [List.drop_length, List.take_length]
  · have hmore := toMove_le (s.toServer ++ left)
    show 8 * s.server.stage + 4 * 2 + 2 * 0 + toMove (s.toServer ++ left) +
      2 * toMove s.server.left + toMove s.toClient < s.todo
    rw [Session.todo, hclient]
    show _ < _ + 4 * 2 + 2 * toMove left + _ + _ + _
    rw [toMove_of_ne hleft]
    omega

/-- The session reads its request. -/
theorem reading_nearer (hread : ReadsBackNested text) (hsound : s.Sound daemon) (hwhole : s.Whole)
    (halone : s.Alone) {r : Reader} (hserver : s.server = .reading r)
    (hopen : r.recv.ended = none) (d : Shared Peer Addr) : Nearer daemon result d s := by
  have hr : s.server.reader = some r := by rw [hserver]; rfl
  obtain ⟨rc, hrc⟩ := halone.client.reader
  by_cases hleft : s.client.left = []
  · by_cases htoServer : s.toServer = []
    · -- The frame is there.
      have hbytes : r.bytes = s.wire := by
        have hsent := hwhole.request rc hrc
        rw [← (hsound.request r hr).2.2, hleft, htoServer, List.append_nil, List.append_nil]
          at hsent
        exact hsent
      have hpoll : r.poll = .ready (.ok s.wire) :=
        poll_whole (oneFrame_wireOf _ _) (hwhole.encoded rc hrc).2 (hsound.request r hr).2.1 hbytes
      have hhandle : handle daemon d s (.ok s.wire) = serve daemon d s s.req := by
        rw [handle, requested_wire hread (hwhole.encoded rc hrc).2]
      obtain ⟨hlistening, hnext, htodo⟩ := serve_nearer halone.client hserver d s.req
      refine ⟨.server .poll, _, _, trivial, ?_, hlistening, hnext, htodo⟩
      show serverStep daemon d s .poll = _
      unfold serverStep
      rw [hserver]
      dsimp only
      rw [hpoll]
      exact congrArg some hhandle
    · refine ⟨.server (.gets s.toServer.length), d,
        { s with server := .reading (r.gets s.toServer), toServer := [] }, trivial, ?_, rfl,
        Or.inl ⟨halone.client, .reading _ hopen⟩, ?_⟩
      · show serverStep daemon d s (.gets s.toServer.length) = _
        unfold serverStep
        rw [hserver]
        dsimp only
        rw [if_pos hopen, List.take_length, List.drop_length]
      · rw [Session.todo, Session.todo, hserver, toMove_of_ne htoServer]
        exact Nat.add_lt_add_right (Nat.add_lt_add_right (Nat.lt_succ_self _) _) _
  · cases hclient : s.client with
    | writing left =>
        rw [hclient] at hleft
        exact puts_nearer halone hclient hleft d
    | _ =>
        rw [hclient] at hleft
        exact absurd rfl hleft

/-- The session writes its response. -/
theorem writing_nearer (halone : s.Alone) {left : Bytes} (hserver : s.server = .writing left)
    (d : Shared Peer Addr) : Nearer daemon result d s := by
  by_cases hleft : left = []
  · subst hleft
    refine ⟨.server .wrote, d, { s with server := .ended (pure ()) }, trivial, ?_, rfl,
      Or.inl ⟨halone.client, .written⟩, ?_⟩
    · show serverStep daemon d s .wrote = _
      unfold serverStep
      rw [hserver]
      rfl
    · show 8 * 1 + 4 * s.client.stage + 2 * toMove s.client.left + toMove s.toServer + 2 * 0 +
        toMove s.toClient < s.todo
      rw [Session.todo, hserver]
      show _ < 8 * 2 + _ + _ + _ + 2 * 0 + _
      omega
  · refine ⟨.server (.puts left.length), d, { s with server := .writing [], toClient :=
      s.toClient ++ left }, trivial, ?_, rfl, Or.inl ⟨halone.client, .writing []⟩, ?_⟩
    · show serverStep daemon d s (.puts left.length) = _
      unfold serverStep
      rw [hserver]
      show some (d, { s with server := .writing (left.drop left.length), toClient :=
        s.toClient ++ left.take left.length }) = _
      rw [List.drop_length, List.take_length]
    · have hmore := toMove_le (s.toClient ++ left)
      show 8 * 2 + 4 * s.client.stage + 2 * toMove s.client.left + toMove s.toServer + 2 * 0 +
        toMove (s.toClient ++ left) < s.todo
      rw [Session.todo, hserver]
      show _ < 8 * 2 + _ + _ + _ + 2 * toMove left + _
      rw [toMove_of_ne hleft]
      omega

/-- The response is written, and the client reads it. -/
theorem written_nearer (hread : ReadsBackNested text) (hsound : s.Sound daemon)
    (hwhole : s.Whole) (halone : s.Alone) (hserver : s.server = .ended (.ok ()))
    (d : Shared Peer Addr) : Nearer daemon result d s := by
  have hdelivers : s.server.Delivers := hserver ▸ .written
  obtain ⟨rc, hrc⟩ := halone.client.reader
  obtain ⟨hne, hbytes⟩ := hwhole.response rc hrc hdelivers
  obtain ⟨resp, hanswer⟩ := exists_answer hne
  have hserverLeft : s.server.left = [] := by
    rw [hserver]
    rfl
  cases hclient : s.client with
  | writing left =>
      -- A session that has answered has read the whole request.
      have hleft : left = [] := by
        rcases hsound.sent with ⟨-, hnone⟩ | ⟨-, -, hsent⟩
        · rw [hanswer] at hnone
          cases hnone
        · have hnil := hsound.left_nil hsent
          rw [hclient] at hnil
          exact hnil
      subst hleft
      refine ⟨.client .wrote, d, { s with client := .reading .start }, trivial, ?_, rfl,
        Or.inl ⟨.reading .start rfl, halone.server⟩, ?_⟩
      · show (clientStep s .wrote).map _ = _
        unfold clientStep
        rw [hclient]
        rfl
      · show 8 * s.server.stage + 4 * 1 + 2 * 0 + toMove s.toServer + 2 * toMove s.server.left +
          toMove s.toClient < s.todo
        rw [Session.todo, hclient]
        show _ < _ + 4 * 2 + 2 * 0 + _ + _ + _
        omega
  | reading r =>
      have hopen : r.recv.ended = none := by
        have hwaits := halone.client
        rw [hclient] at hwaits
        cases hwaits with
        | reading _ hopen => exact hopen
      have hr : s.client.reader = some r := by rw [hclient]; rfl
      obtain rfl := Option.some.inj (hrc.symm.trans hr)
      by_cases htoClient : s.toClient = []
      · rw [htoClient, hserverLeft, List.append_nil, List.append_nil] at hbytes
        have hpoll := poll_whole (oneFrame_answerWire s) hne (hsound.response rc hrc).1 hbytes
        have hreceived := received_answerWire hread hanswer hne
        refine ⟨.client .poll, d, { s with client := .returned (.ok resp) }, trivial, ?_, rfl,
          Or.inr ⟨resp, hanswer, Or.inl rfl⟩, ?_⟩
        · show (clientStep s .poll).map _ = _
          unfold clientStep
          rw [hclient]
          dsimp only
          rw [hpoll]
          show some (d, { s with client := .returned (received (.ok s.answerWire)) }) = _
          rw [hreceived]
        · show 8 * s.server.stage + 4 * 0 + 2 * 0 + toMove s.toServer +
            2 * toMove s.server.left + toMove s.toClient < s.todo
          rw [Session.todo, hclient]
          show _ < _ + 4 * 1 + 2 * 0 + _ + _ + _
          omega
      · refine ⟨.client (.gets s.toClient.length), d,
          { s with client := .reading (rc.gets s.toClient), toClient := [] }, trivial, ?_, rfl,
          Or.inl ⟨.reading _ hopen, halone.server⟩, ?_⟩
        · show (clientStep s (.gets s.toClient.length)).map _ = _
          unfold clientStep
          rw [hclient]
          dsimp only
          rw [if_pos hopen, List.take_length, List.drop_length]
          rfl
        · rw [Session.todo, Session.todo, hclient, toMove_of_ne htoClient]
          show _ + _ + _ + _ + _ + 0 < _ + _ + _ + _ + _ + 1
          exact Nat.lt_succ_self _
  | _ =>
      rw [hclient] at hrc
      cases hrc

/-- **There is always a step to take**, as long as the daemon listens. -/
theorem alone_nearer (hread : ReadsBackNested text) (hsound : s.Sound daemon) (hwhole : s.Whole)
    (halone : s.Alone) (hlistening : d.listening = true) : Nearer daemon result d s := by
  have hserves := halone.server
  cases hserver : s.server with
  | backlog =>
      refine ⟨.accept, d, { s with server := .reading .start }, trivial, ?_, rfl,
        Or.inl ⟨halone.client, .reading .start rfl⟩, ?_⟩
      · rw [act, hserver]
        exact if_pos hlistening
      · show 8 * 4 + 4 * s.client.stage + 2 * toMove s.client.left + toMove s.toServer + 2 * 0 +
          toMove s.toClient < s.todo
        rw [Session.todo, hserver]
        show _ < 8 * 5 + _ + _ + _ + 2 * 0 + _
        omega
  | reading r =>
      rw [hserver] at hserves
      cases hserves with
      | reading _ hopen => exact reading_nearer hread hsound hwhole halone hserver hopen d
  | dialing =>
      have hstage : 3 ≤ s.server.stage := by
        rw [hserver]
        exact Nat.le_refl 3
      refine ⟨.dialEnds result, d.does (.dialEnded result),
        (s.does (.dialEnded result)).respondWith (dialResponse result), rfl, ?_, rfl,
        respondWith_nearer halone.client hstage⟩
      rw [act, hserver]
  | writing left => exact writing_nearer halone hserver d
  | ended r =>
      rw [hserver] at hserves
      cases hserves with
      | written => exact written_nearer hread hsound hwhole halone hserver d
  | _ =>
      rw [hserver] at hserves
      cases hserves

/-! ## Among the others -/

variable {w : Pool (Shared Peer Addr) (Session Peer Addr)}
  {es : List (TaskPool.Ev Act Start Signal)}

/-- In every reachable state both ways of every session are whole. -/
theorem run_whole (hread : ReadsBackNested text)
    (hrun : runFrom (TaskPool.step (localSocket daemon)) ⟨.start, []⟩ es = some w) :
    ∀ s ∈ w.members, s.Sound daemon ∧ s.Whole := by
  have hholds : Holds (fun _ : Shared Peer Addr => True)
      (fun _ _ s => Session.Sound daemon s ∧ Session.Whole s) w := by
    refine run_invariant (Holds _ _) (fun w e w' hw hs => ?_) es _ w (holds_empty trivial) hrun
    refine hw.step (Q := fun _ => True) (fun d start d' s _ _ hs => ?_)
      (fun d i s a d' s' _ hs _ hact => ?_) (fun d c d' _ _ _ => ?_) trivial hs
    · obtain ⟨rfl, rfl⟩ := Prod.mk.inj (Option.some.inj hs)
      exact ⟨trivial, fun _ => ⟨sound_start start, whole_start start⟩, fun _ _ hz => hz⟩
    · have hstepped := stepped_of_act hact
      exact ⟨trivial, ⟨hs.1.step hread hstepped, hs.2.step hread hs.1 hstepped⟩,
        fun _ _ _ hz => hz⟩
    · exact ⟨trivial, fun _ _ hz => hz⟩
  intro s hs
  obtain ⟨i, hi⟩ := List.mem_iff_getElem?.mp hs
  exact hholds.members i s hi

/-- A calm move of one session. -/
def CalmAt (i : Nat) (result : Except String (Outcome × Option UInt64)) :
    TaskPool.Ev Act Start Signal → Prop
  | .act n a => n = i ∧ a.Calm result
  | _ => False

/-- The session has been answered. -/
def AnsweredAt (i : Nat) (w : Pool (Shared Peer Addr) (Session Peer Addr)) : Prop :=
  ∃ s, w.members[i]? = some s ∧ s.Answered

/-- What the session has left to do. -/
def todoAt (i : Nat) (w : Pool (Shared Peer Addr) (Session Peer Addr)) : Nat :=
  (w.members[i]?.map Session.todo).getD 0

variable (daemon) in
/-- The session is on its way to the answer, or there. -/
def OnTheWay (i : Nat) (w : Pool (Shared Peer Addr) (Session Peer Addr)) : Prop :=
  w.shared.listening = true ∧ ∃ s, w.members[i]? = some s ∧ s.Sound daemon ∧ s.Whole ∧
    (s.Alone ∨ s.Answered)

/-- The step that is left to take is one of the pool. -/
theorem onTheWay_step (hread : ReadsBackNested text) {i : Nat} (h : OnTheWay daemon i w)
    (hdone : ¬ AnsweredAt i w) : ∃ e w', CalmAt i result e ∧
      TaskPool.step (localSocket daemon) w e = some w' ∧ OnTheWay daemon i w' ∧
      todoAt i w' < todoAt i w := by
  obtain ⟨hlistening, s, hi, hsound, hwhole, halone | hanswered⟩ := h
  · obtain ⟨a, d', s', hcalm, hact, hstill, hnext, htodo⟩ :=
      alone_nearer hread hsound hwhole halone hlistening
    have hi' : (w.members.set i s')[i]? = some s' :=
      List.getElem?_set_self (List.getElem?_eq_some_iff.mp hi).1
    have hstepped := stepped_of_act hact
    refine ⟨.act i a, ⟨d', w.members.set i s'⟩, ⟨rfl, hcalm⟩, ?_,
      ⟨hstill.trans hlistening, s', hi', hsound.step hread hstepped,
        hwhole.step hread hsound hstepped, hnext⟩, ?_⟩
    · show w.members[i]?.bind _ = _
      rw [hi]
      show (act daemon w.shared s a).map _ = _
      rw [hact]
      rfl
    · show ((w.members.set i s')[i]?.map Session.todo).getD 0 < todoAt i w
      rw [todoAt, hi, hi']
      exact htodo
  · exact absurd ⟨s, hi, hanswered⟩ hdone

/-- **A CLIENT THAT WAITS IS ANSWERED.**  From every state the daemon's socket can reach while
    it listens, whatever the other clients have done and however a dial ends: a client and its
    session that have not given up come, by moves of their own on streams that carry on, to
    where the client has the response, unless the response does not fit a frame. -/
theorem local_rpc_answered (hread : ReadsBackNested text)
    (hrun : runFrom (TaskPool.step (localSocket daemon)) ⟨.start, []⟩ es = some w)
    (hlistening : w.shared.listening = true) {i : Nat} (hi : w.members[i]? = some s)
    (halone : s.Alone) (result : Except String (Outcome × Option UInt64)) :
    ∃ es' w' s',
      EveryStep (TaskPool.step (localSocket daemon)) (fun _ e => CalmAt i result e) w es' ∧
      runFrom (TaskPool.step (localSocket daemon)) w es' = some w' ∧
      w'.members[i]? = some s' ∧ s'.Answered := by
  obtain ⟨hsound, hwhole⟩ := run_whole hread hrun s (List.mem_of_getElem? hi)
  have hway : OnTheWay daemon i w := ⟨hlistening, s, hi, hsound, hwhole, Or.inl halone⟩
  obtain ⟨es', w', hcalm, hrun', -, s', hi', hanswered⟩ :=
    exists_run_to (fun w => onTheWay_step hread) (todoAt i w) w (Nat.le_refl _) hway
  exact ⟨es', w', s', hcalm, hrun', hi', hanswered⟩

end

section

attribute [local instance] urlSafeNoPad compactJson

/-- No character needs an escape. -/
local instance : UnicodeTables := ⟨fun _ => false, fun _ => true⟩

/-- A client that polls the inbox. -/
def polling : Start := ⟨"node.sock", .connected, .inbox⟩

theorem local_rpc_answered_polling :
    ∃ es' w' s', runFrom (TaskPool.step (localSocket loopback)) ⟨.start, [.start polling]⟩ es' =
      some w' ∧ w'.members[0]? = some s' ∧ s'.Answered := by
  obtain ⟨buf, hbuf⟩ : ∃ buf, encodeRequest polling.req [] = .ok buf := ⟨_, rfl⟩
  have hstart : (Session.start polling : Session String Nat) =
      ⟨.inbox, .writing buf, .backlog, [], [], [], [], none⟩ := by
    have hconnect : connect polling.path polling.reach = .ok () := rfl
    rw [Session.start, hconnect]
    dsimp only
    rw [hbuf]
    rfl
  have halone : (Session.start polling : Session String Nat).Alone := by
    rw [hstart]
    exact ⟨.writing buf, .backlog⟩
  have hrun : runFrom (TaskPool.step (localSocket loopback)) ⟨.start, []⟩ [.spawn polling] =
      some ⟨.start, [.start polling]⟩ := rfl
  have hfirst : ([.start polling] : List (Session String Nat))[0]? = some (.start polling) := rfl
  obtain ⟨es', w', s', -, hrun', hi, hanswered⟩ :=
    local_rpc_answered compactJson_readsBackNested hrun rfl hfirst halone (.error "dial timeout")
  exact ⟨es', w', s', hrun', hi, hanswered⟩

end

end UatLocalSession
