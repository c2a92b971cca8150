import Uat.Base.Pool
import Uat.LocalClient
import Uat.RecvStream

/-! # The local socket — clients and sessions at once

    `spawn_local_accept_loop` spawns one `handle_client` for each client, and nobody counts
    them.  They share the inbox slot and the node; a dial of theirs takes as long as the
    call, and a client may give up, or die, at any byte.

    * **`Reader`** — one frame read as its bytes arrive; `poll_pollsOne` says what a poll of
      it can be on a stream that carries one frame.
    * **`Session`** — `roundtrip` on one side of a connection, `handle_client` on the other,
      and the two directions between them, byte by byte.
    * **`Stepped`** — the kinds of steps, from which `Uat.LocalRpc` proves what a run of any
      number of sessions can do. -/

namespace UatLocalSession

open UatTypes UatHeader UatLocalCodec UatLocalClient UatIncoming UatRecvStream UatStream Checked
open UatCodec (maxFrame maxHdrLen Layout)
open Positional (toBe)
open StepRun TaskPool

/-! ## Reading a frame -/

/-- The `std::io::Error`s of the local socket. -/
inductive IoError where
  /-- `read_exact` met the end of the stream. -/
  | unexpectedEof
  | other
  deriving DecidableEq, Repr

/-- Client-side connection / protocol errors. -/
inductive LocalClientError where
  /-- No `node.sock`. -/
  | notRunning (path : String)
  /-- The socket file exists but nothing accepts. -/
  | staleSocket (path : String)
  /-- The daemon returned an error response. -/
  | daemon (message : String)
  | codec (err : LocalCodecError)
  | io (err : IoError)
  deriving DecidableEq, Repr

/-- `read_frame` of this socket takes the peer's steps and has names of its own for what
    can go wrong. -/
def mapReadFrame : FrameIoError → LocalClientError
  | .codec _ => .codec .frameTooLarge
  | .unexpectedEnd => .io .unexpectedEof
  | .read _ | .write => .io .other

/-- A read that is suspended, and the stream it reads. -/
structure Reader where
  read : ReadFrame
  recv : RecvStream
  deriving DecidableEq

/-- A read that has not begun, of a stream on which nothing came in. -/
def Reader.start : Reader := ⟨.fresh, ⟨[], none⟩⟩

/-- All that has come in. -/
def Reader.bytes (r : Reader) : Bytes := r.read.held ++ r.recv.arrived

/-- Bytes arrive. -/
def Reader.gets (r : Reader) (bs : Bytes) : Reader :=
  { r with recv := { r.recv with arrived := r.recv.arrived ++ bs } }

/-- The stream ends, one way or the other. -/
def Reader.ends (r : Reader) (e : StreamEnd) : Reader :=
  { r with recv := { r.recv with ended := some e } }

/-- One poll of this socket's `read_frame`. -/
def Reader.poll (r : Reader) : Poll Reader (Exec LocalClientError Bytes) :=
  match pollFrame r.read r.recv with
  | (.pending read, recv) => .pending ⟨read, recv⟩
  | (.ready frame, _) => .ready (mapErr mapReadFrame frame)

/-- Bytes that arrive are behind those that are there, and before those that follow. -/
theorem Reader.bytes_gets_take (r : Reader) (n : Nat) (bs : Bytes) :
    (r.gets (bs.take n)).bytes ++ bs.drop n = r.bytes ++ bs := by
  show (r.read.held ++ (r.recv.arrived ++ bs.take n)) ++ bs.drop n = _
  rw [← List.append_assoc, List.append_assoc, List.take_append_drop]
  rfl

/-- A reader that waits has lost nothing. -/
theorem poll_pending {r r' : Reader} (hpart : r.read.Partial) (hpoll : r.poll = .pending r') :
    r'.read.Partial ∧ r'.bytes = r.bytes := by
  rw [Reader.poll] at hpoll
  cases hframe : pollFrame r.read r.recv with
  | mk polled recv =>
      rw [hframe] at hpoll
      cases polled with
      | pending read =>
          obtain rfl := Poll.pending.inj hpoll
          exact pollFrame_pending hpart hframe
      | ready frame => cases hpoll

/-- The bytes of at most one frame. -/
def OneFrame (wire : Bytes) : Prop :=
  wire = [] ∨ ∃ payload, payload.length ≤ maxFrame ∧ wire = frameOf payload

/-- A poll of a reader whose stream carries one frame: it waits with what it has, or it has
    the frame and nothing is left, or the stream is over. -/
inductive PollsOne (wire later : Bytes) (r : Reader) :
    Poll Reader (Exec LocalClientError Bytes) → Prop where
  | waits (r' : Reader) : PollsOne wire later r (.pending r')
  | whole (hlater : later = []) (hbytes : r.bytes = wire) (hwire : wire ≠ []) :
      PollsOne wire later r (.ready (.ok wire))
  | broken (err : IoError) : PollsOne wire later r (.ready (fail (.io err)))

/-- Too few bytes for a frame. -/
theorem poll_short {wire later : Bytes} {r : Reader} (hpart : r.read.Partial)
    (hshort : readFrame r.bytes = fail .unexpectedEnd) : PollsOne wire later r r.poll := by
  have hpoll : pollFrame r.read r.recv = awaitMore r.bytes r.recv := by
    rw [pollFrame_eq hpart, ← Reader.bytes, pollBytes, hshort]
    rfl
  rw [Reader.poll, hpoll, awaitMore]
  rcases r.recv.ended with _ | _ | _
  · exact .waits _
  · exact .broken .unexpectedEof
  · exact .broken .other

/-- **One frame is read whole or not at all.** -/
theorem poll_pollsOne {wire later : Bytes} {r : Reader} (hwire : OneFrame wire)
    (hpart : r.read.Partial) (hbytes : r.bytes ++ later <+: wire) :
    PollsOne wire later r r.poll := by
  rcases hwire with rfl | ⟨payload, hle, rfl⟩
  · -- Nothing was ever sent.
    have hnil : r.bytes = [] := (List.append_eq_nil_iff.mp (List.prefix_nil.mp hbytes)).1
    exact poll_short hpart (readFrame_short (by rw [hnil]; exact Nat.zero_lt_succ 3))
  · obtain ⟨lost, hlost⟩ := hbytes
    rw [List.append_assoc, ← List.append_nil (frameOf payload)] at hlost
    rcases readFrame_part hle hlost with ⟨rest, hok, hrest⟩ | ⟨hshort, -⟩
    · -- The frame is there, so what is behind it is nothing.
      obtain ⟨hlater, hlost'⟩ := List.append_eq_nil_iff.mp (List.append_eq_nil_iff.mp hrest).2
      have hbytes : r.bytes = frameOf payload := by
        rw [hlater, hlost', List.append_nil, List.append_nil, List.append_nil] at hlost
        exact hlost
      have hready : r.poll = .ready (.ok (frameOf payload)) := by
        rw [Reader.poll, pollFrame_eq hpart, ← Reader.bytes, pollBytes, hok]
        rfl
      have hne := frameOf_ne_nil payload []
      rw [List.append_nil] at hne
      rw [hready]
      exact .whole hlater hbytes hne
    · exact poll_short hpart hshort

/-- What is written to a stream of its own: the frame, if there is one. -/
def wireOf (frame : Except LocalCodecError Bytes) : Bytes := frame.toOption.getD []

/-- What is written to a stream of its own is one frame, or nothing. -/
theorem oneFrame_wireOf (header body : Bytes) :
    OneFrame (wireOf (encodeJsonFrame header body [])) := by
  cases hencode : encodeJsonFrame header body [] with
  | error err => exact Or.inl rfl
  | ok out =>
      obtain ⟨-, hfit, rfl⟩ := encodeJsonFrame_ok_iff.mp hencode
      have hlen : (toBe 2 header.length ++ header ++ body).length =
          2 + header.length + body.length := by
        simp only [List.length_append, Positional.length_toBe]
      refine Or.inr ⟨toBe 2 header.length ++ header ++ body, hlen.trans_le hfit, ?_⟩
      show [] ++ _ = _
      rw [List.nil_append, frameOf, hlen]
      simp only [List.append_assoc]

/-- A frame has its length at least. -/
theorem encode_ne_nil {header body out : Bytes}
    (h : encodeJsonFrame header body [] = .ok out) : out ≠ [] := by
  rintro rfl
  obtain ⟨-, -, hbytes⟩ := encodeJsonFrame_ok_iff.mp h
  have hlen := congrArg List.length hbytes
  simp only [List.length_append, Positional.length_toBe, List.length_nil] at hlen
  omega

/-- What was read off it is what was encoded. -/
theorem encode_of_wireOf {frame : Except LocalCodecError Bytes} (h : wireOf frame ≠ []) :
    frame = .ok (wireOf frame) := by
  cases frame with
  | error err => exact absurd rfl h
  | ok out => rfl

/-! ## One session -/

section

variable [Base64Engine]

/-- `roundtrip`, once the socket is connected. -/
inductive Client where
  /-- In `write_all`, with these bytes to go. -/
  | writing (left : Bytes)
  | reading (reader : Reader)
  | returned (r : Exec LocalClientError LocalResponse)
  | dropped

/-- What the client still has to write. -/
def Client.left : Client → Bytes
  | .writing left => left
  | _ => []

/-- `handle_client`. -/
inductive Server where
  /-- The client did not get through to the socket. -/
  | unconnected
  /-- Waiting to be accepted. -/
  | backlog
  | reading (reader : Reader)
  /-- In `node.dial(addr, submit).await`. -/
  | dialing
  | writing (left : Bytes)
  | ended (r : Exec LocalClientError Unit)
  | dropped

/-- What the daemon still has to write. -/
def Server.left : Server → Bytes
  | .writing left => left
  | _ => []

/-- What the daemon does for a client, other than answer. -/
inductive Deed (Peer Addr : Type) where
  | dialed (addr : Peer × List Addr) (submit : Message)
  | dialEnded (r : Except String (Outcome × Option UInt64))
  | took (ev : InboxEvent)

/-- A client, its session and the bytes between them; `sent` is all that the client has put
    on the stream, `deeds` and `answer` are what the session has done, and what it answers. -/
structure Session (Peer Addr : Type) where
  req : LocalRequest
  client : Client
  server : Server
  toServer : Bytes
  toClient : Bytes
  sent : Bytes
  deeds : List (Deed Peer Addr)
  answer : Option LocalResponse

/-- What all sessions share; `stored` is all that the inbox forwarder put into the slot, and
    `deeds` what the sessions have done. -/
structure Shared (Peer Addr : Type) where
  latestInbox : Option InboxEvent
  listening : Bool
  stored : List InboxEvent
  deeds : List (Deed Peer Addr)

/-- A daemon that listens, with an empty slot. -/
def Shared.start {Peer Addr : Type} : Shared Peer Addr := ⟨none, true, [], []⟩

/-- What `connect` finds at the path of the socket. -/
inductive Reach where
  | missing
  | refused
  | connected
  deriving DecidableEq, Repr

/-- What can happen to one end of a connection. -/
inductive Io where
  /-- The stream takes `n` more bytes. -/
  | puts (n : Nat)
  | wrote
  | writeFails
  /-- The next `n` bytes arrive. -/
  | gets (n : Nat)
  | ends (e : StreamEnd)
  | poll
  | drop

/-- What can happen to a session. -/
inductive Act where
  | client (io : Io)
  | accept
  | server (io : Io)
  /-- `Node::dial` is over. -/
  | dialEnds (r : Except String (Outcome × Option UInt64))

/-- What can happen to what the sessions share. -/
inductive Signal where
  /-- The forwarder fills the slot. -/
  | store (ev : InboxEvent)
  /-- The accept loop ends. -/
  | stop

/-- A client starts. -/
structure Start where
  path : String
  reach : Reach
  req : LocalRequest

variable {Peer Addr : Type}

/-- `connect`: a socket that is missing, or refuses, has an error that says what to do. -/
def connect (path : String) : Reach → Except LocalClientError Unit
  | .missing => .error (.notRunning path)
  | .refused => .error (.staleSocket path)
  | .connected => .ok ()

/-- The answer to a `dial` that is over. -/
def dialResponse : Except String (Outcome × Option UInt64) → LocalResponse
  | .ok (outcome, rttMs) => .dialResult outcome rttMs
  | .error err => .error err

/-- The answer to a message. -/
def unforwarded : LocalResponse :=
  .error ("message forwarding on the local socket requires an active call session " ++
    "(M1 dial is one-shot; use Dial)")

def Session.does (s : Session Peer Addr) (deed : Deed Peer Addr) : Session Peer Addr :=
  { s with deeds := s.deeds ++ [deed] }

def Shared.does (d : Shared Peer Addr) (deed : Deed Peer Addr) : Shared Peer Addr :=
  { d with deeds := d.deeds ++ [deed] }

variable [text : JsonText]

/-- The two futures after `connect`: the client's, and the session that waits for it. -/
def Session.start (start : Start) : Session Peer Addr :=
  match connect start.path start.reach with
  | .error err => ⟨start.req, .returned (fail err), .unconnected, [], [], [], [], none⟩
  | .ok () =>
      match encodeRequest start.req [] with
      | .error err => ⟨start.req, .returned (fail (.codec err)), .backlog, [], [], [], [], none⟩
      | .ok buf => ⟨start.req, .writing buf, .backlog, [], [], [], [], none⟩

/-- From the response on. -/
def Session.respondWith (s : Session Peer Addr) (resp : LocalResponse) : Session Peer Addr :=
  { s with
    answer := some resp
    server := match encodeResponse resp [] with
      | .ok out => .writing out
      | .error err => .ended (fail (.codec err)) }

/-- What the client makes of the frame it read. -/
def received (frame : Exec LocalClientError Bytes) : Exec LocalClientError LocalResponse :=
  frame.bind fun frame => mapErr .codec (decodeResponse frame)

/-! ## What a client can do -/

/-- One step of `roundtrip`. -/
def clientStep (s : Session Peer Addr) (io : Io) : Option (Session Peer Addr) :=
  match s.client with
  | .writing left =>
      match io with
      | .puts n =>
          some { s with client := .writing (left.drop n)
                        toServer := s.toServer ++ left.take n
                        sent := s.sent ++ left.take n }
      | .wrote => if left = [] then some { s with client := .reading .start } else none
      | .writeFails => some { s with client := .returned (fail (.io .other)) }
      | .drop => some { s with client := .dropped }
      | _ => none
  | .reading r =>
      match io with
      | .gets n =>
          if r.recv.ended = none then
            some { s with client := .reading (r.gets (s.toClient.take n))
                          toClient := s.toClient.drop n }
          else none
      | .ends e => some { s with client := .reading (r.ends e) }
      | .poll =>
          match r.poll with
          | .pending r => some { s with client := .reading r }
          | .ready frame => some { s with client := .returned (received frame) }
      | .drop => some { s with client := .dropped }
      | _ => none
  | _ => none

/-- What the client's side can do. -/
inductive ClientStepped (s : Session Peer Addr) : Session Peer Addr → Prop where
  | puts (left : Bytes) (n : Nat) (h : s.client = .writing left) :
      ClientStepped s { s with client := .writing (left.drop n)
                               toServer := s.toServer ++ left.take n
                               sent := s.sent ++ left.take n }
  | wrote (h : s.client = .writing []) : ClientStepped s { s with client := .reading .start }
  | gets (r : Reader) (n : Nat) (h : s.client = .reading r) :
      ClientStepped s { s with client := .reading (r.gets (s.toClient.take n))
                               toClient := s.toClient.drop n }
  | ends (r : Reader) (e : StreamEnd) (h : s.client = .reading r) :
      ClientStepped s { s with client := .reading (r.ends e) }
  | polled (r r' : Reader) (h : s.client = .reading r) (hpoll : r.poll = .pending r') :
      ClientStepped s { s with client := .reading r' }
  | read (r : Reader) (frame : Exec LocalClientError Bytes) (h : s.client = .reading r)
      (hpoll : r.poll = .ready frame) :
      ClientStepped s { s with client := .returned (received frame) }
  | failed : ClientStepped s { s with client := .returned (fail (.io .other)) }
  | dropped : ClientStepped s { s with client := .dropped }

/-- **Inversion.** -/
theorem clientStepped_of_step {s s' : Session Peer Addr} {io : Io}
    (h : clientStep s io = some s') : ClientStepped s s' := by
  unfold clientStep at h
  cases hclient : s.client with
  | writing left =>
      rw [hclient] at h
      cases io with
      | puts n =>
          obtain rfl := Option.some.inj h
          exact .puts left n hclient
      | wrote =>
          obtain ⟨rfl, h⟩ := Option.ite_none_right_eq_some.mp h
          obtain rfl := Option.some.inj h
          exact .wrote hclient
      | writeFails =>
          obtain rfl := Option.some.inj h
          exact .failed
      | drop =>
          obtain rfl := Option.some.inj h
          exact .dropped
      | _ => cases h
  | reading r =>
      rw [hclient] at h
      cases io with
      | gets n =>
          obtain ⟨-, h⟩ := Option.ite_none_right_eq_some.mp h
          obtain rfl := Option.some.inj h
          exact .gets r n hclient
      | ends e =>
          obtain rfl := Option.some.inj h
          exact .ends r e hclient
      | poll =>
          dsimp only at h
          cases hpoll : r.poll with
          | pending r' =>
              rw [hpoll] at h
              obtain rfl := Option.some.inj h
              exact .polled r r' hclient hpoll
          | ready frame =>
              rw [hpoll] at h
              obtain rfl := Option.some.inj h
              exact .read r frame hclient hpoll
      | drop =>
          obtain rfl := Option.some.inj h
          exact .dropped
      | _ => cases h
  | _ =>
      rw [hclient] at h
      cases h

/-! ## What its session can do -/

variable [UnicodeTables] (daemon : Daemon Peer Addr)

/-- The `match` on the request, up to the response or the dial. -/
def serve (d : Shared Peer Addr) (s : Session Peer Addr) :
    LocalRequest → Shared Peer Addr × Session Peer Addr
  | .dial peer addrs task deadline contentType credential body =>
      match buildDial daemon peer addrs task deadline contentType credential body with
      | .ok (addr, submit) =>
          (d.does (.dialed addr submit), { s.does (.dialed addr submit) with server := .dialing })
      | .error message => (d, s.respondWith (.error message))
  | .inbox =>
      match d.latestInbox with
      | some ev =>
          ({ d.does (.took ev) with latestInbox := none },
            (s.does (.took ev)).respondWith (.inboxEvent (debugNodeId ev.peer) ev.outcome))
      | none => (d, s.respondWith .inboxIdle)
  | .message _ => (d, s.respondWith unforwarded)

/-- What the session makes of the frame it read. -/
def requested (frame : Exec LocalClientError Bytes) : Exec LocalClientError LocalRequest :=
  frame.bind fun frame => mapErr .codec (decodeRequest frame)

/-- The session from the frame on. -/
def handle (d : Shared Peer Addr) (s : Session Peer Addr) (frame : Exec LocalClientError Bytes) :
    Shared Peer Addr × Session Peer Addr :=
  match requested frame with
  | .ok req => serve daemon d s req
  | .error stop => (d, { s with server := .ended (.error stop) })

/-- One step of `handle_client`. -/
def serverStep (d : Shared Peer Addr) (s : Session Peer Addr) (io : Io) :
    Option (Shared Peer Addr × Session Peer Addr) :=
  match s.server with
  | .reading r =>
      match io with
      | .gets n =>
          if r.recv.ended = none then
            some (d, { s with server := .reading (r.gets (s.toServer.take n))
                              toServer := s.toServer.drop n })
          else none
      | .ends e => some (d, { s with server := .reading (r.ends e) })
      | .poll =>
          match r.poll with
          | .pending r => some (d, { s with server := .reading r })
          | .ready frame => some (handle daemon d s frame)
      | .drop => some (d, { s with server := .dropped })
      | _ => none
  | .dialing =>
      match io with
      | .drop => some (d, { s with server := .dropped })
      | _ => none
  | .writing left =>
      match io with
      | .puts n =>
          some (d, { s with server := .writing (left.drop n)
                            toClient := s.toClient ++ left.take n })
      | .wrote => if left = [] then some (d, { s with server := .ended (pure ()) }) else none
      | .writeFails => some (d, { s with server := .ended (fail (.io .other)) })
      | .drop => some (d, { s with server := .dropped })
      | _ => none
  | _ => none

/-- One step of a session, over what the sessions share. -/
def act (d : Shared Peer Addr) (s : Session Peer Addr) :
    Act → Option (Shared Peer Addr × Session Peer Addr)
  | .client io => (clientStep s io).map fun s => (d, s)
  | .accept =>
      match s.server with
      | .backlog =>
          if d.listening then some (d, { s with server := .reading .start }) else none
      | _ => none
  | .server io => serverStep daemon d s io
  | .dialEnds r =>
      match s.server with
      | .dialing =>
          some (d.does (.dialEnded r), (s.does (.dialEnded r)).respondWith (dialResponse r))
      | _ => none

/-- An event overwrites the slot; the end of the accept loop is for good. -/
def Shared.signal (d : Shared Peer Addr) : Signal → Option (Shared Peer Addr)
  | .store ev => some { d with latestInbox := some ev, stored := d.stored ++ [ev] }
  | .stop => some { d with listening := false }

/-- The local socket of a daemon: its clients come at any time. -/
def localSocket : Machine (Shared Peer Addr) (Session Peer Addr) Act Start Signal where
  spawn d start := some (d, .start start)
  act _ := act daemon
  env := Shared.signal

/-! ## What a step can be -/

/-- `handle_client` has failed, or was dropped. -/
inductive Server.Over : Server → Prop where
  | failed (stop : Fault LocalClientError) : Over (.ended (.error stop))
  | dropped : Over .dropped

/-- The session is running. -/
inductive Server.Runs : Server → Prop where
  | reading (r : Reader) : Runs (.reading r)
  | dialing : Runs .dialing
  | writing (left : Bytes) : Runs (.writing left)

/-- What a step of a session can be, the shared state included. -/
inductive Stepped (d : Shared Peer Addr) (s : Session Peer Addr) :
    Shared Peer Addr → Session Peer Addr → Prop where
  | client {s' : Session Peer Addr} (h : ClientStepped s s') : Stepped d s d s'
  | accepted (h : s.server = .backlog) : Stepped d s d { s with server := .reading .start }
  | gets (r : Reader) (n : Nat) (h : s.server = .reading r) :
      Stepped d s d { s with server := .reading (r.gets (s.toServer.take n))
                             toServer := s.toServer.drop n }
  | ends (r : Reader) (e : StreamEnd) (h : s.server = .reading r) :
      Stepped d s d { s with server := .reading (r.ends e) }
  | polled (r r' : Reader) (h : s.server = .reading r) (hpoll : r.poll = .pending r') :
      Stepped d s d { s with server := .reading r' }
  | read (r : Reader) (frame : Exec LocalClientError Bytes) (h : s.server = .reading r)
      (hpoll : r.poll = .ready frame) :
      Stepped d s (handle daemon d s frame).1 (handle daemon d s frame).2
  | dialEnded (r : Except String (Outcome × Option UInt64)) (h : s.server = .dialing) :
      Stepped d s (d.does (.dialEnded r)) ((s.does (.dialEnded r)).respondWith (dialResponse r))
  | puts (left : Bytes) (n : Nat) (h : s.server = .writing left) :
      Stepped d s d { s with server := .writing (left.drop n)
                             toClient := s.toClient ++ left.take n }
  | wrote (h : s.server = .writing []) : Stepped d s d { s with server := .ended (pure ()) }
  | stopped (server : Server) (hover : server.Over) (h : s.server.Runs) :
      Stepped d s d { s with server := server }

variable {daemon}

/-- A step of `handle_client` is one of the cases of `Stepped`. -/
theorem stepped_of_serverStep {d d' : Shared Peer Addr} {s s' : Session Peer Addr} {io : Io}
    (h : serverStep daemon d s io = some (d', s')) : Stepped daemon d s d' s' := by
  unfold serverStep at h
  cases hserver : s.server with
  | reading r =>
      have hruns : s.server.Runs := hserver ▸ .reading r
      rw [hserver] at h
      cases io with
      | gets n =>
          obtain ⟨-, h⟩ := Option.ite_none_right_eq_some.mp h
          obtain ⟨rfl, rfl⟩ := Prod.mk.inj (Option.some.inj h)
          exact .gets r n hserver
      | ends e =>
          obtain ⟨rfl, rfl⟩ := Prod.mk.inj (Option.some.inj h)
          exact .ends r e hserver
      | poll =>
          dsimp only at h
          cases hpoll : r.poll with
          | pending r' =>
              rw [hpoll] at h
              obtain ⟨rfl, rfl⟩ := Prod.mk.inj (Option.some.inj h)
              exact .polled r r' hserver hpoll
          | ready frame =>
              rw [hpoll] at h
              obtain ⟨rfl, rfl⟩ := Prod.mk.inj (Option.some.inj h)
              exact .read r frame hserver hpoll
      | drop =>
          obtain ⟨rfl, rfl⟩ := Prod.mk.inj (Option.some.inj h)
          exact .stopped _ .dropped hruns
      | _ => cases h
  | dialing =>
      have hruns : s.server.Runs := hserver ▸ .dialing
      rw [hserver] at h
      cases io with
      | drop =>
          obtain ⟨rfl, rfl⟩ := Prod.mk.inj (Option.some.inj h)
          exact .stopped _ .dropped hruns
      | _ => cases h
  | writing left =>
      have hruns : s.server.Runs := hserver ▸ .writing left
      rw [hserver] at h
      cases io with
      | puts n =>
          obtain ⟨rfl, rfl⟩ := Prod.mk.inj (Option.some.inj h)
          exact .puts left n hserver
      | wrote =>
          obtain ⟨rfl, h⟩ := Option.ite_none_right_eq_some.mp h
          obtain ⟨rfl, rfl⟩ := Prod.mk.inj (Option.some.inj h)
          exact .wrote hserver
      | writeFails =>
          obtain ⟨rfl, rfl⟩ := Prod.mk.inj (Option.some.inj h)
          exact .stopped _ (.failed _) hruns
      | drop =>
          obtain ⟨rfl, rfl⟩ := Prod.mk.inj (Option.some.inj h)
          exact .stopped _ .dropped hruns
      | _ => cases h
  | _ =>
      rw [hserver] at h
      cases h

/-- **Inversion.** -/
theorem stepped_of_act {d d' : Shared Peer Addr} {s s' : Session Peer Addr} {a : Act}
    (h : act daemon d s a = some (d', s')) : Stepped daemon d s d' s' := by
  cases a with
  | client io =>
      obtain ⟨s₁, hs, hr⟩ := Option.map_eq_some_iff.mp h
      obtain ⟨rfl, rfl⟩ := Prod.mk.inj hr
      exact .client (clientStepped_of_step hs)
  | accept =>
      rw [act] at h
      cases hserver : s.server with
      | backlog =>
          rw [hserver] at h
          obtain ⟨-, h⟩ := Option.ite_none_right_eq_some.mp h
          obtain ⟨rfl, rfl⟩ := Prod.mk.inj (Option.some.inj h)
          exact .accepted hserver
      | _ =>
          rw [hserver] at h
          cases h
  | server io => exact stepped_of_serverStep h
  | dialEnds r =>
      rw [act] at h
      cases hserver : s.server with
      | dialing =>
          rw [hserver] at h
          obtain ⟨rfl, rfl⟩ := Prod.mk.inj (Option.some.inj h)
          exact .dialEnded r hserver
      | _ =>
          rw [hserver] at h
          cases h

end

end UatLocalSession
