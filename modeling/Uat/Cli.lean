import Uat.LocalRpc

/-! # `uat dial` — from the arguments to the exit code

    The client binary reads its flags in any order and any number, sends one `Dial` through
    the local socket, and exits with 0 if the call it is told of completed.

    * **`parse_dial_args_grammar`** — which arguments are accepted, and what they are read as.
    * **`cmd_dial_exit`** — exit code 0 means one dial of the daemon, made with exactly these
      arguments, that came back `Completed`; a client that gets its answer exits so for
      every such dial. -/

namespace UatCli

open UatTypes UatHeader UatLocalCodec UatLocalClient UatLocalSession Checked
open UatCodec (tryFrom)
open StepRun TaskPool

/-! ## Arguments -/

/-- One more digit of a `u32`; `checked_mul` and `checked_add` fail where the sum does not
    fit. -/
def pushDigit (n : Nat) (c : Char) : Option Nat :=
  if c.isDigit then tryFrom 32 (n * 10 + (c.toNat - 48)) else none

/-- `raw.parse::<u32>()`: one sign `+` may stand before the digits. -/
def parseU32 (raw : String) : Option Nat :=
  let digits := if raw.toList.head? = some '+' then raw.toList.tail else raw.toList
  if digits = [] then none else digits.foldlM pushDigit 0

/-- The arguments of `uat dial`. -/
structure DialArgs (Addr : Type) where
  peer : String
  deadlineMs : Nat
  contentType : String
  addrs : List Addr

/-- What the loop over the flags has collected. -/
structure Flags (Addr : Type) where
  deadlineMs : Option Nat
  contentType : Option String
  addrs : List Addr

def Flags.none {Addr : Type} : Flags Addr := ⟨.none, .none, []⟩

variable {Addr : Type}

/-- The loop over the flags.  An error is the outermost of its texts. -/
def dialFlags (parseAddr : String → Option Addr) (flags : Flags Addr) :
    List String → Except String (Flags Addr)
  | [] => .ok flags
  | flag :: args =>
      if flag = "--deadline" then
        match args with
        | [] => .error "--deadline requires <ms>"
        | raw :: args =>
            match parseU32 raw with
            | .none => .error "parse --deadline"
            | some ms => dialFlags parseAddr { flags with deadlineMs := some ms } args
      else if flag = "--content-type" then
        match args with
        | [] => .error "--content-type requires <mime>"
        | raw :: args => dialFlags parseAddr { flags with contentType := some raw } args
      else if flag = "--addr" then
        match args with
        | [] => .error "--addr requires ip:port"
        | raw :: args =>
            match parseAddr raw with
            | .none => .error "parse --addr"
            | some addr => dialFlags parseAddr { flags with addrs := flags.addrs ++ [addr] } args
      else .error ("unknown dial arg: " ++ flag)

/-- `parse_dial_args`: the peer, the flags, and what must not be missing. -/
def parseDialArgs (parseAddr : String → Option Addr) :
    List String → Except String (DialArgs Addr)
  | [] => .error "dial requires <peer>"
  | peer :: args =>
      match dialFlags parseAddr .none args with
      | .error message => .error message
      | .ok flags =>
          match flags.deadlineMs, flags.contentType with
          | .none, _ => .error "dial requires --deadline <ms>"
          | some _, .none => .error "dial requires --content-type <mime>"
          | some deadlineMs, some contentType =>
              if flags.addrs = [] then
                .error "dial requires at least one --addr <ip:port> (M1 / no discovery yet)"
              else .ok ⟨peer, deadlineMs, contentType, flags.addrs⟩

/-! ## The grammar -/

/-- A flag and its value, as text and as what it is read as. -/
inductive Flag (Addr : Type) where
  | deadline (raw : String) (ms : Nat)
  | contentType (value : String)
  | addr (raw : String) (addr : Addr)

/-- A flag as it stands on the command line. -/
def Flag.words : Flag Addr → List String
  | .deadline raw _ => ["--deadline", raw]
  | .contentType value => ["--content-type", value]
  | .addr raw _ => ["--addr", raw]

/-- The value is read as what the flag has it be. -/
def Flag.Valid (parseAddr : String → Option Addr) : Flag Addr → Prop
  | .deadline raw ms => parseU32 raw = some ms
  | .contentType _ => True
  | .addr raw a => parseAddr raw = some a

def Flag.deadlineMs : Flag Addr → Option Nat
  | .deadline _ ms => some ms
  | _ => none

def Flag.mime : Flag Addr → Option String
  | .contentType value => some value
  | _ => none

def Flag.target : Flag Addr → Option Addr
  | .addr _ a => some a
  | _ => none

/-- What a flag does to the collection: the last one counts, but every address is kept. -/
def Flag.apply (flags : Flags Addr) : Flag Addr → Flags Addr
  | .deadline _ ms => { flags with deadlineMs := some ms }
  | .contentType value => { flags with contentType := some value }
  | .addr _ a => { flags with addrs := flags.addrs ++ [a] }

/-- The loop reads a flag that is valid. -/
theorem dialFlags_words {parseAddr : String → Option Addr} {f : Flag Addr}
    (h : f.Valid parseAddr) (flags : Flags Addr) (args : List String) :
    dialFlags parseAddr flags (f.words ++ args) = dialFlags parseAddr (f.apply flags) args := by
  cases f with
  | deadline raw ms =>
      have hms : parseU32 raw = some ms := h
      show dialFlags parseAddr flags ("--deadline" :: raw :: args) = _
      rw [dialFlags, if_pos rfl, hms]
      rfl
  | contentType value =>
      show dialFlags parseAddr flags ("--content-type" :: value :: args) = _
      rw [dialFlags, if_neg (by decide), if_pos rfl]
      rfl
  | addr raw addr =>
      have haddr : parseAddr raw = some addr := h
      show dialFlags parseAddr flags ("--addr" :: raw :: args) = _
      rw [dialFlags, if_neg (by decide), if_neg (by decide), if_pos rfl, haddr]
      rfl

/-- A turn of the loop that does not fail has read a flag. -/
theorem dialFlags_turn {parseAddr : String → Option Addr} {flags flags' : Flags Addr}
    {flag : String} {args : List String}
    (h : dialFlags parseAddr flags (flag :: args) = .ok flags') :
    ∃ (f : Flag Addr) (rest : List String), flag :: args = f.words ++ rest ∧
      f.Valid parseAddr ∧ dialFlags parseAddr (f.apply flags) rest = .ok flags' := by
  unfold dialFlags at h
  by_cases hdeadline : flag = "--deadline"
  · rw [if_pos hdeadline] at h
    cases args with
    | nil => cases h
    | cons raw args =>
        dsimp only at h
        cases hms : parseU32 raw with
        | none =>
            rw [hms] at h
            cases h
        | some ms =>
            rw [hms] at h
            exact ⟨.deadline raw ms, args, by rw [hdeadline]; rfl, hms, h⟩
  rw [if_neg hdeadline] at h
  by_cases hmime : flag = "--content-type"
  · rw [if_pos hmime] at h
    cases args with
    | nil => cases h
    | cons raw args => exact ⟨.contentType raw, args, by rw [hmime]; rfl, trivial, h⟩
  rw [if_neg hmime] at h
  by_cases haddr : flag = "--addr"
  · rw [if_pos haddr] at h
    cases args with
    | nil => cases h
    | cons raw args =>
        dsimp only at h
        cases hparse : parseAddr raw with
        | none =>
            rw [hparse] at h
            cases h
        | some addr =>
            rw [hparse] at h
            exact ⟨.addr raw addr, args, by rw [haddr]; rfl, hparse, h⟩
  rw [if_neg haddr] at h
  cases h

/-- **The loop accepts the words of valid flags, and no others.** -/
theorem dialFlags_ok_iff {parseAddr : String → Option Addr} {flags flags' : Flags Addr}
    {args : List String} :
    dialFlags parseAddr flags args = .ok flags' ↔ ∃ fs : List (Flag Addr),
      args = fs.flatMap Flag.words ∧ (∀ f ∈ fs, f.Valid parseAddr) ∧
        flags' = fs.foldl Flag.apply flags := by
  constructor
  · intro h
    -- Induction on how many words are left: each turn takes two.
    induction hn : args.length using Nat.strongRecOn generalizing args flags with
    | ind n ih =>
        cases args with
        | nil => exact ⟨[], rfl, fun _ hf => absurd hf List.not_mem_nil, (Except.ok.inj h).symm⟩
        | cons flag args =>
            obtain ⟨f, rest, hwords, hvalid, hrest⟩ := dialFlags_turn h
            have hshorter : rest.length < n := by
              have hlen : f.words.length = 2 := by cases f <;> rfl
              have hsum := congrArg List.length hwords
              rw [List.length_append] at hsum
              omega
            obtain ⟨fs, rfl, hfs, hflags⟩ := ih _ hshorter hrest rfl
            exact ⟨f :: fs, hwords, List.forall_mem_cons.mpr ⟨hvalid, hfs⟩, hflags⟩
  · rintro ⟨fs, rfl, hfs, rfl⟩
    induction fs generalizing flags with
    | nil => rfl
    | cons f fs ih =>
        obtain ⟨hf, hfs⟩ := List.forall_mem_cons.mp hfs
        rw [List.flatMap_cons, dialFlags_words hf]
        exact ih hfs

/-- The last one stands. -/
theorem getLast?_cons_or {α : Type} (a : α) (l : List α) (o : Option α) :
    ((a :: l).getLast?).or o = (l.getLast?).or (some a) := by
  rw [List.getLast?_cons]
  cases l.getLast? <;> rfl

/-- What the loop collects of a list of flags. -/
theorem foldl_apply (fs : List (Flag Addr)) (flags : Flags Addr) :
    fs.foldl Flag.apply flags =
      ⟨((fs.filterMap Flag.deadlineMs).getLast?).or flags.deadlineMs,
        ((fs.filterMap Flag.mime).getLast?).or flags.contentType,
        flags.addrs ++ fs.filterMap Flag.target⟩ := by
  induction fs generalizing flags with
  | nil =>
      show flags = ⟨_, _, flags.addrs ++ []⟩
      rw [List.append_nil]
      rfl
  | cons f fs ih =>
      rw [List.foldl_cons, ih]
      cases f with
      | deadline raw ms =>
          rw [List.filterMap_cons_some (f := Flag.deadlineMs) rfl, getLast?_cons_or]
          rfl
      | contentType value =>
          rw [List.filterMap_cons_some (f := Flag.mime) rfl, getLast?_cons_or]
          rfl
      | addr raw addr =>
          rw [List.filterMap_cons_some (f := Flag.target) rfl]
          show Flags.mk _ _ ((flags.addrs ++ [addr]) ++ _) = _
          rw [List.append_assoc]
          rfl

/-- What the loop collects when it starts with nothing. -/
theorem foldl_apply_none (fs : List (Flag Addr)) :
    fs.foldl Flag.apply .none =
      ⟨(fs.filterMap Flag.deadlineMs).getLast?, (fs.filterMap Flag.mime).getLast?,
        fs.filterMap Flag.target⟩ := by
  rw [foldl_apply]
  show Flags.mk (Option.or _ none) (Option.or _ none) ([] ++ _) = _
  rw [Option.or_none, Option.or_none, List.nil_append]

/-- The flags that accepted arguments are made of. -/
theorem parse_dial_args_fields {parseAddr : String → Option Addr} {args : List String}
    {parsed : DialArgs Addr} (h : parseDialArgs parseAddr args = .ok parsed) :
    ∃ fs : List (Flag Addr),
      args = parsed.peer :: fs.flatMap Flag.words ∧ (∀ f ∈ fs, f.Valid parseAddr) ∧
        (fs.filterMap Flag.deadlineMs).getLast? = some parsed.deadlineMs ∧
        (fs.filterMap Flag.mime).getLast? = some parsed.contentType ∧
        fs.filterMap Flag.target = parsed.addrs ∧ parsed.addrs ≠ [] := by
  cases args with
  | nil => cases h
  | cons peer args =>
      rw [parseDialArgs] at h
      cases hflags : dialFlags parseAddr .none args with
      | error message =>
          rw [hflags] at h
          cases h
      | ok flags =>
          obtain ⟨fs, rfl, hfs, hfold⟩ := dialFlags_ok_iff.mp hflags
          rw [foldl_apply_none] at hfold
          rw [hflags, hfold] at h
          dsimp only at h
          cases hdeadline : (fs.filterMap Flag.deadlineMs).getLast? with
          | none =>
              rw [hdeadline] at h
              cases h
          | some ms =>
              cases hmime : (fs.filterMap Flag.mime).getLast? with
              | none =>
                  rw [hdeadline, hmime] at h
                  cases h
              | some mime =>
                  rw [hdeadline, hmime] at h
                  dsimp only at h
                  by_cases hne : fs.filterMap Flag.target = []
                  · rw [if_pos hne] at h
                    cases h
                  · rw [if_neg hne] at h
                    obtain rfl := Except.ok.inj h
                    exact ⟨fs, rfl, hfs, hdeadline, hmime, rfl, hne⟩

/-- **WHICH ARGUMENTS `uat dial` TAKES.**  A peer and then flags with their values, in any
    order and number; the last deadline and the last content type stand, of which there is
    at least one each, and the addresses are all kept in their order, at least one. -/
theorem parse_dial_args_grammar {parseAddr : String → Option Addr} {args : List String}
    {parsed : DialArgs Addr} :
    parseDialArgs parseAddr args = .ok parsed ↔ ∃ fs : List (Flag Addr),
      args = parsed.peer :: fs.flatMap Flag.words ∧ (∀ f ∈ fs, f.Valid parseAddr) ∧
        (fs.filterMap Flag.deadlineMs).getLast? = some parsed.deadlineMs ∧
        (fs.filterMap Flag.mime).getLast? = some parsed.contentType ∧
        fs.filterMap Flag.target = parsed.addrs ∧ parsed.addrs ≠ [] := by
  constructor
  · exact parse_dial_args_fields
  · rintro ⟨fs, rfl, hfs, hdeadline, hmime, htarget, hne⟩
    have hflags : dialFlags parseAddr .none (fs.flatMap Flag.words) =
        .ok ⟨some parsed.deadlineMs, some parsed.contentType, parsed.addrs⟩ := by
      refine dialFlags_ok_iff.mpr ⟨fs, rfl, hfs, ?_⟩
      rw [foldl_apply_none, hdeadline, hmime, htarget]
    rw [parseDialArgs, hflags]
    exact if_neg hne

/-! ## `dial_via_sock` and `cmd_dial` -/

/-- Why `uat dial` exits with an error. -/
inductive CmdError where
  | args (message : String)
  /-- Standard input could not be read. -/
  | stdin
  /-- Neither `UAT_HOME` nor `HOME` is set. -/
  | home
  | deadline (err : TypeError)
  | contentType (err : TypeError)
  | client (err : LocalClientError)
  /-- The call did not complete. -/
  | incomplete (outcome : Outcome)

/-- A sequence that succeeds succeeds in its parts. -/
theorem bind_ok {ε α β : Type} {x : Except ε α} {f : α → Except ε β} {b : β}
    (h : (x >>= f) = .ok b) : ∃ a, x = .ok a ∧ f a = .ok b := by
  cases x with
  | error err => cases h
  | ok a => exact ⟨a, rfl, h⟩

/-- `map_err` leaves success alone. -/
theorem mapError_ok {ε δ α : Type} {f : ε → δ} {x : Except ε α} {a : α}
    (h : x.mapError f = .ok a) : x = .ok a := by
  cases x with
  | error err => cases h
  | ok a' => exact congrArg Except.ok (Except.ok.inj h)

section

variable [Base64Engine]

/-- The request of `dial_via_sock`. -/
def viaSock (printAddr : Addr → String) (peer : String) (addrs : List Addr) :
    Message → Except LocalClientError LocalRequest
  | .submit task deadline contentType credential body =>
      .ok (.dial peer (addrs.map printAddr) task deadline contentType credential body)
  | _ => .error (.daemon "dial requires a Submit message")

/-- What `dial_via_sock` makes of the response; `debug` is the response's `Debug` text. -/
def dialed (debug : LocalResponse → String) :
    LocalResponse → Exec LocalClientError (Outcome × Option UInt64)
  | .dialResult outcome rttMs => pure (outcome, rttMs)
  | .error message => fail (.daemon message)
  | other => fail (.daemon ("unexpected response to dial: " ++ debug other))

/-- `cmd_dial` up to the socket: the request it sends, if it gets so far. -/
def dialRequest (parseAddr : String → Option Addr) (printAddr : Addr → String)
    (args : List String) (stdin : Option Bytes) (home : Option String) :
    Except CmdError LocalRequest := do
  let parsed ← (parseDialArgs parseAddr args).mapError .args
  let body ← stdin.elim (.error .stdin) .ok
  let _ ← home.elim (.error .home) .ok
  let deadline ← (Deadline.new parsed.deadlineMs).mapError .deadline
  let contentType ← (ContentType.new parsed.contentType).mapError .contentType
  (viaSock printAddr parsed.peer parsed.addrs
    (.submit taskOne deadline contentType none body)).mapError .client

/-- `cmd_dial` from what `roundtrip` returned: `.ok` is exit code 0. -/
def cmdDial (debug : LocalResponse → String) (r : Exec LocalClientError LocalResponse) :
    Exec CmdError Unit := do
  let (outcome, _) ← mapErr .client (r.bind (dialed debug))
  match outcome with
  | .completed => pure ()
  | other => fail (.incomplete other)

/-- The requests that `cmd_dial` sends. -/
theorem dialRequest_ok {parseAddr : String → Option Addr} {printAddr : Addr → String}
    {args : List String} {stdin : Option Bytes} {home : Option String} {req : LocalRequest}
    (h : dialRequest parseAddr printAddr args stdin home = .ok req) :
    ∃ parsed body deadline contentType, parseDialArgs parseAddr args = .ok parsed ∧
      stdin = some body ∧ Deadline.new parsed.deadlineMs = .ok deadline ∧
      ContentType.new parsed.contentType = .ok contentType ∧
      req = .dial parsed.peer (parsed.addrs.map printAddr) taskOne deadline contentType none
        body := by
  obtain ⟨parsed, hparsed, h⟩ := bind_ok h
  obtain ⟨body, hbody, h⟩ := bind_ok h
  obtain ⟨_, -, h⟩ := bind_ok h
  obtain ⟨deadline, hdeadline, h⟩ := bind_ok h
  obtain ⟨contentType, hcontentType, h⟩ := bind_ok h
  have hstdin : stdin = some body := by
    cases stdin with
    | none => cases hbody
    | some body' => exact congrArg some (Except.ok.inj hbody)
  exact ⟨parsed, body, deadline, contentType, mapError_ok hparsed, hstdin,
    mapError_ok hdeadline, mapError_ok hcontentType, (Except.ok.inj (mapError_ok h)).symm⟩

/-- Exit code 0 is for one response alone. -/
theorem cmdDial_ok_iff {debug : LocalResponse → String} {r : Exec LocalClientError LocalResponse} :
    cmdDial debug r = .ok () ↔ ∃ rtt, r = .ok (.dialResult .completed rtt) := by
  constructor
  · intro h
    obtain ⟨⟨outcome, rtt⟩, hr, h⟩ := bind_ok_iff.mp h
    obtain ⟨resp, rfl, hresp⟩ := bind_ok_iff.mp (mapErr_ok_iff.mp hr)
    cases resp with
    | dialResult outcome' rtt' =>
        obtain ⟨rfl, rfl⟩ := Prod.mk.inj (Except.ok.inj hresp)
        cases outcome' with
        | completed => exact ⟨_, rfl⟩
        | _ => cases h
    | _ => cases hresp
  · rintro ⟨rtt, rfl⟩
    rfl

variable [UnicodeTables] {Peer : Type} {daemon : Daemon Peer Addr} {printAddr : Addr → String}

/-- Addresses that were printed are parsed again. -/
theorem sockAddrs_printed {addrs : List Addr}
    (h : ∀ a ∈ addrs, daemon.parseAddr (printAddr a) = some a) :
    sockAddrs daemon (addrs.map printAddr) = .ok addrs := by
  induction addrs with
  | nil => rfl
  | cons a addrs ih =>
      obtain ⟨ha, haddrs⟩ := List.forall_mem_cons.mp h
      rw [List.map_cons, sockAddrs, ha]
      show (sockAddrs daemon (addrs.map printAddr)).map _ = _
      rw [ih haddrs]
      rfl

/-- What the daemon dials for a client that printed its addresses. -/
theorem buildDial_printed {peer : String} {addrs : List Addr} {task : TaskId}
    {deadline : Deadline} {contentType : ContentType} {credential : Option Credential}
    {body : Bytes} {addr : Peer × List Addr} {submit : Message}
    (haddrs : ∀ a ∈ addrs, daemon.parseAddr (printAddr a) = some a)
    (h : buildDial daemon peer (addrs.map printAddr) task deadline contentType credential body =
      .ok (addr, submit)) :
    ∃ id, daemon.parsePeer peer = .ok id ∧ addr = (id, addrs) ∧
      submit = .submit task deadline contentType credential body := by
  cases hpeer : daemon.parsePeer peer with
  | error err =>
      rw [buildDial, hpeer] at h
      cases h
  | ok id =>
      rw [buildDial_of_peer hpeer, sockAddrs_printed haddrs] at h
      by_cases hempty : addrs.map printAddr = []
      · rw [if_pos hempty] at h
        cases h
      · rw [if_neg hempty] at h
        obtain ⟨rfl, rfl⟩ := Prod.mk.inj (Except.ok.inj h)
        exact ⟨id, rfl, rfl, rfl⟩

/-- The two ways to answer a `Dial`. -/
theorem served_dial {peer : String} {addrs : List String} {task : TaskId} {deadline : Deadline}
    {contentType : ContentType} {credential : Option Credential} {body : Bytes}
    {deeds : List (Deed Peer Addr)} {resp : LocalResponse}
    (h : Served daemon (.dial peer addrs task deadline contentType credential body) deeds
      (some resp)) :
    (∃ addr submit r,
      buildDial daemon peer addrs task deadline contentType credential body =
        .ok (addr, submit) ∧
      deeds = [.dialed addr submit, .dialEnded r] ∧ resp = dialResponse r) ∨
    ∃ message, deeds = [] ∧ resp = .error message := by
  cases h with
  | dialed r hbuild => exact Or.inl ⟨_, _, r, hbuild, rfl, rfl⟩
  | refused hbuild => exact Or.inr ⟨_, rfl, rfl⟩

variable [text : JsonText] {w : Pool (Shared Peer Addr) (Session Peer Addr)}
  {es : List (TaskPool.Ev Act Start Signal)}

/-- **EXIT CODE 0 IS A COMPLETED CALL.**  In every run of the local socket, `uat dial` exits
    with 0 exactly when it got a response and the daemon made one dial for it, to the peer
    and the addresses of its arguments and with a `Submit` of its deadline, its content type
    and its standard input, that came back `Completed`. -/
theorem cmd_dial_exit (hread : ReadsBackNested text)
    (hrun : runFrom (TaskPool.step (localSocket daemon)) ⟨.start, []⟩ es = some w)
    (hprint : ∀ raw a, daemon.parseAddr raw = some a → daemon.parseAddr (printAddr a) = some a)
    (debug : LocalResponse → String) {s : Session Peer Addr} (hs : s ∈ w.members)
    {args : List String} {stdin : Option Bytes} {home : Option String}
    (hreq : dialRequest daemon.parseAddr printAddr args stdin home = .ok s.req) :
    (∃ r, s.client = .returned r ∧ cmdDial debug r = .ok ()) ↔
      (∃ resp, s.client = .returned (.ok resp)) ∧
        ∃ parsed body deadline contentType peer rtt,
          parseDialArgs daemon.parseAddr args = .ok parsed ∧ stdin = some body ∧
          Deadline.new parsed.deadlineMs = .ok deadline ∧
          ContentType.new parsed.contentType = .ok contentType ∧
          daemon.parsePeer parsed.peer = .ok peer ∧
          s.deeds = [.dialed (peer, parsed.addrs)
              (.submit taskOne deadline contentType none body),
            .dialEnded (.ok (.completed, rtt))] := by
  have hsound := (run_sound hread hrun).2 s hs
  obtain ⟨parsed, body, deadline, contentType, hparsed, hstdin, hdeadline, hcontentType, hdial⟩ :=
    dialRequest_ok hreq
  have hserved : ∀ resp, s.client = .returned (.ok resp) →
      Served daemon (.dial parsed.peer (parsed.addrs.map printAddr) taskOne deadline contentType
        none body) s.deeds (some resp) := by
    intro resp hclient
    have hanswer : s.answer = some resp := hsound.told _ hclient
    have h := hsound.served
    rwa [hanswer, hdial] at h
  constructor
  · rintro ⟨r, hclient, hexit⟩
    obtain ⟨rtt, rfl⟩ := cmdDial_ok_iff.mp hexit
    refine ⟨⟨_, hclient⟩, parsed, body, deadline, contentType, ?_⟩
    rcases served_dial (hserved _ hclient) with
      ⟨addr, submit, r, hbuild, hdeeds, hresp⟩ | ⟨message, -, hresp⟩
    · -- The addresses were parsed from the arguments, so the daemon can parse them.
      obtain ⟨fs, -, hvalid, -, -, htargets, -⟩ := parse_dial_args_fields hparsed
      have haddrs : ∀ a ∈ parsed.addrs, daemon.parseAddr (printAddr a) = some a := by
        intro a ha
        rw [← htargets] at ha
        obtain ⟨f, hf, htarget⟩ := List.mem_filterMap.mp ha
        cases f with
        | addr raw a' =>
            obtain rfl := Option.some.inj htarget
            exact hprint raw a' (hvalid _ hf)
        | _ => cases htarget
      obtain ⟨peer, hpeer, rfl, rfl⟩ := buildDial_printed haddrs hbuild
      rcases r with err | ⟨outcome, rttMs⟩
      · cases hresp
      · obtain ⟨rfl, rfl⟩ := LocalResponse.dialResult.inj hresp
        exact ⟨peer, _, hparsed, hstdin, hdeadline, hcontentType, hpeer, hdeeds⟩
    · cases hresp
  · rintro ⟨⟨resp, hclient⟩, parsed', body', deadline', contentType', peer, rtt, -, -, -, -, -,
      hdeeds⟩
    refine ⟨_, hclient, cmdDial_ok_iff.mpr ⟨rtt, ?_⟩⟩
    rcases served_dial (hserved _ hclient) with ⟨addr, submit, r, -, hmade, rfl⟩ | ⟨_, hnone, -⟩
    · rw [hdeeds] at hmade
      obtain ⟨-, hlast⟩ := List.cons.inj hmade
      obtain rfl := Deed.dialEnded.inj (List.cons.inj hlast).1
      rfl
    · rw [hdeeds] at hnone
      cases hnone

end

/-! ## A dial that completes -/

section

attribute [local instance] urlSafeNoPad compactJson

/-- No character needs an escape. -/
local instance : UnicodeTables := ⟨fun _ => false, fun _ => true⟩

/-- The arguments of a dial, with a deadline that is overridden. -/
def dialOnce : List String :=
  [knownPeer, "--deadline", "5", "--addr", "127.0.0.1:4433", "--content-type", "text/plain",
    "--deadline", "+1000"]

/-- The daemon dials for it, and the call completes. -/
def dialCompletes : List (TaskPool.Ev Act Start Signal) :=
  [.spawn ⟨"node.sock", .connected, dialAt "127.0.0.1:4433"⟩, .act 0 (.client (.puts 1000)),
    .act 0 (.client .wrote), .act 0 .accept, .act 0 (.server (.gets 1000)),
    .act 0 (.server .poll), .act 0 (.dialEnds (.ok (.completed, none))),
    .act 0 (.server (.puts 1000)), .act 0 (.server .wrote), .act 0 (.client (.gets 1000)),
    .act 0 (.client .poll)]

example : parseDialArgs loopback.parseAddr dialOnce =
    .ok ⟨knownPeer, 1000, "text/plain", [4433]⟩ := by rfl

/-- The response a client got. -/
def response (s : Session String Nat) : Option LocalResponse :=
  match s.client with
  | .returned (.ok resp) => some resp
  | _ => none

theorem dialCompletes_responses :
    ((runFrom (TaskPool.step (localSocket loopback)) ⟨.start, []⟩ dialCompletes).map fun w =>
      w.members.map fun s => (s.req, response s)) =
      some [(dialAt "127.0.0.1:4433", some (.dialResult .completed none))] := by
  decide +kernel

theorem cmd_dial_exit_dialOnce : ∃ w s, s ∈ w.members ∧
    runFrom (TaskPool.step (localSocket loopback)) ⟨.start, []⟩ dialCompletes = some w ∧
      ∃ addr submit rtt, s.deeds = [.dialed addr submit, .dialEnded (.ok (.completed, rtt))] := by
  obtain ⟨w, hrun, hmembers⟩ := Option.map_eq_some_iff.mp dialCompletes_responses
  obtain ⟨s, hs, hpair⟩ := List.map_eq_singleton_iff.mp hmembers
  obtain ⟨hreq, hresponse⟩ := Prod.mk.inj hpair
  have hmem : s ∈ w.members := by
    rw [hs]
    exact List.mem_singleton.mpr rfl
  have hclient : s.client = .returned (.ok (.dialResult .completed none)) := by
    unfold response at hresponse
    split at hresponse
    · next resp hclient =>
        obtain rfl := Option.some.inj hresponse
        exact hclient
    · cases hresponse
  have hprint : ∀ raw a, loopback.parseAddr raw = some a →
      loopback.parseAddr "127.0.0.1:4433" = some a := by
    intro raw a h
    obtain ⟨-, h⟩ := Option.ite_none_right_eq_some.mp h
    rw [← h]
    rfl
  have hsent : dialRequest loopback.parseAddr (fun _ => "127.0.0.1:4433") dialOnce (some [])
      (some "/home") = .ok s.req := by
    rw [hreq]
    rfl
  have hexit := (cmd_dial_exit compactJson_readsBackNested hrun hprint (fun _ => "") hmem hsent).mp
    ⟨_, hclient, rfl⟩
  obtain ⟨-, _, _, _, _, _, rtt, -, -, -, -, -, hdeeds⟩ := hexit
  exact ⟨w, s, hmem, hrun, _, _, rtt, hdeeds⟩

end

end UatCli
