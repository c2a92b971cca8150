import Uat.Record
import Uat.Attenuation
import Uat.Header
import Uat.Base.Probe

/-! # The JSON record sink — one file for each record

    `JsonDirCallRecordSink` names a file by the millisecond, the direction and twelve hex
    digits of the peer, and tries a numbered name when that one exists, thirty-two times.
    A directory is a map from names to contents, in which `create_new` fails exactly on a
    name that exists.

    * **`emit_eq_place`** — one `emit` is bounded probing over thirty-three names.
    * **`candidate_injective`** — numbered or not, no two stems share a name.
    * **`records_lost_nothing_iff`** — a run loses nothing exactly when no stem has more
      records than free names.

    The pretty printer of the JSON crate is a parameter. -/

namespace UatRecordSink

open UatTypes UatPolicy UatRecord HashMap Probe
open Json (Value)
open UatHeader (hexChar)

/-! ## The record -/

/-- How the QUIC path was established. -/
inductive Path where
  | direct
  | relayed (relay : String)
  deriving DecidableEq

/-- A record as the sink gets it: what the call decided, and what was measured. -/
structure CallRecord extends UatRecord.CallRecord where
  schemaVersion : UInt32
  startedAt : SystemTime
  path : Path
  bytesSent : UInt64
  bytesRecv : UInt64
  wallTimeMs : UInt64
  deriving DecidableEq

/-- Whole milliseconds since the epoch, or 0 before it. -/
def unixMillis (t : SystemTime) : Nat :=
  if 0 ≤ t.nanos then (t.nanos / 10 ^ 6).toNat else 0

/-- `bytes_to_hex`: two lowercase digits for each byte. -/
def bytesToHex (bytes : Bytes) : String :=
  String.ofList (bytes.flatMap fun b => [hexChar (b.toNat / 16), hexChar (b.toNat % 16)])

/-- The direction as it stands in the file name and in the record. -/
def Direction.label : Direction → String
  | .inbound => "inbound"
  | .outbound => "outbound"

/-! ## Its JSON -/

/-- A rule by its name; a token's comes with its id. -/
def AuthRule.serialize : AuthRule → Value
  | .allowlist => .str "allowlist"
  | .token id => .obj [("token", .obj [("biscuit_id", .str (bytesToHex id.bytes))])]

/-- The authorization by its name, with the rule or the reason. -/
def AuthOutcome.serialize : AuthOutcome → Value
  | .allowed rule => .obj [("allowed", AuthRule.serialize rule)]
  | .denied reason => .obj [("denied", .obj [("reason", .str reason)])]
  | .notReached => .str "not_reached"

/-- The path by its name; a relayed one comes with the relay. -/
def Path.serialize : Path → Value
  | .direct => .str "direct"
  | .relayed relay => .obj [("relayed", .obj [("relay", .str relay)])]

/-- The derived serializer.  The start is narrowed to 64 bits. -/
def CallRecord.serialize (r : CallRecord) : Value :=
  .obj [("schema_version", .nat r.schemaVersion.toNat),
    ("started_at", .nat (unixMillis r.startedAt % 2 ^ 64)),
    ("task", match r.task with
      | some task => .str (UatHeader.TaskId.toHex task)
      | none => .null),
    ("direction", .str (Direction.label r.direction)),
    ("peer", .str (bytesToHex r.peer.bytes)),
    ("authorization", AuthOutcome.serialize r.authorization),
    ("outcome", UatHeader.Outcome.serialize r.outcome),
    ("path", r.path.serialize),
    ("bytes_sent", .nat r.bytesSent.toNat),
    ("bytes_recv", .nat r.bytesRecv.toNat),
    ("wall_time_ms", .nat r.wallTimeMs.toNat)]

/-- The crate's `to_vec_pretty`, on values it does not refuse. -/
class PrettyJson where
  toVecPretty : Value → Bytes

/-! ## The directory -/

/-- File names and the contents of the files. -/
abbrev Directory := Map String Bytes

/-- `create_new`: an empty file, unless the name exists. -/
def createNew (dir : Directory) (name : String) : Option Directory :=
  if containsKey dir name then none else some (dir.insert name [])

/-- `write_all` at the end of a file. -/
def writeAll (dir : Directory) (name : String) (bytes : Bytes) : Directory :=
  dir.insert name ((dir.lookup name).getD [] ++ bytes)

/-- What the name of a file is made of. -/
structure Stem where
  millis : Nat
  direction : Direction
  peerShort : String
  length_eq : peerShort.toList.length = 12
  deriving DecidableEq

/-- Hex takes two characters a byte. -/
theorem length_bytesToHex (bytes : Bytes) :
    (bytesToHex bytes).toList.length = 2 * bytes.length := by
  rw [bytesToHex, String.toList_ofList]
  induction bytes with
  | nil => rfl
  | cons b bytes ih =>
      rw [List.flatMap_cons, List.length_append, ih, List.length_cons (a := b), Nat.mul_succ,
        Nat.add_comm]
      rfl

/-- The start, the direction and the first twelve digits of the peer. -/
def CallRecord.stem (r : CallRecord) : Stem where
  millis := unixMillis r.startedAt
  direction := r.direction
  peerShort :=
    let peerHex := (bytesToHex r.peer.bytes).toList
    String.ofList (peerHex.take (min peerHex.length 12))
  length_eq := by
    rw [String.toList_ofList, List.length_take, length_bytesToHex, r.peer.length_eq]
    rfl

/-- The name tried after so many attempts. -/
def candidate (s : Stem) (attempts : Nat) : String :=
  if attempts = 0 then
    toString s.millis ++ "_" ++ Direction.label s.direction ++ "_" ++ s.peerShort ++ ".json"
  else
    toString s.millis ++ "_" ++ Direction.label s.direction ++ "_" ++ s.peerShort ++ "_" ++
      toString attempts ++ ".json"

/-- The error of `create_new` that the loop looks at. -/
inductive IoError where
  | alreadyExists
  deriving DecidableEq

section

variable [pretty : PrettyJson]

/-- The loop of `write_record_json`. -/
def writeFrom (dir : Directory) (s : Stem) (body : Bytes) (attempts : Nat) :
    Except IoError (String × Directory) :=
  match createNew dir (candidate s attempts) with
  | some dir =>
      .ok (candidate s attempts,
        writeAll (writeAll dir (candidate s attempts) body) (candidate s attempts) [10])
  | none => if attempts < 32 then writeFrom dir s body (attempts + 1) else .error .alreadyExists
termination_by 32 - attempts

/-- `write_record_json`. -/
def writeRecordJson (dir : Directory) (r : CallRecord) : Except IoError (String × Directory) :=
  writeFrom dir r.stem (PrettyJson.toVecPretty r.serialize) 0

/-- A failure is logged. -/
def emit (dir : Directory) (r : CallRecord) : Directory :=
  match writeRecordJson dir r with
  | .ok (_, dir) => dir
  | .error _ => dir

/-- A sequence of `emit`s. -/
def emits (dir : Directory) (rs : List CallRecord) : Directory := rs.foldl emit dir

/-- What the file of a record holds. -/
def contents (r : CallRecord) : Bytes := PrettyJson.toVecPretty r.serialize ++ [10]

end

/-! ## Names -/

/-- Two texts that agree and are split at their first `c` are split alike. -/
theorem split_first {c : Char} : ∀ {xs xs' ys ys' : List Char}, c ∉ xs → c ∉ xs' →
    xs ++ c :: ys = xs' ++ c :: ys' → xs = xs' ∧ ys = ys' := by
  intro xs
  induction xs with
  | nil =>
      intro xs' ys ys' _ hxs' h
      cases xs' with
      | nil => exact ⟨rfl, (List.cons.inj h).2⟩
      | cons x' xs' => exact absurd (List.mem_cons.mpr (Or.inl (List.cons.inj h).1)) hxs'
  | cons x xs ih =>
      intro xs' ys ys' hxs hxs' h
      cases xs' with
      | nil => exact absurd (List.mem_cons.mpr (Or.inl (List.cons.inj h).1.symm)) hxs
      | cons x' xs' =>
          obtain ⟨rfl, htail⟩ := List.cons.inj h
          obtain ⟨rfl, hys⟩ := ih (fun hmem => hxs (List.mem_cons_of_mem _ hmem))
            (fun hmem => hxs' (List.mem_cons_of_mem _ hmem)) htail
          exact ⟨rfl, hys⟩

/-- A number is its decimal digits. -/
theorem toDigits_injective {m n : Nat} (h : Nat.toDigits 10 m = Nat.toDigits 10 n) : m = n := by
  have hvalue := congrArg (fun cs => Nat.ofDigitChars 10 cs 0) h
  simpa only [Nat.ofDigitChars_toDigits (b := 10) (by decide) (by decide)] using hvalue

/-- A character that is no digit is not in a decimal. -/
theorem notMem_toDigits {c : Char} (hc : c.isDigit = false) (n : Nat) : c ∉ Nat.toDigits 10 n := by
  intro hmem
  cases hc.symm.trans (Nat.isDigit_of_mem_toDigits (by decide) (by decide) hmem)

/-- What follows the peer in a name. -/
def suffix (attempts : Nat) : List Char :=
  if attempts = 0 then ['.', 'j', 's', 'o', 'n']
  else '_' :: (Nat.toDigits 10 attempts ++ ['.', 'j', 's', 'o', 'n'])

/-- Different attempts try different names. -/
theorem suffix_injective {i j : Nat} (h : suffix i = suffix j) : i = j := by
  rw [suffix, suffix] at h
  by_cases hi : i = 0
  · by_cases hj : j = 0
    · rw [hi, hj]
    · rw [if_pos hi, if_neg hj] at h
      cases h
  · by_cases hj : j = 0
    · rw [if_neg hi, if_pos hj] at h
      cases h
    · rw [if_neg hi, if_neg hj] at h
      -- the number ends at the dot
      have hdigits := (split_first (notMem_toDigits rfl i) (notMem_toDigits rfl j)
        (List.cons.inj h).2).1
      exact toDigits_injective hdigits

/-- A candidate, taken apart at its underscores. -/
theorem toList_candidate (s : Stem) (attempts : Nat) :
    (candidate s attempts).toList = Nat.toDigits 10 s.millis ++ '_' ::
      ((Direction.label s.direction).toList ++ '_' :: (s.peerShort.toList ++ suffix attempts)) := by
  rw [candidate, suffix]
  split
  · simp only [String.toList_append, Nat.toString_eq_repr, Nat.toList_repr, List.append_assoc]
    rfl
  · simp only [String.toList_append, Nat.toString_eq_repr, Nat.toList_repr, List.append_assoc]
    rfl

/-- A direction's label has no underscore. -/
theorem notMem_label (d : Direction) : '_' ∉ (Direction.label d).toList := by
  cases d <;> decide

/-- A direction is its label. -/
theorem label_injective : Function.Injective Direction.label := by
  intro d d' h
  cases d <;> cases d' <;> first | rfl | exact absurd h (by decide)

/-- **No name belongs to two stems, or to two attempts.** -/
theorem candidate_injective (s s' : Stem) (i j : Nat) (h : candidate s i = candidate s' j) :
    s = s' ∧ i = j := by
  have hlist := congrArg String.toList h
  rw [toList_candidate, toList_candidate] at hlist
  obtain ⟨hmillis, hlist⟩ := split_first (notMem_toDigits rfl _) (notMem_toDigits rfl _) hlist
  obtain ⟨hdirection, hlist⟩ := split_first (notMem_label _) (notMem_label _) hlist
  obtain ⟨hpeer, hsuffix⟩ := List.append_inj hlist (s.length_eq.trans s'.length_eq.symm)
  refine ⟨?_, suffix_injective hsuffix⟩
  obtain ⟨millis, direction, peerShort, _⟩ := s
  obtain ⟨millis', direction', peerShort', _⟩ := s'
  obtain rfl : millis = millis' := toDigits_injective hmillis
  obtain rfl : peerShort = peerShort' := String.toList_inj.mp hpeer
  obtain rfl : direction = direction' := label_injective (String.toList_inj.mp hdirection)
  rfl

/-! ## One emit -/

section

variable {dir : Directory}

/-- Creating a file and writing it twice leaves both writes in it. -/
theorem writeAll_insert (dir : Directory) (name : String) (body more : Bytes) :
    writeAll (writeAll (dir.insert name []) name body) name more =
      dir.insert name (body ++ more) := by
  rw [writeAll, writeAll, AList.lookup_insert, AList.insert_insert, AList.lookup_insert,
    AList.insert_insert]
  rfl

variable {s : Stem} {body : Bytes} {attempts : Nat}

/-- A free name is taken, and the file holds the body and a newline. -/
theorem writeFrom_free (h : containsKey dir (candidate s attempts) = false) :
    writeFrom dir s body attempts =
      .ok (candidate s attempts, dir.insert (candidate s attempts) (body ++ [10])) := by
  have hnew : createNew dir (candidate s attempts) =
      some (dir.insert (candidate s attempts) []) := by
    rw [createNew, if_neg (by rw [h]; exact Bool.false_ne_true)]
  rw [writeFrom, hnew]
  dsimp only
  rw [writeAll_insert]

/-- Behind a taken name the next is tried, up to 32 times. -/
theorem writeFrom_taken (h : containsKey dir (candidate s attempts) = true) :
    writeFrom dir s body attempts =
      if attempts < 32 then writeFrom dir s body (attempts + 1) else .error .alreadyExists := by
  have hnew : createNew dir (candidate s attempts) = none := by
    rw [createNew, if_pos h]
  rw [writeFrom, hnew]

/-- The loop tries the names from `attempts` on.  By induction on how many are left. -/
theorem writeFrom_eq (dir : Directory) (s : Stem) (body : Bytes) : ∀ left attempts,
    attempts + left = 32 → writeFrom dir s body attempts =
      match (List.range' attempts (left + 1)).find? fun i => !containsKey dir (candidate s i) with
      | some i => .ok (candidate s i, dir.insert (candidate s i) (body ++ [10]))
      | none => .error .alreadyExists := by
  intro left
  induction left with
  | zero =>
      intro attempts hlast
      rw [List.range'_succ, List.find?_cons]
      cases h : containsKey dir (candidate s attempts) with
      | false => exact writeFrom_free h
      | true =>
          rw [writeFrom_taken h, if_neg (by omega)]
          rfl
  | succ left ih =>
      intro attempts hlast
      rw [List.range'_succ, List.find?_cons]
      cases h : containsKey dir (candidate s attempts) with
      | false => exact writeFrom_free h
      | true =>
          rw [writeFrom_taken h, if_pos (by omega)]
          exact ih (attempts + 1) (by omega)

variable [pretty : PrettyJson]

/-- **One `emit`** puts the record under the first free one of thirty-three names. -/
theorem emit_eq_place (dir : Directory) (r : CallRecord) :
    emit dir r = (place 33 (candidate r.stem) dir (contents r)).getD dir := by
  rw [emit, writeRecordJson, writeFrom_eq dir r.stem _ 32 0 rfl, place, firstFree,
    List.range_eq_range']
  cases (List.range' 0 33).find? fun i => !containsKey dir (candidate r.stem i) with
  | none => rfl
  | some i => rfl

/-- The directory got one new file, which holds the record, and no other file changed. -/
def Recorded (dir : Directory) (r : CallRecord) (dir' : Directory) : Prop :=
  ∃ name, dir.lookup name = none ∧
    ∀ n, dir'.lookup n = if n = name then some (contents r) else dir.lookup n

/-- A file under a free name is a record added. -/
theorem recorded_insert {r : CallRecord} {name : String} (hfree : dir.lookup name = none) :
    Recorded dir r (dir.insert name (contents r)) :=
  ⟨name, hfree, fun n => lookup_insert_eq dir name n _⟩

/-- **What one `emit` does.**  It adds the file, or finds every name taken and changes
    nothing. -/
theorem emit_spec (dir : Directory) (r : CallRecord) :
    (taken 33 (candidate r.stem) dir < 33 ∧ Recorded dir r (emit dir r) ∧
      (emit dir r).entries.length = dir.entries.length + 1) ∨
    (taken 33 (candidate r.stem) dir = 33 ∧ emit dir r = dir) := by
  rw [emit_eq_place]
  cases hplace : place 33 (candidate r.stem) dir (contents r) with
  | none => exact Or.inr ⟨place_eq_none_iff.mp hplace, rfl⟩
  | some dir' =>
      obtain ⟨i, -, hfree, rfl⟩ := place_some hplace
      -- Placed, so not all thirty-three names were taken.
      have hfew : taken 33 (candidate r.stem) dir ≠ 33 := by
        intro hfull
        cases hplace.symm.trans (place_eq_none_iff.mpr hfull)
      refine Or.inl ⟨lt_of_le_of_ne (taken_le _ _ _) hfew, recorded_insert hfree, ?_⟩
      have hnew : candidate r.stem i ∉ dir := AList.lookup_eq_none.mp hfree
      rw [Option.getD_some, AList.entries_insert_of_notMem hnew]
      rfl

/-! ## A run of emits -/

/-- **The property.**  Each emit adds one file with its record and leaves the others, so
    that there are as many more files as records. -/
structure LosesNothing (dir : Directory) (rs : List CallRecord) : Prop where
  recorded : ∀ before r after, rs = before ++ r :: after →
    Recorded (emits dir before) r (emit (emits dir before) r)
  files : (emits dir rs).entries.length = dir.entries.length + rs.length

/-- An emit that changes nothing records nothing. -/
theorem not_recorded_self (dir : Directory) (r : CallRecord) : ¬ Recorded dir r dir := by
  rintro ⟨name, hfree, hafter⟩
  have hname := hafter name
  rw [if_pos rfl, hfree] at hname
  cases hname

/-- A record that is there afterwards has taken one more name. -/
theorem length_of_recorded {r : CallRecord} (h : Recorded dir r (emit dir r)) :
    (emit dir r).entries.length = dir.entries.length + 1 := by
  rcases emit_spec dir r with ⟨-, -, hlength⟩ | ⟨-, hsame⟩
  · exact hlength
  · rw [hsame] at h
    exact absurd h (not_recorded_self dir r)

/-- The first emit, and the rest of the run. -/
theorem losesNothing_cons {r : CallRecord} {rs : List CallRecord} :
    LosesNothing dir (r :: rs) ↔ Recorded dir r (emit dir r) ∧ LosesNothing (emit dir r) rs := by
  constructor
  · intro h
    have hfirst : Recorded dir r (emit dir r) := h.recorded [] r rs rfl
    refine ⟨hfirst, fun before r' after hrs => ?_, ?_⟩
    · exact h.recorded (r :: before) r' after (congrArg (r :: ·) hrs)
    · have hfiles := h.files
      rw [List.length_cons] at hfiles
      rw [length_of_recorded hfirst]
      exact hfiles.trans (by omega)
  · rintro ⟨hfirst, hrest⟩
    refine ⟨fun before r' after hrs => ?_, ?_⟩
    · cases before with
      | nil =>
          obtain ⟨rfl, -⟩ := List.cons.inj hrs
          exact hfirst
      | cons r₀ before =>
          obtain ⟨rfl, htail⟩ := List.cons.inj hrs
          exact hrest.recorded before r' after htail
    · have hfiles := hrest.files
      rw [length_of_recorded hfirst] at hfiles
      rw [List.length_cons]
      exact hfiles.trans (by omega)

/-- A run that loses nothing is bounded probing that drops nothing. -/
theorem losesNothing_iff_allPlaced : ∀ {rs : List CallRecord} {dir : Directory},
    LosesNothing dir rs ↔
      AllPlaced 33 candidate dir (rs.map fun r => (r.stem, contents r)) := by
  intro rs
  -- Induction on the run: the first emit, and the rest from the directory it leaves.
  induction rs with
  | nil =>
      refine fun {dir} => ⟨fun _ => trivial, fun _ => ⟨fun before r after h => ?_, rfl⟩⟩
      cases before <;> cases h
  | cons r rs ih =>
      intro dir
      rw [losesNothing_cons, ih, List.map_cons, AllPlaced]
      cases hplace : place 33 (candidate r.stem) dir (contents r) with
      | none =>
          have hsame : emit dir r = dir := by rw [emit_eq_place, hplace]; rfl
          rw [hsame]
          refine ⟨fun h => absurd h.1 (not_recorded_self dir r), fun ⟨m', h, _⟩ => ?_⟩
          cases h
      | some dir' =>
          have hemit : emit dir r = dir' := by rw [emit_eq_place, hplace]; rfl
          obtain ⟨i, -, hfree, rfl⟩ := place_some hplace
          rw [hemit]
          refine ⟨fun h => ⟨_, rfl, h.2⟩, fun ⟨m', h, hrest⟩ => ⟨recorded_insert hfree, ?_⟩⟩
          obtain rfl := Option.some.inj h
          exact hrest

/-- No stem has more records than free names. -/
theorem losesNothing_iff {rs : List CallRecord} : LosesNothing dir rs ↔
    ∀ stem, taken 33 (candidate stem) dir + (rs.map CallRecord.stem).count stem ≤ 33 := by
  rw [losesNothing_iff_allPlaced, allPlaced_iff candidate_injective, List.map_map]
  rfl

/-- **THE SINK LOSES NOTHING** exactly when no stem has more records than the directory has
    free names for it.  A record that finds all its names taken is not written, and no file
    is ever changed. -/
theorem records_lost_nothing_iff (dir : Directory) (rs : List CallRecord) :
    (LosesNothing dir rs ↔
      ∀ stem, taken 33 (candidate stem) dir + (rs.map CallRecord.stem).count stem ≤ 33) ∧
    ∀ before r after, rs = before ++ r :: after →
      if taken 33 (candidate r.stem) (emits dir before) < 33 then
        Recorded (emits dir before) r (emit (emits dir before) r)
      else emit (emits dir before) r = emits dir before := by
  refine ⟨losesNothing_iff, fun before r after _ => ?_⟩
  rcases emit_spec (emits dir before) r with ⟨hfew, hrecorded, -⟩ | ⟨hfull, hsame⟩
  · rw [if_pos hfew]
    exact hrecorded
  · rw [if_neg (by rw [hfull]; exact lt_irrefl 33)]
    exact hsame

end

section

/-- A printer that writes nothing: what the files hold does not matter here. -/
@[reducible] def noText : PrettyJson := ⟨fun _ => []⟩

attribute [local instance] noText

/-- A dial that the rate limiter turned away. -/
def turnedAway : CallRecord where
  task := none
  direction := .inbound
  peer := sampleNode 7
  authorization := .notReached
  outcome := .closed .rateLimited
  schemaVersion := 1
  startedAt := UatAttenuation.epoch
  path := .direct
  bytesSent := 0
  bytesRecv := 0
  wallTimeMs := 0

/-- Of thirty-four dials turned away in one millisecond one leaves no file. -/
theorem thirty_fourth_record_lost :
    ¬ ∀ (dir : Directory) (rs : List CallRecord), LosesNothing dir rs := by
  intro h
  have hcount := losesNothing_iff.mp (h ∅ (List.replicate 34 turnedAway)) turnedAway.stem
  rw [List.map_replicate, List.count_replicate_self] at hcount
  omega

end

end UatRecordSink
