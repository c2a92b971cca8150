import Uat.Base.Pool
import Uat.Types

/-! # The identity key — one file, any number of starters

    `load_or_create_at` asks whether the key file exists, and then loads or creates it: a
    handful of system calls with gaps between them.  The daemon and `uat identity` both run
    it, at any time and at once, and each may die between two calls.

    * **`Starter`** — one call of the function, by the system call it comes to next.
    * **`Knows`** — what a starter knows of the file from where it stands.
    * **`one_identity`** — whoever gets an identity gets the one whose key is in the file.
    * **`restart_outcome`** — once nobody writes to it, the file alone decides what every
      later start returns.
    * **`key_private`** — no identity is handed out while others may read the key.

    Nobody but the starters writes to the file; its owner may change its mode at any time. -/

namespace UatIdentity

open UatTypes StepRun TaskPool

/-! ## Keys and files -/

/-- An Ed25519 secret. -/
structure SecretKey where
  bytes : Bytes
  length_eq : bytes.length = 32

/-- The key pairs of the transport crate. -/
class KeyPairs where
  publicKeyToNodeId : SecretKey → NodeId

/-- The nine permission bits. -/
abbrev Mode := BitVec 9

/-- Required unix mode bits for the identity file. -/
def requiredMode : Mode := 0o600#9

/-- What a file is created with when nobody asks for a mode. -/
def defaultMode : Mode := 0o666#9

/-- The key file: its bytes and its mode. -/
structure File where
  content : Bytes
  mode : Mode
  deriving DecidableEq

/-- The path, and who has the file open for writing. -/
structure Disk where
  file : Option File
  writer : Option Nat
  deriving DecidableEq

/-- The kinds of I/O error that `load_or_create_at` tells apart. -/
inductive IoErrorKind where
  | notFound
  | alreadyExists
  | permissionDenied
  | other
  deriving DecidableEq, Repr

/-- Errors loading or creating the identity. -/
inductive IdentityError where
  | insecurePermissions (mode : Mode)
  | badKeyLength
  | io (kind : IoErrorKind)
  deriving DecidableEq

/-- The handle goes when the starter leaves the block it opened the file in, or dies. -/
def Disk.close (d : Disk) (i : Nat) : Disk :=
  if d.writer = some i then { d with writer := none } else d

/-- `open` with `create_new`. -/
def Disk.create (d : Disk) (i : Nat) (mode : Mode) : Except IoErrorKind Disk :=
  match d.file with
  | some _ => .error .alreadyExists
  | none => .ok ⟨some ⟨[], mode⟩, some i⟩

/-- The owner of the file gives it another mode. -/
def chmod (d : Disk) (mode : Mode) : Option Disk :=
  d.file.map fun f => { d with file := some { f with mode := mode } }

/-- Closing leaves the file alone. -/
theorem close_file (d : Disk) (i : Nat) : (d.close i).file = d.file := by
  rw [Disk.close]
  split <;> rfl

section

variable [KeyPairs]

/-- The secret and the id that belongs to it. -/
structure Identity where
  secret : SecretKey
  nodeId : NodeId
  derived : nodeId = KeyPairs.publicKeyToNodeId secret

def Identity.ofSecret (secret : SecretKey) : Identity := ⟨secret, _, rfl⟩

/-- An identity is its secret's bytes. -/
theorem Identity.eq_of_bytes {a b : Identity} (h : a.secret.bytes = b.secret.bytes) : a = b := by
  obtain ⟨⟨_, _⟩, _, rfl⟩ := a
  obtain ⟨⟨_, _⟩, _, rfl⟩ := b
  cases h
  rfl

/-! ## `load_or_create_at` -/

/-- The system call a starter comes to next. -/
inductive Stage where
  /-- `path.exists()` -/
  | probe
  | metadata
  | opening
  | reading
  /-- The read that must find nothing. -/
  | readingExtra (buf : Bytes)
  | createDir
  /-- `open` with `create_new` and the required mode. -/
  | creating
  /-- `open` with `create_new` alone, after a refusal of the mode. -/
  | creatingBare
  | writing (rest : Bytes) (bare : Bool)
  | syncing (bare : Bool)
  | bareMetadata
  | setPermissions
  /-- The mode is looked at once more. -/
  | verifying
  | done (result : Except IdentityError Identity)
  | crashed

/-- One call of `load_or_create_at`.  `fresh` is what `SecretKey::generate` would return. -/
structure Starter where
  umask : Mode
  fresh : SecretKey
  stage : Stage

/-- The starter has returned, or is dead. -/
def Stage.over : Stage → Bool
  | .done _ | .crashed => true
  | _ => false

/-- What can happen at a starter's system call. -/
inductive Act where
  /-- The call does what the file system has it do. -/
  | call
  /-- One `write` of `write_all`. -/
  | wrote (n : Nat)
  /-- The call fails for a reason of its own. -/
  | fails
  /-- The file system refuses the `open` with `PermissionDenied`. -/
  | denied
  | crash
  deriving DecidableEq, Repr

/-- The next system call, where it is not a `write`. -/
def Starter.call (i : Nat) (d : Disk) (s : Starter) : Option (Disk × Stage) :=
  match s.stage, d.file with
  | .probe, some _ => some (d, .metadata)
  | .probe, none => some (d, .createDir)
  | .metadata, some f =>
      some (d, if f.mode ≠ requiredMode then .done (.error (.insecurePermissions f.mode))
        else .opening)
  | .opening, some _ => some (d, .reading)
  | .reading, some f =>
      some (d, if (f.content.take 32).length ≠ 32 then .done (.error .badKeyLength)
        else .readingExtra (f.content.take 32))
  | .readingExtra buf, some f =>
      some (d, if (f.content.drop 32).length ≠ 0 then .done (.error .badKeyLength)
        else if h : buf.length = 32 then .done (.ok (.ofSecret ⟨buf, h⟩))
        else .done (.error .badKeyLength))
  | .createDir, _ => some (d, .creating)
  | .creating, _ =>
      match d.create i (requiredMode &&& ~~~s.umask) with
      | .ok d => some (d, .writing s.fresh.bytes false)
      | .error kind => some (d, .done (.error (.io kind)))
  | .creatingBare, _ =>
      match d.create i (defaultMode &&& ~~~s.umask) with
      | .ok d => some (d, .writing s.fresh.bytes true)
      | .error kind => some (d, .done (.error (.io kind)))
  | .syncing true, _ => some (d, .bareMetadata)
  | .syncing false, _ => some (d.close i, .verifying)
  | .bareMetadata, some _ => some (d, .setPermissions)
  | .setPermissions, some f =>
      some ({ d with file := some { f with mode := requiredMode } }.close i, .verifying)
  | .verifying, some f =>
      some (d, if f.mode ≠ requiredMode then .done (.error (.insecurePermissions f.mode))
        else .done (.ok (.ofSecret s.fresh)))
  -- The path is gone.
  | .metadata, none | .opening, none | .bareMetadata, none | .setPermissions, none
  | .verifying, none => some (d.close i, .done (.error (.io .notFound)))
  | .reading, none | .readingExtra _, none | .writing .., _ | .done _, _ | .crashed, _ => none

/-- A `write` of `n` bytes appends them; `write_all` goes on until nothing is left. -/
def Starter.write (d : Disk) (s : Starter) (n : Nat) : Option (Disk × Stage) :=
  match s.stage, d.file with
  | .writing rest bare, some f =>
      if 0 < n ∧ n ≤ rest.length then
        some ({ d with file := some { f with content := f.content ++ rest.take n } },
          if n = rest.length then .syncing bare else .writing (rest.drop n) bare)
      else none
  | _, _ => none

/-- `path.exists()` is `false` on an error; everywhere else the error is returned. -/
def Stage.failed : Stage → Option Stage
  | .probe => some .createDir
  | .done _ | .crashed => none
  | _ => some (.done (.error (.io .other)))

/-- A refused mode is tried without; a second refusal is the error. -/
def Stage.denied : Stage → Option Stage
  | .creating => some .creatingBare
  | .creatingBare => some (.done (.error (.io .permissionDenied)))
  | _ => none

/-- What an action does to the disk, and the stage it leads to. -/
def Starter.next (i : Nat) (d : Disk) (s : Starter) : Act → Option (Disk × Stage)
  | .call => s.call i d
  | .wrote n => s.write d n
  | .fails => s.stage.failed.map (d.close i, ·)
  | .denied => s.stage.denied.map (d, ·)
  | .crash => if s.stage.over then none else some (d.close i, .crashed)

def act (i : Nat) (d : Disk) (s : Starter) (a : Act) : Option (Disk × Starter) :=
  (s.next i d a).map fun r => (r.1, { s with stage := r.2 })

/-- Starters come with their umask and the secret they would generate. -/
def starters : Machine Disk Starter Act (Mode × SecretKey) Mode where
  spawn d b := some (d, ⟨b.1, b.2, .probe⟩)
  act := act
  env := chmod

abbrev World := Pool Disk Starter

abbrev Event := TaskPool.Ev Act (Mode × SecretKey) Mode

/-- The file as it was before any start, and no starter. -/
def start (file : Option File) : World := ⟨⟨file, none⟩, []⟩

/-! ## What a starter knows of the file -/

/-- The file is there and holds these bytes. -/
def Contains (d : Disk) (bytes : Bytes) : Prop := ∃ f, d.file = some f ∧ f.content = bytes

/-- What a starter knows of the file from where it stands. -/
def Knows (d : Disk) (i : Nat) (s : Starter) : Prop :=
  match s.stage with
  | .writing rest _ => d.writer = some i ∧
      ∃ f, d.file = some f ∧ f.content ++ rest = s.fresh.bytes
  | .syncing _ | .bareMetadata | .setPermissions =>
      d.writer = some i ∧ Contains d s.fresh.bytes
  | .verifying => Contains d s.fresh.bytes
  | .readingExtra buf => buf.length = 32 ∧ ∃ f, d.file = some f ∧ buf = f.content.take 32
  | .done (.ok id) => Contains d id.secret.bytes
  | _ => True

/-- What an action of a starter can do to the disk. -/
inductive Touches (i : Nat) (d : Disk) (s : Starter) (d' : Disk) : Prop where
  | leaves (hfile : d'.file = d.file) (hwriter : d'.writer = d.writer ∨ d'.writer = none)
      (hclosed : d'.writer ≠ d.writer → d.writer = some i)
  | creates (mode : Mode) (hfree : d.file = none) (hnew : d' = ⟨some ⟨[], mode⟩, some i⟩)
      (hmode : mode = requiredMode &&& ~~~s.umask ∨ s.stage = .creatingBare)
  | appends (f : File) (rest : Bytes) (bare : Bool) (n : Nat)
      (hstage : s.stage = .writing rest bare) (hfile : d.file = some f) (hpos : 0 < n)
      (hle : n ≤ rest.length)
      (hnew : d' = { d with file := some { f with content := f.content ++ rest.take n } })
  | restricts (f : File) (hstage : s.stage = .setPermissions) (hfile : d.file = some f)
      (hnew : d' = { d with file := some { f with mode := requiredMode } }.close i)

/-- Closing touches no file. -/
theorem close_touches (i : Nat) (d : Disk) (s : Starter) : Touches i d s (d.close i) := by
  refine .leaves (close_file d i) ?_ ?_ <;> rw [Disk.close]
  · split
    · exact Or.inr rfl
    · exact Or.inl rfl
  · split
    · next h => exact fun _ => h
    · exact fun hne => absurd rfl hne

theorem same_touches (i : Nat) (d : Disk) (s : Starter) : Touches i d s d :=
  .leaves rfl (Or.inl rfl) fun hne => absurd rfl hne

/-- An `open` that succeeds has created the file. -/
theorem create_touches {i : Nat} {d d' : Disk} {s : Starter} {mode : Mode}
    (h : d.create i mode = .ok d')
    (hmode : mode = requiredMode &&& ~~~s.umask ∨ s.stage = .creatingBare) :
    Touches i d s d' := by
  rw [Disk.create] at h
  split at h
  · cases h
  · next hfree => exact .creates mode hfree (Except.ok.inj h).symm hmode

/-- **Inversion.**  Whatever a starter does, it does one of four things to the disk. -/
theorem next_touches {i : Nat} {d d' : Disk} {s : Starter} {a : Act} {stage : Stage}
    (h : s.next i d a = some (d', stage)) : Touches i d s d' := by
  have hsame : ∀ {stage'}, some (d, stage') = some (d', stage) → Touches i d s d' := by
    intro stage' h
    obtain ⟨rfl, -⟩ := Prod.mk.inj (Option.some.inj h)
    exact same_touches i d s
  have hclosed : ∀ {stage'}, some (d.close i, stage') = some (d', stage) → Touches i d s d' := by
    intro stage' h
    obtain ⟨rfl, -⟩ := Prod.mk.inj (Option.some.inj h)
    exact close_touches i d s
  cases a with
  | call =>
      rw [Starter.next, Starter.call] at h
      split at h
      -- The loads, the checks and the losses of the path touch nothing but the handle.
      all_goals try first | exact hsame h | exact hclosed h | cases h; done
      · split at h
        · next hnew =>
            obtain ⟨rfl, -⟩ := Prod.mk.inj (Option.some.inj h)
            exact create_touches hnew (Or.inl rfl)
        · exact hsame h
      · next hstage =>
          split at h
          · next hnew =>
              obtain ⟨rfl, -⟩ := Prod.mk.inj (Option.some.inj h)
              exact create_touches hnew (Or.inr hstage)
          · exact hsame h
      · next f hstage hfile =>
          obtain ⟨rfl, -⟩ := Prod.mk.inj (Option.some.inj h)
          exact .restricts f hstage hfile rfl
  | wrote n =>
      rw [Starter.next, Starter.write] at h
      split at h
      · next rest bare f hstage hfile =>
          obtain ⟨⟨hpos, hle⟩, h⟩ := Option.ite_none_right_eq_some.mp h
          obtain ⟨rfl, -⟩ := Prod.mk.inj (Option.some.inj h)
          exact .appends f rest bare n hstage hfile hpos hle rfl
      · cases h
  | fails =>
      obtain ⟨_, -, h⟩ := Option.map_eq_some_iff.mp h
      obtain ⟨rfl, -⟩ := Prod.mk.inj h
      exact close_touches i d s
  | denied =>
      obtain ⟨_, -, h⟩ := Option.map_eq_some_iff.mp h
      obtain ⟨rfl, -⟩ := Prod.mk.inj h
      exact same_touches i d s
  | crash =>
      obtain ⟨-, h⟩ := Option.ite_none_left_eq_some.mp h
      obtain ⟨rfl, -⟩ := Prod.mk.inj (Option.some.inj h)
      exact close_touches i d s

/-- A starter that writes has the file open and knows what it still has to write. -/
theorem Knows.writing {d : Disk} {i : Nat} {s : Starter} {rest : Bytes} {bare : Bool}
    (h : Knows d i s) (hstage : s.stage = .writing rest bare) :
    d.writer = some i ∧ ∃ f, d.file = some f ∧ f.content ++ rest = s.fresh.bytes := by
  rw [Knows, hstage] at h
  exact h

/-- A starter that sets the mode has the file open, and the whole secret in it. -/
theorem Knows.setPermissions {d : Disk} {i : Nat} {s : Starter} (h : Knows d i s)
    (hstage : s.stage = .setPermissions) : d.writer = some i ∧ Contains d s.fresh.bytes := by
  rw [Knows, hstage] at h
  exact h

section

variable {i : Nat} {d d' : Disk} {s : Starter}

/-- The handle of another starter stays open. -/
theorem Touches.writer (ht : Touches i d s d') (hk : Knows d i s) {j : Nat} (hne : j ≠ i)
    (hwriter : d.writer = some j) (hfile : d.file ≠ none) : d'.writer = some j := by
  have hother : d.writer ≠ some i := by
    rw [hwriter]
    exact fun h => hne (Option.some.inj h)
  cases ht with
  | leaves _ _ hclosed =>
      by_contra hchanged
      exact hother (hclosed fun heq => hchanged (heq.trans hwriter))
  | creates mode hfree _ _ => exact absurd hfree hfile
  | appends f rest bare n hstage _ _ _ _ => exact absurd (hk.writing hstage).1 hother
  | restricts f hstage _ _ => exact absurd (hk.setPermissions hstage).1 hother

/-- The bytes of a full file stay, and those of a file that another starter has open. -/
theorem Touches.content (ht : Touches i d s d') (hk : Knows d i s) {f : File}
    (hfile : d.file = some f)
    (hfixed : 32 ≤ f.content.length ∨ ∃ j, j ≠ i ∧ d.writer = some j) :
    ∃ f', d'.file = some f' ∧ f'.content = f.content := by
  cases ht with
  | leaves hsame _ _ => exact ⟨f, hsame.trans hfile, rfl⟩
  | creates mode hfree _ _ => cases hfile.symm.trans hfree
  | appends g rest bare n hstage hg hpos hle _ =>
      -- The writer is the only one, and it has not written all of its 32 bytes.
      obtain ⟨hwriter, g', hg', hcontent⟩ := hk.writing hstage
      obtain rfl := Option.some.inj (hg'.symm.trans hfile)
      have hlength := congrArg List.length hcontent
      rw [List.length_append, s.fresh.length_eq] at hlength
      rcases hfixed with hfull | ⟨j, hne, hj⟩
      · omega
      · exact absurd (Option.some.inj (hj.symm.trans hwriter)) hne
  | restricts g hstage hg hnew =>
      obtain rfl := Option.some.inj (hg.symm.trans hfile)
      rw [hnew, close_file]
      exact ⟨_, rfl, rfl⟩

/-- A key in the file stays in it. -/
theorem Touches.contains (ht : Touches i d s d') (hk : Knows d i s) {key : SecretKey}
    (h : Contains d key.bytes) : Contains d' key.bytes := by
  obtain ⟨f, hfile, hcontent⟩ := h
  have hfull : 32 ≤ f.content.length := by rw [hcontent, key.length_eq]
  obtain ⟨f', hfile', hsame⟩ := ht.content hk hfile (Or.inl hfull)
  exact ⟨f', hfile', hsame.trans hcontent⟩

/-- **What a starter knows, no other starter makes untrue.** -/
theorem Knows.stable (ht : Touches i d s d') (hk : Knows d i s) {j : Nat} (hne : j ≠ i)
    {z : Starter} (hz : Knows d j z) : Knows d' j z := by
  have hopen : ∀ {f}, d.writer = some j → d.file = some f →
      d'.writer = some j ∧ ∃ f', d'.file = some f' ∧ f'.content = f.content := by
    intro f hwriter hfile
    exact ⟨ht.writer hk hne hwriter (by rw [hfile]; simp),
      ht.content hk hfile (Or.inr ⟨j, hne, hwriter⟩)⟩
  have hfull : d.writer = some j → Contains d z.fresh.bytes →
      d'.writer = some j ∧ Contains d' z.fresh.bytes := by
    rintro hwriter ⟨f, hfile, hcontent⟩
    exact ⟨(hopen hwriter hfile).1, ht.contains hk ⟨f, hfile, hcontent⟩⟩
  rw [Knows] at hz ⊢
  cases hstage : z.stage with
  | writing rest bare =>
      rw [hstage] at hz
      obtain ⟨hwriter, f, hfile, hcontent⟩ := hz
      obtain ⟨hwriter', f', hfile', hsame⟩ := hopen hwriter hfile
      exact ⟨hwriter', f', hfile', by rw [hsame, hcontent]⟩
  | syncing bare | bareMetadata | setPermissions =>
      rw [hstage] at hz
      exact hfull hz.1 hz.2
  | verifying =>
      rw [hstage] at hz
      exact ht.contains hk hz
  | readingExtra buf =>
      rw [hstage] at hz
      obtain ⟨hlength, f, hfile, hbuf⟩ := hz
      have hlong : 32 ≤ f.content.length := by
        rw [hbuf, List.length_take] at hlength
        omega
      obtain ⟨f', hfile', hsame⟩ := ht.content hk hfile (Or.inl hlong)
      exact ⟨hlength, f', hfile', by rw [hsame]; exact hbuf⟩
  | done result =>
      cases result with
      | error err => trivial
      | ok id =>
          rw [hstage] at hz
          exact ht.contains hk hz
  | _ => trivial

/-- Whoever creates the file has it open, with all of its key to write. -/
theorem create_knows {mode : Mode} {bare : Bool} (h : d.create i mode = .ok d') :
    Knows d' i { s with stage := .writing s.fresh.bytes bare } := by
  rw [Disk.create] at h
  split at h
  · cases h
  · obtain rfl := Except.ok.inj h
    exact ⟨rfl, _, rfl, rfl⟩

/-- Its own steps keep what a starter knows, and add to it. -/
theorem Knows.next {a : Act} {stage : Stage} (hk : Knows d i s)
    (h : s.next i d a = some (d', stage)) : Knows d' i { s with stage := stage } := by
  cases a with
  | call =>
      rw [Starter.next, Starter.call] at h
      split at h
      -- The calls after which a starter knows nothing of the file.
      all_goals try first | (cases h; trivial) | (cases h; done)
      · obtain ⟨rfl, rfl⟩ := Prod.mk.inj (Option.some.inj h)
        split <;> trivial
      · next f hstage hfile =>
          obtain ⟨rfl, rfl⟩ := Prod.mk.inj (Option.some.inj h)
          split
          · trivial
          · next hlength => exact ⟨not_not.mp hlength, f, hfile, rfl⟩
      · next buf f hstage hfile =>
          -- The buffer is the first 32 bytes of the file, and there are no more.
          obtain ⟨rfl, rfl⟩ := Prod.mk.inj (Option.some.inj h)
          rw [Knows, hstage] at hk
          obtain ⟨hlength, f', hf', hbuf⟩ := hk
          obtain rfl := Option.some.inj (hfile.symm.trans hf')
          split
          · trivial
          · next hextra =>
              have hall : f.content.take 32 = f.content := by
                rw [List.length_drop] at hextra
                exact List.take_of_length_le (by omega)
              exact ⟨f, hfile, (hbuf.trans hall).symm⟩
      · split at h
        · next hnew =>
            obtain ⟨rfl, rfl⟩ := Prod.mk.inj (Option.some.inj h)
            exact create_knows hnew
        · cases h
          trivial
      · split at h
        · next hnew =>
            obtain ⟨rfl, rfl⟩ := Prod.mk.inj (Option.some.inj h)
            exact create_knows hnew
        · cases h
          trivial
      · next hstage =>
          obtain ⟨rfl, rfl⟩ := Prod.mk.inj (Option.some.inj h)
          rw [Knows, hstage] at hk
          exact hk
      · next hstage =>
          obtain ⟨rfl, rfl⟩ := Prod.mk.inj (Option.some.inj h)
          rw [Knows, hstage] at hk
          obtain ⟨f, hfile, hcontent⟩ := hk.2
          exact ⟨f, (close_file d i).trans hfile, hcontent⟩
      · next hstage _ =>
          obtain ⟨rfl, rfl⟩ := Prod.mk.inj (Option.some.inj h)
          rw [Knows, hstage] at hk
          exact hk
      · next f hstage hfile =>
          obtain ⟨rfl, rfl⟩ := Prod.mk.inj (Option.some.inj h)
          exact (Touches.restricts f hstage hfile rfl).contains hk (hk.setPermissions hstage).2
      · next f hstage hfile =>
          obtain ⟨rfl, rfl⟩ := Prod.mk.inj (Option.some.inj h)
          rw [Knows, hstage] at hk
          split
          · trivial
          · exact hk
  | wrote n =>
      rw [Starter.next, Starter.write] at h
      split at h
      · next rest bare f hstage hfile =>
          obtain ⟨⟨-, hle⟩, h⟩ := Option.ite_none_right_eq_some.mp h
          obtain ⟨rfl, rfl⟩ := Prod.mk.inj (Option.some.inj h)
          obtain ⟨hwriter, f', hf', hcontent⟩ := hk.writing hstage
          obtain rfl := Option.some.inj (hfile.symm.trans hf')
          split
          · next hall =>
              refine ⟨hwriter, _, rfl, ?_⟩
              rw [hall, List.take_length]
              exact hcontent
          · refine ⟨hwriter, _, rfl, ?_⟩
            rw [List.append_assoc, List.take_append_drop]
            exact hcontent
      · cases h
  | fails =>
      obtain ⟨stage', hfailed, h⟩ := Option.map_eq_some_iff.mp h
      obtain ⟨rfl, rfl⟩ := Prod.mk.inj h
      unfold Stage.failed at hfailed
      split at hfailed <;> cases hfailed <;> trivial
  | denied =>
      obtain ⟨stage', hdenied, h⟩ := Option.map_eq_some_iff.mp h
      obtain ⟨rfl, rfl⟩ := Prod.mk.inj h
      unfold Stage.denied at hdenied
      split at hdenied <;> cases hdenied <;> trivial
  | crash =>
      obtain ⟨-, h⟩ := Option.ite_none_left_eq_some.mp h
      obtain ⟨-, rfl⟩ := Prod.mk.inj (Option.some.inj h)
      trivial

/-- The mode is no part of what a starter knows. -/
theorem Knows.chmod {mode : Mode} (h : chmod d mode = some d') (hk : Knows d i s) :
    Knows d' i s := by
  obtain ⟨f, hfile, rfl⟩ := Option.map_eq_some_iff.mp h
  have hcontent : ∀ {P : Bytes → Prop}, (∃ g, d.file = some g ∧ P g.content) →
      ∃ g, some { f with mode := mode } = some g ∧ P g.content := by
    rintro P ⟨g, hg, hP⟩
    obtain rfl := Option.some.inj (hfile.symm.trans hg)
    exact ⟨_, rfl, hP⟩
  rw [Knows] at hk ⊢
  cases hstage : s.stage with
  | writing rest bare =>
      rw [hstage] at hk
      exact ⟨hk.1, hcontent (P := fun c => c ++ rest = s.fresh.bytes) hk.2⟩
  | syncing bare | bareMetadata | setPermissions =>
      rw [hstage] at hk
      exact ⟨hk.1, hcontent (P := (· = s.fresh.bytes)) hk.2⟩
  | verifying =>
      rw [hstage] at hk
      exact hcontent (P := (· = s.fresh.bytes)) hk
  | readingExtra buf =>
      rw [hstage] at hk
      exact ⟨hk.1, hcontent (P := fun c => buf = c.take 32) hk.2⟩
  | done result =>
      cases result with
      | error err => trivial
      | ok id =>
          rw [hstage] at hk
          exact hcontent (P := (· = id.secret.bytes)) hk
  | _ => trivial

end

/-! ## One identity -/

/-- Every starter knows what its stage says. -/
abbrev Known : World → Prop := Holds (fun _ => True) Knows

/-- **Step lemma.** What every starter knows stays true. -/
theorem step_known {w w' : World} {e : Event} (h : Known w)
    (hs : TaskPool.step starters w e = some w') : Known w' := by
  refine Holds.step (Q := fun _ => True) ?_ ?_ ?_ h trivial hs
  · -- A new starter knows nothing, and has done nothing.
    rintro d b d' s - - hspawn
    obtain ⟨rfl, rfl⟩ := Prod.mk.inj (Option.some.inj hspawn)
    exact ⟨trivial, fun _ => trivial, fun _ _ hz => hz⟩
  · rintro d i s a d' s' - hk - hact
    obtain ⟨⟨d'', stage⟩, hnext, hr⟩ := Option.map_eq_some_iff.mp hact
    obtain ⟨rfl, rfl⟩ := Prod.mk.inj hr
    exact ⟨trivial, hk.next hnext, fun _ _ hne hz => Knows.stable (next_touches hnext) hk hne hz⟩
  · rintro d mode d' - - hchmod
    exact ⟨trivial, fun _ _ hz => hz.chmod hchmod⟩

/-- **ONE IDENTITY.**  However the starters interleave and wherever they die, the identities
    they return are one, and its key is what the file holds. -/
theorem one_identity {file : Option File} {es : List Event} {w : World}
    (hrun : runFrom (TaskPool.step starters) (start file) es = some w) {i : Nat} {s : Starter}
    {id : Identity} (hi : w.members[i]? = some s) (hdone : s.stage = .done (.ok id)) :
    (∃ f, w.shared.file = some f ∧ f.content = id.secret.bytes) ∧
    ∀ (j : Nat) (z : Starter) (id' : Identity), w.members[j]? = some z →
      z.stage = .done (.ok id') → id' = id := by
  have hknown : Known w := run_invariant Known (fun _ _ _ h hs => step_known h hs) es _ _
    (holds_empty trivial) hrun
  have hcontains : ∀ {j : Nat} {z : Starter} {id' : Identity}, w.members[j]? = some z →
      z.stage = .done (.ok id') → Contains w.shared id'.secret.bytes := by
    intro j z id' hj hz
    have hk := hknown.members j z hj
    rw [Knows, hz] at hk
    exact hk
  refine ⟨hcontains hi hdone, fun j z id' hj hz => ?_⟩
  obtain ⟨f, hfile, hcontent⟩ := hcontains hi hdone
  obtain ⟨f', hfile', hcontent'⟩ := hcontains hj hz
  obtain rfl := Option.some.inj (hfile.symm.trans hfile')
  exact Identity.eq_of_bytes (hcontent'.symm.trans hcontent)

end

section

/-- Ids that are read off the secret. -/
@[reducible] def plainKeys : KeyPairs := ⟨fun secret => ⟨secret.bytes, secret.length_eq⟩⟩

attribute [local instance] plainKeys

theorem sampleSecret_length (b : UInt8) : (List.replicate 32 b : Bytes).length = 32 :=
  List.length_replicate

def sampleSecret (b : UInt8) : SecretKey := ⟨List.replicate 32 b, sampleSecret_length b⟩

def sevens : SecretKey := sampleSecret 7

def eights : SecretKey := sampleSecret 8

/-- Two find no file; one creates it, the other is told so; a third comes between two writes
    of the key and finds it too short; a fourth loads what the first has written. -/
def race : List Event :=
  [.spawn (0o022#9, sevens), .spawn (0o022#9, eights), .act 0 .call, .act 1 .call, .act 1 .call,
    .act 0 .call, .act 0 .call, .act 1 .call, .act 0 (.wrote 20), .spawn (0o022#9, eights),
    .act 2 .call, .act 2 .call, .act 2 .call, .act 2 .call, .act 0 (.wrote 12), .act 0 .call,
    .act 0 .call, .spawn (0o022#9, eights), .act 3 .call, .act 3 .call, .act 3 .call, .act 3 .call,
    .act 3 .call]

theorem one_identity_race :
    ∃ w s, runFrom (TaskPool.step starters) (start none) race = some w ∧
      w.members[0]? = some s ∧ s.stage = .done (.ok (.ofSecret sevens)) ∧
      (∃ f, w.shared.file = some f ∧ f.content = sevens.bytes) ∧
      ∀ (j : Nat) (z : Starter) (id : Identity), w.members[j]? = some z →
        z.stage = .done (.ok id) → id = .ofSecret sevens :=
  ⟨_, _, rfl, rfl, rfl, @one_identity _ none race _ rfl 0 _ _ rfl rfl⟩

end

/-! ## After the file is written -/

section

variable [KeyPairs]

/-- What a start returns on a file that nobody writes to. -/
def verdict (f : File) : Except IdentityError Identity :=
  if f.mode ≠ requiredMode then .error (.insecurePermissions f.mode)
  else if h : f.content.length = 32 then .ok (.ofSecret ⟨f.content, h⟩)
  else .error .badKeyLength

/-- A start on its way to the verdict on `f`, at most `n` calls from it. -/
def Follows (f : File) (n : Nat) : Stage → Prop
  | .probe => 5 ≤ n
  | .metadata => 4 ≤ n
  | .opening => 3 ≤ n ∧ f.mode = requiredMode
  | .reading => 2 ≤ n ∧ f.mode = requiredMode
  | .readingExtra buf =>
      1 ≤ n ∧ f.mode = requiredMode ∧ buf = f.content.take 32 ∧ buf.length = 32
  | .done result => result = verdict f
  | .crashed => True
  | _ => False

variable {f : File} {n i : Nat} {s : Starter}

/-- A start that is not over can make its next call, and is a call closer then. -/
theorem Follows.call (h : Follows f n s.stage) (hover : s.stage.over = false) :
    ∃ stage, s.call i ⟨some f, none⟩ = some (⟨some f, none⟩, stage) ∧
      1 ≤ n ∧ Follows f (n - 1) stage := by
  cases hstage : s.stage with
  | probe =>
      rw [hstage] at h
      exact ⟨.metadata, by simp [Starter.call, hstage], le_trans (by decide) h,
        Nat.le_sub_one_of_lt h⟩
  | metadata =>
      rw [hstage] at h
      refine ⟨_, by rw [Starter.call, hstage], le_trans (by decide) h, ?_⟩
      split
      · next hmode => simp [Follows, verdict, hmode]
      · next hmode => exact ⟨Nat.le_sub_one_of_lt h, not_not.mp hmode⟩
  | opening =>
      rw [hstage] at h
      exact ⟨.reading, by simp [Starter.call, hstage], le_trans (by decide) h.1,
        Nat.le_sub_one_of_lt h.1, h.2⟩
  | reading =>
      rw [hstage] at h
      obtain ⟨hn, hmode⟩ := h
      refine ⟨_, by rw [Starter.call, hstage], le_trans (by decide) hn, ?_⟩
      split
      · next hshort =>
          have hlength : f.content.length ≠ 32 := by
            rw [List.length_take] at hshort
            omega
          simp [Follows, verdict, hmode, hlength]
      · next hlength => exact ⟨Nat.le_sub_one_of_lt hn, hmode, rfl, not_not.mp hlength⟩
  | readingExtra buf =>
      rw [hstage] at h
      obtain ⟨hn, hmode, rfl, hlength⟩ := h
      refine ⟨_, by rw [Starter.call, hstage], hn, ?_⟩
      have hlong : 32 ≤ f.content.length := by
        rw [List.length_take] at hlength
        omega
      split
      · next hextra =>
          have hlength' : f.content.length ≠ 32 := by
            rw [List.length_drop] at hextra
            omega
          simp [Follows, verdict, hmode, hlength']
      · next hextra =>
          -- The buffer is the whole file.
          have hexact : f.content.length = 32 := by
            rw [List.length_drop] at hextra
            omega
          have hall : f.content.take 32 = f.content := List.take_of_length_le hexact.le
          simp [Follows, verdict, hmode, hexact, hall]
  | done result => rw [hstage] at hover; cases hover
  | crashed => rw [hstage] at hover; cases hover
  | _ => rw [hstage] at h; exact h.elim

/-- More calls may be allowed than needed. -/
theorem Follows.mono {m : Nat} {stage : Stage} (h : Follows f m stage) (hle : m ≤ n) :
    Follows f n stage := by
  cases stage with
  | probe | metadata => exact le_trans h hle
  | opening | reading | readingExtra buf => exact ⟨le_trans h.1 hle, h.2⟩
  | _ => exact h

/-- No call is a death. -/
theorem call_alive {d d' : Disk} (h : s.call i d = some (d', .crashed)) : False := by
  rw [Starter.call] at h
  split at h <;> grind

/-- Whatever a start does but fail, it leaves the file as it is and goes on to the verdict. -/
theorem Follows.next {a : Act} {d : Disk} {stage : Stage} (h : Follows f n s.stage)
    (ha : a ≠ .fails) (hnext : s.next i ⟨some f, none⟩ a = some (d, stage)) :
    Follows f n stage := by
  cases a with
  | call =>
      cases hover : s.stage.over with
      | false =>
          obtain ⟨stage', hcall, -, h'⟩ := h.call (i := i) hover
          obtain ⟨-, rfl⟩ := Prod.mk.inj (Option.some.inj (hcall.symm.trans hnext))
          exact h'.mono (Nat.sub_le n 1)
      | true =>
          cases hstage : s.stage <;> rw [hstage] at hover <;>
            first | (cases hover; done) | simp [Starter.next, Starter.call, hstage] at hnext
  | wrote k =>
      cases hstage : s.stage with
      | writing rest bare => rw [hstage] at h; exact h.elim
      | _ => simp [Starter.next, Starter.write, hstage] at hnext
  | fails => exact absurd rfl ha
  | denied =>
      cases hstage : s.stage with
      | creating | creatingBare => rw [hstage] at h; exact h.elim
      | _ => simp [Starter.next, Stage.denied, hstage] at hnext
  | crash =>
      obtain ⟨-, hnext⟩ := Option.ite_none_left_eq_some.mp hnext
      obtain ⟨-, rfl⟩ := Prod.mk.inj (Option.some.inj hnext)
      trivial

/-- Where nobody has the file open for writing, no action changes anything about it. -/
theorem Touches.settled {d d' : Disk} (ht : Touches i d s d') (hk : Knows d i s)
    (hd : d = ⟨some f, none⟩) : d' = ⟨some f, none⟩ := by
  subst hd
  cases ht with
  | leaves hfile hwriter _ =>
      have hnone : d'.writer = none := hwriter.elim id id
      obtain ⟨file, writer⟩ := d'
      cases hfile
      cases hnone
      rfl
  | creates mode hfree _ _ => cases hfree
  | appends g rest bare m hstage _ _ _ _ => cases (hk.writing hstage).1
  | restricts g hstage _ _ => cases (hk.setPermissions hstage).1

/-- The mode stays as it is, and no start from the `n`-th on meets a failure. -/
def Undisturbed (n : Nat) : Event → Prop
  | .env _ => False
  | .act i .fails => i < n
  | _ => True

/-- The file is settled, and every start from the `n`-th on is on its way to the verdict. -/
abbrev Loading (f : File) (n : Nat) : World → Prop :=
  Holds (· = ⟨some f, none⟩) fun d i s => Knows d i s ∧ (n ≤ i → Follows f 5 s.stage)

/-- **Step lemma.** The file stays, and every new start stays on its way. -/
theorem step_loading {w w' : World} {e : Event} (h : Loading f n w) (he : Undisturbed n e)
    (hs : TaskPool.step starters w e = some w') : Loading f n w' := by
  refine Holds.step (Q := Undisturbed n) ?_ ?_ ?_ h he hs
  · rintro d b d' s hd - hspawn
    obtain ⟨rfl, rfl⟩ := Prod.mk.inj (Option.some.inj hspawn)
    exact ⟨hd, fun _ => ⟨trivial, fun _ => le_refl 5⟩, fun _ _ hz => hz⟩
  · rintro d i s a d' s' hd ⟨hk, hfollows⟩ hQ hact
    obtain ⟨⟨d'', stage⟩, hnext, hr⟩ := Option.map_eq_some_iff.mp hact
    obtain ⟨rfl, rfl⟩ := Prod.mk.inj hr
    have ht := next_touches hnext
    refine ⟨ht.settled hk hd, ⟨hk.next hnext, fun hle => ?_⟩,
      fun _ _ hne hz => ⟨Knows.stable ht hk hne hz.1, hz.2⟩⟩
    subst hd
    refine (hfollows hle).next ?_ hnext
    rintro rfl
    exact absurd hQ (Nat.not_lt.mpr hle)
  · rintro d mode d' - hQ -
    exact hQ.elim

/-- A start that is over, and alive, has the verdict. -/
theorem Follows.over {stage : Stage} (h : Follows f n stage) (hover : stage.over = true)
    (halive : stage ≠ .crashed) : stage = .done (verdict f) := by
  cases stage with
  | done result => exact congrArg Stage.done h
  | crashed => exact absurd rfl halive
  | _ => cases hover

/-- On the way to the verdict, calls alone lead there. -/
theorem Follows.finish {j : Nat} : ∀ {n : Nat} {w : World} {z : Starter},
    w.shared = ⟨some f, none⟩ → w.members[j]? = some z → Follows f n z.stage →
    z.stage ≠ .crashed → ∃ k ≤ n, ∃ w' z', runFrom (TaskPool.step starters) w
      (List.replicate k (.act j .call)) = some w' ∧ w'.members[j]? = some z' ∧
      z'.stage = .done (verdict f) := by
  intro n
  -- Induction on the calls still to make.
  induction n with
  | zero =>
      intro w z _ hz h halive
      cases hover : z.stage.over with
      | true => exact ⟨0, le_refl 0, w, z, rfl, hz, h.over hover halive⟩
      | false =>
          obtain ⟨_, -, hpos, -⟩ := h.call (i := j) hover
          exact absurd hpos (by decide)
  | succ n ih =>
      intro w z hshared hz h halive
      cases hover : z.stage.over with
      | true => exact ⟨0, Nat.zero_le _, w, z, rfl, hz, h.over hover halive⟩
      | false =>
          obtain ⟨stage, hcall, -, h'⟩ := h.call (i := j) hover
          have hlt := (List.getElem?_eq_some_iff.mp hz).1
          have hs : TaskPool.step starters w (.act j .call) =
              some ⟨⟨some f, none⟩, w.members.set j { z with stage := stage }⟩ := by
            simp [TaskPool.step, hz, hshared, starters, act, Starter.next, hcall]
          have hmember : (w.members.set j { z with stage := stage })[j]? =
              some { z with stage := stage } := List.getElem?_set_self hlt
          have halive' : stage ≠ .crashed := fun hcrashed => by
            rw [hcrashed] at hcall
            exact call_alive hcall
          obtain ⟨k, hk, w', z', hrun, hz', hdone⟩ :=
            ih (w := ⟨⟨some f, none⟩, _⟩) (z := { z with stage := stage }) rfl hmember h' halive'
          exact ⟨k + 1, Nat.succ_le_succ hk, w', z', runFrom_cons.mpr ⟨_, hs, hrun⟩, hz', hdone⟩

/-- **A RESTART GOES BY THE FILE ALONE.**  Once nobody has the file open for writing, every
    later start that has not died is at most five calls from the verdict on the file:
    whatever the others do, and however many there are. -/
theorem restart_outcome {file : Option File} {es es' : List Event} {w w' : World}
    (hrun : runFrom (TaskPool.step starters) (start file) es = some w)
    (hsettled : w.shared = ⟨some f, none⟩)
    (hrun' : runFrom (TaskPool.step starters) w es' = some w')
    (hundisturbed : ∀ e ∈ es', Undisturbed w.members.length e) :
    w'.shared = ⟨some f, none⟩ ∧
    ∀ (j : Nat) (z : Starter), w.members.length ≤ j → w'.members[j]? = some z →
      z.stage ≠ .crashed → ∃ k ≤ 5, ∃ w'' z', runFrom (TaskPool.step starters) w'
        (List.replicate k (.act j .call)) = some w'' ∧ w''.members[j]? = some z' ∧
        z'.stage = .done (verdict f) := by
  have hknown : Known w := run_invariant Known (fun _ _ _ h hs => step_known h hs) es _ _
    (holds_empty trivial) hrun
  have hstart : Loading f w.members.length w :=
    ⟨hsettled, fun i s hi => ⟨hknown.members i s hi, fun hle =>
      absurd (List.getElem?_eq_some_iff.mp hi).1 (Nat.not_lt.mpr hle)⟩⟩
  have hloading : Loading f w.members.length w' :=
    run_invariant_of (C := fun _ e => Undisturbed w.members.length e)
      (fun _ _ _ h he hs => step_loading h he hs) es' _ _ hstart
      (everyStep_of_forall hundisturbed) hrun'
  exact ⟨hloading.shared, fun j z hle hz halive =>
    ((hloading.members j z hz).2 hle).finish hloading.shared hz halive⟩

end

section

attribute [local instance] plainKeys

/-- The writer dies between two writes of the key, and the next start finds what is left. -/
def cutShort : List Event :=
  [.spawn (0o022#9, sevens), .act 0 .call, .act 0 .call, .act 0 .call, .act 0 (.wrote 20),
    .act 0 .crash]

theorem restart_outcome_cutShort :
    ∃ w w', runFrom (TaskPool.step starters) (start none) cutShort = some w ∧
      runFrom (TaskPool.step starters) w [.spawn (0o022#9, eights), .act 1 .call] = some w' ∧
      (w'.shared = ⟨some ⟨List.replicate 20 7, requiredMode⟩, none⟩ ∧
        ∀ (j : Nat) (z : Starter), w.members.length ≤ j → w'.members[j]? = some z →
          z.stage ≠ .crashed → ∃ k ≤ 5, ∃ w'' z', runFrom (TaskPool.step starters) w'
            (List.replicate k (.act j .call)) = some w'' ∧ w''.members[j]? = some z' ∧
            z'.stage = .done (verdict ⟨List.replicate 20 7, requiredMode⟩)) ∧
      verdict ⟨List.replicate 20 7, requiredMode⟩ = .error .badKeyLength :=
  ⟨_, _, rfl, rfl, @restart_outcome _ ⟨List.replicate 20 7, requiredMode⟩ none cutShort
    [.spawn (0o022#9, eights), .act 1 .call] _ _ rfl rfl rfl
    (by simp [Undisturbed]), rfl⟩

end

/-! ## Who may read the key -/

section

variable [KeyPairs] {i : Nat} {d d' : Disk} {s : Starter}

/-- Nobody but the owner has a permission. -/
def Private (d : Disk) : Prop := ∀ f, d.file = some f → f.mode &&& 0o077#9 = 0#9

/-- A starter that has passed the check of the mode, or that had no need of one. -/
def Stage.trusting : Stage → Bool
  | .opening | .reading | .readingExtra _ | .done (.ok _) => true
  | _ => false

/-- The mode that a starter which trusts it relies on. -/
def Trusts (d : Disk) (s : Starter) : Prop :=
  s.stage.trusting = true → ∃ f, d.file = some f ∧ f.mode = requiredMode

/-- Only the last resort of a refused starter opens the key to others. -/
theorem Touches.private (ht : Touches i d s d') (hstage : s.stage ≠ .creatingBare)
    (h : Private d) : Private d' := by
  intro f hf
  cases ht with
  | leaves hfile _ _ => exact h f (hfile.symm.trans hf)
  | creates mode hfree hnew hmode =>
      rw [hnew] at hf
      obtain rfl := Option.some.inj hf
      obtain rfl := hmode.resolve_right hstage
      show requiredMode &&& ~~~s.umask &&& 0o077#9 = 0#9
      rw [BitVec.and_assoc, BitVec.and_comm (~~~s.umask), ← BitVec.and_assoc]
      have hrequired : requiredMode &&& 0o077#9 = 0#9 := by decide
      rw [hrequired, BitVec.zero_and]
  | appends g rest bare n _ hg _ _ hnew =>
      rw [hnew] at hf
      obtain rfl := Option.some.inj hf
      exact h g hg
  | restricts g _ hg hnew =>
      rw [hnew, close_file] at hf
      obtain rfl := Option.some.inj hf
      show requiredMode &&& 0o077#9 = 0#9
      decide

/-- The mode that is required stays: nobody sets another. -/
theorem Touches.trusted (ht : Touches i d s d')
    (h : ∃ f, d.file = some f ∧ f.mode = requiredMode) :
    ∃ f, d'.file = some f ∧ f.mode = requiredMode := by
  obtain ⟨f, hfile, hmode⟩ := h
  cases ht with
  | leaves hsame _ _ => exact ⟨f, hsame.trans hfile, hmode⟩
  | creates mode hfree _ _ => cases hfile.symm.trans hfree
  | appends g rest bare n _ hg _ _ hnew =>
      obtain rfl := Option.some.inj (hg.symm.trans hfile)
      rw [hnew]
      exact ⟨_, rfl, hmode⟩
  | restricts g _ hg hnew =>
      rw [hnew, close_file]
      exact ⟨_, rfl, rfl⟩

/-- Whoever comes to trust the mode has just looked at it. -/
theorem next_looked {a : Act} {stage : Stage} (hnext : s.next i d a = some (d', stage))
    (hbefore : s.stage.trusting = false) (hafter : stage.trusting = true) :
    ∃ f, d.file = some f ∧ f.mode = requiredMode := by
  cases a with
  | call =>
      rw [Starter.next, Starter.call] at hnext
      -- Two calls look: `metadata` before the file is opened, and the check after it is written.
      split at hnext <;> grind [Stage.trusting]
  | wrote n =>
      rw [Starter.next, Starter.write] at hnext
      split at hnext <;> grind [Stage.trusting]
  | fails =>
      obtain ⟨stage', hfailed, hr⟩ := Option.map_eq_some_iff.mp hnext
      obtain ⟨-, rfl⟩ := Prod.mk.inj hr
      unfold Stage.failed at hfailed
      split at hfailed <;> cases hfailed <;> cases hafter
  | denied =>
      obtain ⟨stage', hdenied, hr⟩ := Option.map_eq_some_iff.mp hnext
      obtain ⟨-, rfl⟩ := Prod.mk.inj hr
      unfold Stage.denied at hdenied
      split at hdenied <;> cases hdenied <;> cases hafter
  | crash =>
      obtain ⟨-, hr⟩ := Option.ite_none_left_eq_some.mp hnext
      obtain ⟨-, rfl⟩ := Prod.mk.inj (Option.some.inj hr)
      cases hafter

/-- Only a refusal leads to the last resort. -/
theorem next_bare {a : Act} {stage : Stage} (hnext : s.next i d a = some (d', stage))
    (ha : a ≠ .denied) : stage ≠ .creatingBare := by
  cases a with
  | call =>
      rw [Starter.next, Starter.call] at hnext
      split at hnext <;> grind
  | wrote n =>
      rw [Starter.next, Starter.write] at hnext
      split at hnext <;> grind
  | fails =>
      obtain ⟨stage', hfailed, hr⟩ := Option.map_eq_some_iff.mp hnext
      obtain ⟨-, rfl⟩ := Prod.mk.inj hr
      unfold Stage.failed at hfailed
      split at hfailed <;> cases hfailed <;> simp
  | denied => exact absurd rfl ha
  | crash =>
      obtain ⟨-, hr⟩ := Option.ite_none_left_eq_some.mp hnext
      obtain ⟨-, rfl⟩ := Prod.mk.inj (Option.some.inj hr)
      simp

/-- Every starter that trusts the mode is right to. -/
abbrev Trusted : World → Prop := Holds (fun _ => True) fun d _ s => Trusts d s

/-- What the starters that trust the mode rely on stays true while nobody changes it. -/
theorem step_trusted {w w' : World} {e : Event} (h : Trusted w) (he : ∀ mode, e ≠ .env mode)
    (hs : TaskPool.step starters w e = some w') : Trusted w' := by
  refine Holds.step (Q := fun e => ∀ mode, e ≠ .env mode) ?_ ?_ ?_ h he hs
  · rintro d b d' s - - hspawn
    obtain ⟨rfl, rfl⟩ := Prod.mk.inj (Option.some.inj hspawn)
    exact ⟨trivial, fun _ htrusting => (by cases htrusting), fun _ _ hz => hz⟩
  · rintro d i s a d' s' - htrusts - hact
    obtain ⟨⟨d'', stage⟩, hnext, hr⟩ := Option.map_eq_some_iff.mp hact
    obtain ⟨rfl, rfl⟩ := Prod.mk.inj hr
    have ht := next_touches hnext
    refine ⟨trivial, fun hafter => ?_, fun _ _ _ hz htrusting => ht.trusted (hz htrusting)⟩
    cases hbefore : s.stage.trusting with
    | true => exact ht.trusted (htrusts hbefore)
    | false => exact ht.trusted (next_looked hnext hbefore hafter)
  · rintro d mode d' - hQ -
    exact absurd rfl (hQ mode)

/-- The owner sets no mode, and the file system takes the mode at `open`. -/
def TakesMode : Event → Prop
  | .env _ | .act _ .denied => False
  | _ => True

/-- The file is private, and nobody is about to create it without the mode. -/
abbrev Closed : World → Prop := Holds Private fun _ _ s => s.stage ≠ .creatingBare

/-- **Step lemma.** The file stays private. -/
theorem step_closed {w w' : World} {e : Event} (h : Closed w) (he : TakesMode e)
    (hs : TaskPool.step starters w e = some w') : Closed w' := by
  refine Holds.step (Q := TakesMode) ?_ ?_ ?_ h he hs
  · rintro d b d' s hd - hspawn
    obtain ⟨rfl, rfl⟩ := Prod.mk.inj (Option.some.inj hspawn)
    exact ⟨hd, fun _ hstage => (by cases hstage), fun _ _ hz => hz⟩
  · rintro d i s a d' s' hd hstage hQ hact
    obtain ⟨⟨d'', stage⟩, hnext, hr⟩ := Option.map_eq_some_iff.mp hact
    obtain ⟨rfl, rfl⟩ := Prod.mk.inj hr
    refine ⟨(next_touches hnext).private hstage hd, next_bare hnext ?_, fun _ _ _ hz => hz⟩
    rintro rfl
    exact hQ
  · rintro d mode d' - hQ -
    exact hQ.elim

/-- **THE KEY IS PRIVATE WHEREVER IT COUNTS.**  While the owner leaves the mode alone, the file
    of a returned identity is open to its owner only; and where a file that is already there
    is private and the file system takes the mode at `open`, the key is at no moment open to
    anybody else. -/
theorem key_private {file : Option File} {es : List Event} {w : World}
    (hrun : runFrom (TaskPool.step starters) (start file) es = some w)
    (hmode : ∀ e ∈ es, ∀ mode, e ≠ .env mode) :
    (∀ (j : Nat) (z : Starter) (id : Identity), w.members[j]? = some z →
      z.stage = .done (.ok id) → ∃ f, w.shared.file = some f ∧ f.mode = requiredMode) ∧
    ((∀ f, file = some f → f.mode &&& 0o077#9 = 0#9) → (∀ e ∈ es, TakesMode e) →
      ∀ f, w.shared.file = some f → f.mode &&& 0o077#9 = 0#9) := by
  refine ⟨fun j z id hj hz => ?_, fun hfile htakes => ?_⟩
  · have htrusted : Trusted w :=
      run_invariant_of (C := fun _ e => ∀ mode, e ≠ .env mode)
        (fun _ _ _ h he hs => step_trusted h he hs) es _ _ (holds_empty trivial)
        (everyStep_of_forall hmode) hrun
    exact htrusted.members j z hj (by rw [hz]; rfl)
  · have hclosed : Closed w :=
      run_invariant_of (C := fun _ e => TakesMode e)
        (fun _ _ _ h he hs => step_closed h he hs) es _ _
        (holds_empty (show Private ⟨file, none⟩ from hfile)) (everyStep_of_forall htakes) hrun
    exact hclosed.shared

end

section

attribute [local instance] plainKeys

theorem key_private_race :
    ∃ w, runFrom (TaskPool.step starters) (start none) race = some w ∧
      (∀ (j : Nat) (z : Starter) (id : Identity), w.members[j]? = some z →
        z.stage = .done (.ok id) → ∃ f, w.shared.file = some f ∧ f.mode = requiredMode) ∧
      ∀ f, w.shared.file = some f → f.mode &&& 0o077#9 = 0#9 :=
  have hprivate := @key_private _ none race _ rfl (by simp [race])
  ⟨_, rfl, hprivate.1, hprivate.2 (by simp) (by simp [race, TakesMode])⟩

/-- After a refusal of the mode the key lies open until the starter gets to the mode. -/
example : ∃ w f, runFrom (TaskPool.step starters) (start none)
    [.spawn (0o022#9, sevens), .act 0 .call, .act 0 .call, .act 0 .denied, .act 0 .call,
      .act 0 (.wrote 32)] = some w ∧
    w.shared.file = some f ∧ f.content = sevens.bytes ∧ f.mode = 0o644#9 :=
  ⟨_, _, rfl, rfl, rfl, rfl⟩

end

end UatIdentity
