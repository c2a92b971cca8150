import Mathlib.Data.Finset.Insert
import Mathlib.Algebra.Order.Ring.Int
import Uat.Types
import Uat.Base.Checked
import Uat.Base.HashMap
import Uat.Base.Lease

/-! # The answering policy — allowlist, Biscuit facts, spent set

    `uat-policy` as a state transformer: verification reads the policy and threads the
    spent set, the only thing it changes.  The Biscuit library is third-party code.  A
    token is what the code observes of it (`Biscuit`): whether it authorizes, the facts
    each query returns, the revocation identifiers.  Parsing bytes into a token is a
    parameter (`BiscuitEngine`).

    A panic is an outcome of its own.  The one place where verification can panic is the
    conversion of an `expires` date that no `SystemTime` represents. -/

namespace UatPolicy

open UatTypes Checked HashMap

/-! ## Time -/

/-- A wall-clock instant in nanoseconds from the Unix epoch; the seconds fit an `i64`. -/
structure SystemTime where
  nanos : Int
  inRange : -(2 ^ 63) * 10 ^ 9 ≤ nanos ∧ nanos < 2 ^ 63 * 10 ^ 9
  deriving DecidableEq

/-- A time is its distance from the epoch. -/
theorem nanos_injective : Function.Injective SystemTime.nanos := by
  rintro ⟨a, _⟩ ⟨b, _⟩ h
  obtain rfl : a = b := h
  rfl

instance : LinearOrder SystemTime := LinearOrder.lift' SystemTime.nanos nanos_injective

/-- Times are ordered by their distance from the epoch. -/
theorem systemTime_lt_iff {a b : SystemTime} : a < b ↔ a.nanos < b.nanos := Iff.rfl

/-- `UNIX_EPOCH + Duration::from_secs(secs)`, where it does not overflow. -/
def secondsAfterEpoch (secs : Nat) (h : secs < 2 ^ 63) : SystemTime :=
  ⟨secs * 10 ^ 9, by omega⟩

/-- `UNIX_EPOCH + Duration::from_secs(secs)`, which panics on overflow. -/
def epochPlus {ε : Type} (secs : Nat) : Exec ε SystemTime :=
  if h : secs < 2 ^ 63 then .ok (secondsAfterEpoch secs h) else panicked

/-- Whole seconds since the epoch, or 0 before it. -/
def unixSecs (now : SystemTime) : Nat :=
  if 0 ≤ now.nanos then (now.nanos / 10 ^ 9).toNat else 0

/-- A date in whole seconds that passes the clock's whole seconds passes the clock. -/
theorem lt_of_unixSecs_lt {now : SystemTime} {secs : Nat} (h : unixSecs now < secs) :
    now.nanos < secs * 10 ^ 9 := by
  rw [unixSecs] at h
  split at h <;> omega

/-! ## Tokens -/

/-- The terms verification distinguishes. -/
inductive Term where
  | bytes (pk : Bytes)
  | date (ts : Nat)
  | integer (n : Int)
  | str (s : String)
  | other
  deriving DecidableEq

/-- A fact returned by a query: the terms of its predicate. -/
structure Fact where
  terms : List Term
  deriving DecidableEq

/-- The queries the code makes, each by the predicate it reads. -/
inductive Query where
  | callee
  | expires
  | maxDeadlineMs
  | contentType
  | oneShot
  deriving DecidableEq

/-- What the code observes of a parsed token. -/
structure Biscuit where
  authorizes : Bool
  queryAll : Query → Option (List Fact)
  revocationIdentifiers : List Bytes

/-- The Biscuit library's parser: raw bytes and a choice of root key by key id. -/
class BiscuitEngine (Key : Type) where
  fromBytes : Bytes → (Option Nat → Option Key) → Option Biscuit

/-- A library that no token parses under. -/
@[reducible] def noToken : BiscuitEngine Unit := ⟨fun _ _ => none⟩

/-- Stable 32-byte id of a token. -/
structure BiscuitId where
  bytes : Bytes
  length_eq : bytes.length = 32

instance : DecidableEq BiscuitId := fun a b =>
  decidable_of_iff (a.bytes = b.bytes) ⟨fun h => by cases a; cases h; rfl, fun h => h ▸ rfl⟩

/-- Errors from `verify` and the constructors around it. -/
inductive AuthError where
  | denied (peer : NodeId)
  | tokenUnauthorized
  | notSubmit
  | notHeaderOnly
  deriving DecidableEq

/-- Which rule admitted a submit. -/
inductive AuthRule where
  | allowlist
  | token (id : BiscuitId)
  deriving DecidableEq

/-! ## The spent set -/

/-- The in-memory map from token id to expiry. -/
abbrev MemorySpentSet := Map BiscuitId SystemTime

def MemorySpentSet.new : MemorySpentSet := ∅

/-- `evict_expired`: what expires now goes too. -/
def evictExpired (map : MemorySpentSet) (now : SystemTime) : MemorySpentSet :=
  retain map fun _ expires => decide (now < expires)

/-- `len`, which evicts first. -/
def MemorySpentSet.len (spent : MemorySpentSet) (now : SystemTime) : Nat × MemorySpentSet :=
  let map := evictExpired spent now
  (map.entries.length, map)

/-- `contains`, which evicts first. -/
def MemorySpentSet.contains (spent : MemorySpentSet) (id : BiscuitId) (now : SystemTime) :
    Bool × MemorySpentSet :=
  let map := evictExpired spent now
  (containsKey map id, map)

/-- `try_spend`: evict, then take the id unless it is there already. -/
def MemorySpentSet.trySpend (spent : MemorySpentSet) (id : BiscuitId)
    (expires now : SystemTime) : Bool × MemorySpentSet :=
  let map := evictExpired spent now
  if containsKey map id then (false, map) else (true, map.insert id expires)

/-! ## The policy -/

/-- Node answering policy; the spent set it shares is threaded by `verify`. -/
structure Policy (Key : Type) where
  allowlist : Finset NodeId
  rootKeys : List Key
  selfId : Option NodeId

variable {Key : Type}

/-- `Policy::empty`: nobody is listed and no root is trusted. -/
def Policy.empty : Policy Key := ⟨∅, [], none⟩

/-- `Policy::allow`: one peer is listed. -/
def Policy.allow (peer : NodeId) : Policy Key := ⟨{peer}, [], none⟩

def Policy.withBiscuitRoots (policy : Policy Key) (selfId : NodeId) (roots : List Key) :
    Policy Key :=
  { policy with selfId := some selfId, rootKeys := roots }

/-- `contains`: is the peer on the allowlist? -/
def Policy.contains (policy : Policy Key) (peer : NodeId) : Bool :=
  decide (peer ∈ policy.allowlist)

def Policy.hasBiscuitRoots (policy : Policy Key) : Bool := !policy.rootKeys.isEmpty

/-- The connection gate: `Verify::verify_peer` of a policy. -/
def Policy.verifyPeer (policy : Policy Key) (peer : NodeId) : Bool :=
  policy.contains peer || policy.hasBiscuitRoots

/-- A root by key id, else the first root. -/
def chooseRoot (roots : List Key) (keyId : Option Nat) : Option Key :=
  match keyId with
  | some id => roots[id]?
  | none => if h : roots.length = 1 then some roots[0] else roots.head?

end UatPolicy
