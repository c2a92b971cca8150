import Mathlib.Data.Set.Basic
import Mathlib.Tactic.IntervalCases
import Uat.CallerRun

/-! # Close codes — what a narrowed application error code is read as

    A peer closes with `CloseCode.asU32`, six small numbers; the transport hands the other
    end an application error code of up to 62 bits, and `close_code_from_conn_err` keeps
    its low 32 bits before the lookup.  The six numbers therefore survive, and so does
    "not one of them" below 2^32; above, only the low half decides.

    * **Known** — the numbers that are a close code.
    * **Survives** — what is owed to a set of received codes: known ones are read back,
      all others are violations, no two share a close code, none passes for another.
    * **LowHalfDecides** — the codes whose low 32 bits lead to the right answer.
    * **survives_iff** — a set of codes survives exactly when all its members are such
      codes; `wrappedZero` (2^32) is read as `Normal`.
    * **onClosed_task** — the audit follows the low half too: it alone decides whether a
      caller's record keeps its task. -/

namespace UatCloseCodes

open UatTypes UatPolicy UatRecord UatCallerLoop UatCallerRun

/-- A number that is a close code. -/
def Known (n : Nat) : Prop := ∃ code, CloseCode.asU32 code = n

/-- The close code read off a connection closed with an application error code. -/
abbrev readOff (errorCode : VarInt) : CloseCode :=
  closeCodeFromConnErr (.applicationClosed errorCode)

/-- What close codes owe each other across the wire, over a set of received error codes. -/
structure Survives (received : Set VarInt) : Prop where
  known : ∀ n ∈ received, ∀ code, CloseCode.asU32 code = n.value → readOff n = code
  unknown : ∀ n ∈ received, ¬ Known n.value → readOff n = .protocolViolation
  noAlias : ∀ m ∈ received, ∀ n ∈ received, m ≠ n → readOff m = readOff n →
    readOff m = .protocolViolation
  noForeign : ∀ n ∈ received, ¬ Known n.value → readOff n ≠ .normal ∧ readOff n ≠ .rateLimited

/-- The low 32 bits lead to the right answer: they are the whole code, or they spell
    `ProtocolViolation` or nothing at all. -/
def LowHalfDecides (n : VarInt) : Prop :=
  n.value < 2 ^ 32 ∨ n.value % 2 ^ 32 = 4 ∨ 5 < n.value % 2 ^ 32

/-! ## The lookup -/

/-- The close codes are numbered 0 to 5. -/
theorem asU32_le (code : CloseCode) : CloseCode.asU32 code ≤ 5 := by
  cases code <;> decide

/-- No other number is one. -/
theorem fromU32_unknown {n : Nat} (h : 5 < n) : CloseCode.fromU32 n = none := by
  obtain ⟨k, rfl⟩ : ∃ k, n = k + 6 := ⟨n - 6, by omega⟩
  rfl

/-- The lookup finds exactly the code that has the number. -/
theorem fromU32_eq_some {n : Nat} {code : CloseCode} :
    CloseCode.fromU32 n = some code ↔ CloseCode.asU32 code = n := by
  constructor
  · intro h
    by_cases hn : 5 < n
    · rw [fromU32_unknown hn] at h
      cases h
    · have hle : n ≤ 5 := Nat.not_lt.mp hn
      interval_cases n <;> cases h <;> rfl
  · rintro rfl
    exact fromU32_asU32 code

/-- So an error code is known when it is at most 5. -/
theorem known_iff {n : Nat} : Known n ↔ n ≤ 5 := by
  constructor
  · rintro ⟨code, rfl⟩
    exact asU32_le code
  · intro h
    interval_cases n
    · exact ⟨.normal, rfl⟩
    · exact ⟨.rateLimited, rfl⟩
    · exact ⟨.frameTooLarge, rfl⟩
    · exact ⟨.malformedFrame, rfl⟩
    · exact ⟨.protocolViolation, rfl⟩
    · exact ⟨.timeout, rfl⟩

/-! ## What is read off -/

/-- Apart from `ProtocolViolation`, a close code is read off exactly the error codes with
    its number in their low half. -/
theorem readOff_eq_iff {n : VarInt} {code : CloseCode} (hcode : code ≠ .protocolViolation) :
    readOff n = code ↔ n.value % 2 ^ 32 = CloseCode.asU32 code := by
  show (CloseCode.fromU32 (n.value % 2 ^ 32)).getD .protocolViolation = code ↔ _
  rw [eq_comm (b := CloseCode.asU32 code), ← fromU32_eq_some]
  cases hfound : CloseCode.fromU32 (n.value % 2 ^ 32) with
  | none => exact ⟨fun h => absurd h.symm hcode, fun h => by cases h⟩
  | some found => exact ⟨fun h => congrArg some h, fun h => Option.some.inj h⟩

/-- `ProtocolViolation` is read off its own number, and off all that are unknown. -/
theorem readOff_violation_iff {n : VarInt} :
    readOff n = .protocolViolation ↔ n.value % 2 ^ 32 = 4 ∨ 5 < n.value % 2 ^ 32 := by
  show (CloseCode.fromU32 (n.value % 2 ^ 32)).getD .protocolViolation = _ ↔ _
  cases hfound : CloseCode.fromU32 (n.value % 2 ^ 32) with
  | none =>
      refine ⟨fun _ => Or.inr ?_, fun _ => rfl⟩
      by_contra hle
      obtain ⟨code, hcode⟩ := known_iff.mpr (Nat.not_lt.mp hle)
      rw [fromU32_eq_some.mpr hcode] at hfound
      cases hfound
  | some found =>
      have hlow := fromU32_eq_some.mp hfound
      rw [← hlow]
      cases found <;> decide

/-- A close code that was sent is read back: its number is below 2^32, so nothing is lost. -/
theorem readOff_known {n : VarInt} {code : CloseCode} (h : CloseCode.asU32 code = n.value) :
    readOff n = code := by
  have hsmall : n.value % 2 ^ 32 = n.value :=
    Nat.mod_eq_of_lt (by have := asU32_le code; omega)
  show (CloseCode.fromU32 (n.value % 2 ^ 32)).getD .protocolViolation = code
  rw [hsmall, ← h, fromU32_asU32]
  rfl

/-- An unknown error code is read as `ProtocolViolation`. -/
theorem readOff_unknown {n : VarInt} (hn : LowHalfDecides n) (h : ¬ Known n.value) :
    readOff n = .protocolViolation := by
  rw [known_iff] at h
  refine readOff_violation_iff.mpr ?_
  rcases hn with hsmall | hlow
  · rw [Nat.mod_eq_of_lt hsmall]
    omega
  · exact hlow

/-- Where the low half decides, an error code is a violation or the number of what is read. -/
theorem value_of_readOff {n : VarInt} (hn : LowHalfDecides n)
    (h : readOff n ≠ .protocolViolation) : n.value = CloseCode.asU32 (readOff n) := by
  by_cases hknown : Known n.value
  · obtain ⟨code, hcode⟩ := hknown
    rw [readOff_known hcode, hcode]
  · exact absurd (readOff_unknown hn hknown) h

/-- An error code is its value. -/
theorem VarInt.eq_of_value {m n : VarInt} (h : m.value = n.value) : m = n := by
  cases m
  cases n
  cases h
  rfl

/-- **CLOSE CODES SURVIVE NARROWING** exactly where the low half decides: over every set of
    received error codes, what they owe each other holds if and only if none of them is at
    or above 2^32 with the number of another close code than `ProtocolViolation` in its low
    half. -/
theorem survives_iff (received : Set VarInt) :
    Survives received ↔ ∀ n ∈ received, LowHalfDecides n := by
  constructor
  · intro h n hn
    by_cases hsmall : n.value < 2 ^ 32
    · exact Or.inl hsmall
    · -- a code this large has no name of its own, so it must be read as a violation
      have hforeign : ¬ Known n.value := by
        rw [known_iff]
        omega
      exact Or.inr (readOff_violation_iff.mp (h.unknown n hn hforeign))
  · intro h
    refine ⟨fun n _ code hcode => readOff_known hcode,
      fun n hn hforeign => readOff_unknown (h n hn) hforeign, ?_, ?_⟩
    · intro m hm n hn hne hsame
      by_contra hread
      -- both are the number of the one code that was read off them
      refine hne (VarInt.eq_of_value ?_)
      rw [value_of_readOff (h m hm) hread, value_of_readOff (h n hn) (hsame ▸ hread), hsame]
    · intro n hn hforeign
      rw [readOff_unknown (h n hn) hforeign]
      exact ⟨by decide, by decide⟩

/-- The smallest error code that wraps around to zero. -/
def wrappedZero : VarInt := ⟨2 ^ 32, by decide⟩

/-- `wrappedZero` is no close code, and it is read as the `Normal` that zero is read as. -/
theorem wrappedZero_normal :
    ¬ Known wrappedZero.value ∧ readOff wrappedZero = .normal ∧
      readOff wrappedZero = readOff ⟨0, by decide⟩ ∧ ¬ Survives Set.univ := by
  have hread : readOff wrappedZero = .normal := rfl
  have hforeign : ¬ Known wrappedZero.value := by
    rw [known_iff]
    decide
  refine ⟨hforeign, hread, rfl, ?_⟩
  intro h
  exact (h.noForeign wrappedZero trivial hforeign).1 hread

/-! ## What the audit makes of it -/

variable [Base64Engine]

/-- **A caller's record loses its task** to a lost connection exactly if the low half of
    the error code is the number of `RateLimited`. -/
theorem onClosed_task (c : Caller) (n : VarInt) :
    (c.onClosed (.applicationClosed n)).record.record.task =
      if n.value % 2 ^ 32 = 1 then none else c.record.record.task := by
  have hlimited : readOff n = .rateLimited ↔ n.value % 2 ^ 32 = 1 :=
    readOff_eq_iff (by decide)
  rw [Caller.onClosed]
  by_cases hlow : n.value % 2 ^ 32 = 1
  · rw [if_pos (hlimited.mpr hlow), if_pos hlow, connLost_record]
    rfl
  · rw [if_neg (mt hlimited.mp hlow), if_neg hlow, connLost_record]

end UatCloseCodes
