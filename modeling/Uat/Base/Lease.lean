import Mathlib.Algebra.Order.Ring.Int
import Mathlib.Data.Option.Basic
import Mathlib.Data.List.Basic

/-! # Leases — one key, held until a date, in requests that bring their own clock

    A cell holds the date until which its key is taken, if it is taken.  A request
    brings a clock value and the date until which it would hold the key: it first drops
    a date that its clock has reached, and is granted if the cell is then free.

    Nothing says that the clocks of successive requests increase, nor that a later
    request asks for the same date.  `grants_le_one_iff` is exact all the same: a
    sequence of requests is granted at most once precisely when the first grant's date
    lies after every later clock. -/

namespace Lease

variable {T : Type*} [LinearOrder T]

/-- Drop a date that the clock has reached. -/
def lapse (c : Option T) (now : T) : Option T := c.filter fun e => decide (now < e)

/-- A date that is ahead stays. -/
theorem lapse_of_lt {now e : T} (h : now < e) : lapse (some e) now = some e := by
  rw [lapse, Option.filter_some, if_pos (decide_eq_true h)]

/-- A date that the clock has reached goes. -/
theorem lapse_of_le {now e : T} (h : e ≤ now) : lapse (some e) now = none := by
  rw [lapse, Option.filter_some, if_neg]
  rw [decide_eq_true_eq]
  exact not_lt.mpr h

/-- What survives a lapse is what was there, and its date is ahead. -/
theorem lapse_eq_some_iff {c : Option T} {now e : T} :
    lapse c now = some e ↔ c = some e ∧ now < e := by
  rw [lapse, Option.filter_eq_some_iff, decide_eq_true_eq]

/-- At one clock, dropping twice is dropping once. -/
theorem lapse_lapse (c : Option T) (now : T) : lapse (lapse c now) now = lapse c now := by
  rw [lapse, lapse, Option.filter_filter]
  simp only [Bool.and_self]

/-- A request's clock, and the date until which it would hold the key. -/
structure Request (T : Type*) where
  now : T
  till : T

/-- Is the cell free at the request's clock? -/
def Granted (c : Option T) (r : Request T) : Prop := lapse c r.now = none

instance (c : Option T) (r : Request T) : Decidable (Granted c r) :=
  inferInstanceAs (Decidable (lapse c r.now = none))

/-- The cell after a request: the date it kept, or the request's own. -/
def serve (c : Option T) (r : Request T) : Option T :=
  match lapse c r.now with
  | some e => some e
  | none => some r.till

/-- A granted request holds the key until its own date. -/
theorem serve_granted {c : Option T} {r : Request T} (h : Granted c r) :
    serve c r = some r.till := by
  rw [serve, show lapse c r.now = none from h]

/-- A refused request leaves the cell as it was. -/
theorem serve_refused {c : Option T} {r : Request T} (h : ¬ Granted c r) : serve c r = c := by
  obtain ⟨e, he⟩ := Option.ne_none_iff_exists'.mp h
  rw [serve, he]
  exact (lapse_eq_some_iff.mp he).1.symm

/-- How many of the requests are granted, served in order. -/
def grants : Option T → List (Request T) → Nat
  | _, [] => 0
  | c, r :: rs => (if Granted c r then 1 else 0) + grants (serve c r) rs

/-- Requests whose clocks all lie before the date are refused. -/
theorem grants_held {e : T} :
    ∀ {rs : List (Request T)}, (∀ r ∈ rs, r.now < e) → grants (some e) rs = 0 := by
  intro rs
  induction rs with
  | nil => intro _; rfl
  | cons r rs ih =>
      intro h
      have hr : ¬ Granted (some e) r := by
        show ¬ lapse (some e) r.now = none
        rw [lapse_of_lt (h r List.mem_cons_self)]
        exact nofun
      rw [grants, if_neg hr, serve_refused hr, Nat.zero_add]
      exact ih fun q hq => h q (List.mem_cons_of_mem r hq)

/-- One request whose clock has reached the date is enough for a grant. -/
theorem grants_lapsed {e : T} :
    ∀ {rs : List (Request T)}, (∃ r ∈ rs, e ≤ r.now) → 0 < grants (some e) rs := by
  intro rs
  induction rs with
  | nil => rintro ⟨r, hr, -⟩; exact absurd hr List.not_mem_nil
  | cons r rs ih =>
      rintro ⟨q, hq, hqe⟩
      rw [grants]
      by_cases hr : Granted (some e) r
      · rw [if_pos hr]
        omega
      · rw [if_neg hr, serve_refused hr, Nat.zero_add]
        refine ih ⟨q, ?_, hqe⟩
        rcases List.mem_cons.mp hq with rfl | hq
        · exact absurd (lapse_of_le hqe) hr
        · exact hq

/-- The first request that finds the cell free asks for a date after every later
    clock. -/
def Outlasts (c : Option T) : List (Request T) → Prop
  | [] => True
  | r :: rs => if Granted c r then ∀ q ∈ rs, q.now < r.till else Outlasts c rs

/-- **A key is taken at most once exactly when its first lease outlasts the rest.** -/
theorem grants_le_one_iff {c : Option T} :
    ∀ {rs : List (Request T)}, grants c rs ≤ 1 ↔ Outlasts c rs := by
  intro rs
  induction rs with
  | nil => exact ⟨fun _ => trivial, fun _ => Nat.zero_le 1⟩
  | cons r rs ih =>
      rw [grants, Outlasts]
      by_cases hr : Granted c r
      · rw [if_pos hr, if_pos hr, serve_granted hr]
        constructor
        · intro h q hq
          by_contra hlt
          have := grants_lapsed (e := r.till) ⟨q, hq, not_lt.mp hlt⟩
          omega
        · intro h
          have := grants_held h
          omega
      · rw [if_neg hr, if_neg hr, serve_refused hr, Nat.zero_add]
        exact ih

end Lease
