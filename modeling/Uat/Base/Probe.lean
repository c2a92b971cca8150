import Mathlib.Data.Finset.Card
import Uat.Base.HashMap

/-! # Bounded probing — a first free name of finitely many

    An entry has a stem, and its stem has `bound` names.  It is put under the first of
    them that the map does not have yet; when all are taken it is dropped.

    * **`place`** — one entry; **`AllPlaced`** — a list of them, in order.
    * **`place_eq_none_iff`** — an entry is dropped exactly when its names are all taken.
    * **`allPlaced_iff`** — where no two stems share a name, a list is placed without loss
      exactly when no stem has more entries than free names.  The order does not matter. -/

namespace Probe

open HashMap

variable {K N V : Type*} [DecidableEq K] [DecidableEq N]

/-- The first free one of the names. -/
def firstFree (bound : Nat) (name : Nat → N) (m : Map N V) : Option Nat :=
  (List.range bound).find? fun i => !containsKey m (name i)

/-- Put the value under the first free name. -/
def place (bound : Nat) (name : Nat → N) (m : Map N V) (v : V) : Option (Map N V) :=
  (firstFree bound name m).map fun i => m.insert (name i) v

/-- The indices of the names that are taken. -/
def takenNames (bound : Nat) (name : Nat → N) (m : Map N V) : Finset Nat :=
  (Finset.range bound).filter fun i => containsKey m (name i) = true

/-- How many of the names are taken. -/
def taken (bound : Nat) (name : Nat → N) (m : Map N V) : Nat := (takenNames bound name m).card

/-! ## One entry -/

section

variable {bound : Nat} {name : Nat → N} {m : Map N V} {v : V}

theorem taken_le (bound : Nat) (name : Nat → N) (m : Map N V) : taken bound name m ≤ bound := by
  have hle := Finset.card_filter_le (Finset.range bound) fun i => containsKey m (name i) = true
  rw [Finset.card_range] at hle
  exact hle

/-- The name found is free. -/
theorem firstFree_some {i : Nat} (h : firstFree bound name m = some i) :
    i < bound ∧ m.lookup (name i) = none := by
  have hfree := List.find?_some h
  have hmem := List.mem_of_find?_eq_some h
  refine ⟨List.mem_range.mp hmem, ?_⟩
  rw [Bool.not_eq_true', containsKey, Option.isSome_eq_false_iff,
    Option.isNone_iff_eq_none] at hfree
  exact hfree

/-- **A dropped entry** finds all its names taken. -/
theorem place_eq_none_iff : place bound name m v = none ↔ taken bound name m = bound := by
  have hall : taken bound name m = bound ↔
      ∀ i ∈ Finset.range bound, containsKey m (name i) = true := by
    rw [← Finset.card_filter_eq_iff, Finset.card_range]
    rfl
  rw [hall, place, Option.map_eq_none_iff, firstFree, List.find?_eq_none]
  refine forall_congr' fun i => ?_
  rw [List.mem_range, Finset.mem_range, Bool.not_eq_true', Bool.not_eq_false]

/-- A placed entry has one of its names, a free one. -/
theorem place_some {m' : Map N V} (h : place bound name m v = some m') :
    ∃ i < bound, m.lookup (name i) = none ∧ m' = m.insert (name i) v := by
  obtain ⟨i, hi, rfl⟩ := Option.map_eq_some_iff.mp h
  obtain ⟨hlt, hfree⟩ := firstFree_some hi
  exact ⟨i, hlt, hfree, rfl⟩

/-- Taking a free name takes one name of its stem. -/
theorem taken_insert (hname : Function.Injective name) {i : Nat} (hi : i < bound)
    (hfree : m.lookup (name i) = none) :
    taken bound name (m.insert (name i) v) = taken bound name m + 1 := by
  have hset : takenNames bound name (m.insert (name i) v) = insert i (takenNames bound name m) := by
    ext j
    rw [Finset.mem_insert, takenNames, takenNames, Finset.mem_filter, Finset.mem_filter,
      containsKey, containsKey, lookup_insert_eq]
    by_cases hj : j = i
    · rw [if_pos (congrArg name hj), hj]
      exact ⟨fun _ => Or.inl rfl, fun _ => ⟨Finset.mem_range.mpr hi, rfl⟩⟩
    · rw [if_neg fun h => hj (hname h)]
      exact ⟨Or.inr, fun h => h.resolve_left hj⟩
  have hnew : i ∉ takenNames bound name m := by
    rw [takenNames, Finset.mem_filter, containsKey, hfree]
    rintro ⟨-, h⟩
    cases h
  rw [taken, hset, Finset.card_insert_of_notMem hnew]
  rfl

/-- The names of another stem are not touched. -/
theorem taken_insert_ne {n : N} (hne : ∀ j, name j ≠ n) :
    taken bound name (m.insert n v) = taken bound name m := by
  rw [taken, taken, takenNames, takenNames]
  congr 1
  ext j
  rw [Finset.mem_filter, Finset.mem_filter, containsKey, containsKey, lookup_insert_eq,
    if_neg (hne j)]

end

/-! ## A list of entries -/

section

variable {bound : Nat} {name : K → Nat → N}

/-- Every entry of the list finds a free name. -/
def AllPlaced (bound : Nat) (name : K → Nat → N) : Map N V → List (K × V) → Prop
  | _, [] => True
  | m, (k, v) :: es => ∃ m', place bound (name k) m v = some m' ∧ AllPlaced bound name m' es

/-- **NOTHING IS DROPPED** exactly when no stem has more entries than free names.  By
    induction on the list: an entry takes one name of its own stem and none of another. -/
theorem allPlaced_iff (hname : ∀ k k' i j, name k i = name k' j → k = k' ∧ i = j) :
    ∀ {es : List (K × V)} {m : Map N V}, AllPlaced bound name m es ↔
      ∀ k, taken bound (name k) m + (es.map Prod.fst).count k ≤ bound := by
  intro es
  induction es with
  | nil => exact fun {m} => ⟨fun _ k => taken_le bound (name k) m, fun _ => trivial⟩
  | cons e es ih =>
      obtain ⟨k, v⟩ := e
      intro m
      have hinj : Function.Injective (name k) := fun i j h => (hname k k i j h).2
      cases hplace : place bound (name k) m v with
      | none =>
          -- the entry is dropped, and its stem has one entry too many
          have hfull := place_eq_none_iff.mp hplace
          refine ⟨fun ⟨m', h, _⟩ => ?_, fun h => ?_⟩
          · cases hplace.symm.trans h
          · have hk := h k
            rw [hfull, List.map_cons, List.count_cons_self] at hk
            omega
      | some m' =>
          obtain ⟨i, hi, hfree, rfl⟩ := place_some hplace
          have hcons : AllPlaced bound name m ((k, v) :: es) ↔
              AllPlaced bound name (m.insert (name k i) v) es := by
            refine ⟨fun ⟨m', h, hes⟩ => ?_, fun h => ⟨_, hplace, h⟩⟩
            obtain rfl := Option.some.inj (hplace.symm.trans h)
            exact hes
          rw [hcons, ih]
          refine forall_congr' fun k' => ?_
          rw [List.map_cons]
          by_cases hk : k' = k
          · subst hk
            rw [taken_insert hinj hi hfree, List.count_cons_self]
            omega
          · rw [taken_insert_ne fun j h => hk (hname k' k j i h).1,
              List.count_cons_of_ne fun h => hk h.symm]

end

end Probe
