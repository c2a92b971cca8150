import Mathlib.Algebra.Order.Ring.Int
import Mathlib.Data.List.Induction

/-! # Fixed-width positional numerals

    `digits b w n` writes `n` in base `b` with exactly `w` digits, the most significant
    first; `value b` reads digits back.  Between numbers below `b ^ w` and lists of `w`
    digits below `b` the two are inverse to each other.  The bytes of a network-order
    integer are the case `b = 256`. -/

namespace Positional

/-- The number that a list of base-`b` digits denotes, most significant digit first. -/
def value (b : Nat) (ds : List Nat) : Nat := ds.foldl (fun acc d => acc * b + d) 0

/-- The last `w` base-`b` digits of `n`, most significant digit first. -/
def digits (b : Nat) : Nat → Nat → List Nat
  | 0, _ => []
  | w + 1, n => digits b w (n / b) ++ [n % b]

/-- `digits` is padded: it has the width asked for, whatever the number. -/
@[simp] theorem length_digits (b w n : Nat) : (digits b w n).length = w := by
  induction w generalizing n with
  | zero => rfl
  | succ w ih => rw [digits, List.length_append, ih, List.length_singleton]

/-- A digit appended is the new lowest one. -/
theorem value_append_singleton (b : Nat) (ds : List Nat) (d : Nat) :
    value b (ds ++ [d]) = value b ds * b + d := by
  rw [value, List.foldl_append]
  rfl

/-- Reading what was written gives the number back, if it fits. -/
theorem value_digits {b : Nat} : ∀ {w n : Nat}, n < b ^ w → value b (digits b w n) = n := by
  intro w
  induction w with
  | zero =>
      intro n h
      rw [pow_zero] at h
      obtain rfl : n = 0 := by omega
      rfl
  | succ w ih =>
      intro n h
      have hdiv : n / b < b ^ w := by
        rw [pow_succ] at h
        exact Nat.div_lt_of_lt_mul (by rwa [Nat.mul_comm] at h)
      rw [digits, value_append_singleton, ih hdiv]
      exact Nat.div_add_mod' n b

/-- Every digit is below the base. -/
theorem digits_lt {b : Nat} (hb : 0 < b) : ∀ {w n : Nat}, ∀ d ∈ digits b w n, d < b := by
  intro w
  induction w with
  | zero => intro n d hd; exact absurd hd List.not_mem_nil
  | succ w ih =>
      intro n d hd
      rcases List.mem_append.mp hd with hd | hd
      · exact ih d hd
      · obtain rfl := List.mem_singleton.mp hd
        exact Nat.mod_lt n hb

/-- Writing what was read gives the digits back. -/
theorem digits_value {b : Nat} {ds : List Nat} (h : ∀ d ∈ ds, d < b) :
    digits b ds.length (value b ds) = ds := by
  induction ds using List.reverseRecOn with
  | nil => rfl
  | append_singleton ds d ih =>
      have hd : d < b := h d (List.mem_append_right ds List.mem_cons_self)
      have hds : ∀ d ∈ ds, d < b := fun e he => h e (List.mem_append_left _ he)
      have hb : 0 < b := Nat.zero_lt_of_lt hd
      rw [List.length_append, List.length_singleton, digits, value_append_singleton,
        Nat.mul_comm, Nat.mul_add_div hb, Nat.div_eq_of_lt hd, Nat.add_zero, ih hds,
        Nat.mul_add_mod, Nat.mod_eq_of_lt hd]

/-! ## Network-order integers -/

/-- `n.to_be_bytes()` of a `w`-byte integer. -/
def toBe (w n : Nat) : List UInt8 := (digits 256 w n).map UInt8.ofNat

/-- `from_be_bytes(bs)`. -/
def fromBe (bs : List UInt8) : Nat := value 256 (bs.map UInt8.toNat)

/-- A `w`-byte field has `w` bytes. -/
@[simp] theorem length_toBe (w n : Nat) : (toBe w n).length = w := by
  rw [toBe, List.length_map, length_digits]

/-- A number that fits the field is read back from it. -/
theorem fromBe_toBe {w n : Nat} (h : n < 256 ^ w) : fromBe (toBe w n) = n := by
  have hmap : (toBe w n).map UInt8.toNat = digits 256 w n := by
    rw [toBe, List.map_map]
    refine (List.map_congr_left fun d hd => ?_).trans (List.map_id _)
    have hlt : d < 256 := digits_lt (by decide) d hd
    show (UInt8.ofNat d).toNat = d
    rw [UInt8.toNat_ofNat']
    exact Nat.mod_eq_of_lt hlt
  rw [fromBe, hmap, value_digits h]

/-- The bytes of a field are those of the number it holds. -/
theorem toBe_fromBe (bs : List UInt8) : toBe bs.length (fromBe bs) = bs := by
  have hds : ∀ d ∈ bs.map UInt8.toNat, d < 256 := by
    intro d hd
    obtain ⟨x, -, rfl⟩ := List.mem_map.mp hd
    exact x.toNat_lt
  have hdigits := digits_value hds
  rw [List.length_map] at hdigits
  rw [toBe, fromBe, hdigits, List.map_map]
  refine (List.map_congr_left fun x _ => ?_).trans (List.map_id _)
  exact UInt8.ofNat_toNat

end Positional
