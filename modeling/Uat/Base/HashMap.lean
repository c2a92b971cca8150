import Mathlib.Data.List.AList

/-! # Hash maps with `retain`

    Mathlib's association lists without duplicate keys stand for a hash map: `lookup`,
    `insert` and `erase` are its `get`, `insert` and `remove`.  What it lacks is
    `retain`, the in-place filter.  One lemma says what `retain` does to a lookup, and
    everything about eviction follows from that lemma. -/

namespace HashMap

variable {K V : Type*} [DecidableEq K]

/-- A map from `K` to `V`. -/
abbrev Map (K V : Type*) := AList (fun _ : K => V)

/-- Keep the entries that satisfy `p`. -/
def retain (m : Map K V) (p : K → V → Bool) : Map K V where
  entries := m.entries.filter fun e => p e.1 e.2
  nodupKeys := m.nodupKeys.sublist (List.filter_sublist)

@[simp] theorem lookup_retain (m : Map K V) (p : K → V → Bool) (k : K) :
    (retain m p).lookup k = (m.lookup k).filter (p k) := by
  ext v
  rw [← Option.mem_def, AList.mem_lookup_iff, Option.filter_eq_some_iff, ← Option.mem_def,
    AList.mem_lookup_iff]
  exact List.mem_filter

/-- `contains_key`. -/
def containsKey (m : Map K V) (k : K) : Bool := (m.lookup k).isSome

/-- What a key is mapped to after an insertion. -/
theorem lookup_insert_eq (m : Map K V) (k k' : K) (v : V) :
    (m.insert k v).lookup k' = if k' = k then some v else m.lookup k' := by
  by_cases h : k' = k
  · subst h
    rw [if_pos rfl, AList.lookup_insert]
  · rw [if_neg h, AList.lookup_insert_ne h]

/-- What a key is mapped to after a removal. -/
theorem lookup_erase_eq (m : Map K V) (k k' : K) :
    (m.erase k).lookup k' = if k' = k then none else m.lookup k' := by
  by_cases h : k' = k
  · subst h
    rw [if_pos rfl, AList.lookup_erase]
  · rw [if_neg h, AList.lookup_erase_ne h]

end HashMap
