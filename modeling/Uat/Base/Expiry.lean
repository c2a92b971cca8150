import Mathlib.Data.Finset.Card
import Mathlib.Data.Finset.Dedup
import Uat.Base.HashMap
import Uat.Base.Lease

/-! # A map that forgets beside a history that does not

    Every key that was put down with a date stays in the history.  A map that drops the
    entries its clock has reached `Tracks` the history from a clock value on, when at every
    later clock the two agree on which keys are live.  Dropping expired entries keeps the
    agreement, and so does a key put down while it is not live. -/

namespace Expiry

open HashMap

variable {K T : Type*} [LinearOrder T]

/-- Some entry of the key has its date ahead. -/
def Live (kept : List (K × T)) (now : T) (k : K) : Prop := ∃ e, (k, e) ∈ kept ∧ now < e

/-- What is live was live before. -/
theorem Live.earlier {kept : List (K × T)} {now later : T} {k : K} (h : Live kept later k)
    (hle : now ≤ later) : Live kept now k := by
  obtain ⟨e, hkept, he⟩ := h
  exact ⟨e, hkept, hle.trans_lt he⟩

/-- A key is live by the newest entry, or by one before it. -/
theorem live_cons {kept : List (K × T)} {now e : T} {k k' : K} :
    Live ((k, e) :: kept) now k' ↔ (k' = k ∧ now < e) ∨ Live kept now k' := by
  rw [Live]
  constructor
  · rintro ⟨e', hmem, he⟩
    rcases List.mem_cons.mp hmem with heq | hmem
    · obtain ⟨rfl, rfl⟩ := Prod.mk.inj heq
      exact Or.inl ⟨rfl, he⟩
    · exact Or.inr ⟨e', hmem, he⟩
  · rintro (⟨rfl, he⟩ | ⟨e', hmem, he⟩)
    · exact ⟨e, List.mem_cons_self, he⟩
    · exact ⟨e', List.mem_cons_of_mem _ hmem, he⟩

variable [DecidableEq K]

/-- The keys with an entry whose date lies ahead. -/
def liveKeys (kept : List (K × T)) (now : T) : Finset K :=
  ((kept.filter fun entry => decide (now < entry.2)).map Prod.fst).toFinset

/-- `liveKeys` are the keys that are live. -/
theorem mem_liveKeys {kept : List (K × T)} {now : T} {k : K} :
    k ∈ liveKeys kept now ↔ Live kept now k := by
  rw [liveKeys]
  rw [List.mem_toFinset, List.mem_map]
  constructor
  · rintro ⟨⟨k', e⟩, hmem, rfl⟩
    obtain ⟨hkept, he⟩ := List.mem_filter.mp hmem
    exact ⟨e, hkept, of_decide_eq_true he⟩
  · rintro ⟨e, hkept, he⟩
    exact ⟨(k, e), List.mem_filter.mpr ⟨hkept, decide_eq_true he⟩, rfl⟩

instance (kept : List (K × T)) (now : T) (k : K) : Decidable (Live kept now k) :=
  decidable_of_iff (k ∈ liveKeys kept now) mem_liveKeys

/-- From `now` on, the map and the history agree on what is live. -/
def Tracks (m : Map K T) (kept : List (K × T)) (now : T) : Prop :=
  ∀ later, now ≤ later → ∀ k, (Lease.lapse (m.lookup k) later).isSome = true ↔ Live kept later k

/-- The empty map tracks the empty history. -/
theorem tracks_empty (now : T) : Tracks (∅ : Map K T) [] now := by
  intro later _ k
  rw [AList.lookup_empty]
  exact ⟨nofun, fun ⟨_, hmem, _⟩ => nomatch hmem⟩

/-- What agrees from now on agrees from later on. -/
theorem Tracks.later {m : Map K T} {kept : List (K × T)} {now later : T}
    (h : Tracks m kept now) (hle : now ≤ later) : Tracks m kept later :=
  fun t ht => h t (hle.trans ht)

/-- Drop the entries that the clock has reached. -/
def evict (m : Map K T) (now : T) : Map K T := retain m fun _ e => decide (now < e)

/-- Eviction lapses what it looks up. -/
@[simp] theorem lookup_evict (m : Map K T) (now : T) (k : K) :
    (evict m now).lookup k = Lease.lapse (m.lookup k) now :=
  lookup_retain m _ k

/-- A date that lies ahead of a clock has not been dropped at an earlier one. -/
theorem lapse_lapse_of_le {c : Option T} {now later : T} (hle : now ≤ later) :
    Lease.lapse (Lease.lapse c now) later = Lease.lapse c later := by
  ext e
  rw [Lease.lapse_eq_some_iff, Lease.lapse_eq_some_iff, Lease.lapse_eq_some_iff]
  exact ⟨fun h => ⟨h.1.1, h.2⟩, fun h => ⟨⟨h.1, hle.trans_lt h.2⟩, h.2⟩⟩

/-- **Eviction is invisible.** -/
theorem Tracks.evict {m : Map K T} {kept : List (K × T)} {now : T} (h : Tracks m kept now) :
    Tracks (evict m now) kept now := by
  intro later hle k
  rw [lookup_evict, lapse_lapse_of_le hle]
  exact h later hle k

/-- After an eviction the map holds the live keys and no others. -/
theorem Tracks.containsKey {m : Map K T} {kept : List (K × T)} {now : T}
    (h : Tracks m kept now) (k : K) :
    HashMap.containsKey (Expiry.evict m now) k = true ↔ Live kept now k := by
  rw [HashMap.containsKey, lookup_evict]
  exact h now le_rfl k

/-- As many entries as there are live keys. -/
theorem Tracks.length {m : Map K T} {kept : List (K × T)} {now : T} (h : Tracks m kept now) :
    (Expiry.evict m now).entries.length = (liveKeys kept now).card := by
  have hkeys : (Expiry.evict m now).keys.toFinset = liveKeys kept now := by
    ext k
    rw [List.mem_toFinset, mem_liveKeys, ← h.containsKey k, HashMap.containsKey,
      AList.lookup_isSome]
    rfl
  rw [← hkeys, List.toFinset_card_of_nodup (AList.keys_nodup _)]
  exact (List.length_map _).symm

/-- A key that is not live is put down anew. -/
theorem Tracks.insert {m : Map K T} {kept : List (K × T)} {now e : T} {k : K}
    (h : Tracks m kept now) (hfree : ¬ Live kept now k) :
    Tracks (m.insert k e) ((k, e) :: kept) now := by
  intro later hle k'
  rw [lookup_insert_eq, live_cons]
  by_cases hk : k' = k
  · subst hk
    have hnone : ¬ Live kept later k' := fun hlive => hfree (hlive.earlier hle)
    rw [if_pos rfl, Option.isSome_iff_exists]
    constructor
    · rintro ⟨e', he'⟩
      obtain ⟨he, hlt⟩ := Lease.lapse_eq_some_iff.mp he'
      obtain rfl := Option.some.inj he
      exact Or.inl ⟨rfl, hlt⟩
    · rintro (⟨-, hlt⟩ | hlive)
      · exact ⟨e, Lease.lapse_of_lt hlt⟩
      · exact absurd hlive hnone
  · rw [if_neg hk, h later hle k']
    exact ⟨Or.inr, fun hor => hor.resolve_left fun hk' => hk hk'.1⟩

end Expiry
