import Mathlib.Algebra.Order.Group.Int
import Mathlib.Algebra.Order.Group.Basic
import Uat.Base.StepRun

/-! # Sliding windows over a history of clock readings

    A reading is recent when it is less than a `width` before now.  Two facts carry a
    sliding-window counter: in a sorted history, dropping what is old from the front
    drops all that is old (`dropWhile_old`), and if every reading found fewer than `n`
    recent ones before it, no window of that width ever holds more than `n`
    (`countP_window_le`). -/

namespace Window

open StepRun

variable {T : Type*} [AddCommGroup T] [LinearOrder T]

/-- `t` is strictly less than `width` before `now`. -/
def recent (width now t : T) : Bool := decide (now - t < width)

/-- Recent is less than a window ago. -/
theorem recent_iff {width now t : T} : recent width now t = true ↔ now - t < width :=
  decide_eq_true_iff

/-- Not recent is a full window ago. -/
theorem not_recent_iff {width now t : T} : recent width now t = false ↔ width ≤ now - t := by
  rw [recent, decide_eq_false_iff_not, not_lt]

variable [IsOrderedAddMonoid T]

/-- What is old stays old. -/
theorem not_recent_mono {width now now' t : T} (hle : now ≤ now')
    (h : recent width now t = false) : recent width now' t = false := by
  rw [not_recent_iff] at h ⊢
  exact h.trans (sub_le_sub_right hle t)

/-- In a sorted history, what is dropped from the front as old is all that is old. -/
theorem dropWhile_old (width now : T) {ts : List T} (hsorted : ts.Pairwise (· ≤ ·)) :
    (ts.dropWhile fun t => !recent width now t) = ts.filter (recent width now) := by
  induction ts with
  | nil => rfl
  | cons t ts ih =>
      obtain ⟨hfirst, hrest⟩ := List.pairwise_cons.mp hsorted
      by_cases ht : recent width now t = true
      · -- the first is recent, so all those after it are
        have hall : ∀ t' ∈ t :: ts, recent width now t' = true := by
          intro t' ht'
          rcases List.mem_cons.mp ht' with rfl | ht'
          · exact ht
          · rw [recent_iff] at ht ⊢
            exact (sub_le_sub_left (hfirst t' ht') now).trans_lt ht
        rw [List.filter_eq_self.mpr hall, List.dropWhile_cons_of_neg (by simp [ht])]
      · rw [List.filter_cons_of_neg ht, List.dropWhile_cons_of_pos (by simpa using ht)]
        exact ih hrest

/-- The half-open window of the given width that starts at `lo`. -/
def inWindow (width lo t : T) : Bool := decide (lo ≤ t) && decide (t < lo + width)

/-- **Window bound.** Where each reading found fewer than `n` recent ones before it, no
    window holds more than `n`. -/
theorem countP_window_le {width : T} {n : Nat} {ts : List T}
    (h : Always (fun before t => before.countP (recent width t) < n) ts) (lo : T) :
    ts.countP (inWindow width lo) ≤ n := by
  induction ts using List.reverseRecOn with
  | nil => exact Nat.zero_le n
  | append_singleton ts t ih =>
      obtain ⟨hall, hlast⟩ := always_snoc.mp h
      rw [List.countP_append, List.countP_singleton]
      split
      · next hin =>
          -- what is in the window of the last reading is recent when it is made
          have hle : ts.countP (inWindow width lo) ≤ ts.countP (recent width t) := by
            refine List.countP_mono_left fun t' _ ht' => ?_
            rw [inWindow, Bool.and_eq_true, decide_eq_true_eq, decide_eq_true_eq] at hin ht'
            rw [recent_iff, sub_lt_iff_lt_add']
            exact hin.2.trans_le (add_le_add_left ht'.1 width)
          exact hle.trans_lt hlast
      · exact ih hall

end Window
