import Mathlib.Algebra.Order.Ring.Int
import Mathlib.Data.List.Basic

/-! # Computations that may fail or panic

    `Exec ε α` is a computation that returns a value, returns an error of type `ε`, or
    panics.  A panic is not an error of the program: it is kept apart so that "never
    panics" can be stated.  Indexing and slicing panic out of bounds, as they do in a
    memory-safe language; the lemmas below say when they do not. -/

namespace Checked

universe u v

/-- How a computation can end without a value. -/
inductive Fault (ε : Type u) where
  | err (e : ε)
  | panic
  deriving DecidableEq, Repr

/-- What a computation gives that may fail with an error of the code, or panic. -/
abbrev Exec (ε : Type u) (α : Type v) := Except (Fault ε) α

variable {ε : Type u} {α β : Type v}

/-- End with an error of the code. -/
def fail (e : ε) : Exec ε α := .error (.err e)

/-- End in a panic. -/
def panicked : Exec ε α := .error .panic

/-- Did the computation end in a panic? -/
def Panics (x : Exec ε α) : Prop := x = .error .panic

@[simp] theorem fail_ne_ok (e : ε) (a : α) : ¬ (fail e : Exec ε α) = .ok a := nofun

@[simp] theorem pure_ok_iff (a b : α) : (pure a : Exec ε α) = .ok b ↔ a = b :=
  ⟨fun h => Except.ok.inj h, fun h => congrArg Except.ok h⟩

/-- A sequence succeeds exactly when both of its parts do. -/
@[simp] theorem bind_ok_iff {x : Exec ε α} {f : α → Exec ε β} {b : β} :
    (x >>= f) = .ok b ↔ ∃ a, x = .ok a ∧ f a = .ok b := by
  cases x with
  | error e => exact ⟨nofun, fun ⟨_, h, _⟩ => nomatch h⟩
  | ok a =>
      constructor
      · intro h
        exact ⟨a, rfl, h⟩
      · rintro ⟨a', h, hf⟩
        obtain rfl := Except.ok.inj h
        exact hf

/-- Change the type of the errors. -/
def mapErr {δ : Type u} (f : ε → δ) : Exec ε α → Exec δ α
  | .ok a => .ok a
  | .error (.err e) => fail (f e)
  | .error .panic => panicked

/-- `map_err` leaves success alone. -/
@[simp] theorem mapErr_ok_iff {δ : Type u} {f : ε → δ} {x : Exec ε α} {a : α} :
    mapErr f x = .ok a ↔ x = .ok a := by
  match x with
  | .ok b => exact ⟨fun h => congrArg _ (Except.ok.inj h), fun h => congrArg _ (Except.ok.inj h)⟩
  | .error (.err e) => exact ⟨nofun, nofun⟩
  | .error .panic => exact ⟨nofun, nofun⟩

/-- A guard that fails with `e` unless its test is false. -/
@[simp] theorem ite_fail_ok_iff {p : Prop} [Decidable p] {e : ε} {x : Exec ε α} {a : α} :
    (if p then fail e else x) = .ok a ↔ ¬ p ∧ x = .ok a := by
  by_cases hp : p
  · simp [hp]
  · simp [hp]

/-- A guard that fails with `e` unless its test is true. -/
@[simp] theorem ite_ok_fail_iff {p : Prop} [Decidable p] {e : ε} {x : Exec ε α} {a : α} :
    (if p then x else fail e) = .ok a ↔ p ∧ x = .ok a := by
  by_cases hp : p
  · simp [hp]
  · simp [hp]

/-- A loop over a list succeeds exactly when its body does on every element. -/
theorem forM_ok_iff {body : α → Exec ε PUnit} {l : List α} :
    l.forM body = .ok ⟨⟩ ↔ ∀ a ∈ l, body a = .ok ⟨⟩ := by
  induction l with
  | nil =>
      constructor
      · intro _ a ha
        exact absurd ha List.not_mem_nil
      · intro _
        rfl
  | cons a l ih =>
      show (body a >>= fun _ => l.forM body) = _ ↔ _
      rw [bind_ok_iff, List.forall_mem_cons]
      constructor
      · rintro ⟨_, ha, hl⟩
        exact ⟨ha, ih.mp hl⟩
      · rintro ⟨ha, hl⟩
        exact ⟨⟨⟩, ha, ih.mpr hl⟩

/-! ## When a computation panics -/

theorem not_panics_ok (a : α) : ¬ Panics (.ok a : Exec ε α) := nofun

theorem not_panics_fail (e : ε) : ¬ Panics (fail e : Exec ε α) := nofun

/-- A sequence panics in its first part, or in what follows its value. -/
theorem panics_bind_iff {x : Exec ε α} {f : α → Exec ε β} :
    Panics (x >>= f) ↔ Panics x ∨ ∃ a, x = .ok a ∧ Panics (f a) := by
  match x with
  | .ok a =>
      constructor
      · intro h
        exact Or.inr ⟨a, rfl, h⟩
      · rintro (h | ⟨a', h, hf⟩)
        · exact nomatch h
        · obtain rfl := Except.ok.inj h
          exact hf
  | .error (.err e) =>
      constructor
      · intro h
        exact nomatch Except.error.inj h
      · rintro (h | ⟨_, h, -⟩)
        · exact nomatch Except.error.inj h
        · exact nomatch h
  | .error .panic => exact ⟨fun _ => Or.inl rfl, fun _ => rfl⟩

/-- A guard panics where it lets through what panics. -/
theorem panics_ite_fail_iff {p : Prop} [Decidable p] {e : ε} {x : Exec ε α} :
    Panics (if p then fail e else x) ↔ ¬ p ∧ Panics x := by
  by_cases hp : p
  · rw [if_pos hp]
    exact ⟨fun h => (nomatch Except.error.inj h), fun h => absurd hp h.1⟩
  · rw [if_neg hp]
    exact ⟨fun h => ⟨hp, h⟩, fun h => h.2⟩

/-- A loop whose body never panics does not. -/
theorem not_panics_forM {body : α → Exec ε PUnit} {l : List α} (h : ∀ a, ¬ Panics (body a)) :
    ¬ Panics (l.forM body) := by
  induction l with
  | nil => exact not_panics_ok _
  | cons a l ih =>
      show ¬ Panics (body a >>= fun _ => l.forM body)
      rw [panics_bind_iff]
      rintro (ha | ⟨_, -, hl⟩)
      · exact h a ha
      · exact ih hl

/-- A loop with a state panics at the first element it does not get past. -/
theorem panics_foldlM_iff {body : β → α → Exec ε β} {l : List α} :
    ∀ {b : β}, Panics (l.foldlM body b) ↔
      ∃ before a after b', l = before ++ a :: after ∧ before.foldlM body b = .ok b' ∧
        Panics (body b' a) := by
  induction l with
  | nil =>
      intro b
      constructor
      · intro h
        exact absurd h (not_panics_ok b)
      · rintro ⟨before, a, after, b', hl, -, -⟩
        exact absurd hl.symm (List.append_ne_nil_of_right_ne_nil _ (List.cons_ne_nil _ _))
  | cons a l ih =>
      intro b
      rw [List.foldlM_cons, panics_bind_iff]
      constructor
      · rintro (ha | ⟨b', hb', hl⟩)
        · exact ⟨[], a, l, b, rfl, rfl, ha⟩
        · obtain ⟨before, a', after, b'', rfl, hbefore, hpanics⟩ := ih.mp hl
          refine ⟨a :: before, a', after, b'', rfl, ?_, hpanics⟩
          rw [List.foldlM_cons, bind_ok_iff]
          exact ⟨b', hb', hbefore⟩
      · rintro ⟨before, a', after, b'', hl, hbefore, hpanics⟩
        cases before with
        | nil =>
            obtain ⟨rfl, rfl⟩ := List.cons.inj hl
            obtain rfl := Except.ok.inj hbefore
            exact Or.inl hpanics
        | cons a₀ before =>
            obtain ⟨rfl, rfl⟩ := List.cons.inj hl
            rw [List.foldlM_cons, bind_ok_iff] at hbefore
            obtain ⟨b', hb', hbefore⟩ := hbefore
            exact Or.inr ⟨b', hb', ih.mpr ⟨before, a', after, b'', rfl, hbefore, hpanics⟩⟩

/-- `l[i]`. -/
def index (l : List α) (i : Nat) : Exec ε α :=
  match l[i]? with
  | some a => .ok a
  | none => panicked

/-- `&l[i..j]`. -/
def slice (l : List α) (i j : Nat) : Exec ε (List α) :=
  if i ≤ j ∧ j ≤ l.length then .ok ((l.drop i).take (j - i)) else panicked

/-- `&l[i..]`. -/
def sliceFrom (l : List α) (i : Nat) : Exec ε (List α) :=
  if i ≤ l.length then .ok (l.drop i) else panicked

/-- A slice within bounds. -/
theorem slice_of_le {l : List α} {i j : Nat} (hij : i ≤ j) (hj : j ≤ l.length) :
    (slice l i j : Exec ε (List α)) = .ok ((l.drop i).take (j - i)) :=
  if_pos ⟨hij, hj⟩

/-- A suffix within bounds. -/
theorem sliceFrom_of_le {l : List α} {i : Nat} (h : i ≤ l.length) :
    (sliceFrom l i : Exec ε (List α)) = .ok (l.drop i) :=
  if_pos h

end Checked
