import Mathlib.Data.List.Perm.Basic
import Uat.Base.StepRun

/-! # A pool of tasks around a shared state

    Tasks join a pool at any time, each moves in steps of its own that read and write the
    shared state, and the surroundings change the shared state between them.  Nothing
    leaves the pool: a task that is over stays, in the state it ended in.

    * **`Holds.step`** — rely and guarantee: what a member's own steps establish and the
      steps of all the others leave alone, holds of every member.
    * **`members_split`** — one member before and after its step, the others around it, for
      what is counted or collected over the whole pool.
    * **`log_perm`** — a shared log of what the members do holds what they have done. -/

namespace TaskPool

open StepRun

variable {G S A B C : Type*}

/-- The shared state and the members, in the order in which they joined. -/
structure Pool (G S : Type*) where
  shared : G
  members : List S

/-- A new member, a step of the member at an index, or a change from outside. -/
inductive Ev (A B C : Type*) where
  | spawn (b : B)
  | act (i : Nat) (a : A)
  | env (c : C)

/-- The machine of a pool.  A member knows its index. -/
structure Machine (G S A B C : Type*) where
  spawn : G → B → Option (G × S)
  act : Nat → G → S → A → Option (G × S)
  env : G → C → Option G

/-- One step of a pool. -/
def step (m : Machine G S A B C) (p : Pool G S) : Ev A B C → Option (Pool G S)
  | .spawn b => (m.spawn p.shared b).map fun r => ⟨r.1, p.members ++ [r.2]⟩
  | .act i a =>
      p.members[i]?.bind fun s => (m.act i p.shared s a).map fun r => ⟨r.1, p.members.set i r.2⟩
  | .env c => (m.env p.shared c).map fun g => ⟨g, p.members⟩

variable {m : Machine G S A B C} {p p' : Pool G S}

theorem step_spawn {b : B} (hs : step m p (.spawn b) = some p') :
    ∃ g s, m.spawn p.shared b = some (g, s) ∧ p' = ⟨g, p.members ++ [s]⟩ := by
  obtain ⟨⟨g, s⟩, hr, rfl⟩ := Option.map_eq_some_iff.mp hs
  exact ⟨g, s, hr, rfl⟩

theorem step_act {i : Nat} {a : A} (hs : step m p (.act i a) = some p') :
    ∃ s g s', p.members[i]? = some s ∧ m.act i p.shared s a = some (g, s') ∧
      p' = ⟨g, p.members.set i s'⟩ := by
  obtain ⟨s, hi, hs⟩ := Option.bind_eq_some_iff.mp hs
  obtain ⟨⟨g, s'⟩, hr, rfl⟩ := Option.map_eq_some_iff.mp hs
  exact ⟨s, g, s', hi, hr, rfl⟩

theorem step_env {c : C} (hs : step m p (.env c) = some p') :
    ∃ g, m.env p.shared c = some g ∧ p' = ⟨g, p.members⟩ := by
  obtain ⟨g, hr, rfl⟩ := Option.map_eq_some_iff.mp hs
  exact ⟨g, hr, rfl⟩

/-! ## Rely and guarantee -/

/-- `I` of the shared state, and `R` of every member, with the shared state in view. -/
structure Holds (I : G → Prop) (R : G → Nat → S → Prop) (p : Pool G S) : Prop where
  shared : I p.shared
  members : ∀ i s, p.members[i]? = some s → R p.shared i s

variable {I : G → Prop} {R : G → Nat → S → Prop}

/-- In an empty pool only the shared state has anything to keep. -/
theorem holds_empty {g : G} (h : I g) : Holds I R (⟨g, []⟩ : Pool G S) :=
  ⟨h, fun _ _ hi => (by cases hi)⟩

/-- A new member joins behind the others. -/
theorem Holds.spawn (h : Holds I R p) {g : G} {s : S} (hshared : I g)
    (hnew : ∀ n, R g n s) (hothers : ∀ n z, R p.shared n z → R g n z) :
    Holds I R ⟨g, p.members ++ [s]⟩ := by
  refine ⟨hshared, fun i z hi => ?_⟩
  rw [List.getElem?_append] at hi
  split at hi
  · exact hothers i z (h.members i z hi)
  · obtain rfl := List.mem_singleton.mp (List.mem_of_getElem? hi)
    exact hnew i

/-- One member moves, and the others see what it did to the shared state. -/
theorem Holds.act (h : Holds I R p) {i : Nat} {g : G} {s' : S} (hshared : I g)
    (hown : R g i s') (hothers : ∀ n z, n ≠ i → R p.shared n z → R g n z) :
    Holds I R ⟨g, p.members.set i s'⟩ := by
  refine ⟨hshared, fun n z hn => ?_⟩
  rw [List.getElem?_set] at hn
  split at hn
  · next heq =>
      subst heq
      split at hn
      · obtain rfl := Option.some.inj hn
        exact hown
      · cases hn
  · next hne => exact hothers n z (Ne.symm hne) (h.members n z hn)

/-- **RELY AND GUARANTEE.**  One obligation for each kind of event: it keeps `I`, it gives
    `R` to the member that joins or moves, and it takes `R` from no other. -/
theorem Holds.step {Q : Ev A B C → Prop}
    (hspawn : ∀ g b g' s, I g → Q (.spawn b) → m.spawn g b = some (g', s) →
      I g' ∧ (∀ n, R g' n s) ∧ ∀ n z, R g n z → R g' n z)
    (hact : ∀ g i s a g' s', I g → R g i s → Q (.act i a) → m.act i g s a = some (g', s') →
      I g' ∧ R g' i s' ∧ ∀ n z, n ≠ i → R g n z → R g' n z)
    (henv : ∀ g c g', I g → Q (.env c) → m.env g c = some g' →
      I g' ∧ ∀ n z, R g n z → R g' n z)
    {e : Ev A B C} (h : Holds I R p) (hQ : Q e) (hs : step m p e = some p') : Holds I R p' := by
  cases e with
  | spawn b =>
      obtain ⟨g, s, hr, rfl⟩ := step_spawn hs
      obtain ⟨hshared, hnew, hothers⟩ := hspawn _ _ _ _ h.shared hQ hr
      exact h.spawn hshared hnew hothers
  | act i a =>
      obtain ⟨s, g, s', hi, hr, rfl⟩ := step_act hs
      obtain ⟨hshared, hown, hothers⟩ := hact _ _ _ _ _ _ h.shared (h.members i s hi) hQ hr
      exact h.act hshared hown hothers
  | env c =>
      obtain ⟨g, hr, rfl⟩ := step_env hs
      obtain ⟨hshared, hothers⟩ := henv _ _ _ h.shared hQ hr
      exact ⟨hshared, fun i z hi => hothers i z (h.members i z hi)⟩

/-! ## One member among the others -/

/-- The others stand where they stood. -/
theorem members_split {l : List S} {i : Nat} {s : S} (h : l[i]? = some s) (s' : S) :
    ∃ before after, l = before ++ s :: after ∧ l.set i s' = before ++ s' :: after := by
  obtain ⟨hlt, rfl⟩ := List.getElem?_eq_some_iff.mp h
  refine ⟨l.take i, l.drop (i + 1), ?_, ?_⟩
  · rw [← List.drop_eq_getElem_cons hlt, List.take_append_drop]
  · rw [List.set_eq_take_append_cons_drop, if_pos hlt]

/-- What a member's step adds to what it has collected is added to what all have. -/
theorem flatMap_set_perm {α : Type*} {l : List S} {i : Nat} {s s' : S} {f : S → List α}
    {new : List α} (h : l[i]? = some s) (hnew : f s' = f s ++ new) :
    ((l.set i s').flatMap f).Perm (l.flatMap f ++ new) := by
  obtain ⟨before, after, hl, hset⟩ := members_split h s'
  rw [hset, hl, List.flatMap_append, List.flatMap_append, List.flatMap_cons, List.flatMap_cons,
    hnew]
  simp only [List.append_assoc]
  refine List.Perm.append_left _ (List.Perm.append_left _ ?_)
  exact List.perm_append_comm

/-- The other way round: what a member's step takes away is gone from what all have. -/
theorem flatMap_unset_perm {α : Type*} {l : List S} {i : Nat} {s s' : S} {f : S → List α}
    {gone : List α} (h : l[i]? = some s) (hgone : f s = f s' ++ gone) :
    (l.flatMap f).Perm ((l.set i s').flatMap f ++ gone) := by
  have hlt := (List.getElem?_eq_some_iff.mp h).1
  have hset : (l.set i s')[i]? = some s' := List.getElem?_set_self hlt
  have hback : (l.set i s').set i s = l := by
    rw [List.set_set]
    obtain ⟨_, rfl⟩ := List.getElem?_eq_some_iff.mp h
    exact List.set_getElem_self hlt
  have hperm := flatMap_set_perm hset hgone
  rwa [hback] at hperm

/-- **COLLECTED.**  Where each event adds to a shared log what it adds to the member it is
    about, the log holds what the members hold, in some order. -/
theorem log_perm {α : Type*} (log : G → List α) (f : S → List α)
    (hspawn : ∀ g b g' s, m.spawn g b = some (g', s) → log g' = log g ++ f s)
    (hact : ∀ i g s a g' s', m.act i g s a = some (g', s') →
      ∃ new, log g' = log g ++ new ∧ f s' = f s ++ new)
    (henv : ∀ g c g', m.env g c = some g' → log g' = log g) {es : List (Ev A B C)}
    (h : (log p.shared).Perm (p.members.flatMap f))
    (hrun : runFrom (TaskPool.step m) p es = some p') :
    (log p'.shared).Perm (p'.members.flatMap f) := by
  refine run_invariant (fun p => (log p.shared).Perm (p.members.flatMap f)) ?_ es p p' h hrun
  intro p e p' hp hs
  cases e with
  | spawn b =>
      obtain ⟨g, s, hr, rfl⟩ := step_spawn hs
      show (log g).Perm ((p.members ++ [s]).flatMap f)
      rw [hspawn _ _ _ _ hr, List.flatMap_append, List.flatMap_singleton]
      exact hp.append_right (f s)
  | act i a =>
      obtain ⟨s, g, s', hi, hr, rfl⟩ := step_act hs
      obtain ⟨new, hlog, hnew⟩ := hact _ _ _ _ _ _ hr
      show (log g).Perm ((p.members.set i s').flatMap f)
      rw [hlog]
      exact (hp.append_right new).trans (flatMap_set_perm hi hnew).symm
  | env c =>
      obtain ⟨g, hr, rfl⟩ := step_env hs
      show (log g).Perm (p.members.flatMap f)
      rw [henv _ _ _ hr]
      exact hp

end TaskPool
