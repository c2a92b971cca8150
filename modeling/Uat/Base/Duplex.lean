import Uat.Base.StepRun

/-! # Two communicating state machines over FIFO queues

    A `Party` is a partial step function over four kinds of action: it sends a
    message, receives one, times out, or learns that the connection is gone.  An
    accepted action may also emit one message.  `Net` is two parties and the two
    unbounded queues between them; an event says which side moves, and a receive
    event takes the oldest message of that side's incoming queue.

    Two networks share this state.  `step` is lossless.  `lossyStep` adds events
    that delete one message anywhere in a queue, at any moment, so every way in
    which a dying connection can lose what is in flight is one of its runs. -/

namespace Duplex

open StepRun

/-- What can happen at one party. -/
inductive Act (M C : Type*) where
  | send (m : M)
  | recv (m : M)
  | timeout
  | connLost (c : C)

/-- A party: the accepted actions, with the next state and the emitted message. -/
structure Party (S M C : Type*) where
  step : S → Act M C → Option (S × Option M)

/-- What an accepted action puts on the outgoing queue: the message whose send was
    accepted, then the emitted one. -/
def puts {M C : Type*} : Act M C → Option M → List M
  | .send m, out => m :: out.toList
  | _, out => out.toList

/-- Two parties and the queues between them, oldest message first.  `sentRight` and
    `sentLeft` are history: everything each side has put on its queue so far. -/
structure Net (L R M : Type*) where
  left : L
  right : R
  toRight : List M
  toLeft : List M
  sentRight : List M
  sentLeft : List M
  deriving DecidableEq

/-- A local event of one side; `recv` takes the next message of its incoming queue. -/
inductive Local (M C : Type*) where
  | send (m : M)
  | recv
  | timeout
  | connLost (c : C)

/-- An event of the lossless network: which side moves, and how. -/
inductive Ev (M C : Type*) where
  | left (e : Local M C)
  | right (e : Local M C)

/-- An event of the lossy network: an event of the lossless one, or the loss of the
    message at one position of a queue. -/
inductive LossyEv (M C : Type*) where
  | ev (e : Ev M C)
  | loseToRight (i : Nat)
  | loseToLeft (i : Nat)

variable {L R M C : Type*}

/-- The action of a local event, with what it leaves of the incoming queue. -/
def Local.act : Local M C → List M → Option (Act M C × List M)
  | .send m, q => some (.send m, q)
  | .recv, m :: q => some (.recv m, q)
  | .recv, [] => none
  | .timeout, q => some (.timeout, q)
  | .connLost c, q => some (.connLost c, q)

/-- One step of the lossless network. -/
def step (p : Party L M C) (r : Party R M C) (n : Net L R M) : Ev M C → Option (Net L R M)
  | .left e =>
      (e.act n.toLeft).bind fun (a, rest) =>
        (p.step n.left a).map fun (s, out) =>
          { n with left := s, toLeft := rest, toRight := n.toRight ++ puts a out,
                   sentRight := n.sentRight ++ puts a out }
  | .right e =>
      (e.act n.toRight).bind fun (a, rest) =>
        (r.step n.right a).map fun (s, out) =>
          { n with right := s, toRight := rest, toLeft := n.toLeft ++ puts a out,
                   sentLeft := n.sentLeft ++ puts a out }

/-- One step of the lossy network. -/
def lossyStep (p : Party L M C) (r : Party R M C) (n : Net L R M) :
    LossyEv M C → Option (Net L R M)
  | .ev e => step p r n e
  | .loseToRight i => some { n with toRight := n.toRight.eraseIdx i }
  | .loseToLeft i => some { n with toLeft := n.toLeft.eraseIdx i }

/-- **Step inversion, left.** An event of the left side is an accepted action. -/
theorem step_left {p : Party L M C} {r : Party R M C} {n n' : Net L R M} {e : Local M C} :
    step p r n (.left e) = some n' ↔
      ∃ a rest s out, e.act n.toLeft = some (a, rest) ∧ p.step n.left a = some (s, out) ∧
        n' = { n with left := s, toLeft := rest, toRight := n.toRight ++ puts a out,
                      sentRight := n.sentRight ++ puts a out } := by
  constructor
  · intro h
    simp only [step, Option.bind_eq_some_iff, Option.map_eq_some_iff, Prod.exists] at h
    obtain ⟨a, rest, ha, s, out, hs, rfl⟩ := h
    exact ⟨a, rest, s, out, ha, hs, rfl⟩
  · rintro ⟨a, rest, s, out, ha, hs, rfl⟩
    simp [step, ha, hs]

/-- **Step inversion, right.** An event of the right side is an accepted action. -/
theorem step_right {p : Party L M C} {r : Party R M C} {n n' : Net L R M} {e : Local M C} :
    step p r n (.right e) = some n' ↔
      ∃ a rest s out, e.act n.toRight = some (a, rest) ∧ r.step n.right a = some (s, out) ∧
        n' = { n with right := s, toRight := rest, toLeft := n.toLeft ++ puts a out,
                      sentLeft := n.sentLeft ++ puts a out } := by
  constructor
  · intro h
    simp only [step, Option.bind_eq_some_iff, Option.map_eq_some_iff, Prod.exists] at h
    obtain ⟨a, rest, ha, s, out, hs, rfl⟩ := h
    exact ⟨a, rest, s, out, ha, hs, rfl⟩
  · rintro ⟨a, rest, s, out, ha, hs, rfl⟩
    simp [step, ha, hs]

/-- The four shapes of a local event's action. -/
theorem act_cases {e : Local M C} {q rest : List M} {a : Act M C}
    (h : e.act q = some (a, rest)) :
    (∃ m, a = .send m ∧ rest = q) ∨ (∃ m, a = .recv m ∧ q = m :: rest) ∨
    (a = .timeout ∧ rest = q) ∨ (∃ c, a = .connLost c ∧ rest = q) := by
  cases e with
  | send m =>
      obtain ⟨rfl, rfl⟩ := Prod.mk.inj (Option.some.inj h)
      exact Or.inl ⟨m, rfl, rfl⟩
  | recv =>
      cases q with
      | nil => exact nomatch h
      | cons m q =>
          obtain ⟨rfl, rfl⟩ := Prod.mk.inj (Option.some.inj h)
          exact Or.inr (Or.inl ⟨m, rfl, rfl⟩)
  | timeout =>
      obtain ⟨rfl, rfl⟩ := Prod.mk.inj (Option.some.inj h)
      exact Or.inr (Or.inr (Or.inl ⟨rfl, rfl⟩))
  | connLost c =>
      obtain ⟨rfl, rfl⟩ := Prod.mk.inj (Option.some.inj h)
      exact Or.inr (Or.inr (Or.inr ⟨c, rfl, rfl⟩))

/-- A local event only takes messages off the incoming queue. -/
theorem act_rest_subset {e : Local M C} {q rest : List M} {a : Act M C}
    (h : e.act q = some (a, rest)) : rest ⊆ q := by
  rcases act_cases h with ⟨m, -, rfl⟩ | ⟨m, -, rfl⟩ | ⟨-, rfl⟩ | ⟨c, -, rfl⟩
  · exact List.Subset.refl _
  · exact List.subset_cons_self _ _
  · exact List.Subset.refl _
  · exact List.Subset.refl _

/-- **Lossy invariant rule.** An invariant of the actions of both sides that does not
    mind a lost message holds in every state of every lossy run. -/
theorem lossy_invariant {p : Party L M C} {r : Party R M C} (Inv : Net L R M → Prop)
    (hstep : ∀ n e n', Inv n → step p r n e = some n' → Inv n')
    (hright : ∀ n i, Inv n → Inv { n with toRight := n.toRight.eraseIdx i })
    (hleft : ∀ n i, Inv n → Inv { n with toLeft := n.toLeft.eraseIdx i })
    {es : List (LossyEv M C)} {n n' : Net L R M} (hn : Inv n)
    (hr : runFrom (lossyStep p r) n es = some n') : Inv n' := by
  refine run_invariant _ ?_ es n n' hn hr
  intro n e n' hn he
  cases e with
  | ev e => exact hstep n e n' hn he
  | loseToRight i =>
      obtain rfl := Option.some.inj he
      exact hright n i hn
  | loseToLeft i =>
      obtain rfl := Option.some.inj he
      exact hleft n i hn

/-- What the side with step function `f` becomes by receiving a whole queue and doing
    nothing else; a state satisfying `halted` takes no further message.  Undefined as
    soon as one message is refused. -/
def drain {S : Type*} (halted : S → Bool) (f : S → M → Option S) : S → List M → Option S
  | s, [] => some s
  | s, m :: q => if halted s then some s else (f s m).bind fun s' => drain halted f s' q

section Drain

variable {S : Type*} {halted : S → Bool} {f : S → M → Option S}

theorem drain_halted {s : S} (h : halted s = true) (q : List M) :
    drain halted f s q = some s := by
  cases q with
  | nil => rfl
  | cons m q => rw [drain, if_pos h]

theorem drain_cons {s : S} (h : halted s = false) (m : M) (q : List M) :
    drain halted f s (m :: q) = (f s m).bind fun s' => drain halted f s' q := by
  rw [drain, if_neg (by rw [h]; exact Bool.false_ne_true)]

/-- Draining two queues one after the other. -/
theorem drain_append {s t : S} {q : List M} (q' : List M) (h : drain halted f s q = some t) :
    drain halted f s (q ++ q') = drain halted f t q' := by
  induction q generalizing s with
  | nil =>
      obtain rfl := Option.some.inj h
      rfl
  | cons m q ih =>
      cases hs : halted s with
      | true =>
          rw [drain_halted hs] at h
          obtain rfl := Option.some.inj h
          rw [drain_halted hs, drain_halted hs]
      | false =>
          rw [drain_cons hs, Option.bind_eq_some_iff] at h
          obtain ⟨s', hf, hd⟩ := h
          rw [List.cons_append, drain_cons hs, hf, Option.bind_some]
          exact ih hd

/-- What one accepted message preserves, a drained queue preserves. -/
theorem drain_invariant {P : S → Prop} (hP : ∀ s m s', P s → f s m = some s' → P s') {s t : S}
    {q : List M} (hs : P s) (h : drain halted f s q = some t) : P t := by
  induction q generalizing s with
  | nil =>
      obtain rfl := Option.some.inj h
      exact hs
  | cons m q ih =>
      cases hh : halted s with
      | true =>
          rw [drain_halted hh] at h
          obtain rfl := Option.some.inj h
          exact hs
      | false =>
          rw [drain_cons hh, Option.bind_eq_some_iff] at h
          obtain ⟨s', hf, hd⟩ := h
          exact ih (hP s m s' hs hf) hd

/-- A state that drains a nonempty queue accepts its first message. -/
theorem drain_head {s t : S} {m : M} {q : List M} (hs : halted s = false)
    (h : drain halted f s (m :: q) = some t) :
    ∃ s', f s m = some s' ∧ drain halted f s' q = some t := by
  rw [drain_cons hs] at h
  exact Option.bind_eq_some_iff.mp h

end Drain

end Duplex
