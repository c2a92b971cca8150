import Mathlib.Algebra.Order.Ring.Int
import Mathlib.Data.List.Basic
import Mathlib.Data.List.Induction

/-! # Runs of an event-driven step function

    A system is a partial step function `S → E → Option S`: an event that is not
    enabled has no successor.  An interleaving is a list of events, and `runFrom`
    replays it.  The rules of this file are the inductions over runs a development needs:
    `run_invariant` for what every step preserves, `run_invariant_of` for what the steps
    that meet a side condition preserve, `run_exact` for a side condition that is also
    necessary, `simulates` for two systems that answer the same events alike, and
    `forward_simulation` for a system that implements another. -/

namespace StepRun

variable {S E : Type*}

/-- Replay a list of events; the run is undefined as soon as one event is not enabled. -/
def runFrom (step : S → E → Option S) : S → List E → Option S
  | s, [] => some s
  | s, e :: es => (step s e).bind fun s' => runFrom step s' es

/-- A nonempty run is one step followed by a run. -/
theorem runFrom_cons {step : S → E → Option S} {s t : S} {e : E} {es : List E} :
    runFrom step s (e :: es) = some t ↔
      ∃ s', step s e = some s' ∧ runFrom step s' es = some t := by
  simp only [runFrom, Option.bind_eq_some_iff]

/-- **Invariant rule.** What every step preserves, every run preserves. -/
theorem run_invariant {step : S → E → Option S} (Inv : S → Prop)
    (hstep : ∀ s e s', Inv s → step s e = some s' → Inv s') :
    ∀ (es : List E) (s t : S), Inv s → runFrom step s es = some t → Inv t := by
  intro es
  induction es with
  | nil =>
      intro s t hs hr
      obtain rfl := Option.some.inj hr
      exact hs
  | cons e es ih =>
      intro s t hs hr
      obtain ⟨s', he, hr'⟩ := runFrom_cons.mp hr
      exact ih s' t (hstep s e s' hs he) hr'

/-- Every step of the run is taken from a state in which the event meets `C`. -/
def EveryStep (step : S → E → Option S) (C : S → E → Prop) : S → List E → Prop
  | _, [] => True
  | s, e :: es => C s e ∧ ∀ s', step s e = some s' → EveryStep step C s' es

/-- A condition on every step, one step longer. -/
theorem EveryStep.cons {step : S → E → Option S} {C : S → E → Prop} {s s' : S} {e : E}
    {es : List E} (hC : C s e) (hs : step s e = some s') (h : EveryStep step C s' es) :
    EveryStep step C s (e :: es) := by
  refine ⟨hC, fun t ht => ?_⟩
  obtain rfl := Option.some.inj (hs.symm.trans ht)
  exact h

/-- A run on a concrete input can be checked. -/
instance decidableEveryStep {step : S → E → Option S} {C : S → E → Prop}
    [∀ s e, Decidable (C s e)] : ∀ (s : S) (es : List E), Decidable (EveryStep step C s es)
  | _, [] => .isTrue trivial
  | s, e :: es =>
      match hs : step s e with
      | none => decidable_of_iff (C s e) ⟨fun h => ⟨h, fun s' hs' => by
          rw [hs] at hs'
          cases hs'⟩, fun h => h.1⟩
      | some s' =>
          have : Decidable (EveryStep step C s' es) := decidableEveryStep s' es
          decidable_of_iff (C s e ∧ EveryStep step C s' es)
            ⟨fun h => .cons h.1 hs h.2, fun h => ⟨h.1, h.2 s' hs⟩⟩

/-- A condition on the events alone. -/
theorem everyStep_of_forall {step : S → E → Option S} {Q : E → Prop} :
    ∀ {es : List E} {s : S}, (∀ e ∈ es, Q e) → EveryStep step (fun _ e => Q e) s es := by
  intro es
  induction es with
  | nil => exact fun _ => trivial
  | cons e es ih =>
      intro s hQ
      obtain ⟨hQe, hQes⟩ := List.forall_mem_cons.mp hQ
      exact ⟨hQe, fun _ _ => ih hQes⟩

/-- Two conditions on every step are one. -/
theorem EveryStep.and {step : S → E → Option S} {C D : S → E → Prop} :
    ∀ {es : List E} {s : S}, EveryStep step C s es → EveryStep step D s es →
      EveryStep step (fun s e => C s e ∧ D s e) s es := by
  intro es
  induction es with
  | nil => exact fun _ _ => trivial
  | cons e es ih =>
      intro s hC hD
      exact ⟨⟨hC.1, hD.1⟩, fun s' hs => ih (hC.2 s' hs) (hD.2 s' hs)⟩

/-- One step more, taken from where the run ended. -/
theorem EveryStep.snoc {step : S → E → Option S} {C : S → E → Prop} {t : S} {e : E} :
    ∀ {es : List E} {s : S}, EveryStep step C s es → runFrom step s es = some t → C t e →
      EveryStep step C s (es ++ [e]) := by
  intro es
  induction es with
  | nil =>
      intro s _ hrun hC
      obtain rfl := Option.some.inj hrun
      exact ⟨hC, fun _ _ => trivial⟩
  | cons e' es ih =>
      intro s h hrun hC
      obtain ⟨s', he, hrun'⟩ := runFrom_cons.mp hrun
      exact .cons h.1 he (ih (h.2 s' he) hrun' hC)

/-- The condition, step by step, of the run as a whole. -/
theorem everyStep_iff {step : S → E → Option S} {C : S → E → Prop} {es : List E} :
    ∀ {s : S}, EveryStep step C s es ↔
      ∀ before e after t, es = before ++ e :: after → runFrom step s before = some t → C t e := by
  -- Induction on the run; its first event is the one after no event.
  induction es with
  | nil =>
      intro s
      refine ⟨fun _ before e after t hes => ?_, fun _ => trivial⟩
      exact absurd hes.symm (List.append_ne_nil_of_right_ne_nil _ (List.cons_ne_nil _ _))
  | cons e₀ es ih =>
      intro s
      constructor
      · rintro ⟨hfirst, hrest⟩ before e after t hes hrun
        cases before with
        | nil =>
            obtain rfl := Option.some.inj hrun
            obtain rfl := List.head_eq_of_cons_eq hes
            exact hfirst
        | cons e₁ before =>
            obtain ⟨rfl, hes'⟩ := List.cons.inj hes
            obtain ⟨s', hs', hrun'⟩ := runFrom_cons.mp hrun
            exact ih.mp (hrest s' hs') before e after t hes' hrun'
      · intro h
        refine ⟨h [] e₀ es s rfl rfl, fun s' hs' => ih.mpr ?_⟩
        intro before e after t hes hrun
        exact h (e₀ :: before) e after t (by rw [hes, List.cons_append])
          (runFrom_cons.mpr ⟨s', hs', hrun⟩)

/-- **Guarded invariant rule.** What the steps that meet `C` preserve, every run all of
    whose steps meet `C` preserves. -/
theorem run_invariant_of {step : S → E → Option S} {C : S → E → Prop} {Inv : S → Prop}
    (hstep : ∀ s e s', Inv s → C s e → step s e = some s' → Inv s') :
    ∀ (es : List E) (s t : S), Inv s → EveryStep step C s es →
      runFrom step s es = some t → Inv t := by
  intro es
  induction es with
  | nil =>
      intro s t hs _ hr
      obtain rfl := Option.some.inj hr
      exact hs
  | cons e es ih =>
      intro s t hs hC hr
      obtain ⟨s', he, hr'⟩ := runFrom_cons.mp hr
      exact ih s' t (hstep s e s' hs hC.1 he) (hC.2 s' he) hr'

/-- **Measure rule.** Where every step that meets `C` lowers a measure, the measure pays for
    the run. -/
theorem run_length_le {step : S → E → Option S} {C : S → E → Prop} {Inv : S → Prop}
    {measure : S → Nat} (hstep : ∀ s e s', Inv s → C s e → step s e = some s' →
      Inv s' ∧ measure s' < measure s) :
    ∀ (es : List E) (s t : S), Inv s → EveryStep step C s es → runFrom step s es = some t →
      es.length + measure t ≤ measure s := by
  intro es
  induction es with
  | nil =>
      intro s t _ _ hrun
      obtain rfl := Option.some.inj hrun
      exact (Nat.zero_add _).le
  | cons e es ih =>
      intro s t hs hC hrun
      obtain ⟨s', he, hrun'⟩ := runFrom_cons.mp hrun
      obtain ⟨hs', hlt⟩ := hstep s e s' hs hC.1 he
      have := ih s' t hs' (hC.2 s' he) hrun'
      rw [List.length_cons]
      omega

/-- The measure rule where only some events make progress and the others cost nothing. -/
theorem run_progress_le {step : S → E → Option S} {C : S → E → Prop} (Inv : S → Prop)
    {measure : S → Nat} {progress : E → Bool}
    (hstep : ∀ s e s', Inv s → C s e → step s e = some s' →
      Inv s' ∧ measure s' + (if progress e = true then 1 else 0) ≤ measure s) :
    ∀ (es : List E) (s t : S), Inv s → EveryStep step C s es → runFrom step s es = some t →
      es.countP progress + measure t ≤ measure s := by
  intro es
  induction es with
  | nil =>
      intro s t _ _ hrun
      obtain rfl := Option.some.inj hrun
      exact (Nat.zero_add _).le
  | cons e es ih =>
      intro s t hs hC hrun
      obtain ⟨s', he, hrun'⟩ := runFrom_cons.mp hrun
      obtain ⟨hs', hle⟩ := hstep s e s' hs hC.1 he
      have := ih s' t hs' (hC.2 s' he) hrun'
      rw [List.countP_cons]
      omega

/-- **Progress rule.** Where a state that is not done has a step that meets `C` and lowers a
    measure, a run of such steps leads to one that is done. -/
theorem exists_run_to {step : S → E → Option S} {C : S → E → Prop} {Inv done : S → Prop}
    {measure : S → Nat}
    (hstep : ∀ s, Inv s → ¬ done s →
      ∃ e s', C s e ∧ step s e = some s' ∧ Inv s' ∧ measure s' < measure s) :
    ∀ (n : Nat) (s : S), measure s ≤ n → Inv s →
      ∃ es t, EveryStep step C s es ∧ runFrom step s es = some t ∧ Inv t ∧ done t := by
  intro n
  -- Induction on what is left to do.
  induction n with
  | zero =>
      intro s hle hs
      by_cases hdone : done s
      · exact ⟨[], s, trivial, rfl, hs, hdone⟩
      · obtain ⟨e, s', -, -, -, hlt⟩ := hstep s hs hdone
        omega
  | succ n ih =>
      intro s hle hs
      by_cases hdone : done s
      · exact ⟨[], s, trivial, rfl, hs, hdone⟩
      · obtain ⟨e, s', hC, he, hs', hlt⟩ := hstep s hs hdone
        obtain ⟨es, t, hes, hrun, ht⟩ := ih s' (by omega) hs'
        exact ⟨e :: es, t, .cons hC he hes, runFrom_cons.mpr ⟨s', he, hrun⟩, ht⟩

/-- **Exact guarded rule.** Say that from a good state a step keeps `P` exactly when it
    meets `C`, and that `P` once lost stays lost.  Then a run from a good state ends in
    `P` exactly when every one of its steps meets `C`.  `J` is what the steps may assume
    of a good state and `Q` what they may assume of the event. -/
theorem run_exact {step : S → E → Option S} {C : S → E → Prop} {J P : S → Prop}
    {Q : E → Prop}
    (hstep : ∀ s e s', J s → P s → Q e → step s e = some s' →
      (P s' ↔ C s e) ∧ (P s' → J s'))
    (hlost : ∀ s e s', ¬ P s → Q e → step s e = some s' → ¬ P s') :
    ∀ (es : List E) (s t : S), (∀ e ∈ es, Q e) → J s → P s →
      runFrom step s es = some t → (P t ↔ EveryStep step C s es) := by
  intro es
  induction es with
  | nil =>
      intro s t _ _ hP hr
      obtain rfl := Option.some.inj hr
      exact ⟨fun _ => trivial, fun _ => hP⟩
  | cons e es ih =>
      intro s t hQ hJ hP hr
      obtain ⟨hQe, hQes⟩ := List.forall_mem_cons.mp hQ
      obtain ⟨s', he, hr'⟩ := runFrom_cons.mp hr
      obtain ⟨hiff, hJ'⟩ := hstep s e s' hJ hP hQe he
      -- Once lost, `P` stays lost; as long as it holds, `J` carries on.
      by_cases hP' : P s'
      · rw [ih s' t hQes (hJ' hP') hP' hr']
        constructor
        · intro h
          refine ⟨hiff.mp hP', fun s'' hs'' => ?_⟩
          obtain rfl := Option.some.inj (he.symm.trans hs'')
          exact h
        · intro h
          exact h.2 s' he
      · have hPt : ¬ P t := run_invariant_of hlost es s' t hP' (everyStep_of_forall hQes) hr'
        exact ⟨fun h => absurd h hPt, fun h => absurd (hiff.mpr h.1) hP'⟩

/-- A run and a run from where it ends. -/
theorem runFrom_append {step : S → E → Option S} (s : S) (es es' : List E) :
    runFrom step s (es ++ es') = (runFrom step s es).bind fun t => runFrom step t es' := by
  induction es generalizing s with
  | nil => rfl
  | cons e es ih =>
      simp only [List.cons_append, runFrom, Option.bind_assoc]
      exact congrArg _ (funext fun s' => ih s')

/-- A run and one step more. -/
theorem runFrom_snoc {step : S → E → Option S} (s : S) (es : List E) (e : E) :
    runFrom step s (es ++ [e]) = (runFrom step s es).bind fun t => step t e := by
  rw [runFrom_append]
  congr 1
  funext t
  show (step t e).bind some = step t e
  exact Option.bind_fun_some _

/-- **Erasure rule.** Say that along the steps that meet `C`, an event that is kept is a
    step of the erased states too, and one that is not kept changes nothing of them.  Then
    the kept events are a run of the erased states. -/
theorem run_erase {T : Type*} {step : S → E → Option S} {step' : T → E → Option T}
    {erase : S → T} {keep : E → Bool} {C : S → E → Prop} {Inv : S → Prop}
    (hstep : ∀ s e s', Inv s → C s e → step s e = some s' →
      Inv s' ∧ if keep e then step' (erase s) e = some (erase s') else erase s' = erase s) :
    ∀ (es : List E) (s t : S), Inv s → EveryStep step C s es → runFrom step s es = some t →
      Inv t ∧ runFrom step' (erase s) (es.filter keep) = some (erase t) := by
  intro es
  induction es with
  | nil =>
      intro s t hs _ hrun
      obtain rfl := Option.some.inj hrun
      exact ⟨hs, rfl⟩
  | cons e es ih =>
      intro s t hs hC hrun
      obtain ⟨s', he, hrun'⟩ := runFrom_cons.mp hrun
      obtain ⟨hs', hkeep⟩ := hstep s e s' hs hC.1 he
      obtain ⟨ht, hrest⟩ := ih s' t hs' (hC.2 s' he) hrun'
      refine ⟨ht, ?_⟩
      rw [List.filter_cons]
      split at hkeep
      · next hk =>
          rw [if_pos hk]
          exact runFrom_cons.mpr ⟨erase s', hkeep, hrest⟩
      · next hk =>
          rw [if_neg hk, ← hkeep]
          exact hrest

/-- **Exact erasure rule.** Where the only steps that are not steps of the erased states
    are the `Bad` ones, a bad step leaves a state at `Fault`, and no other step does: a run
    meets no fault exactly when none of its steps is bad, and then it is a run of the erased
    states.  `J` is what every step keeps, `Inv` what the good ones keep, and `Q` what the
    steps may assume of the event. -/
theorem erasure_exact {T : Type*} {step : S → E → Option S} {step' : T → E → Option T}
    {erase : S → T} {keep : E → Bool} {Bad : S → E → Prop} {Fault J Inv : S → Prop}
    {Q : E → Prop}
    (hJ : ∀ s e s', J s → step s e = some s' → J s')
    (hstep : ∀ s e s', Inv s → Q e → ¬ Bad s e → step s e = some s' →
      Inv s' ∧ if keep e then step' (erase s) e = some (erase s') else erase s' = erase s)
    (hbad : ∀ s e s', J s → Bad s e → step s e = some s' → Fault s')
    (hgood : ∀ s, Inv s → ¬ Fault s) {s t : S} {es : List E} (hs : J s) (hinv : Inv s)
    (hQ : ∀ e ∈ es, Q e) (hrun : runFrom step s es = some t) :
    ((∀ before after u, es = before ++ after → runFrom step s before = some u → ¬ Fault u) ↔
        EveryStep step (fun s e => ¬ Bad s e) s es) ∧
      (EveryStep step (fun s e => ¬ Bad s e) s es →
        ∀ before after u, es = before ++ after → runFrom step s before = some u →
          Inv u ∧ runFrom step' (erase s) (before.filter keep) = some (erase u)) := by
  -- The guarded run is one of the erased states, up to every point of it.
  have herase : EveryStep step (fun s e => ¬ Bad s e) s es →
      ∀ before after u, es = before ++ after → runFrom step s before = some u →
        Inv u ∧ runFrom step' (erase s) (before.filter keep) = some (erase u) := by
    intro h before after u hes hu
    refine run_erase (C := fun s e => Q e ∧ ¬ Bad s e)
      (fun s e s' hs hC he => hstep s e s' hs hC.1 hC.2 he) before s u hinv ?_ hu
    refine everyStep_iff.mpr fun b e a v hb hv => ⟨?_, ?_⟩
    · refine hQ e ?_
      rw [hes, hb]
      exact List.mem_append_left _ (List.mem_append_right _ List.mem_cons_self)
    · exact everyStep_iff.mp h b e (a ++ after) v
        (by rw [hes, hb, List.append_assoc, List.cons_append]) hv
  refine ⟨⟨fun h => ?_, fun h before after u hes hu => ?_⟩, herase⟩
  · refine everyStep_iff.mpr fun before e after u hes hu hbadStep => ?_
    rw [hes, runFrom_append, hu] at hrun
    obtain ⟨u', he, -⟩ := runFrom_cons.mp hrun
    have hJu : J u := run_invariant J (fun s e s' hs he => hJ s e s' hs he) before s u hs hu
    refine h (before ++ [e]) after u' (by rw [hes, List.append_assoc]; rfl) ?_
      (hbad u e u' hJu hbadStep he)
    rw [runFrom_snoc, hu]
    exact he
  · exact hgood u (herase h before after u hes hu).1

/-! ## Laws on the past

    A law says which events may follow which history; a sequence obeys it when each of
    its events does. -/

/-- Every event of the sequence is one that `Law` allows after those before it. -/
def Always (Law : List E → E → Prop) (es : List E) : Prop :=
  ∀ before e after, es = before ++ e :: after → Law before e

/-- Nothing happened, nothing was unlawful. -/
theorem always_nil (Law : List E → E → Prop) : Always Law [] := by
  intro before e after h
  exact absurd h.symm (List.append_ne_nil_of_right_ne_nil _ (List.cons_ne_nil _ _))

/-- A law that holds of a sequence holds of its beginnings. -/
theorem Always.of_append {Law : List E → E → Prop} {es es' : List E}
    (h : Always Law (es ++ es')) : Always Law es := by
  intro before e after he
  refine h before e (after ++ es') ?_
  rw [he, List.append_assoc, List.cons_append]

/-- Where an event stands in a sequence that was extended by one: at the end, or before. -/
theorem snoc_eq_append_cons {es before after : List E} {e e' : E} :
    es ++ [e] = before ++ e' :: after ↔
      (es = before ∧ e = e' ∧ after = []) ∨
        ∃ after', es = before ++ e' :: after' ∧ after = after' ++ [e] := by
  constructor
  · intro h
    rcases List.eq_nil_or_concat' after with rfl | ⟨after', e'', rfl⟩
    · obtain ⟨hes, hsame⟩ := List.append_inj' h rfl
      exact Or.inl ⟨hes, List.head_eq_of_cons_eq hsame, rfl⟩
    · rw [← List.cons_append, ← List.append_assoc] at h
      obtain ⟨hes, hsame⟩ := List.append_inj' h rfl
      exact Or.inr ⟨after', hes, by rw [hsame]⟩
  · rintro (⟨rfl, rfl, rfl⟩ | ⟨after', rfl, rfl⟩)
    · rfl
    · rw [List.append_assoc, List.cons_append]

/-- One event more. -/
theorem always_snoc {Law : List E → E → Prop} {es : List E} {e : E} :
    Always Law (es ++ [e]) ↔ Always Law es ∧ Law es e := by
  constructor
  · intro h
    exact ⟨h.of_append, h es e [] rfl⟩
  · rintro ⟨hall, hlast⟩ before e' after he
    rcases snoc_eq_append_cons.mp he with ⟨rfl, rfl, -⟩ | ⟨after', hes, -⟩
    · exact hlast
    · exact hall before e' after' hes

/-- A law of the past can be decided event by event. -/
theorem always_iff_forall_fin {Law : List E → E → Prop} {es : List E} :
    Always Law es ↔ ∀ i : Fin es.length, Law (es.take i) es[i] := by
  constructor
  · intro h i
    refine h (es.take i) es[i] (es.drop (i + 1)) ?_
    rw [Fin.getElem_fin, List.getElem_cons_drop, List.take_append_drop]
  · intro h before e after hes
    have hlt : before.length < es.length := by
      rw [hes, List.length_append, List.length_cons]
      omega
    have hlaw := h ⟨before.length, hlt⟩
    simp only [hes, Fin.getElem_fin, List.take_left', List.getElem_append_right le_rfl,
      Nat.sub_self, List.getElem_cons_zero] at hlaw
    exact hlaw

instance {Law : List E → E → Prop} [∀ before e, Decidable (Law before e)] {es : List E} :
    Decidable (Always Law es) :=
  decidable_of_iff _ always_iff_forall_fin.symm

/-- **Invariant rule with a past.** What every lawful step preserves, an invariant that
    may speak of all events so far, every lawful run preserves. -/
theorem run_invariant_past {step : S → E → Option S} {Law : List E → E → Prop} {s : S}
    {Inv : List E → S → Prop} (hstart : Inv [] s)
    (hstep : ∀ past s e s', Law past e → Inv past s → step s e = some s' → Inv (past ++ [e]) s') :
    ∀ (es : List E) (t : S), Always Law es → runFrom step s es = some t → Inv es t := by
  intro es
  induction es using List.reverseRecOn with
  | nil =>
      intro t _ hrun
      obtain rfl := Option.some.inj hrun
      exact hstart
  | append_singleton es e ih =>
      intro t hlaw hrun
      obtain ⟨hall, hlast⟩ := always_snoc.mp hlaw
      rw [runFrom_snoc] at hrun
      obtain ⟨s', hs', he⟩ := Option.bind_eq_some_iff.mp hrun
      exact hstep es s' e t hlast (ih s' hall hs') he

/-! ## Systems with events of their own

    One step of the first may be several steps of the second, or none. -/

section

variable {T F : Type*} {step : S → E → Option S} {step' : T → F → Option T}

/-- Some run leads from one state to the other. -/
def Reaches (step' : T → F → Option T) (t t' : T) : Prop := ∃ es, runFrom step' t es = some t'

/-- A state reaches itself. -/
theorem Reaches.refl (t : T) : Reaches step' t t := ⟨[], rfl⟩

/-- A state reaches what one step leads to. -/
theorem Reaches.single {t t' : T} {e : F} (h : step' t e = some t') : Reaches step' t t' :=
  ⟨[e], runFrom_cons.mpr ⟨t', h, rfl⟩⟩

/-- What is reached from a reached state is reached. -/
theorem Reaches.trans {t t' t'' : T} (h : Reaches step' t t') (h' : Reaches step' t' t'') :
    Reaches step' t t'' := by
  obtain ⟨es, hes⟩ := h
  obtain ⟨es', hes'⟩ := h'
  refine ⟨es ++ es', ?_⟩
  rw [runFrom_append, hes]
  exact hes'

/-- **Forward simulation.**  If every step of the first system is matched by a run of the
    second that restores the relation, so is every run. -/
theorem forward_simulation {R : S → T → Prop}
    (hstep : ∀ s e s' t, R s t → step s e = some s' → ∃ t', Reaches step' t t' ∧ R s' t') :
    ∀ (es : List E) (s s' : S) (t : T), R s t → runFrom step s es = some s' →
      ∃ t', Reaches step' t t' ∧ R s' t' := by
  intro es
  induction es with
  | nil =>
      intro s s' t hR hrun
      obtain rfl := Option.some.inj hrun
      exact ⟨t, .refl t, hR⟩
  | cons e es ih =>
      intro s s' t hR hrun
      obtain ⟨s₁, he, hrest⟩ := runFrom_cons.mp hrun
      obtain ⟨t₁, hreach, hR₁⟩ := hstep s e s₁ t hR he
      obtain ⟨t', hreach', hR'⟩ := ih s₁ s' t₁ hR₁ hrest
      exact ⟨t', hreach.trans hreach', hR'⟩

end

/-! ## Outputs and simulations

    Two systems over the same events can be compared by what they put out. -/

section

variable {T O : Type*} {step : S → E → Option S} {out : S → E → O}

/-- The outputs along a run, up to the first event that is not enabled, whose output is
    the last. -/
def trace (step : S → E → Option S) (out : S → E → O) : S → List E → List O
  | _, [] => []
  | s, e :: es => out s e :: (match step s e with
      | some s' => trace step out s' es
      | none => [])

/-- One step more adds one entry to the trace. -/
theorem trace_snoc (s : S) (es : List E) (e : E) :
    trace step out s (es ++ [e]) =
      trace step out s es ++ ((runFrom step s es).map fun t => out t e).toList := by
  induction es generalizing s with
  | nil =>
      show out s e :: _ = [out s e]
      cases step s e <;> rfl
  | cons e' es ih =>
      simp only [List.cons_append, trace, runFrom]
      cases step s e' with
      | none => rfl
      | some s' => exact congrArg (out s e' :: ·) (ih s')

/-- **Simulation rule.** Under a law on the past, a relation that two systems start in,
    and that every step keeps with the same output, makes their outputs equal along every
    lawful sequence and relates the states it reaches. -/
theorem simulates {step' : T → E → Option T} {out' : T → E → O} {Law : List E → E → Prop}
    {R : List E → S → T → Prop} {s : S} {t : T} (hstart : R [] s t)
    (hstep : ∀ past s t e, Law past e → R past s t →
      out s e = out' t e ∧ Option.Rel (R (past ++ [e])) (step s e) (step' t e)) :
    ∀ es, Always Law es →
      trace step out s es = trace step' out' t es ∧
        Option.Rel (R es) (runFrom step s es) (runFrom step' t es) := by
  intro es
  -- Induction at the end, where the law looks back at the past.
  induction es using List.reverseRecOn with
  | nil => exact fun _ => ⟨rfl, .some hstart⟩
  | append_singleton es e ih =>
      intro hlaw
      obtain ⟨hall, hlast⟩ := always_snoc.mp hlaw
      obtain ⟨htrace, hrel⟩ := ih hall
      rw [trace_snoc, trace_snoc, runFrom_snoc, runFrom_snoc, htrace]
      generalize runFrom step s es = a at hrel ⊢
      generalize runFrom step' t es = b at hrel ⊢
      cases hrel with
      | none => exact ⟨rfl, .none⟩
      | some hR =>
          obtain ⟨hout, hnext⟩ := hstep es _ _ e hlast hR
          refine ⟨?_, hnext⟩
          show _ ++ [out _ e] = _ ++ [out' _ e]
          rw [hout]

end

end StepRun
