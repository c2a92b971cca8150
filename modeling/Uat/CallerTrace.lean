import Uat.State
import Uat.Base.StepRun

/-! # What the caller accepts from an arbitrary peer

    The order in which a callee may speak, as a law on whole traces of `caller_step`
    (`CalleeCouldSay`), and which accepted traces obey it.

    Two arms of the caller's table let the order slip: a failure is taken with any code in
    `Working` and `AwaitingInput`, and `Canceling` has forgotten the state it was entered
    from.  `order_obeyed_iff` says that these are the only ones: leave the cancelation out
    of the trace, and what remains is accepted as well, with `Failed{Rejected}` taken in
    `Submitted` only, exactly when the trace obeys the order. -/

namespace UatCallerTrace

open UatTypes UatState StepRun

section

variable [Base64Engine]

/-- `caller_step` without the message to emit; the caller's table has none. -/
def callerNext (c : CallerState) (e : CallerEvent) : Option CallerState :=
  match callerStep c e with
  | .ok step => some step.state
  | .error _ => none

/-- A move of the trace is a step of the table. -/
theorem callerNext_eq_some {c c' : CallerState} {e : CallerEvent} :
    callerNext c e = some c' ↔ ∃ step, callerStep c e = .ok step ∧ step.state = c' := by
  rw [callerNext]
  cases callerStep c e <;> simp

/-- A timeout and a lost connection end the call. -/
theorem callerNext_ends {c : CallerState} (hc : c.isTerminal = false) {e : CallerEvent}
    (he : e = .timeout ∨ ∃ code, e = .connLost code) :
    ∃ o, callerNext c e = some (.terminal o) := by
  rcases he with rfl | ⟨code, rfl⟩
  · exact ⟨_, callerNext_eq_some.mpr ⟨_, callerStep_timeout hc, rfl⟩⟩
  · obtain ⟨o, ho⟩ := connLostOutcomeCaller_terminal code
    exact ⟨o, callerNext_eq_some.mpr ⟨_, callerStep_connLost hc code, ho⟩⟩

/-- What goes on was neither. -/
theorem goes_on_of_callerNext {c c' : CallerState} {e : CallerEvent}
    (hnext : callerNext c e = some c')
    (hopen : c'.isTerminal = false) : ¬ (e = .timeout ∨ ∃ code, e = .connLost code) := by
  intro he
  obtain ⟨st, hst, -⟩ := callerNext_eq_some.mp hnext
  obtain ⟨o, ho⟩ := callerNext_ends (callerStep_nonterminal hst) he
  obtain rfl := Option.some.inj (hnext.symm.trans ho)
  cases hopen

/-! ## The law -/

/-- Messages that only a callee at work sends. -/
def isWork : Message → Bool
  | .progress | .needInput | .completed _ => true
  | _ => false

/-- The last `NeedInput` was not answered by an `Input`. -/
def Pending (before : List CallerEvent) : Prop :=
  ∃ earlier since, before = earlier ++ .recv .needInput :: since ∧ ∀ b, .send (.input b) ∉ since

/-- The event may follow these, if the peer is a callee that keeps to its order. -/
structure CalleeCouldSay (before : List CallerEvent) (e : CallerEvent) : Prop where
  acceptedOnce : e = .recv .accepted → .recv .accepted ∉ before
  afterAccepted : ∀ m, e = .recv m → isWork m = true → .recv .accepted ∈ before
  afterInput : ∀ m, e = .recv m → isWork m = true → ¬ Pending before
  rejectedInTime : e = .recv (.failed .rejected) → .recv .accepted ∉ before

/-- **The property.** The received messages obey the callee's order. -/
def ObeysOrder (es : List CallerEvent) : Prop := Always CalleeCouldSay es

/-- A question is open until it is answered. -/
theorem pending_snoc {before : List CallerEvent} {e : CallerEvent} :
    Pending (before ++ [e]) ↔
      e = .recv .needInput ∨ (Pending before ∧ ∀ b, e ≠ .send (.input b)) := by
  constructor
  · rintro ⟨earlier, since, heq, hsince⟩
    rcases List.eq_nil_or_concat' since with rfl | ⟨since, e', rfl⟩
    · obtain ⟨-, hlast⟩ := List.append_inj' heq rfl
      exact Or.inl (List.head_eq_of_cons_eq hlast)
    · rw [← List.cons_append, ← List.append_assoc] at heq
      obtain ⟨hbefore, hlast⟩ := List.append_inj' heq rfl
      obtain rfl := List.head_eq_of_cons_eq hlast
      refine Or.inr ⟨⟨earlier, since, hbefore, fun b hb => ?_⟩, fun b hb => ?_⟩
      · exact hsince b (List.mem_append_left _ hb)
      · exact hsince b (List.mem_append_right _ (List.mem_singleton.mpr hb.symm))
  · rintro (rfl | ⟨⟨earlier, since, rfl, hsince⟩, he⟩)
    · exact ⟨before, [], rfl, fun _ h => nomatch h⟩
    · refine ⟨earlier, since ++ [e], List.append_assoc _ _ _, fun b hb => ?_⟩
      rcases List.mem_append.mp hb with hb | hb
      · exact hsince b hb
      · exact he b (List.mem_singleton.mp hb).symm

/-! ## The trace without its cancelation -/

/-- `Cancel` as sent and `Canceled` as received. -/
def ofCancelation : CallerEvent → Bool
  | .send .cancel | .recv .canceled => true
  | _ => false

/-- The events of a trace that are not about cancelation. -/
def uncanceled (es : List CallerEvent) : List CallerEvent :=
  es.filter fun e => !ofCancelation e

/-- `Failed{Rejected}` is taken before `Accepted` only. -/
def RejectedBeforeWork (c : CallerState) (e : CallerEvent) : Prop :=
  e = .recv (.failed .rejected) → c = .submitted

/-- The states that `Canceling` is entered from. -/
def cancelable : CallerState → Bool
  | .submitted | .working | .awaitingInput => true
  | _ => false

/-- The state of the run, and that of the run without its cancelation. -/
def Follows (c w : CallerState) : Prop :=
  (c = w ∧ w ≠ .canceling) ∨ (c = .canceling ∧ cancelable w = true)

section

omit [Base64Engine]

/-- What would have been is never `Canceling`. -/
theorem Follows.uncanceled {c w : CallerState} (h : Follows c w) : w ≠ .canceling := by
  rcases h with ⟨-, hw⟩ | ⟨-, hw⟩
  · exact hw
  · rintro rfl
    cases hw

/-- While the caller is open, so is what would have been. -/
theorem Follows.nonterminal {c w : CallerState} (h : Follows c w) (hc : c.isTerminal = false) :
    w.isTerminal = false := by
  rcases h with ⟨rfl, -⟩ | ⟨-, hw⟩
  · exact hc
  · cases w <;> first | rfl | cases hw

end

/-- What the state of the uncanceled run knows of the past. -/
structure Remembers (before : List CallerEvent) (w : CallerState) : Prop where
  accepted : .recv .accepted ∈ before ↔ w = .working ∨ w = .awaitingInput
  pending : Pending before ↔ w = .awaitingInput

/-- An event that the memory is not about. -/
theorem Remembers.snoc {before : List CallerEvent} {w : CallerState} {e : CallerEvent}
    (h : Remembers before w) (hacc : e ≠ .recv .accepted) (hneed : e ≠ .recv .needInput)
    (hinput : ∀ b, e ≠ .send (.input b)) : Remembers (before ++ [e]) w := by
  constructor
  · rw [List.mem_append, List.mem_singleton, h.accepted]
    exact or_iff_left hacc.symm
  · rw [pending_snoc, h.pending]
    exact ⟨fun hor => (hor.resolve_left hneed).1, fun hw => Or.inr ⟨hw, hinput⟩⟩

/-- A cancelation is not remembered. -/
theorem remembers_cancelation {before : List CallerEvent} {w : CallerState} {e : CallerEvent}
    (h : Remembers before w) (he : ofCancelation e = true) : Remembers (before ++ [e]) w := by
  refine h.snoc ?_ ?_ fun b => ?_
  all_goals
    rintro rfl
    cases he

/-- **The memory is kept.**  A step that is not about cancelation moves the memory with the
    state. -/
theorem remembers_next {before : List CallerEvent} {w w' : CallerState} {e : CallerEvent}
    (h : Remembers before w) (hw : w ≠ .canceling) (he : ofCancelation e = false)
    (hnext : callerNext w e = some w') (hopen : w'.isTerminal = false) :
    Remembers (before ++ [e]) w' := by
  obtain ⟨st, hst, rfl⟩ := callerNext_eq_some.mp hnext
  cases e with
  | send m =>
      -- A `Cancel` is excluded; a `Submit` opens the call, and an `Input` answers the question.
      rcases callerStep_send hst with ⟨rfl, ⟨t, d, ct, cr, b, rfl⟩, rfl⟩ | ⟨-, rfl, -⟩ |
        ⟨rfl, ⟨b, rfl⟩, rfl⟩
      · obtain ⟨hacc, hpend⟩ := h.snoc (e := .send (.submit t d ct cr b)) nofun nofun nofun
        exact ⟨hacc.trans (by simp), hpend.trans (by simp)⟩
      · cases he
      · constructor
        · rw [List.mem_append, List.mem_singleton, h.accepted]
          simp
        · rw [pending_snoc]
          simp
  | recv m =>
      -- Only `Accepted` and `NeedInput` change what is remembered; the verdicts end the call.
      rcases callerStep_recv hst with ⟨rfl, rfl, rfl⟩ | ⟨rfl, rfl, rfl⟩ | ⟨rfl, rfl, rfl⟩ |
        ⟨-, -, rfl⟩ | ⟨-, code, -, rfl⟩ | ⟨-, -, rfl⟩ | ⟨rfl, -, rfl⟩
      · constructor
        · rw [List.mem_append, List.mem_singleton]
          simp
        · rw [pending_snoc, h.pending]
          simp
      · exact h.snoc nofun nofun nofun
      · constructor
        · rw [List.mem_append, List.mem_singleton, h.accepted]
          simp
        · rw [pending_snoc]
          simp
      · cases hopen
      · cases hopen
      · cases hopen
      · exact absurd rfl hw
  | timeout => exact absurd (Or.inl rfl) (goes_on_of_callerNext hnext hopen)
  | connLost code => exact absurd (Or.inr ⟨code, rfl⟩) (goes_on_of_callerNext hnext hopen)

/-! ## One step beside the uncanceled run -/

/-- The run without the cancelation stands where the run stood when it was canceled. -/
theorem follows_cancelation {c c' w : CallerState} {e : CallerEvent} (h : Follows c w)
    (he : ofCancelation e = true) (hnext : callerNext c e = some c')
    (hopen : c'.isTerminal = false) : Follows c' w := by
  obtain ⟨st, hst, rfl⟩ := callerNext_eq_some.mp hnext
  cases e with
  | send m =>
      rcases callerStep_send hst with ⟨-, ⟨_, _, _, _, _, rfl⟩, -⟩ | ⟨hc, -, rfl⟩ |
        ⟨-, ⟨_, rfl⟩, -⟩
      · cases he
      · refine Or.inr ⟨rfl, ?_⟩
        rcases h with ⟨rfl, -⟩ | ⟨rfl, -⟩
        · rcases hc with rfl | rfl | rfl <;> rfl
        · rcases hc with hc | hc | hc <;> cases hc
      · cases he
  | recv m =>
      cases m with
      | canceled =>
          -- The run is over once `Canceled` has arrived.
          cases c <;> cases hst
          cases hopen
      | _ => cases he
  | _ => cases he

/-- What `Canceling` takes without an end. -/
theorem canceling_goes_on {m : Message} {st : Step CallerState}
    (h : callerStep .canceling (.recv m) = .ok st) (hopen : st.state.isTerminal = false) :
    (m = .accepted ∨ m = .progress ∨ m = .needInput) ∧ st.state = .canceling := by
  cases m <;> cases h <;> first | exact ⟨by simp, rfl⟩ | cases hopen

/-- While the run goes on, both take the same steps. -/
theorem follows_next {c c' w w' : CallerState} {e : CallerEvent} (h : Follows c w)
    (he : ofCancelation e = false) (hnext : callerNext c e = some c')
    (hnext' : callerNext w e = some w') (hopen : c'.isTerminal = false) : Follows c' w' := by
  obtain ⟨st, hst, rfl⟩ := callerNext_eq_some.mp hnext
  rcases h with ⟨rfl, hw⟩ | ⟨rfl, hw⟩
  · refine Or.inl ⟨Option.some.inj (hnext.symm.trans hnext'), ?_⟩
    rw [← Option.some.inj (hnext.symm.trans hnext')]
    intro hcancel
    cases e with
    | send m =>
        rcases callerStep_send hst with ⟨-, -, rfl⟩ | ⟨-, rfl, -⟩ | ⟨-, -, rfl⟩
        · cases hcancel
        · cases he
        · cases hcancel
    | recv m =>
        rcases callerStep_recv hst with ⟨-, -, rfl⟩ | ⟨-, -, rfl⟩ | ⟨-, -, rfl⟩ | ⟨-, -, rfl⟩ |
          ⟨-, code, -, rfl⟩ | ⟨-, -, rfl⟩ | ⟨rfl, -, -⟩
        all_goals first | exact hw rfl | cases hcancel
    | timeout => exact goes_on_of_callerNext hnext hopen (Or.inl rfl)
    | connLost code => exact goes_on_of_callerNext hnext hopen (Or.inr ⟨code, rfl⟩)
  · cases e with
    | send m => cases m <;> cases hst
    | recv m =>
        obtain ⟨hm, hst⟩ := canceling_goes_on hst hopen
        refine Or.inr ⟨hst, ?_⟩
        rcases hm with rfl | rfl | rfl <;> cases w <;> first | contradiction | (cases hnext'; rfl)
    | timeout => exact absurd (Or.inl rfl) (goes_on_of_callerNext hnext hopen)
    | connLost code => exact absurd (Or.inr ⟨code, rfl⟩) (goes_on_of_callerNext hnext hopen)

/-- The law reads a received message by what it says. -/
theorem couldSay_recv {before : List CallerEvent} {m : Message} :
    CalleeCouldSay before (.recv m) ↔
      (m = .accepted ∨ m = .failed .rejected → .recv .accepted ∉ before) ∧
      (isWork m = true → .recv .accepted ∈ before ∧ ¬ Pending before) := by
  constructor
  · intro h
    refine ⟨fun hm => ?_, fun hm => ⟨h.afterAccepted m rfl hm, h.afterInput m rfl hm⟩⟩
    rcases hm with rfl | rfl
    · exact h.acceptedOnce rfl
    · exact h.rejectedInTime rfl
  · rintro ⟨hearly, hwork⟩
    refine ⟨fun he => hearly (Or.inl (CallerEvent.recv.inj he)), ?_, ?_,
      fun he => hearly (Or.inr (CallerEvent.recv.inj he))⟩
    · rintro _ ⟨⟩ hm
      exact (hwork hm).1
    · rintro _ ⟨⟩ hm
      exact (hwork hm).2

/-- What is not received is the caller's own doing. -/
theorem couldSay_other {before : List CallerEvent} {e : CallerEvent}
    (he : ∀ m, e ≠ .recv m) : CalleeCouldSay before e :=
  ⟨fun h => absurd h (he _), fun _ h => absurd h (he _), fun _ h => absurd h (he _),
    fun h => absurd h (he _)⟩

/-- Behind `Submitted`, what the law says of a message is what the state says of it. -/
theorem couldSay_of_cancelable {before : List CallerEvent} {w : CallerState} {m : Message}
    (hw : cancelable w = true) (hmem : Remembers before w)
    (hm : m = .accepted ∨ isWork m = true ∨ ∃ code, m = .failed code) :
    CalleeCouldSay before (.recv m) ↔
      (∃ w', callerNext w (.recv m) = some w') ∧ RejectedBeforeWork w (.recv m) := by
  rw [couldSay_recv, hmem.accepted, hmem.pending]
  cases w with
  | submitted | working | awaitingInput =>
      rcases hm with rfl | hm | ⟨code, rfl⟩
      · simp [callerNext, callerStep, isWork, RejectedBeforeWork, CallerState.isTerminal]
      · cases m <;>
          simp [callerNext, callerStep, isWork, RejectedBeforeWork, CallerState.isTerminal] at hm ⊢
      · simp [callerNext, callerStep, isWork, RejectedBeforeWork, CallerState.isTerminal]
  | _ => cases hw

/-- **One step.**  The run takes an event that the callee could say exactly when the run
    without the cancelation takes it too, and takes `Failed{Rejected}` in `Submitted`. -/
theorem couldSay_iff {before : List CallerEvent} {c c' w : CallerState} {e : CallerEvent}
    (h : Follows c w) (hmem : Remembers before w) (he : ofCancelation e = false)
    (hnext : callerNext c e = some c') :
    CalleeCouldSay before e ↔ (∃ w', callerNext w e = some w') ∧ RejectedBeforeWork w e := by
  obtain ⟨st, hst, rfl⟩ := callerNext_eq_some.mp hnext
  cases e with
  | send m =>
      have hcw : c = w := by
        rcases h with ⟨hcw, -⟩ | ⟨rfl, -⟩
        · exact hcw
        · cases m <;> cases hst
      exact ⟨fun _ => ⟨⟨_, hcw ▸ hnext⟩, nofun⟩, fun _ => couldSay_other nofun⟩
  | recv m =>
      -- What can be received is received in a state that could still have canceled.
      have hw : cancelable w = true := by
        rcases h with ⟨rfl, hw⟩ | ⟨-, hw⟩
        · rcases callerStep_recv hst with ⟨rfl, -, -⟩ | ⟨rfl, -, -⟩ | ⟨rfl, -, -⟩ |
            ⟨rfl | rfl, -, -⟩ | ⟨rfl | rfl | rfl | rfl, -, -⟩ | ⟨rfl, -, -⟩ | ⟨rfl, -, -⟩
          all_goals first | rfl | exact absurd rfl hw
        · exact hw
      refine couldSay_of_cancelable hw hmem ?_
      rcases callerStep_recv hst with ⟨-, rfl, -⟩ | ⟨-, rfl, -⟩ | ⟨-, rfl, -⟩ |
        ⟨-, ⟨_, rfl⟩, -⟩ | ⟨-, code, rfl, -⟩ | ⟨-, rfl, -⟩ | ⟨-, rfl | rfl | rfl, -⟩
      all_goals first | exact Or.inl rfl | exact Or.inr (Or.inl rfl) | skip
      · exact Or.inr (Or.inr ⟨code, rfl⟩)
      · cases he
  | timeout =>
      obtain ⟨o, ho⟩ := callerNext_ends (h.nonterminal (callerStep_nonterminal hst)) (Or.inl rfl)
      exact ⟨fun _ => ⟨⟨_, ho⟩, nofun⟩, fun _ => couldSay_other nofun⟩
  | connLost code =>
      have hopen := h.nonterminal (callerStep_nonterminal hst)
      obtain ⟨o, ho⟩ := callerNext_ends hopen (Or.inr ⟨code, rfl⟩)
      exact ⟨fun _ => ⟨⟨_, ho⟩, nofun⟩, fun _ => couldSay_other nofun⟩

/-! ## The whole trace -/

/-- The events that the law is about are those that are not about cancelation. -/
theorem couldSay_cancelation {before : List CallerEvent} {e : CallerEvent}
    (he : ofCancelation e = true) : CalleeCouldSay before e := by
  cases e with
  | recv m =>
      cases m with
      | canceled =>
          rw [couldSay_recv]
          exact ⟨fun h => h.elim nofun nofun, fun h => nomatch h⟩
      | _ => cases he
  | _ => exact couldSay_other nofun

/-- Without its cancelation the trace is accepted too, and takes `Failed{Rejected}` in
    `Submitted` only. -/
def AcceptedUncanceled (w : CallerState) (es : List CallerEvent) : Prop :=
  (∃ t, runFrom callerNext w (uncanceled es) = some t) ∧
    EveryStep callerNext RejectedBeforeWork w (uncanceled es)

/-- A cancelation is passed over. -/
theorem acceptedUncanceled_cons_cancelation {w : CallerState} {e : CallerEvent}
    {es : List CallerEvent} (he : ofCancelation e = true) :
    AcceptedUncanceled w (e :: es) ↔ AcceptedUncanceled w es := by
  have hskip : uncanceled (e :: es) = uncanceled es := by
    unfold uncanceled
    rw [List.filter_cons, he]
    rfl
  simp only [AcceptedUncanceled]
  rw [hskip]

/-- Any other event has to be a move. -/
theorem acceptedUncanceled_cons {w : CallerState} {e : CallerEvent} {es : List CallerEvent}
    (he : ofCancelation e = false) :
    AcceptedUncanceled w (e :: es) ↔
      ∃ w', callerNext w e = some w' ∧ RejectedBeforeWork w e ∧ AcceptedUncanceled w' es := by
  have hkeep : uncanceled (e :: es) = e :: uncanceled es := by
    rw [uncanceled]
    rw [List.filter_cons, he]
    rfl
  rw [AcceptedUncanceled]
  rw [hkeep]
  constructor
  · rintro ⟨⟨t, ht⟩, hC, hrest⟩
    obtain ⟨w', hw', ht'⟩ := runFrom_cons.mp ht
    exact ⟨w', hw', hC, ⟨t, ht'⟩, hrest w' hw'⟩
  · rintro ⟨w', hw', hC, ⟨t, ht⟩, hrest⟩
    exact ⟨⟨t, runFrom_cons.mpr ⟨w', hw', ht⟩⟩, .cons hC hw' hrest⟩

/-- After a step of both runs, the one still follows the other and remembers it. -/
theorem tracks_next {before : List CallerEvent} {c c' w w' : CallerState} {e : CallerEvent}
    (hfollows : Follows c w) (hmem : Remembers before w) (he : ofCancelation e = false)
    (hnext : callerNext c e = some c') (hnext' : callerNext w e = some w')
    (hopen : c'.isTerminal = false) : Follows c' w' ∧ Remembers (before ++ [e]) w' := by
  have hfollows' := follows_next hfollows he hnext hnext' hopen
  exact ⟨hfollows', remembers_next hmem hfollows.uncanceled he hnext' (hfollows'.nonterminal hopen)⟩

/-- The run from here on, beside the uncanceled one. -/
theorem order_obeyed_from (es : List CallerEvent) :
    ∀ (before : List CallerEvent) (c w t : CallerState), ObeysOrder before →
      (c.isTerminal = false → Follows c w ∧ Remembers before w) →
      runFrom callerNext c es = some t →
      (ObeysOrder (before ++ es) ↔ AcceptedUncanceled w es) := by
  induction es with
  | nil =>
      intro before c w t hbefore _ _
      rw [List.append_nil]
      exact ⟨fun _ => ⟨⟨w, rfl⟩, trivial⟩, fun _ => hbefore⟩
  | cons e es ih =>
      intro before c w t hbefore htrack hrun
      obtain ⟨c', hnext, hrun'⟩ := runFrom_cons.mp hrun
      obtain ⟨st, hst, -⟩ := callerNext_eq_some.mp hnext
      obtain ⟨hfollows, hmem⟩ := htrack (callerStep_nonterminal hst)
      rw [← List.singleton_append, ← List.append_assoc]
      -- An event of the cancelation moves only the real run, every other one moves both.
      cases he : ofCancelation e with
      | true =>
          rw [List.singleton_append, acceptedUncanceled_cons_cancelation he]
          refine ih _ c' w t (always_snoc.mpr ⟨hbefore, couldSay_cancelation he⟩) ?_ hrun'
          intro hopen
          exact ⟨follows_cancelation hfollows he hnext hopen, remembers_cancelation hmem he⟩
      | false =>
          have hsay := couldSay_iff hfollows hmem he hnext
          rw [List.singleton_append, acceptedUncanceled_cons he]
          constructor
          · intro hobeys
            obtain ⟨⟨w', hw'⟩, hC⟩ := hsay.mp (always_snoc.mp hobeys.of_append).2
            refine ⟨w', hw', hC, (ih _ c' w' t hobeys.of_append ?_ hrun').mp hobeys⟩
            exact tracks_next hfollows hmem he hnext hw'
          · rintro ⟨w', hw', hC, hrest⟩
            have hobeys := always_snoc.mpr ⟨hbefore, hsay.mpr ⟨⟨w', hw'⟩, hC⟩⟩
            refine (ih _ c' w' t hobeys ?_ hrun').mpr hrest
            exact tracks_next hfollows hmem he hnext hw'

/-- **THE CALLEE'S ORDER IS ENFORCED, EXACTLY.**  For every trace that the caller accepts
    from an arbitrary peer: the messages received obey the callee's order if and only if
    the trace without its cancelation is accepted as well, with `Failed{Rejected}` taken
    in `Submitted` only. -/
theorem order_obeyed_iff (es : List CallerEvent) (t : CallerState)
    (hrun : runFrom callerNext .dialing es = some t) :
    ObeysOrder es ↔ AcceptedUncanceled .dialing es := by
  refine order_obeyed_from es [] .dialing .dialing t (always_nil _) (fun _ => ⟨?_, ?_⟩) hrun
  · exact Or.inl ⟨rfl, nofun⟩
  · constructor
    · exact ⟨fun h => (nomatch h), fun h => h.elim nofun nofun⟩
    · refine ⟨?_, nofun⟩
      rintro ⟨earlier, since, heq, -⟩
      exact absurd heq.symm (List.append_ne_nil_of_right_ne_nil _ (List.cons_ne_nil _ _))

end

section

local instance : Base64Engine := urlSafeNoPad

/-- The caller cancels while it waits for its first answer, and the work goes on. -/
def canceledInFlight : List CallerEvent :=
  [.send (.submit taskOne oneSecond plain none []), .send .cancel, .recv .accepted,
    .recv .progress, .recv .canceled]

theorem order_obeyed_iff_canceledInFlight :
    runFrom callerNext .dialing canceledInFlight = some (.terminal .canceled) ∧
      (ObeysOrder canceledInFlight ↔ AcceptedUncanceled .dialing canceledInFlight) :=
  ⟨rfl, order_obeyed_iff canceledInFlight _ rfl⟩

/-- The peer rejects what it has accepted. -/
def acceptedThenRejected : List CallerEvent :=
  [.send (.submit taskOne oneSecond plain none []), .recv .accepted, .recv (.failed .rejected)]

/-- The caller takes `Failed{Rejected}` after `Accepted`. -/
theorem rejection_after_accepted_is_taken :
    ¬ ∀ (es : List CallerEvent) (t : CallerState), runFrom callerNext .dialing es = some t →
      ObeysOrder es := by
  intro h
  have hobeys := h acceptedThenRejected (.terminal (.failed .rejected)) rfl
  exact (hobeys (acceptedThenRejected.take 2) _ [] rfl).rejectedInTime rfl (by decide)

end

end UatCallerTrace
