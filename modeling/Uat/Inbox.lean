import Uat.Incoming

/-! # The inbox — from the finished call to the client that polls

    Each inbound call that returned an outcome offers an event to a bounded channel; a
    task of the local socket forwards the events, one by one, into a slot; a client that
    polls takes what is in the slot.

    Whatever happens, what is left of the events is in order (`step_kept`): the stages of
    the pipeline never duplicate or reorder.  They drop, in four places, and
    `inbox_conserved_iff` says that an event is lost exactly when one of them is reached:
    the channel is full or closed, the slot still holds an event when the next one comes,
    the answer to a poll does not reach its client, or the forwarder stops before the
    channel is empty. -/

namespace UatInbox

open UatTypes UatRecord UatIncoming StepRun

/-- `mpsc::channel(32)`. -/
def inboxCapacity : Nat := 32

/-- The task that moves events from the channel to the slot. -/
inductive Forwarder where
  /-- The local socket is not spawned; the node keeps the receiver. -/
  | unspawned
  /-- In the `select` of shutdown and `inbox_rx.recv()`. -/
  | waiting
  /-- Waiting for the slot's lock, with the event that was received. -/
  | holding (ev : InboxEvent)
  /-- Ended, the receiver dropped. -/
  | stopped
  deriving DecidableEq

/-- The event in the forwarder's hand. -/
def Forwarder.hand : Forwarder → List InboxEvent
  | .holding ev => [ev]
  | _ => []

/-- The channel, the forwarder and the slot of a node, the answers its clients got, and
    the events of the calls that returned an outcome. -/
structure Inbox where
  channel : List InboxEvent
  forwarder : Forwarder
  latestInbox : Option InboxEvent
  shutdown : Bool
  returned : List InboxEvent
  finished : List InboxEvent
  deriving DecidableEq

/-- An empty inbox, whose forwarder has not been spawned. -/
def Inbox.start : Inbox := ⟨[], .unspawned, none, false, [], []⟩

/-- What can happen around the inbox. -/
inductive Ev where
  /-- `run_callee_with` returned in some `handle_incoming`. -/
  | finish (peer : NodeId) (result : Except CallError Outcome)
  | spawn
  /-- The forwarder receives the next event. -/
  | recv
  /-- The forwarder has the lock and fills the slot. -/
  | store
  /-- A client polls; `answered` says whether the answer could be written to it. -/
  | poll (answered : Bool)
  | shutdown
  /-- The forwarder sees the shutdown and ends. -/
  | stop

/-- `inbox_tx.try_send(ev)`, whose error is ignored. -/
def Inbox.trySend (s : Inbox) (ev : InboxEvent) : Inbox :=
  if s.forwarder ≠ .stopped ∧ s.channel.length < inboxCapacity then
    { s with channel := s.channel ++ [ev] }
  else s

/-- One step around the inbox. -/
def step (s : Inbox) : Ev → Option Inbox
  | .finish peer result =>
      match (afterCall peer result).2 with
      | some ev => some { s.trySend ev with finished := s.finished ++ [ev] }
      | none => some s
  | .spawn =>
      if s.forwarder = .unspawned then some { s with forwarder := .waiting } else none
  | .recv =>
      match s.forwarder, s.channel with
      | .waiting, ev :: channel =>
          -- The `select` is biased: shutdown comes first.
          if s.shutdown then none
          else some { s with channel := channel, forwarder := .holding ev }
      | _, _ => none
  | .store =>
      match s.forwarder with
      | .holding ev => some { s with latestInbox := some ev, forwarder := .waiting }
      | _ => none
  | .poll answered =>
      let taken := if answered then s.latestInbox.toList else []
      some { s with latestInbox := none, returned := s.returned ++ taken }
  | .shutdown => some { s with shutdown := true }
  | .stop =>
      if s.forwarder = .waiting ∧ s.shutdown then
        some { s with forwarder := .stopped, channel := [] }
      else none

/-! ## What is left of the events -/

/-- The events that were returned, and those that still can be, oldest first. -/
def Inbox.kept (s : Inbox) : List InboxEvent :=
  s.returned ++ (s.latestInbox.toList ++ (s.forwarder.hand ++ s.channel))

/-- **The property.** Every event was returned by one poll or is still on its way, and the
    polls return the events in the order of their calls. -/
structure Conserved (s : Inbox) : Prop where
  multiset : s.finished.Perm s.kept
  ordered : s.returned.Sublist s.finished

/-- The step drops no event. -/
def DropsNothing (s : Inbox) : Ev → Prop
  | .finish peer result => (afterCall peer result).2 ≠ none →
      s.forwarder ≠ .stopped ∧ s.channel.length < inboxCapacity
  | .store => s.latestInbox = none
  | .poll answered => answered = false → s.latestInbox = none
  | .stop => s.channel = []
  | _ => True

/-- What a step does to the events. -/
inductive Flow (s s' : Inbox) (e : Ev) : Prop where
  /-- A new event came in. -/
  | enqueued (ev : InboxEvent) (hfinished : s'.finished = s.finished ++ [ev])
      (hkept : s'.kept = s.kept ++ [ev]) (hdrops : DropsNothing s e)
  /-- The events moved on. -/
  | moved (hfinished : s'.finished = s.finished) (hkept : s'.kept = s.kept)
      (hdrops : DropsNothing s e)
  /-- The new event was dropped. -/
  | refused (ev : InboxEvent) (hfinished : s'.finished = s.finished ++ [ev])
      (hkept : s'.kept = s.kept) (hdrops : ¬ DropsNothing s e)
  /-- Events that were on their way were dropped. -/
  | dropped (hfinished : s'.finished = s.finished) (hkept : s'.kept.Sublist s.kept)
      (hshorter : s'.kept.length < s.kept.length) (hdrops : ¬ DropsNothing s e)

/-- `try_send` queues the event, or loses it. -/
theorem trySend_flow {s : Inbox} {peer : NodeId} {result : Except CallError Outcome}
    {ev : InboxEvent} (hev : (afterCall peer result).2 = some ev) :
    Flow s { s.trySend ev with finished := s.finished ++ [ev] } (.finish peer result) := by
  have hsome : (afterCall peer result).2 ≠ none := by rw [hev]; nofun
  rw [Inbox.trySend]
  by_cases hroom : s.forwarder ≠ .stopped ∧ s.channel.length < inboxCapacity
  · rw [if_pos hroom]
    refine .enqueued ev rfl ?_ fun _ => hroom
    simp only [Inbox.kept, List.append_assoc]
  · rw [if_neg hroom]
    exact .refused ev rfl rfl fun h => hroom (h hsome)

/-- **The step lemma.**  A step takes an event in, moves the events on, or drops. -/
theorem step_flow {s s' : Inbox} {e : Ev} (hs : step s e = some s') : Flow s s' e := by
  -- `try_send`, the slot and the forwarder's stop are where events get lost.
  cases e with
  | finish peer result =>
      cases hev : (afterCall peer result).2 with
      | some ev =>
          simp only [step, hev] at hs
          obtain rfl := Option.some.inj hs
          exact trySend_flow hev
      | none =>
          simp only [step, hev] at hs
          obtain rfl := Option.some.inj hs
          exact .moved rfl rfl fun hsome => absurd hev hsome
  | spawn =>
      obtain ⟨hforwarder, hs⟩ := Option.ite_none_right_eq_some.mp hs
      obtain rfl := Option.some.inj hs
      refine .moved rfl ?_ trivial
      simp only [Inbox.kept, hforwarder, Forwarder.hand]
  | recv =>
      simp only [step] at hs
      split at hs
      · next ev channel hforwarder hchannel =>
          obtain ⟨-, hs⟩ := Option.ite_none_left_eq_some.mp hs
          obtain rfl := Option.some.inj hs
          refine .moved rfl ?_ trivial
          simp only [Inbox.kept, hforwarder, hchannel, Forwarder.hand, List.nil_append,
            List.singleton_append]
      · cases hs
  | store =>
      simp only [step] at hs
      split at hs
      · next ev hforwarder =>
          obtain rfl := Option.some.inj hs
          cases hslot : s.latestInbox with
          | none =>
              refine .moved rfl ?_ hslot
              simp only [Inbox.kept, hforwarder, hslot, Forwarder.hand, Option.toList,
                List.nil_append]
          | some old =>
              refine .dropped rfl ?_ ?_ fun hdrops => nomatch hslot.symm.trans hdrops
              · simp [Inbox.kept, hforwarder, hslot, Forwarder.hand]
              · simp [Inbox.kept, hforwarder, hslot, Forwarder.hand]
      · cases hs
  | poll answered =>
      obtain rfl := Option.some.inj hs
      cases hslot : s.latestInbox with
      | none =>
          refine .moved rfl ?_ fun _ => hslot
          cases answered <;> simp [Inbox.kept, hslot]
      | some ev =>
          cases answered with
          | true =>
              refine .moved rfl ?_ nofun
              simp [Inbox.kept, hslot]
          | false =>
              refine .dropped rfl ?_ ?_ fun hdrops => nomatch hslot.symm.trans (hdrops rfl)
              · simp [Inbox.kept, hslot]
              · simp [Inbox.kept, hslot]
  | shutdown =>
      obtain rfl := Option.some.inj hs
      exact .moved rfl rfl trivial
  | stop =>
      obtain ⟨⟨hforwarder, -⟩, hs⟩ := Option.ite_none_right_eq_some.mp hs
      obtain rfl := Option.some.inj hs
      cases hchannel : s.channel with
      | nil =>
          refine .moved rfl ?_ hchannel
          simp only [Inbox.kept, hforwarder, hchannel, Forwarder.hand]
      | cons ev channel =>
          refine .dropped rfl ?_ ?_ fun hdrops => nomatch hchannel.symm.trans hdrops
          · simp [Inbox.kept, hforwarder, hchannel, Forwarder.hand]
          · simp [Inbox.kept, hforwarder, hchannel, Forwarder.hand]

/-- **The order is kept**, by every step: what is left is what came in, less what was
    dropped. -/
theorem step_kept {s s' : Inbox} {e : Ev} (h : s.kept.Sublist s.finished)
    (hs : step s e = some s') : s'.kept.Sublist s'.finished := by
  cases step_flow hs with
  | enqueued ev hfinished hkept _ =>
      rw [hfinished, hkept]
      exact h.append_right [ev]
  | moved hfinished hkept _ =>
      rw [hfinished, hkept]
      exact h
  | refused ev hfinished hkept _ =>
      rw [hfinished, hkept]
      exact h.trans (List.sublist_append_left _ _)
  | dropped hfinished hkept _ _ =>
      rw [hfinished]
      exact hkept.trans h

/-- As many events are left as came in. -/
def NoneMissing (s : Inbox) : Prop := s.finished.length ≤ s.kept.length

/-- Everything is conserved when nothing is missing. -/
theorem conserved_iff {s : Inbox} (h : s.kept.Sublist s.finished) :
    Conserved s ↔ NoneMissing s := by
  constructor
  · intro hconserved
    exact le_of_eq hconserved.multiset.length_eq
  · intro hlength
    -- A sublist as long as the list is the list.
    have hsame : s.kept = s.finished := h.eq_of_length (le_antisymm h.length_le hlength)
    refine ⟨by rw [hsame], ?_⟩
    exact (List.sublist_append_left _ _).trans h

/-- A step from a state in which no event is missing. -/
theorem step_noneMissing {s s' : Inbox} {e : Ev} (h : s.kept.Sublist s.finished)
    (hnone : NoneMissing s) (hs : step s e = some s') : NoneMissing s' ↔ DropsNothing s e := by
  have hlength := h.length_le
  rw [NoneMissing] at hnone ⊢
  cases step_flow hs with
  | enqueued ev hfinished hkept hdrops =>
      rw [hfinished, hkept, List.length_append, List.length_append]
      exact ⟨fun _ => hdrops, fun _ => Nat.add_le_add_right hnone _⟩
  | moved hfinished hkept hdrops =>
      rw [hfinished, hkept]
      exact ⟨fun _ => hdrops, fun _ => hnone⟩
  | refused ev hfinished hkept hdrops =>
      rw [hfinished, hkept, List.length_append, List.length_singleton]
      exact ⟨fun hle => absurd hle (by omega), fun h => absurd h hdrops⟩
  | dropped hfinished _ hshorter hdrops =>
      rw [hfinished]
      exact ⟨fun hle => absurd hle (by omega), fun h => absurd h hdrops⟩

/-- What is missing stays missing. -/
theorem step_missing {s s' : Inbox} {e : Ev} (hmissing : ¬ NoneMissing s)
    (hs : step s e = some s') : ¬ NoneMissing s' := by
  rw [NoneMissing] at hmissing ⊢
  cases step_flow hs with
  | enqueued ev hfinished hkept _ =>
      rw [hfinished, hkept, List.length_append, List.length_append]
      omega
  | moved hfinished hkept _ =>
      rw [hfinished, hkept]
      exact hmissing
  | refused ev hfinished hkept _ =>
      rw [hfinished, hkept, List.length_append]
      omega
  | dropped hfinished _ hshorter _ =>
      rw [hfinished]
      omega

/-- **NO INBOX EVENT IS LOST OR DUPLICATED, EXACTLY WHEN NO STAGE DROPS ONE.**  For every
    interleaving of finished calls, forwarding steps and polls, the events are conserved
    and returned in order if and only if every finished call finds room in an open
    channel, every forwarded event and every unanswered poll an empty slot, and the
    forwarder stops on an empty channel. -/
theorem inbox_conserved_iff (es : List Ev) (s : Inbox) (hrun : runFrom step .start es = some s) :
    Conserved s ↔ EveryStep step DropsNothing .start es := by
  have hkept : s.kept.Sublist s.finished :=
    run_invariant _ (fun _ _ _ h hs => step_kept h hs) es _ s (List.Sublist.refl _) hrun
  rw [conserved_iff hkept]
  refine run_exact (J := fun s => s.kept.Sublist s.finished) (Q := fun _ => True) ?_ ?_ es _ s
    (fun _ _ => trivial) (List.Sublist.refl _) (Nat.le_refl 0) hrun
  · intro s e s' h hnone _ hs
    exact ⟨step_noneMissing h hnone hs, fun _ => step_kept h hs⟩
  · intro s e s' hmissing _ hs
    exact step_missing hmissing hs

/-! ## Two calls between two polls -/

section

def callerOne : NodeId := sampleNode 1

def callerTwo : NodeId := sampleNode 2

/-- The client polls after each event. -/
def pollEach : List Ev :=
  [.spawn, .finish callerOne (.ok .completed), .recv, .store, .poll true,
    .finish callerTwo (.ok .completed), .recv, .store, .poll true]

theorem inbox_conserved_iff_pollEach :
    ∃ s, runFrom step .start pollEach = some s ∧
      s.returned = [⟨callerOne, .completed⟩, ⟨callerTwo, .completed⟩] ∧
      (Conserved s ↔ EveryStep step DropsNothing .start pollEach) :=
  ⟨_, rfl, rfl, inbox_conserved_iff pollEach _ rfl⟩

/-- Both events are forwarded before the client polls. -/
def pollLate : List Ev :=
  [.spawn, .finish callerOne (.ok .completed), .recv, .store,
    .finish callerTwo (.ok .completed), .recv, .store, .poll true]

/-- The second event overwrites the first one in the slot. -/
theorem unread_event_is_overwritten :
    ¬ ∀ (es : List Ev) (s : Inbox), runFrom step .start es = some s → Conserved s := by
  intro h
  have hlength := (h pollLate _ rfl).multiset.length_eq
  exact absurd hlength (by decide)

end

end UatInbox
