import Mathlib.Data.List.Basic
import Uat.Base.StepRun

/-! # `node.sock` — who owns the socket file

    The daemons of one `UAT_HOME` and the directory entry they share.  `bind_sock` is four
    system calls with gaps between them, and the file is unlinked by its path at three
    places: by a starter that takes it for stale, at the end of the accept loop, and again
    in `Node::shutdown`, after the wait for the tasks.

    Nothing ties an unlink to the file it is meant for.  `sock_owned` says what the
    interleavings have to respect for the ownership to hold: nobody comes between a
    starter's probe and its unlink, between its check and its `bind`, or between the two
    unlinks of a daemon that shuts down. -/

namespace UatSockFile

open StepRun

/-- Where a daemon is.  Files are numbered in the order of their creation. -/
inductive Phase where
  | absent
  /-- `bind_sock` is about to ask whether the path exists. -/
  | starting
  /-- The path exists: about to connect to it. -/
  | probing
  /-- The probe failed on the file that was at the path then: about to remove it. -/
  | stale (probed : Option Nat)
  | binding
  /-- Bound: about to set the mode of the file at the path. -/
  | bound (file : Nat)
  /-- In the accept loop. -/
  | serving (file : Nat)
  /-- The accept loop has ended, `remove_sock_file` comes next; the listener is open. -/
  | unlinking (file : Nat)
  /-- `Node::shutdown` waits for the tasks and will remove the path again. -/
  | draining
  | over
  deriving DecidableEq

/-- The file that the daemon's open listener is bound to. -/
def Phase.listener : Phase → Option Nat
  | .bound file | .serving file | .unlinking file => some file
  | _ => none

/-- The daemon accepts. -/
def Phase.isServing : Phase → Bool
  | .serving _ => true
  | _ => false

/-- How `bind_sock` ends. -/
inductive StartEnd where
  | alreadyRunning
  | io
  | running
  deriving DecidableEq

/-- The end of a start, and whether some daemon was serving then. -/
structure Start where
  result : StartEnd
  whileServing : Bool
  deriving DecidableEq

/-- The file at the path, the daemons, and the starts that have ended. -/
structure World where
  entry : Option Nat
  nextFile : Nat
  launched : Nat
  phase : Nat → Phase
  starts : List Start

/-- No daemon yet; a stale file may have been left behind. -/
def World.start (left : Bool) : World :=
  ⟨if left then some 0 else none, 1, 0, fun _ => .absent, []⟩

def World.set (w : World) (d : Nat) (p : Phase) : World :=
  { w with phase := fun i => if i = d then p else w.phase i }

/-- Some daemon accepts. -/
def World.someServing (w : World) : Bool :=
  (List.range w.launched).any fun i => (w.phase i).isServing

/-- Does a listener stand behind the file at the path? -/
def World.listening (w : World) : Bool :=
  (List.range w.launched).any fun i => decide ((w.phase i).listener ≠ none) &&
    decide ((w.phase i).listener = w.entry)

/-- A start ends. -/
def World.ends (w : World) (d : Nat) (result : StartEnd) (p : Phase) : World :=
  { w.set d p with starts := w.starts ++ [⟨result, w.someServing⟩] }

/-- What the daemons do, and what befalls them. -/
inductive Ev where
  | launch
  | check (d : Nat)
  /-- `UnixStream::connect`; even a listening socket can fail to answer. -/
  | probe (d : Nat) (answered : Bool)
  | remove (d : Nat)
  | bind (d : Nat)
  | setMode (d : Nat)
  /-- Shutdown, or an error of `accept`. -/
  | loopEnds (d : Nat)
  | unlink (d : Nat)
  | shutdown (d : Nat)
  | kill (d : Nat)

/-- One system call of one daemon, or what befalls it. -/
def step (w : World) : Ev → Option World
  | .launch => some { w.set w.launched .starting with launched := w.launched + 1 }
  | .check d =>
      match w.phase d with
      | .starting => some (w.set d (if w.entry.isSome then .probing else .binding))
      | _ => none
  | .probe d answered =>
      match w.phase d with
      | .probing =>
          if answered then
            if w.listening then some (w.ends d .alreadyRunning .over) else none
          else some (w.set d (.stale w.entry))
      | _ => none
  | .remove d =>
      match w.phase d with
      | .stale _ =>
          match w.entry with
          | none => some (w.ends d .io .over)
          | some _ => some { w.set d .binding with entry := none }
      | _ => none
  | .bind d =>
      match w.phase d with
      | .binding =>
          match w.entry with
          | none =>
              some { w.set d (.bound w.nextFile) with
                entry := some w.nextFile
                nextFile := w.nextFile + 1 }
          | some _ => some (w.ends d .io .over)
      | _ => none
  | .setMode d =>
      match w.phase d with
      | .bound file =>
          if w.entry.isSome then some (w.ends d .running (.serving file))
          else some (w.ends d .io .over)
      | _ => none
  | .loopEnds d =>
      match w.phase d with
      | .serving file => some (w.set d (.unlinking file))
      | _ => none
  | .unlink d =>
      match w.phase d with
      | .unlinking _ => some { w.set d .draining with entry := none }
      | _ => none
  | .shutdown d =>
      match w.phase d with
      | .draining => some { w.set d .over with entry := none }
      | _ => none
  | .kill d =>
      match w.phase d with
      | .absent | .over => none
      | _ => some (w.set d .over)

/-! ## The property, and what it takes -/

/-- **The property.** The path leads to the socket of every daemon that serves, and who
    started while one served got `AlreadyRunning`. -/
structure Owned (w : World) : Prop where
  path : ∀ d file, w.phase d = .serving file → w.entry = some file
  starters : ∀ a ∈ w.starts, a.whileServing = true → a.result = .alreadyRunning

/-- Nobody comes in between: a socket with a listener answers the probe, the file a starter
    removes is the one it probed, and the path is free where a starter binds and where a
    daemon that has removed its socket removes the path again. -/
def InTurn (w : World) : Ev → Prop
  | .probe _ answered => w.listening = true → answered = true
  | .remove d => w.phase d = .stale w.entry
  | .bind _ | .shutdown _ => w.entry = none
  | _ => True

/-- At most one daemon listens, behind the file at the path, and what a probe found dead
    stays so. -/
structure Sound (w : World) : Prop where
  owned : ∀ d file, (w.phase d).listener = some file → w.entry = some file
  single : ∀ d d', (w.phase d).listener ≠ none → (w.phase d').listener ≠ none → d = d'
  dead : ∀ d file, w.phase d = .stale (some file) →
    file < w.nextFile ∧ ∀ d', (w.phase d').listener ≠ some file
  old : ∀ file, w.entry = some file → file < w.nextFile
  launched : ∀ d, w.launched ≤ d → w.phase d = .absent
  starters : ∀ a ∈ w.starts, a.whileServing = true → a.result = .alreadyRunning

@[simp] theorem set_phase_self (w : World) (d : Nat) (p : Phase) : (w.set d p).phase d = p :=
  if_pos rfl

theorem set_phase_ne (w : World) {d i : Nat} (p : Phase) (h : i ≠ d) :
    (w.set d p).phase i = w.phase i := if_neg h

/-- Some daemon serves. -/
theorem someServing_iff {w : World} (h : ∀ d, w.launched ≤ d → w.phase d = .absent) :
    w.someServing = true ↔ ∃ d file, w.phase d = .serving file := by
  rw [World.someServing]
  rw [List.any_eq_true]
  constructor
  · rintro ⟨d, -, hserving⟩
    cases hphase : w.phase d with
    | serving file => exact ⟨d, file, hphase⟩
    | _ => rw [hphase] at hserving; cases hserving
  · rintro ⟨d, file, hphase⟩
    refine ⟨d, List.mem_range.mpr (Nat.lt_of_not_le fun hle => ?_), by rw [hphase]; rfl⟩
    cases hphase.symm.trans (h d hle)

/-- A listener stands behind the path. -/
theorem listening_of_listener {w : World} (h : ∀ d, w.launched ≤ d → w.phase d = .absent)
    {d file : Nat} (hlistener : (w.phase d).listener = some file)
    (hentry : w.entry = some file) : w.listening = true := by
  rw [World.listening]
  rw [List.any_eq_true]
  refine ⟨d, List.mem_range.mpr (Nat.lt_of_not_le fun hle => ?_), ?_⟩
  · rw [h d hle] at hlistener
    cases hlistener
  · rw [hlistener, hentry]
    simp

/-- With no listener behind the path nobody serves. -/
theorem Sound.nobody_serves {w : World} (h : Sound w)
    (hnone : ∀ d, (w.phase d).listener = none) : w.someServing = false := by
  refine Bool.eq_false_iff.mpr fun hserving => ?_
  obtain ⟨d, file, hphase⟩ := (someServing_iff h.launched).mp hserving
  have hlistener := hnone d
  rw [hphase] at hlistener
  cases hlistener

/-- At a free path nobody listens. -/
theorem Sound.free {w : World} (h : Sound w) (hentry : w.entry = none) (d : Nat) :
    (w.phase d).listener = none := by
  cases hlistener : (w.phase d).listener with
  | none => rfl
  | some file => cases hentry.symm.trans (h.owned d file hlistener)

/-! ## One step -/

/-- A daemon that is there. -/
theorem Sound.present {w : World} (h : Sound w) {d : Nat} (hphase : w.phase d ≠ .absent) :
    d < w.launched := Nat.lt_of_not_le fun hle => hphase (h.launched d hle)

/-- A daemon moves on without touching the path: it keeps its listener or gives it up. -/
theorem Sound.move {w : World} (h : Sound w) {d : Nat} {p : Phase} (hd : d < w.launched)
    (hlistener : p.listener = none ∨ p.listener = (w.phase d).listener)
    (hdead : ∀ file, p = .stale (some file) →
      file < w.nextFile ∧ ∀ d', (w.phase d').listener ≠ some file) : Sound (w.set d p) := by
  have hkept : ∀ i file, ((w.set d p).phase i).listener = some file →
      (w.phase i).listener = some file := by
    intro i file hi
    by_cases hid : i = d
    · subst hid
      rw [set_phase_self] at hi
      rcases hlistener with hnone | hsame
      · cases hnone.symm.trans hi
      · exact hsame.symm.trans hi
    · rw [set_phase_ne w p hid] at hi
      exact hi
  have hlistens : ∀ i, ((w.set d p).phase i).listener ≠ none → (w.phase i).listener ≠ none := by
    intro i hi
    obtain ⟨file, hfile⟩ := Option.ne_none_iff_exists'.mp hi
    rw [hkept i file hfile]
    nofun
  refine ⟨fun i file hi => h.owned i file (hkept i file hi),
    fun i j hi hj => h.single i j (hlistens i hi) (hlistens j hj), fun i file hi => ?_, h.old,
    fun i hle => ?_, h.starters⟩
  · have hold : file < w.nextFile ∧ ∀ d', (w.phase d').listener ≠ some file := by
      by_cases hid : i = d
      · subst hid
        rw [set_phase_self] at hi
        exact hdead file hi
      · rw [set_phase_ne w p hid] at hi
        exact h.dead i file hi
    exact ⟨hold.1, fun d' hd' => hold.2 d' (hkept d' file hd')⟩
  · rw [set_phase_ne w p (by rintro rfl; exact absurd hd (Nat.not_lt.mpr hle))]
    exact h.launched i hle

/-- The end of a start is recorded. -/
theorem Sound.ends {w : World} {d : Nat} {p : Phase} {result : StartEnd}
    (h : Sound (w.set d p)) (hresult : w.someServing = true → result = .alreadyRunning) :
    Sound (w.ends d result p) := by
  refine ⟨h.owned, h.single, h.dead, h.old, h.launched, ?_⟩
  show ∀ a ∈ w.starts ++ [⟨result, w.someServing⟩], _
  rw [List.forall_mem_append, List.forall_mem_singleton]
  exact ⟨h.starters, hresult⟩

/-- The path is cleared, and nobody listened behind it, or the only one to do so gives its
    listener up. -/
theorem Sound.clear {w : World} (h : Sound w) {d : Nat} {p : Phase} (hd : d < w.launched)
    (hlistener : p.listener = none) (hstale : ∀ file, p ≠ .stale (some file))
    (hothers : ∀ i, i ≠ d → (w.phase i).listener = none) :
    Sound { w.set d p with entry := none } := by
  have hmoved : Sound (w.set d p) :=
    h.move hd (Or.inl hlistener) fun file hp => absurd hp (hstale file)
  have hnobody : ∀ i, ((w.set d p).phase i).listener = none := by
    intro i
    by_cases hid : i = d
    · rw [hid, set_phase_self]
      exact hlistener
    · rw [set_phase_ne w p hid]
      exact hothers i hid
  refine ⟨fun i file hi => ?_, hmoved.single, hmoved.dead, nofun, hmoved.launched,
    hmoved.starters⟩
  cases (hnobody i).symm.trans hi

/-- A daemon binds a free path. -/
theorem Sound.binds {w : World} (h : Sound w) {d : Nat} (hd : d < w.launched)
    (hentry : w.entry = none) :
    Sound { w.set d (.bound w.nextFile) with
      entry := some w.nextFile
      nextFile := w.nextFile + 1 } := by
  have hnobody := h.free hentry
  have honly : ∀ i file, ((w.set d (.bound w.nextFile)).phase i).listener = some file →
      i = d ∧ file = w.nextFile := by
    intro i file hi
    by_cases hid : i = d
    · subst hid
      rw [set_phase_self] at hi
      exact ⟨rfl, (Option.some.inj hi).symm⟩
    · rw [set_phase_ne w _ hid, hnobody i] at hi
      cases hi
  refine ⟨fun i file hi => ?_, fun i j hi hj => ?_, fun i file hi => ?_, fun file hfile => ?_,
    fun i hle => ?_, h.starters⟩
  · rw [(honly i file hi).2]
  · obtain ⟨file, hfile⟩ := Option.ne_none_iff_exists'.mp hi
    obtain ⟨file', hfile'⟩ := Option.ne_none_iff_exists'.mp hj
    exact (honly i file hfile).1.trans (honly j file' hfile').1.symm
  · have hid : i ≠ d := by
      rintro rfl
      cases (set_phase_self w i _).symm.trans hi
    have hstale : w.phase i = .stale (some file) := (set_phase_ne w _ hid).symm.trans hi
    refine ⟨Nat.lt_succ_of_lt (h.dead i file hstale).1, fun d' hd' => ?_⟩
    have hlt := (h.dead i file hstale).1
    rw [(honly d' file hd').2] at hlt
    exact absurd hlt (Nat.lt_irrefl _)
  · obtain rfl := Option.some.inj hfile
    exact Nat.lt_succ_self _
  · exact (set_phase_ne w _ (by rintro rfl; exact absurd hd (Nat.not_lt.mpr hle))).trans
      (h.launched i hle)

/-- A daemon is launched. -/
theorem Sound.launch {w : World} (h : Sound w) :
    Sound { w.set w.launched .starting with launched := w.launched + 1 } := by
  have hroom : Sound { w with launched := w.launched + 1 } :=
    ⟨h.owned, h.single, h.dead, h.old,
      fun i hle => h.launched i (Nat.le_of_succ_le hle), h.starters⟩
  exact hroom.move (Nat.lt_succ_self _) (Or.inl rfl) nofun

/-- A probe: an answer ends the start, silence makes the file stale. -/
theorem probe_sound {w w' : World} {d : Nat} {answered : Bool} (h : Sound w)
    (hturn : InTurn w (.probe d answered)) (hs : step w (.probe d answered) = some w') :
    Sound w' := by
  simp only [step] at hs
  split at hs
  · next hphase =>
      have hd := h.present (by rw [hphase]; nofun)
      cases answered with
      | true =>
          rw [if_pos rfl] at hs
          obtain ⟨-, hs⟩ := Option.ite_none_right_eq_some.mp hs
          obtain rfl := Option.some.inj hs
          exact Sound.ends (h.move hd (Or.inl rfl) nofun) fun _ => rfl
      | false =>
          obtain rfl := Option.some.inj hs
          refine h.move hd (Or.inl rfl) fun file hp => ?_
          have hentry : w.entry = some file := Phase.stale.inj hp
          refine ⟨h.old file hentry, fun d' hd' => ?_⟩
          -- A listener behind the path would have answered.
          cases hturn (listening_of_listener h.launched hd' hentry)
  · cases hs

/-- An unlink at the start: what is taken away is the stale file that was probed. -/
theorem remove_sound {w w' : World} {d : Nat} (h : Sound w) (hturn : InTurn w (.remove d))
    (hs : step w (.remove d) = some w') : Sound w' := by
  simp only [step] at hs
  split at hs
  · next probed hphase =>
      have hd := h.present (by rw [hphase]; nofun)
      have hsame : w.phase d = .stale w.entry := hturn
      split at hs
      · next hentry =>
          obtain rfl := Option.some.inj hs
          refine Sound.ends (h.move hd (Or.inl rfl) nofun) fun hserving => ?_
          cases (h.nobody_serves (h.free hentry)).symm.trans hserving
      · next file hentry =>
          obtain rfl := Option.some.inj hs
          rw [hentry] at hsame
          refine h.clear hd rfl nofun fun i _ => ?_
          cases hlistener : (w.phase i).listener with
          | none => rfl
          | some file' =>
              have hpath := h.owned i file' hlistener
              obtain rfl := Option.some.inj (hentry.symm.trans hpath)
              exact absurd hlistener ((h.dead d file hsame).2 i)
  · cases hs

/-- The end of a start: nobody else serves then, for the path leads to this listener. -/
theorem setMode_sound {w w' : World} {d : Nat} (h : Sound w)
    (hs : step w (.setMode d) = some w') : Sound w' := by
  simp only [step] at hs
  split at hs
  · next file hphase =>
      have hd := h.present (by rw [hphase]; nofun)
      have hlistener : (w.phase d).listener = some file := by rw [hphase]; rfl
      have hentry := h.owned d file hlistener
      rw [hentry] at hs
      obtain rfl := Option.some.inj hs
      refine Sound.ends (h.move hd (Or.inr ?_) nofun) fun hserving => ?_
      · rw [hlistener]
        rfl
      · obtain ⟨d', file', hphase'⟩ := (someServing_iff h.launched).mp hserving
        obtain rfl : d = d' :=
          h.single d d' (by rw [hlistener]; nofun) (by rw [hphase']; nofun)
        cases hphase.symm.trans hphase'
  · cases hs

/-- **The step lemma.**  A step that nobody comes in between of keeps the path sound. -/
theorem step_sound {w w' : World} {e : Ev} (h : Sound w) (hturn : InTurn w e)
    (hs : step w e = some w') : Sound w' := by
  cases e with
  | launch =>
      obtain rfl := Option.some.inj hs
      exact h.launch
  | check d =>
      simp only [step] at hs
      split at hs
      · next hphase =>
          obtain rfl := Option.some.inj hs
          refine h.move (h.present (by rw [hphase]; nofun)) (Or.inl ?_) fun file hp => ?_
          · split <;> rfl
          · split at hp <;> cases hp
      · cases hs
  | probe d answered => exact probe_sound h hturn hs
  | remove d => exact remove_sound h hturn hs
  | bind d =>
      simp only [step] at hs
      split at hs
      · next hphase =>
          have hd := h.present (by rw [hphase]; nofun)
          have hentry : w.entry = none := hturn
          rw [hentry] at hs
          obtain rfl := Option.some.inj hs
          exact h.binds hd hentry
      · cases hs
  | setMode d => exact setMode_sound h hs
  | loopEnds d =>
      simp only [step] at hs
      split at hs
      · next file hphase =>
          obtain rfl := Option.some.inj hs
          exact h.move (h.present (by rw [hphase]; nofun)) (Or.inr (by rw [hphase]; rfl)) nofun
      · cases hs
  | unlink d =>
      simp only [step] at hs
      split at hs
      · next file hphase =>
          obtain rfl := Option.some.inj hs
          refine h.clear (h.present (by rw [hphase]; nofun)) rfl nofun fun i hid => ?_
          -- The only listener is the one that is given up.
          refine Option.not_isSome_iff_eq_none.mp fun hsome => ?_
          exact hid (h.single i d (Option.isSome_iff_ne_none.mp hsome) (by rw [hphase]; nofun))
      · cases hs
  | shutdown d =>
      simp only [step] at hs
      split at hs
      · next hphase =>
          obtain rfl := Option.some.inj hs
          exact h.clear (h.present (by rw [hphase]; nofun)) rfl nofun fun i _ => h.free hturn i
      · cases hs
  | kill d =>
      simp only [step] at hs
      split at hs
      · cases hs
      · cases hs
      · next habsent _ =>
          obtain rfl := Option.some.inj hs
          exact h.move (h.present habsent) (Or.inl rfl) nofun

/-- Before any daemon all is sound, stale file or not. -/
theorem start_sound (left : Bool) : Sound (.start left) := by
  refine ⟨nofun, nofun, nofun, fun file hfile => ?_, fun _ _ => rfl, nofun⟩
  cases left with
  | true =>
      obtain rfl := Option.some.inj hfile
      exact Nat.zero_lt_one
  | false => cases hfile

/-- **THE SOCKET FILE IS OWNED WHILE NOBODY COMES IN BETWEEN.**  For every number of
    daemons and every interleaving of their steps, crashes included: if each unlink and
    each `bind` finds the path as its daemon has last seen it, and a listening socket
    answers its probes, then the path leads to the socket of every serving daemon in every
    state reached, and a start that ends while one serves ends with `AlreadyRunning`. -/
theorem sock_owned (left : Bool) (es : List Ev) (w : World)
    (hturn : EveryStep step InTurn (.start left) es)
    (hrun : runFrom step (.start left) es = some w) : Owned w := by
  have h : Sound w :=
    run_invariant_of (fun _ _ _ h hturn hs => step_sound h hturn hs) es _ w (start_sound left)
      hturn hrun
  refine ⟨fun d file hphase => h.owned d file ?_, h.starters⟩
  rw [hphase]
  rfl

/-- One daemon after the other, the second on the stale file of the first. -/
def oneByOne : List Ev :=
  [.launch, .check 0, .bind 0, .setMode 0, .launch, .check 1, .probe 1 true, .kill 0,
    .launch, .check 2, .probe 2 false, .remove 2, .bind 2, .setMode 2]

theorem sock_owned_oneByOne :
    ∃ w, runFrom step (.start false) oneByOne = some w ∧ w.phase 2 = .serving 2 ∧ Owned w := by
  refine ⟨_, rfl, rfl, sock_owned false oneByOne _ ?_ rfl⟩
  refine .cons trivial rfl <| .cons trivial rfl <| .cons rfl rfl <| .cons trivial rfl <|
    .cons trivial rfl <| .cons trivial rfl <| .cons (fun _ => rfl) rfl <| .cons trivial rfl <|
    .cons trivial rfl <| .cons trivial rfl <| .cons ?_ rfl <| .cons rfl rfl <| .cons rfl rfl <|
    .cons trivial rfl trivial
  exact fun hlistening => absurd hlistening (by decide)

/-- Two daemons find the same stale file; the second removes what the first has bound. -/
def bothFindStale : List Ev :=
  [.launch, .launch, .check 0, .probe 0 false, .check 1, .probe 1 false, .remove 0, .bind 0,
    .setMode 0, .remove 1, .bind 1, .setMode 1]

/-- The first daemon serves on a socket that no path leads to. -/
theorem serving_socket_is_replaced :
    ¬ ∀ (left : Bool) (es : List Ev) (w : World),
      runFrom step (.start left) es = some w → Owned w := by
  intro h
  have howned := h true bothFindStale _ rfl
  exact absurd (howned.path 0 1 rfl) (by decide)

end UatSockFile
