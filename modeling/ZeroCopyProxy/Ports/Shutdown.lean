import Mathlib.Tactic.ByContra
import ZeroCopyProxy.Verified.Transitions

/-!
# How the server and the client end

Both programs have two flags, `is_finish` for the SIGINT handler and
`is_error` between two threads.  The detector thread spins on them, and when
it sees `is_finish` it calls `server_destroy` and sets `is_error`.  `main`
stays in its loop until the check of the listening descriptor fails; then it
destroys the object itself if `is_finish` is not set, and otherwise waits for
the detector to be done.

The flags decide who destroys the object, but each thread reads one flag and
writes the other, so the decision is safe only if the detector is at its test
of `is_error` when `main` sets it (`destroyed_twice_iff`).  And nothing keeps
`main` from using the object while the detector frees it (`misusable_iff`).

The client has the same two ends, but it starts no detector and installs no
handler.
-/

namespace ZeroCopyProxy.Ports.Shutdown

open ZeroCopyProxy.Verified.Transitions

/-! ## The two threads -/

/-- Where `main` is, from its loop on. -/
inductive MainPc where
  | works
  | testsFinish
  | setsError
  | awaitsFinish
  | closes
  | frees
  | awaitsError
  | returned
  deriving DecidableEq

/-- Where `server_detect_finish` is. -/
inductive DetectorPc where
  | testsError
  | testsFinish
  | closes
  | frees
  | setsError
  | left
  deriving DecidableEq

/-- The flags, whether SIGINT still has its handler, the two threads, how
often the descriptor was closed and the object freed, whether freed memory
was used, and whether SIGINT has killed the process. -/
structure State where
  isFinish : Bool
  isError : Bool
  caught : Bool
  main : MainPc
  detector : DetectorPc
  closed : Nat
  freed : Nat
  misused : Bool
  killed : Bool
  deriving DecidableEq

/-- The server is in its loop, and no SIGINT has arrived. -/
def start : State where
  isFinish := false
  isError := false
  caught := true
  main := .works
  detector := .testsError
  closed := 0
  freed := 0
  misused := false
  killed := false

/-- The object is read or written. -/
def State.touch (s : State) : State := { s with misused := s.misused || decide (0 < s.freed) }

/-- `close( server->fd)`. -/
def State.close (s : State) : State := { s.touch with closed := s.closed + 1 }

/-- `free( server)`. -/
def State.free (s : State) : State := { s.touch with freed := s.freed + 1 }

/-- What `main` does behind its loop. -/
def mainStep (s : State) : Option State :=
  match s.main with
  | .works => none
  | .testsFinish => some { s with main := if s.isFinish then .awaitsError else .setsError }
  | .setsError => some { s with isError := true, main := .awaitsFinish }
  | .awaitsFinish => some { s with main := if s.isFinish then .closes else .awaitsFinish }
  | .closes => some { s.close with main := .frees }
  | .frees => some { s.free with main := .returned }
  | .awaitsError => some { s with main := if s.isError then .returned else .awaitsError }
  | .returned => none

/-- What `server_detect_finish` does. -/
def detectorStep (s : State) : Option State :=
  match s.detector with
  | .testsError => some { s with detector := if s.isError then .left else .testsFinish }
  | .testsFinish => some { s with detector := if s.isFinish then .closes else .testsError }
  | .closes => some { s.close with detector := .frees }
  | .frees => some { s.free with detector := .setsError }
  | .setsError => some { s with isError := true, detector := .left }
  | .left => none

/-- The signal is caught once, and the next one has its default effect. -/
def sigint (s : State) : State :=
  if s.caught then { s with isFinish := true, caught := false } else { s with killed := true }

/-- What happens next: `main` uses the object in its loop or finds the
descriptor closed and leaves, one of the threads takes a step, or SIGINT
arrives. -/
inductive Act where
  | work
  | leave
  | main
  | detector
  | sigint
  deriving DecidableEq

/-- The process is there. -/
def Alive (s : State) : Prop := s.killed = false ∧ s.main ≠ .returned

instance (s : State) : Decidable (Alive s) := inferInstanceAs (Decidable (_ ∧ _))

/-- One step of the server. -/
def step (s : State) (a : Act) : Option State :=
  if Alive s then
    match a with
    | .work => if s.main = .works then some s.touch else none
    | .leave => if s.main = .works then some { s.touch with main := .testsFinish } else none
    | .main => mainStep s
    | .detector => detectorStep s
    | .sigint => some (sigint s)
  else none

/-! ## Conditions on a run -/

/-- The detector is at its test of `is_error` when `main` sets it. -/
def Orderly (s : State) (a : Act) : Prop :=
  a = .main → s.main = .setsError → s.detector = .testsError

/-- The check of the descriptor fails only when it is closed. -/
def Honest (s : State) (a : Act) : Prop := a = .leave → 0 < s.closed

/-- `main` is out of its loop when the detector frees the object. -/
def Parted (s : State) (a : Act) : Prop :=
  a = .detector → s.detector = .frees → s.main ≠ .works

instance (s : State) (a : Act) : Decidable (Orderly s a) :=
  inferInstanceAs (Decidable (_ → _ → _))

instance (s : State) (a : Act) : Decidable (Honest s a) :=
  inferInstanceAs (Decidable (_ → _))

instance (s : State) (a : Act) : Decidable (Parted s a) :=
  inferInstanceAs (Decidable (_ → _ → _))

/-! ## What a step does -/

section Steps

variable {s s' : State} {a : Act}

/-- The ways a step is taken. -/
theorem step_cases (h : step s a = some s') : Alive s ∧
    (a = .work ∧ s.main = .works ∧ s' = s.touch ∨
      a = .leave ∧ s.main = .works ∧ s' = { s.touch with main := .testsFinish } ∨
      a = .main ∧ mainStep s = some s' ∨
      a = .detector ∧ detectorStep s = some s' ∨
      a = .sigint ∧ s' = sigint s) := by
  unfold step at h
  split at h
  · next hlive =>
      refine ⟨hlive, ?_⟩
      cases a with
      | work =>
          simp only [Option.ite_none_right_eq_some, Option.some.injEq] at h
          exact .inl ⟨rfl, h.1, h.2.symm⟩
      | leave =>
          simp only [Option.ite_none_right_eq_some, Option.some.injEq] at h
          exact .inr (.inl ⟨rfl, h.1, h.2.symm⟩)
      | main => exact .inr (.inr (.inl ⟨rfl, h⟩))
      | detector => exact .inr (.inr (.inr (.inl ⟨rfl, h⟩)))
      | sigint => exact .inr (.inr (.inr (.inr ⟨rfl, (Option.some.inj h).symm⟩)))
  · cases h

theorem step_main (h : step s .main = some s') : mainStep s = some s' := by
  obtain ⟨_, ⟨ha, _⟩ | ⟨ha, _⟩ | ⟨_, hm⟩ | ⟨ha, _⟩ | ⟨ha, _⟩⟩ := step_cases h
  · cases ha
  · cases ha
  · exact hm
  · cases ha
  · cases ha

/-- A thread that is not at its end takes a step of a living process. -/
theorem step_of_alive (hlive : Alive s) : step s .main = mainStep s ∧
    step s .detector = detectorStep s ∧ step s .sigint = some (sigint s) :=
  ⟨if_pos hlive, if_pos hlive, if_pos hlive⟩

/-- Only the two threads close the descriptor, one at a time. -/
theorem closed_step (h : step s a = some s') : s'.closed = s.closed ∨
    (a = .main ∨ a = .detector) ∧ s'.closed = s.closed + 1 := by
  obtain ⟨_, ⟨_, _, rfl⟩ | ⟨_, _, rfl⟩ | ⟨ha, hm⟩ | ⟨ha, hd⟩ | ⟨_, rfl⟩⟩ := step_cases h
  · exact .inl rfl
  · exact .inl rfl
  · unfold mainStep at hm
    split at hm <;> cases hm <;> first | exact .inl rfl | exact .inr ⟨.inl ha, rfl⟩
  · unfold detectorStep at hd
    split at hd <;> cases hd <;> first | exact .inl rfl | exact .inr ⟨.inr ha, rfl⟩
  · unfold sigint
    split <;> exact .inl rfl

theorem closed_same (h : step s a = some s') (hm : a ≠ .main) (hd : a ≠ .detector) :
    s'.closed = s.closed := (closed_step h).resolve_right fun hc => hc.1.elim hm hd

/-- A descriptor that is closed at most once was open until then. -/
theorem closed_first (h : step s a = some s') (honce : s'.closed ≤ 1) :
    (s.closed < s'.closed ∧ s'.closed = 1 ∧ s.closed = 0) ∨
      (¬ s.closed < s'.closed ∧ s'.closed = s.closed) := by
  rcases closed_step h with heq | ⟨_, heq⟩
  · exact .inr ⟨by omega, heq⟩
  · exact .inl ⟨by omega, by omega, by omega⟩

end Steps

/-! ## Who destroys the object -/

/-- Nobody has begun to destroy the object, or the detector has, or `main`. -/
inductive Shut (s : State) : Prop
  | nobody (hclosed : s.closed = 0) (hfreed : s.freed = 0) (herror : s.isError = false)
      (hmain : s.main = .works ∨ s.main = .testsFinish ∨ s.main = .setsError ∨
        s.main = .awaitsError ∧ s.isFinish = true)
      (hdetector : s.detector = .testsError ∨ s.detector = .testsFinish ∨
        s.detector = .closes ∧ s.isFinish = true)
  | detector (hfinish : s.isFinish = true) (hclosed : s.closed = 1)
      (hmain : s.main = .works ∨ s.main = .testsFinish ∨ s.main = .setsError ∨
        s.main = .awaitsError ∨ s.main = .returned ∧ s.isError = true)
      (hdetector : s.detector = .frees ∧ s.freed = 0 ∧ s.isError = false ∨
        s.detector = .setsError ∧ s.freed = 1 ∧ s.isError = false ∨
        s.detector = .left ∧ s.freed = 1 ∧ s.isError = true)
  | main (herror : s.isError = true)
      (hmain : s.main = .awaitsFinish ∧ s.closed = 0 ∧ s.freed = 0 ∨
        s.main = .closes ∧ s.closed = 0 ∧ s.freed = 0 ∨
        s.main = .frees ∧ s.closed = 1 ∧ s.freed = 0 ∨
        s.main = .returned ∧ s.closed = 1 ∧ s.freed = 1)
      (hdetector : s.detector = .testsError ∨ s.detector = .left)

section Orderly

variable {s s' : State} {a : Act}

theorem shut_start : Shut start :=
  .nobody rfl rfl rfl (.inl rfl) (.inl rfl)

/-- A step of `main` behind its loop. -/
theorem Shut.mainStep (h : Shut s) (ho : s.main = .setsError → s.detector = .testsError)
    (hs : mainStep s = some s') : Shut s' := by
  unfold Shutdown.mainStep at hs
  cases h with
  | nobody hclosed hfreed herror hmain hdetector =>
      -- it may set `is_error` here, and then the object is its own
      split at hs <;> cases hs <;> grind [Shut]
  | detector hfinish hclosed hmain hdetector =>
      split at hs <;> cases hs <;> grind [Shut]
  | main herror hmain hdetector =>
      split at hs <;> cases hs <;> grind [Shut, State.close, State.free, State.touch]

/-- A step of the detector. -/
theorem Shut.detectorStep (h : Shut s) (hs : detectorStep s = some s') : Shut s' := by
  unfold Shutdown.detectorStep at hs
  cases h with
  | nobody hclosed hfreed herror hmain hdetector =>
      -- it may close the descriptor here, and then the object is its own
      split at hs <;> cases hs <;> grind [Shut, State.close, State.touch]
  | detector hfinish hclosed hmain hdetector =>
      split at hs <;> cases hs <;> grind [Shut, State.free, State.touch]
  | main herror hmain hdetector =>
      split at hs <;> cases hs <;> grind [Shut]

/-- SIGINT moves neither thread. -/
theorem Shut.sigint (h : Shut s) : Shut (sigint s) := by
  unfold Shutdown.sigint
  cases h with
  | nobody hclosed hfreed herror hmain hdetector => split <;> grind [Shut]
  | detector hfinish hclosed hmain hdetector => split <;> grind [Shut]
  | main herror hmain hdetector => split <;> grind [Shut]

/-- In its loop `main` does nothing about the end. -/
theorem Shut.loop (h : Shut s) (hmain : s.main = .works) {pc : MainPc}
    (hpc : pc = .works ∨ pc = .testsFinish) : Shut { s.touch with main := pc } := by
  cases h with
  | nobody hclosed hfreed herror _ hdetector => grind [Shut, State.touch]
  | detector hfinish hclosed _ hdetector => grind [Shut, State.touch]
  | main herror hmain' hdetector => grind

theorem Shut.step (h : Shut s) (ho : Orderly s a) (hs : step s a = some s') : Shut s' := by
  obtain ⟨_, ⟨rfl, hm, rfl⟩ | ⟨rfl, hm, rfl⟩ | ⟨rfl, hm⟩ | ⟨rfl, hd⟩ | ⟨rfl, rfl⟩⟩ :=
    step_cases hs
  · have hsame : { s.touch with main := s.main } = s.touch := rfl
    rw [← hsame]
    exact h.loop hm (.inl hm)
  · exact h.loop hm (.inr rfl)
  · exact h.mainStep (ho rfl) hm
  · exact h.detectorStep hd
  · exact h.sigint

theorem shut_reach (hr : Reach Shutdown.step Orderly start s) : Shut s :=
  reach_invariant (fun _ h ho hs => h.step ho hs) hr shut_start

/-- With an honest check `main` never comes to set `is_error`. -/
theorem orderly_of_honest (hr : Reach Shutdown.step Honest start s) :
    Reach Shutdown.step Orderly start s ∧ s.main ≠ .setsError := by
  have hall : Reach Shutdown.step Orderly start s ∧ s.main ≠ .setsError ∧
      (s.main = .testsFinish → s.isFinish = true) := by
    refine reach_invariant (I := fun s => Reach Shutdown.step Orderly start s ∧
      s.main ≠ .setsError ∧ (s.main = .testsFinish → s.isFinish = true)) ?_ hr
      ⟨.refl, by decide, fun h => (by cases h)⟩
    rintro s a s' _ ⟨hi, hset, htests⟩ hc hs
    refine ⟨hi.tail ⟨a, fun _ hm => absurd hm hset, hs⟩, ?_⟩
    have hshut := shut_reach hi
    obtain ⟨_, ⟨_, hw, rfl⟩ | ⟨ha, hw, rfl⟩ | ⟨_, hst⟩ | ⟨_, hst⟩ | ⟨_, rfl⟩⟩ := step_cases hs
    · exact ⟨hset, htests⟩
    · refine ⟨fun h => (by cases h), fun _ => ?_⟩
      have hclosed := hc ha
      show s.isFinish = true
      cases hshut <;> grind
    · unfold Shutdown.mainStep at hst
      split at hst <;> cases hst <;> grind [State.close, State.free, State.touch]
    · unfold Shutdown.detectorStep at hst
      split at hst <;> cases hst <;> exact ⟨hset, htests⟩
    · unfold Shutdown.sigint
      split
      · exact ⟨hset, fun _ => rfl⟩
      · exact ⟨hset, htests⟩
  exact ⟨hall.1, hall.2.1⟩

theorem destroyed_of_shut (h : Shut s) :
    s.closed ≤ 1 ∧ s.freed ≤ 1 ∧ (s.main = .returned → s.closed = 1 ∧ s.freed = 1) := by
  cases h with
  | nobody hclosed hfreed herror hmain hdetector => grind
  | detector hfinish hclosed hmain hdetector => grind
  | main herror hmain hdetector => grind

/-- With an honest check the descriptor is closed at most once. -/
theorem closed_once (hr : Reach Shutdown.step Honest start s) : s.closed ≤ 1 :=
  (destroyed_of_shut (shut_reach (orderly_of_honest hr).1)).1

/-- **The object is destroyed at most once, and exactly once when `main`
returns**, in every run in which the detector is at its test of `is_error`
when `main` sets it. -/
theorem destroyed_once (hr : Reach Shutdown.step Orderly start s) :
    s.closed ≤ 1 ∧ s.freed ≤ 1 ∧ (s.main = .returned → s.closed = 1 ∧ s.freed = 1) :=
  destroyed_of_shut (shut_reach hr)

/-- One SIGINT, and the detector is done before `main` leaves its loop. -/
theorem destroyed_once_sigint :
    ∃ s, Reach Shutdown.step Orderly start s ∧ s.main = .returned ∧ s.freed = 1 := by
  have hrun := exists_reach_of_exec Shutdown.step Orderly start
    [.sigint, .detector, .detector, .detector, .detector, .detector, .leave, .main, .main]
    (fun s => s.main = .returned) (by decide)
  obtain ⟨s, hr, hm⟩ := hrun
  exact ⟨s, hr, hm, ((destroyed_once hr).2.2 hm).2⟩

/-! ## Both destroy it -/

/-- A handler that has not run is still there. -/
theorem caught_reach {C : State → Act → Prop} (hr : Reach Shutdown.step C start s) :
    s.caught = !s.isFinish := by
  refine reach_invariant (I := fun s => s.caught = !s.isFinish) ?_ hr rfl
  intro s a s' _ hi _ hs
  obtain ⟨_, ⟨_, _, rfl⟩ | ⟨_, _, rfl⟩ | ⟨_, hm⟩ | ⟨_, hd⟩ | ⟨_, rfl⟩⟩ := step_cases hs
  · exact hi
  · exact hi
  · unfold Shutdown.mainStep at hm
    split at hm <;> cases hm <;> exact hi
  · unfold Shutdown.detectorStep at hd
    split at hd <;> cases hd <;> exact hi
  · unfold Shutdown.sigint
    split
    · rfl
    · exact hi

/-- `main` has not yet set `is_error`. -/
def Undecided (s : State) : Prop :=
  s.main = .works ∨ s.main = .testsFinish ∨ s.main = .setsError

/-- `main` is behind the step that sets `is_error`. -/
def Decided (s : State) : Prop :=
  s.main = .awaitsFinish ∨ s.main = .closes ∨ s.main = .frees ∨ s.main = .returned

/-- As long as `main` has not set `is_error` the run was an orderly one. -/
theorem shut_of_undecided (hr : Reach Shutdown.step unconditional start s)
    (h : Undecided s ∨ s.main = .awaitsError) : Shut s := by
  have hall : (Undecided s ∨ s.main = .awaitsError → Shut s) := by
    refine reach_invariant (I := fun s => Undecided s ∨ s.main = .awaitsError → Shut s) ?_ hr
      fun _ => shut_start
    intro s a s' _ hi _ hs hu
    have hback : Undecided s ∨ s.main = .awaitsError := by
      obtain ⟨_, ⟨_, hm, _⟩ | ⟨_, hm, _⟩ | ⟨_, hm⟩ | ⟨_, hd⟩ | ⟨_, rfl⟩⟩ := step_cases hs
      · exact .inl (.inl hm)
      · exact .inl (.inl hm)
      · unfold Shutdown.mainStep at hm
        split at hm <;> cases hm <;> grind [Undecided, State.close, State.free, State.touch]
      · unfold Shutdown.detectorStep at hd
        split at hd <;> cases hd <;> exact hu
      · unfold Shutdown.sigint at hu
        split at hu <;> exact hu
    refine (hi hback).step (fun ha hmain => ?_) hs
    -- the step would have set `is_error`, and `main` would be behind it
    subst ha
    have hm := step_main hs
    rw [Shutdown.mainStep, hmain] at hm
    cases hm
    rcases hu with (hu | hu | hu) | hu <;> cases hu
  exact hall h

/-- Behind that step nothing is decided any more. -/
theorem Decided.step (h : Decided s) (hs : step s a = some s') :
    Decided s' ∧ Orderly s a := by
  refine ⟨?_, fun _ hm => by rcases h with h | h | h | h <;> rw [h] at hm <;> cases hm⟩
  obtain ⟨_, ⟨_, hm, _⟩ | ⟨_, hm, _⟩ | ⟨_, hm⟩ | ⟨_, hd⟩ | ⟨_, rfl⟩⟩ := step_cases hs
  · rcases h with h | h | h | h <;> rw [h] at hm <;> cases hm
  · rcases h with h | h | h | h <;> rw [h] at hm <;> cases hm
  · unfold Shutdown.mainStep at hm
    split at hm <;> cases hm <;> grind [Decided, State.close, State.free, State.touch]
  · unfold Shutdown.detectorStep at hd
    split at hd <;> cases hd <;> exact h
  · unfold Shutdown.sigint
    split <;> exact h

theorem shut_of_decided (h : Shut s) (hd : Decided s)
    (hr : Reach Shutdown.step unconditional s s') : Shut s' := by
  have hboth : Shut s' ∧ Decided s' := by
    refine reach_invariant (I := fun s => Shut s ∧ Decided s) ?_ hr ⟨h, hd⟩
    intro s a s' _ hi _ hs
    have hnext := hi.2.step hs
    exact ⟨hi.1.step hnext.2 hs, hnext.1⟩
  exact hboth.1

/-- How far the detector is from having freed the object. -/
def DetectorPc.rank : DetectorPc → Nat
  | .testsError => 5
  | .testsFinish => 4
  | .closes => 3
  | .frees => 2
  | .setsError => 1
  | .left => 0

/-- How far `main` is from its return. -/
def MainPc.rank : MainPc → Nat
  | .works => 6
  | .testsFinish => 5
  | .setsError => 4
  | .awaitsFinish => 3
  | .closes => 2
  | .frees => 1
  | .awaitsError => 1
  | .returned => 0

/-- How much of the end is left. -/
def State.rank (s : State) : Nat :=
  s.main.rank + s.detector.rank + if s.isFinish then 0 else 1

/-- `main` has set `is_error` behind the detector's back, and the object is
not freed twice yet. -/
structure Raced (s : State) : Prop where
  alive : s.killed = false
  caught : s.caught = !s.isFinish
  freed : s.freed = 0 ∧ s.main = .awaitsFinish ∧
      (s.detector = .testsFinish ∨ s.detector = .closes ∨ s.detector = .frees) ∨
    s.freed = 1 ∧ (s.detector = .setsError ∨ s.detector = .left) ∧
      (s.main = .awaitsFinish ∨ s.main = .closes ∨ s.main = .frees) ∨
    s.freed = 2

/-- The detector goes first, then `main`. -/
theorem Raced.progress (h : Raced s) (hg : s.freed ≠ 2) : ∃ a s',
    step s a = some s' ∧ Raced s' ∧ s'.rank < s.rank := by
  have hlive : Alive s := ⟨h.alive, by rcases h.freed with h | h | h <;> grind⟩
  obtain ⟨hmain, hdetector, hsigint⟩ := step_of_alive hlive
  cases hfinish : s.isFinish with
  | false =>
      refine ⟨.sigint, _, hsigint, ?_⟩
      have hcaught : s.caught = true := by rw [h.caught, hfinish]; rfl
      rw [Shutdown.sigint, if_pos hcaught]
      refine ⟨⟨h.alive, rfl, h.freed⟩, ?_⟩
      simp [State.rank, hfinish]
  | true =>
      rcases h.freed with ⟨hf, hm, hd⟩ | ⟨hf, hd, hm⟩ | hf
      · rcases hd with hd | hd | hd <;>
          refine ⟨.detector, _, hdetector.trans (by rw [Shutdown.detectorStep, hd]), ?_⟩ <;>
          grind [Raced, State.rank, DetectorPc.rank, State.close, State.free, State.touch,
            h.alive, h.caught]
      · rcases hm with hm | hm | hm <;>
          refine ⟨.main, _, hmain.trans (by rw [Shutdown.mainStep, hm]), ?_⟩ <;>
          grind [Raced, State.rank, MainPc.rank, State.close, State.free, State.touch,
            h.alive, h.caught]
      · exact absurd hf hg

/-- **Where `main` sets `is_error`, both threads may destroy the object exactly
if the detector is not at its test of it.** -/
theorem destroyed_twice_iff {s₁ : State} (hr : Reach Shutdown.step unconditional start s)
    (hm : s.main = .setsError) (hs : step s .main = some s₁) :
    (∃ s', Reach Shutdown.step unconditional s₁ s' ∧ s'.freed = 2) ↔
      s.detector ≠ .testsError := by
  have hshut := shut_of_undecided hr (.inl (.inr (.inr hm)))
  have hcaught := caught_reach hr
  have hlive := (step_cases hs).1
  have hset := step_main hs
  rw [Shutdown.mainStep, hm] at hset
  cases hset
  constructor
  · rintro ⟨s', hr', htwice⟩ hd
    have hnext := hshut.step (a := .main) (fun _ _ => hd) hs
    cases shut_of_decided hnext (.inl rfl) hr' with
    | nobody hclosed hfreed herror hmain hdetector => omega
    | detector hfinish hclosed hmain hdetector => omega
    | main herror hmain hdetector => omega
  · intro hd
    have hraced : Raced { s with isError := true, main := .awaitsFinish } := by
      cases hshut with
      | nobody hclosed hfreed herror hmain hdetector =>
          refine ⟨hlive.1, hcaught, .inl ⟨hfreed, rfl, ?_⟩⟩
          exact (hdetector.resolve_left hd).imp id fun h => .inl h.1
      | detector hfinish hclosed hmain hdetector =>
          refine ⟨hlive.1, hcaught, ?_⟩
          rcases hdetector with ⟨hdet, hf, _⟩ | ⟨hdet, hf, _⟩ | ⟨hdet, hf, _⟩
          · exact .inl ⟨hf, rfl, .inr (.inr hdet)⟩
          · exact .inr (.inl ⟨hf, .inl hdet, .inl rfl⟩)
          · exact .inr (.inl ⟨hf, .inr hdet, .inl rfl⟩)
      | main herror hmain hdetector =>
          rw [hm] at hmain
          rcases hmain with h | h | h | h <;> cases h.1
    obtain ⟨s', hr', _, htwice⟩ := exists_reach_progress (C := unconditional)
      (G := fun s => s.freed = 2) State.rank
      (fun s h hg => by
        obtain ⟨a, s', hs, hnext⟩ := h.progress hg
        exact ⟨a, s', trivial, hs, hnext⟩) hraced
    exact ⟨s', hr', htwice⟩

/-- The check fails although the descriptor is open, and the detector tests
`is_error` before it is set. -/
theorem destroyed_twice_iff_raced :
    ∃ s s₁ s', Reach Shutdown.step unconditional start s ∧ step s .main = some s₁ ∧
      Reach Shutdown.step unconditional s₁ s' ∧ s'.freed = 2 := by
  have hrun := exists_reach_of_exec Shutdown.step unconditional start [.leave, .main, .detector]
    (fun s => s.main = .setsError ∧ s.detector = .testsFinish ∧ Alive s) (by decide)
  obtain ⟨s, hr, hm, hd, hlive⟩ := hrun
  have hs : step s .main = some { s with isError := true, main := .awaitsFinish } := by
    rw [(step_of_alive hlive).1, Shutdown.mainStep, hm]
  obtain ⟨s', hr', htwice⟩ := (destroyed_twice_iff hr hm hs).2 (by rw [hd]; decide)
  exact ⟨s, _, s', hr, hs, hr', htwice⟩

/-! ## Freed memory -/

/-- The process lives, `main` is in its loop, and SIGINT is caught until it has
come: the states from which freed memory can still be used. -/
structure Exposed (s : State) : Prop where
  shut : Shut s
  alive : s.killed = false
  caught : s.caught = !s.isFinish
  works : s.main = .works

/-- What is left until freed memory is used. -/
def State.exposure (s : State) : Nat := s.rank + if s.misused then 0 else 1

theorem Exposed.progress (h : Exposed s) (hg : s.misused ≠ true) : ∃ a s', Orderly s a ∧
    step s a = some s' ∧ Exposed s' ∧ s'.exposure < s.exposure := by
  have hm := h.works
  have hlive : Alive s := ⟨h.alive, by rw [hm]; decide⟩
  obtain ⟨_, hdetector, hsigint⟩ := step_of_alive hlive
  have hclean : s.misused = false := by simpa using hg
  by_cases hfreed : 0 < s.freed
  · have hs : step s .work = some s.touch := by
      rw [Shutdown.step, if_pos hlive]
      exact if_pos hm
    have ho : Orderly s .work := fun ha => by cases ha
    refine ⟨.work, _, ho, hs, ⟨h.shut.step ho hs, h.alive, h.caught, hm⟩, ?_⟩
    simp [State.exposure, State.rank, State.touch, hclean, hfreed]
  cases hfinish : s.isFinish with
  | false =>
      have hcaught : s.caught = true := by rw [h.caught, hfinish]; rfl
      have ho : Orderly s .sigint := fun ha => by cases ha
      refine ⟨.sigint, _, ho, hsigint, ?_⟩
      have hshut := h.shut.step ho hsigint
      rw [Shutdown.sigint, if_pos hcaught] at hshut ⊢
      refine ⟨⟨hshut, h.alive, rfl, hm⟩, ?_⟩
      simp [State.exposure, State.rank, hfinish]
  | true =>
      have ho : Orderly s .detector := fun ha => by cases ha
      have hnext : ∃ s', detectorStep s = some s' ∧ s'.killed = false ∧
          s'.caught = (!s'.isFinish) ∧ s'.main = .works ∧ s'.exposure < s.exposure := by
        have hd : s.detector ≠ .setsError ∧ s.detector ≠ .left ∧ s.isError = false := by
          cases h.shut <;> grind
        unfold Shutdown.detectorStep
        cases hpc : s.detector <;>
          grind [State.exposure, State.rank, DetectorPc.rank, State.close, State.free,
            State.touch, h.alive, h.caught]
      obtain ⟨s', hd, hk, hc, hw, hlt⟩ := hnext
      have hs := hdetector.trans hd
      exact ⟨.detector, s', ho, hs, ⟨h.shut.step ho hs, hk, hc, hw⟩, hlt⟩

/-- Outside its loop `main` uses the object only if it destroys it itself. -/
theorem Shut.unused (h : Shut s) (hm : s.main ≠ .works) (hclean : s.misused = false)
    (hs : Shutdown.step s a = some s') : s'.main ≠ .works ∧ s'.misused = false := by
  obtain ⟨_, ⟨_, hw, _⟩ | ⟨_, hw, _⟩ | ⟨_, hst⟩ | ⟨_, hst⟩ | ⟨_, rfl⟩⟩ := step_cases hs
  · exact absurd hw hm
  · exact absurd hw hm
  · unfold Shutdown.mainStep at hst
    cases h <;> split at hst <;> cases hst <;> grind [State.close, State.free, State.touch]
  · unfold Shutdown.detectorStep at hst
    cases h <;> split at hst <;> cases hst <;> grind [State.close, State.free, State.touch]
  · unfold Shutdown.sigint
    split <;> exact ⟨hm, hclean⟩

/-- **As long as `main` is in its loop, freed memory may still come to be
used, and from then on it never is.** -/
theorem misusable_iff (hr : Reach Shutdown.step Orderly start s) (hclean : s.misused = false) :
    (∃ s', Reach Shutdown.step Orderly s s' ∧ s'.misused = true) ↔
      Alive s ∧ s.main = .works := by
  have hshut := shut_reach hr
  constructor
  · rintro ⟨s', hr', hmisused⟩
    by_contra hnot
    have hkeep : Shut s' ∧ ¬ (Alive s' ∧ s'.main = .works) ∧ s'.misused = false := by
      refine reach_invariant (I := fun s => Shut s ∧ ¬ (Alive s ∧ s.main = .works) ∧
        s.misused = false) ?_ hr' ⟨hshut, hnot, hclean⟩
      rintro s a s' _ ⟨hi, hn, hc⟩ ho hs
      have hm : s.main ≠ .works := fun hm => hn ⟨(step_cases hs).1, hm⟩
      have hnext := hi.unused hm hc hs
      exact ⟨hi.step ho hs, fun h => hnext.1 h.2, hnext.2⟩
    rw [hkeep.2.2] at hmisused
    cases hmisused
  · rintro ⟨hlive, hm⟩
    obtain ⟨s', hr', _, hmisused⟩ := exists_reach_progress (C := Orderly)
      (G := fun s => s.misused = true) State.exposure (fun s h hg => h.progress hg)
      (⟨hshut, hlive.1, caught_reach hr, hm⟩ : Exposed s)
    exact ⟨s', hr', hmisused⟩

/-- Already at the start. -/
theorem misusable_iff_start : ∃ s', Reach Shutdown.step Orderly start s' ∧ s'.misused = true :=
  (misusable_iff .refl rfl).2 ⟨by decide, rfl⟩

/-! ## A clean end -/

/-- The check of the descriptor is honest, and `main` is out of its loop when
the object is freed. -/
def Clean (s : State) (a : Act) : Prop := Honest s a ∧ Parted s a

instance (s : State) (a : Act) : Decidable (Clean s a) := inferInstanceAs (Decidable (_ ∧ _))

/-- What holds in the runs that end cleanly. -/
structure Ending (s : State) : Prop where
  shut : Shut s
  caught : s.caught = !s.isFinish
  parted : s.main = .works → s.freed = 0
  unset : s.main = .works ∨ s.main = .testsFinish ∧ s.isFinish = true ∧ 0 < s.closed ∨
    s.main = .awaitsError ∨ s.main = .returned
  clean : s.misused = false

theorem ending_start : Ending start :=
  ⟨shut_start, rfl, fun _ => rfl, .inl rfl, rfl⟩

/-- In such a run `main` never comes to set `is_error`. -/
theorem Ending.orderly (h : Ending s) : Orderly s a := by
  intro _ hm
  rcases h.unset with h | ⟨h, _⟩ | h | h <;> rw [h] at hm <;> cases hm

theorem Ending.step (h : Ending s) (hc : Clean s a) (hs : step s a = some s') : Ending s' := by
  have hshut := h.shut.step h.orderly hs
  obtain ⟨_, ⟨_, hw, rfl⟩ | ⟨rfl, hw, rfl⟩ | ⟨_, hst⟩ | ⟨rfl, hst⟩ | ⟨_, rfl⟩⟩ := step_cases hs
  · have hf := h.parted hw
    exact ⟨hshut, h.caught, h.parted, h.unset, by simp [State.touch, h.clean, hf]⟩
  · have hf := h.parted hw
    have hclosed := hc.1 rfl
    have hfinish : s.isFinish = true := by
      cases h.shut with
      | nobody hclosed' hfreed herror hmain hdetector => omega
      | detector hfinish hclosed' hmain hdetector => exact hfinish
      | main herror hmain hdetector => grind
    exact ⟨hshut, h.caught, fun hm => (by cases hm), .inr (.inl ⟨rfl, hfinish, hclosed⟩),
      by simp [State.touch, h.clean, hf]⟩
  · have hm : s.main ≠ .works := by
      intro hw
      rw [Shutdown.mainStep, hw] at hst
      cases hst
    have hkept := h.shut.unused hm h.clean hs
    refine ⟨hshut, ?_, fun hw => absurd hw hkept.1, ?_, hkept.2⟩
    · unfold Shutdown.mainStep at hst
      split at hst <;> cases hst <;> exact h.caught
    · unfold Shutdown.mainStep at hst
      have hunset := h.unset
      split at hst <;> cases hst <;> grind
  · have hparted := hc.2 rfl
    unfold Shutdown.detectorStep at hst
    have hunset := h.unset
    have hcaught := h.caught
    have hfree := h.parted
    have hclean := h.clean
    cases h.shut <;> split at hst <;> cases hst <;> refine ⟨hshut, ?_, ?_, ?_, ?_⟩ <;>
      grind [State.close, State.free, State.touch]
  · unfold Shutdown.sigint at hshut ⊢
    split at hshut
    · next hcaught =>
        rw [if_pos hcaught]
        exact ⟨hshut, rfl, h.parted, h.unset.imp id (Or.imp (fun h => ⟨h.1, rfl, h.2.2⟩) id),
          h.clean⟩
    · next hcaught =>
        rw [if_neg hcaught]
        exact ⟨hshut, h.caught, h.parted, h.unset, h.clean⟩

/-- There is always a step towards the end. -/
theorem Ending.progress (h : Ending s) (hlive : Alive s) : ∃ a s', Clean s a ∧
    Shutdown.step s a = some s' ∧ s'.killed = false ∧ s'.rank < s.rank := by
  obtain ⟨hmain, hdetector, hsigint⟩ := step_of_alive hlive
  have hkilled := hlive.1
  cases hfinish : s.isFinish with
  | false =>
      have hcaught : s.caught = true := by rw [h.caught, hfinish]; rfl
      refine ⟨.sigint, _, ⟨fun ha => (by cases ha), fun ha => (by cases ha)⟩, hsigint, ?_⟩
      rw [Shutdown.sigint, if_pos hcaught]
      exact ⟨hkilled, by simp [State.rank, hfinish]⟩
  | true =>
      -- the detector may go on where it does not free what `main` still uses
      have hgoes : s.detector ≠ .left → (s.detector = .frees → s.main ≠ .works) →
          s.isError = false → ∃ a s', Clean s a ∧ Shutdown.step s a = some s' ∧
            s'.killed = false ∧ s'.rank < s.rank := by
        intro hl hparted herror
        have hnext : ∃ s', detectorStep s = some s' ∧ s'.killed = false ∧
            s'.rank < s.rank := by
          unfold Shutdown.detectorStep
          cases hpc : s.detector <;>
            grind [State.rank, DetectorPc.rank, State.close, State.free, State.touch]
        obtain ⟨s', hd, hnext⟩ := hnext
        exact ⟨.detector, s', ⟨fun ha => (by cases ha), fun _ => hparted⟩,
          hdetector.trans hd, hnext⟩
      cases h.shut with
      | nobody hclosed hfreed herror hm hd => exact hgoes (by grind) (by grind) herror
      | detector hfin hclosed hm hd =>
          by_cases hw : s.main = .works
          · have hs : Shutdown.step s .leave =
                some { s.touch with main := .testsFinish } := by
              rw [Shutdown.step, if_pos hlive]
              exact if_pos hw
            refine ⟨.leave, _, ⟨fun _ => by omega, fun ha => (by cases ha)⟩, hs, hkilled, ?_⟩
            simp [State.rank, State.touch, MainPc.rank, hw]
          · by_cases hl : s.detector = .left
            · have hnext : ∃ s', mainStep s = some s' ∧ s'.killed = false ∧
                  s'.rank < s.rank := by
                have hunset := h.unset
                have hreturned := hlive.2
                unfold Shutdown.mainStep
                cases hpc : s.main <;> grind [State.rank, MainPc.rank]
              obtain ⟨s', hst, hnext⟩ := hnext
              exact ⟨.main, s', ⟨fun ha => (by cases ha), fun ha => (by cases ha)⟩,
                hmain.trans hst, hnext⟩
            · exact hgoes hl (fun _ => hw) (by grind)
      | main herror hm hd =>
          have hunset := h.unset
          have hreturned := hlive.2
          grind

/-- **A clean end is always possible.**  From every state of a run in which
the check is honest and nothing was freed under `main`, some continuation of
this kind leads to the return of `main`, with the object destroyed once and
never used after that. -/
theorem clean_end (hr : Reach Shutdown.step Clean start s) (hlive : s.killed = false) :
    ∃ s', Reach Shutdown.step Clean s s' ∧ s'.main = .returned ∧ s'.closed = 1 ∧
      s'.freed = 1 ∧ s'.misused = false := by
  have hending : Ending s := reach_invariant (fun _ h hc hs => h.step hc hs) hr ending_start
  obtain ⟨s', hr', ⟨hending', _⟩, hm⟩ := exists_reach_progress (C := Clean)
    (I := fun s => Ending s ∧ s.killed = false) (G := fun s => s.main = .returned) State.rank
    (fun s h hm => by
      obtain ⟨a, s', hc, hs, hk, hlt⟩ := h.1.progress ⟨h.2, hm⟩
      exact ⟨a, s', hc, hs, ⟨h.1.step hc hs, hk⟩, hlt⟩) ⟨hending, hlive⟩
  refine ⟨s', hr', hm, ?_⟩
  cases hending'.shut with
  | nobody hclosed hfreed herror hmain hdetector => grind
  | detector hfinish hclosed hmain hdetector => exact ⟨hclosed, by grind, hending'.clean⟩
  | main herror hmain hdetector => exact ⟨by grind, by grind, hending'.clean⟩

/-- From the start. -/
theorem clean_end_start :
    ∃ s', Reach Shutdown.step Clean start s' ∧ s'.main = .returned ∧ s'.closed = 1 ∧
      s'.freed = 1 ∧ s'.misused = false :=
  clean_end .refl rfl

end Orderly

/-! ## The client -/

section Client

/-- A client that is connected: nobody calls `client_handle_finish` or
`client_set_signal`. -/
def clientStart : State := { start with caught := false, detector := .left }

/-- What happens to a client: what happens to a server, or `fgets` is
interrupted. -/
inductive ClientAct where
  | common (a : Act)
  | interrupted
  deriving DecidableEq

/-- One step of the client. -/
def clientStep (s : State) : ClientAct → Option State
  | .common a => step s a
  | .interrupted =>
    if Alive s ∧ s.main = .works then
      some { s.touch with isFinish := true, main := .testsFinish }
    else none

variable {s s' : State} {a : ClientAct}

/-- `main` waits for a flag that nobody will set. -/
structure Waits (s : State) : Prop where
  uncaught : s.caught = false
  undetected : s.detector = .left
  closed : s.closed = 0
  freed : s.freed = 0
  main : s.main = .works ∧ s.isFinish = false ∧ s.isError = false ∨
    s.main = .testsFinish ∧ s.isError = false ∨
    s.main = .setsError ∧ s.isFinish = false ∨
    s.main = .awaitsFinish ∧ s.isFinish = false ∨
    s.main = .awaitsError ∧ s.isError = false

theorem waits_start : Waits clientStart :=
  ⟨rfl, rfl, rfl, rfl, .inl ⟨rfl, rfl, rfl⟩⟩

theorem Waits.common (h : Waits s) {a : Act} (hs : step s a = some s') : Waits s' := by
  obtain ⟨huncaught, hundetected, hclosed, hfreed, hmain⟩ := h
  obtain ⟨_, ⟨_, hw, rfl⟩ | ⟨_, hw, rfl⟩ | ⟨_, hst⟩ | ⟨_, hst⟩ | ⟨_, rfl⟩⟩ := step_cases hs
  · exact ⟨huncaught, hundetected, hclosed, hfreed, hmain⟩
  · refine ⟨huncaught, hundetected, hclosed, hfreed, .inr (.inl ⟨rfl, ?_⟩)⟩
    rcases hmain with h | h | h | h | h
    · exact h.2.2
    all_goals rw [hw] at h; cases h.1
  · -- it goes round one of the two last loops, or on to it
    unfold mainStep at hst
    rcases hmain with ⟨hm, h⟩ | ⟨hm, h⟩ | ⟨hm, h⟩ | ⟨hm, h⟩ | ⟨hm, h⟩ <;> rw [hm] at hst <;>
      cases hst <;> grind [Waits]
  · rw [detectorStep, hundetected] at hst
    cases hst
  · have hkills : sigint s = { s with killed := true } :=
      if_neg (by rw [huncaught]; decide)
    rw [hkills]
    exact ⟨huncaught, hundetected, hclosed, hfreed, hmain⟩

theorem Waits.step (h : Waits s) (hs : clientStep s a = some s') : Waits s' := by
  cases a with
  | common a => exact h.common hs
  | interrupted =>
      obtain ⟨huncaught, hundetected, hclosed, hfreed, hmain⟩ := h
      rw [clientStep, Option.ite_none_right_eq_some] at hs
      obtain ⟨⟨_, hw⟩, hs⟩ := hs
      cases hs
      refine ⟨huncaught, hundetected, hclosed, hfreed, .inr (.inl ⟨rfl, ?_⟩)⟩
      rcases hmain with h | h | h | h | h
      · exact h.2.2
      all_goals rw [hw] at h; cases h.1

/-- **A connected client never ends by itself.**  However its loop is left,
`main` never returns and the object is never destroyed; SIGINT kills the
process. -/
theorem client_never_ends (hr : Reach clientStep unconditional clientStart s) :
    s.main ≠ .returned ∧ s.closed = 0 ∧ s.freed = 0 ∧
      ∀ s', clientStep s (.common .sigint) = some s' → s'.killed = true := by
  have h : Waits s := reach_invariant (fun _ h _ hs => h.step hs) hr waits_start
  refine ⟨fun hm => ?_, h.closed, h.freed, fun s' hs => ?_⟩
  · rcases h.main with h | h | h | h | h <;> rw [hm] at h <;> cases h.1
  · have hs' : step s .sigint = some s' := hs
    rw [(step_of_alive (step_cases hs').1).2.2, sigint,
      if_neg (by rw [h.uncaught]; decide)] at hs'
    cases hs'
    rfl

/-- The connection ends, and `main` waits. -/
theorem client_never_ends_disconnected :
    ∃ s, Reach clientStep unconditional clientStart s ∧ s.main = .awaitsFinish ∧
      s.main ≠ .returned ∧ s.freed = 0 := by
  have hrun := exists_reach_of_exec clientStep unconditional clientStart
    [.common .work, .common .leave, .common .main, .common .main, .common .main]
    (fun s => s.main = .awaitsFinish) (by decide)
  obtain ⟨s, hr, hm⟩ := hrun
  exact ⟨s, hr, hm, (client_never_ends hr).1, (client_never_ends hr).2.2.1⟩

end Client

end ZeroCopyProxy.Ports.Shutdown
