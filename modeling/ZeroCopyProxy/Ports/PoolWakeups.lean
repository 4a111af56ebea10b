import ZeroCopyProxy.Ports.PoolWait

/-!
# The condition variables of the pool

In `ThreadPool` a thread that waits may test again at any time.  Here it
sleeps until it is woken, and nobody is woken without a signal: the worst the
condition variables may do.  `jpool_add_work` and `jpool_destroy` wake every
worker, while `working_cond` is signalled, so that one thread in `jpool_wait`
is woken and not another.

If no more than one thread is in `jpool_wait`, no wake-up is lost (`Awake`);
of two, one may sleep for ever (`second_waiter_sleeps`).
Then all the work gets done whatever the scheduler does: without further calls
the pool comes to rest after a bounded number of steps, and at rest the queue
is empty, every work is finished and nobody waits (`comes_to_rest`).
-/

namespace ZeroCopyProxy.Ports.PoolWakeups

open ZeroCopyProxy.Verified.LinkedHeap
open ZeroCopyProxy.Verified.Transitions
open ZeroCopyProxy.Verified.Counting
open ZeroCopyProxy.Ports.ThreadPool
open ZeroCopyProxy.Ports.PoolQueue
open ZeroCopyProxy.Ports.PoolCounters

variable {F A : Type} {num : UInt64} {κ : Type} [DecidableEq κ]

/-! ## Sleeping and waking -/

/-- A pool, the workers that sleep in `pthread_cond_wait` on `work_cond`, and
the threads that sleep there on `working_cond`. -/
structure State (num : UInt64) (κ F A : Type) where
  pool : ThreadPool.State num κ F A
  asleep : Worker num → Bool
  dozing : κ → Bool

/-- Nobody sleeps when `jpool_init` returns. -/
def start (num : UInt64) (κ F A : Type) : State num κ F A where
  pool := ThreadPool.start num κ F A
  asleep _ := false
  dozing _ := false

/-- A step of a thread, and the thread its signal wakes. -/
structure Act (num : UInt64) (κ F A : Type) where
  act : ThreadPool.Act num κ F A
  woken : Option κ

/-- The step signals `working_cond`; `p` is the pool behind it. -/
def signals (p : ThreadPool.State num κ F A) : ThreadPool.Act num κ F A → Bool
  | .enter i => p.worker i = .left
  | .finish _ => !p.jpool.stop && p.jpool.workingCnt == 0 && p.jpool.workFirst == none
  | _ => false

/-- Who sleeps on `work_cond` behind the step. -/
def asleepAfter (asleep : Worker num → Bool) (p : ThreadPool.State num κ F A) :
    ThreadPool.Act num κ F A → Worker num → Bool
  | .enter i => if p.worker i = .lock then Function.update asleep i true else asleep
  | .enqueue _ | .destroy _ => fun _ => false
  | _ => asleep

/-- In `jpool_wait`. -/
def Waiting (pc : ClientPc) : Prop := pc = .waiting .user ∨ pc = .waiting .destroy

instance (pc : ClientPc) : Decidable (Waiting pc) := inferInstanceAs (Decidable (_ ∨ _))

theorem waiting_of_eq {pc : ClientPc} {caller : Caller} (h : pc = .waiting caller) :
    Waiting pc := by
  cases caller with
  | user => exact .inl h
  | destroy => exact .inr h

/-- Who sleeps on `working_cond` behind the step. -/
def dozingAfter (dozing : κ → Bool) (p : ThreadPool.State num κ F A) (woken : Option κ) :
    ThreadPool.Act num κ F A → κ → Bool
  | .test k => if Waiting (p.client k) then Function.update dozing k true else dozing
  | _ =>
    match woken with
    | some k => Function.update dozing k false
    | none => dozing

/-- A signal wakes one of those who sleep, if there is one. -/
def Wakes (dozing : κ → Bool) (signal : Bool) : Option κ → Prop
  | some k => signal = true ∧ dozing k = true
  | none => signal = true → ∀ k, dozing k = false

instance [Fintype κ] (dozing : κ → Bool) (signal : Bool) (woken : Option κ) :
    Decidable (Wakes dozing signal woken) :=
  match woken with
  | some _ => inferInstanceAs (Decidable (_ ∧ _))
  | none => inferInstanceAs (Decidable (_ → _))

/-- Whoever would take the step sleeps. -/
def State.blocked (s : State num κ F A) : ThreadPool.Act num κ F A → Bool
  | .enter i => s.asleep i
  | .test k => s.dozing k
  | _ => false

/-- One step. -/
def State.step [Fintype κ] (s : State num κ F A) (a : Act num κ F A) :
    Option (State num κ F A) :=
  if s.blocked a.act then none
  else
    (s.pool.step a.act).bind fun p =>
      if Wakes s.dozing (signals p a.act) a.woken then
        some ⟨p, asleepAfter s.asleep p a.act, dozingAfter s.dozing p a.woken a.act⟩
      else none

/-- The beginning of a call; every other step goes on with one. -/
def Calls : ThreadPool.Act num κ F A → Prop
  | .addWork .. | .wait _ | .destroy _ => True
  | _ => False

instance (a : ThreadPool.Act num κ F A) : Decidable (Calls a) :=
  match a with
  | .addWork .. | .wait _ | .destroy _ => .isTrue trivial
  | .enter _ | .run _ | .destroyWork _ | .finish _ | .enqueue _ | .test _ | .free _ =>
      .isFalse id

/-- Work is added to a pool that is not stopped, `jpool_wait` is called when
nobody else is in it, and `jpool_destroy` when nobody else uses the pool. -/
def Single (s : State num κ F A) (a : Act num κ F A) : Prop :=
  match a.act with
  | .addWork .. => s.pool.jpool.stop = false
  | .wait _ => s.pool.jpool.stop = false ∧ ∀ k, ¬ Waiting (s.pool.client k)
  | .destroy k => s.pool.jpool.stop = false ∧ ∀ k', k' ≠ k → s.pool.client k' = .idle
  | _ => True

instance [Fintype κ] (s : State num κ F A) (a : Act num κ F A) : Decidable (Single s a) :=
  match a with
  | ⟨.addWork .., _⟩ => inferInstanceAs (Decidable (_ = _))
  | ⟨.wait _, _⟩ | ⟨.destroy _, _⟩ => inferInstanceAs (Decidable (_ ∧ _))
  | ⟨.enter _, _⟩ | ⟨.run _, _⟩ | ⟨.destroyWork _, _⟩ | ⟨.finish _, _⟩ | ⟨.enqueue _, _⟩
  | ⟨.test _, _⟩ | ⟨.free _, _⟩ => .isTrue trivial

/-- No call is begun. -/
def Internal (_ : State num κ F A) (a : Act num κ F A) : Prop := ¬ Calls a.act

instance (s : State num κ F A) (a : Act num κ F A) : Decidable (Internal s a) :=
  inferInstanceAs (Decidable (¬ _))

/-! ## What a step does -/

section Steps

variable [Fintype κ] {s s' : State num κ F A} {a : Act num κ F A}

/-- Behind the pool's step, with who sleeps. -/
theorem step_eq (h : s.step a = some s') :
    s.blocked a.act = false ∧ s.pool.step a.act = some s'.pool ∧
      Wakes s.dozing (signals s'.pool a.act) a.woken ∧
      s'.asleep = asleepAfter s.asleep s'.pool a.act ∧
      s'.dozing = dozingAfter s.dozing s'.pool a.woken a.act := by
  unfold State.step at h
  split at h
  · cases h
  · next hb =>
      obtain ⟨p, hp, h⟩ := Option.bind_eq_some_iff.1 h
      split at h
      · next hw =>
          cases h
          exact ⟨Bool.eq_false_iff.2 hb, hp, hw, rfl, rfl⟩
      · cases h

omit [DecidableEq κ] [Fintype κ] in
/-- A worker that has gone on does not fall asleep. -/
theorem asleepAfter_enter {asleep : Worker num → Bool} {p : ThreadPool.State num κ F A}
    {i : Worker num} (pc : WorkerPc) (hi : p.worker i = pc) (hpc : pc ≠ .lock) :
    asleepAfter asleep p (.enter i) = asleep :=
  if_neg (by rw [hi]; exact hpc)

omit [Fintype κ] in
/-- A thread that has left `jpool_wait` does not fall asleep. -/
theorem dozingAfter_test {dozing : κ → Bool} {p : ThreadPool.State num κ F A}
    {woken : Option κ} {k : κ} (pc : ClientPc) (hk : p.client k = pc) (hpc : ¬ Waiting pc) :
    dozingAfter dozing p woken (.test k) = dozing :=
  if_neg (by rw [hk]; exact hpc)

omit [DecidableEq κ] in
/-- A signal always finds someone to wake, or nobody sleeps. -/
theorem exists_wakes (dozing : κ → Bool) (signal : Bool) :
    ∃ woken, Wakes dozing signal woken := by
  by_cases h : signal = true ∧ ∃ k, dozing k = true
  · obtain ⟨hsignal, k, hk⟩ := h
    exact ⟨some k, hsignal, hk⟩
  · refine ⟨none, fun hsignal k => ?_⟩
    cases hk : dozing k with
    | false => rfl
    | true => exact absurd ⟨hsignal, k, hk⟩ h

/-- A thread that does not sleep takes its step. -/
theorem exists_step {b : ThreadPool.Act num κ F A} {p : ThreadPool.State num κ F A}
    (hb : s.blocked b = false) (hp : s.pool.step b = some p) :
    ∃ woken s', s.step ⟨b, woken⟩ = some s' := by
  obtain ⟨woken, hw⟩ := exists_wakes s.dozing (signals p b)
  refine ⟨woken, ⟨p, asleepAfter s.asleep p b, dozingAfter s.dozing p woken b⟩, ?_⟩
  have hne : ¬ s.blocked b = true := by rw [hb]; exact Bool.false_ne_true
  rw [State.step, if_neg hne, hp, Option.bind_some, if_pos hw]

/-- The pool is one of those of `ThreadPool`. -/
theorem pool_reach {C : State num κ F A → Act num κ F A → Prop}
    (hr : Reach State.step C (start num κ F A) s) :
    Reach ThreadPool.State.step unconditional (ThreadPool.start num κ F A) s.pool :=
  hr.project State.pool fun _ hs => .inr ⟨_, trivial, (step_eq hs).2.1⟩

end Steps

/-! ## The pool in these runs -/

section Lawful

variable {s s' : State num κ F A} {a : Act num κ F A}

/-- Nothing undefined happens, at most one thread is in `jpool_wait`, and only
the one that destroys the pool uses it from then on. -/
structure Lawful (p : ThreadPool.State num κ F A) : Prop where
  running : p.jpool.stop = false → Sound p ∧ p.hist.dropped = []
  stopped : p.jpool.stop = true → Stopped p
  single : ∀ k k', Waiting (p.client k) → Waiting (p.client k') → k = k'
  added : p.jpool.stop = true → ∀ k work, p.client k ≠ .adding work
  left : ∀ i, p.worker i = .left → p.jpool.stop = true

omit [DecidableEq κ] in
theorem Lawful.noFault {p : ThreadPool.State num κ F A} (h : Lawful p) : p.fault = false := by
  cases hstop : p.jpool.stop with
  | false => exact (h.running hstop).1.noFault
  | true => exact (h.stopped hstop).noFault

omit [DecidableEq κ] in
theorem lawful_start : Lawful (ThreadPool.start num κ F A) where
  running _ := ⟨sound_start, rfl⟩
  stopped h := absurd h (by simp [ThreadPool.start, jpoolInit])
  single k k' hk := by rcases hk with hk | hk <;> cases hk
  added h := absurd h (by simp [ThreadPool.start, jpoolInit])
  left i hi := by cases hi

/-- On a stopped pool the steps are those of an orderly run. -/
theorem orderly_of_single (hc : Single s a) (h : Lawful s.pool)
    (hstop : s.pool.jpool.stop = true) {p : ThreadPool.State num κ F A}
    (he : s.pool.Effect a.act p) : Orderly s.pool a.act := by
  obtain ⟨b, woken⟩ := a
  have hrun : s.pool.jpool.stop ≠ false := by rw [hstop]; decide
  cases b with
  | addWork k func arg work => exact absurd hc hrun
  | wait k => exact absurd hc.1 hrun
  | destroy k => exact absurd hc.1 hrun
  | enqueue k =>
      cases he with
      | enqueuesFirst hk hfirst => exact absurd hk (h.added hstop k _)
      | enqueuesLast hk hfirst hlast hnode => exact absurd hk (h.added hstop k _)
      | enqueuesDangling hk hfirst hlast => exact absurd hk (h.added hstop k _)
  | _ => exact True.intro

/-- One thread moves, and is not in `jpool_wait` behind the step. -/
theorem single_update {client : κ → ClientPc} (h : ∀ k k', Waiting (client k) →
    Waiting (client k') → k = k') {k : κ} {pc : ClientPc} (hpc : ¬ Waiting pc) :
    ∀ k₁ k₂, Waiting (Function.update client k pc k₁) →
      Waiting (Function.update client k pc k₂) → k₁ = k₂ := by
  have hback : ∀ j, Waiting (Function.update client k pc j) → Waiting (client j) := by
    intro j hj
    by_cases hjk : j = k
    · subst hjk
      rw [Function.update_self] at hj
      exact absurd hj hpc
    · rwa [Function.update_of_ne hjk] at hj
  exact fun k₁ k₂ h₁ h₂ => h k₁ k₂ (hback k₁ h₁) (hback k₂ h₂)

/-- Nobody is in `jpool_wait`, and one thread enters it. -/
theorem single_enter {client : κ → ClientPc} {k : κ} {pc : ClientPc}
    (h : ∀ k', k' ≠ k → ¬ Waiting (client k')) :
    ∀ k₁ k₂, Waiting (Function.update client k pc k₁) →
      Waiting (Function.update client k pc k₂) → k₁ = k₂ := by
  have hback : ∀ j, Waiting (Function.update client k pc j) → j = k := by
    intro j hj
    by_contra hjk
    rw [Function.update_of_ne hjk] at hj
    exact h j hjk hj
  exact fun k₁ k₂ h₁ h₂ => (hback k₁ h₁).trans (hback k₂ h₂).symm

end Lawful

section Keep

variable {s s' : State num κ F A} {a : Act num κ F A} {p : ThreadPool.State num κ F A}

theorem single_step (h : Lawful s.pool) (hc : Single s a) (he : s.pool.Effect a.act p) :
    ∀ k k', Waiting (p.client k) → Waiting (p.client k') → k = k' := by
  obtain ⟨b, woken⟩ := a
  cases he with
  | creates hk hfresh => exact single_update h.single (by simp [Waiting])
  | enqueuesFirst hk hfirst => exact single_update h.single (by simp [Waiting])
  | enqueuesLast hk hfirst hlast hnode => exact single_update h.single (by simp [Waiting])
  | returns hk hwaits => exact single_update h.single (by simp [Waiting])
  | drained hk hwaits => exact single_update h.single (by simp [Waiting])
  | frees hk => exact single_update h.single (by simp [Waiting])
  | waitsFor hk => exact single_enter fun k' _ => hc.2 k'
  | destroys hk hfree =>
      refine single_enter fun k' hne => ?_
      rw [hc.2 k' hne]
      simp [Waiting]
  | _ => exact h.single

theorem added_step (h : Lawful s.pool) (hc : Single s a) (he : s.pool.Effect a.act p)
    (hstop : p.jpool.stop = true) : ∀ k work, p.client k ≠ .adding work := by
  obtain ⟨b, woken⟩ := a
  have hupdate : ∀ {k : κ} {pc : ClientPc}, s.pool.jpool.stop = true →
      (∀ work, pc ≠ .adding work) → ∀ j work,
      Function.update s.pool.client k pc j ≠ .adding work := by
    intro k pc hold hpc j work
    by_cases hjk : j = k
    · subst hjk
      rw [Function.update_self]
      exact hpc work
    · rw [Function.update_of_ne hjk]
      exact h.added hold j work
  cases he with
  | takes hi hrun hfirst hnode =>
      have hkeep := (jpoolUnlink_counters s.pool.jpool _).2.2.symm.trans hstop
      exact absurd (hrun.symm.trans hkeep) Bool.false_ne_true
  | creates hk hfresh =>
      have hrun : s.pool.jpool.stop = false := hc
      exact absurd (hrun.symm.trans hstop) Bool.false_ne_true
  | enqueuesFirst hk hfirst => exact hupdate hstop fun _ => by simp
  | enqueuesLast hk hfirst hlast hnode => exact hupdate hstop fun _ => by simp
  | waitsFor hk => exact hupdate hstop fun _ => by simp
  | returns hk hwaits => exact hupdate hstop fun _ => by simp
  | drained hk hwaits => exact hupdate hstop fun _ => by simp
  | frees hk => exact hupdate hstop fun _ => by simp
  | @destroys k works hk hfree =>
      intro j work
      show Function.update s.pool.client k _ j ≠ _
      by_cases hjk : j = k
      · subst hjk
        rw [Function.update_self]
        simp
      · rw [Function.update_of_ne hjk, hc.2 j hjk]
        simp
  | _ => exact h.added hstop

theorem left_step (h : Lawful s.pool) (he : s.pool.Effect a.act p) :
    ∀ i, p.worker i = .left → p.jpool.stop = true := by
  obtain ⟨b, woken⟩ := a
  intro i hi
  have hold : s.pool.worker i = .left → p.jpool.stop = true :=
    fun hleft => stop_of_effect he (h.left i hleft)
  have hupdate : ∀ {j : Worker num} {pc : WorkerPc},
      Function.update s.pool.worker j pc i = .left → pc ≠ .left → p.jpool.stop = true := by
    intro j pc hu hpc
    by_cases hij : i = j
    · subst hij
      rw [Function.update_self] at hu
      exact absurd hu hpc
    · rw [Function.update_of_ne hij] at hu
      exact hold hu
  cases he with
  | leaves hj hstop => exact hstop
  | takes hj hrun hfirst hnode => exact hupdate hi (by simp)
  | runs hj hnode => exact hupdate hi (by simp)
  | runsNull hj => exact hupdate hi (by simp)
  | destroysWork hj hnode => exact hupdate hi (by simp)
  | finishes hj => exact hupdate hi (by simp)
  | _ => exact hold hi

theorem Lawful.step (h : Lawful s.pool) (hc : Single s a) (he : s.pool.Effect a.act p) :
    Lawful p where
  running hstop := by
    obtain ⟨hsound, hdropped⟩ := h.running (running_of_effect he hstop)
    exact ⟨sound_step hsound he hstop, by rw [dropped_of_effect he hstop, hdropped]⟩
  stopped hstop := by
    cases hrun : s.pool.jpool.stop with
    | true => exact stopped_step (h.stopped hrun) hrun (orderly_of_single hc h hrun he) he
    | false =>
        obtain ⟨hsound, hdropped⟩ := h.running hrun
        exact stopped_of_effect hsound hdropped hrun he hstop
  single := single_step h hc he
  added := added_step h hc he
  left := left_step h he

end Keep

/-! ## No wake-up is lost -/

section Awake

variable {s s' : State num κ F A} {a : Act num κ F A}

/-- Whoever sleeps has nothing to do yet: there is no work, or a thread that
will signal. -/
structure Awake (s : State num κ F A) : Prop where
  asleep : ∀ i, s.asleep i = true → s.pool.worker i = .lock ∧
    s.pool.jpool.workFirst = none ∧ s.pool.jpool.stop = false
  dozing : ∀ k, s.dozing k = true → Waiting (s.pool.client k) ∧
    (s.pool.jpool.stop = false → s.pool.jpool.workingCnt ≠ 0 ∨
      s.pool.jpool.workFirst ≠ none) ∧
    (s.pool.jpool.stop = true → s.pool.jpool.threadCnt ≠ 0)

omit [DecidableEq κ] in
theorem awake_start : Awake (start num κ F A) where
  asleep i hi := by cases hi
  dozing k hk := by cases hk

omit [DecidableEq κ] in
/-- A worker that is not at the top of its loop does not sleep. -/
theorem Awake.moveWorker (h : Awake s) {i : Worker num} (pc : WorkerPc)
    (hi : s.pool.worker i ≠ .lock) {p : ThreadPool.State num κ F A}
    (hworker : p.worker = Function.update s.pool.worker i pc)
    (hfirst : p.jpool.workFirst = s.pool.jpool.workFirst)
    (hstop : p.jpool.stop = s.pool.jpool.stop) :
    ∀ j, s.asleep j = true → p.worker j = .lock ∧ p.jpool.workFirst = none ∧
      p.jpool.stop = false := by
  intro j hj
  obtain ⟨hlock, hempty, hrun⟩ := h.asleep j hj
  have hne : j ≠ i := by
    rintro rfl
    exact hi hlock
  rw [hworker, Function.update_of_ne hne, hfirst, hstop]
  exact ⟨hlock, hempty, hrun⟩

/-- A thread that is not in `jpool_wait` does not sleep there. -/
theorem Awake.moveClient (h : Awake s) {k : κ} {pc : ClientPc}
    (hk : s.dozing k = true → False) {p : ThreadPool.State num κ F A}
    (hclient : p.client = Function.update s.pool.client k pc)
    (hstop : p.jpool.stop = s.pool.jpool.stop)
    (hworking : p.jpool.workingCnt = s.pool.jpool.workingCnt)
    (hfirst : s.pool.jpool.workFirst ≠ none → p.jpool.workFirst ≠ none)
    (hthreads : p.jpool.threadCnt = s.pool.jpool.threadCnt) :
    ∀ j, s.dozing j = true → Waiting (p.client j) ∧
      (p.jpool.stop = false → p.jpool.workingCnt ≠ 0 ∨ p.jpool.workFirst ≠ none) ∧
      (p.jpool.stop = true → p.jpool.threadCnt ≠ 0) := by
  intro j hj
  obtain ⟨hwaiting, hrunning, hstopped⟩ := h.dozing j hj
  have hne : j ≠ k := by
    rintro rfl
    exact hk hj
  rw [hclient, Function.update_of_ne hne, hstop, hworking, hthreads]
  exact ⟨hwaiting, fun hrun => (hrunning hrun).imp id hfirst, hstopped⟩

omit [DecidableEq κ] in
/-- A thread that is elsewhere does not sleep in `jpool_wait`. -/
theorem Awake.not_dozing (h : Awake s) {k : κ} {pc : ClientPc} (hk : s.pool.client k = pc)
    (hpc : ¬ Waiting pc) (hd : s.dozing k = true) : False := by
  have hwaiting := (h.dozing k hd).1
  rw [hk] at hwaiting
  exact hpc hwaiting

/-- Behind a signal nobody sleeps on `working_cond`. -/
theorem dozing_of_signal (h : Awake s) (hl : Lawful s.pool) {woken : Option κ}
    (hw : Wakes s.dozing true woken) (k : κ) :
    (match woken with
      | some k => Function.update s.dozing k false
      | none => s.dozing) k = false := by
  cases woken with
  | none => exact hw rfl k
  | some k' =>
      show Function.update s.dozing k' false k = false
      by_cases hk : k = k'
      · rw [hk, Function.update_self]
      · rw [Function.update_of_ne hk]
        cases hd : s.dozing k with
        | false => rfl
        | true =>
            exact absurd (hl.single k k' (h.dozing k hd).1 (h.dozing k' hw.2).1) hk

omit [DecidableEq κ] in
/-- A step that does not signal wakes nobody. -/
theorem woken_none {dozing : κ → Bool} {woken : Option κ} (hw : Wakes dozing false woken) :
    woken = none := by
  cases woken with
  | none => rfl
  | some k => exact absurd hw.1 Bool.false_ne_true

omit [DecidableEq κ] in
/-- A worker that finishes and does not signal leaves something to be done. -/
theorem owed_of_no_signal {p : ThreadPool.State num κ F A} {i : Worker num}
    (h : signals p (.finish i) = false) (hrun : p.jpool.stop = false) :
    p.jpool.workingCnt ≠ 0 ∨ p.jpool.workFirst ≠ none := by
  by_contra hnone
  rw [not_or, not_not, not_not] at hnone
  simp [signals, hrun, hnone.1, hnone.2] at h

/-- `jpool_wait` goes to sleep as long as there is something to be done. -/
theorem owed_of_waits {jpool : Jpool} (h : jpoolWaits jpool = true) :
    (jpool.stop = false → jpool.workingCnt ≠ 0) ∧ (jpool.stop = true → jpool.threadCnt ≠ 0) := by
  constructor
  · intro hrun
    simpa [jpoolWaits, hrun] using h
  · intro hstop
    simpa [jpoolWaits, hstop] using h

/-- One step. -/
theorem Awake.step [Fintype κ] (h : Awake s) (hl : Lawful s.pool) (hc : Single s a)
    (hnext : Counted s'.pool) (hfault : s'.pool.fault = false) (hs : s.step a = some s') :
    Awake s' := by
  obtain ⟨hblocked, hp, hw, hasleep, hdozing⟩ := step_eq hs
  obtain ⟨b, woken⟩ := a
  obtain ⟨p, asleep, dozing⟩ := s'
  obtain rfl : asleep = asleepAfter s.asleep p b := hasleep
  obtain rfl : dozing = dozingAfter s.dozing p woken b := hdozing
  have hdangling : ∀ {t : ThreadPool.State num κ F A}, t.faulted.fault = false → False :=
    fun ht => by cases ht
  have he := (State.effect_of_step hp).2
  cases he with
  | takesDangling | runsDangling | destroysDangling | enqueuesDangling
  | destroysQueueDangling => exact (hdangling hfault).elim
  | @waits i hi hfirst hstop =>
      obtain rfl := woken_none (by simpa [signals, hi] using hw)
      refine ⟨fun j hj => ?_, h.dozing⟩
      by_cases hji : j = i
      · subst hji
        exact ⟨hi, hfirst, hstop⟩
      · refine h.asleep j ?_
        simpa [asleepAfter, hi, hji] using hj
  | @leaves i hi hstop =>
      have hsignal : Wakes s.dozing true woken := by
        simpa [signals, ThreadPool.State.setWorker] using hw
      constructor
      · intro j hj
        have hold : s.asleep j = true := by
          simpa [asleepAfter, ThreadPool.State.setWorker] using hj
        exact absurd ((h.asleep j hold).2.2.symm.trans hstop) Bool.false_ne_true
      · intro k hk
        exact absurd ((dozing_of_signal h hl hsignal k).symm.trans hk) Bool.false_ne_true
  | @takes i work node hi hstop hfirst hnode =>
      obtain rfl := woken_none (by simpa [signals, ThreadPool.State.take] using hw)
      obtain ⟨_, hthreads, hstop'⟩ := jpoolUnlink_counters s.pool.jpool node.next
      have hbusy : busy ((s.pool.take i (some work)
          { jpoolUnlink s.pool.jpool node.next with
            workingCnt := (jpoolUnlink s.pool.jpool node.next).workingCnt + 1 }).worker i) =
          true := by
        simp [ThreadPool.State.take, busy]
      constructor
      · intro j hj
        have hold : s.asleep j = true := by
          simpa [asleepAfter, ThreadPool.State.take] using hj
        exact absurd (hfirst.symm.trans (h.asleep j hold).2.1) (by simp)
      · intro k hk
        refine ⟨(h.dozing k hk).1, fun _ => .inl (ne_zero_of_counted hnext.working hbusy), ?_⟩
        intro hstopped
        exact absurd ((hstop'.trans hstop).symm.trans hstopped) Bool.false_ne_true
  | @runs i work node hi hnode =>
      obtain rfl := woken_none hw
      exact ⟨h.moveWorker _ (by rw [hi]; simp) rfl rfl rfl, h.dozing⟩
  | @runsNull i hi =>
      obtain rfl := woken_none hw
      exact ⟨h.moveWorker _ (by rw [hi]; simp) rfl rfl rfl, h.dozing⟩
  | @destroysWork i work node hi hnode =>
      obtain rfl := woken_none hw
      exact ⟨h.moveWorker _ (by rw [hi]; simp) rfl rfl rfl, h.dozing⟩
  | @finishes i hi =>
      refine ⟨h.moveWorker .lock (by rw [hi]; simp) rfl rfl rfl, fun k hk => ?_⟩
      have hfinish : Wakes s.dozing (signals (s.pool.finish i) (.finish i)) woken := hw
      cases hsignal : signals (s.pool.finish i) (.finish i) with
      | true =>
          rw [hsignal] at hfinish
          exact absurd ((dozing_of_signal h hl hfinish k).symm.trans hk) Bool.false_ne_true
      | false =>
          rw [hsignal] at hfinish
          obtain rfl := woken_none hfinish
          obtain ⟨hwaiting, _, hstopped⟩ := h.dozing k hk
          exact ⟨hwaiting, owed_of_no_signal hsignal, hstopped⟩
  | refuses hk =>
      obtain rfl := woken_none hw
      exact h
  | @creates k func arg work hk hfresh =>
      obtain rfl := woken_none hw
      exact ⟨h.asleep, h.moveClient (k := k) (h.not_dozing hk (by simp [Waiting])) rfl rfl rfl
        id rfl⟩
  | @enqueuesFirst k work hk hfirst =>
      obtain rfl := woken_none hw
      exact ⟨fun j hj => (by cases hj), h.moveClient (k := k)
        (h.not_dozing hk (by simp [Waiting])) rfl rfl rfl (fun _ => by simp) rfl⟩
  | @enqueuesLast k work first last node hk hfirst hlast hnode =>
      obtain rfl := woken_none hw
      exact ⟨fun j hj => (by cases hj), h.moveClient (k := k)
        (h.not_dozing hk (by simp [Waiting])) rfl rfl rfl id rfl⟩
  | @waitsFor k hk =>
      obtain rfl := woken_none hw
      refine ⟨h.asleep, fun j hj => ?_⟩
      exact absurd (h.dozing j hj).1 (hc.2 j)
  | @testsAgain k caller hk hwaits =>
      have hwaiting : Waiting (s.pool.client k) := waiting_of_eq hk
      refine ⟨h.asleep, fun j hj => ?_⟩
      by_cases hjk : j = k
      · subst hjk
        obtain ⟨hrunning, hstopped⟩ := owed_of_waits hwaits
        exact ⟨hwaiting, fun hrun => .inl (hrunning hrun), hstopped⟩
      · refine h.dozing j ?_
        simpa [dozingAfter, hwaiting, hjk] using hj
  | @returns k hk hwaits =>
      refine ⟨h.asleep, ?_⟩
      dsimp only
      rw [dozingAfter_test .idle (Function.update_self ..) (by simp [Waiting])]
      exact h.moveClient (k := k) (p := s.pool.setClient k .idle)
        (fun hd => absurd (hblocked.symm.trans hd) Bool.false_ne_true) rfl rfl rfl
        id rfl
  | @drained k hk hwaits =>
      refine ⟨h.asleep, ?_⟩
      dsimp only
      rw [dozingAfter_test .freeing (Function.update_self ..) (by simp [Waiting])]
      exact h.moveClient (k := k) (p := s.pool.setClient k .freeing)
        (fun hd => absurd (hblocked.symm.trans hd) Bool.false_ne_true) rfl rfl rfl
        id rfl
  | @destroys k works hk hfree =>
      obtain rfl := woken_none hw
      refine ⟨fun j hj => (by cases hj), fun j hj => ?_⟩
      by_cases hjk : j = k
      · exact (h.not_dozing (hjk ▸ hk) (by simp [Waiting]) hj).elim
      · exact (h.not_dozing (hc.2 j hjk) (by simp [Waiting]) hj).elim
  | @frees k hk =>
      obtain rfl := woken_none hw
      exact ⟨h.asleep, h.moveClient (k := k) (h.not_dozing hk (by simp [Waiting])) rfl rfl rfl
        id rfl⟩

end Awake

/-! ## At rest -/

section Rest

variable [Fintype κ] {s s' : State num κ F A} {a : Act num κ F A}

theorem awake_reach (hr : Reach State.step Single (start num κ F A) s) :
    Lawful s.pool ∧ Awake s := by
  refine reach_invariant (I := fun s => Lawful s.pool ∧ Awake s) ?_ hr
    ⟨lawful_start, awake_start⟩
  rintro s a s' hr ⟨hl, hawake⟩ hc hs
  have hl' := hl.step hc (State.effect_of_step (step_eq hs).2.1).2
  have hcounted : Counted s'.pool := counted_reach (pool_reach (hr.tail ⟨a, hc, hs⟩))
  exact ⟨hl', hawake.step hl hc hcounted hl'.noFault hs⟩

/-- No thread that is in a call can go on with it. -/
def Stuck (s : State num κ F A) : Prop := ∀ a s', Internal s a → s.step a ≠ some s'

/-- Nothing is left to do: the queue is empty and every work that was added is
finished, or the pool is stopped and every worker has left; nobody is in a
call. -/
structure Rest (s : State num κ F A) : Prop where
  done : s.pool.jpool.stop = false → s.pool.jpool.workFirst = none ∧
    (∀ i, s.pool.worker i = .lock) ∧
    ∀ j < s.pool.hist.added.length, j ∈ s.pool.hist.finished
  retired : s.pool.jpool.stop = true → ∀ i, s.pool.worker i = .left
  clients : ∀ k, s.pool.client k = .idle ∨ s.pool.client k = .freed

omit [Fintype κ] in
/-- With an empty queue and no worker at work, every work is finished. -/
theorem finished_of_empty {p : ThreadPool.State num κ F A}
    (hr : Reach ThreadPool.State.step unconditional (ThreadPool.start num κ F A) p)
    (hstop : p.jpool.stop = false) (hempty : p.jpool.workFirst = none)
    (hidle : ∀ i, busy (p.worker i) = false) :
    ∀ j < p.hist.added.length, j ∈ p.hist.finished := by
  have hknown : PoolWait.Known p := reach_invariant (fun _ h _ hs => PoolWait.known_step h hs)
    hr PoolWait.known_start
  obtain ⟨ws, hws⟩ := (hknown.sound hstop).shape
  have hnil : ws = [] := by
    have hlinks := hws.links
    rw [hempty] at hlinks
    exact links_unique hlinks rfl
  have hlength : p.hist.taken.length = p.hist.added.length := by
    rw [← hws.order, hnil, List.filterMap_nil, List.append_nil, List.length_map]
  intro j hj
  rcases hknown.ticketed.taken j (by omega) with hfinished | ⟨i, hi, _⟩
  · exact hfinished
  · exact absurd ((hidle i).symm.trans hi) Bool.false_ne_true

/-- Where nothing moves, everyone sleeps or is done. -/
theorem sleeps_of_stuck (hl : Lawful s.pool) (hstuck : Stuck s) :
    (∀ i, s.pool.worker i = .lock ∧ s.asleep i = true ∨ s.pool.worker i = .left) ∧
      ∀ k, s.pool.client k = .idle ∨ s.pool.client k = .freed ∨ s.dozing k = true := by
  have hmoves : ∀ {b : ThreadPool.Act num κ F A} {p : ThreadPool.State num κ F A}, ¬ Calls b →
      s.blocked b = false → s.pool.act b = some p → False := by
    intro b p hb hblocked hact
    have hne : ¬ s.pool.fault = true := by rw [hl.noFault]; exact Bool.false_ne_true
    have hp : s.pool.step b = some p := (if_neg hne).trans hact
    obtain ⟨woken, s', hs⟩ := exists_step hblocked hp
    exact hstuck ⟨b, woken⟩ s' hb hs
  constructor
  · intro i
    cases hi : s.pool.worker i with
    | lock =>
        refine .inl ⟨rfl, ?_⟩
        by_contra hawake
        exact hmoves (b := .enter i) id (Bool.eq_false_iff.2 hawake) (if_pos hi)
    | took work =>
        have hact : s.pool.act (.run i) = some (s.pool.run i work) := by
          simp only [State.act, hi]
        exact (hmoves id rfl hact).elim
    | running work =>
        have hact : s.pool.act (.destroyWork i) = some (s.pool.destroyWork i work) := by
          simp only [State.act, hi]
        exact (hmoves id rfl hact).elim
    | finishing => exact (hmoves (b := .finish i) id rfl (if_pos hi)).elim
    | left => exact .inr rfl
  · intro k
    cases hk : s.pool.client k with
    | idle => exact .inl rfl
    | adding work =>
        have hact : s.pool.act (.enqueue k) = some (s.pool.enqueue k work) := by
          simp only [State.act, hk]
        exact (hmoves id rfl hact).elim
    | waiting caller =>
        have hact : s.pool.act (.test k) = some (s.pool.test k caller) := by
          simp only [State.act, hk]
        refine .inr (.inr ?_)
        by_contra hawake
        exact hmoves (b := .test k) id (Bool.eq_false_iff.2 hawake) hact
    | freeing => exact (hmoves (b := .free k) id rfl (if_pos hk)).elim
    | freed => exact .inr (.inl rfl)

/-- Where everyone sleeps or is done, nothing moves. -/
theorem stuck_of_sleeps
    (hworker : ∀ i, s.pool.worker i = .lock ∧ s.asleep i = true ∨ s.pool.worker i = .left)
    (hclient : ∀ k, s.pool.client k = .idle ∨ s.pool.client k = .freed ∨
      Waiting (s.pool.client k) ∧ s.dozing k = true) : Stuck s := by
  intro a s' hc hs
  obtain ⟨hblocked, hp, _⟩ := step_eq hs
  obtain ⟨b, woken⟩ := a
  have hact : s.pool.act b = some s'.pool :=
    (if_neg (Bool.eq_false_iff.1 (State.effect_of_step hp).1)).symm.trans hp
  cases b with
  | addWork | wait | destroy => exact hc True.intro
  | enter i =>
      rcases hworker i with ⟨_, hasleep⟩ | hi
      · exact absurd (hblocked.symm.trans hasleep) Bool.false_ne_true
      · simp [State.act, hi] at hact
  | run i | destroyWork i | finish i =>
      rcases hworker i with ⟨hi, _⟩ | hi <;> simp [State.act, hi] at hact
  | test k =>
      rcases hclient k with hk | hk | ⟨_, hdozing⟩
      · simp [State.act, hk] at hact
      · simp [State.act, hk] at hact
      · exact absurd (hblocked.symm.trans hdozing) Bool.false_ne_true
  | enqueue k | free k =>
      rcases hclient k with hk | hk | ⟨hk | hk, _⟩ <;> simp [State.act, hk] at hact

/-- No deadlock: where nothing moves, nothing is left to do. -/
theorem rest_of_stuck (hr : Reach State.step Single (start num κ F A) s) (hstuck : Stuck s) :
    Rest s := by
  obtain ⟨hl, hawake⟩ := awake_reach hr
  have hcounted : Counted s.pool := counted_reach (pool_reach hr)
  obtain ⟨hworkers, hclients⟩ := sleeps_of_stuck hl hstuck
  -- someone who waits is owed a signal by a worker that is not asleep
  have hnone : ∀ k, s.dozing k = false := by
    intro k
    by_contra hdozing
    obtain ⟨_, hrunning, hstopped⟩ := hawake.dozing k (by simpa using hdozing)
    cases hstop : s.pool.jpool.stop with
    | false =>
        have hall : ∀ i, s.pool.worker i = .lock ∧ s.asleep i = true := fun i =>
          (hworkers i).resolve_right fun hi =>
            absurd (hstop.symm.trans (hl.left i hi)) Bool.false_ne_true
        rcases hrunning hstop with hworking | hfirst
        · apply hworking
          rw [← UInt64.toNat_inj, hcounted.working]
          refine count_eq_zero.2 fun i => ?_
          rw [(hall i).1]
          rfl
        · exact hfirst (hawake.asleep 0 (hall 0).2).2.1
    | true =>
        have hall : ∀ i, s.pool.worker i = .left := fun i =>
          (hworkers i).resolve_left fun hi =>
            absurd ((hawake.asleep i hi.2).2.2.symm.trans hstop) Bool.false_ne_true
        apply hstopped hstop
        rw [← UInt64.toNat_inj, hcounted.threads]
        refine count_eq_zero.2 fun i => ?_
        rw [hall i]
        rfl
  constructor
  · intro hstop
    have hall : ∀ i, s.pool.worker i = .lock ∧ s.asleep i = true := fun i =>
      (hworkers i).resolve_right fun hi =>
        absurd (hstop.symm.trans (hl.left i hi)) Bool.false_ne_true
    have hempty := (hawake.asleep 0 (hall 0).2).2.1
    refine ⟨hempty, fun i => (hall i).1, ?_⟩
    exact finished_of_empty (pool_reach hr) hstop hempty fun i => by rw [(hall i).1]; rfl
  · intro hstop i
    exact (hworkers i).resolve_left fun hi =>
      absurd ((hawake.asleep i hi.2).2.2.symm.trans hstop) Bool.false_ne_true
  · intro k
    rcases hclients k with hk | hk | hk
    · exact .inl hk
    · exact .inr hk
    · exact absurd ((hnone k).symm.trans hk) Bool.false_ne_true

end Rest

/-! ## Only so much happens without a call -/

/-- What a worker has left to do, with whether it sleeps. -/
def workerRank : WorkerPc × Bool → Nat
  | (.lock, false) => 3
  | (.lock, true) => 0
  | (.took _, _) => 8
  | (.running _, _) => 7
  | (.finishing, _) => 6
  | (.left, _) => 0

/-- What a thread that uses a pool of `n` workers has left to do in its call,
with whether it sleeps. -/
def clientRank (n : Nat) : ClientPc × Bool → Nat
  | (.adding _, _) => 7 + 3 * n
  | (.waiting _, false) => 2
  | (.waiting _, true) => 0
  | (.freeing, _) => 1
  | (.idle, _) | (.freed, _) => 0

/-- How many steps there are at most before the next call. -/
def rank [Fintype κ] (s : State num κ F A) : Nat :=
  6 * (s.pool.hist.added.length - s.pool.hist.taken.length) +
    total workerRank (fun i => (s.pool.worker i, s.asleep i)) +
    total (clientRank (poolSize num).toNat) fun k => (s.pool.client k, s.dozing k)

section Rank

variable [Fintype κ] {s s' : State num κ F A} {a : Act num κ F A}

omit [Fintype κ] [DecidableEq κ] in
/-- Those who are woken have to test again. -/
theorem total_workers_woken (worker : Worker num → WorkerPc) (asleep : Worker num → Bool) :
    total workerRank (fun i => (worker i, false)) ≤
      total workerRank (fun i => (worker i, asleep i)) + 3 * (poolSize num).toNat := by
  have hle := total_le (w := workerRank) (f := fun i => (worker i, asleep i))
    (g := fun i => (worker i, false)) (n := 3) fun i => by
      cases worker i <;> cases asleep i <;> simp [workerRank]
  rw [Fintype.card_fin] at hle
  omega

/-- A signal wakes one thread at most. -/
theorem total_clients_woken (n : Nat) (client : κ → ClientPc) (dozing : κ → Bool)
    {signal : Bool} {woken : Option κ} (hw : Wakes dozing signal woken) :
    total (clientRank n) (fun k => (client k, (match woken with
      | some k => Function.update dozing k false
      | none => dozing) k)) ≤
      total (clientRank n) (fun k => (client k, dozing k)) + if signal then 2 else 0 := by
  cases woken with
  | none => exact Nat.le_add_right _ _
  | some k =>
      obtain ⟨hsignal, hk⟩ := hw
      show total (clientRank n) (fun j => (client j, Function.update dozing k false j)) ≤ _
      have hupdate := total_update (clientRank n) (fun j => (client j, dozing j)) k
        (client k, false)
      have hrank : clientRank n (client k, false) ≤ clientRank n (client k, dozing k) + 2 := by
        rw [hk]
        cases client k <;> simp [clientRank]
      rw [update_snd, hsignal, if_pos rfl]
      omega

omit [DecidableEq κ] in
/-- A step of a worker, who may wake a thread that waits for the pool. -/
theorem rank_lt_of_worker {p : ThreadPool.State num κ F A} {dozing : κ → Bool}
    {i : Worker num} (pc : WorkerPc) {c e : Nat}
    (hworker : p.worker = Function.update s.pool.worker i pc)
    (hhist : 6 * (p.hist.added.length - p.hist.taken.length) + e ≤
      6 * (s.pool.hist.added.length - s.pool.hist.taken.length))
    (hclients : total (clientRank (poolSize num).toNat) (fun k => (p.client k, dozing k)) ≤
      total (clientRank (poolSize num).toNat) (fun k => (s.pool.client k, s.dozing k)) + c)
    (hlt : workerRank (pc, s.asleep i) + c < workerRank (s.pool.worker i, s.asleep i) + e) :
    rank ⟨p, s.asleep, dozing⟩ < rank s := by
  have hworkers := total_update workerRank (fun j => (s.pool.worker j, s.asleep j)) i
    (pc, s.asleep i)
  rw [← update_fst, ← hworker] at hworkers
  unfold rank
  dsimp only
  omega

/-- A step of a thread that uses the pool, which may wake workers. -/
theorem rank_lt_of_client {p : ThreadPool.State num κ F A} {asleep : Worker num → Bool}
    {k : κ} (pc : ClientPc) {w e : Nat}
    (hclient : p.client = Function.update s.pool.client k pc)
    (hhist : 6 * (p.hist.added.length - p.hist.taken.length) ≤
      6 * (s.pool.hist.added.length - s.pool.hist.taken.length) + e)
    (hworkers : total workerRank (fun i => (p.worker i, asleep i)) ≤
      total workerRank (fun i => (s.pool.worker i, s.asleep i)) + w)
    (hlt : clientRank (poolSize num).toNat (pc, s.dozing k) + e + w <
      clientRank (poolSize num).toNat (s.pool.client k, s.dozing k)) :
    rank ⟨p, asleep, s.dozing⟩ < rank s := by
  have hclients := total_update (clientRank (poolSize num).toNat)
    (fun j => (s.pool.client j, s.dozing j)) k (pc, s.dozing k)
  rw [← update_fst, ← hclient] at hclients
  unfold rank
  dsimp only
  omega

omit [DecidableEq κ] [Fintype κ] in
/-- No more works are taken than were added. -/
theorem taken_le_added {p : ThreadPool.State num κ F A} (h : Sound p) :
    p.hist.taken.length ≤ p.hist.added.length := by
  obtain ⟨ws, hws⟩ := h.shape
  rw [← hws.order, List.length_append, List.length_map]
  exact Nat.le_add_right _ _

omit [DecidableEq κ] [Fintype κ] in
/-- There is at most one more work to take behind `jpool_add_work`. -/
theorem added_le (p : ThreadPool.State num κ F A) (work : Addr) :
    6 * ((p.hist.added ++ (State.job p.works work).toList).length - p.hist.taken.length) ≤
      6 * (p.hist.added.length - p.hist.taken.length) + 6 := by
  have hone : (State.job p.works work).toList.length ≤ 1 := by
    cases State.job p.works work <;> simp
  rw [List.length_append]
  omega

omit [DecidableEq κ] [Fintype κ] in
/-- There is one work less to take behind a take. -/
theorem taken_lt {p : ThreadPool.State num κ F A} {i : Worker num} {work : Addr}
    {node : JpoolWork F A} {jpool : Jpool} (hnode : p.works.get work = some node)
    (hle : (p.take i (some work) jpool).hist.taken.length ≤ p.hist.added.length) :
    6 * (p.hist.added.length - (p.take i (some work) jpool).hist.taken.length) + 6 ≤
      6 * (p.hist.added.length - p.hist.taken.length) := by
  have htaken : (p.take i (some work) jpool).hist.taken.length = p.hist.taken.length + 1 := by
    simp [ThreadPool.State.take, State.job, hnode]
  rw [htaken] at hle ⊢
  omega

/-- A step that begins no call brings the pool nearer to rest. -/
theorem rank_step (hl' : Lawful s'.pool) (hc : Internal s a)
    (hs : s.step a = some s') : rank s' < rank s := by
  obtain ⟨hblocked, hp, hw, hasleep, hdozing⟩ := step_eq hs
  obtain ⟨b, woken⟩ := a
  obtain ⟨p, asleep, dozing⟩ := s'
  obtain rfl : asleep = asleepAfter s.asleep p b := hasleep
  obtain rfl : dozing = dozingAfter s.dozing p woken b := hdozing
  have hdangling : ∀ {t : ThreadPool.State num κ F A}, t.faulted.fault = false → False :=
    fun ht => by cases ht
  have he := (State.effect_of_step hp).2
  cases he with
  | takesDangling | runsDangling | destroysDangling | enqueuesDangling
  | destroysQueueDangling => exact (hdangling hl'.noFault).elim
  | refuses | creates | waitsFor | destroys => exact absurd True.intro hc
  | @waits i hi hfirst hstop =>
      obtain rfl := woken_none (by simpa [signals, hi] using hw)
      have hawake : s.asleep i = false := hblocked
      have hworkers := total_update workerRank (fun j => (s.pool.worker j, s.asleep j)) i
        (s.pool.worker i, true)
      rw [← update_snd] at hworkers
      rw [hi, hawake] at hworkers
      have hasleep : asleepAfter s.asleep s.pool (.enter i) =
          Function.update s.asleep i true := if_pos hi
      show rank ⟨s.pool, asleepAfter s.asleep s.pool (.enter i), s.dozing⟩ < rank s
      rw [hasleep]
      unfold rank
      simp only [workerRank] at hworkers ⊢
      omega
  | @leaves i hi hstop =>
      have hawake : s.asleep i = false := hblocked
      have hsignal : Wakes s.dozing true woken := by
        simpa [signals, ThreadPool.State.setWorker] using hw
      rw [asleepAfter_enter .left (Function.update_self ..) (by simp)]
      exact rank_lt_of_worker _ (e := 0) rfl (Nat.le_refl _)
        (total_clients_woken _ s.pool.client s.dozing hsignal)
        (by rw [hi, hawake]; simp [workerRank])
  | @takes i work node hi hstop hfirst hnode =>
      obtain rfl := woken_none (by simpa [signals, ThreadPool.State.take] using hw)
      have hawake : s.asleep i = false := hblocked
      rw [asleepAfter_enter (.took (some work)) (Function.update_self ..) (by simp)]
      have hle := taken_le_added (hl'.running ((jpoolUnlink_counters _ _).2.2.trans hstop)).1
      exact rank_lt_of_worker _ (c := 0) (e := 6) rfl (taken_lt hnode hle) (Nat.le_refl _)
        (by rw [hi, hawake]; simp [workerRank])
  | @runs i work node hi hnode =>
      obtain rfl := woken_none hw
      exact rank_lt_of_worker _ (c := 0) (e := 0) rfl (Nat.le_refl _) (Nat.le_refl _)
        (by rw [hi]; simp [workerRank])
  | @runsNull i hi =>
      obtain rfl := woken_none hw
      exact rank_lt_of_worker _ (c := 0) (e := 0) rfl (Nat.le_refl _) (Nat.le_refl _)
        (by rw [hi]; simp [workerRank])
  | @destroysWork i work node hi hnode =>
      obtain rfl := woken_none hw
      exact rank_lt_of_worker _ (c := 0) (e := 0) rfl (Nat.le_refl _) (Nat.le_refl _)
        (by rw [hi]; simp [workerRank])
  | @finishes i hi =>
      have hfinish : Wakes s.dozing (signals (s.pool.finish i) (.finish i)) woken := hw
      refine rank_lt_of_worker .lock (e := 0) rfl (Nat.le_refl _)
        (total_clients_woken _ s.pool.client s.dozing hfinish) ?_
      rw [hi]
      cases s.asleep i <;> simp only [workerRank] <;> split <;> omega
  | @enqueuesFirst k work hk hfirst =>
      obtain rfl := woken_none hw
      refine rank_lt_of_client .idle (e := 6) rfl (added_le s.pool work)
        (total_workers_woken s.pool.worker s.asleep) ?_
      rw [hk]
      simp only [clientRank]
      omega
  | @enqueuesLast k work first last node hk hfirst hlast hnode =>
      obtain rfl := woken_none hw
      refine rank_lt_of_client .idle (e := 6) rfl (added_le s.pool work)
        (total_workers_woken s.pool.worker s.asleep) ?_
      rw [hk]
      simp only [clientRank]
      omega
  | @testsAgain k caller hk hwaits =>
      have hawake : s.dozing k = false := hblocked
      have hclients := total_update (clientRank (poolSize num).toNat)
        (fun j => (s.pool.client j, s.dozing j)) k (s.pool.client k, true)
      rw [← update_snd] at hclients
      rw [hk, hawake] at hclients
      have hdozing : dozingAfter s.dozing s.pool woken (.test k) =
          Function.update s.dozing k true := if_pos (waiting_of_eq hk)
      show rank ⟨s.pool, s.asleep, dozingAfter s.dozing s.pool woken (.test k)⟩ < rank s
      rw [hdozing]
      unfold rank
      simp only [clientRank] at hclients ⊢
      omega
  | @returns k hk hwaits =>
      have hawake : s.dozing k = false := hblocked
      rw [dozingAfter_test .idle (Function.update_self ..) (by simp [Waiting])]
      exact rank_lt_of_client _ (e := 0) (w := 0) rfl (Nat.le_refl _) (Nat.le_refl _)
        (by rw [hk, hawake]; simp [clientRank])
  | @drained k hk hwaits =>
      have hawake : s.dozing k = false := hblocked
      rw [dozingAfter_test .freeing (Function.update_self ..) (by simp [Waiting])]
      exact rank_lt_of_client _ (e := 0) (w := 0) rfl (Nat.le_refl _) (Nat.le_refl _)
        (by rw [hk, hawake]; simp [clientRank])
  | @frees k hk =>
      obtain rfl := woken_none hw
      exact rank_lt_of_client _ (e := 0) (w := 0) rfl (Nat.le_refl _) (Nat.le_refl _)
        (by rw [hk]; simp [clientRank])

/-- Runs in which no call begins are runs in which every call is in order. -/
theorem reach_internal (hr : Reach State.step Single (start num κ F A) s)
    (hi : Reach State.step Internal s s') : Reach State.step Single (start num κ F A) s' := by
  refine hr.trans (hi.mono fun s a hc => ?_)
  obtain ⟨b, woken⟩ := a
  cases b with
  | addWork | wait | destroy => exact absurd True.intro hc
  | _ => exact True.intro

/-- One step of such a run. -/
theorem internal_step (hr : Reach State.step Single (start num κ F A) s)
    (hc : Internal s a) (hs : s.step a = some s') :
    Reach State.step Single (start num κ F A) s' ∧ rank s' < rank s := by
  have hr' := reach_internal hr (.single ⟨a, hc, hs⟩)
  exact ⟨hr', rank_step (awake_reach hr').1 hc hs⟩

/-- **All the work gets done, whatever the scheduler does and whomever the
signals wake.**  Without further calls the pool takes no more than `rank` steps;
when no thread can go on, nothing is left to do and nobody waits. -/
theorem comes_to_rest (hr : Reach State.step Single (start num κ F A) s) :
    (∀ as s', exec State.step Internal s as = some s' → as.length ≤ rank s) ∧
      (∀ s', Reach State.step Internal s s' → Stuck s' → Rest s') ∧
      ∃ s', Reach State.step Internal s s' ∧ Rest s' := by
  have hrest : ∀ s', Reach State.step Internal s s' → Stuck s' → Rest s' :=
    fun s' hi hstuck => rest_of_stuck (reach_internal hr hi) hstuck
  refine ⟨fun as s' => length_le_of_exec rank internal_step hr, hrest, ?_⟩
  have hmoves : ∀ s, Reach State.step Single (start num κ F A) s → ¬ Stuck s →
      ∃ a s', Internal s a ∧ s.step a = some s' ∧
        Reach State.step Single (start num κ F A) s' ∧ rank s' < rank s := by
    intro s hr hstuck
    by_contra hnone
    exact hstuck fun a s' hc hs => hnone ⟨a, s', hc, hs, internal_step hr hc hs⟩
  obtain ⟨s', hi, _, hstuck⟩ := exists_reach_progress rank hmoves hr
  exact ⟨s', hi, hrest s' hi hstuck⟩

/-- A work is taken, and the thread that added it sleeps in `jpool_wait`. -/
theorem comes_to_rest_pair :
    ∃ s : State 2 Unit Nat Nat, s.pool.hist.taken.length = 1 ∧ s.dozing () = true ∧
      (∀ as s', exec State.step Internal s as = some s' → as.length ≤ 11) ∧
      ∃ s', Reach State.step Internal s s' ∧ Rest s' := by
  obtain ⟨s, hr, htaken, hdozing, hrank⟩ := exists_reach_of_exec State.step Single
    (start 2 Unit Nat Nat)
    [⟨.enter 0, none⟩, ⟨.addWork () (some 1) 5 0, none⟩, ⟨.enqueue (), none⟩,
      ⟨.enter 1, none⟩, ⟨.wait (), none⟩, ⟨.test (), none⟩]
    (fun s => s.pool.hist.taken.length = 1 ∧ s.dozing () = true ∧ rank s = 11)
    (by decide +kernel)
  obtain ⟨hlength, _, hrest⟩ := comes_to_rest hr
  exact ⟨s, htaken, hdozing, fun as s' h => (hlength as s' h).trans_eq hrank, hrest⟩

/-- Two threads are in `jpool_wait` when the last work is finished: one of them
is woken, and the other sleeps on although nothing is left to do. -/
theorem second_waiter_sleeps :
    ∃ s : State 1 Bool Nat Nat, Reach State.step unconditional (start 1 Bool Nat Nat) s ∧
      Stuck s ∧ jpoolWaits s.pool.jpool = false ∧ Waiting (s.pool.client true) := by
  obtain ⟨s, hr, hworker, hclients, hwaits, htrue⟩ := exists_reach_of_exec State.step
    unconditional (start 1 Bool Nat Nat)
    [⟨.addWork true (some 1) 5 0, none⟩, ⟨.enqueue true, none⟩, ⟨.enter 0, none⟩,
      ⟨.wait true, none⟩, ⟨.test true, none⟩, ⟨.wait false, none⟩, ⟨.test false, none⟩,
      ⟨.run 0, none⟩, ⟨.destroyWork 0, none⟩, ⟨.finish 0, some false⟩, ⟨.test false, none⟩,
      ⟨.enter 0, none⟩]
    (fun s => (∀ i, s.pool.worker i = .lock ∧ s.asleep i = true ∨ s.pool.worker i = .left) ∧
      (∀ k, s.pool.client k = .idle ∨ s.pool.client k = .freed ∨
        Waiting (s.pool.client k) ∧ s.dozing k = true) ∧
      jpoolWaits s.pool.jpool = false ∧ Waiting (s.pool.client true)) (by decide +kernel)
  exact ⟨s, hr, stuck_of_sleeps hworker hclients, hwaits, htrue⟩

end Rank

end ZeroCopyProxy.Ports.PoolWakeups
