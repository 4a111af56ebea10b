import ZeroCopyProxy.Ports.PoolCounters

/-!
# Making a pool: `jpool_init`

`jpool_init` acquires the memory of the pool, its mutex and its two condition
variables one after the other and then creates the workers.  Where a call
fails it releases what it has and returns NULL.  Every call is one step, and
between any two of them the workers that exist take steps of `jpool_worker`.

What is acquired and not yet released is at every point the list of releases
the code would still make if the next call failed (`Ledger`), so nothing leaks
and nothing is released twice.  The workers are the trouble: they are detached
and nobody stops them, so after a `pthread_create` that fails behind another
one that did not, they go on in a pool that has been freed.
-/

namespace ZeroCopyProxy.Ports.PoolInit

open ZeroCopyProxy.Verified.Transitions
open ZeroCopyProxy.Verified.Counting
open ZeroCopyProxy.Ports.ThreadPool
open ZeroCopyProxy.Ports.PoolCounters

variable {F A : Type} {num : UInt64}

/-! ## The steps -/

/-- What `jpool_init` acquires before it creates threads, in its order. -/
inductive Resource where
  | jpool
  | workMutex
  | workCond
  | workingCond
  deriving DecidableEq

/-- How the calls of `jpool_init` turn out. -/
structure Outcomes where
  /-- `calloc` returns memory, `pthread_mutex_init` and `pthread_cond_init` 0 -/
  init : Resource → Bool
  /-- `pthread_create` in round `i` returns 0 -/
  create : Nat → Bool

/-- Where `jpool_init` is. -/
inductive InitPc where
  /-- before the call that acquires `r` -/
  | acquiring (r : Resource)
  /-- at the test of its loop -/
  | creating (i : Nat)
  /-- on its way to `return NULL`, with the releases that are left -/
  | releasing (rs : List Resource)
  /-- behind its return of a pool, or of NULL -/
  | returned (pool : Bool)
  deriving DecidableEq

/-- What the branch behind a failing call releases. -/
def onFailure : Resource → List Resource
  | .jpool => []
  | .workMutex => [.jpool]
  | .workCond => [.workMutex, .jpool]
  | .workingCond => [.workMutex, .workCond, .jpool]

/-- What the branch behind a failing `pthread_create` releases. -/
def onCreateFailure : List Resource := [.workMutex, .workCond, .workingCond, .jpool]

/-- What follows a call that succeeds. -/
def afterInit : Resource → InitPc
  | .jpool => .acquiring .workMutex
  | .workMutex => .acquiring .workCond
  | .workCond => .acquiring .workingCond
  | .workingCond => .creating 0

/-- A pool in the making.  `fault` says that a worker has used memory that is
not allocated. -/
structure State (num : UInt64) (F A : Type) where
  mem : Option (Mem F A)
  init : InitPc
  worker : Worker num → Option WorkerPc
  acquired : Resource → Nat
  released : Resource → Nat
  fault : Bool

/-- `jpool_init( num)` is called. -/
def start (num : UInt64) (F A : Type) : State num F A where
  mem := none
  init := .acquiring .jpool
  worker _ := none
  acquired _ := 0
  released _ := 0
  fault := false

/-- What happens next. -/
inductive Act (num : UInt64) where
  /-- the next call of `jpool_init` -/
  | init
  /-- a worker locks the mutex at the top of its loop -/
  | enter (i : Worker num)
  deriving DecidableEq

namespace State

/-- `jpool_init` is somewhere else. -/
def goto (s : State num F A) (pc : InitPc) : State num F A := { s with init := pc }

/-- The call that acquires `r` succeeds; the one of `calloc` is followed by the
assignments to the new pool. -/
def acquire (s : State num F A) (r : Resource) : State num F A :=
  { s with
    init := afterInit r
    mem := if r = .jpool then some (jpoolInit num) else s.mem
    acquired := Function.update s.acquired r (s.acquired r + 1) }

/-- `pthread_mutex_destroy`, `pthread_cond_destroy` or `free`. -/
def release (s : State num F A) (r : Resource) (rs : List Resource) : State num F A :=
  { s with
    init := .releasing rs
    mem := if r = .jpool then none else s.mem
    released := Function.update s.released r (s.released r + 1) }

/-- `pthread_create` starts worker `i`, which `pthread_detach` lets go. -/
def create (s : State num F A) (i : Worker num) : State num F A :=
  { s with
    init := .creating (i + 1)
    worker := Function.update s.worker i (some .lock) }

/-- The next call of `jpool_init`. -/
def initStep (o : Outcomes) (s : State num F A) : Option (State num F A) :=
  match s.init with
  | .acquiring r =>
    some (if o.init r then s.acquire r else s.goto (.releasing (onFailure r)))
  | .creating i =>
    some
      (if hi : i < (poolSize num).toNat then
        if o.create i then s.create ⟨i, hi⟩ else s.goto (.releasing onCreateFailure)
      else s.goto (.returned true))
  | .releasing (r :: rs) => some (s.release r rs)
  | .releasing [] => some (s.goto (.returned false))
  | .returned _ => none

/-- Worker `i` from its first lock on. -/
def enter (s : State num F A) (i : Worker num) : State num F A :=
  match s.mem with
  | none => { s with fault := true }
  | some m =>
    match jpoolWorkerEnter m with
    | none => { s with fault := true }
    | some (.waits, _) => s
    | some (.left, jpool) =>
      { s with
        mem := some { m with jpool := jpool }
        worker := Function.update s.worker i (some .left) }
    | some (.took work, jpool) =>
      { s with
        mem := some { m with jpool := jpool }
        worker := Function.update s.worker i (some (.took work)) }

def step (o : Outcomes) (s : State num F A) : Act num → Option (State num F A)
  | .init => s.initStep o
  | .enter i => if s.worker i = some .lock then some (s.enter i) else none

/-! ## What each step can do -/

/-- The outcomes of a step, with what holds before them. -/
inductive Effect (o : Outcomes) (s : State num F A) : State num F A → Prop
  | acquires {r : Resource} (hpc : s.init = .acquiring r) (ho : o.init r = true) :
      Effect o s (s.acquire r)
  | acquireFails {r : Resource} (hpc : s.init = .acquiring r) (ho : o.init r = false) :
      Effect o s (s.goto (.releasing (onFailure r)))
  | creates {i : Worker num} (hpc : s.init = .creating i) (ho : o.create i = true) :
      Effect o s (s.create i)
  | createFails {i : Worker num} (hpc : s.init = .creating i) (ho : o.create i = false) :
      Effect o s (s.goto (.releasing onCreateFailure))
  | created {i : Nat} (hpc : s.init = .creating i) (hi : (poolSize num).toNat ≤ i) :
      Effect o s (s.goto (.returned true))
  | releases {r : Resource} {rs : List Resource} (hpc : s.init = .releasing (r :: rs)) :
      Effect o s (s.release r rs)
  | gaveUp (hpc : s.init = .releasing []) : Effect o s (s.goto (.returned false))
  | enters {i : Worker num} (hi : s.worker i = some .lock) : Effect o s (s.enter i)

theorem effect_init {o : Outcomes} {s s' : State num F A} (h : s.initStep o = some s') :
    Effect o s s' := by
  unfold initStep at h
  split at h
  · next r hpc =>
      cases h
      cases ho : o.init r with
      | true => exact .acquires hpc ho
      | false => exact .acquireFails hpc ho
  · next i hpc =>
      cases h
      split
      · next hi =>
          cases ho : o.create i with
          | true => exact .creates (i := ⟨i, hi⟩) hpc ho
          | false => exact .createFails (i := ⟨i, hi⟩) hpc ho
      · next hi => exact .created hpc (Nat.le_of_not_lt hi)
  · next r rs hpc =>
      cases h
      exact .releases hpc
  · next hpc =>
      cases h
      exact .gaveUp hpc
  · cases h

/-- Every step is one of these outcomes. -/
theorem effect_of_step {o : Outcomes} {s s' : State num F A} {a : Act num}
    (h : s.step o a = some s') : Effect o s s' := by
  cases a with
  | init => exact effect_init h
  | enter i =>
      simp only [step] at h
      split at h
      · next hi =>
          cases h
          exact .enters hi
      · cases h

end State

/-! ## The ledger -/

/-- What the code releases if nothing succeeds from here on; once a pool has
been returned that is nobody's business here. -/
def pending : InitPc → List Resource
  | .acquiring r => onFailure r
  | .creating _ => onCreateFailure
  | .releasing rs => rs
  | .returned pool => if pool then onCreateFailure else []

/-- How many workers there are, where the place of `jpool_init` tells. -/
def crew (num : UInt64) : InitPc → Option Nat
  | .acquiring _ => some 0
  | .creating i => some i
  | .releasing _ => none
  | .returned pool => if pool then some (poolSize num).toNat else none

/-- What has been acquired is released already or still to be released. -/
structure Ledger (s : State num F A) : Prop where
  balance : ∀ r, s.acquired r = s.released r + (pending s.init).count r
  once : ∀ r, s.acquired r ≤ 1
  fresh : ∀ q, s.init = .acquiring q → ∀ r, s.released r = 0
  mem : s.mem = if .jpool ∈ pending s.init then some (jpoolInit num) else none
  worker : ∀ n, crew num s.init = some n →
    ∀ i : Worker num, s.worker i = if i < n then some .lock else none

/-- A resource is pending once it has been acquired. -/
theorem count_afterInit (r q : Resource) :
    (pending (afterInit r)).count q = (onFailure r).count q + if q = r then 1 else 0 := by
  cases r <;> cases q <;> rfl

theorem count_onFailure_self (r : Resource) : (onFailure r).count r = 0 := by
  cases r <;> rfl

theorem crew_afterInit (r : Resource) : crew num (afterInit r) = some 0 := by
  cases r <;> rfl

theorem jpool_mem_afterInit (r : Resource) : .jpool ∈ pending (afterInit r) := by
  cases r <;> decide

/-- Every release list ends with the pool itself. -/
theorem jpool_mem_onFailure {r : Resource} (hr : r ≠ .jpool) : .jpool ∈ onFailure r := by
  cases r with
  | jpool => exact absurd rfl hr
  | workMutex | workCond | workingCond => decide

/-- A worker that finds the pool as it was made waits. -/
theorem enter_of_fresh {s : State num F A} (hm : s.mem = some (jpoolInit num))
    (i : Worker num) : s.enter i = s := by
  simp only [State.enter, hm]
  rfl

/-- A worker that finds the pool freed uses it all the same. -/
theorem enter_of_freed {s : State num F A} (hm : s.mem = none) (i : Worker num) :
    s.enter i = { s with fault := true } := by
  simp only [State.enter, hm]

/-- A worker leaves `jpool_init` where it is. -/
theorem enter_init (s : State num F A) (i : Worker num) : (s.enter i).init = s.init := by
  unfold State.enter
  split
  · rfl
  · split <;> rfl

theorem ledger_start : Ledger (start num F A) where
  balance _ := rfl
  once _ := Nat.zero_le 1
  fresh _ _ _ := rfl
  mem := rfl
  worker n hn i := by
    cases hn
    rfl

theorem Ledger.acquire {s : State num F A} (hs : Ledger s) {r : Resource}
    (hpc : s.init = .acquiring r) : Ledger (s.acquire r) := by
  have hpending : pending s.init = onFailure r := by rw [hpc]; rfl
  have hbalance := hs.balance
  have hreleased := hs.fresh r hpc
  rw [hpending] at hbalance
  constructor
  · intro q
    show Function.update s.acquired r (s.acquired r + 1) q =
      s.released q + (pending (afterInit r)).count q
    rw [count_afterInit, ← Nat.add_assoc, ← hbalance q]
    by_cases hq : q = r
    · rw [hq, Function.update_self, if_pos rfl]
    · rw [Function.update_of_ne hq, if_neg hq, Nat.add_zero]
  · intro q
    show Function.update s.acquired r (s.acquired r + 1) q ≤ 1
    by_cases hq : q = r
    · rw [hq, Function.update_self, hbalance r, hreleased r, count_onFailure_self]
    · rw [Function.update_of_ne hq]
      exact hs.once q
  · exact fun _ _ => hreleased
  · show (if r = .jpool then some (jpoolInit num) else s.mem) =
      if .jpool ∈ pending (afterInit r) then some (jpoolInit num) else none
    rw [if_pos (jpool_mem_afterInit r)]
    by_cases hr : r = .jpool
    · rw [if_pos hr]
    · rw [if_neg hr, hs.mem, hpending, if_pos (jpool_mem_onFailure hr)]
  · intro n hn i
    have hzero : n = 0 := Option.some.inj (hn.symm.trans (crew_afterInit r))
    rw [hzero]
    exact hs.worker 0 (by rw [hpc]; rfl) i

theorem Ledger.release {s : State num F A} (hs : Ledger s) {r : Resource}
    {rs : List Resource} (hpc : s.init = .releasing (r :: rs)) :
    Ledger (s.release r rs) := by
  have hbalance := hs.balance
  have hpending : pending s.init = r :: rs := by rw [hpc]; rfl
  rw [hpending] at hbalance
  have hcount : rs.count r = 0 := by
    have h := hs.once r
    rw [hbalance r, List.count_cons_self] at h
    omega
  constructor
  · intro q
    show s.acquired q = Function.update s.released r (s.released r + 1) q + rs.count q
    by_cases hq : q = r
    · rw [hq, Function.update_self, hbalance r, List.count_cons_self]
      omega
    · rw [Function.update_of_ne hq, hbalance q, List.count_cons_of_ne (Ne.symm hq)]
  · exact hs.once
  · intro q hq
    cases hq
  · show (if r = .jpool then none else s.mem) =
      if .jpool ∈ rs then some (jpoolInit num) else none
    by_cases hr : r = .jpool
    · rw [if_pos hr, if_neg (List.count_eq_zero.1 (hr ▸ hcount))]
    · have hiff : (.jpool ∈ r :: rs) ↔ (.jpool ∈ rs) := by
        rw [List.mem_cons, or_iff_right (Ne.symm hr)]
      rw [if_neg hr, hs.mem, hpending]
      simp only [hiff]
  · intro n hn
    cases hn

theorem Ledger.create {s : State num F A} (hs : Ledger s) {i : Worker num}
    (hpc : s.init = .creating i) : Ledger (s.create i) := by
  have hpending : pending s.init = onCreateFailure := by rw [hpc]; rfl
  have hbalance := hs.balance
  have hmem := hs.mem
  rw [hpending] at hbalance hmem
  constructor
  · exact hbalance
  · exact hs.once
  · intro q hq
    cases hq
  · exact hmem
  · intro n hn j
    cases hn
    show Function.update s.worker i (some .lock) j = if j.val < i + 1 then some .lock else none
    have hworker := hs.worker i (by rw [hpc]; rfl) j
    by_cases hj : j = i
    · rw [hj, Function.update_self, if_pos (Nat.lt_succ_self _)]
    · have hne : j.val ≠ i.val := fun h => hj (Fin.ext h)
      have hiff : j.val < i + 1 ↔ j.val < i := by omega
      rw [Function.update_of_ne hj, hworker]
      simp only [hiff]

/-- Going elsewhere with the same things pending keeps the ledger. -/
theorem Ledger.goto {s : State num F A} (hs : Ledger s) {pc : InitPc}
    (hpending : pending pc = pending s.init)
    (hfresh : ∀ q, pc ≠ .acquiring q)
    (hworker : ∀ n, crew num pc = some n →
      ∀ i : Worker num, s.worker i = if i < n then some .lock else none) :
    Ledger (s.goto pc) where
  balance r := by
    show s.acquired r = s.released r + (pending pc).count r
    rw [hpending]
    exact hs.balance r
  once := hs.once
  fresh q hq := absurd hq (hfresh q)
  mem := by
    show s.mem = if .jpool ∈ pending pc then some (jpoolInit num) else none
    rw [hpending]
    exact hs.mem
  worker := hworker

/-- Going to a release list or behind the return of NULL says nothing about
the workers. -/
theorem Ledger.giveUp {s : State num F A} (hs : Ledger s) {pc : InitPc}
    (hpending : pending pc = pending s.init) (hfresh : ∀ q, pc ≠ .acquiring q)
    (hcrew : crew num pc = none) : Ledger (s.goto pc) :=
  hs.goto hpending hfresh fun n hn => absurd (hcrew.symm.trans hn) (by simp)

theorem Ledger.enter {s : State num F A} (hs : Ledger s) (i : Worker num) :
    Ledger (s.enter i) := by
  have hmem := hs.mem
  split at hmem
  · rw [enter_of_fresh hmem]
    exact hs
  · rw [enter_of_freed hmem]
    exact ⟨hs.balance, hs.once, hs.fresh, hs.mem, hs.worker⟩

/-- Every step keeps the ledger. -/
theorem Ledger.step {o : Outcomes} {s s' : State num F A} (hs : Ledger s)
    (he : State.Effect o s s') : Ledger s' := by
  cases he with
  | acquires hpc ho => exact hs.acquire hpc
  | acquireFails hpc ho =>
      exact hs.giveUp (by rw [hpc]; rfl) (fun _ h => by cases h) rfl
  | creates hpc ho => exact hs.create hpc
  | createFails hpc ho =>
      exact hs.giveUp (by rw [hpc]; rfl) (fun _ h => by cases h) rfl
  | created hpc hi =>
      refine hs.goto (by rw [hpc]; rfl) (fun _ h => by cases h) ?_
      intro n hn j
      cases hn
      rw [hs.worker _ (by rw [hpc]; rfl) j, if_pos (Nat.lt_of_lt_of_le j.isLt hi),
        if_pos j.isLt]
  | releases hpc => exact hs.release hpc
  | gaveUp hpc => exact hs.giveUp (by rw [hpc]; rfl) (fun _ h => by cases h) rfl
  | enters hi => exact hs.enter _

/-- The states of the runs of `jpool_init( num)` whose calls turn out like
this. -/
abbrev Run (o : Outcomes) (s : State num F A) : Prop :=
  Reach (State.step o) unconditional (start num F A) s

theorem ledger_run {o : Outcomes} {s : State num F A} (hr : Run o s) : Ledger s :=
  reach_invariant (fun _ hs _ h => hs.step (State.effect_of_step h)) hr ledger_start

/-! ## Failing behind a worker -/

/-- A `pthread_create` fails behind another one that succeeded. -/
def FailsLate (num : UInt64) (o : Outcomes) : Prop :=
  (∀ r, o.init r = true) ∧ o.create 0 = true ∧
    ∃ i < (poolSize num).toNat, o.create i = false

/-- What has succeeded for `jpool_init` to be where it is. -/
structure Succeeded (o : Outcomes) (s : State num F A) : Prop where
  init : ∀ r ∈ pending s.init, o.init r = true
  create : ∀ i, s.init = .creating i → ∀ j < i, o.create j = true

theorem mem_afterInit {q r : Resource} (hq : q ∈ pending (afterInit r)) :
    q = r ∨ q ∈ onFailure r := by
  have hcount := count_afterInit r q
  have hpos := List.count_pos_iff.2 hq
  by_cases heq : q = r
  · exact .inl heq
  · rw [if_neg heq, Nat.add_zero] at hcount
    exact .inr (List.count_pos_iff.1 (hcount ▸ hpos))

theorem afterInit_creating {r : Resource} {i : Nat} (h : afterInit r = .creating i) :
    i = 0 := by
  cases r with
  | jpool | workMutex | workCond => cases h
  | workingCond =>
      cases h
      rfl

theorem succeeded_start (o : Outcomes) : Succeeded o (start num F A) where
  init _ hr := absurd hr List.not_mem_nil
  create _ hi := by cases hi

theorem Succeeded.step {o : Outcomes} {s s' : State num F A} (hs : Succeeded o s)
    (he : State.Effect o s s') : Succeeded o s' := by
  have hinit := hs.init
  cases he with
  | @acquires r hpc ho =>
      rw [hpc] at hinit
      constructor
      · intro q hq
        rcases mem_afterInit hq with rfl | hq
        · exact ho
        · exact hinit q hq
      · intro i hi j hj
        rw [afterInit_creating hi] at hj
        exact absurd hj (Nat.not_lt_zero j)
  | acquireFails hpc ho =>
      rw [hpc] at hinit
      exact ⟨hinit, fun i hi => by cases hi⟩
  | @creates i hpc ho =>
      rw [hpc] at hinit
      refine ⟨hinit, fun k hk j hj => ?_⟩
      cases hk
      rcases Nat.lt_succ_iff_lt_or_eq.1 hj with hj | rfl
      · exact hs.create i hpc j hj
      · exact ho
  | createFails hpc ho =>
      rw [hpc] at hinit
      exact ⟨hinit, fun i hi => by cases hi⟩
  | created hpc hi =>
      rw [hpc] at hinit
      exact ⟨hinit, fun i hi => by cases hi⟩
  | releases hpc =>
      rw [hpc] at hinit
      exact ⟨fun q hq => hinit q (List.mem_cons_of_mem _ hq), fun i hi => by cases hi⟩
  | gaveUp hpc =>
      rw [hpc] at hinit
      exact ⟨hinit, fun i hi => by cases hi⟩
  | @enters i hi =>
      constructor
      · rw [enter_init]
        exact hinit
      · rw [enter_init]
        exact hs.create

/-- Nobody has used the pool freed, and on the way to `return NULL` there are
no workers that could. -/
structure Quiet (s : State num F A) : Prop where
  sound : s.fault = false
  alone : crew num s.init = none → ∀ i, s.worker i = none

theorem quiet_start : Quiet (start num F A) where
  sound := rfl
  alone h := by cases h

/-- A call that fails while nobody is there leaves nobody behind. -/
theorem Quiet.giveUp {s : State num F A} (hs : Quiet s) (pc : InitPc)
    (hworker : ∀ i, s.worker i = none) : Quiet (s.goto pc) :=
  ⟨hs.sound, fun _ => hworker⟩

/-- Where there are workers, the pool is there. -/
theorem jpool_mem_of_crew {pc : InitPc} {n : Nat} (h : crew num pc = some n) (hn : 0 < n) :
    .jpool ∈ pending pc := by
  cases pc with
  | acquiring r =>
      cases h
      exact absurd hn (Nat.lt_irrefl 0)
  | creating k =>
      show Resource.jpool ∈ onCreateFailure
      decide
  | releasing rs => cases h
  | returned pool =>
      cases pool with
      | true =>
          show Resource.jpool ∈ onCreateFailure
          decide
      | false => cases h

/-- A worker that is about to take the mutex finds the pool as it was set up. -/
theorem Quiet.mem_of_worker {s : State num F A} (hs : Quiet s) (hl : Ledger s)
    {i : Worker num} (hi : s.worker i = some .lock) : s.mem = some (jpoolInit num) := by
  cases hcrew : crew num s.init with
  | none => exact absurd (hi.symm.trans (hs.alone hcrew i)) (by simp)
  | some n =>
      have hin : i.val < n := by
        by_contra hge
        have hnone := hl.worker n hcrew i
        rw [if_neg hge] at hnone
        exact absurd (hi.symm.trans hnone) (by simp)
      rw [hl.mem, if_pos (jpool_mem_of_crew hcrew (Nat.zero_lt_of_lt hin))]

/-- Unless a creation fails behind another one, the one that fails is the
first. -/
theorem Succeeded.first_fails {o : Outcomes} {s : State num F A} (ho : Succeeded o s)
    (hlate : ¬ FailsLate num o) {i : Worker num} (hpc : s.init = .creating i)
    (hok : o.create i = false) : i.val = 0 := by
  by_contra hne
  have hpending : pending s.init = onCreateFailure := by rw [hpc]; rfl
  have hall : ∀ r, r ∈ pending s.init := by
    rw [hpending]
    intro r
    cases r <;> decide
  exact hlate ⟨fun r => ho.init r (hall r),
    ho.create i hpc 0 (Nat.pos_of_ne_zero hne), i, i.isLt, hok⟩

theorem Quiet.step {o : Outcomes} {s s' : State num F A} (hs : Quiet s) (hl : Ledger s)
    (ho : Succeeded o s) (hlate : ¬ FailsLate num o) (he : State.Effect o s s') :
    Quiet s' := by
  have hworker := hl.worker
  have halone := hs.alone
  cases he with
  | @acquires r hpc hok =>
      exact ⟨hs.sound, fun h => absurd ((crew_afterInit r).symm.trans h) (by simp)⟩
  | acquireFails hpc hok =>
      rw [hpc] at hworker
      refine hs.giveUp _ fun i => ?_
      rw [hworker 0 rfl i, if_neg (Nat.not_lt_zero _)]
  | creates hpc hok => exact ⟨hs.sound, fun h => by cases h⟩
  | @createFails i hpc hok =>
      have hzero := ho.first_fails hlate hpc hok
      rw [hpc] at hworker
      refine hs.giveUp _ fun j => ?_
      rw [hworker i rfl j, if_neg (by omega)]
  | created hpc hi => exact ⟨hs.sound, fun h => by cases h⟩
  | releases hpc =>
      rw [hpc] at halone
      exact ⟨hs.sound, fun _ => halone rfl⟩
  | gaveUp hpc =>
      rw [hpc] at halone
      exact hs.giveUp _ (halone rfl)
  | @enters i hi =>
      rw [enter_of_fresh (hs.mem_of_worker hl hi)]
      exact hs

/-- What is known of a run in which no creation fails behind another one. -/
theorem quiet_run {o : Outcomes} (hlate : ¬ FailsLate num o) {s : State num F A}
    (hr : Run o s) : Quiet s := by
  have hboth : Succeeded o s ∧ Quiet s :=
    reach_invariant (I := fun s => Succeeded o s ∧ Quiet s)
      (fun hr hs _ h =>
        have he := State.effect_of_step h
        ⟨hs.1.step he, hs.2.step (ledger_run hr) hs.1 hlate he⟩)
      hr ⟨succeeded_start o, quiet_start⟩
  exact hboth.2

/-! ## A run that goes wrong -/

theorem Run.init {o : Outcomes} {s s' : State num F A} (hr : Run o s)
    (h : s.initStep o = some s') : Run o s' :=
  hr.tail ⟨.init, trivial, h⟩

/-- Every release happens, whatever the workers do; here they do nothing. -/
theorem exists_gaveUp {o : Outcomes} (rs : List Resource) {s : State num F A}
    (hr : Run o s) (hpc : s.init = .releasing rs) :
    ∃ s' : State num F A, Run o s' ∧ s'.init = .returned false ∧ s'.worker = s.worker := by
  induction rs generalizing s with
  | nil =>
      have hgive : Run o (s.goto (.returned false)) :=
        hr.init (by simp only [State.initStep, hpc])
      exact ⟨s.goto (.returned false), hgive, rfl, rfl⟩
  | cons r rs ih =>
      have hrel : Run o (s.release r rs) := hr.init (by simp only [State.initStep, hpc])
      obtain ⟨s', hr', hpc', hworker⟩ := ih hrel rfl
      exact ⟨s', hr', hpc', hworker⟩

/-- The call that acquires `r` is made and succeeds. -/
theorem run_acquire {o : Outcomes} {s : State num F A} {r : Resource} (hr : Run o s)
    (hpc : s.init = .acquiring r) (ho : o.init r = true) : Run o (s.acquire r) :=
  hr.init (by simp only [State.initStep, hpc, ho, if_pos])

/-- With everything acquired, `jpool_init` reaches the first creation that
fails. -/
theorem exists_creating {o : Outcomes} (ho : ∀ r, o.init r = true) (k : Nat)
    (hk : k ≤ (poolSize num).toNat) (hcreate : ∀ j < k, o.create j = true) :
    ∃ s : State num F A, Run o s ∧ s.init = .creating k := by
  induction k with
  | zero =>
      have h₀ : Run o (start num F A) := .refl
      have h₁ := run_acquire h₀ rfl (ho .jpool)
      have h₂ := run_acquire h₁ rfl (ho .workMutex)
      have h₃ := run_acquire h₂ rfl (ho .workCond)
      exact ⟨_, run_acquire h₃ rfl (ho .workingCond), rfl⟩
  | succ k ih =>
      obtain ⟨s, hr, hpc⟩ := ih (Nat.le_of_succ_le hk)
        fun j hj => hcreate j (Nat.lt_succ_of_lt hj)
      have hok : o.create k = true := hcreate k (Nat.lt_succ_self k)
      have hstep : s.initStep o = some (s.create ⟨k, hk⟩) := by
        simp only [State.initStep, hpc, hok, dif_pos (Nat.lt_of_succ_le hk), if_pos]
      exact ⟨_, hr.init hstep, rfl⟩

/-- A worker that had not been scheduled yet finds the pool freed. -/
theorem exists_fault {o : Outcomes} (hlate : FailsLate num o) :
    ∃ s : State num F A, Run o s ∧ s.init = .returned false ∧ s.fault = true := by
  obtain ⟨ho, hfirst, hfails⟩ := hlate
  have hex : ∃ i, i < (poolSize num).toNat ∧ o.create i = false := hfails
  have hspec := Nat.find_spec hex
  have hpos : 0 < Nat.find hex := by
    rcases Nat.eq_zero_or_pos (Nat.find hex) with hzero | hpos
    · rw [hzero, hfirst] at hspec
      cases hspec.2
    · exact hpos
  have hcreate : ∀ j < Nat.find hex, o.create j = true := by
    intro j hj
    have hmin := Nat.find_min hex hj
    rw [not_and, Bool.not_eq_false] at hmin
    exact hmin (Nat.lt_trans hj hspec.1)
  obtain ⟨s, hr, hpc⟩ := exists_creating (F := F) (A := A) ho _ hspec.1.le hcreate
  have hworker : s.worker 0 = some .lock := by
    rw [(ledger_run hr).worker _ (by rw [hpc]; rfl) 0]
    exact if_pos hpos
  have hfail : s.initStep o = some (s.goto (.releasing onCreateFailure)) := by
    simp only [State.initStep, hpc, hspec.1, hspec.2, dif_pos]
    rfl
  obtain ⟨s', hr', hpc', hworker'⟩ := exists_gaveUp _ (hr.init hfail) rfl
  have hmem : s'.mem = none := by
    rw [(ledger_run hr').mem, hpc']
    rfl
  have hlock : s'.worker 0 = some .lock := by
    rw [hworker']
    exact hworker
  have hstep : s'.step o (.enter 0) = some (s'.enter 0) := by
    simp only [State.step, hlock, if_pos]
  rw [enter_of_freed hmem] at hstep
  exact ⟨_, hr'.tail ⟨.enter 0, trivial, hstep⟩, hpc', rfl⟩

/-! ## Failing cleanly -/

/-- A worker is running. -/
def isRunning (w : Option WorkerPc) : Bool := w.any inLoop

/-- What a caller of `jpool_init` may expect. -/
structure Clean (s : State num F A) : Prop where
  /-- behind NULL nothing is left of what had been acquired, and no worker has
  used the pool after it was freed -/
  onNull : s.init = .returned false →
    (∀ r, s.acquired r ≤ 1 ∧ s.released r = s.acquired r) ∧ s.fault = false
  /-- a pool knows the number of its workers -/
  onPool : s.init = .returned true →
    ∃ m, s.mem = some m ∧ m.jpool.threadCnt.toNat = count isRunning s.worker

/-- A pool is returned as it was made, with every worker at its first lock. -/
theorem returned_start {o : Outcomes} {s : State num F A} (hr : Run o s)
    (hpc : s.init = .returned true) :
    s.mem = some (jpoolInit num) ∧ ∀ i, s.worker i = some .lock := by
  have hl := ledger_run hr
  constructor
  · rw [hl.mem, hpc]
    rfl
  · intro i
    rw [hl.worker _ (by rw [hpc]; rfl) i, if_pos i.isLt]

/-- What has been acquired is released, and once, on every way to NULL. -/
theorem released_of_null {o : Outcomes} {s : State num F A} (hr : Run o s)
    (hpc : s.init = .returned false) (r : Resource) :
    s.acquired r ≤ 1 ∧ s.released r = s.acquired r := by
  have hl := ledger_run hr
  have hbalance := hl.balance r
  rw [hpc] at hbalance
  exact ⟨hl.once r, hbalance.symm⟩

theorem threadCnt_of_pool {o : Outcomes} {s : State num F A} (hr : Run o s)
    (hpc : s.init = .returned true) :
    ∃ m, s.mem = some m ∧ m.jpool.threadCnt.toNat = count isRunning s.worker := by
  obtain ⟨hmem, hworker⟩ := returned_start hr hpc
  refine ⟨jpoolInit num, hmem, ?_⟩
  have hall : (Finset.univ.filter fun i => isRunning (s.worker i) = true) = Finset.univ :=
    Finset.filter_true_of_mem fun i _ => by rw [hworker i]; rfl
  rw [count, hall, Finset.card_univ, Fintype.card_fin]
  rfl

/-- `jpool_init` fails cleanly in all its runs exactly when no `pthread_create`
fails behind one that succeeded. -/
theorem jpoolInit_clean_iff (o : Outcomes) :
    (∀ s : State num F A, Run o s → Clean s) ↔ ¬ FailsLate num o := by
  constructor
  · intro hclean hlate
    obtain ⟨s, hr, hpc, hfault⟩ := exists_fault (F := F) (A := A) hlate
    have hsound := ((hclean s hr).onNull hpc).2
    rw [hfault] at hsound
    cases hsound
  · intro hlate s hr
    constructor
    · intro hpc
      exact ⟨released_of_null hr hpc, (quiet_run hlate hr).sound⟩
    · exact threadCnt_of_pool hr

/-- The second of two workers cannot be created. -/
def oneWorker : Outcomes where
  init _ := true
  create i := i == 0

/-- The first one locks a mutex that has been destroyed and freed. -/
theorem oneWorker_unclean :
    ¬ ∀ s : State 2 Unit Unit, Run oneWorker s → Clean s := by
  intro hclean
  obtain ⟨s, hr, hpc, hfault⟩ :=
    exists_reach_of_exec (State.step oneWorker) unconditional (start 2 Unit Unit)
      (List.replicate 11 .init ++ [.enter 0])
      (fun s => s.init = .returned false ∧ s.fault = true) (by decide)
  exact Bool.noConfusion (hfault.symm.trans ((hclean s hr).onNull hpc).2)

end ZeroCopyProxy.Ports.PoolInit
