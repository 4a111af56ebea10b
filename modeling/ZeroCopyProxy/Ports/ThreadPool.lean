import ZeroCopyProxy.Verified.LinkedHeap
import ZeroCopyProxy.Verified.Transitions
import Mathlib.Algebra.Ring.Nat
import Mathlib.Logic.Function.Basic

/-!
# The thread pool: `jpool.c`

`jpool_worker`, `jpool_add_work`, `jpool_wait` and `jpool_destroy`, with any
number of workers and any number of threads that call the other three.  Each
critical section under `work_mutex` is one step, and so is each piece of code
between two of them that touches a work.

`pthread_cond_wait` gives the mutex up and, woken for whatever reason, locks
it and tests again, so a thread that waits is where it was before it locked;
wake-ups without a signal are allowed, so a signal changes nothing that a step
depends on.

The works are cells of a heap.  Reading or writing a cell that is not
allocated sets `fault`, after which nothing happens any more.  `Effect` lists
what each action can do, with the state it leaves; every invariant is proved
from that list.
-/

namespace ZeroCopyProxy.Ports.ThreadPool

open ZeroCopyProxy.Verified.LinkedHeap

variable {F A : Type}

/-! ## The pool and its works -/

/-- `struct jpool_work_s`. -/
structure JpoolWork (F A : Type) where
  func : F
  arg : A
  next : Option Addr
  deriving DecidableEq

/-- `struct jpool_s` without its mutex and condition variables. -/
structure Jpool where
  workFirst : Option Addr
  workLast : Option Addr
  workingCnt : UInt64
  threadCnt : UInt64
  stop : Bool
  deriving DecidableEq

/-- The memory the threads of a pool share. -/
structure Mem (F A : Type) where
  jpool : Jpool
  works : Heap (JpoolWork F A)

/-- `jpool_init` makes two workers when it is asked for none. -/
def poolSize (num : UInt64) : UInt64 := if num = 0 then 2 else num

/-- The pool `jpool_init` returns. -/
def jpoolInit (num : UInt64) : Mem F A where
  jpool :=
    { workFirst := none
      workLast := none
      workingCnt := 0
      threadCnt := poolSize num
      stop := false }
  works := Heap.empty

/-- `jpool_work_init`, up to the address `malloc` returns. -/
def jpoolWorkInit (func : Option F) (arg : A) : Option (JpoolWork F A) :=
  func.map fun f => ⟨f, arg, none⟩

/-- The pool without its first work, which `next` follows. -/
def jpoolUnlink (jpool : Jpool) (next : Option Addr) : Jpool :=
  if next = none then { jpool with workFirst := none, workLast := none }
  else { jpool with workFirst := next }

/-- `jpool_work_get`: the work, which is NULL when there is none, and the pool
without it. -/
def jpoolWorkGet (m : Mem F A) : Option (Option Addr × Jpool) :=
  match m.jpool.workFirst with
  | none => some (none, m.jpool)
  | some work =>
    match m.works.get work with
    | none => none
    | some node => some (some work, jpoolUnlink m.jpool node.next)

/-- What a worker finds when it has locked the mutex at the top of its loop. -/
inductive Entered where
  | waits
  | left
  | took (work : Option Addr)
  deriving DecidableEq

/-- `jpool_worker` from its first lock on: it waits for a work, leaves, or
takes a work and counts itself as working. -/
def jpoolWorkerEnter (m : Mem F A) : Option (Entered × Jpool) :=
  if m.jpool.workFirst = none ∧ m.jpool.stop = false then
    some (.waits, m.jpool)
  else if m.jpool.stop = true then
    some (.left, { m.jpool with threadCnt := m.jpool.threadCnt - 1 })
  else
    (jpoolWorkGet m).map fun (work, jpool) =>
      (.took work, { jpool with workingCnt := jpool.workingCnt + 1 })

/-- `jpool_worker` from its second lock on. -/
def jpoolWorkerFinish (jpool : Jpool) : Jpool :=
  { jpool with workingCnt := jpool.workingCnt - 1 }

/-- The critical section of `jpool_add_work`. -/
def jpoolAddWork (m : Mem F A) (work : Addr) : Option (Mem F A) :=
  match m.jpool.workFirst with
  | none =>
    some { m with jpool := { m.jpool with workFirst := some work, workLast := some work } }
  | some _ =>
    match m.jpool.workLast with
    | none => none
    | some last =>
      match m.works.get last with
      | none => none
      | some node =>
        some
          { jpool := { m.jpool with workLast := some work }
            works := m.works.set last { node with next := some work } }

/-- The first critical section of `jpool_destroy`.  The queue pointers keep
their values. -/
def jpoolDestroyWorks (m : Mem F A) : Option (Mem F A) :=
  (freeAll JpoolWork.next m.works.cells.length m.works m.jpool.workFirst).map fun works =>
    { jpool := { m.jpool with stop := true }, works := works }

/-- `jpool_wait` waits as long as this holds. -/
def jpoolWaits (jpool : Jpool) : Bool :=
  (!jpool.stop && jpool.workingCnt != 0) || (jpool.stop && jpool.threadCnt != 0)

/-! ## The threads -/

/-- Where a worker is. -/
inductive WorkerPc where
  /-- at the top of its loop, or waiting on `work_cond` -/
  | lock
  /-- behind its first critical section, with what `jpool_work_get` returned -/
  | took (work : Option Addr)
  /-- in `work->func(work->arg)` -/
  | running (work : Addr)
  /-- before its second critical section -/
  | finishing
  /-- behind its last critical section -/
  | left
  deriving DecidableEq

/-- Who called `jpool_wait`. -/
inductive Caller where
  | user
  | destroy
  deriving DecidableEq

/-- Where a thread is that uses the pool. -/
inductive ClientPc where
  | idle
  /-- in `jpool_add_work`, before its critical section -/
  | adding (work : Addr)
  /-- in `jpool_wait`, before the next test -/
  | waiting (caller : Caller)
  /-- in `jpool_destroy`, behind `jpool_wait` -/
  | freeing
  /-- behind `free( jpool)` -/
  | freed
  deriving DecidableEq

/-- What has happened, for the statements only: the works added, the works
taken with who took them, which of these each worker took last, which are
finished, the works `jpool_destroy` freed, and how many had been added when a
thread called `jpool_wait`. -/
structure History (ι κ F A : Type) where
  added : List (F × A)
  taken : List (ι × F × A)
  ticket : ι → Nat
  finished : List Nat
  dropped : List Addr
  since : κ → Nat

/-- The workers of a pool made by `jpool_init( num)`. -/
abbrev Worker (num : UInt64) : Type := Fin (poolSize num).toNat

/-- There is always a worker. -/
theorem poolSize_ne_zero (num : UInt64) : (poolSize num).toNat ≠ 0 := by
  unfold poolSize
  split
  · exact Nat.succ_ne_zero 1
  · next hnum =>
      intro hzero
      exact hnum (UInt64.toNat_inj.1 hzero)

instance (num : UInt64) : NeZero (poolSize num).toNat := ⟨poolSize_ne_zero num⟩

/-- A pool with its workers and the threads `κ` that use it. -/
structure State (num : UInt64) (κ F A : Type) where
  mem : Mem F A
  worker : Worker num → WorkerPc
  client : κ → ClientPc
  fault : Bool
  hist : History (Worker num) κ F A

/-- The pool when `jpool_init` returns. -/
def start (num : UInt64) (κ F A : Type) : State num κ F A where
  mem := jpoolInit num
  worker _ := .lock
  client _ := .idle
  fault := false
  hist := ⟨[], [], fun _ => 0, [], [], fun _ => 0⟩

/-- What happens next. -/
inductive Act (num : UInt64) (κ F A : Type) where
  /-- the first critical section of `jpool_worker`, or its last -/
  | enter (i : Worker num)
  /-- a call of `work->func` -/
  | run (i : Worker num)
  /-- its return and `jpool_work_destroy` -/
  | destroyWork (i : Worker num)
  /-- the second critical section -/
  | finish (i : Worker num)
  /-- a call of `jpool_add_work`, for which `malloc` returns `work` -/
  | addWork (k : κ) (func : Option F) (arg : A) (work : Addr)
  /-- the critical section of `jpool_add_work` -/
  | enqueue (k : κ)
  /-- a call of `jpool_wait` -/
  | wait (k : κ)
  /-- one test in `jpool_wait` -/
  | test (k : κ)
  /-- a call of `jpool_destroy`, up to its call of `jpool_wait` -/
  | destroy (k : κ)
  /-- the end of `jpool_destroy` -/
  | free (k : κ)

namespace State

variable {num : UInt64} {κ : Type} [DecidableEq κ]

abbrev jpool (s : State num κ F A) : Jpool := s.mem.jpool
abbrev works (s : State num κ F A) : Heap (JpoolWork F A) := s.mem.works

/-- Put a worker at another place. -/
def setWorker (s : State num κ F A) (i : Worker num) (pc : WorkerPc) : State num κ F A :=
  { s with worker := Function.update s.worker i pc }

/-- Put a thread that uses the pool at another place. -/
def setClient (s : State num κ F A) (k : κ) (pc : ClientPc) : State num κ F A :=
  { s with client := Function.update s.client k pc }

/-- Undefined behaviour. -/
def faulted (s : State num κ F A) : State num κ F A := { s with fault := true }

/-- What a work says to do. -/
def job (works : Heap (JpoolWork F A)) (work : Addr) : Option (F × A) :=
  (works.get work).map fun node => (node.func, node.arg)

/-- A worker takes a work. -/
def take (s : State num κ F A) (i : Worker num) (work : Option Addr) (jpool : Jpool) :
    State num κ F A :=
  { s with
    mem := { s.mem with jpool := jpool }
    worker := Function.update s.worker i (.took work)
    hist :=
      { s.hist with
        taken := s.hist.taken ++
          ((work.bind (job s.works)).map fun fa => (i, fa)).toList
        ticket := Function.update s.hist.ticket i s.hist.taken.length } }

/-- One step of worker `i` at the top of its loop. -/
def enter (s : State num κ F A) (i : Worker num) : State num κ F A :=
  match jpoolWorkerEnter s.mem with
  | none => s.faulted
  | some (.waits, _) => s
  | some (.left, jpool) => { s.setWorker i .left with mem := { s.mem with jpool := jpool } }
  | some (.took work, jpool) => s.take i work jpool

/-- Worker `i` calls the function of the work it took, if it took one. -/
def run (s : State num κ F A) (i : Worker num) (work : Option Addr) : State num κ F A :=
  match work with
  | none => s.setWorker i .finishing
  | some a =>
    match s.works.get a with
    | none => s.faulted
    | some _ => s.setWorker i (.running a)

/-- The function has returned; the work is freed. -/
def destroyWork (s : State num κ F A) (i : Worker num) (work : Addr) : State num κ F A :=
  match s.works.get work with
  | none => s.faulted
  | some _ =>
    { s.setWorker i .finishing with mem := { s.mem with works := s.works.free work } }

/-- Worker `i` is no longer working. -/
def finish (s : State num κ F A) (i : Worker num) : State num κ F A :=
  { s.setWorker i .lock with
    mem := { s.mem with jpool := jpoolWorkerFinish s.jpool }
    hist := { s.hist with finished := s.hist.finished ++ [s.hist.ticket i] } }

/-- A new work is in the memory; a call without a function returns false. -/
def addWork (s : State num κ F A) (k : κ) (func : Option F) (arg : A) (work : Addr) :
    State num κ F A :=
  match jpoolWorkInit func arg with
  | none => s
  | some node =>
    { s.setClient k (.adding work) with mem := { s.mem with works := s.works.set work node } }

/-- The new work is in the queue. -/
def enqueue (s : State num κ F A) (k : κ) (work : Addr) : State num κ F A :=
  match jpoolAddWork s.mem work with
  | none => s.faulted
  | some mem =>
    { s.setClient k .idle with
      mem := mem
      hist := { s.hist with added := s.hist.added ++ (job s.works work).toList } }

/-- `jpool_wait` begins. -/
def wait (s : State num κ F A) (k : κ) : State num κ F A :=
  { s.setClient k (.waiting .user) with
    hist :=
      { s.hist with since := Function.update s.hist.since k s.hist.added.length } }

/-- One test of `jpool_wait`, which returns to its caller or goes on waiting. -/
def test (s : State num κ F A) (k : κ) (caller : Caller) : State num κ F A :=
  if jpoolWaits s.jpool then s
  else
    match caller with
    | .user => s.setClient k .idle
    | .destroy => s.setClient k .freeing

/-- The cells a list of works occupies. -/
def chain (works : Heap (JpoolWork F A)) : Nat → Option Addr → List Addr
  | _, none => []
  | 0, some _ => []
  | n + 1, some a => a :: chain works n ((works.get a).bind JpoolWork.next)

/-- `jpool_destroy` up to its call of `jpool_wait`. -/
def destroy (s : State num κ F A) (k : κ) : State num κ F A :=
  match jpoolDestroyWorks s.mem with
  | none => s.faulted
  | some mem =>
    { s.setClient k (.waiting .destroy) with
      mem := mem
      hist :=
        { s.hist with
          dropped := s.hist.dropped ++
            chain s.works s.works.cells.length s.jpool.workFirst } }

/-- The step an action names, where it can happen. -/
def act (s : State num κ F A) : Act num κ F A → Option (State num κ F A)
  | .enter i => if s.worker i = .lock then some (s.enter i) else none
  | .run i =>
    match s.worker i with
    | .took work => some (s.run i work)
    | _ => none
  | .destroyWork i =>
    match s.worker i with
    | .running work => some (s.destroyWork i work)
    | _ => none
  | .finish i => if s.worker i = .finishing then some (s.finish i) else none
  | .addWork k func arg work =>
    if s.client k = .idle ∧ s.works.get work = none then some (s.addWork k func arg work)
    else none
  | .enqueue k =>
    match s.client k with
    | .adding work => some (s.enqueue k work)
    | _ => none
  | .wait k => if s.client k = .idle then some (s.wait k) else none
  | .test k =>
    match s.client k with
    | .waiting caller => some (s.test k caller)
    | _ => none
  | .destroy k => if s.client k = .idle then some (s.destroy k) else none
  | .free k => if s.client k = .freeing then some (s.setClient k .freed) else none

/-- One step; nothing happens after undefined behaviour. -/
def step (s : State num κ F A) (a : Act num κ F A) : Option (State num κ F A) :=
  if s.fault then none else s.act a

/-! ## What each action can do -/

/-- The outcomes of each action, with what holds before them. -/
inductive Effect (s : State num κ F A) : Act num κ F A → State num κ F A → Prop
  | waits {i : Worker num} (hi : s.worker i = .lock) (hfirst : s.jpool.workFirst = none)
      (hstop : s.jpool.stop = false) : Effect s (.enter i) s
  | leaves {i : Worker num} (hi : s.worker i = .lock) (hstop : s.jpool.stop = true) :
      Effect s (.enter i)
        { s.setWorker i .left with
          mem := { s.mem with
            jpool := { s.jpool with threadCnt := s.jpool.threadCnt - 1 } } }
  | takes {i : Worker num} {work : Addr} {node : JpoolWork F A} (hi : s.worker i = .lock)
      (hstop : s.jpool.stop = false) (hfirst : s.jpool.workFirst = some work)
      (hnode : s.works.get work = some node) :
      Effect s (.enter i)
        (s.take i (some work)
          { jpoolUnlink s.jpool node.next with
            workingCnt := (jpoolUnlink s.jpool node.next).workingCnt + 1 })
  | takesDangling {i : Worker num} {work : Addr} (hi : s.worker i = .lock)
      (hstop : s.jpool.stop = false) (hfirst : s.jpool.workFirst = some work)
      (hnode : s.works.get work = none) : Effect s (.enter i) s.faulted
  | runs {i : Worker num} {work : Addr} {node : JpoolWork F A}
      (hi : s.worker i = .took (some work)) (hnode : s.works.get work = some node) :
      Effect s (.run i) (s.setWorker i (.running work))
  | runsNull {i : Worker num} (hi : s.worker i = .took none) :
      Effect s (.run i) (s.setWorker i .finishing)
  | runsDangling {i : Worker num} {work : Addr} (hi : s.worker i = .took (some work))
      (hnode : s.works.get work = none) : Effect s (.run i) s.faulted
  | destroysWork {i : Worker num} {work : Addr} {node : JpoolWork F A}
      (hi : s.worker i = .running work) (hnode : s.works.get work = some node) :
      Effect s (.destroyWork i)
        { s.setWorker i .finishing with mem := { s.mem with works := s.works.free work } }
  | destroysDangling {i : Worker num} {work : Addr} (hi : s.worker i = .running work)
      (hnode : s.works.get work = none) : Effect s (.destroyWork i) s.faulted
  | finishes {i : Worker num} (hi : s.worker i = .finishing) :
      Effect s (.finish i) (s.finish i)
  | refuses {k : κ} {arg : A} {work : Addr} (hk : s.client k = .idle) :
      Effect s (.addWork k none arg work) s
  | creates {k : κ} {func : F} {arg : A} {work : Addr} (hk : s.client k = .idle)
      (hfresh : s.works.get work = none) :
      Effect s (.addWork k (some func) arg work)
        { s.setClient k (.adding work) with
          mem := { s.mem with works := s.works.set work ⟨func, arg, none⟩ } }
  | enqueuesFirst {k : κ} {work : Addr} (hk : s.client k = .adding work)
      (hfirst : s.jpool.workFirst = none) :
      Effect s (.enqueue k)
        { s.setClient k .idle with
          mem := { s.mem with
            jpool := { s.jpool with workFirst := some work, workLast := some work } }
          hist := { s.hist with added := s.hist.added ++ (job s.works work).toList } }
  | enqueuesLast {k : κ} {work first last : Addr} {node : JpoolWork F A}
      (hk : s.client k = .adding work) (hfirst : s.jpool.workFirst = some first)
      (hlast : s.jpool.workLast = some last) (hnode : s.works.get last = some node) :
      Effect s (.enqueue k)
        { s.setClient k .idle with
          mem :=
            { jpool := { s.jpool with workLast := some work }
              works := s.works.set last { node with next := some work } }
          hist := { s.hist with added := s.hist.added ++ (job s.works work).toList } }
  | enqueuesDangling {k : κ} {work first : Addr} (hk : s.client k = .adding work)
      (hfirst : s.jpool.workFirst = some first)
      (hlast : ∀ last, s.jpool.workLast = some last → s.works.get last = none) :
      Effect s (.enqueue k) s.faulted
  | waitsFor {k : κ} (hk : s.client k = .idle) : Effect s (.wait k) (s.wait k)
  | testsAgain {k : κ} {caller : Caller} (hk : s.client k = .waiting caller)
      (hwaits : jpoolWaits s.jpool = true) : Effect s (.test k) s
  | returns {k : κ} (hk : s.client k = .waiting .user)
      (hwaits : jpoolWaits s.jpool = false) : Effect s (.test k) (s.setClient k .idle)
  | drained {k : κ} (hk : s.client k = .waiting .destroy)
      (hwaits : jpoolWaits s.jpool = false) : Effect s (.test k) (s.setClient k .freeing)
  | destroys {k : κ} {works : Heap (JpoolWork F A)} (hk : s.client k = .idle)
      (hfree : freeAll JpoolWork.next s.works.cells.length s.works s.jpool.workFirst =
        some works) :
      Effect s (.destroy k)
        { s.setClient k (.waiting .destroy) with
          mem := { jpool := { s.jpool with stop := true }, works := works }
          hist :=
            { s.hist with
              dropped := s.hist.dropped ++
                chain s.works s.works.cells.length s.jpool.workFirst } }
  | destroysQueueDangling {k : κ} (hk : s.client k = .idle)
      (hfree : freeAll JpoolWork.next s.works.cells.length s.works s.jpool.workFirst = none) :
      Effect s (.destroy k) s.faulted
  | frees {k : κ} (hk : s.client k = .freeing) : Effect s (.free k) (s.setClient k .freed)

theorem effect_enter {s : State num κ F A} {i : Worker num} (hi : s.worker i = .lock) :
    Effect s (.enter i) (s.enter i) := by
  unfold enter jpoolWorkerEnter
  by_cases hstop : s.jpool.stop = true
  · have hrun : ¬ (s.jpool.workFirst = none ∧ s.jpool.stop = false) := by simp [hstop]
    rw [if_neg hrun, if_pos hstop]
    exact .leaves hi hstop
  · have hrun : s.jpool.stop = false := Bool.eq_false_iff.2 hstop
    cases hfirst : s.jpool.workFirst with
    | none =>
        rw [if_pos ⟨rfl, hrun⟩]
        exact .waits hi hfirst hrun
    | some work =>
        rw [if_neg (by simp), if_neg hstop]
        simp only [jpoolWorkGet, hfirst]
        cases hnode : s.works.get work with
        | none =>
            simp only [Option.map_none]
            exact .takesDangling hi hrun hfirst hnode
        | some node =>
            simp only [Option.map_some]
            exact .takes hi hrun hfirst hnode

theorem effect_run {s : State num κ F A} {i : Worker num} {work : Option Addr}
    (hi : s.worker i = .took work) : Effect s (.run i) (s.run i work) := by
  cases work with
  | none => exact .runsNull hi
  | some a =>
      cases hnode : s.works.get a with
      | none =>
          simp only [run, hnode]
          exact .runsDangling hi hnode
      | some node =>
          simp only [run, hnode]
          exact .runs hi hnode

theorem effect_destroyWork {s : State num κ F A} {i : Worker num} {work : Addr}
    (hi : s.worker i = .running work) :
    Effect s (.destroyWork i) (s.destroyWork i work) := by
  cases hnode : s.works.get work with
  | none =>
      simp only [destroyWork, hnode]
      exact .destroysDangling hi hnode
  | some node =>
      simp only [destroyWork, hnode]
      exact .destroysWork hi hnode

theorem effect_addWork {s : State num κ F A} {k : κ} {func : Option F} {arg : A}
    {work : Addr} (hk : s.client k = .idle) (hfresh : s.works.get work = none) :
    Effect s (.addWork k func arg work) (s.addWork k func arg work) := by
  cases func with
  | none => exact .refuses hk
  | some f => exact .creates hk hfresh

theorem effect_enqueue {s : State num κ F A} {k : κ} {work : Addr}
    (hk : s.client k = .adding work) : Effect s (.enqueue k) (s.enqueue k work) := by
  cases hfirst : s.jpool.workFirst with
  | none =>
      simp only [enqueue, jpoolAddWork, hfirst]
      exact .enqueuesFirst hk hfirst
  | some first =>
      cases hlast : s.jpool.workLast with
      | none =>
          simp only [enqueue, jpoolAddWork, hfirst, hlast]
          exact .enqueuesDangling hk hfirst fun last h => absurd (hlast.symm.trans h) (by simp)
      | some last =>
          cases hnode : s.works.get last with
          | none =>
              simp only [enqueue, jpoolAddWork, hfirst, hlast, hnode]
              refine .enqueuesDangling hk hfirst fun l h => ?_
              obtain rfl := Option.some.inj (hlast.symm.trans h)
              exact hnode
          | some node =>
              have hadd : jpoolAddWork s.mem work =
                  some
                    { jpool := { s.jpool with workLast := some work }
                      works := s.works.set last { node with next := some work } } := by
                simp [jpoolAddWork, hfirst, hlast, hnode]
              simp only [enqueue, hadd]
              exact .enqueuesLast hk hfirst hlast hnode

theorem effect_test {s : State num κ F A} {k : κ} {caller : Caller}
    (hk : s.client k = .waiting caller) : Effect s (.test k) (s.test k caller) := by
  unfold test
  cases hwaits : jpoolWaits s.jpool with
  | true => exact .testsAgain hk hwaits
  | false =>
      cases caller with
      | user => exact .returns hk hwaits
      | destroy => exact .drained hk hwaits

theorem effect_destroy {s : State num κ F A} {k : κ} (hk : s.client k = .idle) :
    Effect s (.destroy k) (s.destroy k) := by
  unfold destroy jpoolDestroyWorks
  cases hfree : freeAll JpoolWork.next s.works.cells.length s.works s.jpool.workFirst with
  | none => exact .destroysQueueDangling hk hfree
  | some works => exact .destroys hk hfree

/-- Every step is one of the outcomes of its action. -/
theorem effect_of_step {s s' : State num κ F A} {a : Act num κ F A}
    (h : s.step a = some s') : s.fault = false ∧ Effect s a s' := by
  unfold step at h
  split at h
  · cases h
  · next hfault =>
      refine ⟨Bool.eq_false_iff.2 hfault, ?_⟩
      cases a with
      | enter i =>
          simp only [act] at h
          split at h
          · next hi =>
              cases h
              exact effect_enter hi
          · cases h
      | run i =>
          simp only [act] at h
          split at h
          · next work hi =>
              cases h
              exact effect_run hi
          · cases h
      | destroyWork i =>
          simp only [act] at h
          split at h
          · next work hi =>
              cases h
              exact effect_destroyWork hi
          · cases h
      | finish i =>
          simp only [act] at h
          split at h
          · next hi =>
              cases h
              exact .finishes hi
          · cases h
      | addWork k func arg work =>
          simp only [act] at h
          split at h
          · next hk =>
              cases h
              exact effect_addWork hk.1 hk.2
          · cases h
      | enqueue k =>
          simp only [act] at h
          split at h
          · next work hk =>
              cases h
              exact effect_enqueue hk
          · cases h
      | wait k =>
          simp only [act] at h
          split at h
          · next hk =>
              cases h
              exact .waitsFor hk
          · cases h
      | test k =>
          simp only [act] at h
          split at h
          · next caller hk =>
              cases h
              exact effect_test hk
          · cases h
      | destroy k =>
          simp only [act] at h
          split at h
          · next hk =>
              cases h
              exact effect_destroy hk
          · cases h
      | free k =>
          simp only [act] at h
          split at h
          · next hk =>
              cases h
              exact .frees hk
          · cases h

end State

end ZeroCopyProxy.Ports.ThreadPool
