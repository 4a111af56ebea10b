import ZeroCopyProxy.Ports.PoolQueue
import ZeroCopyProxy.Verified.Counting

/-!
# The pool's counters are exact and its destruction is safe

`working_cnt` counts the workers between their two critical sections and
`thread_cnt` those that have not left their loop, in every run whatever.

For the memory the order of the calls matters: the queue pointers dangle once
`jpool_destroy` has freed the queued works, so nothing may be added after
that, and the pool is destroyed once (`Orderly`).  A worker that locks the
mutex then finds `stop` set before it looks at the queue, the works that
workers hold are none of those freed, and `jpool_wait` keeps `jpool_destroy`
from freeing the pool until `thread_cnt` is zero.
-/

namespace ZeroCopyProxy.Ports.PoolCounters

open ZeroCopyProxy.Verified.LinkedHeap
open ZeroCopyProxy.Verified.Transitions
open ZeroCopyProxy.Verified.Counting
open ZeroCopyProxy.Ports.ThreadPool
open ZeroCopyProxy.Ports.PoolQueue

variable {F A : Type} {num : UInt64} {κ : Type} [DecidableEq κ]

/-! ## The counters -/

/-- Between taking a work and the decrement of `working_cnt`. -/
def busy : WorkerPc → Bool
  | .took _ | .running _ | .finishing => true
  | .lock | .left => false

/-- Not behind the loop. -/
def inLoop : WorkerPc → Bool
  | .left => false
  | _ => true

/-- Both counters count. -/
structure Counted (s : State num κ F A) : Prop where
  working : s.jpool.workingCnt.toNat = count busy s.worker
  threads : s.jpool.threadCnt.toNat = count inLoop s.worker

omit [DecidableEq κ] in
theorem counted_start : Counted (start num κ F A) where
  working := by
    have hzero : count busy (start num κ F A).worker = 0 := count_eq_zero.2 fun _ => rfl
    rw [hzero]
    rfl
  threads := by
    have hall : (Finset.univ.filter fun i : Worker num =>
        inLoop ((start num κ F A).worker i) = true) = Finset.univ :=
      Finset.filter_true_of_mem fun _ _ => rfl
    rw [count, hall, Finset.card_univ, Fintype.card_fin]
    rfl

omit [DecidableEq κ] in
/-- A counter of threads has room for every thread. -/
theorem toNat_succ {c : UInt64} {worker : Worker num → WorkerPc} {i : Worker num}
    {p : WorkerPc → Bool} (hc : c.toNat = count p worker) (hi : p (worker i) = false) :
    (c + 1).toNat = count p worker + 1 := by
  have hlt := count_lt hi
  have hsize := (poolSize num).toNat_lt
  rw [Fintype.card_fin] at hlt
  rw [UInt64.toNat_add, hc]
  show (count p worker + 1) % 2 ^ 64 = count p worker + 1
  exact Nat.mod_eq_of_lt (by omega)

theorem toNat_pred {c : UInt64} {n : Nat} (hc : c.toNat = n + 1) : (c - 1).toNat = n := by
  have hle : (1 : UInt64) ≤ c := by
    rw [UInt64.le_iff_toNat_le, hc]
    show 1 ≤ n + 1
    omega
  rw [UInt64.toNat_sub_of_le _ _ hle, hc]
  show n + 1 - 1 = n
  omega

theorem jpoolUnlink_counters (jpool : Jpool) (next : Option Addr) :
    (jpoolUnlink jpool next).workingCnt = jpool.workingCnt ∧
      (jpoolUnlink jpool next).threadCnt = jpool.threadCnt ∧
      (jpoolUnlink jpool next).stop = jpool.stop := by
  unfold jpoolUnlink
  split <;> exact ⟨rfl, rfl, rfl⟩

omit [DecidableEq κ] in
/-- A step that changes neither counter and moves a worker, if it moves one,
neither in nor out. -/
theorem Counted.move {s s' : State num κ F A} (h : Counted s) {i : Worker num}
    {pc : WorkerPc} (hworker : s'.worker = Function.update s.worker i pc)
    (hworking : s'.jpool.workingCnt = s.jpool.workingCnt)
    (hthreads : s'.jpool.threadCnt = s.jpool.threadCnt)
    (hbusy : busy pc = busy (s.worker i)) (hloop : inLoop pc = inLoop (s.worker i)) :
    Counted s' where
  working := by rw [hworking, hworker, count_move hbusy, h.working]
  threads := by rw [hthreads, hworker, count_move hloop, h.threads]

theorem counted_step {s s' : State num κ F A} {a : Act num κ F A} (h : Counted s)
    (he : s.Effect a s') : Counted s' := by
  cases he with
  | leaves hi hstop =>
      next i =>
      have hin : inLoop (s.worker i) = true := by rw [hi]; rfl
      have hexit := count_exit (b := WorkerPc.left) hin rfl
      constructor
      · rw [State.setWorker, count_move (by rw [hi]; rfl)]
        exact h.working
      · exact toNat_pred (h.threads.trans hexit.symm)
  | takes hi hrun hfirst hnode =>
      next i work node =>
      obtain ⟨hw, ht, _⟩ := jpoolUnlink_counters s.jpool node.next
      have hout : busy (s.worker i) = false := by rw [hi]; rfl
      constructor
      · simp only [State.take, State.jpool, hw]
        rw [count_enter hout rfl]
        exact toNat_succ h.working hout
      · simp only [State.take, State.jpool, ht]
        rw [count_move (by rw [hi]; rfl)]
        exact h.threads
  | runs hi hnode => exact h.move rfl rfl rfl (by rw [hi]; rfl) (by rw [hi]; rfl)
  | runsNull hi => exact h.move rfl rfl rfl (by rw [hi]; rfl) (by rw [hi]; rfl)
  | destroysWork hi hnode => exact h.move rfl rfl rfl (by rw [hi]; rfl) (by rw [hi]; rfl)
  | finishes hi =>
      next i =>
      have hin : busy (s.worker i) = true := by rw [hi]; rfl
      have hexit := count_exit (b := WorkerPc.lock) hin rfl
      constructor
      · exact toNat_pred (h.working.trans hexit.symm)
      · simp only [State.finish, State.setWorker]
        rw [count_move (by rw [hi]; rfl)]
        exact h.threads
  | _ => exact ⟨h.working, h.threads⟩

/-- The counters count in every run. -/
theorem counted_reach {C : State num κ F A → Act num κ F A → Prop} {s : State num κ F A}
    (hr : Reach State.step C (start num κ F A) s) : Counted s := by
  refine reach_invariant ?_ hr counted_start
  intro s a s' _ h _ hs
  exact counted_step h (State.effect_of_step hs).2

omit [DecidableEq κ] in
/-- Working threads are threads. -/
theorem Counted.working_le {s : State num κ F A} (h : Counted s) :
    s.jpool.workingCnt ≤ s.jpool.threadCnt := by
  rw [UInt64.le_iff_toNat_le, h.working, h.threads]
  refine count_mono fun pc hpc => ?_
  cases pc <;> first | rfl | exact absurd hpc (by decide)

/-- A counter that counts a thread is not zero. -/
theorem ne_zero_of_counted {c : UInt64} {worker : Worker num → WorkerPc} {i : Worker num}
    {p : WorkerPc → Bool} (hc : c.toNat = count p worker) (hi : p (worker i) = true) :
    c ≠ 0 := by
  rintro rfl
  have hpos := count_pos hi
  rw [← hc] at hpos
  exact absurd hpos (by decide)

/-- A counter that is zero counts nobody. -/
theorem none_of_counted {c : UInt64} {worker : Worker num → WorkerPc} {p : WorkerPc → Bool}
    (hc : c.toNat = count p worker) (hzero : c = 0) (i : Worker num) :
    p (worker i) = false := by
  rw [hzero] at hc
  exact count_eq_zero.1 hc.symm i

/-! ## Leaving -/

/-- The worker whose step an action is. -/
def byWorker : Act num κ F A → Option (Worker num)
  | .enter i | .run i | .destroyWork i | .finish i => some i
  | _ => none

/-- `jpool_destroy` is behind `jpool_wait`. -/
def Drained (pc : ClientPc) : Prop := pc = .freeing ∨ pc = .freed

/-- `jpool_destroy` waits in `jpool_wait` only on a stopped pool, and behind
it every worker has left. -/
structure Retired (s : State num κ F A) : Prop where
  stopped : ∀ k, s.client k = .waiting .destroy → s.jpool.stop = true
  left : ∀ k, Drained (s.client k) → ∀ i, s.worker i = .left

omit [DecidableEq κ] in
theorem retired_start : Retired (start num κ F A) where
  stopped k hk := by cases hk
  left k hk := by rcases hk with hk | hk <;> cases hk

/-- A worker that has left takes no step. -/
theorem step_of_left {s : State num κ F A} {i : Worker num} (hi : s.worker i = .left)
    {a : Act num κ F A} (ha : byWorker a = some i) : s.step a = none := by
  cases a <;> cases ha <;> simp [State.step, State.act, hi]

/-- Nobody stops being stopped. -/
theorem stop_of_effect {s s' : State num κ F A} {a : Act num κ F A} (he : s.Effect a s')
    (hstop : s.jpool.stop = true) : s'.jpool.stop = true := by
  cases hs' : s'.jpool.stop with
  | true => rfl
  | false => exact absurd ((running_of_effect he hs').symm.trans hstop) (by simp)

/-- A step of a worker that has not left. -/
theorem Retired.moveWorker {s s' : State num κ F A} {a : Act num κ F A} (h : Retired s)
    (he : s.Effect a s') {i : Worker num} (hclient : s'.client = s.client)
    (hi : s.worker i ≠ .left) : Retired s' where
  stopped k hk := by
    rw [hclient] at hk
    exact stop_of_effect he (h.stopped k hk)
  left k hk j := by
    rw [hclient] at hk
    exact absurd (h.left k hk i) hi

/-- A step of a thread that uses the pool. -/
theorem Retired.moveClient {s s' : State num κ F A} {a : Act num κ F A} (h : Retired s)
    (he : s.Effect a s') {k : κ} {pc : ClientPc}
    (hclient : s'.client = Function.update s.client k pc) (hworker : s'.worker = s.worker)
    (hstop : pc = .waiting .destroy → s'.jpool.stop = true)
    (hleft : Drained pc → ∀ i, s.worker i = .left) : Retired s' where
  stopped k' hk' := by
    rw [hclient] at hk'
    by_cases hkk : k' = k
    · subst hkk
      rw [Function.update_self] at hk'
      exact hstop hk'
    · rw [Function.update_of_ne hkk] at hk'
      exact stop_of_effect he (h.stopped k' hk')
  left k' hk' i := by
    rw [hclient] at hk'
    rw [hworker]
    by_cases hkk : k' = k
    · subst hkk
      rw [Function.update_self] at hk'
      exact hleft hk' i
    · rw [Function.update_of_ne hkk] at hk'
      exact h.left k' hk' i

theorem retired_step {s s' : State num κ F A} {a : Act num κ F A} (h : Retired s)
    (hc : Counted s) (he : s.Effect a s') : Retired s' := by
  have heffect := he
  cases he with
  | leaves hi hstop => exact h.moveWorker heffect rfl (by rw [hi]; simp)
  | takes hi hrun hfirst hnode => exact h.moveWorker heffect rfl (by rw [hi]; simp)
  | runs hi hnode => exact h.moveWorker heffect rfl (by rw [hi]; simp)
  | runsNull hi => exact h.moveWorker heffect rfl (by rw [hi]; simp)
  | destroysWork hi hnode => exact h.moveWorker heffect rfl (by rw [hi]; simp)
  | finishes hi => exact h.moveWorker heffect rfl (by rw [hi]; simp)
  | creates hk hfresh =>
      exact h.moveClient heffect rfl rfl (by simp) (by simp [Drained])
  | enqueuesFirst hk hfirst =>
      exact h.moveClient heffect rfl rfl (by simp) (by simp [Drained])
  | enqueuesLast hk hfirst hlast hnode =>
      exact h.moveClient heffect rfl rfl (by simp) (by simp [Drained])
  | waitsFor hk =>
      exact h.moveClient heffect rfl rfl (by simp) (by simp [Drained])
  | returns hk hwaits =>
      exact h.moveClient heffect rfl rfl (by simp) (by simp [Drained])
  | destroys hk hfree =>
      exact h.moveClient heffect rfl rfl (fun _ => rfl) (by simp [Drained])
  | drained hk hwaits =>
      refine h.moveClient heffect rfl rfl (by simp) fun _ i => ?_
      have hzero : s.jpool.threadCnt = 0 := by
        simpa [jpoolWaits, h.stopped _ hk] using hwaits
      have hout := none_of_counted hc.threads hzero i
      cases hpc : s.worker i <;> simp [inLoop, hpc] at hout ⊢
  | frees hk => exact h.moveClient heffect rfl rfl (by simp) fun _ => h.left _ (.inl hk)
  | _ => exact ⟨h.stopped, h.left⟩

theorem retired_reach {C : State num κ F A → Act num κ F A → Prop} {s : State num κ F A}
    (hr : Reach State.step C (start num κ F A) s) : Retired s := by
  refine reach_invariant ?_ hr retired_start
  intro s a s' hr h _ hs
  exact retired_step h (counted_reach hr) (State.effect_of_step hs).2

/-! ## The works of a stopped pool -/

/-- Nothing is added and nobody waits for the pool or destroys it after
`jpool_destroy` has set `stop`; nobody else calls `jpool_wait`. -/
def Orderly (s : State num κ F A) : Act num κ F A → Prop
  | .addWork .. | .enqueue _ | .destroy _ => s.jpool.stop = false
  | .wait _ => False
  | _ => True

instance (s : State num κ F A) (a : Act num κ F A) : Decidable (Orderly s a) :=
  match a with
  | .addWork .. | .enqueue _ | .destroy _ =>
      inferInstanceAs (Decidable (s.jpool.stop = false))
  | .wait _ => .isFalse id
  | .enter _ | .run _ | .destroyWork _ | .finish _ | .test _ | .free _ => .isTrue trivial

/-- What holds of the works once the pool is stopped. -/
structure Stopped (s : State num κ F A) : Prop where
  noFault : s.fault = false
  taken : ∀ i, s.worker i ≠ .took none
  held : ∀ o work, holds s.worker s.client o = some work →
    ∃ node, s.works.get work = some node
  excl : Excl (holds s.worker s.client)
  kept : ∀ o work, holds s.worker s.client o = some work → work ∉ s.hist.dropped

omit [DecidableEq κ] in
/-- A step of a stopped pool that neither frees a work nor hands one over. -/
theorem Stopped.frame {s s' : State num κ F A} (h : Stopped s) (hfault : s'.fault = s.fault)
    (hworks : s'.works = s.works) (hdropped : s'.hist.dropped = s.hist.dropped)
    (hsame : holds s'.worker s'.client = holds s.worker s.client)
    (htaken : ∀ i, s'.worker i ≠ .took none) : Stopped s' := by
  constructor
  case noFault => rw [hfault, h.noFault]
  case taken => exact htaken
  case held =>
    rw [hsame, hworks]
    exact h.held
  case excl =>
    rw [hsame]
    exact h.excl
  case kept =>
    rw [hsame, hdropped]
    exact h.kept

/-- A worker of a stopped pool that moves on without changing what it holds. -/
theorem Stopped.moveWorker {s s' : State num κ F A} (h : Stopped s) {i : Worker num}
    {pc : WorkerPc} (hworker : s'.worker = Function.update s.worker i pc)
    (hclient : s'.client = s.client) (hworks : s'.works = s.works)
    (hfault : s'.fault = s.fault) (hdropped : s'.hist.dropped = s.hist.dropped)
    (hholds : heldBy pc = heldBy (s.worker i)) (hpc : pc ≠ .took none) : Stopped s' := by
  have hsame : holds s'.worker s'.client = holds s.worker s.client := by
    have hself : heldBy (s.worker i) = holds s.worker s.client (.worker i) := rfl
    rw [hworker, hclient, holds_worker, hholds, hself, Function.update_eq_self]
  refine h.frame hfault hworks hdropped hsame ?_
  rw [hworker]
  exact taken_update h.taken i hpc

/-- A thread that uses a stopped pool and moves on without changing what it
holds. -/
theorem Stopped.moveClient {s s' : State num κ F A} (h : Stopped s) {k : κ}
    {pc : ClientPc} (hclient : s'.client = Function.update s.client k pc)
    (hworker : s'.worker = s.worker) (hmem : s'.mem = s.mem) (hfault : s'.fault = s.fault)
    (hdropped : s'.hist.dropped = s.hist.dropped)
    (hholds : heldIn pc = heldIn (s.client k)) : Stopped s' := by
  have hsame : holds s'.worker s'.client = holds s.worker s.client := by
    have hself : heldIn (s.client k) = holds s.worker s.client (.client k) := rfl
    rw [hworker, hclient, holds_client, hholds, hself, Function.update_eq_self]
  have hworks : s'.works = s.works := by rw [State.works, hmem, State.works]
  refine h.frame hfault hworks hdropped hsame ?_
  rw [hworker]
  exact h.taken

/-- Following `next` visits the works `jpool_destroy` frees. -/
theorem chain_links {works : Heap (JpoolWork F A)} {p : Option Addr} {ws : List Addr}
    (hl : Links JpoolWork.next works p ws) {n : Nat} (hn : ws.length ≤ n) :
    State.chain works n p = ws := by
  induction ws generalizing p n with
  | nil =>
      rw [show p = none from hl]
      cases n <;> rfl
  | cons a ws ih =>
      obtain ⟨rfl, v, hv, hrest⟩ := hl
      obtain ⟨m, rfl⟩ : ∃ m, n = m + 1 :=
        ⟨n - 1, by simp only [List.length_cons] at hn; omega⟩
      simp only [State.chain, hv, Option.bind_some]
      rw [ih hrest (by simpa using hn)]

/-- `jpool_destroy` frees the queued works and leaves those that are held. -/
theorem stopped_of_destroys {s : State num κ F A} (h : Sound s)
    (hdropped : s.hist.dropped = []) {k : κ} {works : Heap (JpoolWork F A)}
    (hk : s.client k = .idle)
    (hfree : freeAll JpoolWork.next s.works.cells.length s.works s.jpool.workFirst =
      some works) :
    Stopped
      { s.setClient k (.waiting .destroy) with
        mem := { jpool := { s.jpool with stop := true }, works := works }
        hist :=
          { s.hist with
            dropped := s.hist.dropped ++
              State.chain s.works s.works.cells.length s.jpool.workFirst } } := by
  obtain ⟨ws, hws⟩ := h.shape
  obtain ⟨works', hworks, hget⟩ := freeAll_links hws.links (links_length_le hws.links)
  obtain rfl := Option.some.inj (hfree.symm.trans hworks)
  have hsame : holds s.worker (Function.update s.client k (.waiting .destroy)) =
      holds s.worker s.client := by
    have hself : heldIn (s.client k) = holds s.worker s.client (.client k) := rfl
    have hnone : heldIn (.waiting .destroy) = heldIn (s.client k) := by rw [hk]; rfl
    rw [holds_client, hnone, hself, Function.update_eq_self]
  constructor
  case noFault => exact h.noFault
  case taken => exact h.taken
  case held =>
    intro o work ho
    rw [State.setClient, hsame] at ho
    obtain ⟨node, hnode⟩ := hws.held o work ho
    refine ⟨node, ?_⟩
    show works.get work = some node
    rw [hget, if_neg (hws.apart o work ho), hnode]
  case excl =>
    rw [State.setClient, hsame]
    exact hws.excl
  case kept =>
    intro o work ho
    rw [State.setClient, hsame] at ho
    show work ∉ s.hist.dropped ++ _
    rw [hdropped, List.nil_append, chain_links hws.links (links_length_le hws.links)]
    exact hws.apart o work ho

/-- One orderly step of a stopped pool. -/
theorem stopped_step {s s' : State num κ F A} {a : Act num κ F A} (h : Stopped s)
    (hstop : s.jpool.stop = true) (ho : Orderly s a) (he : s.Effect a s') : Stopped s' := by
  have hrunning : s.jpool.stop ≠ false := by simp [hstop]
  cases he with
  | waits hi hfirst hrun => exact absurd hrun hrunning
  | takes hi hrun hfirst hnode => exact absurd hrun hrunning
  | takesDangling hi hrun hfirst hnode => exact absurd hrun hrunning
  | leaves hi hstop' =>
      exact h.moveWorker rfl rfl rfl rfl rfl (by rw [hi]; rfl) (by simp)
  | runs hi hnode => exact h.moveWorker rfl rfl rfl rfl rfl (by rw [hi]; rfl) (by simp)
  | runsNull hi => exact absurd hi (h.taken _)
  | runsDangling hi hnode =>
      obtain ⟨v, hv⟩ := h.held (.worker _) _ (holds_of_worker hi rfl)
      exact absurd (hnode.symm.trans hv) (by simp)
  | destroysWork hi hnode =>
      next i work node =>
      have hheld : holds s.worker s.client (.worker i) = some work := holds_of_worker hi rfl
      have hfree : holds (Function.update s.worker i .finishing) s.client =
          Function.update (holds s.worker s.client) (.worker i) none := holds_worker _ _ _ _
      constructor
      case noFault => exact h.noFault
      case taken => exact taken_update h.taken i (by simp)
      case held =>
        intro o a ha
        simp only [State.setWorker, hfree] at ha
        have hne : a ≠ work := h.excl.ne_update hheld o a ha
        obtain ⟨v, hv⟩ := forall_update h.held (by rintro a ⟨⟩) o a ha
        exact ⟨v, (Heap.get_free_ne s.works hne).trans hv⟩
      case excl =>
        simp only [State.setWorker, hfree]
        exact excl_update h.excl (by rintro a ⟨⟩)
      case kept =>
        simp only [State.setWorker, hfree]
        exact forall_update h.kept (by rintro a ⟨⟩)
  | destroysDangling hi hnode =>
      obtain ⟨v, hv⟩ := h.held (.worker _) _ (holds_of_worker hi rfl)
      exact absurd (hnode.symm.trans hv) (by simp)
  | finishes hi => exact h.moveWorker rfl rfl rfl rfl rfl (by rw [hi]; rfl) (by simp)
  | returns hk hwaits => exact h.moveClient rfl rfl rfl rfl rfl (by rw [hk]; rfl)
  | drained hk hwaits => exact h.moveClient rfl rfl rfl rfl rfl (by rw [hk]; rfl)
  | frees hk => exact h.moveClient rfl rfl rfl rfl rfl (by rw [hk]; rfl)
  | refuses | testsAgain => exact h
  | waitsFor hk => exact ho.elim
  | creates | enqueuesFirst | enqueuesLast | enqueuesDangling | destroys
  | destroysQueueDangling => exact absurd ho hrunning

/-- As long as the pool runs nothing is dropped. -/
theorem dropped_of_effect {s s' : State num κ F A} {a : Act num κ F A} (he : s.Effect a s')
    (hstop : s'.jpool.stop = false) : s'.hist.dropped = s.hist.dropped := by
  cases he with
  | destroys hk hfree => exact absurd hstop (by simp)
  | _ => rfl

/-- Only `jpool_destroy` stops the pool. -/
theorem stopped_of_effect {s s' : State num κ F A} {a : Act num κ F A} (h : Sound s)
    (hdropped : s.hist.dropped = []) (hrun : s.jpool.stop = false) (he : s.Effect a s')
    (hstop : s'.jpool.stop = true) : Stopped s' := by
  cases he with
  | destroys hk hfree => exact stopped_of_destroys h hdropped hk hfree
  | takes hi hrun' hfirst hnode =>
      have hkeep := (jpoolUnlink_counters s.jpool _).2.2.symm.trans hstop
      exact absurd (hrun.symm.trans hkeep) (by simp)
  | _ => exact absurd (hrun.symm.trans hstop) (by simp)

/-- The pool is sound until it is stopped, and from then on its works are
kept. -/
theorem kept_reach {s : State num κ F A}
    (hr : Reach State.step Orderly (start num κ F A) s) :
    (s.jpool.stop = false → Sound s ∧ s.hist.dropped = []) ∧
      (s.jpool.stop = true → Stopped s) := by
  refine reach_invariant (I := fun s => (s.jpool.stop = false → Sound s ∧
    s.hist.dropped = []) ∧ (s.jpool.stop = true → Stopped s)) ?_ hr
    ⟨fun _ => ⟨sound_start, rfl⟩, fun h => absurd h (by simp [start, jpoolInit])⟩
  intro s a s' _ ih ho hs
  obtain ⟨_, he⟩ := State.effect_of_step hs
  refine ⟨fun hstop => ?_, fun hstop => ?_⟩
  · obtain ⟨hsound, hdropped⟩ := ih.1 (running_of_effect he hstop)
    exact ⟨sound_step hsound he hstop, by rw [dropped_of_effect he hstop, hdropped]⟩
  · cases hrun : s.jpool.stop with
    | true => exact stopped_step (ih.2 hrun) hrun ho he
    | false =>
        obtain ⟨hsound, hdropped⟩ := ih.1 hrun
        exact stopped_of_effect hsound hdropped hrun he hstop

/-- **The counters are exact and the destruction is safe.**  In every orderly
run the counters count the working workers and the workers in their loop; a
counter about to be decremented is not zero; nothing undefined happens and no
thread holds a work that `jpool_destroy` has freed; and where `jpool_destroy`
frees the pool every worker has left and has no step any more. -/
theorem pool_destroyed_safely {s : State num κ F A}
    (hr : Reach State.step Orderly (start num κ F A) s) :
    s.jpool.workingCnt.toNat = count busy s.worker ∧
      s.jpool.threadCnt.toNat = count inLoop s.worker ∧
      s.jpool.workingCnt ≤ s.jpool.threadCnt ∧
      (∀ i, s.worker i = .finishing → s.jpool.workingCnt ≠ 0) ∧
      (∀ i, s.worker i ≠ .left → s.jpool.threadCnt ≠ 0) ∧
      s.fault = false ∧
      (∀ o work, holds s.worker s.client o = some work → work ∉ s.hist.dropped) ∧
      (∀ k, Drained (s.client k) → ∀ i, s.worker i = .left ∧
        ∀ a, byWorker a = some i → s.step a = none) := by
  have hc := counted_reach hr
  have hk := kept_reach hr
  refine ⟨hc.working, hc.threads, hc.working_le, fun i hi => ?_, fun i hi => ?_, ?_, ?_,
    fun k hd i => ?_⟩
  · exact ne_zero_of_counted hc.working (i := i) (by rw [hi]; rfl)
  · refine ne_zero_of_counted hc.threads (i := i) ?_
    cases hpc : s.worker i <;> first | rfl | exact absurd hpc hi
  · cases hstop : s.jpool.stop with
    | false => exact (hk.1 hstop).1.noFault
    | true => exact (hk.2 hstop).noFault
  · cases hstop : s.jpool.stop with
    | false =>
        rw [(hk.1 hstop).2]
        exact fun o work _ => by simp
    | true => exact (hk.2 hstop).kept
  · have hi := (retired_reach hr).left k hd i
    exact ⟨hi, fun a ha => step_of_left hi ha⟩

/-- The pool destroyed while one work is queued and another one runs. -/
theorem pool_destroyed_safely_busy :
    ∃ s : State 2 Unit Nat Nat, s.client () = .freed ∧ s.hist.dropped = [1] ∧
      s.fault = false ∧ ∀ i, s.worker i = .left := by
  obtain ⟨s, hr, hfreed, hdropped⟩ := exists_reach_of_exec State.step Orderly (start 2 Unit Nat Nat)
    [.addWork () (some 1) 5 0, .enqueue (), .addWork () (some 2) 6 1, .enqueue (), .enter 0,
      .destroy (), .enter 1, .run 0, .test (), .destroyWork 0, .finish 0, .enter 0, .test (),
      .free ()]
    (fun s => s.client () = .freed ∧ s.hist.dropped = [1]) (by decide +kernel)
  obtain ⟨_, _, _, _, _, hfault, _, hleft⟩ := pool_destroyed_safely hr
  exact ⟨s, hfreed, hdropped, hfault, fun i => (hleft () (.inr hfreed) i).1⟩

end ZeroCopyProxy.Ports.PoolCounters
