import ZeroCopyProxy.Ports.ProxySystem

/-!
# How many sources the pool has: the admission test of `proxy_wait`

`proxy_wait` lets a source pass when `working_cnt` is not `THREAD_NUM`.  A
worker is counted there when it takes a work, not when the work is added, so
a burst of sources passes the test before the first worker wakes up.

The load of the pool is what its queue holds and what its workers have taken
and not finished.  Only `jpool_add_work` makes it grow, by one.  If every
source that passes finds room for it under `THREAD_NUM`, queued works counted
as well, the load never exceeds `THREAD_NUM`.
-/

namespace ZeroCopyProxy.Ports.ProxyAdmission

open ZeroCopyProxy.Verified.LinkedHeap
open ZeroCopyProxy.Verified.Counting
open ZeroCopyProxy.Verified.Transitions
open ZeroCopyProxy.Ports.ThreadPool
open ZeroCopyProxy.Ports.PoolQueue
open ZeroCopyProxy.Ports.PoolCounters
open ZeroCopyProxy.Ports.ProxySystem

/-! ## The load of a pool -/

section Load

variable {F A : Type} {num : UInt64} {κ : Type} [DecidableEq κ]

/-- The works in the queue. -/
def queued (p : ThreadPool.State num κ F A) : Nat :=
  (State.chain p.works p.works.cells.length p.jpool.workFirst).length

/-- The works taken and not finished. -/
def running (p : ThreadPool.State num κ F A) : Nat := count busy p.worker

/-- The works added and not finished. -/
def load (p : ThreadPool.State num κ F A) : Nat := queued p + running p

omit [DecidableEq κ] in
/-- The queue holds what was added and not taken. -/
theorem taken_add_queued {p : ThreadPool.State num κ F A} (h : Sound p) :
    p.hist.taken.length + queued p = p.hist.added.length := by
  obtain ⟨ws, hws⟩ := h.shape
  have hchain : State.chain p.works p.works.cells.length p.jpool.workFirst = ws :=
    chain_links hws.links (links_length_le hws.links)
  have hjobs : (ws.filterMap (State.job p.works)).length = ws.length := by
    rw [List.filterMap_length_eq_length]
    intro a ha
    obtain ⟨node, hnode⟩ := links_get hws.links ha
    rw [State.job, hnode]
    rfl
  rw [queued, hchain, ← hws.order, List.length_append, List.length_map, hjobs]

/-- The calls that add a work. -/
def adds : ThreadPool.Act num κ F A → Nat
  | .enqueue _ => 1
  | _ => 0

omit [DecidableEq κ] in
/-- What a step takes from the queue it may add to the works that run. -/
theorem load_le {p p' : ThreadPool.State num κ F A} (h : Sound p) (h' : Sound p') (t n : Nat)
    (htaken : p'.hist.taken.length = p.hist.taken.length + t)
    (hadded : p'.hist.added.length ≤ p.hist.added.length + n)
    (hrunning : running p' ≤ running p + t) : load p' ≤ load p + n := by
  have hq := taken_add_queued h
  have hq' := taken_add_queued h'
  unfold load
  omega

omit [DecidableEq κ] in
/-- A step that neither takes nor adds. -/
theorem load_le_of_eq {p p' : ThreadPool.State num κ F A} (h : Sound p) (h' : Sound p') {n : Nat}
    (htaken : p'.hist.taken = p.hist.taken) (hadded : p'.hist.added = p.hist.added)
    (hrunning : running p' ≤ running p) : load p' ≤ load p + n :=
  load_le h h' 0 n (by rw [htaken, Nat.add_zero]) (by rw [hadded]; exact Nat.le_add_right _ _)
    hrunning

omit [DecidableEq κ] in
theorem length_job_le (works : Heap (JpoolWork F A)) (work : Addr) :
    (State.job works work).toList.length ≤ 1 := by
  cases State.job works work with
  | none => exact Nat.zero_le 1
  | some fa => exact Nat.le_refl 1

/-- One step makes the load grow by the work it adds, at most. -/
theorem load_step {p p' : ThreadPool.State num κ F A} {a : ThreadPool.Act num κ F A}
    (h : Sound p) (h' : Sound p') (he : p.Effect a p') (hstop : p'.jpool.stop = false) :
    load p' ≤ load p + adds a := by
  have hmove : ∀ {i : Worker num} {pc : WorkerPc}, busy pc = busy (p.worker i) →
      count busy (Function.update p.worker i pc) ≤ running p :=
    fun hpc => Nat.le_of_eq (count_move hpc)
  cases he with
  | waits | refuses | testsAgain => exact Nat.le_add_right _ _
  | leaves hi hstop' => exact absurd (hstop'.symm.trans hstop) (by simp)
  | @takes i work node hi hrun hfirst hnode =>
      refine load_le h h' 1 _ ?_ (Nat.le_add_right _ _) ?_
      · simp only [State.take, Option.bind_some, State.job, hnode, Option.map_some,
          Option.toList_some, List.length_append, List.length_singleton]
      · exact Nat.le_of_eq (count_enter (by rw [hi]; rfl) rfl)
  | runs hi hnode => exact load_le_of_eq h h' rfl rfl (hmove (by rw [hi]; rfl))
  | runsNull hi => exact load_le_of_eq h h' rfl rfl (hmove (by rw [hi]; rfl))
  | destroysWork hi hnode => exact load_le_of_eq h h' rfl rfl (hmove (by rw [hi]; rfl))
  | @finishes i hi =>
      have hexit := count_exit (p := busy) (f := p.worker) (i := i) (b := .lock)
        (by rw [hi]; rfl) rfl
      exact load_le_of_eq h h' rfl rfl (Nat.le_of_lt (Nat.lt_of_succ_le (Nat.le_of_eq hexit)))
  | enqueuesFirst hk hfirst =>
      refine load_le h h' 0 1 rfl ?_ (Nat.le_refl _)
      rw [List.length_append]
      exact Nat.add_le_add_left (length_job_le _ _) _
  | enqueuesLast hk hfirst hlast hnode =>
      refine load_le h h' 0 1 rfl ?_ (Nat.le_refl _)
      rw [List.length_append]
      exact Nat.add_le_add_left (length_job_le _ _) _
  | creates | waitsFor | returns | drained | frees =>
      exact load_le_of_eq h h' rfl rfl (Nat.le_refl _)
  | destroys => exact absurd hstop (by simp)
  | takesDangling | runsDangling | destroysDangling | enqueuesDangling
  | destroysQueueDangling => exact absurd h'.noFault (by simp [State.faulted])

end Load

/-! ## The load of the proxy -/

variable {num : UInt64}

/-- There is room for another source, queued works counted. -/
def HasRoom (s : System num) : Prop :=
  queued s.pool + s.pool.jpool.workingCnt.toNat < num.toNat

instance (s : System num) : Decidable (HasRoom s) :=
  inferInstanceAs (Decidable (queued s.pool + s.pool.jpool.workingCnt.toNat < num.toNat))

/-- Nobody runs `proxy_final`, and a source that passes a test of `proxy_wait`
finds room. -/
def AdmitsRoom (s : System num) : ProxySystem.Act num → Prop
  | .test => s.allWorking ∨ HasRoom s
  | .retest => num ≤ s.pool.jpool.workingCnt ∨ HasRoom s
  | a => Serving a

instance (s : System num) (a : ProxySystem.Act num) : Decidable (AdmitsRoom s a) :=
  match a with
  | .test => inferInstanceAs (Decidable (s.allWorking ∨ HasRoom s))
  | .retest => inferInstanceAs (Decidable (num ≤ s.pool.jpool.workingCnt ∨ HasRoom s))
  | .final _ => .isFalse id
  | .enter _ | .call _ | .answer _ _ | .next _ | .leave _ | .finish _ | .checkDst | .accept
  | .acceptFails | .nonblockFails | .listFd | .create _ | .addWork _ | .enqueue => .isTrue trivial

theorem serving_of_admitsRoom (s : System num) (a : ProxySystem.Act num) (h : AdmitsRoom s a) :
    Serving a := by
  cases a with
  | final => exact h
  | _ => exact True.intro

/-- The source the main thread has let pass and not yet added. -/
def inHand : MainPc → Nat
  | .admitted _ _ | .listed _ _ | .created _ | .adding => 1
  | _ => 0

/-- A step of a pool that is not destroyed. -/
theorem load_poolStep {p p' : ThreadPool.State num User Unit (Option Nat)}
    {a : ThreadPool.Act num User Unit (Option Nat)}
    (hr : Reach ThreadPool.State.step (fun _ => Plain)
      (ThreadPool.start num User Unit (Option Nat)) p)
    (ha : Plain a) (hp : p.step a = some p') : load p' ≤ load p + adds a := by
  have hr' := hr.tail ⟨a, ha, hp⟩
  have hrun' := running_reach hr'
  exact load_step (sound_reach hr (running_reach hr)) (sound_reach hr' hrun')
    (ThreadPool.State.effect_of_step hp).2 hrun'

/-- A source that passes a test leaves the load below `THREAD_NUM`. -/
theorem load_lt_of_hasRoom {s : System num} (hc : Counted s.pool) (h : HasRoom s) :
    load s.pool < num.toNat := by
  rw [load, running, ← hc.working]
  exact h

theorem load_main_step {s s' : System num} {a : ProxySystem.Act num}
    (hr : Reach System.step AdmitsRoom (ProxySystem.start num) s)
    (h : load s.pool + inHand s.main ≤ num.toNat)
    (ha : AdmitsRoom s a) (he : s.Effect a s') : load s'.pool + inHand s'.main ≤ num.toNat := by
  have hpool := pool_reach serving_of_admitsRoom hr
  have hroom : HasRoom s → load s.pool + 1 ≤ num.toNat :=
    load_lt_of_hasRoom (counted_reach hpool)
  have hworker : ∀ {b p}, s.pool.step b = some p → Plain b → adds b = 0 →
      load p + inHand s.main ≤ num.toNat := by
    intro b p hp hb hzero
    have hle := load_poolStep hpool hb hp
    omega
  cases he with
  | enters hp | calls _ hp | callsNull _ hp | skips _ hp | leaves _ _ hp | finishes hp =>
      exact hworker hp True.intro rfl
  | answers | nexts => exact h
  | adds hm hp =>
      have hle := hworker hp True.intro rfl
      rw [hm] at hle
      exact hle
  | enqueues hm hp =>
      have hle := load_poolStep hpool (a := .enqueue .main) True.intro hp
      rw [hm] at h
      exact Nat.le_trans hle h
  | tests hm =>
      rw [hm] at h
      by_cases hall : s.allWorking
      · rw [if_pos hall]
        exact h
      · rw [if_neg hall]
        exact hroom (ha.resolve_left hall)
  | retests hm =>
      rw [hm] at h
      by_cases hlt : s.pool.jpool.workingCnt < num
      · rw [if_pos hlt]
        exact hroom (ha.resolve_left (UInt64.not_le.2 hlt))
      · rw [if_neg hlt]
        exact h
  | checks hm =>
      rw [hm] at h
      split
      · exact h
      · exact h
  | accepts hm | acceptFails hm | nonblockFails hm | lists hm | creates hm =>
      rw [hm] at h
      exact h
  | finals => exact absurd (serving_of_admitsRoom _ _ ha) id

/-- **No more sources than workers.**  In every run of `proxy_handle_req` and
the workers in which a source passes `proxy_wait` only when the works queued
and the works counted in `working_cnt` leave room for it, the works queued and
the works running are at most `THREAD_NUM`, and where the source is registered
a worker is free for it. -/
theorem clients_within_workers {s : System num}
    (hr : Reach System.step AdmitsRoom (ProxySystem.start num) s) :
    queued s.pool + running s.pool ≤ num.toNat ∧
      ∀ fd conn, s.main = .admitted fd conn → queued s.pool + running s.pool < num.toNat := by
  have h : load s.pool + inHand s.main ≤ num.toNat := by
    refine reach_invariant (I := fun s => load s.pool + inHand s.main ≤ num.toNat) ?_ hr ?_
    · intro s a s' hr ih ha hs
      exact load_main_step hr ih ha (System.effect_of_step hs)
    · have hzero : running (ProxySystem.start num).pool = 0 := count_eq_zero.2 fun _ => rfl
      rw [load, hzero]
      exact Nat.zero_le _
  refine ⟨Nat.le_trans (Nat.le_add_right _ _) h, fun fd conn hm => ?_⟩
  rw [hm] at h
  exact h

/-- Two sources, the second one accepted when a worker has the first. -/
theorem clients_within_workers_two :
    ∃ s : System 2, queued s.pool = 1 ∧ queued s.pool + running s.pool ≤ 2 := by
  obtain ⟨s, hr, hs⟩ := exists_reach_of_exec System.step AdmitsRoom (ProxySystem.start 2)
    (registers 2 0 ++ [.enter 0] ++ registers 2 1) (fun s => queued s.pool = 1)
    (by decide +kernel)
  exact ⟨s, hs, (clients_within_workers hr).1⟩

/-- Three sources pass the test before the first of the two workers wakes
up. -/
theorem three_clients_two_workers :
    ¬ ∀ s : System 2, Reach System.step (fun _ => Serving) (ProxySystem.start 2) s →
      queued s.pool + running s.pool ≤ 2 := by
  intro h
  obtain ⟨s, hr, hs⟩ := exists_reach_of_exec System.step (fun _ => Serving) (ProxySystem.start 2)
    (registers 2 0 ++ registers 2 1 ++ registers 2 2) (fun s => queued s.pool = 3)
    (by decide +kernel)
  have hle := h s hr
  rw [hs] at hle
  omega

end ZeroCopyProxy.Ports.ProxyAdmission
