import ZeroCopyProxy.Ports.PoolCounters

/-!
# What `jpool_wait` waits for

`jpool_worker` signals `working_cond` when no worker is working and the queue
is empty.  `jpool_wait` tests `working_cnt` alone, and a work is not counted
there between its addition and the moment a worker takes it.  So `jpool_wait`
may return while works that were added before its call are still queued.

Three steps lead there: `jpool_wait` is called while a work is queued and no
worker is working, `jpool_add_work` adds one while a thread waits and no worker
is working, and the only working worker finishes while a thread waits and a
work is queued.  `jpool_wait` waits for all the work exactly in the runs
without such a step.
-/

namespace ZeroCopyProxy.Ports.PoolWait

open ZeroCopyProxy.Verified.LinkedHeap
open ZeroCopyProxy.Verified.Transitions
open ZeroCopyProxy.Verified.Counting
open ZeroCopyProxy.Ports.ThreadPool
open ZeroCopyProxy.Ports.PoolQueue
open ZeroCopyProxy.Ports.PoolCounters

variable {F A : Type} {num : UInt64} {κ : Type} [DecidableEq κ]

/-! ## Taken works -/

/-- A work that was taken is finished, or a worker is busy with it. -/
structure Ticketed (s : State num κ F A) : Prop where
  taken : ∀ j < s.hist.taken.length, j ∈ s.hist.finished ∨
    ∃ i, busy (s.worker i) = true ∧ s.hist.ticket i = j
  since : ∀ k, s.hist.since k ≤ s.hist.added.length

omit [DecidableEq κ] in
theorem ticketed_start : Ticketed (start num κ F A) where
  taken j hj := absurd hj (Nat.not_lt_zero j)
  since _ := Nat.le_refl 0

omit [DecidableEq κ] in
/-- A worker that neither takes a work nor finishes one. -/
theorem Ticketed.moveWorker {s s' : State num κ F A} (h : Ticketed s) {i : Worker num}
    {pc : WorkerPc} (hworker : s'.worker = Function.update s.worker i pc)
    (hhist : s'.hist = s.hist) (hbusy : busy pc = busy (s.worker i)) : Ticketed s' where
  taken j hj := by
    rw [hhist] at hj ⊢
    rcases h.taken j hj with hfinished | ⟨i', hi', hticket⟩
    · exact .inl hfinished
    · refine .inr ⟨i', ?_, hticket⟩
      rw [hworker]
      by_cases hii : i' = i
      · subst hii
        rw [Function.update_self, hbusy, hi']
      · rw [Function.update_of_ne hii, hi']
  since k := by
    rw [hhist]
    exact h.since k

omit [DecidableEq κ] in
/-- A worker takes the next work. -/
theorem Ticketed.take {s : State num κ F A} (h : Ticketed s) {i : Worker num}
    {work : Addr} {node : JpoolWork F A} {jpool : Jpool} (hi : s.worker i = .lock)
    (hnode : s.works.get work = some node) : Ticketed (s.take i (some work) jpool) where
  taken j hj := by
    have hlength : (s.take i (some work) jpool).hist.taken.length =
        s.hist.taken.length + 1 := by
      simp [State.take, State.job, hnode]
    rw [hlength] at hj
    by_cases hnew : j = s.hist.taken.length
    · refine .inr ⟨i, ?_, ?_⟩
      · simp [State.take, busy]
      · simp [State.take, hnew]
    · rcases h.taken j (by omega) with hfinished | ⟨i', hi', hticket⟩
      · exact .inl hfinished
      · have hii : i' ≠ i := by
          rintro rfl
          rw [hi] at hi'
          exact absurd hi' (by decide)
        refine .inr ⟨i', ?_, ?_⟩
        · simpa [State.take, hii] using hi'
        · simpa [State.take, hii] using hticket
  since := h.since

omit [DecidableEq κ] in
/-- A worker finishes the work it took last. -/
theorem Ticketed.finish {s : State num κ F A} (h : Ticketed s) (i : Worker num) :
    Ticketed (s.finish i) where
  taken j hj := by
    rcases h.taken j hj with hfinished | ⟨i', hi', hticket⟩
    · exact .inl (List.mem_append_left _ hfinished)
    · by_cases hii : i' = i
      · subst hii
        refine .inl (List.mem_append_right _ ?_)
        rw [hticket, List.mem_singleton]
      · refine .inr ⟨i', ?_, hticket⟩
        simpa [State.finish, State.setWorker, hii] using hi'
  since := h.since

theorem ticketed_step {s s' : State num κ F A} {a : Act num κ F A} (h : Ticketed s)
    (he : s.Effect a s') : Ticketed s' := by
  have hmore : ∀ (k : κ) (more : List (F × A)),
      s.hist.since k ≤ (s.hist.added ++ more).length := by
    intro k more
    rw [List.length_append]
    exact Nat.le_trans (h.since k) (Nat.le_add_right _ _)
  cases he with
  | leaves hi hstop => exact h.moveWorker rfl rfl (by rw [hi]; rfl)
  | takes hi hrun hfirst hnode => exact h.take hi hnode
  | runs hi hnode => exact h.moveWorker rfl rfl (by rw [hi]; rfl)
  | runsNull hi => exact h.moveWorker rfl rfl (by rw [hi]; rfl)
  | destroysWork hi hnode => exact h.moveWorker rfl rfl (by rw [hi]; rfl)
  | finishes hi => exact h.finish _
  | enqueuesFirst hk hfirst => exact ⟨h.taken, fun k => hmore k _⟩
  | enqueuesLast hk hfirst hlast hnode => exact ⟨h.taken, fun k => hmore k _⟩
  | waitsFor hk =>
      next k =>
      constructor
      · exact h.taken
      · intro k'
        by_cases hkk : k' = k
        · subst hkk
          simp [State.wait, State.setClient]
        · simpa [State.wait, State.setClient, hkk] using h.since k'
  | _ => exact ⟨h.taken, h.since⟩

/-! ## The return of `jpool_wait` -/

/-- `jpool_wait`, called by thread `k`, is about to return, and the pool is
not stopped. -/
def Returns (s : State num κ F A) (k : κ) : Prop :=
  s.client k = .waiting .user ∧ jpoolWaits s.jpool = false ∧ s.jpool.stop = false

/-- No work is queued, no work is running, and every work added before the
call has finished. -/
def WorkDone (s : State num κ F A) (k : κ) : Prop :=
  (∀ ws, Links JpoolWork.next s.works s.jpool.workFirst ws → ws = []) ∧
    (∀ i, busy (s.worker i) = false) ∧
    ∀ j < s.hist.since k, j ∈ s.hist.finished

/-- `jpool_wait` returns from here only if the work is done. -/
def WaitsDone (s : State num κ F A) : Prop := ∀ k, Returns s k → WorkDone s k

/-- A thread is in `jpool_wait`. -/
def InWait (s : State num κ F A) : Prop := ∃ k, s.client k = .waiting .user

/-- On a pool that is not stopped, `jpool_wait` is not called while a work is
queued and no worker is working, no work is added while a thread waits and no
worker is working, and the only working worker does not finish while a thread
waits and a work is queued. -/
def Awaits (s : State num κ F A) : Act num κ F A → Prop
  | .wait _ => s.jpool.stop = false → s.jpool.workFirst ≠ none → s.jpool.workingCnt ≠ 0
  | .enqueue _ => s.jpool.stop = false → InWait s → s.jpool.workingCnt ≠ 0
  | .finish _ =>
    s.jpool.stop = false → InWait s → s.jpool.workFirst ≠ none → s.jpool.workingCnt ≠ 1
  | _ => True

/-- What the return depends on. -/
structure Known (s : State num κ F A) : Prop where
  sound : s.jpool.stop = false → Sound s
  counted : Counted s
  ticketed : Ticketed s

omit [DecidableEq κ] in
theorem known_start : Known (start num κ F A) :=
  ⟨fun _ => sound_start, counted_start, ticketed_start⟩

theorem known_step {s s' : State num κ F A} {a : Act num κ F A} (h : Known s)
    (hs : s.step a = some s') : Known s' := by
  have he := (State.effect_of_step hs).2
  constructor
  · intro hstop
    exact sound_step (h.sound (running_of_effect he hstop)) he hstop
  · exact counted_step h.counted he
  · exact ticketed_step h.ticketed he

omit [DecidableEq κ] in
/-- Where `jpool_wait` returns no worker is busy. -/
theorem none_busy {s : State num κ F A} (h : Counted s) {k : κ} (hreturns : Returns s k)
    (i : Worker num) : busy (s.worker i) = false := by
  obtain ⟨_, hwaits, hstop⟩ := hreturns
  have hzero : s.jpool.workingCnt = 0 := by simpa [jpoolWaits, hstop] using hwaits
  exact none_of_counted h.working hzero i

omit [DecidableEq κ] in
/-- If the queue is empty as well, all the work is done. -/
theorem workDone_of_empty {s : State num κ F A} (h : Known s) {k : κ}
    (hreturns : Returns s k) (hempty : s.jpool.workFirst = none) : WorkDone s k := by
  have hbusy := none_busy h.counted hreturns
  have hunique : ∀ ws, Links JpoolWork.next s.works s.jpool.workFirst ws → ws = [] := by
    intro ws hlinks
    rw [hempty] at hlinks
    exact links_unique hlinks rfl
  obtain ⟨ws, hws⟩ := (h.sound hreturns.2.2).shape
  have hall : s.hist.taken.map Prod.snd = s.hist.added := by
    have horder := hws.order
    rw [hunique ws hws.links] at horder
    simpa using horder
  have hlength : s.hist.taken.length = s.hist.added.length := by
    rw [← hall, List.length_map]
  refine ⟨hunique, hbusy, fun j hj => ?_⟩
  have hsince := h.ticketed.since k
  rcases h.ticketed.taken j (by omega) with hfinished | ⟨i, hi, _⟩
  · exact hfinished
  · exact absurd ((hbusy i).symm.trans hi) (by simp)

omit [DecidableEq κ] in
/-- A queue without works has no first one. -/
theorem empty_of_workDone {s : State num κ F A} (h : Known s) {k : κ}
    (hreturns : Returns s k) (hdone : WorkDone s k) : s.jpool.workFirst = none := by
  obtain ⟨ws, hws⟩ := (h.sound hreturns.2.2).shape
  have hlinks := hws.links
  rw [hdone.1 ws hlinks] at hlinks
  exact hlinks

/-- A thread is in `jpool_wait` and would return with a work in the queue. -/
def Early (s : State num κ F A) : Prop :=
  s.jpool.stop = false ∧ InWait s ∧ s.jpool.workFirst ≠ none ∧ s.jpool.workingCnt = 0

omit [DecidableEq κ] in
theorem returns_iff {s : State num κ F A} {k : κ} :
    Returns s k ↔
      s.client k = .waiting .user ∧ s.jpool.workingCnt = 0 ∧ s.jpool.stop = false := by
  unfold Returns
  constructor
  · rintro ⟨hk, hwaits, hstop⟩
    exact ⟨hk, by simpa [jpoolWaits, hstop] using hwaits, hstop⟩
  · rintro ⟨hk, hzero, hstop⟩
    exact ⟨hk, by simp [jpoolWaits, hstop, hzero], hstop⟩

omit [DecidableEq κ] in
theorem waitsDone_iff {s : State num κ F A} (h : Known s) : WaitsDone s ↔ ¬ Early s := by
  constructor
  · rintro hdone ⟨hstop, ⟨k, hk⟩, hfirst, hzero⟩
    have hreturns : Returns s k := returns_iff.2 ⟨hk, hzero, hstop⟩
    exact hfirst (empty_of_workDone h hreturns (hdone k hreturns))
  · intro hearly k hreturns
    obtain ⟨hk, hzero, hstop⟩ := returns_iff.1 hreturns
    refine workDone_of_empty h hreturns ?_
    by_contra hfirst
    exact hearly ⟨hstop, ⟨k, hk⟩, hfirst, hzero⟩

/-! ## The three steps -/

/-- A thread that goes elsewhere than into `jpool_wait` leaves the others
there. -/
theorem inWait_of_setClient {s : State num κ F A} {k : κ} {pc : ClientPc}
    (hpc : pc ≠ .waiting .user)
    (h : ∃ k', Function.update s.client k pc k' = .waiting .user) : InWait s := by
  obtain ⟨k', hk'⟩ := h
  by_cases hkk : k' = k
  · subst hkk
    rw [Function.update_self] at hk'
    exact absurd hk' hpc
  · rw [Function.update_of_ne hkk] at hk'
    exact ⟨k', hk'⟩

/-- A thread that was not in `jpool_wait` and moves on leaves the others
there. -/
theorem setClient_of_inWait {s : State num κ F A} {k : κ} {pc : ClientPc}
    (hk : s.client k ≠ .waiting .user) (h : InWait s) :
    ∃ k', Function.update s.client k pc k' = .waiting .user := by
  obtain ⟨k', hk'⟩ := h
  have hkk : k' ≠ k := by
    rintro rfl
    exact hk hk'
  exact ⟨k', by rw [Function.update_of_ne hkk, hk']⟩

theorem pred_eq_zero_iff (c : UInt64) : c - 1 = 0 ↔ c = 1 := by
  constructor
  · intro h
    have hsum : c - 1 + 1 = 0 + 1 := by rw [h]
    rwa [UInt64.sub_add_cancel] at hsum
  · rintro rfl
    rfl

/-- **A step leads where `jpool_wait` would return with a work in the queue
exactly if it is one of the three.** -/
theorem early_step {s s' : State num κ F A} {a : Act num κ F A} (h : Known s)
    (hearly : ¬ Early s) (he : s.Effect a s') : ¬ Early s' ↔ Awaits s a := by
  cases he with
  | leaves hi hstop =>
      refine iff_of_true ?_ trivial
      rintro ⟨hrun, -⟩
      exact absurd (hstop.symm.trans hrun) (by simp)
  | takes hi hstop hfirst hnode =>
      next i work node =>
      refine iff_of_true ?_ trivial
      rintro ⟨-, -, -, hzero⟩
      have hworking := (counted_step h.counted (.takes hi hstop hfirst hnode)).working
      rw [hzero] at hworking
      have hbusy := count_eq_zero.1 hworking.symm i
      simp [State.take, busy] at hbusy
  | finishes hi =>
      next i =>
      constructor
      · intro hlate hstop hwait hfirst hone
        exact hlate ⟨hstop, hwait, hfirst, (pred_eq_zero_iff _).2 hone⟩
      · rintro hawaits ⟨hstop, hwait, hfirst, hzero⟩
        exact hawaits hstop hwait hfirst ((pred_eq_zero_iff _).1 hzero)
  | creates hk hfresh =>
      refine iff_of_true ?_ trivial
      rintro ⟨hstop, hwait, hrest⟩
      exact hearly ⟨hstop, inWait_of_setClient (by simp) hwait, hrest⟩
  | enqueuesFirst hk hfirst =>
      constructor
      · intro hlate hstop hwait hzero
        exact hlate ⟨hstop, setClient_of_inWait (by simp [hk]) hwait, by simp, hzero⟩
      · rintro hawaits ⟨hstop, hwait, -, hzero⟩
        exact hawaits hstop (inWait_of_setClient (by simp) hwait) hzero
  | enqueuesLast hk hfirst hlast hnode =>
      constructor
      · intro _ hstop hwait hzero
        exact hearly ⟨hstop, hwait, by rw [hfirst]; simp, hzero⟩
      · rintro hawaits ⟨hstop, hwait, -, hzero⟩
        exact hawaits hstop (inWait_of_setClient (by simp) hwait) hzero
  | enqueuesDangling hk hfirst hlast =>
      -- the queue of a running pool has a last work
      constructor
      · intro _ hstop
        obtain ⟨ws, hws⟩ := (h.sound hstop).shape
        obtain ⟨l, hl, hget⟩ := hws.exists_last hfirst
        exact absurd (hlast l hl) hget
      · rintro - ⟨hstop, hwait, hrest⟩
        exact hearly ⟨hstop, hwait, hrest⟩
  | waitsFor hk =>
      next k =>
      have hwait : InWait (s.wait k) := ⟨k, by simp [State.wait, State.setClient]⟩
      constructor
      · intro hlate hstop hfirst hzero
        exact hlate ⟨hstop, hwait, hfirst, hzero⟩
      · rintro hawaits ⟨hstop, -, hfirst, hzero⟩
        exact hawaits hstop hfirst hzero
  | returns hk hwaits =>
      refine iff_of_true ?_ trivial
      rintro ⟨hstop, hwait, hrest⟩
      exact hearly ⟨hstop, inWait_of_setClient (by simp) hwait, hrest⟩
  | drained hk hwaits =>
      refine iff_of_true ?_ trivial
      rintro ⟨hstop, hwait, hrest⟩
      exact hearly ⟨hstop, inWait_of_setClient (by simp) hwait, hrest⟩
  | destroys hk hfree =>
      refine iff_of_true ?_ trivial
      rintro ⟨hstop, -⟩
      cases hstop
  | frees hk =>
      refine iff_of_true ?_ trivial
      rintro ⟨hstop, hwait, hrest⟩
      exact hearly ⟨hstop, inWait_of_setClient (by simp) hwait, hrest⟩
  | _ => exact iff_of_true hearly trivial

/-- **`jpool_wait` waits for all the work throughout a run exactly if none of
its steps is one of the three.** -/
theorem wait_done_iff (as : List (Act num κ F A)) :
    Throughout State.step WaitsDone (start num κ F A) as ↔
      Along State.step Awaits (start num κ F A) as := by
  refine throughout_iff_along known_step ?_ known_start ?_ as
  · intro s a s' h hdone hs
    rw [waitsDone_iff (known_step h hs)]
    exact early_step h ((waitsDone_iff h).1 hdone) (State.effect_of_step hs).2
  · rintro k ⟨hk, -⟩
    cases hk

/-- One work is added, no worker has taken it yet, and `jpool_wait` returns. -/
theorem wait_returns_early :
    ¬ ∀ as, Throughout State.step WaitsDone (start 2 Unit Nat Nat) as := by
  intro h
  obtain ⟨s, hs, hk, hzero, hstop, hsince, hfinished⟩ :
      ∃ s, exec State.step unconditional (start 2 Unit Nat Nat)
          [.addWork () (some 1) 5 0, .enqueue (), .wait ()] = some s ∧
        s.client () = .waiting .user ∧ s.jpool.workingCnt = 0 ∧ s.jpool.stop = false ∧
        s.hist.since () = 1 ∧ s.hist.finished = [] :=
    ⟨_, rfl, by decide +kernel⟩
  have hdone := (h _).last hs () (returns_iff.2 ⟨hk, hzero, hstop⟩)
  have hfirst := hdone.2.2 0 (by rw [hsince]; exact Nat.one_pos)
  rw [hfinished] at hfirst
  exact absurd hfirst (by simp)

end ZeroCopyProxy.Ports.PoolWait
