import ZeroCopyProxy.Ports.ProxyDeletions

/-!
# Every admitted source gets one worker

`proxy_handle_req` puts the descriptor it has accepted at the end of
`fd_list`, reads it back from there into new work data, puts these at the end
of `work_list`, and reads them back for `jpool_add_work`.  The main thread reads
back what it wrote, whatever the workers delete meanwhile (`Dispatched`), so
that the works in the pool are those of the admitted sources, in the order of
their admission (`Admitted`).  Every worker therefore serves a source of its
own.
-/

namespace ZeroCopyProxy.Ports.ProxyDispatch

open ZeroCopyProxy.Verified.Resumption
open ZeroCopyProxy.Verified.Liberal
open ZeroCopyProxy.Verified.LinkedHeap
open ZeroCopyProxy.Verified.Transitions
open ZeroCopyProxy.Ports.Posix
open ZeroCopyProxy.Ports.ThreadPool
open ZeroCopyProxy.Ports.PoolQueue
open ZeroCopyProxy.Ports.ProxyConn
open ZeroCopyProxy.Ports.ProxySystem
open ZeroCopyProxy.Ports.ProxyDescriptors
open ZeroCopyProxy.Ports.ProxyDeletions

/-! ## The works in the pool -/

section Jobs

variable {num : UInt64} {s s' : System num}

/-- How many work data the main thread has called `jpool_add_work` for. -/
def handed (s : System num) : Nat :=
  match s.main with
  | .created w => w
  | _ => s.mem.nodes.length

/-- How many it has put into the queue. -/
def enqueued (s : System num) : Nat :=
  match s.main with
  | .created w => w
  | .adding => s.mem.nodes.length - 1
  | _ => s.mem.nodes.length

/-- Every work has its own work data, and the works are added in the order of
these. -/
structure Jobs (s : System num) : Prop where
  full : ∀ a f arg, State.job s.pool.works a = some (f, arg) → arg ≠ none
  lt : ∀ a w, s.jobData a = some w → w < handed s
  inj : ∀ a b w, s.jobData a = some w → s.jobData b = some w → a = b
  adding : s.main = .adding →
    ∃ a, s.pool.client .main = .adding a ∧ s.jobData a = some (s.mem.nodes.length - 1)
  order : s.pool.hist.added.map Prod.snd = (List.range (enqueued s)).map some

/-- The main thread hands nothing over. -/
theorem Jobs.congr (h : Jobs s) (hpool : s'.pool = s.pool) (hhanded : handed s' = handed s)
    (henqueued : enqueued s' = enqueued s)
    (hadding : s'.main = .adding →
      s.main = .adding ∧ s'.mem.nodes.length = s.mem.nodes.length) : Jobs s' := by
  have hdata : s'.jobData = s.jobData := by
    unfold System.jobData
    rw [hpool]
  constructor
  case full =>
    rw [hpool]
    exact h.full
  case lt =>
    rw [hdata, hhanded]
    exact h.lt
  case inj =>
    rw [hdata]
    exact h.inj
  case adding =>
    intro hm
    obtain ⟨hm', hlen⟩ := hadding hm
    rw [hpool, hdata, hlen]
    exact h.adding hm'
  case order =>
    rw [hpool, henqueued]
    exact h.order

/-- A step of a worker in the pool. -/
def OfWorker : ThreadPool.Act num User Unit (Option Nat) → Prop
  | .enter _ | .run _ | .destroyWork _ | .finish _ => True
  | _ => False

/-- It adds nothing and leaves the other threads where they are. -/
theorem of_worker {p p' : ThreadPool.State num User Unit (Option Nat)}
    {b : ThreadPool.Act num User Unit (Option Nat)} (hb : OfWorker b) (he : p.Effect b p') :
    p'.client = p.client ∧ p'.hist.added = p.hist.added := by
  cases he with
  | refuses | creates | enqueuesFirst | enqueuesLast | enqueuesDangling | waitsFor | testsAgain
  | returns | drained | destroys | destroysQueueDangling | frees => exact hb.elim
  | _ => exact ⟨rfl, rfl⟩

theorem ne_addWork_of_worker {b : ThreadPool.Act num User Unit (Option Nat)} (hb : OfWorker b)
    (k : User) (f : Option Unit) (arg : Option Nat) (x : Addr) : b ≠ .addWork k f arg x := by
  rintro rfl
  exact hb

/-- The work a thread is about to add keeps its job. -/
theorem job_adding {p p' : ThreadPool.State num User Unit (Option Nat)}
    {b : ThreadPool.Act num User Unit (Option Nat)} (hs : Sound p) (hb : OfWorker b)
    (he : p.Effect b p') {k : User} {a : Addr} (hk : p.client k = .adding a) :
    State.job p'.works a = State.job p.works a := by
  obtain ⟨ws, hws⟩ := hs.shape
  cases he with
  | refuses | creates | enqueuesFirst | enqueuesLast | enqueuesDangling | waitsFor | testsAgain
  | returns | drained | destroys | destroysQueueDangling | frees => exact hb.elim
  | @destroysWork i work node hi hnode =>
      refine job_congr (Heap.get_free_ne _ ?_)
      rintro rfl
      have hsame := hws.excl _ _ a (holds_of_client hk rfl) (holds_of_worker hi rfl)
      cases hsame
  | _ => rfl

theorem Jobs.poolStep {b : ThreadPool.Act num User Unit (Option Nat)} (hs : Sound s.pool)
    (h : Jobs s) (hb : OfWorker b) (he : s.pool.Effect b s'.pool) (hmain : s'.main = s.main)
    (hmem : s'.mem = s.mem) : Jobs s' := by
  obtain ⟨hclient, hadded⟩ := of_worker hb he
  have hdata : ∀ a w, s'.jobData a = some w → s.jobData a = some w := fun a w =>
    System.jobData_of_effect he (ne_addWork_of_worker hb)
  have hhanded : handed s' = handed s := by
    unfold handed
    rw [hmain, hmem]
  have henqueued : enqueued s' = enqueued s := by
    unfold enqueued
    rw [hmain, hmem]
  constructor
  case full =>
    intro a f arg hjob
    rcases job_of_effect he hjob with hbefore | ⟨-, k, hadd⟩
    · exact h.full a f arg hbefore
    · exact absurd hadd (ne_addWork_of_worker hb k _ _ a)
  case lt =>
    intro a w hw
    rw [hhanded]
    exact h.lt a w (hdata a w hw)
  case inj => exact fun a b w ha hb => h.inj a b w (hdata a w ha) (hdata b w hb)
  case adding =>
    intro hm
    obtain ⟨a, ha, hw⟩ := h.adding (hmain.symm.trans hm)
    refine ⟨a, (congrFun hclient _).trans ha, ?_⟩
    rw [hmem, System.jobData_eq, job_adding hs hb he ha, ← System.jobData_eq, hw]
  case order =>
    rw [hadded, henqueued]
    exact h.order

/-- `jpool_add_work` up to its critical section. -/
theorem of_addWork {p p' : ThreadPool.State num User Unit (Option Nat)} {k : User} {f : Unit}
    {arg : Option Nat} {work : Addr} (he : p.Effect (.addWork k (some f) arg work) p') :
    p'.client k = .adding work ∧ p'.worker = p.worker ∧ p'.hist.added = p.hist.added ∧
      ∀ x, State.job p'.works x = if x = work then some (f, arg) else State.job p.works x := by
  cases he with
  | creates hk hfresh => exact ⟨Function.update_self _ _ _, rfl, rfl, fun x => job_set x⟩

/-- The last work data are handed over. -/
theorem Jobs.adds {p} {w : Nat} {work : Addr} (h : Jobs s) (hm : s.main = .created w)
    (hw : w + 1 = s.mem.nodes.length)
    (he : s.pool.Effect (.addWork .main (some ()) (some w) work) p) :
    Jobs { s with pool := p, main := .adding } := by
  obtain ⟨hclient, -, hadded, hjob⟩ := of_addWork he
  have hhanded : handed s = w := by rw [handed, hm]
  have hdata : ∀ a x, System.jobData { s with pool := p, main := .adding } a = some x →
      a = work ∧ x = w ∨ s.jobData a = some x ∧ x < w := by
    intro a x hx
    rw [System.jobData_eq, hjob] at hx
    by_cases ha : a = work
    · rw [if_pos ha] at hx
      exact .inl ⟨ha, (Option.some.inj hx).symm⟩
    · rw [if_neg ha, ← System.jobData_eq] at hx
      exact .inr ⟨hx, hhanded ▸ h.lt a x hx⟩
  constructor
  case full =>
    intro a f arg hfa
    rw [hjob] at hfa
    by_cases ha : a = work
    · rw [if_pos ha] at hfa
      cases hfa
      exact Option.some_ne_none w
    · rw [if_neg ha] at hfa
      exact h.full a f arg hfa
  case lt =>
    intro a x hx
    show x < s.mem.nodes.length
    rcases hdata a x hx with ⟨-, rfl⟩ | ⟨-, hlt⟩
    · omega
    · omega
  case inj =>
    intro a b x ha hb
    rcases hdata a x ha with ⟨rfl, rfl⟩ | ⟨hold, hlt⟩
    · rcases hdata b x hb with ⟨rfl, -⟩ | ⟨-, hlt⟩
      · rfl
      · exact absurd hlt (Nat.lt_irrefl x)
    · rcases hdata b x hb with ⟨-, rfl⟩ | ⟨hold', -⟩
      · exact absurd hlt (Nat.lt_irrefl x)
      · exact h.inj a b x hold hold'
  case adding =>
    intro _
    refine ⟨work, hclient, ?_⟩
    rw [System.jobData_eq, hjob, if_pos rfl]
    show some w = some (s.mem.nodes.length - 1)
    rw [← hw, Nat.add_sub_cancel]
  case order =>
    have henqueued : enqueued s = w := by rw [enqueued, hm]
    show p.hist.added.map Prod.snd = (List.range (s.mem.nodes.length - 1)).map some
    rw [hadded, h.order, henqueued, ← hw, Nat.add_sub_cancel]

/-- The critical section. -/
theorem Jobs.enqueues {p} (h : Jobs s) (hm : s.main = .adding)
    (he : s.pool.Effect (.enqueue .main) p) (hp : p.fault = false) :
    Jobs { s with pool := p, main := .checking } := by
  obtain ⟨a, hclient, hlast⟩ := h.adding hm
  have hlt := h.lt a _ hlast
  have hhanded : handed s = s.mem.nodes.length := by rw [handed, hm]
  have hjob : ∃ f, State.job s.pool.works a = some (f, some (s.mem.nodes.length - 1)) := by
    rw [System.jobData_eq] at hlast
    obtain ⟨⟨f, arg⟩, hfa, rfl⟩ := Option.bind_eq_some_iff.1 hlast
    exact ⟨f, hfa⟩
  have hkeep : ∀ x, State.job p.works x = State.job s.pool.works x := by
    intro x
    cases he with
    | enqueuesFirst => rfl
    | enqueuesLast hk hfirst hl hnode => exact job_set_next hnode _ x
    | enqueuesDangling => rfl
  have hadded : p.hist.added = s.pool.hist.added ++ (State.job s.pool.works a).toList := by
    cases he with
    | enqueuesFirst hk =>
        cases hclient.symm.trans hk
        rfl
    | enqueuesLast hk =>
        cases hclient.symm.trans hk
        rfl
    | enqueuesDangling => exact absurd hp (by simp [State.faulted])
  have hdata : System.jobData { s with pool := p, main := .checking } = s.jobData := by
    funext x
    rw [System.jobData_eq, System.jobData_eq, hkeep]
  constructor
  case full =>
    intro x f arg hx
    rw [hkeep] at hx
    exact h.full x f arg hx
  case lt =>
    intro x w hw
    rw [hdata] at hw
    show w < s.mem.nodes.length
    rw [← hhanded]
    exact h.lt x w hw
  case inj =>
    rw [hdata]
    exact h.inj
  case adding => rintro ⟨⟩
  case order =>
    obtain ⟨f, hjob⟩ := hjob
    have henqueued : enqueued s = s.mem.nodes.length - 1 := by rw [enqueued, hm]
    have hlen : s.mem.nodes.length = s.mem.nodes.length - 1 + 1 := by omega
    show p.hist.added.map Prod.snd = (List.range s.mem.nodes.length).map some
    rw [hadded, hjob, List.map_append, h.order, henqueued, hlen, List.range_succ,
      List.map_append]
    rfl

end Jobs

/-! ## The workers in `proxy_conn` -/

section Working

variable {num : UInt64} {s s' : System num} {owing holding : List Nat}

/-- What is left of a stage deletes in turn what the worker owes. -/
def Deletes (owing holding : List Nat) (pc : MainPc) (m : Shared) (c : Conn) : Prop :=
  ∃ p, wlp Moves (InTurn (srcFdOf m c.work)) (Ended (srcFdOf m c.work)) c.node p ∧
    Owes owing holding pc m c.work p

/-- Whose work has not begun owes everything. -/
structure Working (owing holding : List Nat) (s : System num) : Prop where
  sync : ∀ i c, s.conn i = some c →
    ∃ a, s.pool.worker i = .running a ∧ s.jobData a = some c.work
  waiting : ∀ a w, s.jobData a = some w → (∀ i, s.pool.worker i ≠ .running a) →
    w ∈ owing ∧ w ∈ holding
  runs : ∀ i c, s.conn i = some c → Deletes owing holding s.main s.mem c

/-- No two workers have the same work data. -/
theorem Working.apart (hs : Sound s.pool) (hj : Jobs s) (h : Working owing holding s)
    {i j : Worker num} {c c' : Conn} (hi : s.conn i = some c) (hj' : s.conn j = some c')
    (hwork : c.work = c'.work) : i = j := by
  obtain ⟨a, ha, hw⟩ := h.sync i c hi
  obtain ⟨b, hb, hw'⟩ := h.sync j c' hj'
  obtain ⟨ws, hws⟩ := hs.shape
  have hab : a = b := hj.inj a b c.work hw (hwork ▸ hw')
  have hsame := hws.excl _ _ a (holds_of_worker ha rfl) (holds_of_worker (hab ▸ hb) rfl)
  exact Owner.worker.inj hsame

/-- A worker's work data are not those in the main thread's hands. -/
theorem Working.ne_created (hj : Jobs s) (h : Working owing holding s) {i : Worker num}
    {c : Conn} (hi : s.conn i = some c) {v : Nat} (hv : s.main = .created v) : c.work ≠ v := by
  obtain ⟨a, -, hw⟩ := h.sync i c hi
  have hlt := hj.lt a c.work hw
  rw [handed, hv] at hlt
  exact Nat.ne_of_lt hlt

section PoolStep

variable {b : ThreadPool.Act num User Unit (Option Nat)}

/-- A worker in `proxy_conn` stays there. -/
theorem Working.sync_poolStep (hs : Sound s.pool) (h : Working owing holding s)
    (he : s.pool.Effect b s'.pool) (hstop : s'.pool.jpool.stop = false) {i : Worker num}
    {c : Conn} (hi : s.conn i = some c) (hb : b ≠ .destroyWork i) :
    ∃ a, s'.pool.worker i = .running a ∧ s'.jobData a = some c.work := by
  obtain ⟨a, ha, hw⟩ := h.sync i c hi
  have ha' := running_kept he ha hb
  refine ⟨a, ha', ?_⟩
  rw [jobData_held hs he hstop (by rw [ha]; rfl) (by rw [ha']; rfl), hw]

/-- A work leaves the worker that runs it when it is destroyed. -/
theorem running_or_freed {p p' : ThreadPool.State num User Unit (Option Nat)}
    (he : p.Effect b p') {i : Worker num} {a : Addr} (hi : p.worker i = .running a) :
    p'.worker i = .running a ∨ State.job p'.works a = none := by
  by_cases hb : b = .destroyWork i
  · subst hb
    refine .inr ?_
    cases he with
    | destroysWork hi' hnode =>
        cases hi.symm.trans hi'
        rw [State.job, State.works, Heap.get_free_self]
        rfl
    | destroysDangling hi' hnode =>
        cases hi.symm.trans hi'
        show State.job p.works a = none
        rw [State.job, hnode]
        rfl
  · exact .inl (running_kept he hi hb)

/-- A work that nobody runs was run by nobody. -/
theorem Working.waiting_poolStep (h : Working owing holding s) (he : s.pool.Effect b s'.pool)
    (hadd : ∀ k f arg x, b ≠ .addWork k f arg x) {a : Addr} {w : Nat}
    (hw : s'.jobData a = some w) (ha : ∀ i, s'.pool.worker i ≠ .running a) :
    w ∈ owing ∧ w ∈ holding := by
  refine h.waiting a w (System.jobData_of_effect he hadd hw) fun i hi => ?_
  rcases running_or_freed he hi with hstill | hfreed
  · exact ha i hstill
  · rw [System.jobData_eq, hfreed] at hw
    cases hw

/-- A step of a worker outside `proxy_conn`. -/
theorem Working.poolStep (hs : Sound s.pool) (h : Working owing holding s)
    (he : s.pool.Effect b s'.pool) (hstop : s'.pool.jpool.stop = false) (hb : OfWorker b)
    (hdestroy : ∀ i, b ≠ .destroyWork i) (hconn : s'.conn = s.conn)
    (hmain : s'.main = s.main) (hmem : s'.mem = s.mem) : Working owing holding s' where
  sync i c hi := h.sync_poolStep hs he hstop (hconn ▸ hi) (hdestroy i)
  waiting _ _ hw ha := h.waiting_poolStep he (ne_addWork_of_worker hb) hw ha
  runs i c hi := by
    rw [hmain, hmem]
    exact h.runs i c (hconn ▸ hi)

/-- A worker calls `proxy_conn`. -/
theorem Working.calls {i : Worker num} {a : Addr} {c : Conn} {p} (hs : Sound s.pool)
    (h : Working owing holding s) (hi : s.pool.worker i = .took (some a))
    (he : s.pool.Effect (.run i) p) (hstop : p.jpool.stop = false) (hc : s.newConn a = some c) :
    Working owing holding { s.setConn i (some c) with pool := p } := by
  obtain ⟨hw, n, hn, hceq⟩ := newConn_eq hc
  obtain ⟨ws, hws⟩ := hs.shape
  have hheld : holds s.pool.worker s.pool.client (.worker i) = some a := holds_of_worker hi rfl
  have hrunning : p.worker i = .running a := by
    cases he with
    | runs hi' hnode =>
        cases hi.symm.trans hi'
        exact Function.update_self _ _ _
    | runsNull hi' => cases hi.symm.trans hi'
    | runsDangling hi' hnode =>
        cases hi.symm.trans hi'
        exact absurd hnode (hws.held_ne_none hheld)
  have hnobody : ∀ j, s.pool.worker j ≠ .running a := by
    intro j hj
    have hsame := hws.excl _ _ a (holds_of_worker hj rfl) hheld
    cases hsame
    rw [hi] at hj
    cases hj
  constructor
  case sync =>
    intro j cj hj
    rcases setConn_cases hj with ⟨rfl, hself⟩ | ⟨-, hj⟩
    · cases hself
      refine ⟨a, hrunning, ?_⟩
      rw [jobData_held hs he hstop (by rw [hi]; rfl) (by rw [hrunning]; rfl), hw]
    · exact h.sync_poolStep hs he hstop hj (by simp)
  case waiting => exact fun x w hx hno => h.waiting_poolStep he (by simp) hx hno
  case runs =>
    intro j cj hj
    rcases setConn_cases hj with ⟨rfl, hself⟩ | ⟨-, hj⟩
    · cases hself
      obtain ⟨howing, hholding⟩ := h.waiting a c.work hw hnobody
      refine ⟨.whole, ?_, fun _ => howing, fun _ => hholding, by simp⟩
      rw [hceq]
      refine wlp_proxyConn_inTurn .setUp ?_ fun _ => rfl
      show n.data.srcFd = srcFdOf s.mem c.work
      rw [srcFdOf, Shared.srcFds, List.getElem?_map, hn]
      rfl
    · exact h.runs j cj hj

/-- `proxy_conn` has returned. -/
theorem Working.leaves {i : Worker num} {p} (hs : Sound s.pool) (h : Working owing holding s)
    (he : s.pool.Effect (.destroyWork i) p) (hstop : p.jpool.stop = false) :
    Working owing holding { s.setConn i none with pool := p } where
  sync j cj hj := by
    rcases setConn_cases hj with ⟨rfl, hself⟩ | ⟨hji, hj⟩
    · cases hself
    · exact h.sync_poolStep hs he hstop hj (by simpa using Ne.symm hji)
  waiting _ _ hw hno := h.waiting_poolStep he (by simp) hw hno
  runs j cj hj := by
    rcases setConn_cases hj with ⟨rfl, hself⟩ | ⟨-, hj⟩
    · cases hself
    · exact h.runs j cj hj

/-- The new work owes everything, and so do the main thread's work data. -/
theorem Working.adds {w : Nat} {work : Addr} {p} (hs : Sound s.pool)
    (h : Working owing holding s) (hl : Lists owing holding s.main s.mem)
    (hm : s.main = .created w) (hstop : p.jpool.stop = false)
    (he : s.pool.Effect (.addWork .main (some ()) (some w) work) p) :
    Working owing holding { s with pool := p, main := .adding } := by
  obtain ⟨-, hworker, -, hjob⟩ := of_addWork he
  constructor
  case sync => exact fun i c hi => h.sync_poolStep hs he hstop hi (by simp)
  case waiting =>
    intro a x hx hno
    rw [System.jobData_eq, hjob] at hx
    by_cases ha : a = work
    · rw [if_pos ha] at hx
      obtain rfl : w = x := Option.some.inj hx
      exact (hl.created w hm).2.2
    · rw [if_neg ha, ← System.jobData_eq] at hx
      exact h.waiting a x hx fun i hi => hno i ((congrFun hworker i).trans hi)
  case runs =>
    intro i c hi
    obtain ⟨q, hrun, howes⟩ := h.runs i c hi
    exact ⟨q, hrun, howes.moves (by simp)⟩

/-- It is in the queue. -/
theorem Working.enqueues {p} (hs : Sound s.pool) (h : Working owing holding s)
    (hstop : p.jpool.stop = false) (he : s.pool.Effect (.enqueue .main) p) :
    Working owing holding { s with pool := p, main := .checking } where
  sync i c hi := h.sync_poolStep hs he hstop hi (by simp)
  waiting _ _ hw hno := h.waiting_poolStep he (by simp) hw hno
  runs i c hi := by
    obtain ⟨q, hrun, howes⟩ := h.runs i c hi
    exact ⟨q, hrun, howes.moves (by simp)⟩

end PoolStep

/-- The main thread goes on without new work data. -/
theorem Working.moves {pc : MainPc} {m : Shared} (h : Working owing holding s)
    (hnodes : m.nodes = s.mem.nodes) (hpc : ∀ v, pc ≠ .created v) :
    Working owing holding { s with main := pc, mem := m } where
  sync := h.sync
  waiting := h.waiting
  runs i c hi := by
    obtain ⟨q, hrun, howes⟩ := h.runs i c hi
    refine ⟨q, ?_, (howes.moves hpc).congr hnodes⟩
    show wlp Moves (InTurn (srcFdOf m c.work)) (Ended (srcFdOf m c.work)) c.node q
    rw [srcFdOf_congr hnodes]
    exact hrun

/-- The main thread makes new work data. -/
theorem Working.creates {garbage : JpoolWorkData} {conn : Nat} (hj : Jobs s)
    (h : Working owing holding s) (hlt : handed s = s.mem.nodes.length) :
    Working (owing ++ [s.mem.nodes.length]) (holding ++ [s.mem.nodes.length])
      { s with main := .created s.mem.nodes.length, mem := s.mem.create garbage conn } where
  sync := h.sync
  waiting a w hw hno := by
    obtain ⟨howing, hholding⟩ := h.waiting a w hw hno
    exact ⟨List.mem_append_left _ howing, List.mem_append_left _ hholding⟩
  runs i c hi := by
    obtain ⟨a, -, hw⟩ := h.sync i c hi
    have hwork : c.work < s.mem.nodes.length := hlt ▸ hj.lt a c.work hw
    obtain ⟨q, hrun, howes⟩ := h.runs i c hi
    refine ⟨q, ?_, howes.creates hwork⟩
    show wlp Moves (InTurn (srcFdOf (s.mem.create garbage conn) c.work))
      (Ended (srcFdOf (s.mem.create garbage conn) c.work)) c.node q
    rw [srcFdOf_create hwork]
    exact hrun

/-- The next stage begins. -/
theorem Working.nexts {i : Worker num} {c : Conn} {d : JpoolWorkData} {stage : Stage}
    (h : Working owing holding s) (hi : s.conn i = some c) (hn : c.node = .done d stage) :
    Working owing holding (s.setConn i (some ⟨c.work, stage, proxyConn stage d⟩)) where
  sync j cj hj := by
    rcases setConn_cases hj with ⟨rfl, hself⟩ | ⟨-, hj⟩
    · cases hself
      exact h.sync j c hi
    · exact h.sync j cj hj
  waiting := h.waiting
  runs j cj hj := by
    rcases setConn_cases hj with ⟨rfl, hself⟩ | ⟨-, hj⟩
    · cases hself
      obtain ⟨q, hrun, howes⟩ := h.runs j c hi
      rw [hn, wlp_done] at hrun
      exact ⟨q, wlp_proxyConn_inTurn stage hrun.1 hrun.2, howes⟩
    · exact h.runs j cj hj

/-- A worker gets an answer. -/
theorem Working.answers {i : Worker num} {c : Conn} {d : JpoolWorkData} {op : ConnCall}
    {k : Answer → Res JpoolWorkData ConnCall Answer Stage} {r : Answer} {m : Shared}
    (hs : Sound s.pool) (hj : Jobs s) (hl : Lists owing holding s.main s.mem)
    (h : Working owing holding s) (hi : s.conn i = some c) (hn : c.node = .call d op k)
    (hk : s.mem.connCall op r = some m) :
    ∃ owing' holding', Lists owing' holding' s.main m ∧
      Working owing' holding' { s.setConn i (some { c with node := k r }) with mem := m } := by
  have he := Shared.effect_of_connCall hk
  obtain ⟨q, hrun, howes⟩ := h.runs i c hi
  rw [hn, wlp_call] at hrun
  obtain ⟨hturn, hrest⟩ := hrun
  obtain ⟨owing', holding', hl', howes', hkeep⟩ :=
    hl.answers howes hturn (fun v => h.ne_created hj hi) he
  refine ⟨owing', holding', hl', ?_⟩
  constructor
  case sync =>
    intro j cj hj'
    rcases setConn_cases hj' with ⟨rfl, hself⟩ | ⟨-, hj'⟩
    · cases hself
      exact h.sync j c hi
    · exact h.sync j cj hj'
  case waiting =>
    intro a w hw hno
    obtain ⟨howing, hholding⟩ := h.waiting a w hw hno
    have hne : w ≠ c.work := by
      rintro rfl
      obtain ⟨b, hb, hw'⟩ := h.sync i c hi
      exact hno i (hj.inj a b c.work hw hw' ▸ hb)
    exact ⟨(hkeep w hne).1 howing, (hkeep w hne).2 hholding⟩
  case runs =>
    intro j cj hj'
    show ∃ p, wlp Moves (InTurn (srcFdOf m cj.work)) (Ended (srcFdOf m cj.work)) cj.node p ∧
      Owes owing' holding' s.main m cj.work p
    rw [srcFdOf_congr he.nodes]
    rcases setConn_cases hj' with ⟨rfl, hself⟩ | ⟨hji, hj'⟩
    · cases hself
      exact ⟨_, hrest r _ rfl, howes'⟩
    · obtain ⟨q', hrun', howes⟩ := h.runs j cj hj'
      have hne : cj.work ≠ c.work := fun heq => hji (h.apart hs hj hj' hi heq)
      exact ⟨q', hrun', howes.mono he.nodes (hkeep _ hne).1 (hkeep _ hne).2⟩

end Working

/-! ## The steps of the proxy -/

section Steps

variable {num : UInt64} {s s' : System num}

/-- The lists and the pool are what the main thread takes them to be. -/
structure Dispatched (s : System num) : Prop where
  noFault : s.fault = false
  jobs : Jobs s
  lists : ∃ owing holding, Lists owing holding s.main s.mem ∧ Working owing holding s

theorem dispatched_start : Dispatched (ProxySystem.start num) where
  noFault := rfl
  jobs := by
    constructor
    case full => rintro a f arg ⟨⟩
    case lt => rintro a w ⟨⟩
    case inj => rintro a b w ⟨⟩
    case adding => rintro ⟨⟩
    case order => rfl
  lists := by
    refine ⟨[], [], ?_, ?_⟩
    · constructor
      case owed => exact List.Subperm.refl _
      case held => exact List.Subperm.refl _
      case nodup => exact List.nodup_nil
      case owingLt => exact fun w hw => absurd hw List.not_mem_nil
      case holdingLt => exact fun w hw => absurd hw List.not_mem_nil
      case workLt => exact fun w hw => absurd hw List.not_mem_nil
      case listed => rintro fd conn ⟨⟩
      case created => rintro w ⟨⟩
    · constructor
      case sync => rintro i c ⟨⟩
      case waiting => rintro a w ⟨⟩
      case runs => rintro i c ⟨⟩

theorem handed_le {owing holding : List Nat} (h : Lists owing holding s.main s.mem) :
    handed s ≤ s.mem.nodes.length := by
  unfold handed
  split
  · next w hm =>
      obtain ⟨hlen, -⟩ := h.created w hm
      omega
  · exact Nat.le_refl _

/-- A worker finds work data in the work it has taken. -/
theorem Dispatched.newConn_ne_none (hs : Sound s.pool) (h : Dispatched s) {i : Worker num}
    {a : Addr} (hi : s.pool.worker i = .took (some a)) : s.newConn a ≠ none := by
  obtain ⟨ws, hws⟩ := hs.shape
  obtain ⟨owing, holding, hl, -⟩ := h.lists
  obtain ⟨node, hnode⟩ := hws.held _ a (holds_of_worker hi rfl)
  have hjob : State.job s.pool.works a = some (node.func, node.arg) := by
    rw [State.job, hnode, Option.map_some]
  obtain ⟨w, hw⟩ := Option.ne_none_iff_exists'.1 (h.jobs.full a _ _ hjob)
  have hdata : s.jobData a = some w := by
    rw [System.jobData_eq, hjob]
    exact hw
  have hlt : w < s.mem.nodes.length :=
    Nat.lt_of_lt_of_le (h.jobs.lt a w hdata) (handed_le hl)
  rw [System.newConn, hdata, Option.bind_some, List.getElem?_eq_getElem hlt]
  exact Option.some_ne_none _

/-- The main thread has nothing in its hands that it has put into a list. -/
def Free : MainPc → Prop
  | .listed _ _ | .created _ | .adding => False
  | _ => True

theorem Free.ne {pc : MainPc} (h : Free pc) :
    (∀ fd conn, pc ≠ .listed fd conn) ∧ (∀ v, pc ≠ .created v) ∧ pc ≠ .adding := by
  refine ⟨?_, ?_, ?_⟩
  · rintro _ _ rfl
    exact h
  · rintro _ rfl
    exact h
  · rintro rfl
    exact h

theorem counts_of_free (h : Free s.main) :
    handed s = s.mem.nodes.length ∧ enqueued s = s.mem.nodes.length := by
  obtain ⟨-, hcreated, hadding⟩ := h.ne
  unfold handed enqueued
  refine ⟨?_, ?_⟩ <;> split
  · next v hv => exact absurd hv (hcreated v)
  · rfl
  · next v hv => exact absurd hv (hcreated v)
  · next hv => exact absurd hv hadding
  · rfl

/-- The main thread goes on, before and behind with nothing in its hands. -/
theorem Dispatched.moves {pc : MainPc} {m : Shared} (h : Dispatched s) (hm : Free s.main)
    (hpc : Free pc) (hnodes : m.nodes = s.mem.nodes) (hfds : m.fdList = s.mem.fdList)
    (hworks : m.workList = s.mem.workList) :
    Dispatched { s with main := pc, mem := m } := by
  obtain ⟨owing, holding, hl, hw⟩ := h.lists
  obtain ⟨hlisted, hcreated, hadding⟩ := hpc.ne
  obtain ⟨hhanded, henqueued⟩ := counts_of_free hm
  obtain ⟨hhanded', henqueued'⟩ :=
    counts_of_free (s := { s with main := pc, mem := m }) hpc
  refine ⟨h.noFault, h.jobs.congr rfl ?_ ?_ fun hv => absurd hv hadding, owing, holding, ?_, ?_⟩
  · rw [hhanded', hhanded, hnodes]
  · rw [henqueued', henqueued, hnodes]
  · exact (hl.moves hlisted hcreated).congr hnodes hfds hworks
  · exact hw.moves hnodes hcreated

/-- A step of a worker outside `proxy_conn`. -/
theorem Dispatched.poolStep {b : ThreadPool.Act num User Unit (Option Nat)} {p}
    (hs : Sound s.pool) (h : Dispatched s) (he : s.pool.Effect b p)
    (hstop : p.jpool.stop = false) (hb : OfWorker b) (hdestroy : ∀ i, b ≠ .destroyWork i) :
    Dispatched { s with pool := p } := by
  obtain ⟨owing, holding, hl, hw⟩ := h.lists
  exact ⟨h.noFault, h.jobs.poolStep hs hb he rfl rfl, owing, holding, hl,
    hw.poolStep hs he hstop hb hdestroy rfl rfl rfl⟩

theorem dispatched_step {a : ProxySystem.Act num} (hs : Sound s.pool) (hs' : Sound s'.pool)
    (hstop : s'.pool.jpool.stop = false) (h : Dispatched s) (ha : Serving a)
    (he : s.Effect a s') : Dispatched s' := by
  have hpool : ∀ {b p}, s.pool.step b = some p → s.pool.Effect b p :=
    fun hp => (ThreadPool.State.effect_of_step hp).2
  obtain ⟨owing, holding, hl, hw⟩ := h.lists
  cases he with
  | enters hp | skips _ hp | finishes hp =>
      exact h.poolStep hs (hpool hp) hstop True.intro (by simp)
  | @calls i p a c hi hp hc =>
      have hb : OfWorker (.run i) := True.intro
      exact ⟨h.noFault, h.jobs.poolStep hs hb (hpool hp) rfl rfl, owing, holding, hl,
        hw.calls hs hi (hpool hp) hstop hc⟩
  | callsNull hi hp hc => exact absurd hc (h.newConn_ne_none hs hi)
  | answers hi hn hk =>
      have hnodes := (Shared.effect_of_connCall hk).nodes
      obtain ⟨owing', holding', hl', hw'⟩ := hw.answers hs h.jobs hl hi hn hk
      refine ⟨h.noFault, h.jobs.congr rfl ?_ ?_ fun hm => ⟨hm, ?_⟩, owing', holding', hl', hw'⟩
      · unfold handed
        rw [← hnodes]
        rfl
      · unfold enqueued
        rw [← hnodes]
        rfl
      · rw [← hnodes]
  | nexts hi hn hstage =>
      exact ⟨h.noFault, h.jobs.congr rfl rfl rfl fun hm => ⟨hm, rfl⟩, owing, holding, hl,
        hw.nexts hi hn⟩
  | @leaves i c p hi hc hp =>
      have hb : OfWorker (.destroyWork i) := True.intro
      exact ⟨h.noFault, h.jobs.poolStep hs hb (hpool hp) rfl rfl, owing, holding, hl,
        hw.leaves hs (hpool hp) hstop⟩
  | checks hm | accepts hm | acceptFails hm | nonblockFails hm | tests hm | retests hm =>
      have hfree : Free s.main := by
        rw [hm]
        exact True.intro
      refine h.moves hfree ?_ rfl rfl rfl
      first
        | exact True.intro
        | (split <;> exact True.intro)
  | @lists fd conn hm =>
      refine ⟨h.noFault, h.jobs.congr rfl ?_ ?_ (by simp), owing, holding, ?_, ?_⟩
      · rw [handed, handed, hm]
      · rw [enqueued, enqueued, hm]
      · exact hl.lists
      · exact hw.moves rfl (by simp)
  | @creates fd conn garbage hm =>
      have hhanded : handed s = s.mem.nodes.length := by rw [handed, hm]
      refine ⟨h.noFault, h.jobs.congr rfl hhanded.symm ?_ (by simp), _, _, ?_,
        hw.creates h.jobs hhanded⟩
      · rw [enqueued, enqueued, hm]
      · exact (hm ▸ hl).creates
  | @adds w work p hm hp =>
      obtain ⟨hlen, hlast, -⟩ := hl.created w hm
      rw [hlast] at hp
      exact ⟨h.noFault, h.jobs.adds hm hlen (hpool hp), owing, holding,
        hl.moves (by simp) (by simp), hw.adds hs hl hm hstop (hpool hp)⟩
  | enqueues hm hp =>
      exact ⟨h.noFault, h.jobs.enqueues hm (hpool hp) hs'.noFault, owing, holding,
        hl.moves (by simp) (by simp), hw.enqueues hs hstop (hpool hp)⟩
  | finals hf => exact ha.elim

end Steps

/-! ## The sources in the order of their admission -/

section Admission

variable {num : UInt64} {s s' : System num} {l : List (Int × Nat)}

/-- The source that a step puts into `fd_list`. -/
def admits (s : System num) : ProxySystem.Act num → List (Int × Nat)
  | .listFd =>
    match s.main with
    | .admitted fd conn => [(fd, conn)]
    | _ => []
  | _ => []

/-- The source that is in `fd_list` and not yet in work data. -/
def inHand : MainPc → List (Int × Nat)
  | .listed fd conn => [(fd, conn)]
  | _ => []

/-- The connection that has been accepted and is not yet in `fd_list`. -/
def incoming : MainPc → Option Nat
  | .accepted _ conn | .spinning _ conn | .admitted _ conn => some conn
  | _ => none

/-- The admitted sources are those of the work data, in this order and each
once. -/
structure Admitted (s : System num) (l : List (Int × Nat)) : Prop where
  all : l = s.mem.nodes.map (fun n => (n.data.srcFd, n.conn)) ++ inHand s.main
  sorted : (l.map Prod.snd).Pairwise (· < ·)
  old : ∀ o ∈ l, o.2 < s.mem.accepted
  incoming : ∀ conn, incoming s.main = some conn →
    conn < s.mem.accepted ∧ ∀ o ∈ l, o.2 < conn

theorem admitted_start : Admitted (ProxySystem.start num) [] where
  all := rfl
  sorted := List.Pairwise.nil
  old o ho := absurd ho List.not_mem_nil
  incoming conn h := by cases h

theorem accepted_of_effect {m m' : Shared} {op : ConnCall} {r : Answer}
    (h : m.CallEffect op r m') : m'.accepted = m.accepted := by
  cases h with
  | closes =>
      unfold Shared.close
      split <;> rfl
  | _ => rfl

/-- A step that admits nobody and accepts nobody. -/
theorem Admitted.congr (h : Admitted s l) (hnodes : s'.mem.nodes = s.mem.nodes)
    (haccepted : s'.mem.accepted = s.mem.accepted) (hhand : inHand s'.main = inHand s.main)
    (hincoming : ∀ conn, ProxyDispatch.incoming s'.main = some conn →
      ProxyDispatch.incoming s.main = some conn) : Admitted s' l where
  all := by
    rw [hnodes, hhand]
    exact h.all
  sorted := h.sorted
  old := by
    rw [haccepted]
    exact h.old
  incoming conn hc := by
    rw [haccepted]
    exact h.incoming conn (hincoming conn hc)

/-- A step that puts nobody into `fd_list` notes nobody. -/
theorem Admitted.notes {a : ProxySystem.Act num} (h : Admitted s' l) (hnil : admits s a = []) :
    Admitted s' (l ++ admits s a) := by
  rw [hnil, List.append_nil]
  exact h

/-- `accept`. -/
theorem Admitted.accepts (h : Admitted s l) (hm : s.main = .accepting) :
    Admitted { s with main := .accepted s.mem.lowest s.mem.accepted, mem := s.mem.accept } l where
  all := by
    have hall := h.all
    rw [hm] at hall
    exact hall
  sorted := h.sorted
  old o ho := Nat.lt_succ_of_lt (h.old o ho)
  incoming := by
    rintro _ ⟨⟩
    exact ⟨Nat.lt_succ_self _, h.old⟩

/-- `dlist_int_add_node`. -/
theorem Admitted.lists {fd : Int} {conn : Nat} (h : Admitted s l)
    (hm : s.main = .admitted fd conn) :
    Admitted
      { s with
        main := .listed fd conn
        mem := { s.mem with fdList := s.mem.fdList ++ [fd] } } (l ++ [(fd, conn)]) := by
  obtain ⟨hlt, hbelow⟩ := h.incoming conn (by rw [hm]; rfl)
  constructor
  case all =>
    have hall := h.all
    rw [hm] at hall
    rw [hall]
    exact congrArg (· ++ _) (List.append_nil _)
  case sorted =>
    rw [List.map_append, List.pairwise_append]
    refine ⟨h.sorted, List.pairwise_singleton _ _, fun x hx y hy => ?_⟩
    obtain ⟨o, ho, rfl⟩ := List.mem_map.1 hx
    obtain rfl : y = conn := List.mem_singleton.1 hy
    exact hbelow o ho
  case old =>
    intro o ho
    rcases List.mem_append.1 ho with ho | ho
    · exact h.old o ho
    · rw [List.mem_singleton.1 ho]
      exact hlt
  case incoming => rintro _ ⟨⟩

/-- The work data are made with the number that was admitted. -/
theorem Admitted.creates {garbage : JpoolWorkData} {fd : Int} {conn : Nat} (h : Admitted s l)
    (hm : s.main = .listed fd conn) (hlast : s.mem.fdList.getLast? = some fd) :
    Admitted
      { s with main := .created s.mem.nodes.length, mem := s.mem.create garbage conn } l where
  all := by
    have hall := h.all
    rw [hm] at hall
    simp only [Shared.create, List.map_append, List.map_singleton, hlast, Option.getD_some,
      inHand, List.append_nil]
    exact hall
  sorted := h.sorted
  old := h.old
  incoming := by rintro _ ⟨⟩

theorem admitted_step {a : ProxySystem.Act num} (hd : Dispatched s) (h : Admitted s l)
    (ha : Serving a) (he : s.Effect a s') : Admitted s' (l ++ admits s a) := by
  cases he with
  | enters | calls | callsNull | skips | nexts | leaves | finishes =>
      refine Admitted.notes ?_ rfl
      exact h.congr rfl rfl rfl fun _ => id
  | answers hi hn hk =>
      have heffect := Shared.effect_of_connCall hk
      refine Admitted.notes ?_ rfl
      exact h.congr heffect.nodes (accepted_of_effect heffect) rfl fun _ => id
  | acceptFails hm | nonblockFails hm | adds hm | enqueues hm =>
      refine Admitted.notes ?_ rfl
      exact h.congr rfl rfl (by rw [hm]; rfl) (by rintro _ ⟨⟩)
  | checks hm =>
      refine Admitted.notes (h.congr rfl rfl ?_ ?_) rfl
      · rw [hm]
        dsimp only
        split <;> rfl
      · dsimp only
        split <;> rintro _ ⟨⟩
  | tests hm | retests hm =>
      refine Admitted.notes (h.congr rfl rfl ?_ ?_) rfl
      · rw [hm]
        dsimp only
        split <;> rfl
      · rw [hm]
        dsimp only
        split <;> exact fun _ => id
  | accepts hm => exact Admitted.notes (h.accepts hm) rfl
  | @lists fd conn hm =>
      rw [admits, hm]
      exact h.lists hm
  | @creates fd conn garbage hm =>
      obtain ⟨owing, holding, hl, -⟩ := hd.lists
      exact Admitted.notes (h.creates hm (hl.listed fd conn hm)) rfl
  | finals hf => exact ha.elim

/-! ## Every run -/

/-- The source of a work in the pool. -/
def sourceOf (s : System num) (work : Unit × Option Nat) : Option (Int × Nat) :=
  work.2.bind (origin s)

/-- At most one admitted source is not yet in the queue. -/
theorem Admitted.length_le (h : Admitted s l) (hd : Dispatched s) :
    enqueued s ≤ s.mem.nodes.length ∧ l.length ≤ enqueued s + 1 := by
  obtain ⟨owing, holding, hl, -⟩ := hd.lists
  rw [h.all, List.length_append, List.length_map]
  unfold enqueued
  cases hm : s.main with
  | created w =>
      obtain ⟨hlen, -⟩ := hl.created w hm
      simp only [inHand, List.length_nil]
      omega
  | _ =>
      simp only [inHand, List.length_nil, List.length_singleton]
      omega

/-- The works are queued in the order of admission. -/
theorem Admitted.added_eq (h : Admitted s l) (hd : Dispatched s) :
    s.pool.hist.added.map (sourceOf s) = (l.take (enqueued s)).map some := by
  have hle := (h.length_le hd).1
  have hargs : s.pool.hist.added.map (sourceOf s) =
      (s.pool.hist.added.map Prod.snd).map fun arg => arg.bind (origin s) := by
    rw [List.map_map]
    rfl
  have htake : l.take (enqueued s) =
      (s.mem.nodes.take (enqueued s)).map fun n => (n.data.srcFd, n.conn) := by
    rw [h.all, List.take_append_of_le_length (by rwa [List.length_map]), List.map_take]
  rw [hargs, hd.jobs.order, htake, List.map_map, List.map_map]
  refine List.ext_getElem (by simp [hle]) fun w hw hw' => ?_
  have hlt : w < s.mem.nodes.length := by
    rw [List.length_map, List.length_range] at hw
    omega
  simp [origin, hlt]

/-- Different work data are of different connections. -/
theorem Admitted.conn_inj (h : Admitted s l) {w w' : Nat} (hw : w < s.mem.nodes.length)
    (hw' : w' < s.mem.nodes.length) (hne : w ≠ w') :
    ∃ o o', origin s w = some o ∧ origin s w' = some o' ∧ o.2 ≠ o'.2 := by
  refine ⟨_, _, by rw [origin, List.getElem?_eq_getElem hw]; rfl,
    by rw [origin, List.getElem?_eq_getElem hw']; rfl, fun heq => hne ?_⟩
  have hsorted := h.sorted
  rw [h.all, List.map_append, List.map_map, List.pairwise_append] at hsorted
  have hnodup : (s.mem.nodes.map WorkNode.conn).Nodup := hsorted.1.imp Nat.ne_of_lt
  have hlen : (s.mem.nodes.map WorkNode.conn).length = s.mem.nodes.length := List.length_map _
  refine (@List.Nodup.getElem_inj_iff _ _ hnodup w (hlen ▸ hw) w' (hlen ▸ hw')).1 ?_
  simpa using heq

/-- **Every admitted source gets one worker.**  In every run of the main thread
and the workers no work is called without its data and no work is touched after
it has been freed; the works that are queued are those of the admitted sources
in the order of their admission, all but at most one of them, and the works that
workers have taken are the first of these; no source is admitted twice; and no
two workers serve the same one. -/
theorem admitted_get_one_worker
    (hr : Reach (recorded System.step admits) (fun _ => Serving) (ProxySystem.start num, [])
      (s, l)) :
    (s.fault = false ∧ s.pool.fault = false) ∧
      (∃ n, l.length ≤ n + 1 ∧ s.pool.hist.added.map (sourceOf s) = (l.take n).map some) ∧
      s.pool.hist.taken.map (fun t => sourceOf s t.2) <+: l.map some ∧
      (l.map Prod.snd).Pairwise (· < ·) ∧
      ∀ i j c c', s.conn i = some c → s.conn j = some c' → i ≠ j →
        ∃ o o', origin s c.work = some o ∧ origin s c'.work = some o' ∧ o.2 ≠ o'.2 := by
  have hsound : ∀ {s : System num}, Reach System.step (fun _ => Serving) (ProxySystem.start num) s →
      Sound s.pool ∧ s.pool.jpool.stop = false := fun hr =>
    ⟨pool_sound (fun _ _ => id) hr, running_reach (pool_reach (fun _ _ => id) hr)⟩
  obtain ⟨hd, hl⟩ : Dispatched s ∧ Admitted s l := by
    refine reach_invariant (I := fun t : System num × List (Int × Nat) =>
      Dispatched t.1 ∧ Admitted t.1 t.2) ?_ hr ⟨dispatched_start, admitted_start⟩
    rintro ⟨s, l⟩ a ⟨s', l'⟩ hr ⟨hd, hl⟩ ha hstep
    obtain ⟨hs, rfl⟩ := of_recorded hstep
    have he := System.effect_of_step hs
    have hrun := Reach.forget (C := fun _ => Serving) hr
    have hbefore := hsound hrun
    have hafter := hsound (hrun.tail ⟨a, ha, hs⟩)
    exact ⟨dispatched_step hbefore.1 hafter.1 hafter.2 hd ha he, admitted_step hd hl ha he⟩
  obtain ⟨hs, -⟩ := hsound (Reach.forget (C := fun _ => Serving) hr)
  have hadded := hl.added_eq hd
  refine ⟨⟨hd.noFault, hs.noFault⟩, ⟨enqueued s, (hl.length_le hd).2, hadded⟩, ?_, hl.sorted, ?_⟩
  · obtain ⟨ws, hws⟩ := hs.shape
    have htaken : s.pool.hist.taken.map (fun t => sourceOf s t.2) <+:
        s.pool.hist.added.map (sourceOf s) := by
      rw [← hws.order, List.map_append, List.map_map]
      exact List.prefix_append _ _
    rw [hadded] at htaken
    exact htaken.trans ((List.take_prefix _ l).map some)
  · intro i j c c' hi hj hij
    obtain ⟨owing, holding, hlists, hw⟩ := hd.lists
    have hlt : ∀ {i c}, s.conn i = some c → c.work < s.mem.nodes.length := by
      intro i c hi
      obtain ⟨a, -, hwork⟩ := hw.sync i c hi
      exact Nat.lt_of_lt_of_le (hd.jobs.lt a c.work hwork) (handed_le hlists)
    exact hl.conn_inj (hlt hi) (hlt hj) fun heq => hij (hw.apart hs hd.jobs hi hj heq)

/-- Two sources are admitted; one of them is served and the other one waits in
the queue. -/
theorem admitted_get_one_worker_pair :
    ∃ (s : System 2) (l : List (Int × Nat)), (l = [(6, 0), (11, 1)] ∧
      s.pool.hist.taken.map (fun t => sourceOf s t.2) = [some (6, 0)]) ∧
      (s.fault = false ∧ s.pool.fault = false) ∧
      s.pool.hist.taken.map (fun t => sourceOf s t.2) <+: l.map some := by
  obtain ⟨⟨s, l⟩, hr, hs⟩ := exists_reach_of_exec (recorded System.step admits)
    (fun _ => Serving) (ProxySystem.start 2, [])
    (registers 2 0 ++ opens 0 7 ++ wakes 0 6 ++ registers 2 1)
    (fun t => t.2 = [(6, 0), (11, 1)] ∧
      t.1.pool.hist.taken.map (fun u => sourceOf t.1 u.2) = [some (6, 0)])
    (by decide +kernel)
  obtain ⟨hfault, -, htaken, -⟩ := admitted_get_one_worker hr
  exact ⟨s, l, hs, hfault, htaken⟩

end Admission

end ZeroCopyProxy.Ports.ProxyDispatch
