import ZeroCopyProxy.Ports.ProxySystem

/-!
# How long a worker's data lives

The memory that a worker works with belongs to a node of `work_list`.  A worker
whose `proxy_check_fd` fails calls `proxy_delete_src_info`, which frees the
first node with its `src_fd`, and goes on to close the pipes in its own
(`ended_reads_freed_work`).  `proxy_final` frees nodes without asking who works
with them; it comes to them only if it found `fd_list` empty, so these are nodes
whose sources were registered or deleted meanwhile.

As long as no check fails and no source is registered behind the back of
`proxy_final`, no node is freed at all (`Kept`), so a worker's data outlives
its run.
-/

namespace ZeroCopyProxy.Ports.ProxyLifetime

open ZeroCopyProxy.Verified.Resumption
open ZeroCopyProxy.Verified.Liberal
open ZeroCopyProxy.Verified.Transitions
open ZeroCopyProxy.Ports.Posix
open ZeroCopyProxy.Ports.ThreadPool
open ZeroCopyProxy.Ports.ProxyConn
open ZeroCopyProxy.Ports.ProxySystem

variable {num : UInt64}

/-- The node that holds the work data of a worker in `proxy_conn` is not
freed. -/
def Outlives (s : System num) : Prop :=
  ∀ i c, s.conn i = some c → c.returned = false → c.work ∉ s.mem.freed

/-! ## The condition -/

/-- The worker is in `proxy_check_fd`. -/
def checks (s : System num) (i : Worker num) : Bool :=
  match s.conn i with
  | some ⟨_, _, .call _ (.sys (.getsockopt _)) _⟩ => true
  | _ => false

/-- Behind `dlist_int_destroy( proxy->fd_list)`. -/
def pastFds : FinalPc → Bool
  | .freesSecond | .freesFirst => true
  | _ => false

/-- No `proxy_check_fd` of a worker fails, and no source is put into `fd_list`
once a `proxy_final` is past it. -/
def Lasting (s : System num) : ProxySystem.Act num → Prop
  | .answer i r => checks s i = true → 0 ≤ r.ret
  | .listFd => pastFds (s.final .main) = false ∧ pastFds (s.final .handler) = false
  | _ => True

instance (s : System num) (a : ProxySystem.Act num) : Decidable (Lasting s a) :=
  match a with
  | .answer i r => inferInstanceAs (Decidable (checks s i = true → 0 ≤ r.ret))
  | .listFd => inferInstanceAs (Decidable (_ ∧ _))
  | .enter _ | .call _ | .next _ | .leave _ | .finish _ | .checkDst | .accept | .acceptFails
  | .nonblockFails | .test | .retest | .create _ | .addWork _ | .enqueue | .final _ =>
      .isTrue trivial

/-! ## A worker that deletes nothing -/

/-- An answered check has succeeded. -/
def Passes (_ : Unit) (_ : JpoolWorkData) (op : ConnCall) (r : Answer) (_ : Unit) : Prop :=
  ∀ fd, op = .sys (.getsockopt fd) → 0 ≤ r.ret

/-- The call leaves the lists of the proxy alone. -/
def OffLists (_ : Unit) (_ : JpoolWorkData) : ConnCall → Prop
  | .delFd _ | .findWork _ | .delWork _ => False
  | _ => True

section Worker

variable {α : Type} {Q : Unit → JpoolWorkData → α → Prop} {d : JpoolWorkData}

theorem wlp_processData (fd : Int) :
    wlp Passes OffLists (fun _ _ _ => True) (processData fd d) () := by
  unfold processData
  rw [wlp_zoom, wlp_hoist]
  exact wlp_of_forall (fun _ _ _ => True.intro) (fun _ _ _ => True.intro) _ _

theorem wlp_connEvents (fds : List Int) :
    wlp Passes OffLists (fun _ _ _ => True) (connEvents fds d) () := by
  induction fds generalizing d with
  | nil => exact True.intro
  | cons fd fds ih =>
      have hevent : wlp Passes OffLists (fun _ _ _ => True) (connEvent fd d) () := by
        unfold connEvent
        simp only [wlp_bind, wlp_state, wlp_ite, wlp_pure]
        exact ⟨fun _ => wlp_processData _,
          fun _ => ⟨fun _ => wlp_processData _, fun _ => True.intro⟩⟩
      unfold connEvents
      rw [wlp_bind]
      exact wlp_post (fun _ _ _ _ => ih) hevent

/-- `proxy_check_fd` succeeds. -/
theorem wlp_check {p q : ConnProg Stage} (fd : Int)
    (hq : wlp Passes OffLists (fun _ _ _ => True) (q d) ()) :
    wlp Passes OffLists (fun _ _ _ => True)
      ((proxyCheckFd fd >>= fun rv => if rv = fdErr then p else q) d) () := by
  unfold proxyCheckFd
  simp only [wlp_bind, wlp_prog_call, wlp_ite, wlp_pure]
  refine ⟨True.intro, fun r _ hpasses => ⟨fun hneg => ?_, fun _ => ⟨?_, fun _ => hq⟩⟩⟩
  · exact absurd hneg (Int.not_lt.2 (hpasses fd rfl))
  · exact fun herr => absurd herr (by decide)

theorem wlp_connRound : wlp Passes OffLists (fun _ _ _ => True) (connRound d) () := by
  unfold connRound
  rw [wlp_bind, wlp_state]
  refine wlp_check d.srcFd (wlp_check d.dstFd ?_)
  unfold connWait
  simp only [wlp_bind, wlp_prog_call, wlp_ite, wlp_pure]
  refine ⟨True.intro, fun r _ _ => ⟨fun _ => True.intro, fun _ => ⟨fun _ => True.intro, ?_⟩⟩⟩
  exact fun _ => wlp_connEvents r.ready

theorem wlp_connSetUp : wlp Passes OffLists (fun _ _ _ => True) (connSetUp d) () := by
  unfold connSetUp pipeOpen
  simp only [wlp_bind, wlp_update, wlp_prog_call, wlp_ite, wlp_pure, wlp_state, OffLists,
    implies_true, and_self]

/-- A worker whose checks succeed never comes to `proxy_delete_src_info`. -/
theorem wlp_proxyConn (stage : Stage) :
    wlp Passes OffLists (fun _ _ _ => True) (proxyConn stage d) () := by
  cases stage with
  | setUp => exact wlp_connSetUp
  | loops => exact wlp_connRound
  | closes =>
      unfold proxyConn connTearDown pipeClose
      simp only [wlp_bind, wlp_state, wlp_prog_call, wlp_pure, OffLists, implies_true,
        and_self]
  | returned => exact True.intro

end Worker

/-! ## No node is freed -/

/-- What is left of a stage leaves the lists alone. -/
def Quiet (c : Conn) : Prop := wlp Passes OffLists (fun _ _ _ => True) c.node ()

/-- Nothing is freed, and where `fd_list` is empty, as it stays behind a
`proxy_final`, no source has been registered. -/
structure Kept (s : System num) : Prop where
  unfreed : s.mem.freed = []
  quiet : ∀ i c, s.conn i = some c → Quiet c
  empty : s.mem.fdList = [] → s.mem.workList = [] ∧ ∀ fd conn, s.main ≠ .listed fd conn
  past : ∀ u, pastFds (s.final u) = true → s.mem.fdList = []

theorem kept_start : Kept (ProxySystem.start num) where
  unfreed := rfl
  quiet i c hi := by cases hi
  empty _ := ⟨rfl, fun _ _ hm => by cases hm⟩
  past u hu := by cases hu

section Steps

variable {s s' : System num}

/-- A step that leaves the lists alone. -/
theorem Kept.frame (h : Kept s)
    (hlists : s'.mem.fdList = s.mem.fdList ∧ s'.mem.workList = s.mem.workList ∧
      s'.mem.freed = s.mem.freed)
    (hquiet : ∀ i c, s'.conn i = some c → Quiet c)
    (hmain : ∀ fd conn, s'.main = .listed fd conn → s.main = .listed fd conn)
    (hpast : ∀ u, pastFds (s'.final u) = true → s.mem.fdList = []) : Kept s' := by
  obtain ⟨hfds, hworks, hfreed⟩ := hlists
  constructor
  case unfreed => rw [hfreed, h.unfreed]
  case quiet => exact hquiet
  case empty =>
    rw [hfds, hworks]
    intro hnil
    obtain ⟨hempty, hlisted⟩ := h.empty hnil
    exact ⟨hempty, fun fd conn hm => hlisted fd conn (hmain fd conn hm)⟩
  case past =>
    rw [hfds]
    exact hpast

/-- One of a worker. -/
theorem Kept.conns (h : Kept s) {i : Worker num} {o : Option Conn}
    (hlists : s'.mem.fdList = s.mem.fdList ∧ s'.mem.workList = s.mem.workList ∧
      s'.mem.freed = s.mem.freed)
    (hconn : s'.conn = Function.update s.conn i o) (hmain : s'.main = s.main)
    (hfinal : s'.final = s.final) (ho : ∀ c, o = some c → Quiet c) : Kept s' := by
  refine h.frame hlists ?_ (fun fd conn hm => hmain ▸ hm) (fun u hu => h.past u (hfinal ▸ hu))
  intro j c hj
  rw [hconn] at hj
  by_cases hji : j = i
  · subst hji
    rw [Function.update_self] at hj
    exact ho c hj
  · rw [Function.update_of_ne hji] at hj
    exact h.quiet j c hj

/-- One of the main thread. -/
theorem Kept.main (h : Kept s)
    (hlists : s'.mem.fdList = s.mem.fdList ∧ s'.mem.workList = s.mem.workList ∧
      s'.mem.freed = s.mem.freed)
    (hconn : s'.conn = s.conn) (hmain : ∀ fd conn, s'.main ≠ .listed fd conn)
    (hfinal : s'.final = s.final) : Kept s' :=
  h.frame hlists (fun i c hi => h.quiet i c (hconn ▸ hi))
    (fun fd conn hm => absurd hm (hmain fd conn)) (fun u hu => h.past u (hfinal ▸ hu))

/-- The calls of a worker. -/
theorem Kept.answers {i : Worker num} {c : Conn} {op : ConnCall} {d : JpoolWorkData}
    {r : Answer} {mem : Shared}
    {k : Answer → Res JpoolWorkData ConnCall Answer Stage} (h : Kept s)
    (hi : s.conn i = some c) (hn : c.node = .call d op k) (hk : s.mem.connCall op r = some mem)
    (ha : Lasting s (.answer i r)) :
    Kept { s.setConn i (some { c with node := k r }) with mem := mem } := by
  have hquiet := h.quiet i c hi
  rw [Quiet, hn, wlp_call] at hquiet
  obtain ⟨hoff, hrest⟩ := hquiet
  have hpasses : Passes () d op r () := by
    rintro fd rfl
    obtain ⟨work, stage, node⟩ := c
    cases hn
    refine ha ?_
    rw [checks, hi]
  refine h.conns ?_ rfl rfl rfl ?_
  · cases Shared.effect_of_connCall hk with
    | closes => exact (s.mem.close_lists _).2
    | keeps | opens => exact ⟨rfl, rfl, rfl⟩
    | unlists | frees => exact hoff.elim
  · rintro _ ⟨⟩
    exact hrest r () hpasses

theorem closeChecked_same (s : System num) (fd : Int) :
    ((s.closeChecked fd).mem.fdList = s.mem.fdList ∧
      (s.closeChecked fd).mem.workList = s.mem.workList ∧
      (s.closeChecked fd).mem.freed = s.mem.freed) ∧
      (s.closeChecked fd).conn = s.conn ∧ (s.closeChecked fd).main = s.main ∧
      (s.closeChecked fd).final = s.final := by
  unfold System.closeChecked
  split
  · exact ⟨(s.mem.close_lists fd).2, rfl, rfl, rfl⟩
  · exact ⟨⟨rfl, rfl, rfl⟩, rfl, rfl, rfl⟩

/-- A step of `proxy_final` that leaves the lists alone. -/
theorem Kept.setFinal (h : Kept s) {u : User} {pc : FinalPc}
    (hlists : s'.mem.fdList = s.mem.fdList ∧ s'.mem.workList = s.mem.workList ∧
      s'.mem.freed = s.mem.freed)
    (hconn : s'.conn = s.conn) (hmain : s'.main = s.main)
    (hfinal : s'.final = Function.update s.final u pc)
    (hpast : pastFds pc = true → s.mem.fdList = []) : Kept s' := by
  refine h.frame hlists (fun i c hi => h.quiet i c (hconn ▸ hi)) (fun fd conn hm => hmain ▸ hm) ?_
  intro v hv
  rw [hfinal] at hv
  by_cases hvu : v = u
  · subst hvu
    rw [Function.update_self] at hv
    exact hpast hv
  · rw [Function.update_of_ne hvu] at hv
    exact h.past v hv

/-- `proxy_final` finds `fd_list` empty, or it does not get past it. -/
theorem Kept.finals {u : User} (h : Kept s) (hf : s.finalStep u = some s') : Kept s' := by
  have hfault : Kept { s with fault := true } := ⟨h.unfreed, h.quiet, h.empty, h.past⟩
  unfold System.finalStep at hf
  split at hf
  · split at hf
    · split at hf
      · cases hf
        exact hfault
      · cases hf
        exact h.setFinal ⟨rfl, rfl, rfl⟩ rfl rfl rfl (by rintro ⟨⟩)
    · cases hf
  · cases hf
    obtain ⟨hlists, hconn, hmain, hfinal⟩ := closeChecked_same s listenFd
    have hmoved : ((s.closeChecked listenFd).setFinal u .closesDst).final =
        Function.update s.final u .closesDst := by
      rw [System.setFinal, hfinal]
    exact h.setFinal hlists hconn hmain hmoved (by rintro ⟨⟩)
  · cases hf
    obtain ⟨hlists, hconn, hmain, hfinal⟩ := closeChecked_same s dstFd
    have hmoved : ((s.closeChecked dstFd).setFinal u .destroysFds).final =
        Function.update s.final u .destroysFds := by
      rw [System.setFinal, hfinal]
    exact h.setFinal hlists hconn hmain hmoved (by rintro ⟨⟩)
  · split at hf
    · next hnil =>
        cases hf
        exact h.setFinal ⟨rfl, rfl, rfl⟩ rfl rfl rfl fun _ => hnil
    · cases hf
      exact hfault
  · next hu =>
      have hnil := h.past u (by rw [hu]; rfl)
      rw [(h.empty hnil).1] at hf
      cases hf
      exact h.setFinal ⟨rfl, rfl, rfl⟩ rfl rfl rfl fun _ => hnil
  · next hu =>
      have hnil := h.past u (by rw [hu]; rfl)
      rw [(h.empty hnil).1] at hf
      cases hf
      exact hfault

theorem kept_step {a : ProxySystem.Act num} (h : Kept s) (ha : Lasting s a)
    (he : s.Effect a s') : Kept s' := by
  cases he with
  | enters | callsNull | skips | finishes => exact ⟨h.unfreed, h.quiet, h.empty, h.past⟩
  | @calls i p b c hi hp hc =>
      refine h.conns (i := i) (o := some c) ⟨rfl, rfl, rfl⟩ rfl rfl rfl ?_
      rintro _ ⟨⟩
      obtain ⟨w, -, hnode⟩ := Option.bind_eq_some_iff.1 hc
      obtain ⟨node, -, rfl⟩ := Option.map_eq_some_iff.1 hnode
      exact wlp_proxyConn .setUp
  | answers hi hn hk => exact h.answers hi hn hk ha
  | nexts hi hn hstage =>
      refine h.conns ⟨rfl, rfl, rfl⟩ rfl rfl rfl ?_
      rintro _ ⟨⟩
      exact wlp_proxyConn _
  | leaves => exact h.conns ⟨rfl, rfl, rfl⟩ rfl rfl rfl (by rintro _ ⟨⟩)
  | checks | accepts | acceptFails | nonblockFails | tests | retests | adds | enqueues =>
      refine h.main ⟨rfl, rfl, rfl⟩ rfl ?_ rfl
      intro fd conn hm
      first
        | cases hm
        | (dsimp only at hm
           split at hm <;> cases hm)
  | lists hm =>
      refine ⟨h.unfreed, h.quiet, fun hnil => ?_, fun u hu => ?_⟩
      · exact absurd hnil (by simp)
      · cases u with
        | main => exact absurd (ha.1.symm.trans hu) (by simp)
        | handler => exact absurd (ha.2.symm.trans hu) (by simp)
  | @creates fd conn garbage hm =>
      refine ⟨h.unfreed, h.quiet, fun hnil => ?_, h.past⟩
      exact absurd hm ((h.empty hnil).2 fd conn)
  | finals hf => exact h.finals hf

end Steps

theorem kept_reach {s : System num}
    (hr : Reach System.step Lasting (ProxySystem.start num) s) : Kept s := by
  refine reach_invariant (I := Kept) ?_ hr kept_start
  intro s a s' _ h ha hs
  exact kept_step h ha (System.effect_of_step hs)

/-! ## Every run -/

/-- The answer to a call of a worker. -/
theorem step_answer {s : System num} {i : Worker num} {w : Nat} {stage : Stage} {op : ConnCall}
    {d : JpoolWorkData} {k : Answer → Res JpoolWorkData ConnCall Answer Stage}
    (hfault : s.fault = false) (hi : s.conn i = some ⟨w, stage, .call d op k⟩) {r : Answer}
    {mem : Shared} (hk : s.mem.connCall op r = some mem) :
    ∃ s', Step System.step unconditional s s' ∧ s'.fault = false ∧
      s'.conn i = some ⟨w, stage, k r⟩ ∧ s'.mem = mem := by
  refine ⟨{ s.setConn i (some ⟨w, stage, k r⟩) with mem := mem }, ⟨.answer i r, True.intro, ?_⟩,
    hfault, Function.update_self _ _ _, rfl⟩
  simp [System.step, System.act, System.answerStep, hfault, hi, hk]

/-- **A worker whose source is gone, and whose entry is the first one with its
`src_fd`, may go on to free the memory from which it then reads the pipes to
close.** -/
theorem ended_reads_freed_work {s : System num} {i : Worker num} {w : Nat}
    {d : JpoolWorkData} (hfault : s.fault = false)
    (hi : s.conn i = some ⟨w, .loops, connRound d⟩)
    (hgone : s.mem.checkFd d.srcFd = false) (hfind : s.mem.findWork d.srcFd = some w) :
    ∃ s', Reach System.step unconditional s s' ∧ ¬ Outlives s' := by
  have hw : w ∈ s.mem.workList := List.mem_of_find?_eq_some hfind
  have hcheck : s.mem.connCall (.sys (.getsockopt d.srcFd)) (.fail (.other 9)) = some s.mem := by
    simp [Shared.connCall, hgone, Answer.fail]
  obtain ⟨s₁, hs₁, hfault₁, hi₁, hm₁⟩ := step_answer hfault hi hcheck
  have hdel : s₁.mem.connCall (.delFd d.srcFd) (.count 0) =
      some { s.mem with fdList := s.mem.fdList.erase d.srcFd } := by
    simp [Shared.connCall, Answer.count, normal, hm₁]
  obtain ⟨s₂, hs₂, hfault₂, hi₂, hm₂⟩ := step_answer hfault₁ hi₁ hdel
  have hfound : s₂.mem.connCall (.findWork d.srcFd) (.count w) = some s₂.mem := by
    have hfind₂ : s₂.mem.findWork d.srcFd = some w := by
      rw [hm₂]
      exact hfind
    simp [Shared.connCall, Answer.count, hfind₂]
  obtain ⟨s₃, hs₃, hfault₃, hi₃, hm₃⟩ := step_answer hfault₂ hi₂ hfound
  have hfree : s₃.mem.connCall (.delWork w) (.count 0) = some (s₃.mem.freeWork w) := by
    have hw₃ : w ∈ s₃.mem.workList := by
      rw [hm₃, hm₂]
      exact hw
    simp [Shared.connCall, hw₃]
  obtain ⟨s₄, hs₄, -, hi₄, hm₄⟩ := step_answer hfault₃ hi₃ hfree
  refine ⟨s₄, (((Relation.ReflTransGen.single hs₁).tail hs₂).tail hs₃).tail hs₄, fun hsafe => ?_⟩
  refine hsafe i _ hi₄ rfl ?_
  rw [hm₄]
  exact List.mem_append_right _ (List.mem_singleton_self w)

end ZeroCopyProxy.Ports.ProxyLifetime
