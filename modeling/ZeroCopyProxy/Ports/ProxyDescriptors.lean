import ZeroCopyProxy.Ports.ProxySystem

/-!
# Whose socket a worker works on

`proxy_process_data` closes `src_fd` when the source has ended, and the worker
asks `getsockopt` only at the top of its next round whether the number is
still valid.  Between the two the main thread may accept a source, which gets
the number just closed; the worker then goes on with the new source's socket.

A number is bound to a connection from `accept` until the worker that serves
the connection leaves its loop.  If no number is given out while it is bound,
what a bound number denotes is its own connection, or nothing any more, and
whatever a worker does with its `src_fd` happens to its own source.
-/

namespace ZeroCopyProxy.Ports.ProxyDescriptors

open ZeroCopyProxy.Verified.Resumption
open ZeroCopyProxy.Verified.Liberal
open ZeroCopyProxy.Verified.LinkedHeap
open ZeroCopyProxy.Verified.Transitions
open ZeroCopyProxy.Ports.Posix
open ZeroCopyProxy.Ports.ThreadPool
open ZeroCopyProxy.Ports.PoolQueue
open ZeroCopyProxy.Ports.ProxyConn
open ZeroCopyProxy.Ports.ProxySystem

variable {num : UInt64}

/-! ## Bound numbers -/

/-- The worker that runs the work in this cell has left the loop of
`proxy_conn`. -/
def leftLoop (s : System num) (a : Addr) : Bool :=
  decide (∃ i, s.pool.worker i = .running a ∧ (s.conn i).any (fun c => !c.inLoop) = true)

/-- The pool has a work with this work data that has not left its loop. -/
structure Live (s : System num) (a : Addr) (w : Nat) : Prop where
  job : s.jobData a = some w
  loop : leftLoop s a = false

/-- The `src_fd` of a work data and the connection it was made for. -/
def origin (s : System num) (w : Nat) : Option (Int × Nat) :=
  (s.mem.nodes[w]?).map fun n => (n.data.srcFd, n.conn)

/-- The descriptor that the main thread has accepted and not handed over. -/
def mainHolds (s : System num) : Option (Int × Nat) :=
  match s.main with
  | .accepted fd conn | .spinning fd conn | .admitted fd conn | .listed fd conn =>
      some (fd, conn)
  | .created w => origin s w
  | _ => none

/-- The number is in use for this connection. -/
inductive Bound (s : System num) (fd : Int) (conn : Nat) : Prop
  | main (h : mainHolds s = some (fd, conn))
  | work {a : Addr} {w : Nat} (hl : Live s a w) (ho : origin s w = some (fd, conn))

/-- The numbers that are in use. -/
def boundFds (s : System num) : List Int :=
  (mainHolds s).toList.map Prod.fst ++
    (s.pool.works.cells.map Prod.fst).filterMap fun a =>
      if leftLoop s a then none else ((s.jobData a).bind (origin s)).map Prod.fst

theorem Bound.mem {s : System num} {fd : Int} {conn : Nat} (h : Bound s fd conn) :
    fd ∈ boundFds s := by
  cases h with
  | main h =>
      rw [boundFds, h]
      exact List.mem_append_left _ (List.mem_singleton_self fd)
  | @work a w hl ho =>
      refine List.mem_append_right _ (List.mem_filterMap.2 ⟨a, ?_, ?_⟩)
      · obtain ⟨node, hnode, -⟩ := Option.bind_eq_some_iff.1 hl.job
        exact Heap.mem_of_get hnode
      · rw [hl.loop, hl.job, Option.bind_some, ho]
        rfl

/-- The worker waits for an answer of `pipe`. -/
def asksPipe (s : System num) (i : Worker num) : Bool :=
  (s.conn i).any fun c => c.node.waits == some .pipe

/-- Nobody runs `proxy_final`, and no number is given out that is in use. -/
def FreshNumbers (s : System num) : ProxySystem.Act num → Prop
  | .accept => (s.mem.lowest : Int) ∉ boundFds s
  | .answer i r => asksPipe s i = true → r.ret < 0 ∨
      (s.mem.lowest : Int) ∉ boundFds s ∧ (s.mem.fillPipe.lowest : Int) ∉ boundFds s
  | a => Serving a

instance (s : System num) (a : ProxySystem.Act num) : Decidable (FreshNumbers s a) :=
  match a with
  | .accept => inferInstanceAs (Decidable ((s.mem.lowest : Int) ∉ boundFds s))
  | .answer i r => inferInstanceAs (Decidable (asksPipe s i = true → r.ret < 0 ∨
      (s.mem.lowest : Int) ∉ boundFds s ∧ (s.mem.fillPipe.lowest : Int) ∉ boundFds s))
  | .final _ => .isFalse id
  | .enter _ | .call _ | .next _ | .leave _ | .finish _ | .checkDst | .acceptFails
  | .nonblockFails | .test | .retest | .listFd | .create _ | .addWork _ | .enqueue =>
      .isTrue trivial

/-- What is left of a stage touches only entries with this `src_fd`. -/
def RunsFor (fd : Int) (srcFds : List Int) (c : Conn) : Prop :=
  ∀ w, srcFds <+: w → wlp ListsAnswer (OwnEntries fd c.stage) (Ends fd c.stage) c.node w

/-- Bound numbers denote their own connections, the main thread's number is
bound to nobody else, and the workers are where the pool has them. -/
structure Owned (s : System num) : Prop where
  table : ∀ fd conn, Bound s fd conn →
    s.mem.desc fd = none ∨ s.mem.desc fd = some (.source conn)
  apart : ∀ fd conn, mainHolds s = some (fd, conn) →
    ∀ a w fd' conn', Live s a w → origin s w = some (fd', conn') → fd' ≠ fd
  listed : ∀ fd conn, s.main = .listed fd conn → s.mem.fdList.getLast? = some fd
  created : ∀ w, s.main = .created w →
    s.mem.workList.getLast? = some w ∧ w < s.mem.nodes.length
  cells : ∀ a w, s.jobData a = some w → w < s.mem.nodes.length
  sync : ∀ i c, s.conn i = some c →
    ∃ a, s.pool.worker i = .running a ∧ s.jobData a = some c.work
  runs : ∀ i c, s.conn i = some c →
    ∃ o, origin s c.work = some o ∧ RunsFor o.1 s.mem.srcFds c

/-- A step that binds nothing and leaves the work data: what is left to show is
what happens to bound numbers, to the lists and to the workers. -/
theorem Owned.frame {s s' : System num} (h : Owned s) (hnodes : s'.mem.nodes = s.mem.nodes)
    (hlive : ∀ a w, Live s' a w → Live s a w)
    (hcells : ∀ a w, s'.jobData a = some w → s.jobData a = some w)
    (hmain : ∀ o, mainHolds s' = some o → mainHolds s = some o)
    (hdesc : ∀ fd conn, Bound s fd conn →
      s'.mem.desc fd = s.mem.desc fd ∨ s'.mem.desc fd = none)
    (hlisted : ∀ fd conn, s'.main = .listed fd conn → s'.mem.fdList.getLast? = some fd)
    (hcreated : ∀ w, s'.main = .created w → s'.mem.workList.getLast? = some w ∧
      w < s'.mem.nodes.length)
    (hsync : ∀ i c, s'.conn i = some c →
      ∃ a, s'.pool.worker i = .running a ∧ s'.jobData a = some c.work)
    (hruns : ∀ i c, s'.conn i = some c →
      ∃ o, origin s' c.work = some o ∧ RunsFor o.1 s'.mem.srcFds c) : Owned s' := by
  have horigin : origin s' = origin s := by
    unfold origin
    rw [hnodes]
  constructor
  case table =>
    intro fd conn hb
    have hbefore : Bound s fd conn := by
      cases hb with
      | main hm => exact .main (hmain _ hm)
      | work hl ho => exact .work (hlive _ _ hl) (horigin ▸ ho)
    rcases hdesc fd conn hbefore with heq | hnone
    · rw [heq]
      exact h.table fd conn hbefore
    · exact .inl hnone
  case apart =>
    intro fd conn hm a w fd' conn' hl ho
    exact h.apart fd conn (hmain _ hm) a w fd' conn' (hlive a w hl) (horigin ▸ ho)
  case listed => exact hlisted
  case created => exact hcreated
  case cells =>
    intro a w hw
    rw [hnodes]
    exact h.cells a w (hcells a w hw)
  case sync => exact hsync
  case runs => exact hruns

/-! ## Steps of the pool -/

section PoolStep

variable {s s' : System num} {b : ThreadPool.Act num User Unit (Option Nat)}

/-- A worker that goes on running its work goes on with the same work data. -/
theorem jobData_held (hs : Sound s.pool) (he : s.pool.Effect b s'.pool)
    (hstop : s'.pool.jpool.stop = false) {i : Worker num} {a : Addr}
    (hi : heldBy (s.pool.worker i) = some a) (hi' : heldBy (s'.pool.worker i) = some a) :
    s'.jobData a = s.jobData a := by
  rw [System.jobData_eq, System.jobData_eq, State.works, job_held hs he hstop hi hi']

/-- Workers that have left their loops stay so. -/
theorem leftLoop_kept (he : s.pool.Effect b s'.pool) (hb : ∀ i, b ≠ .destroyWork i)
    (hconn : ∀ i a, s.pool.worker i = .running a → s'.conn i = s.conn i) {a : Addr}
    (h : leftLoop s a = true) : leftLoop s' a = true := by
  obtain ⟨i, hi, hc⟩ := of_decide_eq_true h
  refine decide_eq_true ⟨i, running_kept he hi (hb i), ?_⟩
  rw [hconn i a hi]
  exact hc

theorem live_of_effect (he : s.pool.Effect b s'.pool)
    (hadd : ∀ k f arg x, b ≠ .addWork k f arg x) (hdestroy : ∀ i, b ≠ .destroyWork i)
    (hconn : ∀ i a, s.pool.worker i = .running a → s'.conn i = s.conn i) {a : Addr} {w : Nat}
    (h : Live s' a w) : Live s a w where
  job := System.jobData_of_effect he hadd h.job
  loop := by
    rw [Bool.eq_false_iff]
    intro hleft
    exact absurd (leftLoop_kept he hdestroy hconn hleft) (by simp [h.loop])

/-- A worker in `proxy_conn` is still in it after a step of the pool. -/
theorem sync_of_effect (hs : Sound s.pool) (h : Owned s) (he : s.pool.Effect b s'.pool)
    (hstop : s'.pool.jpool.stop = false) {i : Worker num} {c : Conn} (hi : s.conn i = some c)
    (hb : b ≠ .destroyWork i) :
    ∃ a, s'.pool.worker i = .running a ∧ s'.jobData a = some c.work := by
  obtain ⟨a, ha, hw⟩ := h.sync i c hi
  have ha' := running_kept he ha hb
  refine ⟨a, ha', ?_⟩
  rw [jobData_held hs he hstop (by rw [ha]; rfl) (by rw [ha']; rfl), hw]

/-- A step of the pool that neither adds nor destroys a work, and after which
the main thread holds nothing new. -/
theorem Owned.poolStep (hs : Sound s.pool) (h : Owned s) (he : s.pool.Effect b s'.pool)
    (hstop : s'.pool.jpool.stop = false) (hadd : ∀ k f arg x, b ≠ .addWork k f arg x)
    (hdestroy : ∀ i, b ≠ .destroyWork i) (hconn : s'.conn = s.conn) (hmem : s'.mem = s.mem)
    (hmain : s'.main = s.main ∨ s'.main = .checking) : Owned s' := by
  have hholds : ∀ o, mainHolds s' = some o → mainHolds s = some o := by
    intro o ho
    rcases hmain with hm | hm
    · simp only [mainHolds, origin, hm, hmem] at ho ⊢
      exact ho
    · simp only [mainHolds, hm] at ho
      cases ho
  apply h.frame
  case hnodes => rw [hmem]
  case hlive => exact fun a w => live_of_effect he hadd hdestroy fun i _ _ => by rw [hconn]
  case hcells => exact fun a w => System.jobData_of_effect he hadd
  case hmain => exact hholds
  case hdesc => exact fun fd conn _ => .inl (by rw [hmem])
  case hlisted =>
    intro fd conn hm'
    rw [hmem]
    exact h.listed fd conn ((hmain.resolve_right (by rw [hm']; simp)).symm.trans hm')
  case hcreated =>
    intro w hm'
    rw [hmem]
    exact h.created w ((hmain.resolve_right (by rw [hm']; simp)).symm.trans hm')
  case hsync =>
    intro i c hi
    rw [hconn] at hi
    exact sync_of_effect hs h he hstop hi (hdestroy i)
  case hruns =>
    intro i c hi
    rw [hconn] at hi
    rw [origin, hmem]
    exact h.runs i c hi

end PoolStep

/-! ## Steps of a worker in `proxy_conn` -/

section WorkerStep

variable {s : System num} {i : Worker num} {c : Conn}

/-- The work of a worker in its loop has not left it. -/
theorem Owned.live (hs : Sound s.pool) (h : Owned s) (hi : s.conn i = some c)
    (hc : c.inLoop = true) : ∃ a, Live s a c.work := by
  obtain ⟨a, ha, hw⟩ := h.sync i c hi
  refine ⟨a, hw, ?_⟩
  rw [leftLoop, decide_eq_false_iff_not]
  rintro ⟨j, hj, hleft⟩
  obtain ⟨ws, hws⟩ := hs.shape
  have hij : Owner.worker (κ := User) j = .worker i :=
    hws.excl _ _ a (holds_of_worker hj rfl) (holds_of_worker ha rfl)
  cases hij
  rw [hi, Option.any_some, hc] at hleft
  exact absurd hleft (by decide)

/-- The main thread's number is not the `src_fd` of a worker in its loop. -/
theorem Owned.apart_conn (hs : Sound s.pool) (h : Owned s) (hi : s.conn i = some c)
    (hc : c.inLoop = true) {o : Int × Nat} (ho : origin s c.work = some o) {fd : Int}
    {conn : Nat} (hm : mainHolds s = some (fd, conn)) : o.1 ≠ fd := by
  obtain ⟨a, hl⟩ := h.live hs hi hc
  exact h.apart fd conn hm a c.work o.1 o.2 hl ho

/-- A stage that goes on only moves a worker further. -/
theorem live_of_setConn {mem : Shared} {c' : Conn} (hi : s.conn i = some c)
    (hc : c.inLoop = false → c'.inLoop = false) {a : Addr} {w : Nat}
    (h : Live { s.setConn i (some c') with mem := mem } a w) : Live s a w where
  job := h.job
  loop := by
    rw [Bool.eq_false_iff]
    intro hleft
    obtain ⟨j, hj, hout⟩ := of_decide_eq_true hleft
    have hstill : leftLoop { s.setConn i (some c') with mem := mem } a = true := by
      refine decide_eq_true ⟨j, hj, ?_⟩
      show (Function.update s.conn i (some c') j).any _ = true
      by_cases hji : j = i
      · subst hji
        rw [hi, Option.any_some, Bool.not_eq_true'] at hout
        rw [Function.update_self, Option.any_some, hc hout]
        rfl
      · rw [Function.update_of_ne hji]
        exact hout
    exact absurd hstill (by simp [h.loop])

/-- The workers after one of them has moved. -/
theorem setConn_cases {o : Option Conn} {j : Worker num} {cj : Conn}
    (hj : Function.update s.conn i o j = some cj) :
    j = i ∧ o = some cj ∨ j ≠ i ∧ s.conn j = some cj := by
  by_cases hji : j = i
  · subst hji
    rw [Function.update_self] at hj
    exact .inl ⟨rfl, hj⟩
  · rw [Function.update_of_ne hji] at hj
    exact .inr ⟨hji, hj⟩

/-- A step of a worker inside `proxy_conn`, which leaves the pool and the main
thread alone. -/
theorem Owned.connStep {mem : Shared} {c' : Conn} (h : Owned s) (hi : s.conn i = some c)
    (hwork : c'.work = c.work) (hc : c.inLoop = false → c'.inLoop = false)
    (hnodes : mem.nodes = s.mem.nodes)
    (hdesc : ∀ fd conn, Bound s fd conn → mem.desc fd = s.mem.desc fd ∨ mem.desc fd = none)
    (hlisted : ∀ fd conn, s.main = .listed fd conn → mem.fdList.getLast? = some fd)
    (hcreated : ∀ w, s.main = .created w → mem.workList.getLast? = some w)
    (hruns : ∀ o, origin s c.work = some o → RunsFor o.1 s.mem.srcFds c →
      RunsFor o.1 s.mem.srcFds c') : Owned { s.setConn i (some c') with mem := mem } := by
  have hsrc : mem.srcFds = s.mem.srcFds := by
    rw [Shared.srcFds, Shared.srcFds, hnodes]
  apply h.frame
  case hnodes => exact hnodes
  case hlive => exact fun a w => live_of_setConn hi hc
  case hcells => exact fun a w hw => hw
  case hmain =>
    intro o ho
    simpa [mainHolds, origin, System.setConn, hnodes] using ho
  case hdesc => exact hdesc
  case hlisted => exact hlisted
  case hcreated =>
    intro w hw
    refine ⟨hcreated w hw, ?_⟩
    show w < mem.nodes.length
    rw [hnodes]
    exact (h.created w hw).2
  case hsync =>
    intro j cj hj
    rcases setConn_cases hj with ⟨rfl, hself⟩ | ⟨-, hj⟩
    · cases hself
      rw [hwork]
      exact h.sync j c hi
    · exact h.sync j cj hj
  case hruns =>
    intro j cj hj
    show ∃ o, (mem.nodes[cj.work]?).map (fun n => (n.data.srcFd, n.conn)) = some o ∧
      RunsFor o.1 mem.srcFds cj
    rw [hnodes, hsrc]
    rcases setConn_cases hj with ⟨rfl, hself⟩ | ⟨-, hj⟩
    · cases hself
      obtain ⟨o, ho, hrun⟩ := h.runs j c hi
      rw [hwork]
      exact ⟨o, ho, hruns o ho hrun⟩
    · exact h.runs j cj hj

theorem getLast?_erase {α : Type} [DecidableEq α] {l : List α} {a b : α}
    (h : l.getLast? = some b) (hne : a ≠ b) : (l.erase a).getLast? = some b := by
  obtain ⟨init, rfl⟩ := List.getLast?_eq_some_iff.1 h
  rw [List.erase_append]
  split
  · exact List.getLast?_concat
  · rw [List.erase_of_not_mem (by simpa using hne)]
    exact List.getLast?_concat

theorem inLoop_call {d : JpoolWorkData} {op : ConnCall}
    {k : Answer → Res JpoolWorkData ConnCall Answer Stage} (hn : c.node = .call d op k)
    (hstage : c.stage = .loops) : c.inLoop = true := by
  rw [Conn.inLoop, hn, hstage]
  rfl

/-- The entries a worker deletes are its own, so the main thread finds what it
put at the end of each list. -/
theorem Owned.answers {d : JpoolWorkData} {op : ConnCall}
    {k : Answer → Res JpoolWorkData ConnCall Answer Stage} {r : Answer} {mem : Shared}
    (hs : Sound s.pool) (h : Owned s) (hi : s.conn i = some c) (hn : c.node = .call d op k)
    (hk : s.mem.connCall op r = some mem) (hfresh : FreshNumbers s (.answer i r)) :
    Owned { s.setConn i (some { c with node := k r }) with mem := mem } := by
  have heffect := Shared.effect_of_connCall hk
  obtain ⟨o, ho, hrun⟩ := h.runs i c hi
  have hcall := hrun s.mem.srcFds List.prefix_rfl
  rw [hn, wlp_call] at hcall
  obtain ⟨hown, hrest⟩ := hcall
  apply h.connStep hi
  case hwork => rfl
  case hc =>
    intro hout
    rw [Conn.inLoop, hn] at hout
    rw [Conn.inLoop, Bool.and_eq_false_iff]
    rw [Bool.and_true] at hout
    exact .inl hout
  case hnodes => exact heffect.nodes
  case hdesc =>
    intro fd conn hb
    cases heffect with
    | closes => exact s.mem.desc_close _ fd
    | opens hret =>
        have hasks : asksPipe s i = true := by
          rw [asksPipe, hi, Option.any_some, hn]
          rfl
        obtain ⟨hfirst, hsecond⟩ := (hfresh hasks).resolve_left hret
        have hne : fd ≠ (s.mem.lowest : Int) := fun heq => hfirst (heq ▸ hb.mem)
        have hne' : fd ≠ (s.mem.fillPipe.lowest : Int) := fun heq => hsecond (heq ▸ hb.mem)
        refine .inl ?_
        rw [Shared.fillPipe, Shared.desc_fill, if_neg hne', Shared.fillPipe, Shared.desc_fill,
          if_neg hne]
    | _ => exact .inl rfl
  case hlisted =>
    intro fd conn hm
    have hlast := h.listed fd conn hm
    cases heffect with
    | closes => rw [(s.mem.close_lists _).2.1, hlast]
    | unlists =>
        have hholds : mainHolds s = some (fd, conn) := by rw [mainHolds, hm]
        have hne := h.apart_conn hs hi (inLoop_call hn hown.1) ho hholds
        rw [← hown.2] at hne
        exact getLast?_erase hlast hne
    | _ => exact hlast
  case hcreated =>
    intro w hm
    obtain ⟨hlast, hlt⟩ := h.created w hm
    cases heffect with
    | closes => rw [(s.mem.close_lists _).2.2.1, hlast]
    | @frees x _ hx =>
        refine getLast?_erase hlast fun hxw => ?_
        have hsrc := hown.2
        rw [hxw, Shared.srcFds, List.getElem?_map] at hsrc
        obtain ⟨n, hnode, hfd⟩ := Option.map_eq_some_iff.1 hsrc
        have hholds : mainHolds s = some (o.1, n.conn) := by
          rw [mainHolds, hm]
          show (s.mem.nodes[w]?).map _ = _
          rw [hnode, Option.map_some, hfd]
        exact h.apart_conn hs hi (inLoop_call hn hown.1) ho hholds rfl
    | _ => exact hlast
  case hruns =>
    intro o' ho' _ w hw
    obtain rfl : o' = o := Option.some.inj (ho'.symm.trans ho)
    refine hrest r w ⟨hw, fun fd hop hret => ?_⟩
    cases heffect with
    | keeps hfind =>
        have hfound := Shared.srcFds_of_findWork (hfind fd hop hret)
        obtain ⟨rest, rfl⟩ := hw
        obtain ⟨hlt, -⟩ := List.getElem?_eq_some_iff.1 hfound
        rw [List.getElem?_append_left hlt, hfound]
    | _ => cases hop

/-- The next stage begins. -/
theorem Owned.nexts {d : JpoolWorkData} {stage : Stage} (h : Owned s) (hi : s.conn i = some c)
    (hn : c.node = .done d stage) (hstage : stage ≠ .returned) :
    Owned (s.setConn i (some ⟨c.work, stage, proxyConn stage d⟩)) := by
  obtain ⟨o, ho, hrun⟩ := h.runs i c hi
  have hend := hrun s.mem.srcFds List.prefix_rfl
  rw [hn, wlp_done] at hend
  show Owned { s.setConn i (some ⟨c.work, stage, proxyConn stage d⟩) with mem := s.mem }
  refine h.connStep hi rfl ?_ rfl (fun _ _ _ => .inl rfl) h.listed
    (fun w hw => (h.created w hw).1) ?_
  · intro hout
    rw [Conn.inLoop, hn] at hout
    have hcloses : stage = .closes := by
      cases stage with
      | closes => rfl
      | returned => exact absurd rfl hstage
      | setUp | loops =>
          have hc : c.stage = .closes := by simpa using hout
          exact absurd (hend.2 hc) hstage
    rw [Conn.inLoop, hcloses]
    rfl
  · intro o' ho' _ w hw
    obtain rfl : o' = o := Option.some.inj (ho'.symm.trans ho)
    exact wlp_proxyConn stage hend.1

/-- What `proxy_conn` is called with. -/
theorem newConn_eq {a : Addr} (hc : s.newConn a = some c) :
    s.jobData a = some c.work ∧ ∃ n, s.mem.nodes[c.work]? = some n ∧
      c = ⟨c.work, .setUp, proxyConn .setUp n.data⟩ := by
  obtain ⟨w, hw, hmap⟩ := Option.bind_eq_some_iff.1 hc
  obtain ⟨n, hn, rfl⟩ := Option.map_eq_some_iff.1 hmap
  exact ⟨hw, n, hn, rfl⟩

/-- A worker calls `proxy_conn`. -/
theorem Owned.calls {p} {a : Addr} (hs : Sound s.pool) (h : Owned s)
    (hi : s.pool.worker i = .took (some a)) (he : s.pool.Effect (.run i) p)
    (hstop : p.jpool.stop = false) (hc : s.newConn a = some c) :
    Owned { s.setConn i (some c) with pool := p } := by
  obtain ⟨hw, n, hn, hceq⟩ := newConn_eq hc
  have hrunning : p.worker i = .running a := by
    cases he with
    | runs hi' hnode =>
        rw [hi] at hi'
        cases hi'
        exact Function.update_self _ _ _
    | runsNull hi' =>
        rw [hi] at hi'
        cases hi'
    | runsDangling hi' hnode =>
        rw [hi] at hi'
        cases hi'
        rw [System.jobData, hnode] at hw
        cases hw
  have hother : ∀ j b, s.pool.worker j = .running b →
      Function.update s.conn i (some c) j = s.conn j := by
    intro j b hj
    refine Function.update_of_ne ?_ _ _
    rintro rfl
    rw [hi] at hj
    cases hj
  apply h.frame
  case hnodes => rfl
  case hlive => exact fun x w => live_of_effect he (by simp) (by simp) hother
  case hcells => exact fun x w => System.jobData_of_effect he (by simp)
  case hmain => exact fun o ho => ho
  case hdesc => exact fun fd conn _ => .inl rfl
  case hlisted => exact h.listed
  case hcreated => exact h.created
  case hsync =>
    intro j cj hj
    rcases setConn_cases hj with ⟨rfl, hself⟩ | ⟨-, hj⟩
    · cases hself
      refine ⟨a, hrunning, ?_⟩
      rw [jobData_held hs he hstop (by rw [hi]; rfl) (by rw [hrunning]; rfl), hw]
    · exact sync_of_effect hs h he hstop hj (by simp)
  case hruns =>
    intro j cj hj
    rcases setConn_cases hj with ⟨rfl, hself⟩ | ⟨-, hj⟩
    · cases hself
      refine ⟨(n.data.srcFd, n.conn), ?_, fun w _ => ?_⟩
      · show (s.mem.nodes[c.work]?).map _ = _
        rw [hn]
        rfl
      · rw [hceq]
        exact wlp_proxyConn .setUp rfl
    · exact h.runs j cj hj

/-- `proxy_conn` has returned and the work is destroyed. -/
theorem Owned.leaves {p} (hs : Sound s.pool) (h : Owned s) (hi : s.conn i = some c)
    (he : s.pool.Effect (.destroyWork i) p) (hstop : p.jpool.stop = false) :
    Owned { s.setConn i none with pool := p } := by
  obtain ⟨a, ha, hw⟩ := h.sync i c hi
  have hfreed : p.works.get a = none := by
    cases he with
    | destroysWork hi' hnode =>
        rw [ha] at hi'
        cases hi'
        exact Heap.get_free_self _ _
    | destroysDangling hi' hnode =>
        rw [ha] at hi'
        cases hi'
        exact hnode
  apply h.frame
  case hnodes => rfl
  case hlive =>
    intro x w hl
    refine ⟨System.jobData_of_effect he (by simp) hl.job, ?_⟩
    rw [Bool.eq_false_iff]
    intro hleft
    obtain ⟨j, hj, hout⟩ := of_decide_eq_true hleft
    have hji : j ≠ i := by
      rintro rfl
      rw [ha] at hj
      cases hj
      have hjob := hl.job
      rw [System.jobData, State.works, hfreed] at hjob
      cases hjob
    have hstill : leftLoop { s.setConn i none with pool := p } x = true := by
      refine decide_eq_true ⟨j, running_kept he hj (by simpa using Ne.symm hji), ?_⟩
      show (Function.update s.conn i none j).any _ = true
      rw [Function.update_of_ne hji]
      exact hout
    exact absurd hstill (by simp [hl.loop])
  case hcells => exact fun x w => System.jobData_of_effect he (by simp)
  case hmain => exact fun o ho => ho
  case hdesc => exact fun fd conn _ => .inl rfl
  case hlisted => exact h.listed
  case hcreated => exact h.created
  case hsync =>
    intro j cj hj
    rcases setConn_cases hj with ⟨rfl, hself⟩ | ⟨hji, hj⟩
    · cases hself
    · exact sync_of_effect hs h he hstop hj (by simpa using Ne.symm hji)
  case hruns =>
    intro j cj hj
    rcases setConn_cases hj with ⟨rfl, hself⟩ | ⟨-, hj⟩
    · cases hself
    · exact h.runs j cj hj

end WorkerStep

/-! ## Steps of the main thread -/

section MainStep

variable {s : System num}

/-- The number that `accept` gives out is bound to the new connection. -/
theorem Owned.accepts (h : Owned s) (hfresh : FreshNumbers s .accept) :
    Owned { s with
      main := .accepted s.mem.lowest s.mem.accepted
      mem := s.mem.accept } := by
  have hwork : ∀ a w fd conn, Live s a w → origin s w = some (fd, conn) →
      fd ≠ (s.mem.lowest : Int) :=
    fun a w fd conn hl ho heq => hfresh (heq ▸ (Bound.work hl ho).mem)
  constructor
  case table =>
    intro fd conn hb
    show s.mem.accept.desc fd = none ∨ s.mem.accept.desc fd = some (.source conn)
    have hfill : s.mem.accept.desc fd =
        if fd = (s.mem.lowest : Int) then some (.source s.mem.accepted) else s.mem.desc fd :=
      s.mem.desc_fill _ fd
    cases hb with
    | main hm =>
        cases hm
        rw [hfill, if_pos rfl]
        exact .inr rfl
    | @work a w hl ho =>
        have hl' : Live s a w := ⟨hl.job, hl.loop⟩
        rw [hfill, if_neg (hwork a w fd conn hl' ho)]
        exact h.table fd conn (.work hl' ho)
  case apart =>
    intro fd conn hm a w fd' conn' hl ho
    cases hm
    exact hwork a w fd' conn' ⟨hl.job, hl.loop⟩ ho
  case listed =>
    intro fd conn hm
    cases hm
  case created =>
    intro w hm
    cases hm
  case cells => exact h.cells
  case sync => exact h.sync
  case runs => exact h.runs

/-- The accepted descriptor is put at the end of `fd_list`. -/
theorem Owned.lists {fd : Int} {conn : Nat} (h : Owned s) (hm : s.main = .admitted fd conn) :
    Owned { s with
      main := .listed fd conn
      mem := { s.mem with fdList := s.mem.fdList ++ [fd] } } := by
  have hholds : mainHolds s = some (fd, conn) := by rw [mainHolds, hm]
  apply h.frame
  case hnodes => rfl
  case hlive => exact fun a w hl => ⟨hl.job, hl.loop⟩
  case hcells => exact fun a w hw => hw
  case hmain => exact fun o ho => hholds.trans ho
  case hdesc => exact fun fd conn _ => .inl rfl
  case hlisted =>
    intro fd' conn' hm'
    cases hm'
    exact List.getLast?_concat
  case hcreated =>
    intro w hm'
    cases hm'
  case hsync => exact h.sync
  case hruns => exact h.runs

/-- The new work data is made from the end of `fd_list`. -/
theorem Owned.creates {fd : Int} {conn : Nat} {garbage : JpoolWorkData} (h : Owned s)
    (hm : s.main = .listed fd conn) :
    Owned { s with
      main := .created s.mem.nodes.length
      mem := s.mem.create garbage conn } := by
  have hholds : mainHolds s = some (fd, conn) := by rw [mainHolds, hm]
  have hlast := h.listed fd conn hm
  have hnew : ((s.mem.create garbage conn).nodes[s.mem.nodes.length]?).map
      (fun n => (n.data.srcFd, n.conn)) = some (fd, conn) := by
    simp [Shared.create, hlast]
  have hold : ∀ w, w < s.mem.nodes.length → (s.mem.create garbage conn).nodes[w]? =
      s.mem.nodes[w]? := fun w hw => List.getElem?_append_left hw
  have hwork : ∀ a w o, Live s a w →
      ((s.mem.create garbage conn).nodes[w]?).map (fun n => (n.data.srcFd, n.conn)) = some o →
      origin s w = some o := by
    intro a w o hl ho
    rw [hold w (h.cells a w hl.job)] at ho
    exact ho
  constructor
  case table =>
    intro fd' conn' hb
    cases hb with
    | main hm' =>
        obtain ⟨rfl, rfl⟩ := Prod.mk.inj (Option.some.inj (hnew.symm.trans hm'))
        exact h.table fd conn (.main hholds)
    | @work a w hl ho =>
        have hl' : Live s a w := ⟨hl.job, hl.loop⟩
        exact h.table fd' conn' (.work hl' (hwork a w _ hl' ho))
  case apart =>
    intro fd' conn' hm' a w fd'' conn'' hl ho
    obtain ⟨rfl, rfl⟩ := Prod.mk.inj (Option.some.inj (hnew.symm.trans hm'))
    have hl' : Live s a w := ⟨hl.job, hl.loop⟩
    exact h.apart fd conn hholds a w fd'' conn'' hl' (hwork a w _ hl' ho)
  case listed =>
    intro fd' conn' hm'
    cases hm'
  case created =>
    intro w hm'
    cases hm'
    exact ⟨List.getLast?_concat, by simp [Shared.create]⟩
  case cells =>
    intro a w hw
    have hlt := h.cells a w hw
    simp only [Shared.create, List.length_append, List.length_singleton]
    omega
  case sync => exact h.sync
  case runs =>
    intro i c hi
    obtain ⟨o, ho, hrun⟩ := h.runs i c hi
    obtain ⟨a, ha, hw⟩ := h.sync i c hi
    refine ⟨o, ?_, fun w hw' => hrun w (List.IsPrefix.trans ?_ hw')⟩
    · show ((s.mem.create garbage conn).nodes[c.work]?).map _ = some o
      rw [hold c.work (h.cells a c.work hw)]
      exact ho
    · exact (List.prefix_append _ _).map _

/-- The new work data goes to the pool. -/
theorem Owned.adds {w : Nat} {work : Addr} {p} (hs : Sound s.pool) (h : Owned s)
    (hm : s.main = .created w)
    (he : s.pool.Effect (.addWork .main (some ()) s.mem.workList.getLast? work) p)
    (hstop : p.jpool.stop = false) : Owned { s with pool := p, main := .adding } := by
  obtain ⟨hlast, hlt⟩ := h.created w hm
  rw [hlast] at he
  have hcells : ∀ a x, System.jobData { s with pool := p, main := .adding } a = some x →
      s.jobData a = some x ∨ s.jobData a = none ∧ x = w := by
    intro a x hx
    rcases System.jobData_cases he hx with hbefore | ⟨hfresh, k, f, hadd⟩
    · exact .inl hbefore
    · obtain ⟨-, -, harg, -⟩ := ThreadPool.Act.addWork.inj hadd
      refine .inr ⟨?_, (Option.some.inj harg).symm⟩
      rw [System.jobData, hfresh]
      rfl
  have hloop : ∀ a, leftLoop { s with pool := p, main := .adding } a = false →
      leftLoop s a = false := by
    intro a hout
    rw [Bool.eq_false_iff]
    intro hleft
    have hstill : leftLoop { s with pool := p, main := .adding } a = true := by
      apply leftLoop_kept (s := s) he
      · intro i hi
        cases hi
      · exact fun _ _ _ => rfl
      · exact hleft
    exact absurd hstill (by simp [hout])
  constructor
  case table =>
    intro fd conn hb
    cases hb with
    | main hm' => cases hm'
    | @work a x hl ho =>
        rcases hcells a x hl.job with hbefore | ⟨-, rfl⟩
        · exact h.table fd conn (.work ⟨hbefore, hloop a hl.loop⟩ ho)
        · refine h.table fd conn (.main ?_)
          rw [mainHolds, hm]
          exact ho
  case apart =>
    intro fd conn hm'
    cases hm'
  case listed =>
    intro fd conn hm'
    cases hm'
  case created =>
    intro x hm'
    cases hm'
  case cells =>
    intro a x hx
    rcases hcells a x hx with hbefore | ⟨-, rfl⟩
    · exact h.cells a x hbefore
    · exact hlt
  case sync => exact fun i c hi => sync_of_effect hs h he hstop hi (by simp)
  case runs => exact h.runs

end MainStep

/-! ## Whole runs -/

end ZeroCopyProxy.Ports.ProxyDescriptors
