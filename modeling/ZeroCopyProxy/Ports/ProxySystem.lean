import ZeroCopyProxy.Ports.PoolCounters
import ZeroCopyProxy.Ports.ProxyConn
import ZeroCopyProxy.Verified.FreeSlots

/-!
# The whole proxy

The main thread in `proxy_handle_req`, the workers of the pool in
`jpool_worker` and `proxy_conn`, and `proxy_final`, which the SIGINT handler or
the main thread runs, with the memory they share: the descriptor table of the
process, `fd_list` and `work_list`, the pool.  `proxy_final` ends in undefined
behaviour before it comes to the pool.

The thread pool is the machine of `ThreadPool`; every step here takes it one
step of its own or leaves it alone (`pool_reach`).  A call a worker makes in
`proxy_conn` is one step, and so is each statement of the other threads that
touches what they share.  The lists are modelled by what they contain: a node
of `work_list` is the number of its work data, a copy of the record that
`jpool_create_work_data` made, and it is in `freed` after `node_ptr_destroy`.

`accept` and `pipe` give out the lowest free descriptors.  What a descriptor
denotes is a ghost: the proxy sees numbers.
-/

namespace ZeroCopyProxy.Ports.ProxySystem

open ZeroCopyProxy.Verified.Resumption
open ZeroCopyProxy.Verified.LinkedHeap
open ZeroCopyProxy.Verified.Transitions
open ZeroCopyProxy.Verified.FreeSlots
open ZeroCopyProxy.Ports.Posix
open ZeroCopyProxy.Ports.ThreadPool
open ZeroCopyProxy.Ports.ProxyConn

/-! ## Descriptors, lists and work data -/

/-- What a descriptor denotes; sources are numbered in the order in which they
were accepted. -/
inductive Desc where
  | std
  | listen
  | dst
  | epoll
  | source (conn : Nat)
  | pipe
  deriving DecidableEq

/-- `getsockopt` works on it. -/
def Desc.isSocket : Desc → Bool
  | .listen | .dst | .source _ => true
  | _ => false

/-- `proxy->fd`, the first descriptor behind the standard ones. -/
def listenFd : Int := 3

/-- `proxy->dst_fd`. -/
def dstFd : Int := 4

/-- `SOC_ERR` of `common_l.h`. -/
def socErr : Int := -2

/-- The data of a node of `work_list`, with the connection it was made for. -/
structure WorkNode where
  data : JpoolWorkData
  conn : Nat

/-- What the threads share besides the pool.  `nodes` are all work data ever
put into `work_list`; `workList` are those that are there. -/
structure Shared where
  fds : Slots Desc
  accepted : Nat
  fdList : List Int
  nodes : List WorkNode
  workList : List Nat
  freed : List Nat

namespace Shared

variable (m : Shared)

/-- What a number denotes. -/
def desc (fd : Int) : Option Desc := if fd < 0 then none else Slots.get m.fds fd.toNat

/-- `proxy_check_fd` succeeds. -/
def checkFd (fd : Int) : Bool := (m.desc fd).any Desc.isSocket

/-- `close`. -/
def close (fd : Int) : Shared :=
  if fd < 0 then m else { m with fds := Slots.free m.fds fd.toNat }

/-- The number the next `accept` or `pipe` gives out. -/
def lowest : Nat := Slots.lowest m.fds

/-- `accept` has given out the lowest free number. -/
def accept : Shared :=
  { m with fds := Slots.fill (.source m.accepted) m.fds, accepted := m.accepted + 1 }

/-- The table with one end of a pipe in it. -/
def fillPipe : Shared := { m with fds := Slots.fill .pipe m.fds }

/-- The `src_fd` of each work data. -/
def srcFds : List Int := m.nodes.map fun n => n.data.srcFd

/-- `dlist_ptr_find_node_data_by_data`: the first work data in the list with
this `src_fd`. -/
def findWork (fd : Int) : Option Nat := m.workList.find? fun w => m.srcFds[w]? = some fd

/-- `node_ptr_destroy` of the node with this work data. -/
def freeWork (w : Nat) : Shared :=
  { m with workList := m.workList.erase w, freed := m.freed ++ [w] }

/-- `jpool_create_work_data` and `dlist_ptr_add_node`, which copies the record
into a new node.  `malloc` leaves `garbage` in it; `src_fd` is the last entry
of `fd_list`, the 0 of its first dummy node when the list is empty. -/
def create (garbage : JpoolWorkData) (conn : Nat) : Shared :=
  { m with
    nodes := m.nodes ++
      [⟨{ garbage with srcFd := m.fdList.getLast?.getD 0, dstFd := dstFd }, conn⟩]
    workList := m.workList ++ [m.nodes.length] }

/-- The descriptor a transfer works on. -/
def transfers : SysCall → Option Int
  | .read fd _ _ | .write fd _ _ _ | .spliceIn fd _ _ | .spliceOut _ fd _ => some fd
  | .close _ | .getsockopt _ | .epollWait => none

/-- The calls of `proxy_conn`: what may be answered, and what that leaves. -/
def connCall : ConnCall → Answer → Option Shared
  | .sys (.close fd), _ => some (m.close fd)
  | .sys (.getsockopt fd), r => if r.ret < 0 ↔ m.checkFd fd = false then some m else none
  | .sys .epollWait, r => if 0 ≤ r.ret → r.ready.length = r.ret then some m else none
  | .sys op, r =>
    if r.Fits op ∧ ∀ fd ∈ transfers op, m.desc fd = none → r.ret < 0 then some m else none
  | .pipe, r =>
    if r.ret < 0 then some m
    else if r.ready = [(m.lowest : Int), (m.fillPipe.lowest : Int)] then
      some m.fillPipe.fillPipe
    else none
  | .epollAdd fd, r => if m.desc fd = none → r.ret < 0 then some m else none
  | .delFd fd, r =>
    if r.ret = normal then some { m with fdList := m.fdList.erase fd } else none
  | .findWork fd, r =>
    match m.findWork fd with
    | none => if r.ret < 0 then some m else none
    | some w => if r.ret = w then some m else none
  | .delWork w, _ => some (if w ∈ m.workList then m.freeWork w else m)

/-- The outcomes of an answered call. -/
inductive CallEffect (m : Shared) : ConnCall → Answer → Shared → Prop
  | keeps {op : ConnCall} {r : Answer}
      (hfind : ∀ fd, op = .findWork fd → 0 ≤ r.ret → m.findWork fd = some r.ret.toNat) :
      CallEffect m op r m
  | closes {fd : Int} {r : Answer} : CallEffect m (.sys (.close fd)) r (m.close fd)
  | opens {r : Answer} (hret : ¬ r.ret < 0) : CallEffect m .pipe r m.fillPipe.fillPipe
  | unlists {fd : Int} {r : Answer} :
      CallEffect m (.delFd fd) r { m with fdList := m.fdList.erase fd }
  | frees {w : Nat} {r : Answer} (hw : w ∈ m.workList) :
      CallEffect m (.delWork w) r (m.freeWork w)

variable {m}

theorem effect_of_sysCall {op : SysCall} {r : Answer} {m' : Shared}
    (h : m.connCall (.sys op) r = some m') : m.CallEffect (.sys op) r m' := by
  have hkeep : m.CallEffect (.sys op) r m := .keeps fun fd hfd => by cases hfd
  cases op with
  | close fd =>
      cases h
      exact .closes
  | read | write | spliceIn | spliceOut | getsockopt | epollWait =>
      simp only [connCall] at h
      split at h
      · cases h
        exact hkeep
      · cases h

theorem effect_of_findWork {fd : Int} {r : Answer} {m' : Shared}
    (h : m.connCall (.findWork fd) r = some m') : m.CallEffect (.findWork fd) r m' := by
  simp only [connCall] at h
  split at h
  · split at h
    · next hneg =>
        cases h
        exact .keeps fun _ _ hret => absurd hneg (Int.not_lt.2 hret)
    · cases h
  · next w hfound =>
      split at h
      · next hret =>
          cases h
          refine .keeps fun fd' hfd _ => ?_
          cases hfd
          rw [hfound, hret, Int.toNat_natCast]
      · cases h

theorem effect_of_connCall {op : ConnCall} {r : Answer} {m' : Shared}
    (h : m.connCall op r = some m') : m.CallEffect op r m' := by
  cases op with
  | sys op => exact effect_of_sysCall h
  | findWork fd => exact effect_of_findWork h
  | pipe =>
      simp only [connCall] at h
      split at h
      · cases h
        exact .keeps fun fd hfd => by cases hfd
      · next hret =>
          split at h
          · cases h
            exact .opens hret
          · cases h
  | epollAdd fd =>
      simp only [connCall] at h
      split at h
      · cases h
        exact .keeps fun fd hfd => by cases hfd
      · cases h
  | delFd fd =>
      simp only [connCall] at h
      split at h
      · cases h
        exact .unlists
      · cases h
  | delWork w =>
      simp only [connCall, Option.some.injEq] at h
      split at h
      · next hw =>
          cases h
          exact .frees hw
      · cases h
        exact .keeps fun fd hfd => by cases hfd

/-- A search finds a work data with the descriptor it was asked for. -/
theorem srcFds_of_findWork {fd : Int} {w : Nat} (h : m.findWork fd = some w) :
    m.srcFds[w]? = some fd := by
  unfold findWork at h
  have hfound := List.find?_some h
  exact of_decide_eq_true hfound

/-- What `accept` and `pipe` give out is the lowest free number. -/
theorem desc_fill (m : Shared) (d : Desc) (fd : Int) :
    desc { m with fds := Slots.fill d m.fds } fd =
      if fd = (m.lowest : Int) then some d else m.desc fd := by
  unfold desc
  by_cases hneg : fd < 0
  · have hne : fd ≠ (m.lowest : Int) := by omega
    rw [if_pos hneg, if_neg hne, if_pos hneg]
  · rw [if_neg hneg, if_neg hneg, Slots.get_fill]
    by_cases hfd : fd = (m.lowest : Int)
    · rw [if_pos hfd, if_pos (by rw [hfd]; rfl)]
    · have hne : fd.toNat ≠ Slots.lowest m.fds := by
        intro heq
        apply hfd
        rw [lowest, ← heq, Int.toNat_of_nonneg (Int.not_lt.1 hneg)]
      rw [if_neg hfd, if_neg hne]

/-- `close` can only take a number away. -/
theorem desc_close (m : Shared) (fd' fd : Int) :
    (m.close fd').desc fd = m.desc fd ∨ (m.close fd').desc fd = none := by
  unfold close
  split
  · exact .inl rfl
  · unfold desc
    split
    · exact .inl rfl
    · rw [Slots.get_free]
      split
      · exact .inr rfl
      · exact .inl rfl

theorem close_lists (m : Shared) (fd : Int) :
    (m.close fd).nodes = m.nodes ∧ (m.close fd).fdList = m.fdList ∧
      (m.close fd).workList = m.workList ∧ (m.close fd).freed = m.freed := by
  unfold close
  split
  · exact ⟨rfl, rfl, rfl, rfl⟩
  · exact ⟨rfl, rfl, rfl, rfl⟩

theorem CallEffect.nodes {op : ConnCall} {r : Answer} {m' : Shared}
    (h : m.CallEffect op r m') : m'.nodes = m.nodes := by
  cases h with
  | closes => exact (m.close_lists _).1
  | _ => rfl

end Shared

/-! ## The threads -/

/-- The threads that use the pool without being its workers. -/
inductive User where
  | main
  | handler
  deriving DecidableEq

/-- Where the main thread is in `proxy_handle_req`; it keeps the descriptor it
accepted and the connection that has it. -/
inductive MainPc where
  /-- before `proxy_check_fd( proxy->dst_fd)` in `proxy_wait` -/
  | checking
  /-- before `accept` -/
  | accepting
  /-- before the first test of `working_cnt` -/
  | accepted (fd : Int) (conn : Nat)
  /-- in the loop that waits for `working_cnt` to drop -/
  | spinning (fd : Int) (conn : Nat)
  /-- before `dlist_int_add_node` -/
  | admitted (fd : Int) (conn : Nat)
  /-- in `proxy_add_work_data`, before it reads `fd_list` -/
  | listed (fd : Int) (conn : Nat)
  /-- before `jpool_add_work` -/
  | created (work : Nat)
  /-- in `jpool_add_work` -/
  | adding
  /-- behind `proxy_handle_req`, which returned this -/
  | left (rv : Int)
  deriving DecidableEq

/-- Where a thread is in `proxy_final`. -/
inductive FinalPc where
  | idle
  | closesFd
  | closesDst
  /-- before `dlist_int_destroy( proxy->fd_list)` -/
  | destroysFds
  /-- in `dlist_ptr_final`, whose first call deletes the second node -/
  | freesSecond
  /-- in `dlist_ptr_final`, whose other calls delete the first node, and before
  the `free( list)` behind it -/
  | freesFirst
  deriving DecidableEq

/-- A run of `proxy_conn`: the work data it was given, its stage, and what is
left of the stage. -/
structure Conn where
  work : Nat
  stage : Stage
  node : Res JpoolWorkData ConnCall Answer Stage

/-- `proxy_conn` has returned. -/
def Conn.returned (c : Conn) : Bool :=
  match c.node with
  | .done _ .returned => true
  | _ => false

/-- The worker has not left the loop of `proxy_conn`. -/
def Conn.inLoop (c : Conn) : Bool :=
  c.stage != .closes &&
    match c.node with
    | .done _ .closes | .done _ .returned => false
    | _ => true

/-- The proxy; the function of every work is `proxy_conn` and its argument a
node's data, or NULL. -/
structure System (num : UInt64) where
  pool : ThreadPool.State num User Unit (Option Nat)
  main : MainPc
  final : User → FinalPc
  conn : Worker num → Option Conn
  mem : Shared
  fault : Bool

/-- `proxy_init` has returned: the standard descriptors, the listening socket,
the destination and the epoll handle are open. -/
def start (num : UInt64) : System num where
  pool := ThreadPool.start num User Unit (Option Nat)
  main := .checking
  final _ := .idle
  conn _ := none
  mem :=
    { fds := [some .std, some .std, some .std, some .listen, some .dst, some .epoll]
      accepted := 0
      fdList := []
      nodes := []
      workList := []
      freed := [] }
  fault := false

/-- What happens next. -/
inductive Act (num : UInt64) where
  /-- the first critical section of `jpool_worker`, or its last -/
  | enter (i : Worker num)
  /-- the call of `work->func` -/
  | call (i : Worker num)
  /-- the answer to a call in `proxy_conn` -/
  | answer (i : Worker num) (r : Answer)
  /-- the next stage of `proxy_conn` -/
  | next (i : Worker num)
  /-- the return of `work->func`, and `jpool_work_destroy` -/
  | leave (i : Worker num)
  /-- the second critical section of `jpool_worker` -/
  | finish (i : Worker num)
  | checkDst
  | accept
  | acceptFails
  /-- `proxy_set_fd_nonblock` fails -/
  | nonblockFails
  /-- the first test of `working_cnt` in `proxy_wait` -/
  | test
  /-- a test in its waiting loop -/
  | retest
  /-- `dlist_int_add_node` -/
  | listFd
  /-- `jpool_create_work_data` and `dlist_ptr_add_node` -/
  | create (garbage : JpoolWorkData)
  /-- the call of `jpool_add_work`, for which `malloc` returns `work` -/
  | addWork (work : Addr)
  /-- its critical section -/
  | enqueue
  /-- the next step of `proxy_final` -/
  | final (u : User)

namespace System

variable {num : UInt64}

/-! ## The steps -/

/-- The work data a work cell points to. -/
def jobData (s : System num) (a : Addr) : Option Nat :=
  (s.pool.works.get a).bind fun node => node.arg

/-- Put a worker at another place of `proxy_conn`. -/
def setConn (s : System num) (i : Worker num) (c : Option Conn) : System num :=
  { s with conn := Function.update s.conn i c }

/-- Put a thread at another place of `proxy_final`. -/
def setFinal (s : System num) (u : User) (pc : FinalPc) : System num :=
  { s with final := Function.update s.final u pc }

/-- `proxy_conn` called with the argument in a work cell; a NULL argument is
undefined behaviour. -/
def newConn (s : System num) (a : Addr) : Option Conn :=
  (s.jobData a).bind fun w =>
    (s.mem.nodes[w]?).map fun node => ⟨w, .setUp, proxyConn .setUp node.data⟩

/-- A step of the pool. -/
def poolStep (s : System num) (a : ThreadPool.Act num User Unit (Option Nat)) :
    Option (System num) :=
  (s.pool.step a).map fun pool => { s with pool := pool }

/-- A worker behind its first critical section. -/
def callStep (s : System num) (i : Worker num) : Option (System num) :=
  match s.pool.worker i with
  | .took (some a) =>
    (s.pool.step (.run i)).map fun pool =>
      match s.newConn a with
      | none => { s with pool := pool, fault := true }
      | some c => { s.setConn i (some c) with pool := pool }
  | .took none => s.poolStep (.run i)
  | _ => none

/-- A worker in `proxy_conn` gets the answer to its call. -/
def answerStep (s : System num) (i : Worker num) (r : Answer) : Option (System num) :=
  match s.conn i with
  | some ⟨w, stage, .call _ op k⟩ =>
    (s.mem.connCall op r).map fun mem =>
      { s.setConn i (some ⟨w, stage, k r⟩) with mem := mem }
  | _ => none

/-- A worker goes on to the next stage of `proxy_conn`. -/
def nextStep (s : System num) (i : Worker num) : Option (System num) :=
  match s.conn i with
  | some ⟨w, _, .done d stage⟩ =>
    if stage = .returned then none
    else some (s.setConn i (some ⟨w, stage, proxyConn stage d⟩))
  | _ => none

/-- `proxy_conn` has returned to `jpool_worker`. -/
def leaveStep (s : System num) (i : Worker num) : Option (System num) :=
  match s.conn i with
  | some ⟨_, _, .done _ .returned⟩ =>
    (s.pool.step (.destroyWork i)).map fun pool => { s.setConn i none with pool := pool }
  | _ => none

/-- `THREAD_NUM` workers are counted. -/
def allWorking (s : System num) : Prop := s.pool.jpool.workingCnt = num

instance (s : System num) : Decidable s.allWorking :=
  inferInstanceAs (Decidable (s.pool.jpool.workingCnt = num))

/-- The main thread in `proxy_handle_req`. -/
def mainStep (s : System num) : Act num → Option (System num)
  | .checkDst =>
    if s.main = .checking then
      some { s with main := if s.mem.checkFd dstFd then .accepting else .left socErr }
    else none
  | .accept =>
    if s.main = .accepting ∧ s.mem.desc listenFd = some .listen then
      some { s with main := .accepted s.mem.lowest s.mem.accepted, mem := s.mem.accept }
    else none
  | .acceptFails => if s.main = .accepting then some { s with main := .checking } else none
  | .nonblockFails =>
    match s.main with
    | .accepted _ _ => some { s with main := .checking }
    | _ => none
  | .test =>
    match s.main with
    | .accepted fd conn =>
      some { s with main := if s.allWorking then .spinning fd conn else .admitted fd conn }
    | _ => none
  | .retest =>
    match s.main with
    | .spinning fd conn =>
      some
        { s with
          main := if s.pool.jpool.workingCnt < num then .admitted fd conn
            else .spinning fd conn }
    | _ => none
  | .listFd =>
    match s.main with
    | .admitted fd conn =>
      some
        { s with
          main := .listed fd conn
          mem := { s.mem with fdList := s.mem.fdList ++ [fd] } }
    | _ => none
  | .create garbage =>
    match s.main with
    | .listed _ conn =>
      some
        { s with
          main := .created s.mem.nodes.length
          mem := s.mem.create garbage conn }
    | _ => none
  | .addWork work =>
    match s.main with
    | .created _ =>
      (s.pool.step (.addWork .main (some ()) s.mem.workList.getLast? work)).map fun pool =>
        { s with pool := pool, main := .adding }
    | _ => none
  | .enqueue =>
    if s.main = .adding then
      (s.pool.step (.enqueue .main)).map fun pool =>
        { s with pool := pool, main := .checking }
    else none
  | _ => none

/-- Who may call `proxy_final`: the handler of SIGINT at any time, the main
thread when `proxy_handle_req` has returned something else than `SOC_ERR`. -/
def mayFinish (s : System num) : User → Bool
  | .handler => true
  | .main =>
    match s.main with
    | .left rv => rv != socErr
    | _ => false

/-- `close` of a descriptor that `proxy_check_fd` accepts. -/
def closeChecked (s : System num) (fd : Int) : System num :=
  if s.mem.checkFd fd then { s with mem := s.mem.close fd } else s

/-- A thread has begun `proxy_final`. -/
def finishing (s : System num) : Bool :=
  s.final .main != .idle || s.final .handler != .idle

/-- The thread `u` in `proxy_final`.  It never comes to `jpool_destroy`. -/
def finalStep (s : System num) (u : User) : Option (System num) :=
  match s.final u with
  | .idle =>
    if s.mayFinish u then
      -- `local_ip` and `dst_ip` are freed, for a second thread once more
      if s.finishing then some { s with fault := true } else some (s.setFinal u .closesFd)
    else none
  | .closesFd => some ((s.closeChecked listenFd).setFinal u .closesDst)
  | .closesDst => some ((s.closeChecked dstFd).setFinal u .destroysFds)
  | .destroysFds =>
    -- `dlist_int_destroy` frees the first node and then reads its `next`
    if s.mem.fdList = [] then some (s.setFinal u .freesSecond)
    else some { s with fault := true }
  | .freesSecond =>
    match s.mem.workList with
    | _ :: w :: _ => some { s.setFinal u .freesFirst with mem := s.mem.freeWork w }
    | _ => some (s.setFinal u .freesFirst)
  | .freesFirst =>
    match s.mem.workList with
    | w :: _ => some { s with mem := s.mem.freeWork w }
    -- `dlist_ptr_destroy` frees the list, which is a member of `proxy_t`
    | [] => some { s with fault := true }

/-- The step an action names, where it can happen. -/
def act (s : System num) : Act num → Option (System num)
  | .enter i => s.poolStep (.enter i)
  | .call i => s.callStep i
  | .answer i r => s.answerStep i r
  | .next i => s.nextStep i
  | .leave i => s.leaveStep i
  | .finish i => s.poolStep (.finish i)
  | .final u => s.finalStep u
  | a => s.mainStep a

/-- One step; nothing happens after undefined behaviour. -/
def step (s : System num) (a : Act num) : Option (System num) :=
  if s.fault then none else s.act a

/-! ## What each action can do -/

/-- The outcomes of each action, with what holds before them. -/
inductive Effect (s : System num) : Act num → System num → Prop
  | enters {i : Worker num} {p} (hp : s.pool.step (.enter i) = some p) :
      Effect s (.enter i) { s with pool := p }
  | calls {i : Worker num} {p} {a : Addr} {c : Conn} (hi : s.pool.worker i = .took (some a))
      (hp : s.pool.step (.run i) = some p) (hc : s.newConn a = some c) :
      Effect s (.call i) { s.setConn i (some c) with pool := p }
  | callsNull {i : Worker num} {p} {a : Addr} (hi : s.pool.worker i = .took (some a))
      (hp : s.pool.step (.run i) = some p) (hc : s.newConn a = none) :
      Effect s (.call i) { s with pool := p, fault := true }
  | skips {i : Worker num} {p} (hi : s.pool.worker i = .took none)
      (hp : s.pool.step (.run i) = some p) : Effect s (.call i) { s with pool := p }
  | answers {i : Worker num} {c : Conn} {d : JpoolWorkData} {op : ConnCall}
      {k : Answer → Res JpoolWorkData ConnCall Answer Stage} {r : Answer} {mem : Shared}
      (hi : s.conn i = some c) (hn : c.node = .call d op k)
      (hk : s.mem.connCall op r = some mem) :
      Effect s (.answer i r) { s.setConn i (some { c with node := k r }) with mem := mem }
  | nexts {i : Worker num} {c : Conn} {d : JpoolWorkData} {stage : Stage}
      (hi : s.conn i = some c) (hn : c.node = .done d stage) (hstage : stage ≠ .returned) :
      Effect s (.next i) (s.setConn i (some ⟨c.work, stage, proxyConn stage d⟩))
  | leaves {i : Worker num} {c : Conn} {p} (hi : s.conn i = some c) (hc : c.returned = true)
      (hp : s.pool.step (.destroyWork i) = some p) :
      Effect s (.leave i) { s.setConn i none with pool := p }
  | finishes {i : Worker num} {p} (hp : s.pool.step (.finish i) = some p) :
      Effect s (.finish i) { s with pool := p }
  | checks (hm : s.main = .checking) :
      Effect s .checkDst
        { s with main := if s.mem.checkFd dstFd then .accepting else .left socErr }
  | accepts (hm : s.main = .accepting) (hl : s.mem.desc listenFd = some .listen) :
      Effect s .accept
        { s with main := .accepted s.mem.lowest s.mem.accepted, mem := s.mem.accept }
  | acceptFails (hm : s.main = .accepting) : Effect s .acceptFails { s with main := .checking }
  | nonblockFails {fd : Int} {conn : Nat} (hm : s.main = .accepted fd conn) :
      Effect s .nonblockFails { s with main := .checking }
  | tests {fd : Int} {conn : Nat} (hm : s.main = .accepted fd conn) :
      Effect s .test
        { s with main := if s.allWorking then .spinning fd conn else .admitted fd conn }
  | retests {fd : Int} {conn : Nat} (hm : s.main = .spinning fd conn) :
      Effect s .retest
        { s with
          main := if s.pool.jpool.workingCnt < num then .admitted fd conn
            else .spinning fd conn }
  | lists {fd : Int} {conn : Nat} (hm : s.main = .admitted fd conn) :
      Effect s .listFd
        { s with
          main := .listed fd conn
          mem := { s.mem with fdList := s.mem.fdList ++ [fd] } }
  | creates {fd : Int} {conn : Nat} {garbage : JpoolWorkData} (hm : s.main = .listed fd conn) :
      Effect s (.create garbage)
        { s with
          main := .created s.mem.nodes.length
          mem := s.mem.create garbage conn }
  | adds {w : Nat} {work : Addr} {p} (hm : s.main = .created w)
      (hp : s.pool.step (.addWork .main (some ()) s.mem.workList.getLast? work) = some p) :
      Effect s (.addWork work) { s with pool := p, main := .adding }
  | enqueues {p} (hm : s.main = .adding) (hp : s.pool.step (.enqueue .main) = some p) :
      Effect s .enqueue { s with pool := p, main := .checking }
  | finals {u : User} {s'} (hf : s.finalStep u = some s') : Effect s (.final u) s'

theorem poolStep_eq {s s' : System num} {a : ThreadPool.Act num User Unit (Option Nat)}
    (h : s.poolStep a = some s') : ∃ p, s.pool.step a = some p ∧ s' = { s with pool := p } := by
  obtain ⟨p, hp, rfl⟩ := Option.map_eq_some_iff.1 h
  exact ⟨p, hp, rfl⟩

theorem effect_call {s s' : System num} {i : Worker num} (h : s.callStep i = some s') :
    Effect s (.call i) s' := by
  unfold callStep at h
  split at h
  · next a hi =>
      obtain ⟨p, hp, rfl⟩ := Option.map_eq_some_iff.1 h
      cases hc : s.newConn a with
      | none => exact .callsNull hi hp hc
      | some c => exact .calls hi hp hc
  · next hi =>
      obtain ⟨p, hp, rfl⟩ := poolStep_eq h
      exact .skips hi hp
  · cases h

theorem effect_answer {s s' : System num} {i : Worker num} {r : Answer}
    (h : s.answerStep i r = some s') : Effect s (.answer i r) s' := by
  unfold answerStep at h
  split at h
  · next w stage d op k hi =>
      obtain ⟨mem, hk, rfl⟩ := Option.map_eq_some_iff.1 h
      exact .answers hi rfl hk
  · cases h

theorem effect_next {s s' : System num} {i : Worker num} (h : s.nextStep i = some s') :
    Effect s (.next i) s' := by
  unfold nextStep at h
  split at h
  · next w st d stage hi =>
      split at h
      · cases h
      · next hstage =>
          cases h
          exact .nexts hi rfl hstage
  · cases h

theorem effect_leave {s s' : System num} {i : Worker num} (h : s.leaveStep i = some s') :
    Effect s (.leave i) s' := by
  unfold leaveStep at h
  split at h
  · next w st d hi =>
      obtain ⟨p, hp, rfl⟩ := Option.map_eq_some_iff.1 h
      exact .leaves hi rfl hp
  · cases h

theorem effect_main {s s' : System num} {a : Act num} (h : s.mainStep a = some s') :
    Effect s a s' := by
  cases a with
  | checkDst | accept | acceptFails =>
      simp only [mainStep] at h
      split at h
      · next hm =>
          cases h
          first
            | exact .checks hm
            | exact .accepts hm.1 hm.2
            | exact .acceptFails hm
      · cases h
  | nonblockFails | test | retest | listFd | create garbage =>
      simp only [mainStep] at h
      split at h
      · next hm =>
          cases h
          first
            | exact .nonblockFails hm
            | exact .tests hm
            | exact .retests hm
            | exact .lists hm
            | exact .creates hm
      · cases h
  | addWork work =>
      simp only [mainStep] at h
      split at h
      · next hm =>
          obtain ⟨p, hp, rfl⟩ := Option.map_eq_some_iff.1 h
          exact .adds hm hp
      · cases h
  | enqueue =>
      simp only [mainStep] at h
      split at h
      · next hm =>
          obtain ⟨p, hp, rfl⟩ := Option.map_eq_some_iff.1 h
          exact .enqueues hm hp
      · cases h
  | enter | call | answer | next | leave | finish | final => cases h

theorem effect_of_act {s s' : System num} {a : Act num} (h : s.act a = some s') :
    Effect s a s' := by
  cases a with
  | enter i =>
      obtain ⟨p, hp, rfl⟩ := poolStep_eq h
      exact .enters hp
  | call i => exact effect_call h
  | answer i r => exact effect_answer h
  | next i => exact effect_next h
  | leave i => exact effect_leave h
  | finish i =>
      obtain ⟨p, hp, rfl⟩ := poolStep_eq h
      exact .finishes hp
  | final u => exact .finals h
  | checkDst | accept | acceptFails | nonblockFails | test | retest | listFd | create | addWork
  | enqueue => exact effect_main h

/-- Every step is one of the outcomes of its action. -/
theorem effect_of_step {s s' : System num} {a : Act num} (h : s.step a = some s') :
    Effect s a s' := by
  unfold step at h
  split at h
  · cases h
  · exact effect_of_act h

theorem jobData_eq (s : System num) (a : Addr) :
    s.jobData a = (State.job s.pool.works a).bind Prod.snd := by
  rw [jobData, State.job]
  cases s.pool.works.get a with
  | none => rfl
  | some node => rfl

/-- What a work cell points to after a step of the pool was there before, or
has just been added. -/
theorem jobData_cases {s s' : System num} {b : ThreadPool.Act num User Unit (Option Nat)}
    (he : s.pool.Effect b s'.pool) {a : Addr} {w : Nat} (hw : s'.jobData a = some w) :
    s.jobData a = some w ∨
      s.pool.works.get a = none ∧ ∃ k f, b = .addWork k (some f) (some w) a := by
  rw [jobData_eq] at hw
  obtain ⟨⟨f, arg⟩, hfa, harg⟩ := Option.bind_eq_some_iff.1 hw
  cases harg
  rcases PoolQueue.job_of_effect he hfa with hbefore | ⟨hfresh, k, hadd⟩
  · rw [jobData_eq, hbefore]
    exact .inl rfl
  · exact .inr ⟨hfresh, k, f, hadd⟩

theorem jobData_of_effect {s s' : System num} {b : ThreadPool.Act num User Unit (Option Nat)}
    (he : s.pool.Effect b s'.pool) (hb : ∀ k f arg x, b ≠ .addWork k f arg x) {a : Addr}
    {w : Nat} (hw : s'.jobData a = some w) : s.jobData a = some w := by
  rcases jobData_cases he hw with hbefore | ⟨-, k, f, hadd⟩
  · exact hbefore
  · exact absurd hadd (hb k _ _ a)

end System

/-! ## The pool in the proxy -/

section Serving

variable {num : UInt64}

/-- Not a step of `proxy_final`. -/
def Serving : Act num → Prop
  | .final _ => False
  | _ => True

instance (a : Act num) : Decidable (Serving a) :=
  match a with
  | .final _ => .isFalse id
  | .enter _ | .call _ | .answer _ _ | .next _ | .leave _ | .finish _ | .checkDst | .accept
  | .acceptFails | .nonblockFails | .test | .retest | .listFd | .create _ | .addWork _
  | .enqueue => .isTrue trivial

/-- A call of the pool that neither waits for it nor destroys it. -/
def Plain {num : UInt64} : ThreadPool.Act num User Unit (Option Nat) → Prop
  | .wait _ | .destroy _ => False
  | _ => True

/-- A step of the proxy is a step of its pool or leaves the pool alone. -/
theorem pool_of_effect {s s' : System num} {a : Act num} (he : s.Effect a s')
    (ha : Serving a) :
    s'.pool = s.pool ∨ Step ThreadPool.State.step (fun _ => Plain) s.pool s'.pool := by
  cases he with
  | enters hp | calls _ hp | callsNull _ hp | skips _ hp | leaves _ _ hp | finishes hp
  | adds _ hp | enqueues _ hp =>
      refine .inr ⟨_, ?_, hp⟩
      exact True.intro
  | finals => exact ha.elim
  | _ => exact .inl rfl

/-- A run of the proxy without `proxy_final` is a run of its pool. -/
theorem pool_reach {C : System num → Act num → Prop} (hC : ∀ s a, C s a → Serving a)
    {s : System num} (hr : Reach System.step C (start num) s) :
    Reach ThreadPool.State.step (fun _ => Plain)
      (ThreadPool.start num User Unit (Option Nat)) s.pool :=
  hr.project System.pool fun hc hs => pool_of_effect (System.effect_of_step hs) (hC _ _ hc)

/-- A pool that nobody destroys is not stopped. -/
theorem running_reach {p : ThreadPool.State num User Unit (Option Nat)}
    (hr : Reach ThreadPool.State.step (fun _ => Plain)
      (ThreadPool.start num User Unit (Option Nat)) p) : p.jpool.stop = false := by
  refine reach_invariant (I := fun p => p.jpool.stop = false) ?_ hr rfl
  intro p a p' _ hrun ha hs
  cases (ThreadPool.State.effect_of_step hs).2 with
  | takes hi hstop hfirst hnode => exact (PoolCounters.jpoolUnlink_counters _ _).2.2.trans hrun
  | destroys => exact ha.elim
  | _ => exact hrun

/-- The pool of a proxy that serves is sound. -/
theorem pool_sound {C : System num → Act num → Prop} (hC : ∀ s a, C s a → Serving a)
    {s : System num} (hr : Reach System.step C (start num) s) : PoolQueue.Sound s.pool :=
  PoolQueue.sound_reach (pool_reach hC hr) (running_reach (pool_reach hC hr))

end Serving

/-! ## Parts of runs -/

/-- One round of `proxy_handle_req` in which a source is accepted and passes
the first test. -/
def registers (num : UInt64) (work : Addr) : List (Act num) :=
  [.checkDst, .accept, .test, .listFd, .create blank, .addWork work, .enqueue]

/-- A worker takes a work, opens its two pipes, which get the numbers from
`fd` on, and adds its source to the epoll handle. -/
def opens {num : UInt64} (i : Worker num) (fd : Int) : List (Act num) :=
  [.enter i, .call i, .answer i ⟨0, .other 0, [], [fd, fd + 1]⟩,
    .answer i ⟨0, .other 0, [], [fd + 2, fd + 3]⟩, .answer i (.count 0), .next i]

/-- A round of a worker's loop: both descriptors are valid, and there is an
event on `fd`. -/
def wakes {num : UInt64} (i : Worker num) (fd : Int) : List (Act num) :=
  [.answer i (.count 0), .answer i (.count 0), .answer i ⟨1, .other 0, [], [fd]⟩]

end ZeroCopyProxy.Ports.ProxySystem
