import ZeroCopyProxy.Ports.ProxyRelay
import ZeroCopyProxy.Verified.Liberal

/-!
# A worker's whole run: `proxy_conn`

`proxy_conn` clears the two message records, opens two pipes, adds the source
to the epoll handle and then serves events until `proxy_check_fd` fails for
one of its descriptors; it deletes its entries from the lists of the proxy and
closes the pipes.  The body of its event loop is the one of `ProxyRelay`
(`connEvent_raw`); here its work data is raw memory, of which nothing is
known: after `accept` has given out a number twice the source and the
destination may even be the same number.

A resumption tree is finite, so `proxy_conn` is cut into stages: each is a
program that ends with the name of the stage that follows it.
-/

namespace ZeroCopyProxy.Ports.ProxyConn

open ZeroCopyProxy.Verified.Resumption
open ZeroCopyProxy.Verified.Liberal
open ZeroCopyProxy.Ports.Posix
open ZeroCopyProxy.Ports.TranscHeader
open ZeroCopyProxy.Ports.ProxyRelay

/-! ## The memory and the calls of a worker -/

/-- `struct jpool_work_data_s`; its `arg` is the proxy itself. -/
structure JpoolWorkData where
  srcFd : Int
  dstFd : Int
  ingoingTransc : Transc
  outgoingTransc : Transc
  pipe1 : Pipe
  pipe2 : Pipe

namespace JpoolWorkData

def transc (d : JpoolWorkData) : Dir → Transc
  | .ingoing => d.ingoingTransc
  | .outgoing => d.outgoingTransc

def setTransc (d : JpoolWorkData) (dir : Dir) (t : Transc) : JpoolWorkData :=
  match dir with
  | .ingoing => { d with ingoingTransc := t }
  | .outgoing => { d with outgoingTransc := t }

def pipe (d : JpoolWorkData) : Dir → Pipe
  | .ingoing => d.pipe1
  | .outgoing => d.pipe2

def peer (d : JpoolWorkData) : Dir → Int
  | .ingoing => d.dstFd
  | .outgoing => d.srcFd

/-- The direction an event on `fd` belongs to. -/
def dirOf (d : JpoolWorkData) (fd : Int) : Dir :=
  if fd = d.dstFd then .outgoing else .ingoing

@[simp] theorem srcFd_setTransc (d : JpoolWorkData) (dir : Dir) (t : Transc) :
    (d.setTransc dir t).srcFd = d.srcFd := by
  cases dir <;> rfl

end JpoolWorkData

/-- What a worker asks of its environment: the system calls of its event loop,
`pipe`, `epoll_ctl`, and the operations on the lists of the proxy, which all
workers and the main thread share. -/
inductive ConnCall where
  | sys (op : SysCall)
  | pipe
  | epollAdd (fd : Int)
  /-- `dlist_int_del_node_by_data( proxy->fd_list, fd)` -/
  | delFd (fd : Int)
  /-- `dlist_ptr_find_node_data_by_data` for a work data with this `src_fd` -/
  | findWork (fd : Int)
  /-- `dlist_ptr_del_node_by_data( proxy->work_list, work)` -/
  | delWork (work : Nat)
  deriving DecidableEq

/-- `NOT_EXIST` of `common_l.h`. -/
def notExist : Int := -2

/-- What a worker does next. -/
inductive Stage where
  /-- from the call of `proxy_conn` to its loop -/
  | setUp
  /-- one round of the loop -/
  | loops
  /-- behind the loop -/
  | closes
  /-- behind `return` -/
  | returned
  deriving DecidableEq

/-- A part of `proxy_conn`, which ends in the stage that follows. -/
abbrev ConnProg (α : Type) : Type := Prog JpoolWorkData ConnCall Answer α

/-! ## The stages -/

/-- `pipe_open`, with the two descriptors in the answer. -/
def pipeOpen (put : Pipe → JpoolWorkData → JpoolWorkData) : ConnProg Int := do
  let r ← Prog.call .pipe
  if r.ret < 0 then
    pure (-1)
  else do
    Prog.update (put ⟨r.ready.getD 0 (-1), r.ready.getD 1 (-1)⟩)
    pure 0

/-- `pipe_close`. -/
def pipeClose (get : JpoolWorkData → Pipe) : ConnProg Unit := do
  let d ← Prog.state
  let _ ← Prog.call (.sys (.close (get d).rd))
  let d ← Prog.state
  let _ ← Prog.call (.sys (.close (get d).wr))
  pure ()

/-- `proxy_conn` up to its loop. -/
def connSetUp : ConnProg Stage := do
  Prog.update fun d => { d with ingoingTransc := transcClearData d.ingoingTransc }
  Prog.update fun d => { d with outgoingTransc := transcClearData d.outgoingTransc }
  let rv ← pipeOpen fun p d => { d with pipe1 := p }
  if rv < 0 then
    pure .returned
  else do
    let rv ← pipeOpen fun p d => { d with pipe2 := p }
    if rv < 0 then
      pure .returned
    else do
      let d ← Prog.state
      let r ← Prog.call (.epollAdd d.srcFd)
      if r.ret < 0 then pure .returned else pure .loops

/-- `proxy_process_data`. -/
def processData (fd : Int) : ConnProg (List Int) := fun d =>
  Prog.zoom (fun d => d.transc (d.dirOf fd)) (fun e t => e.setTransc (d.dirOf fd) t)
    (Prog.hoist .sys (forward fd (some (d.pipe (d.dirOf fd))) (d.peer (d.dirOf fd)))) d

/-- One event of the loop. -/
def connEvent (fd : Int) : ConnProg (List Int) := do
  let d ← Prog.state
  if fd = d.srcFd then
    processData d.srcFd
  else if fd = d.dstFd then
    processData d.dstFd
  else
    pure []

/-- The events of one `epoll_wait`.  The workers share the array
`proxy->events`, so these are whatever the worker finds in it. -/
def connEvents : List Int → ConnProg Unit
  | [] => pure ()
  | fd :: fds => do
    let _ ← connEvent fd
    connEvents fds

/-- `proxy_check_fd`. -/
def proxyCheckFd (fd : Int) : ConnProg Int := do
  let r ← Prog.call (.sys (.getsockopt fd))
  if r.ret < 0 then pure fdErr else pure normal

/-- `proxy_delete_src_info`: the descriptor leaves `fd_list` and the first
work data with this `src_fd` leaves `work_list`. -/
def proxyDeleteSrcInfo (srcFd : Int) : ConnProg Int := do
  let r ← Prog.call (.delFd srcFd)
  if r.ret < normal then
    pure r.ret
  else do
    let found ← Prog.call (.findWork srcFd)
    if found.ret < 0 then
      pure notExist
    else do
      let _ ← Prog.call (.delWork found.ret.toNat)
      pure normal

/-- The end of a connection, noticed at the top of the loop. -/
def connEnded (srcFd : Int) : ConnProg Stage := do
  let _ ← proxyDeleteSrcInfo srcFd
  pure .closes

/-- A round whose two descriptors are valid. -/
def connWait : ConnProg Stage := do
  let r ← Prog.call (.sys .epollWait)
  if r.ret < 0 then
    pure .closes
  else if r.ret = 0 then
    pure .loops
  else do
    connEvents r.ready
    pure .loops

/-- One round of the loop. -/
def connRound : ConnProg Stage := do
  let d ← Prog.state
  let rv ← proxyCheckFd d.srcFd
  if rv = fdErr then
    connEnded d.srcFd
  else do
    let rv ← proxyCheckFd d.dstFd
    if rv = fdErr then
      connEnded d.srcFd
    else
      connWait

/-- Behind the loop. -/
def connTearDown : ConnProg Stage := do
  pipeClose JpoolWorkData.pipe1
  pipeClose JpoolWorkData.pipe2
  pure .returned

/-- `proxy_conn`, one stage at a time. -/
def proxyConn : Stage → ConnProg Stage
  | .setUp => connSetUp
  | .loops => connRound
  | .closes => connTearDown
  | .returned => pure .returned

/-- Memory that happens to be zero. -/
def blank : JpoolWorkData where
  srcFd := 0
  dstFd := 0
  ingoingTransc := cleared
  outgoingTransc := cleared
  pipe1 := ⟨0, 0⟩
  pipe2 := ⟨0, 0⟩

/-! ## The event loop is the relay -/

/-- A worker with two open pipes and two different descriptors, as memory. -/
def raw (d : WorkData) : JpoolWorkData where
  srcFd := d.srcFd
  dstFd := d.dstFd
  ingoingTransc := d.ingoingTransc
  outgoingTransc := d.outgoingTransc
  pipe1 := d.pipe1
  pipe2 := d.pipe2

theorem raw_transc (d : WorkData) (dir : Dir) : (raw d).transc dir = d.transc dir := by
  cases dir <;> rfl

theorem raw_pipe (d : WorkData) (dir : Dir) : (raw d).pipe dir = d.pipe dir := by
  cases dir <;> rfl

theorem raw_peer (d : WorkData) (dir : Dir) : (raw d).peer dir = d.peer dir := by
  cases dir <;> rfl

theorem raw_setTransc (d : WorkData) (dir : Dir) (t : Transc) :
    raw (d.setTransc dir t) = (raw d).setTransc dir t := by
  cases dir <;> rfl

theorem processData_raw (fd : Int) (d : WorkData) :
    processData fd (raw d) = ((proxyProcessData fd d).lift raw).hoist .sys := by
  have hdir : (raw d).dirOf fd = d.dirOf fd := rfl
  simp only [processData, proxyProcessData, Prog.zoom, Prog.hoist, hdir, raw_transc, raw_pipe,
    raw_peer, Res.hoist_lift, Res.lift_lift, raw_setTransc]

/-- What is proved of the relay is proved of the events of `proxy_conn`. -/
theorem connEvent_raw (fd : Int) (d : WorkData) :
    connEvent fd (raw d) = ((proxyConnEvent fd d).lift raw).hoist .sys := by
  show (if fd = d.srcFd then processData d.srcFd
      else if fd = d.dstFd then processData d.dstFd else pure []) (raw d) =
    (((if fd = d.srcFd then proxyProcessData d.srcFd
      else if fd = d.dstFd then proxyProcessData d.dstFd else pure []) d).lift raw).hoist .sys
  split
  · exact processData_raw d.srcFd d
  · split
    · exact processData_raw d.dstFd d
    · rfl

/-! ## The entries a worker deletes -/

/-- The descriptors of the work data in the order of their creation; they only
grow in number, and a search finds what it was asked for. -/
def ListsAnswer (w : List Int) (_ : JpoolWorkData) (op : ConnCall) (r : Answer)
    (w' : List Int) : Prop :=
  w <+: w' ∧ ∀ fd, op = .findWork fd → 0 ≤ r.ret → w'[r.ret.toNat]? = some fd

/-- A worker touches only entries with its own `src_fd`, and only in its
loop. -/
def OwnEntries (srcFd : Int) (stage : Stage) (w : List Int) (_ : JpoolWorkData) :
    ConnCall → Prop
  | .delFd fd | .findWork fd => stage = .loops ∧ fd = srcFd
  | .delWork work => stage = .loops ∧ w[work]? = some srcFd
  | _ => True

/-- The work data still holds this `src_fd`. -/
def HasSrc (srcFd : Int) {α : Type} (_ : List Int) (d : JpoolWorkData) (_ : α) : Prop :=
  d.srcFd = srcFd

section Entries

variable {srcFd : Int} {stage : Stage} {d : JpoolWorkData} {w : List Int}

theorem wlp_processData (fd : Int) (h : d.srcFd = srcFd) :
    wlp ListsAnswer (OwnEntries srcFd stage) (HasSrc srcFd) (processData fd d) w := by
  unfold processData
  rw [wlp_zoom, wlp_hoist]
  apply wlp_of_forall
  · exact fun _ _ _ => True.intro
  · exact fun _ t _ => (d.srcFd_setTransc (d.dirOf fd) t).trans h

theorem wlp_connEvents (fds : List Int) (h : d.srcFd = srcFd) :
    wlp ListsAnswer (OwnEntries srcFd stage) (HasSrc srcFd) (connEvents fds d) w := by
  induction fds generalizing d w with
  | nil => exact h
  | cons fd fds ih =>
      have hevent : wlp ListsAnswer (OwnEntries srcFd stage) (HasSrc srcFd) (connEvent fd d) w := by
        unfold connEvent
        simp only [wlp_bind, wlp_state, wlp_ite, wlp_pure]
        exact ⟨fun _ => wlp_processData _ h, fun _ => ⟨fun _ => wlp_processData _ h, fun _ => h⟩⟩
      unfold connEvents
      rw [wlp_bind]
      exact wlp_post (fun w' d' _ hd' => ih hd') hevent

theorem wlp_connEnded (h : d.srcFd = srcFd) :
    wlp ListsAnswer (OwnEntries srcFd .loops) (HasSrc srcFd) (connEnded d.srcFd d) w := by
  unfold connEnded proxyDeleteSrcInfo
  simp only [wlp_bind, wlp_prog_call, wlp_ite, wlp_pure]
  refine ⟨⟨rfl, h⟩, fun r w₁ _ => ⟨fun _ => h, fun _ => ⟨⟨rfl, h⟩, fun found w₂ hfound => ?_⟩⟩⟩
  refine ⟨fun _ => h, fun hret => ⟨⟨rfl, ?_⟩, fun _ _ _ => h⟩⟩
  rw [hfound.2 d.srcFd rfl (by omega), h]

theorem wlp_proxyCheckFd {Q : List Int → JpoolWorkData → Int → Prop} (fd : Int)
    (hQ : ∀ w' rv, Q w' d rv) :
    wlp ListsAnswer (OwnEntries srcFd stage) Q (proxyCheckFd fd d) w := by
  unfold proxyCheckFd
  simp only [wlp_bind, wlp_prog_call, wlp_ite, wlp_pure]
  exact ⟨True.intro, fun r w' _ => ⟨fun _ => hQ w' _, fun _ => hQ w' _⟩⟩

theorem wlp_connWait (h : d.srcFd = srcFd) :
    wlp ListsAnswer (OwnEntries srcFd stage) (HasSrc srcFd) (connWait d) w := by
  unfold connWait
  simp only [wlp_bind, wlp_prog_call, wlp_ite, wlp_pure]
  refine ⟨True.intro, fun r w' _ => ⟨fun _ => h, fun _ => ⟨fun _ => h, fun _ => ?_⟩⟩⟩
  exact wlp_post (fun w'' d' _ hd' => hd') (wlp_connEvents r.ready h)

theorem wlp_connRound (h : d.srcFd = srcFd) :
    wlp ListsAnswer (OwnEntries srcFd .loops) (HasSrc srcFd) (connRound d) w := by
  unfold connRound
  simp only [wlp_bind, wlp_state]
  apply wlp_proxyCheckFd
  intro w₁ rv₁
  rw [wlp_ite]
  refine ⟨fun _ => wlp_connEnded h, fun _ => ?_⟩
  rw [wlp_bind]
  apply wlp_proxyCheckFd
  intro w₂ rv₂
  rw [wlp_ite]
  exact ⟨fun _ => wlp_connEnded h, fun _ => wlp_connWait h⟩

theorem wlp_pipeOpen {put : Pipe → JpoolWorkData → JpoolWorkData}
    {Q : List Int → JpoolWorkData → Int → Prop} (hfail : ∀ w', Q w' d (-1))
    (hopen : ∀ w' p, Q w' (put p d) 0) :
    wlp ListsAnswer (OwnEntries srcFd stage) Q (pipeOpen put d) w := by
  unfold pipeOpen
  simp only [wlp_bind, wlp_prog_call, wlp_ite, wlp_pure, wlp_update]
  exact ⟨True.intro, fun r w' _ => ⟨fun _ => hfail w', fun _ => hopen w' _⟩⟩

theorem wlp_connSetUp (h : d.srcFd = srcFd) :
    wlp ListsAnswer (OwnEntries srcFd stage) (HasSrc srcFd) (connSetUp d) w := by
  have hfailed : ∀ {p : ConnProg Stage} {d' : JpoolWorkData} {w' : List Int},
      d'.srcFd = srcFd →
      wlp ListsAnswer (OwnEntries srcFd stage) (HasSrc srcFd)
        ((if (-1 : Int) < 0 then pure .returned else p) d') w' := by
    intro p d' w' h'
    rw [if_pos (by decide)]
    exact h'
  unfold connSetUp
  simp only [wlp_bind, wlp_update]
  apply wlp_pipeOpen
  · exact fun w₁ => hfailed h
  intro w₁ p₁
  rw [if_neg (by decide), wlp_bind]
  apply wlp_pipeOpen
  · exact fun w₂ => hfailed h
  intro w₂ p₂
  rw [if_neg (by decide)]
  simp only [wlp_bind, wlp_state, wlp_prog_call, wlp_ite, wlp_pure]
  exact ⟨True.intro, fun r w₃ _ => ⟨fun _ => h, fun _ => h⟩⟩

/-- At the end of a stage the descriptor is still there; behind the loop
`proxy_conn` only returns. -/
def Ends (srcFd : Int) (stage : Stage) (_ : List Int) (d : JpoolWorkData) (after : Stage) :
    Prop :=
  d.srcFd = srcFd ∧ (stage = .closes → after = .returned)

/-- Every stage touches only the worker's own entries and keeps its
descriptor. -/
theorem wlp_proxyConn (stage : Stage) (h : d.srcFd = srcFd) :
    wlp ListsAnswer (OwnEntries srcFd stage) (Ends srcFd stage) (proxyConn stage d) w := by
  cases stage with
  | setUp => exact wlp_post (fun _ _ _ hd => ⟨hd, by rintro ⟨⟩⟩) (wlp_connSetUp h)
  | loops => exact wlp_post (fun _ _ _ hd => ⟨hd, by rintro ⟨⟩⟩) (wlp_connRound h)
  | closes =>
      unfold proxyConn connTearDown pipeClose
      simp only [wlp_bind, wlp_state, wlp_prog_call, wlp_pure]
      exact ⟨True.intro, fun _ _ _ => ⟨True.intro, fun _ _ _ => ⟨True.intro, fun _ _ _ =>
        ⟨True.intro, fun _ _ _ => ⟨h, fun _ => rfl⟩⟩⟩⟩⟩
  | returned => exact ⟨h, fun _ => rfl⟩

end Entries

end ZeroCopyProxy.Ports.ProxyConn
