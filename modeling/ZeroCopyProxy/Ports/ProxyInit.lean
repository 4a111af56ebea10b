import ZeroCopyProxy.Ports.Posix
import ZeroCopyProxy.Verified.Stages
import Mathlib.Data.List.Count

/-!
# Setting up the proxy: `proxy_init`

`proxy_init` acquires a listening socket, a pool, a connection to the
destination and an epoll handle, one after the other.  Each step can fail, and
three functions share the work of undoing what was done before.  Their codes
overlap: `FD_ERR` says that `proxy_set_sock` has freed the proxy or that it has
not, and `proxy_open_dst` returns descriptors and values of `errno` alike.

The calls and their answers are the world.  `TwoOutcomes` is what should be
left behind and `Sound` the condition on the answers under which it is.  The
`connect` of `proxy_open_dst` is repeated until it succeeds, so `proxy_init`
runs in stages.
-/

namespace ZeroCopyProxy.Ports.ProxyInit

open ZeroCopyProxy.Verified.Resumption
open ZeroCopyProxy.Verified.Liberal
open ZeroCopyProxy.Verified.Transitions (unconditional exists_reach_of_exec)
open ZeroCopyProxy.Verified.Stages
open ZeroCopyProxy.Ports.Posix

/-! ## The memory and the calls -/

/-- `struct proxy_s`, without the lists and the array of events. -/
structure Proxy where
  fd : Int
  dstFd : Int
  jpool : Int
  epollHandleFd : Int
  localIp : String
  localPort : Int
  dstIp : String
  dstPort : Int

/-- The arguments of the program, the two ports as numbers. -/
structure Args where
  localIp : String
  localPort : Int
  dstIp : String
  dstPort : Int

/-- What `proxy_init` asks of its environment. -/
inductive InitCall where
  | socket
  /-- `SO_REUSEADDR` -/
  | setsockopt (fd : Int)
  | bind (fd : Int) (ip : String) (port : Int)
  | listen (fd : Int) (backlog : Nat)
  | fcntlGetfl (fd : Int)
  | fcntlSetfl (fd : Int) (flags : Nat)
  /-- the answer is 0 for a null pointer; its bytes are the address -/
  | gethostbyname (name : String)
  /-- the answer is 0 for a null pointer -/
  | jpoolInit (threads : Nat)
  | connect (fd : Int) (host : Bytes) (port : Int)
  | epollCreate (size : Nat)
  | epollAdd (epfd fd : Int)
  | close (fd : Int)
  /-- `free( proxy)` -/
  | free
  deriving DecidableEq

/-- `SOC_ERR`, `OBJECT_ERR` and `HOST_ERR` of `common_l.h`. -/
def socErr : Int := -2
def objectErr : Int := -1
def hostErr : Int := -6

/-- The value of `errno`, and `EINPROGRESS`. -/
def errnoValue : Errno → Int
  | .eagain | .ewouldblock => 11
  | .eintr => 4
  | .other code => code

theorem errnoValue_nonneg (e : Errno) : 0 ≤ errnoValue e := by
  cases e with
  | other code => exact Int.natCast_nonneg code
  | eagain | ewouldblock | eintr => decide

/-- What `proxy_init` does next. -/
inductive Stage where
  /-- from the call of `proxy_init` to the loop of `proxy_open_dst` -/
  | enters
  /-- one round of that loop -/
  | connects (dstFd : Int) (host : Bytes)
  /-- behind `proxy_open_dst`, which has returned this -/
  | opened (dstFd : Int)
  | returned (rv : Int)
  deriving DecidableEq

/-- A part of `proxy_init`. -/
abbrev InitProg (α : Type) : Type := Prog Proxy InitCall Answer α

/-! ## The stages -/

/-- `proxy_set_fd_nonblock`; `O_NONBLOCK` is 2048. -/
def proxySetFdNonblock (fd : Int) : InitProg Int := do
  let r ← Prog.call (.fcntlGetfl fd)
  if r.ret < 0 then
    pure fdErr
  else do
    let r ← Prog.call (.fcntlSetfl fd (r.ret.toNat ||| 2048))
    if r.ret < 0 then pure fdErr else pure normal

/-- `proxy_set_sock`. -/
def proxySetSock : InitProg Int := do
  let r ← Prog.call .socket
  Prog.update fun p => { p with fd := r.ret }
  if r.ret < 0 then do
    let _ ← Prog.call .free
    pure fdErr
  else do
    let p ← Prog.state
    let r ← Prog.call (.setsockopt p.fd)
    if r.ret ≠ 0 then do
      let _ ← Prog.call .free
      pure fdErr
    else do
      let r ← Prog.call (.bind p.fd p.localIp p.localPort)
      if r.ret < 0 then
        pure socErr
      else do
        let r ← Prog.call (.listen p.fd 10)
        if r.ret ≠ 0 then
          pure socErr
        else do
          let rv ← proxySetFdNonblock p.fd
          if rv < 0 then pure rv else pure normal

/-- `proxy_open_dst` up to its loop. -/
def proxyOpenDst : InitProg Stage := do
  let p ← Prog.state
  let host ← Prog.call (.gethostbyname p.dstIp)
  if host.ret = 0 then
    pure (.opened hostErr)
  else do
    let dst ← Prog.call .socket
    if dst.ret < 0 then
      pure (.opened (errnoValue dst.errno))
    else do
      let r ← Prog.call (.setsockopt dst.ret)
      if r.ret ≠ 0 then
        pure (.opened (errnoValue r.errno))
      else do
        let rv ← proxySetFdNonblock dst.ret
        if rv < 0 then pure (.opened rv) else pure (.connects dst.ret host.data)

/-- One round of the loop of `proxy_open_dst`.  `EINPROGRESS` is followed by
`continue`, any other error by the end of the body. -/
def proxyConnect (dstFd : Int) (host : Bytes) : InitProg Stage := do
  let p ← Prog.state
  let r ← Prog.call (.connect dstFd host p.dstPort)
  if r.ret = -1 then pure (.connects dstFd host) else pure (.opened dstFd)

/-- `close( proxy->fd)`, `free( proxy)` and `return`. -/
def initFails (rv : Int) : InitProg Stage := do
  let p ← Prog.state
  let _ ← Prog.call (.close p.fd)
  let _ ← Prog.call .free
  pure (.returned rv)

/-- `proxy_init` up to the loop of `proxy_open_dst`. -/
def initEnters (args : Args) : InitProg Stage := do
  Prog.update fun p =>
    { p with
      localIp := args.localIp
      localPort := args.localPort
      dstIp := args.dstIp
      dstPort := args.dstPort }
  let rv ← proxySetSock
  if rv = fdErr then do
    let _ ← Prog.call .free
    pure (.returned fdErr)
  else if rv = socErr then
    initFails socErr
  else do
    let r ← Prog.call (.jpoolInit 2)
    Prog.update fun p => { p with jpool := r.ret }
    if r.ret = 0 then initFails objectErr else proxyOpenDst

/-- `proxy_init` behind `proxy_open_dst`. -/
def initOpened (dstFd : Int) : InitProg Stage := do
  Prog.update fun p => { p with dstFd := dstFd }
  if dstFd ≤ fdErr then
    initFails fdErr
  else do
    let r ← Prog.call (.epollCreate 1024)
    Prog.update fun p => { p with epollHandleFd := r.ret }
    if r.ret < 0 then
      pure (.returned fdErr)
    else do
      let p ← Prog.state
      let r ← Prog.call (.epollAdd p.epollHandleFd p.dstFd)
      if r.ret < 0 then pure (.returned objectErr) else pure (.returned normal)

/-- `proxy_init`, stage by stage. -/
def proxyInit (args : Args) : Stage → InitProg Stage
  | .enters => initEnters args
  | .connects dstFd host => proxyConnect dstFd host
  | .opened dstFd => initOpened dstFd
  | .returned rv => pure (.returned rv)

/-! ## Histories -/

/-- A call with its answer. -/
abbrev InitEvent : Type := InitCall × Answer

def calls (log : List InitEvent) : List InitCall := log.map Prod.fst

/-- The descriptor a call has opened. -/
def openedBy : InitEvent → List Int
  | (.socket, r) | (.epollCreate _, r) => if r.ret < 0 then [] else [r.ret]
  | _ => []

/-- The descriptors opened so far. -/
def opened (log : List InitEvent) : List Int := log.flatMap openedBy

/-- The answers that are possible: 0 or -1 where there is nothing else to
return, and no descriptor that is open already. -/
def Possible (log : List InitEvent) : InitCall → Answer → Prop
  | .socket, r | .epollCreate _, r =>
      r.ret = -1 ∨ (0 ≤ r.ret ∧ (r.ret ∈ opened log → .close r.ret ∈ calls log))
  | .fcntlGetfl _, r => -1 ≤ r.ret
  | .setsockopt _, r | .bind _ _ _, r | .listen _ _, r | .fcntlSetfl _ _, r
  | .connect _ _ _, r | .epollAdd _ _, r | .close _, r => r.ret = 0 ∨ r.ret = -1
  | .gethostbyname _, _ | .jpoolInit _, _ | .free, _ => True

instance (log : List InitEvent) (op : InitCall) (r : Answer) : Decidable (Possible log op r) :=
  match op with
  | .socket | .epollCreate _ =>
      inferInstanceAs (Decidable (r.ret = -1 ∨
        (0 ≤ r.ret ∧ (r.ret ∈ opened log → .close r.ret ∈ calls log))))
  | .fcntlGetfl _ => inferInstanceAs (Decidable (-1 ≤ r.ret))
  | .setsockopt _ | .bind _ _ _ | .listen _ _ | .fcntlSetfl _ _ | .connect _ _ _
  | .epollAdd _ _ | .close _ => inferInstanceAs (Decidable (r.ret = 0 ∨ r.ret = -1))
  | .gethostbyname _ | .jpoolInit _ | .free => .isTrue True.intro

/-- The history as a function on answers. -/
def deliver (log : List InitEvent) (_ : Proxy) (op : InitCall) (r : Answer) :
    Option (List InitEvent) :=
  if Possible log op r then some (log ++ [(op, r)]) else none

theorem deliver_eq {log log' : List InitEvent} {p : Proxy} {op : InitCall} {r : Answer}
    (h : delivers deliver log p op r log') : Possible log op r ∧ log' = log ++ [(op, r)] := by
  unfold delivers deliver at h
  split at h
  · next hp => exact ⟨hp, (Option.some.inj h).symm⟩
  · cases h

abbrev InitConfig : Type := Config (List InitEvent) Proxy InitCall Answer Stage

/-- Whether there is another stage. -/
def goesOn : Stage → Bool
  | .returned _ => false
  | _ => true

/-- The runs of `proxy_init` on memory of which nothing is known. -/
abbrev Run (args : Args) (p : Proxy) (c : InitConfig) : Prop :=
  Verified.Transitions.Reach (stageStep deliver (proxyInit args) goesOn) unconditional
    ⟨[], .done p .enters⟩ c

/-- What `proxy_init` has returned. -/
def returned (c : InitConfig) : Option Int :=
  match c.node with
  | .done _ (.returned rv) => some rv
  | _ => none

/-! ## The law and the condition -/

/-- A call that releases something. -/
def Releases : InitCall → Prop
  | .close _ | .free => True
  | _ => False

/-- The proxy listens, is connected, and waits for its destination. -/
structure Ready (log : List InitEvent) (p : Proxy) : Prop where
  listens : ∃ r, (.listen p.fd 10, r) ∈ log ∧ r.ret = 0
  socket : ∃ r, (.socket, r) ∈ log ∧ r.ret = p.dstFd
  connected : ∃ host port r, (.connect p.dstFd host port, r) ∈ log ∧ r.ret = 0
  registered : ∃ r, (.epollAdd p.epollHandleFd p.dstFd, r) ∈ log ∧ r.ret = 0
  kept : ∀ e ∈ log, ¬ Releases e.1

/-- Everything is undone. -/
structure Undone (log : List InitEvent) : Prop where
  closed : ∀ fd ∈ opened log, (calls log).count (.close fd) = 1
  freed : (calls log).count .free = 1

/-- Success, or a negative code and nothing left behind. -/
def TwoOutcomes (log : List InitEvent) (p : Proxy) (rv : Int) : Prop :=
  (rv = normal ∧ Ready log p) ∨ (rv < 0 ∧ Undone log)

/-- One of the calls whose failure is not undone. -/
def Fatal : InitEvent → Prop
  | (.socket, r) | (.setsockopt _, r) | (.fcntlGetfl _, r) | (.fcntlSetfl _ _, r)
  | (.epollCreate _, r) | (.epollAdd _ _, r) => r.ret < 0
  | _ => False

instance (e : InitEvent) : Decidable (Fatal e) :=
  match e with
  | (.socket, r) | (.setsockopt _, r) | (.fcntlGetfl _, r) | (.fcntlSetfl _ _, r)
  | (.epollCreate _, r) | (.epollAdd _ _, r) => inferInstanceAs (Decidable (r.ret < 0))
  | (.bind _ _ _, _) | (.listen _ _, _) | (.gethostbyname _, _) | (.jpoolInit _, _)
  | (.connect _ _ _, _) | (.close _, _) | (.free, _) => .isFalse id

/-- No such call has failed; `bind`, `listen`, `jpool_init`, `gethostbyname`
and `connect` may have. -/
def Sound (log : List InitEvent) : Prop := ∀ e ∈ log, ¬ Fatal e

instance (log : List InitEvent) : Decidable (Sound log) :=
  inferInstanceAs (Decidable (∀ e ∈ log, ¬ Fatal e))

/-! ## What holds of a history -/

section Histories

variable {log es : List InitEvent} {e : InitEvent} {fd : Int} {fds : List Int} {p : Proxy}
  {rv : Int}

theorem opened_append : opened (log ++ es) = opened log ++ opened es :=
  List.flatMap_append

theorem calls_append : calls (log ++ es) = calls log ++ calls es :=
  List.map_append

/-- Nothing has been released. -/
def Kept (log : List InitEvent) : Prop := ∀ e ∈ log, ¬ Releases e.1

theorem Kept.not_mem_calls (h : Kept log) {op : InitCall} (hop : Releases op) :
    op ∉ calls log := by
  intro hmem
  obtain ⟨e, he, rfl⟩ := List.mem_map.1 hmem
  exact h e he hop

/-- An attempt to reach the destination. -/
def Connects : InitCall → Prop
  | .connect _ _ _ => True
  | _ => False

def Unconnected (log : List InitEvent) : Prop := ∀ e ∈ log, ¬ Connects e.1

theorem not_sound (hfatal : ∃ e ∈ log, Fatal e) : ¬ Sound log := by
  obtain ⟨e, he, hbad⟩ := hfatal
  exact fun hsound => hsound e he hbad

/-- The code is not `NORMAL`, a call has failed that should not, and some
descriptor is still open. -/
theorem leaves_open (hrv : rv ≠ normal) (hfatal : ∃ e ∈ log, Fatal e) (hfd : fd ∈ opened log)
    (hclose : .close fd ∉ calls log) : TwoOutcomes log p rv ↔ Sound log := by
  refine iff_of_false ?_ (not_sound hfatal)
  intro htwo
  rcases htwo with ⟨hnormal, -⟩ | ⟨-, hundone⟩
  · exact hrv hnormal
  · have hone := hundone.closed fd hfd
    rw [List.count_eq_zero.2 hclose] at hone
    exact absurd hone (by decide)

/-- The same for a proxy that was freed more than once. -/
theorem frees_again (hrv : rv ≠ normal) (hfatal : ∃ e ∈ log, Fatal e)
    (hfree : 1 < (calls log).count .free) : TwoOutcomes log p rv ↔ Sound log := by
  refine iff_of_false ?_ (not_sound hfatal)
  intro htwo
  rcases htwo with ⟨hnormal, -⟩ | ⟨-, hundone⟩
  · exact hrv hnormal
  · have hone := hundone.freed
    omega

/-- `NORMAL` without a `connect`. -/
theorem never_connects (hfatal : ∃ e ∈ log, Fatal e) (hconnect : Unconnected log) :
    TwoOutcomes log p normal ↔ Sound log := by
  refine iff_of_false ?_ (not_sound hfatal)
  intro htwo
  rcases htwo with ⟨-, hready⟩ | ⟨hneg, -⟩
  · obtain ⟨host, port, r, hmem, -⟩ := hready.connected
    exact hconnect _ hmem True.intro
  · exact absurd hneg (by decide)

/-- These descriptors are open, nothing was released, and no failure has
happened that is not undone. -/
structure Holding (log : List InitEvent) (fds : List Int) : Prop where
  opens : opened log = fds
  sound : Sound log
  kept : Kept log

theorem holding_nil : Holding [] [] where
  opens := rfl
  sound := List.forall_mem_nil _
  kept := List.forall_mem_nil _

theorem Holding.append (h : Holding log fds) (hsound : ¬ Fatal e) (hkept : ¬ Releases e.1) :
    Holding (log ++ [e]) (fds ++ openedBy e) where
  opens := by rw [opened_append, h.opens, opened, List.flatMap_singleton]
  sound := List.forall_mem_append.2 ⟨h.sound, List.forall_mem_singleton.2 hsound⟩
  kept := List.forall_mem_append.2 ⟨h.kept, List.forall_mem_singleton.2 hkept⟩

/-- A call that opens nothing. -/
theorem Holding.snoc (h : Holding log fds) (hnone : openedBy e = []) (hsound : ¬ Fatal e)
    (hkept : ¬ Releases e.1) : Holding (log ++ [e]) fds := by
  have happend := h.append hsound hkept
  rwa [hnone, List.append_nil] at happend

/-- `close( proxy->fd)` and `free( proxy)`, where only the socket is open. -/
theorem Holding.undone (h : Holding log [fd]) (hrv : rv < 0) (r r' : Answer) :
    TwoOutcomes (log ++ [(.close fd, r)] ++ [(.free, r')]) p rv ↔
      Sound (log ++ [(.close fd, r)] ++ [(.free, r')]) := by
  have hcalls : calls (log ++ [(.close fd, r)] ++ [(.free, r')]) =
      calls log ++ [.close fd] ++ [.free] := by
    rw [calls_append, calls_append]
    rfl
  have hopened : opened (log ++ [(.close fd, r)] ++ [(.free, r')]) = [fd] := by
    rw [opened_append, opened_append, h.opens]
    rfl
  have hclose : .close fd ∉ calls log := h.kept.not_mem_calls True.intro
  have hfree : .free ∉ calls log := h.kept.not_mem_calls True.intro
  refine iff_of_true (.inr ⟨hrv, ?_, ?_⟩) ?_
  · rw [hopened, List.forall_mem_singleton, hcalls, List.count_append, List.count_append,
      List.count_eq_zero.2 hclose, List.count_singleton_self]
    rfl
  · rw [hcalls, List.count_append, List.count_append, List.count_eq_zero.2 hfree,
      List.count_singleton_self]
    rfl
  · exact List.forall_mem_append.2 ⟨List.forall_mem_append.2 ⟨h.sound,
      List.forall_mem_singleton.2 id⟩, List.forall_mem_singleton.2 id⟩

/-- Success. -/
theorem Holding.ready (h : Holding log fds) (hready : Ready log p) :
    TwoOutcomes log p normal ↔ Sound log :=
  iff_of_true (.inl ⟨rfl, hready⟩) h.sound

/-- These descriptors are open, nothing was released, and a call has failed
that should not. -/
structure Failing (log : List InitEvent) (fds : List Int) : Prop where
  opens : opened log = fds
  fatal : ∃ e ∈ log, Fatal e
  kept : Kept log

theorem Failing.leaves (h : Failing log fds) (hfd : fd ∈ fds) (hrv : rv ≠ normal) :
    TwoOutcomes log p rv ↔ Sound log := by
  have hopen : fd ∈ opened log := by
    rw [h.opens]
    exact hfd
  exact leaves_open hrv h.fatal hopen (h.kept.not_mem_calls True.intro)

/-- Another call that releases nothing. -/
theorem Failing.append (h : Failing log fds) (hkept : ¬ Releases e.1) :
    Failing (log ++ [e]) (fds ++ openedBy e) where
  opens := by rw [opened_append, h.opens, opened, List.flatMap_singleton]
  fatal := by
    obtain ⟨e', he, hbad⟩ := h.fatal
    exact ⟨e', List.mem_append_left _ he, hbad⟩
  kept := List.forall_mem_append.2 ⟨h.kept, List.forall_mem_singleton.2 hkept⟩

/-- A call that fails opens nothing. -/
theorem Holding.fails (h : Holding log fds) (hfatal : Fatal e) :
    Failing (log ++ [e]) fds := by
  obtain ⟨op, r⟩ := e
  have hcall : openedBy (op, r) = [] ∧ ¬ Releases op := by
    cases op with
    | socket | epollCreate => exact ⟨if_pos hfatal, id⟩
    | setsockopt | fcntlGetfl | fcntlSetfl | epollAdd => exact ⟨rfl, id⟩
    | bind | listen | gethostbyname | jpoolInit | connect | close | free => exact hfatal.elim
  refine ⟨?_, ⟨_, List.mem_append_right log (List.mem_singleton_self _), hfatal⟩, ?_⟩
  · rw [opened_append, h.opens, opened, List.flatMap_singleton, hcall.1, List.append_nil]
  · exact List.forall_mem_append.2 ⟨h.kept, List.forall_mem_singleton.2 hcall.2⟩

theorem Unconnected.snoc (h : Unconnected log) (he : ¬ Connects e.1) :
    Unconnected (log ++ [e]) :=
  List.forall_mem_append.2 ⟨h, List.forall_mem_singleton.2 he⟩

/-- `setsockopt` returns 0 or it fails. -/
theorem fatal_of_setsockopt {r : Answer} (hr : Possible log (.setsockopt fd) r)
    (hne : r.ret ≠ 0) : Fatal (.setsockopt fd, r) := by
  have hminus : r.ret = -1 := Or.resolve_left hr hne
  show r.ret < 0
  omega

end Histories

/-! ## The parts -/

/-- Nothing is asked of the calls. -/
abbrev anyCall : List InitEvent → Proxy → InitCall → Prop := fun _ _ _ => True

section Parts

variable {log : List InitEvent} {p : Proxy} {fds : List Int}

/-- The flags of an open descriptor, read and written. -/
theorem wlp_proxySetFdNonblock {Q : List InitEvent → Proxy → Int → Prop} {fd : Int}
    (h : Holding log fds) (hc : Unconnected log)
    (hfail : ∀ log', Failing log' fds → Q log' p fdErr)
    (hok : ∀ log', log ⊆ log' → Holding log' fds → Unconnected log' → Q log' p normal) :
    wlp (delivers deliver) anyCall Q (proxySetFdNonblock fd p) log := by
  simp only [proxySetFdNonblock, wlp_bind, wlp_prog_call, wlp_ite, wlp_pure]
  refine ⟨True.intro, fun r w hk => ?_⟩
  obtain ⟨-, rfl⟩ := deliver_eq hk
  refine ⟨fun hneg => hfail _ (h.fails hneg), fun hget => ⟨True.intro, fun r' w hk' => ?_⟩⟩
  obtain ⟨-, rfl⟩ := deliver_eq hk'
  have hflags : Holding (log ++ [(.fcntlGetfl fd, r)]) fds := h.snoc rfl hget id
  refine ⟨fun hneg => hfail _ (hflags.fails hneg), fun hset => ?_⟩
  refine hok _ ?_ (hflags.snoc rfl hset id) ?_
  · exact List.Subset.trans (List.subset_append_left _ _) (List.subset_append_left _ _)
  · exact (hc.snoc id).snoc id

/-- A socket that is ready to accept, or one of three failures. -/
theorem wlp_proxySetSock {Q : List InitEvent → Proxy → Int → Prop}
    (hfreed : ∀ log p', (∃ e ∈ log, Fatal e) → (calls log).count .free = 1 → Q log p' fdErr)
    (hleft : ∀ log p' fd, Failing log [fd] → Q log p' fdErr)
    (hundone : ∀ log p', Holding log [p'.fd] → Q log p' socErr)
    (hlistens : ∀ log p', Holding log [p'.fd] → Unconnected log →
      (∃ r, (.listen p'.fd 10, r) ∈ log ∧ r.ret = 0) → Q log p' normal) :
    wlp (delivers deliver) anyCall Q (proxySetSock p) [] := by
  -- behind a failed call the proxy is freed
  have hfree : ∀ {log fds} {p' : Proxy} {r : Answer}, Failing log fds →
      Q (log ++ [(.free, r)]) p' fdErr := by
    intro log fds p' r h
    obtain ⟨e, he, hbad⟩ := h.fatal
    refine hfreed _ p' ⟨e, List.mem_append_left _ he, hbad⟩ ?_
    have hnone : .free ∉ calls log := h.kept.not_mem_calls True.intro
    have hlast : calls (log ++ [(.free, r)]) = calls log ++ [.free] := calls_append
    rw [hlast, List.count_append, List.count_eq_zero.2 hnone, List.count_singleton_self]
  simp only [proxySetSock, wlp_bind, wlp_prog_call, wlp_ite, wlp_pure, wlp_update, wlp_state]
  refine ⟨True.intro, fun r₁ w hk => ?_⟩
  obtain ⟨-, rfl⟩ := deliver_eq hk
  refine ⟨fun hneg => ⟨True.intro, fun r w hk => ?_⟩, fun hsock => ⟨True.intro, fun r₂ w hk => ?_⟩⟩
  · obtain ⟨-, rfl⟩ := deliver_eq hk
    exact hfree (holding_nil.fails hneg)
  obtain ⟨hzero, rfl⟩ := deliver_eq hk
  have h₁ : Holding ([] ++ [(.socket, r₁)]) [r₁.ret] := by
    have happend := holding_nil.append (e := (.socket, r₁)) hsock id
    rwa [openedBy, if_neg hsock] at happend
  have hc₁ : Unconnected ([] ++ [(.socket, r₁)]) :=
    Unconnected.snoc (List.forall_mem_nil _) id
  refine ⟨fun hne => ⟨True.intro, fun r w hk => ?_⟩, fun hopt => ⟨True.intro, fun r₃ w hk => ?_⟩⟩
  · obtain ⟨-, rfl⟩ := deliver_eq hk
    exact hfree (h₁.fails (fatal_of_setsockopt hzero hne))
  obtain ⟨-, rfl⟩ := deliver_eq hk
  have hgood : ¬ r₂.ret < 0 := by omega
  have h₂ := (h₁.snoc (e := (.setsockopt r₁.ret, r₂)) rfl hgood id).snoc
    (e := (.bind r₁.ret p.localIp p.localPort, r₃)) rfl id id
  have hc₂ := (hc₁.snoc (e := (.setsockopt r₁.ret, r₂)) id).snoc
    (e := (.bind r₁.ret p.localIp p.localPort, r₃)) id
  refine ⟨fun _ => hundone _ _ h₂, fun _ => ⟨True.intro, fun r₄ w hk => ?_⟩⟩
  obtain ⟨-, rfl⟩ := deliver_eq hk
  have h₃ := h₂.snoc (e := (.listen r₁.ret 10, r₄)) rfl id id
  have hc₃ := hc₂.snoc (e := (.listen r₁.ret 10, r₄)) id
  refine ⟨fun _ => hundone _ _ h₃, fun hlisten => ?_⟩
  have hzero₄ : r₄.ret = 0 := by omega
  refine wlp_proxySetFdNonblock h₃ hc₃ ?_ ?_
  · intro log' hfails
    exact ⟨fun _ => hleft log' _ _ hfails, fun hnot => absurd (by decide) hnot⟩
  · intro log' hsub hhold hconn
    refine ⟨fun hneg => absurd hneg (by decide), fun _ => hlistens log' _ hhold hconn ?_⟩
    exact ⟨r₄, hsub (List.mem_append_right _ (List.mem_singleton_self _)), hzero₄⟩

/-- The proxy listens on a socket of its own, and there is a socket for the
destination. -/
structure Connecting (log : List InitEvent) (p : Proxy) (dstFd : Int) : Prop where
  holding : Holding log [p.fd, dstFd]
  nonneg : 0 ≤ dstFd
  listens : ∃ r, (.listen p.fd 10, r) ∈ log ∧ r.ret = 0
  socket : ∃ r, (.socket, r) ∈ log ∧ r.ret = dstFd

/-- `proxy_open_dst` has failed: with a value of `errno`, or with `FD_ERR` and
a second descriptor that nobody knows of. -/
inductive Misled (log : List InitEvent) (p : Proxy) : Int → Prop
  | errno {fds : List Int} {dstFd : Int} (hfails : Failing log fds) (hfd : p.fd ∈ fds)
      (hc : Unconnected log) (hcode : 0 ≤ dstFd) : Misled log p dstFd
  | fdErr {fd : Int} (hfails : Failing log [p.fd, fd]) (hne : fd ≠ p.fd) : Misled log p fdErr

/-- What `proxy_open_dst` hands to its loop or to its caller. -/
def Opens (log : List InitEvent) (p : Proxy) : Stage → Prop
  | .connects dstFd _ => Connecting log p dstFd
  | .opened dstFd => (dstFd = hostErr ∧ Holding log [p.fd]) ∨ Misled log p dstFd
  | .enters | .returned _ => False

theorem wlp_proxyOpenDst (h : Holding log [p.fd]) (hc : Unconnected log)
    (hl : ∃ r, (.listen p.fd 10, r) ∈ log ∧ r.ret = 0) :
    wlp (delivers deliver) anyCall (fun log' p' stage => Opens log' p' stage)
      (proxyOpenDst p) log := by
  simp only [proxyOpenDst, wlp_bind, wlp_prog_call, wlp_ite, wlp_pure, wlp_state]
  refine ⟨True.intro, fun r₁ w hk => ?_⟩
  obtain ⟨-, rfl⟩ := deliver_eq hk
  have h₁ := h.snoc (e := (.gethostbyname p.dstIp, r₁)) rfl id id
  have hc₁ := hc.snoc (e := (.gethostbyname p.dstIp, r₁)) id
  refine ⟨fun _ => .inl ⟨rfl, h₁⟩, fun _ => ⟨True.intro, fun r₂ w hk => ?_⟩⟩
  obtain ⟨hnew, rfl⟩ := deliver_eq hk
  have hc₂ := hc₁.snoc (e := (.socket, r₂)) id
  refine ⟨fun hneg => ?_, fun hsock => ⟨True.intro, fun r₃ w hk => ?_⟩⟩
  · exact .inr (.errno (h₁.fails hneg) (List.mem_singleton_self _) hc₂ (errnoValue_nonneg _))
  obtain ⟨hzero, rfl⟩ := deliver_eq hk
  have h₂ : Holding (log ++ [(.gethostbyname p.dstIp, r₁)] ++ [(.socket, r₂)])
      [p.fd, r₂.ret] := by
    have happend := h₁.append (e := (.socket, r₂)) hsock id
    rwa [openedBy, if_neg hsock] at happend
  have hc₃ := hc₂.snoc (e := (.setsockopt r₂.ret, r₃)) id
  refine ⟨fun hne => ?_, fun hopt => ?_⟩
  · have hfails := h₂.fails (fatal_of_setsockopt hzero hne)
    exact .inr (.errno hfails List.mem_cons_self hc₃ (errnoValue_nonneg _))
  have hgood : ¬ r₃.ret < 0 := by omega
  have hdiff : r₂.ret ≠ p.fd := by
    intro heq
    rcases hnew with hminus | ⟨-, hreused⟩
    · omega
    · refine absurd (hreused ?_) (h₁.kept.not_mem_calls True.intro)
      rw [h₁.opens, heq]
      exact List.mem_singleton_self _
  refine wlp_proxySetFdNonblock (h₂.snoc (e := (.setsockopt r₂.ret, r₃)) rfl hgood id) hc₃ ?_ ?_
  · intro log' hfails
    exact ⟨fun _ => .inr (.fdErr hfails hdiff), fun hnot => absurd (by decide) hnot⟩
  · intro log' hsub hhold hconn
    refine ⟨fun hneg => absurd hneg (by decide), fun _ => ⟨hhold, by omega, ?_, ?_⟩⟩
    · obtain ⟨r, hmem, hret⟩ := hl
      exact ⟨r, hsub (List.mem_append_left _ (List.mem_append_left _
        (List.mem_append_left _ hmem))), hret⟩
    · exact ⟨r₂, hsub (List.mem_append_left _ (List.mem_append_right _
        (List.mem_singleton_self _))), rfl⟩

/-- `close( proxy->fd)` and `free( proxy)`. -/
theorem wlp_initFails {Q : List InitEvent → Proxy → Stage → Prop} {rv : Int}
    (h : ∀ r r', Q (log ++ [(.close p.fd, r)] ++ [(.free, r')]) p (.returned rv)) :
    wlp (delivers deliver) anyCall Q (initFails rv p) log := by
  simp only [initFails, wlp_bind, wlp_prog_call, wlp_pure, wlp_state]
  refine ⟨True.intro, fun r w hk => ⟨True.intro, fun r' w' hk' => ?_⟩⟩
  obtain ⟨-, rfl⟩ := deliver_eq hk
  obtain ⟨-, rfl⟩ := deliver_eq hk'
  exact h r r'

/-- What holds where a stage ends and the next one begins. -/
def Between (log : List InitEvent) (p : Proxy) : Stage → Prop
  | .enters => log = []
  | .connects dstFd _ => Connecting log p dstFd
  | .opened dstFd =>
      (Connecting log p dstFd ∧ ∃ host port r, (.connect dstFd host port, r) ∈ log ∧ r.ret = 0) ∨
        (dstFd = hostErr ∧ Holding log [p.fd]) ∨ Misled log p dstFd
  | .returned rv => TwoOutcomes log p rv ↔ Sound log

theorem wlp_initEnters (args : Args) :
    wlp (delivers deliver) anyCall Between (initEnters args p) [] := by
  simp only [initEnters, wlp_bind, wlp_update]
  refine wlp_proxySetSock ?_ ?_ ?_ ?_
  · intro log p' hfatal hfree
    simp only [wlp_ite, wlp_bind, wlp_prog_call, wlp_pure]
    refine ⟨fun _ => ⟨True.intro, fun r w hk => ?_⟩, fun hnot => absurd True.intro hnot⟩
    obtain ⟨-, rfl⟩ := deliver_eq hk
    obtain ⟨e, he, hbad⟩ := hfatal
    refine frees_again (by decide) ⟨e, List.mem_append_left _ he, hbad⟩ ?_
    have hlast : calls (log ++ [(.free, r)]) = calls log ++ [.free] := calls_append
    rw [hlast, List.count_append, hfree, List.count_singleton_self]
    decide
  · intro log p' fd hfails
    simp only [wlp_ite, wlp_bind, wlp_prog_call, wlp_pure]
    refine ⟨fun _ => ⟨True.intro, fun r w hk => ?_⟩, fun hnot => absurd True.intro hnot⟩
    obtain ⟨-, rfl⟩ := deliver_eq hk
    obtain ⟨e, he, hbad⟩ := hfails.fatal
    have hopen : fd ∈ opened (log ++ [(.free, r)]) := by
      rw [opened_append, hfails.opens]
      exact List.mem_append_left _ (List.mem_singleton_self fd)
    have hclose : .close fd ∉ calls (log ++ [(.free, r)]) := by
      rw [calls_append, List.mem_append, not_or]
      refine ⟨hfails.kept.not_mem_calls True.intro, fun hmem => ?_⟩
      exact InitCall.noConfusion (List.mem_singleton.1 hmem)
    exact leaves_open (by decide) ⟨e, List.mem_append_left _ he, hbad⟩ hopen hclose
  · intro log p' h
    rw [wlp_ite, wlp_ite]
    refine ⟨fun heq => absurd heq (by decide), fun _ => ⟨fun _ => ?_, fun hnot => absurd rfl hnot⟩⟩
    exact wlp_initFails fun r r' => h.undone (by decide) r r'
  · intro log p' h hc hl
    simp only [wlp_ite, wlp_bind, wlp_prog_call, wlp_update]
    refine ⟨fun heq => absurd heq (by decide), fun _ => ⟨fun heq => absurd heq (by decide),
      fun _ => ⟨True.intro, fun r w hk => ?_⟩⟩⟩
    obtain ⟨-, rfl⟩ := deliver_eq hk
    have hpool := h.snoc (e := (.jpoolInit 2, r)) rfl id id
    refine ⟨fun _ => wlp_initFails fun r r' => hpool.undone (by decide) r r', fun _ => ?_⟩
    obtain ⟨r', hmem, hret⟩ := hl
    refine wlp_post (fun log' p' stage hopens => ?_) (wlp_proxyOpenDst hpool
      (hc.snoc id) ⟨r', List.mem_append_left _ hmem, hret⟩)
    cases stage with
    | connects dstFd host => exact hopens
    | opened dstFd => exact .inr hopens
    | enters | returned rv => exact hopens.elim

/-- A round of the loop of `proxy_open_dst`. -/
theorem wlp_proxyConnect {dstFd : Int} (host : Bytes) (h : Connecting log p dstFd) :
    wlp (delivers deliver) anyCall Between (proxyConnect dstFd host p) log := by
  simp only [proxyConnect, wlp_bind, wlp_prog_call, wlp_ite, wlp_pure, wlp_state]
  refine ⟨True.intro, fun r w hk => ?_⟩
  obtain ⟨hzero, rfl⟩ := deliver_eq hk
  have hlater : Connecting (log ++ [(.connect dstFd host p.dstPort, r)]) p dstFd := by
    obtain ⟨r₁, hlisten, hret₁⟩ := h.listens
    obtain ⟨r₂, hsocket, hret₂⟩ := h.socket
    exact ⟨h.holding.snoc rfl id id, h.nonneg, ⟨r₁, List.mem_append_left _ hlisten, hret₁⟩,
      ⟨r₂, List.mem_append_left _ hsocket, hret₂⟩⟩
  refine ⟨fun _ => hlater, fun hne => .inl ⟨hlater, host, p.dstPort, r, ?_, ?_⟩⟩
  · exact List.mem_append_right _ (List.mem_singleton_self _)
  · exact hzero.resolve_right hne

/-- The last part behind a connection. -/
theorem wlp_initOpened_connected {dstFd : Int} (h : Connecting log p dstFd)
    (hconn : ∃ host port r, (.connect dstFd host port, r) ∈ log ∧ r.ret = 0) :
    wlp (delivers deliver) anyCall Between (initOpened dstFd p) log := by
  have hopen : ¬ dstFd ≤ fdErr := by
    have hnonneg := h.nonneg
    have hcode : fdErr = -1 := rfl
    omega
  simp only [initOpened, wlp_bind, wlp_prog_call, wlp_ite, wlp_pure, wlp_state, wlp_update]
  refine ⟨fun hle => absurd hle hopen, fun _ => ⟨True.intro, fun r w hk => ?_⟩⟩
  obtain ⟨-, rfl⟩ := deliver_eq hk
  refine ⟨fun hneg => ?_, fun hcreate => ⟨True.intro, fun r' w hk => ?_⟩⟩
  · exact (h.holding.fails (e := (.epollCreate 1024, r)) hneg).leaves List.mem_cons_self (by decide)
  obtain ⟨hzero, rfl⟩ := deliver_eq hk
  have hhold := h.holding.append (e := (.epollCreate 1024, r)) hcreate id
  refine ⟨fun hneg => ?_, fun hadd => ?_⟩
  · exact (hhold.fails (e := (.epollAdd r.ret dstFd, r')) hneg).leaves List.mem_cons_self
      (by decide)
  have hlast := hhold.snoc (e := (.epollAdd r.ret dstFd, r')) rfl hadd id
  obtain ⟨r₁, hlisten, hret₁⟩ := h.listens
  obtain ⟨r₂, hsocket, hret₂⟩ := h.socket
  obtain ⟨host, port, r₃, hconnect, hret₃⟩ := hconn
  have hbefore : ∀ {e : InitEvent}, e ∈ log →
      e ∈ log ++ [(.epollCreate 1024, r)] ++ [(.epollAdd r.ret dstFd, r')] := fun he =>
    List.mem_append_left _ (List.mem_append_left _ he)
  refine hlast.ready ⟨⟨r₁, hbefore hlisten, hret₁⟩, ⟨r₂, hbefore hsocket, hret₂⟩,
    ⟨host, port, r₃, hbefore hconnect, hret₃⟩, ⟨r', ?_, ?_⟩, hlast.kept⟩
  · exact List.mem_append_right _ (List.mem_singleton_self _)
  · rcases hzero with hret | hret
    · exact hret
    · omega

/-- The last part with a descriptor that is none. -/
theorem wlp_initOpened_misled {dstFd : Int} (h : Misled log p dstFd) :
    wlp (delivers deliver) anyCall Between (initOpened dstFd p) log := by
  simp only [initOpened, wlp_bind, wlp_prog_call, wlp_ite, wlp_pure, wlp_state, wlp_update]
  cases h with
  | errno hfails hfd hc hcode =>
      have hopen : ¬ dstFd ≤ fdErr := by
        have heq : fdErr = -1 := rfl
        omega
      refine ⟨fun hle => absurd hle hopen, fun _ => ⟨True.intro, fun r w hk => ?_⟩⟩
      obtain ⟨-, rfl⟩ := deliver_eq hk
      have hcreate := hfails.append (e := (.epollCreate 1024, r)) id
      have hfd' := List.mem_append_left (openedBy (.epollCreate 1024, r)) hfd
      refine ⟨fun _ => hcreate.leaves hfd' (by decide), fun _ => ⟨True.intro, fun r' w hk => ?_⟩⟩
      obtain ⟨-, rfl⟩ := deliver_eq hk
      have hadd := hcreate.append (e := (.epollAdd r.ret dstFd, r')) id
      refine ⟨fun _ => hadd.leaves (List.mem_append_left _ hfd') (by decide), fun _ => ?_⟩
      exact never_connects hadd.fatal ((hc.snoc id).snoc
        id)
  | @fdErr fd hfails hne =>
      refine ⟨fun _ => wlp_initFails fun r r' => ?_, fun hnot => absurd (by decide) hnot⟩
      obtain ⟨e, he, hbad⟩ := hfails.fatal
      have hopen : fd ∈ opened (log ++ [(.close p.fd, r)] ++ [(.free, r')]) := by
        rw [opened_append, opened_append, hfails.opens]
        exact List.mem_append_left _ (List.mem_append_left _ (List.mem_cons_of_mem _
          (List.mem_singleton_self fd)))
      have hclose : .close fd ∉ calls (log ++ [(.close p.fd, r)] ++ [(.free, r')]) := by
        rw [calls_append, calls_append, List.mem_append, List.mem_append, not_or, not_or]
        refine ⟨⟨hfails.kept.not_mem_calls True.intro, fun hmem => ?_⟩, fun hmem => ?_⟩
        · exact hne (InitCall.close.inj (List.mem_singleton.1 hmem))
        · exact InitCall.noConfusion (List.mem_singleton.1 hmem)
      exact leaves_open (by decide)
        ⟨e, List.mem_append_left _ (List.mem_append_left _ he), hbad⟩ hopen hclose

/-- The last part behind a destination that has no address. -/
theorem wlp_initOpened_unknown (h : Holding log [p.fd]) :
    wlp (delivers deliver) anyCall Between (initOpened hostErr p) log := by
  simp only [initOpened, wlp_bind, wlp_ite, wlp_update]
  refine ⟨fun _ => wlp_initFails fun r r' => h.undone (by decide) r r', fun hnot => ?_⟩
  exact absurd (by decide) hnot

end Parts

/-! ## Whole runs -/

theorem wlp_proxyInit_between (args : Args) {log : List InitEvent} {p : Proxy} (stage : Stage)
    (h : Between log p stage) :
    wlp (delivers deliver) anyCall Between (proxyInit args stage p) log := by
  cases stage with
  | enters =>
      obtain rfl : log = [] := h
      exact wlp_initEnters args
  | connects dstFd host => exact wlp_proxyConnect host h
  | opened dstFd =>
      rcases h with ⟨hopen, hconn⟩ | ⟨rfl, hhold⟩ | hmisled
      · exact wlp_initOpened_connected hopen hconn
      · exact wlp_initOpened_unknown hhold
      · exact wlp_initOpened_misled hmisled
  | returned rv => exact h

/-- **The two outcomes.**  In every run, `proxy_init` has either set up the
proxy and returned `NORMAL`, or undone everything and returned a negative
code, exactly if no `socket`, `setsockopt`, `fcntl`, `epoll_create` or
`epoll_ctl` has failed. -/
theorem proxyInit_twoOutcomes_iff (args : Args) (p : Proxy) {c : InitConfig}
    (hr : Run args p c) {rv : Int} (hret : returned c = some rv) :
    TwoOutcomes c.world c.node.state rv ↔ Sound c.world := by
  have hwlp : wlp (delivers deliver) anyCall Between c.node c.world :=
    wlp_stages (fun _ _ stage _ h => wlp_proxyInit_between args stage h) hr rfl
  obtain ⟨w, node⟩ := c
  cases node with
  | done p' stage =>
      cases stage with
      | returned rv' =>
          obtain rfl : rv' = rv := Option.some.inj hret
          exact hwlp
      | enters | connects | opened => cases hret
  | call | fault => cases hret

/-- A proxy on port 5000 for a destination on port 5001. -/
def hostArgs : Args := ⟨"127.0.0.1", 5000, "127.0.0.1", 5001⟩

/-- Memory as `malloc` may return it. -/
def rawProxy : Proxy := ⟨0, 0, 0, 0, "", 0, "", 0⟩

/-- Everything succeeds, the `connect` at the third attempt. -/
theorem proxyInit_twoOutcomes_iff_retried :
    ∃ c : InitConfig, returned c = some normal ∧ TwoOutcomes c.world c.node.state normal := by
  obtain ⟨c, hr, hret, hsound⟩ : ∃ c : InitConfig, Run hostArgs rawProxy c ∧
      returned c = some normal ∧ Sound c.world :=
    exists_reach_of_exec (stageStep deliver (proxyInit hostArgs) goesOn) unconditional
      ⟨[], .done rawProxy .enters⟩
      [none, some (.count 3), some (.count 0), some (.count 0), some (.count 0),
        some (.count 2), some (.count 0), some (.count 1), some ⟨1, .other 0, [127, 0, 0, 1], []⟩,
        some (.count 4), some (.count 0), some (.count 2), some (.count 0),
        none, some (.fail (.other 115)), none, some (.fail (.other 111)),
        none, some (.count 0), none, some (.count 5), some (.count 0)]
      (fun c : InitConfig => returned c = some normal ∧ Sound c.world) (by decide +kernel)
  exact ⟨c, hret, (proxyInit_twoOutcomes_iff hostArgs rawProxy hr hret).2 hsound⟩

/-- The first `socket` fails: `proxy_set_sock` frees the proxy and returns
`FD_ERR`, and `proxy_init` frees it again. -/
theorem proxyInit_frees_twice :
    ¬ ∀ (args : Args) (p : Proxy) (c : InitConfig) (rv : Int), Run args p c →
      returned c = some rv → TwoOutcomes c.world c.node.state rv := by
  intro hall
  obtain ⟨c, hr, hret, htwice⟩ : ∃ c : InitConfig, Run hostArgs rawProxy c ∧
      returned c = some fdErr ∧ (calls c.world).count .free = 2 :=
    exists_reach_of_exec (stageStep deliver (proxyInit hostArgs) goesOn) unconditional
      ⟨[], .done rawProxy .enters⟩
      [none, some (.fail (.other 24)), some (.count 0), some (.count 0)]
      (fun c : InitConfig => returned c = some fdErr ∧ (calls c.world).count .free = 2)
      (by decide +kernel)
  rcases hall hostArgs rawProxy c fdErr hr hret with ⟨hnormal, -⟩ | ⟨-, hundone⟩
  · exact absurd hnormal (by decide)
  · have hone := hundone.freed
    rw [htwice] at hone
    exact absurd hone (by decide)

end ZeroCopyProxy.Ports.ProxyInit
