import ZeroCopyProxy.Ports.ProxyInit

/-!
# Setting up the endpoints: `server_init` and `client_init`

Both allocate the object, acquire what it needs one after the other, and are
meant to release everything and return NULL where a call fails.  `client_init`
does.  `server_init` forgets the socket where `setsockopt` fails and the epoll
handle where `epoll_ctl` fails, and where `epoll_create` fails it ends with
`return ;`, so that its caller gets a pointer of any value.  It also starts its
detector first, which keeps the pointer when the memory is freed.

The calls and their possible answers are those of `ProxyInit`.
-/

namespace ZeroCopyProxy.Ports.EndpointInit

open ZeroCopyProxy.Verified.Resumption
open ZeroCopyProxy.Verified.Liberal
open ZeroCopyProxy.Verified.Stages (delivers)
open ZeroCopyProxy.Ports.Posix
open ZeroCopyProxy.Ports.ProxyInit (InitCall InitEvent calls opened openedBy Possible Releases
  Kept opened_append calls_append)

/-! ## The programs -/

/-- The descriptors of `struct server_s`; `struct client_s` has the first. -/
structure Endpoint where
  fd : Int
  epollHandleFd : Int

/-- What the two functions ask of their environment. -/
inductive EndCall where
  /-- the answer is 0 for a null pointer -/
  | malloc
  /-- `pthread_create` for `server_detect_finish` -/
  | pthreadCreate
  | pthreadDetach
  | sys (op : InitCall)
  deriving DecidableEq

/-- What they return: the object, NULL, or no value at all. -/
inductive Outcome where
  | object
  | null
  | nothing
  deriving DecidableEq

/-- A part of one of the two functions. -/
abbrev EndProg (α : Type) : Type := Prog Endpoint EndCall Answer α

/-- `PTHREAD_ERR` of `common.h`. -/
def pthreadErr : Int := -7

/-- `server_handle_finish`. -/
def serverHandleFinish : EndProg Int := do
  let r ← Prog.call .pthreadCreate
  if r.ret ≠ 0 then
    pure pthreadErr
  else do
    let r ← Prog.call .pthreadDetach
    if r.ret ≠ 0 then pure pthreadErr else pure normal

/-- `server_set_fd_nonblock`; `O_NONBLOCK` is 2048. -/
def serverSetFdNonblock (fd : Int) : EndProg Int := do
  let r ← Prog.call (.sys (.fcntlGetfl fd))
  if r.ret < 0 then
    pure fdErr
  else do
    let r ← Prog.call (.sys (.fcntlSetfl fd (r.ret.toNat ||| 2048)))
    if r.ret < 0 then pure fdErr else pure normal

/-- `free( server)`, where nothing else is released. -/
def initFrees (v : Outcome) : EndProg Outcome := do
  let _ ← Prog.call (.sys .free)
  pure v

/-- `close( server->fd)` and `free( server)`; the same for a client. -/
def initCloses (v : Outcome) : EndProg Outcome := do
  let e ← Prog.state
  let _ ← Prog.call (.sys (.close e.fd))
  let _ ← Prog.call (.sys .free)
  pure v

/-- `server_init` from `epoll_create` on. -/
def serverInitEpoll : EndProg Outcome := do
  let r ← Prog.call (.sys (.epollCreate 1024))
  Prog.update fun e => { e with epollHandleFd := r.ret }
  if r.ret < 0 then
    -- `return ;`
    initCloses .nothing
  else do
    let e ← Prog.state
    let r ← Prog.call (.sys (.epollAdd e.epollHandleFd e.fd))
    if r.ret < 0 then initCloses .null else pure .object

/-- `server_init` from `bind` on. -/
def serverInitBind (ip : String) (port : Int) : EndProg Outcome := do
  let e ← Prog.state
  let r ← Prog.call (.sys (.bind e.fd ip port))
  if r.ret < 0 then
    initCloses .null
  else do
    let r ← Prog.call (.sys (.listen e.fd 10))
    if r.ret ≠ 0 then
      initCloses .null
    else do
      let rv ← serverSetFdNonblock e.fd
      if rv < 0 then initCloses .null else serverInitEpoll

/-- `server_init`, with its arguments as address and port. -/
def serverInit (ip : String) (port : Int) : EndProg Outcome := do
  let m ← Prog.call .malloc
  if m.ret = 0 then
    pure .null
  else do
    let rv ← serverHandleFinish
    if rv = pthreadErr then
      initFrees .null
    else do
      let r ← Prog.call (.sys .socket)
      Prog.update fun e => { e with fd := r.ret }
      if r.ret < 0 then
        initFrees .null
      else do
        let e ← Prog.state
        let r ← Prog.call (.sys (.setsockopt e.fd))
        if r.ret ≠ 0 then initFrees .null else serverInitBind ip port

/-- `client_init`, with its arguments as name and port of the server. -/
def clientInit (host : String) (port : Int) : EndProg Outcome := do
  let m ← Prog.call .malloc
  if m.ret = 0 then
    pure .null
  else do
    let r ← Prog.call (.sys .socket)
    Prog.update fun e => { e with fd := r.ret }
    if r.ret = -1 then
      initCloses .null
    else do
      let h ← Prog.call (.sys (.gethostbyname host))
      if h.ret = 0 then
        initCloses .null
      else do
        let e ← Prog.state
        let r ← Prog.call (.sys (.connect e.fd h.data port))
        if r.ret ≠ 0 then initCloses .null else pure .object

/-! ## Runs -/

/-- Whether there is memory for the object, whether the detector has been
started with it, and the calls so far. -/
structure World where
  allocated : Bool
  detector : Bool
  log : List InitEvent

/-- The world behind an answer. -/
def deliver (w : World) (_ : Endpoint) (op : EndCall) (r : Answer) : Option World :=
  match op with
  | .malloc => some { w with allocated := r.ret ≠ 0 }
  | .pthreadCreate => some { w with detector := r.ret = 0 }
  | .pthreadDetach => some w
  | .sys op => if Possible w.log op r then some { w with log := w.log ++ [(op, r)] } else none

abbrev EndConfig : Type := Config World Endpoint EndCall Answer Outcome

/-- The runs of one of the two functions, on memory of which nothing is known. -/
abbrev Run (init : EndProg Outcome) (e : Endpoint) (c : EndConfig) : Prop :=
  Reach (delivers deliver) (fun _ : Unit => init) (fun _ => false) ⟨⟨false, false, []⟩, init e⟩ c

/-- What it has returned. -/
def returned (c : EndConfig) : Option Outcome :=
  match c.node with
  | .done _ v => some v
  | _ => none

/-! ## The law and the condition -/

/-- Everything is undone: each descriptor is closed once, no other is closed,
and the memory is freed once, if there was any. -/
structure Released (w : World) : Prop where
  closed : ∀ fd ∈ opened w.log, (calls w.log).count (.close fd) = 1
  own : ∀ fd, 0 ≤ fd → .close fd ∈ calls w.log → fd ∈ opened w.log
  freed : (calls w.log).count .free = w.allocated.toNat

/-- The server listens without blocking and waits for clients. -/
structure ServerReady (ip : String) (port : Int) (w : World) (e : Endpoint) : Prop where
  bound : ∃ r, (.bind e.fd ip port, r) ∈ w.log ∧ 0 ≤ r.ret
  listens : ∃ r, (.listen e.fd 10, r) ∈ w.log ∧ r.ret = 0
  nonblocking : ∃ flags r, (.fcntlSetfl e.fd flags, r) ∈ w.log ∧ flags.testBit 11 = true ∧
    0 ≤ r.ret
  registered : ∃ r, (.epollAdd e.epollHandleFd e.fd, r) ∈ w.log ∧ 0 ≤ r.ret
  watched : w.detector = true
  kept : Kept w.log

/-- The client is connected. -/
structure ClientReady (port : Int) (w : World) (e : Endpoint) : Prop where
  connected : ∃ host r, (.connect e.fd host port, r) ∈ w.log ∧ r.ret = 0
  kept : Kept w.log

/-- An object that is ready, or NULL and nothing left behind. -/
def Settled (Ready : World → Endpoint → Prop) (w : World) (e : Endpoint) (v : Outcome) : Prop :=
  (v = .object ∧ Ready w e) ∨ (v = .null ∧ Released w)

/-- One of the calls of `server_init` whose failure is not undone. -/
def Forgotten : InitEvent → Prop
  | (.setsockopt _, r) => r.ret ≠ 0
  | (.epollCreate _, r) | (.epollAdd _ _, r) => r.ret < 0
  | _ => False

instance (e : InitEvent) : Decidable (Forgotten e) :=
  match e with
  | (.setsockopt _, r) => inferInstanceAs (Decidable (r.ret ≠ 0))
  | (.epollCreate _, r) | (.epollAdd _ _, r) => inferInstanceAs (Decidable (r.ret < 0))
  | (.socket, _) | (.bind _ _ _, _) | (.listen _ _, _) | (.fcntlGetfl _, _)
  | (.fcntlSetfl _ _, _) | (.gethostbyname _, _) | (.jpoolInit _, _) | (.connect _ _ _, _)
  | (.close _, _) | (.free, _) => .isFalse id

/-- None of them has failed. -/
def Sound (log : List InitEvent) : Prop := ∀ e ∈ log, ¬ Forgotten e

instance (log : List InitEvent) : Decidable (Sound log) :=
  inferInstanceAs (Decidable (∀ e ∈ log, ¬ Forgotten e))

/-- The detector runs with memory that has been freed. -/
def Dangling (w : World) : Prop := w.detector = true ∧ .free ∈ calls w.log

/-! ## What holds on the way -/

section Histories

variable {w : World} {e : InitEvent} {fd : Int} {fds : List Int} {v : Outcome}

/-- An answer to one of the system's calls. -/
def World.after (w : World) (es : List InitEvent) : World := { w with log := w.log ++ es }

@[simp] theorem after_log (es : List InitEvent) : (w.after es).log = w.log ++ es := rfl

@[simp] theorem after_allocated (es : List InitEvent) : (w.after es).allocated = w.allocated :=
  rfl

@[simp] theorem after_detector (es : List InitEvent) : (w.after es).detector = w.detector := rfl

theorem deliver_sys {w' : World} {s : Endpoint} {op : InitCall} {r : Answer}
    (h : delivers deliver w s (.sys op) r w') : Possible w.log op r ∧ w' = w.after [(op, r)] := by
  unfold delivers at h
  simp only [deliver] at h
  split at h
  · next hp => exact ⟨hp, (Option.some.inj h).symm⟩
  · cases h

/-- There is memory, these descriptors are open, nothing was released, and no
failure has happened that is not undone. -/
structure Holding (w : World) (fds : List Int) : Prop where
  allocated : w.allocated = true
  opens : opened w.log = fds
  kept : Kept w.log
  sound : Sound w.log

theorem Holding.append (h : Holding w fds) (hkept : ¬ Releases e.1) (hsound : ¬ Forgotten e) :
    Holding (w.after [e]) (fds ++ openedBy e) where
  allocated := h.allocated
  opens := by rw [after_log, opened_append, h.opens, opened, List.flatMap_singleton]
  kept := List.forall_mem_append.2 ⟨h.kept, List.forall_mem_singleton.2 hkept⟩
  sound := List.forall_mem_append.2 ⟨h.sound, List.forall_mem_singleton.2 hsound⟩

/-- A call that opens nothing. -/
theorem Holding.snoc (h : Holding w fds) (hnone : openedBy e = []) (hkept : ¬ Releases e.1)
    (hsound : ¬ Forgotten e) : Holding (w.after [e]) fds := by
  have happend := h.append hkept hsound
  rwa [hnone, List.append_nil] at happend

/-- `free`, where no descriptor is open. -/
theorem Holding.freed (h : Holding w []) (r : Answer) :
    Released (w.after [(.free, r)]) ∧ Sound (w.after [(.free, r)]).log := by
  have hcalls : calls (w.after [(.free, r)]).log = calls w.log ++ [.free] := calls_append
  have hfree : .free ∉ calls w.log := h.kept.not_mem_calls True.intro
  refine ⟨⟨?_, ?_, ?_⟩, ?_⟩
  · rw [after_log, opened_append, h.opens]
    exact List.forall_mem_nil _
  · intro fd _ hclose
    rw [hcalls, List.mem_append] at hclose
    rcases hclose with hclose | hclose
    · exact absurd hclose (h.kept.not_mem_calls True.intro)
    · exact InitCall.noConfusion (List.mem_singleton.1 hclose)
  · rw [hcalls, List.count_append, List.count_eq_zero.2 hfree, List.count_singleton_self,
      after_allocated, h.allocated]
    rfl
  · exact List.forall_mem_append.2 ⟨h.sound, List.forall_mem_singleton.2 id⟩

/-- `close` and `free`, where the one descriptor is open, or where none is and
`close` gets -1. -/
theorem Holding.closed (h : Holding w fds) (hfd : fds = [fd] ∨ (fds = [] ∧ fd < 0))
    (r r' : Answer) :
    Released (w.after [(.close fd, r), (.free, r')]) ∧
      Sound (w.after [(.close fd, r), (.free, r')]).log := by
  have hcalls : calls (w.after [(.close fd, r), (.free, r')]).log =
      calls w.log ++ [.close fd, .free] := calls_append
  have hopened : opened (w.after [(.close fd, r), (.free, r')]).log = fds := by
    rw [after_log, opened_append, h.opens]
    exact List.append_nil fds
  have hfree : .free ∉ calls w.log := h.kept.not_mem_calls True.intro
  have hclose : ∀ fd', .close fd' ∉ calls w.log := fun _ => h.kept.not_mem_calls True.intro
  refine ⟨⟨?_, ?_, ?_⟩, ?_⟩
  · rw [hopened, hcalls]
    rcases hfd with rfl | ⟨rfl, -⟩
    · refine List.forall_mem_singleton.2 ?_
      rw [List.count_append, List.count_eq_zero.2 (hclose fd)]
      simp
    · exact List.forall_mem_nil _
  · intro fd' hnonneg hmem
    rw [hcalls, List.mem_append] at hmem
    rcases hmem with hmem | hmem
    · exact absurd hmem (hclose fd')
    · have heq : fd' = fd := by simpa using hmem
      rw [hopened]
      rcases hfd with rfl | ⟨rfl, hneg⟩
      · exact List.mem_singleton.2 heq
      · omega
  · rw [hcalls, List.count_append, List.count_eq_zero.2 hfree, after_allocated, h.allocated]
    simp
  · refine List.forall_mem_append.2 ⟨h.sound, ?_⟩
    exact List.forall_mem_cons.2 ⟨id, List.forall_mem_singleton.2 id⟩

end Histories

/-! ## The server -/

/-- What holds of the server's outcome. -/
def ServerLaw (ip : String) (port : Int) (w : World) (e : Endpoint) (v : Outcome) : Prop :=
  (Settled (ServerReady ip port) w e v ↔ Sound w.log) ∧
    (Dangling w ↔ v ≠ .object ∧ w.detector = true)

/-- Nothing is asked of the calls. -/
abbrev anyCall : World → Endpoint → EndCall → Prop := fun _ _ _ => True

section Server

variable {ip : String} {port : Int} {w : World} {e : Endpoint} {fds : List Int} {v : Outcome}
  {Q : World → Endpoint → Outcome → Prop}

theorem dangling_iff (hv : v ≠ .object) (hfree : .free ∈ calls w.log) :
    Dangling w ↔ v ≠ .object ∧ w.detector = true :=
  ⟨fun h => ⟨hv, h.1⟩, fun h => ⟨h.2, hfree⟩⟩

/-- A failure that is undone. -/
theorem serverLaw_released (h : Released w ∧ Sound w.log) (hfree : .free ∈ calls w.log) :
    ServerLaw ip port w e .null :=
  ⟨iff_of_true (.inr ⟨rfl, h.1⟩) h.2, dangling_iff (by decide) hfree⟩

/-- A failure that is not. -/
theorem serverLaw_forgotten (hv : v ≠ .object) (hforgotten : ∃ e ∈ w.log, Forgotten e)
    (hleft : v = .null → ∃ fd ∈ opened w.log, .close fd ∉ calls w.log)
    (hfree : .free ∈ calls w.log) : ServerLaw ip port w e v := by
  refine ⟨iff_of_false ?_ ?_, dangling_iff hv hfree⟩
  · rintro (⟨hobject, -⟩ | ⟨hnull, hreleased⟩)
    · exact hv hobject
    · obtain ⟨fd, hopen, hclose⟩ := hleft hnull
      have hone := hreleased.closed fd hopen
      rw [List.count_eq_zero.2 hclose] at hone
      exact absurd hone (by decide)
  · obtain ⟨e, he, hbad⟩ := hforgotten
    exact fun hsound => hsound e he hbad

theorem after_after (es es' : List InitEvent) : (w.after es).after es' = w.after (es ++ es') := by
  simp [World.after]

theorem wlp_initFrees (h : ∀ r, Q (w.after [(.free, r)]) e v) :
    wlp (delivers deliver) anyCall Q (initFrees v e) w := by
  simp only [initFrees, wlp_bind, wlp_prog_call, wlp_pure]
  refine ⟨True.intro, fun r w' hk => ?_⟩
  obtain ⟨-, rfl⟩ := deliver_sys hk
  exact h r

theorem wlp_initCloses (h : ∀ r r', Q (w.after [(.close e.fd, r), (.free, r')]) e v) :
    wlp (delivers deliver) anyCall Q (initCloses v e) w := by
  simp only [initCloses, wlp_bind, wlp_prog_call, wlp_pure, wlp_state]
  refine ⟨True.intro, fun r w₁ hk => ⟨True.intro, fun r' w₂ hk' => ?_⟩⟩
  obtain ⟨-, rfl⟩ := deliver_sys hk
  obtain ⟨-, rfl⟩ := deliver_sys hk'
  rw [after_after]
  exact h r r'

/-- `close` and `free` undo everything. -/
theorem wlp_initCloses_null (h : Holding w [e.fd]) :
    wlp (delivers deliver) anyCall (ServerLaw ip port) (initCloses .null e) w :=
  wlp_initCloses fun r r' => serverLaw_released (h.closed (.inl rfl) r r') (by simp [calls])

/-- The flag that `fcntl` sets. -/
theorem testBit_nonblock (flags : Nat) : (flags ||| 2048).testBit 11 = true := by
  rw [Nat.testBit_or, Bool.or_eq_true]
  exact .inr (by decide)

theorem wlp_serverSetFdNonblock {Q : World → Endpoint → Int → Prop} {fd : Int}
    (h : Holding w fds)
    (hfail : ∀ es, Holding (w.after es) fds → Q (w.after es) e fdErr)
    (hok : ∀ es flags r, Holding (w.after es) fds → (.fcntlSetfl fd flags, r) ∈ es →
      flags.testBit 11 = true → 0 ≤ r.ret → Q (w.after es) e normal) :
    wlp (delivers deliver) anyCall Q (serverSetFdNonblock fd e) w := by
  simp only [serverSetFdNonblock, wlp_bind, wlp_prog_call, wlp_ite, wlp_pure]
  refine ⟨True.intro, fun r w₁ hk => ?_⟩
  obtain ⟨-, rfl⟩ := deliver_sys hk
  have h₁ := h.snoc (e := (.fcntlGetfl fd, r)) rfl id id
  refine ⟨fun _ => hfail _ h₁, fun _ => ⟨True.intro, fun r' w₂ hk' => ?_⟩⟩
  obtain ⟨-, rfl⟩ := deliver_sys hk'
  have h₂ := h₁.snoc (e := (.fcntlSetfl fd (r.ret.toNat ||| 2048), r')) rfl id id
  rw [after_after] at h₂ ⊢
  refine ⟨fun _ => hfail _ h₂, fun hset => ?_⟩
  exact hok _ _ r' h₂ (List.mem_cons_of_mem _ (List.mem_singleton_self _))
    (testBit_nonblock _) (by omega)

/-- The server listens without blocking. -/
structure Listening (ip : String) (port : Int) (w : World) (e : Endpoint) : Prop where
  holding : Holding w [e.fd]
  bound : ∃ r, (.bind e.fd ip port, r) ∈ w.log ∧ 0 ≤ r.ret
  listens : ∃ r, (.listen e.fd 10, r) ∈ w.log ∧ r.ret = 0
  nonblocking : ∃ flags r, (.fcntlSetfl e.fd flags, r) ∈ w.log ∧ flags.testBit 11 = true ∧
    0 ≤ r.ret
  watched : w.detector = true

theorem wlp_serverInitEpoll (h : Listening ip port w e) :
    wlp (delivers deliver) anyCall (ServerLaw ip port) (serverInitEpoll e) w := by
  simp only [serverInitEpoll, wlp_bind, wlp_prog_call, wlp_ite, wlp_pure, wlp_state, wlp_update]
  refine ⟨True.intro, fun r w₁ hk => ?_⟩
  obtain ⟨hnew, rfl⟩ := deliver_sys hk
  refine ⟨fun hneg => ?_, fun hcreate => ⟨True.intro, fun r' w₂ hk' => ?_⟩⟩
  · refine wlp_initCloses fun r₁ r₂ => ?_
    rw [after_after]
    refine serverLaw_forgotten (by decide) ⟨(.epollCreate 1024, r), ?_, hneg⟩ (by simp) ?_
    · simp
    · simp [calls]
  obtain ⟨-, rfl⟩ := deliver_sys hk'
  refine ⟨fun hneg => ?_, fun hadd => ?_⟩
  · -- the epoll handle is not the socket, which is all that gets closed
    have hne : r.ret ≠ e.fd := by
      intro heq
      rcases hnew with hminus | ⟨-, hreused⟩
      · omega
      · refine absurd (hreused ?_) (h.holding.kept.not_mem_calls True.intro)
        rw [h.holding.opens, heq]
        exact List.mem_singleton_self _
    refine wlp_initCloses fun r₁ r₂ => ?_
    rw [after_after, after_after]
    refine serverLaw_forgotten (by decide) ⟨(.epollAdd r.ret e.fd, r'), ?_, hneg⟩
      (fun _ => ⟨r.ret, ?_, ?_⟩) ?_
    · simp
    · rw [after_log, opened_append]
      exact List.mem_append_right _ (by simp [opened, openedBy, hcreate])
    · have hclose : .close r.ret ∉ calls w.log := h.holding.kept.not_mem_calls True.intro
      rw [after_log, calls_append, List.mem_append, not_or]
      exact ⟨hclose, by simp [calls, hne]⟩
    · simp [calls]
  · have hhold := (h.holding.append (e := (.epollCreate 1024, r)) id hcreate).snoc
      (e := (.epollAdd r.ret e.fd, r')) rfl id hadd
    rw [after_after] at hhold ⊢
    have hbefore : ∀ {ev : InitEvent}, ev ∈ w.log →
        ev ∈ (w.after ([(.epollCreate 1024, r)] ++ [(.epollAdd r.ret e.fd, r')])).log :=
      fun hmem => List.mem_append_left _ hmem
    obtain ⟨r₁, hbind, hret₁⟩ := h.bound
    obtain ⟨r₂, hlisten, hret₂⟩ := h.listens
    obtain ⟨flags, r₃, hset, hbit, hret₃⟩ := h.nonblocking
    have hready : ServerReady ip port
        (w.after ([(.epollCreate 1024, r)] ++ [(.epollAdd r.ret e.fd, r')]))
        { e with epollHandleFd := r.ret } :=
      ⟨⟨r₁, hbefore hbind, hret₁⟩, ⟨r₂, hbefore hlisten, hret₂⟩,
        ⟨flags, r₃, hbefore hset, hbit, hret₃⟩, ⟨r', by simp, by omega⟩, h.watched, hhold.kept⟩
    have hfree : .free ∉ calls
        (w.after ([(.epollCreate 1024, r)] ++ [(.epollAdd r.ret e.fd, r')])).log :=
      hhold.kept.not_mem_calls True.intro
    exact ⟨iff_of_true (.inl ⟨rfl, hready⟩) hhold.sound,
      iff_of_false (fun hdangling => hfree hdangling.2) (by simp)⟩

theorem wlp_serverInitBind (h : Holding w [e.fd]) (hwatched : w.detector = true) :
    wlp (delivers deliver) anyCall (ServerLaw ip port) (serverInitBind ip port e) w := by
  simp only [serverInitBind, wlp_bind, wlp_prog_call, wlp_ite, wlp_state]
  refine ⟨True.intro, fun r₁ w₁ hk => ?_⟩
  obtain ⟨-, rfl⟩ := deliver_sys hk
  have h₁ := h.snoc (e := (.bind e.fd ip port, r₁)) rfl id id
  refine ⟨fun _ => wlp_initCloses_null h₁, fun hbind => ⟨True.intro, fun r₂ w₂ hk' => ?_⟩⟩
  obtain ⟨-, rfl⟩ := deliver_sys hk'
  have h₂ := h₁.snoc (e := (.listen e.fd 10, r₂)) rfl id id
  refine ⟨fun _ => wlp_initCloses_null h₂, fun hlisten => ?_⟩
  have hzero : r₂.ret = 0 := by omega
  refine wlp_serverSetFdNonblock h₂ ?_ ?_
  · intro es hes
    exact ⟨fun _ => wlp_initCloses_null hes, fun hnot => absurd (by decide) hnot⟩
  · intro es flags r hes hset hbit hret
    refine ⟨fun hneg => absurd hneg (by decide), fun _ => wlp_serverInitEpoll ?_⟩
    refine ⟨hes, ⟨r₁, ?_, by omega⟩, ⟨r₂, ?_, hzero⟩, ⟨flags, r, ?_, hbit, hret⟩, hwatched⟩
    · simp
    · simp
    · exact List.mem_append_right _ hset

/-- Memory for the object, and nothing else yet. -/
theorem holding_allocated (detector : Bool) : Holding ⟨true, detector, []⟩ [] where
  allocated := rfl
  opens := rfl
  kept := List.forall_mem_nil _
  sound := List.forall_mem_nil _

theorem released_nothing : Released ⟨false, false, []⟩ :=
  ⟨List.forall_mem_nil _, fun _ _ hclose => absurd hclose List.not_mem_nil, rfl⟩

/-- The detector runs, or `free` is all that is left to do. -/
theorem wlp_serverHandleFinish {Q : World → Endpoint → Int → Prop}
    (hfail : ∀ detector, Q ⟨true, detector, []⟩ e pthreadErr) (hok : Q ⟨true, true, []⟩ e normal) :
    wlp (delivers deliver) anyCall Q (serverHandleFinish e) ⟨true, false, []⟩ := by
  simp only [serverHandleFinish, wlp_bind, wlp_prog_call, wlp_ite, wlp_pure]
  refine ⟨True.intro, fun r w hk => ?_⟩
  obtain rfl := Option.some.inj hk
  refine ⟨fun _ => hfail _, fun hcreate => ⟨True.intro, fun r' w hk' => ?_⟩⟩
  obtain rfl := Option.some.inj hk'
  refine ⟨fun _ => hfail _, fun _ => ?_⟩
  rw [not_not] at hcreate
  simpa [hcreate] using hok

theorem wlp_serverInit :
    wlp (delivers deliver) anyCall (ServerLaw ip port) (serverInit ip port e)
      ⟨false, false, []⟩ := by
  simp only [serverInit, wlp_bind, wlp_prog_call, wlp_ite, wlp_pure]
  refine ⟨True.intro, fun m w hk => ?_⟩
  obtain rfl := Option.some.inj hk
  refine ⟨fun hnull => ?_, fun hmem => ?_⟩
  · have hnone : decide (m.ret ≠ 0) = false := decide_eq_false (not_not.2 hnull)
    rw [hnone]
    refine ⟨iff_of_true (.inr ⟨rfl, released_nothing⟩) (List.forall_mem_nil _), ?_⟩
    exact iff_of_false (fun h => Bool.noConfusion h.1) (fun h => Bool.noConfusion h.2)
  have hallocated : decide (m.ret ≠ 0) = true := decide_eq_true hmem
  rw [hallocated]
  refine wlp_serverHandleFinish (fun detector => ?_) ?_
  · refine ⟨fun _ => wlp_initFrees fun r => ?_, fun hnot => absurd rfl hnot⟩
    exact serverLaw_released ((holding_allocated detector).freed r) (by simp [calls])
  refine ⟨fun heq => absurd heq (by decide), fun _ => ?_⟩
  simp only [wlp_state, wlp_update]
  refine ⟨True.intro, fun r w hk => ?_⟩
  obtain ⟨-, rfl⟩ := deliver_sys hk
  refine ⟨fun hneg => wlp_initFrees fun r' => ?_, fun hsocket => ⟨True.intro, fun r' w hk' => ?_⟩⟩
  · have hnone : openedBy (.socket, r) = [] := if_pos hneg
    exact serverLaw_released (((holding_allocated true).snoc hnone id id).freed r')
      (by simp [calls])
  obtain ⟨-, rfl⟩ := deliver_sys hk'
  have hone : openedBy (.socket, r) = [r.ret] := if_neg hsocket
  have h₁ := (holding_allocated true).append (e := (.socket, r)) id id
  rw [hone] at h₁
  refine ⟨fun hfails => wlp_initFrees fun r'' => ?_, fun hopt => ?_⟩
  · refine serverLaw_forgotten (by decide) ⟨(.setsockopt r.ret, r'), by simp, hfails⟩
      (fun _ => ⟨r.ret, ?_, ?_⟩) (by simp [calls])
    · simp [opened, openedBy, hsocket]
    · simp [calls]
  · exact wlp_serverInitBind (h₁.snoc (e := (.setsockopt r.ret, r')) rfl id hopt) rfl

end Server

/-! ## The client -/

section Client

variable {host : String} {port : Int} {w : World} {e : Endpoint}

/-- `close` and `free` undo everything. -/
theorem wlp_client_closes {fds : List Int} (h : Holding w fds)
    (hfd : fds = [e.fd] ∨ (fds = [] ∧ e.fd < 0)) :
    wlp (delivers deliver) anyCall (Settled (ClientReady port)) (initCloses .null e) w :=
  wlp_initCloses fun r r' => .inr ⟨rfl, (h.closed hfd r r').1⟩

theorem wlp_clientInit :
    wlp (delivers deliver) anyCall (Settled (ClientReady port)) (clientInit host port e)
      ⟨false, false, []⟩ := by
  simp only [clientInit, wlp_bind, wlp_prog_call, wlp_ite, wlp_pure, wlp_state, wlp_update]
  refine ⟨True.intro, fun m w hk => ?_⟩
  obtain rfl := Option.some.inj hk
  refine ⟨fun hnull => .inr ⟨rfl, ?_⟩, fun hmem => ⟨True.intro, fun r w hk => ?_⟩⟩
  · rw [decide_eq_false (not_not.2 hnull)]
    exact released_nothing
  obtain ⟨hnew, rfl⟩ := deliver_sys hk
  rw [decide_eq_true hmem]
  refine ⟨fun hminus => ?_, fun hsocket => ⟨True.intro, fun h w hk => ?_⟩⟩
  · have hneg : r.ret < 0 := by omega
    have hnone : openedBy (.socket, r) = [] := if_pos hneg
    exact wlp_client_closes ((holding_allocated false).snoc hnone id id) (.inr ⟨rfl, hneg⟩)
  obtain ⟨-, rfl⟩ := deliver_sys hk
  have hopen : ¬ r.ret < 0 := by
    rcases hnew with hminus | ⟨hnonneg, -⟩ <;> omega
  have hone : openedBy (.socket, r) = [r.ret] := if_neg hopen
  have h₁ := (holding_allocated false).append (e := (.socket, r)) id id
  rw [hone] at h₁
  have h₂ := h₁.snoc (e := (.gethostbyname host, h)) rfl id id
  refine ⟨fun _ => wlp_client_closes h₂ (.inl rfl), fun _ => ⟨True.intro, fun r' w hk => ?_⟩⟩
  obtain ⟨-, rfl⟩ := deliver_sys hk
  have h₃ := h₂.snoc (e := (.connect r.ret h.data port, r')) rfl id id
  refine ⟨fun _ => wlp_client_closes h₃ (.inl rfl), fun hconnect => .inl ⟨rfl, ?_⟩⟩
  exact ⟨⟨h.data, r', by simp, not_not.1 hconnect⟩, h₃.kept⟩

end Client

/-! ## Whole runs -/

section Runs

variable {e : Endpoint} {c : EndConfig} {v : Outcome}

/-- What holds at the end of the program holds of whatever has been returned. -/
theorem of_returned {init : EndProg Outcome} {Q : World → Endpoint → Outcome → Prop}
    (h : wlp (delivers deliver) anyCall Q (init e) ⟨false, false, []⟩) (hr : Run init e c)
    (hret : returned c = some v) : Q c.world c.node.state v := by
  have hwlp := wlp_reach (fun _ _ _ _ hagain => absurd hagain Bool.false_ne_true) hr h
  obtain ⟨w, node⟩ := c
  cases node with
  | done e' v' =>
      obtain rfl : v' = v := Option.some.inj hret
      exact hwlp
  | call | fault => cases hret

/-- **`server_init` has two outcomes exactly if no `setsockopt`, `epoll_create`
or `epoll_ctl` has failed.**  Whenever it returns no object behind the start of
the detector, the detector runs with memory that has been freed. -/
theorem server_init_settled_iff (ip : String) (port : Int)
    (hr : Run (serverInit ip port) e c) (hret : returned c = some v) :
    (Settled (ServerReady ip port) c.world c.node.state v ↔ Sound c.world.log) ∧
      (Dangling c.world ↔ v ≠ .object ∧ c.world.detector = true) :=
  of_returned wlp_serverInit hr hret

/-- `epoll_ctl` fails: the epoll handle stays open, and the detector has the
memory that has been freed. -/
theorem server_init_settled_iff_epoll :
    ∃ c : EndConfig, returned c = some .null ∧ Dangling c.world ∧
      ¬ Settled (ServerReady "127.0.0.1" 5001) c.world c.node.state .null := by
  obtain ⟨c, hr, hret, hsound, hdetector⟩ : ∃ c : EndConfig,
      Run (serverInit "127.0.0.1" 5001) ⟨0, 0⟩ c ∧ returned c = some .null ∧
        ¬ Sound c.world.log ∧ c.world.detector = true :=
    exists_reach_of_exec deliver id
      [.answer (.count 1), .answer (.count 0), .answer (.count 0), .answer (.count 3),
        .answer (.count 0), .answer (.count 0), .answer (.count 0), .answer (.count 2),
        .answer (.count 0), .answer (.count 4), .answer (.fail (.other 12)),
        .answer (.count 0), .answer (.count 0)]
      (fun c : EndConfig => returned c = some .null ∧ ¬ Sound c.world.log ∧
        c.world.detector = true) (by decide +kernel)
  have hboth := server_init_settled_iff "127.0.0.1" 5001 hr hret
  exact ⟨c, hret, hboth.2.2 ⟨by decide, hdetector⟩, fun h => hsound (hboth.1.1 h)⟩

/-- **`client_init` is all or nothing**, whatever its calls return. -/
theorem client_init_settled (host : String) (port : Int)
    (hr : Run (clientInit host port) e c) (hret : returned c = some v) :
    Settled (ClientReady port) c.world c.node.state v :=
  of_returned wlp_clientInit hr hret

/-- The server refuses the connection. -/
theorem client_init_settled_refused :
    ∃ c : EndConfig, returned c = some .null ∧ InitCall.close 3 ∈ calls c.world.log ∧
      Settled (ClientReady 5000) c.world c.node.state .null := by
  obtain ⟨c, hr, hret, hclose⟩ : ∃ c : EndConfig, Run (clientInit "localhost" 5000) ⟨0, 0⟩ c ∧
      returned c = some .null ∧ InitCall.close 3 ∈ calls c.world.log :=
    exists_reach_of_exec deliver id
      [.answer (.count 1), .answer (.count 3), .answer ⟨1, .other 0, [127, 0, 0, 1], []⟩,
        .answer (.fail (.other 111)), .answer (.count 0), .answer (.count 0)]
      (fun c : EndConfig => returned c = some .null ∧ InitCall.close 3 ∈ calls c.world.log)
      (by decide +kernel)
  exact ⟨c, hret, hclose, client_init_settled "localhost" 5000 hr hret⟩

end Runs

end ZeroCopyProxy.Ports.EndpointInit
