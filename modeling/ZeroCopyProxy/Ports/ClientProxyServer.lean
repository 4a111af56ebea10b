import ZeroCopyProxy.Ports.ClientServer
import ZeroCopyProxy.Ports.ProxyServer

/-!
# The client, the proxy and the server

The three programs together, in any interleaving: `client_process_data`, whose
socket is connected to the proxy, a worker of the proxy, and
`server_process_data` behind it.  The client is a program beside a chain: what
it sends arrives at the worker, and what the worker writes back is what it may
read.

The chain gives back the requests in front of the first one whose length is no
multiple of 256 (`ProxyServer`), which is a beginning of what a peer that
echoes would give, so the client behaves as it does against such a peer.  It
differs from one in that it may never answer: a client that waits can still be
answered exactly if it has not read all of those requests (`answered_iff`).
-/

namespace ZeroCopyProxy.Ports.ClientProxyServer

open ZeroCopyProxy.Verified
open ZeroCopyProxy.Verified.Resumption
open ZeroCopyProxy.Verified.PrefixCode
open ZeroCopyProxy.Verified.Pairs
open ZeroCopyProxy.Ports.Posix
open ZeroCopyProxy.Ports.Kernel
open ZeroCopyProxy.Ports.TranscHeader
open ZeroCopyProxy.Ports.ProxyRelay
open ZeroCopyProxy.Ports.StreamFraming (Built)
open ZeroCopyProxy.Ports.ProxyByteOrder (readable built_jmpFrame)
open ZeroCopyProxy.Ports.ServerLoop
open ZeroCopyProxy.Ports.ClientLoop
open ZeroCopyProxy.Ports.ClientServer (Wire clientDeliver clientDeliver_cases read_cases
  clientDeliver_got Mirrors mirrors_fresh echo_answers one_outstanding read_answered)
open ZeroCopyProxy.Ports.ProxyServer (Chain Cut proxy server proxyDeliver serverDeliver
  step_grows chain_bounds exists_back forwardedActs sampleWorker_cleared)

/-! ## The system -/

/-- What surrounds the client: the lines, requests and reads with the host of
the proxy, the host of the server, and where the worker and the server stand. -/
structure Middle where
  wire : Wire
  server : Host
  worker : Res WorkData SysCall Answer (List Int)
  loop : Res ServerTransc SysCall Answer Bool

namespace Middle

/-- A new worker and a server with a cleared record. -/
def fresh (d : WorkData) : Middle :=
  ⟨Wire.fresh, Host.fresh, .done d [], .done serverCleared true⟩

/-- The proxy and the server. -/
abbrev chain (w : Middle) : Chain := ⟨⟨w.wire.host, w.server⟩, w.worker, w.loop⟩

/-- The chain in another state. -/
def withChain (w : Middle) (c : Chain) : Middle :=
  ⟨{ w.wire with host := c.world.proxy }, c.world.server, c.left, c.right⟩

end Middle

section System

variable (d : WorkData) (clientFd serverFd fd : Int)

/-- The calls of the client.  It reads what the worker has written to the
source of its connection. -/
def callDeliver (w : Middle) (op : ClientCall) (r : Answer) : Option Middle :=
  (clientDeliver (d.peer .outgoing) w.wire op r).map fun v => { w with wire := v }

/-- The kernel of the client. -/
abbrev callKernel (w : Middle) (op : ClientCall) (r : Answer) (w' : Middle) : Prop :=
  callDeliver d w op r = some w'

/-- A step of the worker or of the server.  What the client has sent so far
arrives at the worker. -/
def ChainStep (w w' : Middle) : Prop :=
  ∃ c, Pair.Step (proxy d w.wire.sent fd) (server d serverFd fd) w.chain c ∧
    w' = w.withChain c

/-- The client with its surroundings. -/
abbrev System : Type := Config Middle Client ClientCall Answer Bool

/-- How the system goes on. -/
abbrev Goes : System → System → Prop :=
  Beside.Reach (callKernel d) (ChainStep d serverFd fd) (fun _ : Unit => clientRound clientFd) id

/-- The runs of a client that starts with this memory. -/
abbrev Runs (s : Client) (c : System) : Prop :=
  Goes d clientFd serverFd fd ⟨Middle.fresh d, .done s true⟩ c

end System

/-! ## The two views -/

section Run

variable {d : WorkData} {clientFd serverFd fd : Int} {s : Client} {c : System}

/-- **The chain's side.**  It runs as it does when all that the client has sent
arrives. -/
theorem chain_reach (hr : Runs d clientFd serverFd fd s c) :
    ProxyServer.Runs d c.world.wire.sent serverFd fd c.world.chain := by
  refine Beside.reach_invariant
    (I := fun c : System => ProxyServer.Runs d c.world.wire.sent serverFd fd c.world.chain)
    ?_ hr .refl
  intro c c' _ hi hs
  cases hs with
  | own hs =>
      cases hs with
      | start e ha => exact hi
      | @answer w w' _ _ _ _ hk =>
          obtain ⟨v, hv, rfl⟩ := Option.map_eq_some_iff.1 hk
          obtain ⟨hhost, hmono, -⟩ := clientDeliver_cases hv
          show ProxyServer.Runs d v.sent serverFd fd ⟨⟨v.host, w.server⟩, w.worker, w.loop⟩
          rw [hhost]
          exact hi.mono hmono
  | env he =>
      obtain ⟨c', hstep, rfl⟩ := he
      exact hi.tail hstep

/-- Only lines are typed. -/
theorem lines_typed (hr : Runs d clientFd serverFd fd s c) :
    ∀ p ∈ c.world.wire.lines, IsLine p := by
  refine Beside.world_reach (I := fun w : Middle => ∀ p ∈ w.wire.lines, IsLine p) ?_ ?_ hr
    fun p hp => (List.not_mem_nil hp).elim
  · intro w op r w' hi hk
    obtain ⟨v, hv, rfl⟩ := Option.map_eq_some_iff.1 hk
    exact (clientDeliver_cases hv).2.2 hi
  · rintro w w' hi ⟨c, -, rfl⟩
    exact hi

/-- What was read was written back. -/
theorem got_written (hr : Runs d clientFd serverFd fd s c) :
    c.world.wire.got <+: c.world.wire.host.written (d.peer .outgoing) := by
  refine Beside.world_reach
    (I := fun w : Middle => w.wire.got <+: w.wire.host.written (d.peer .outgoing)) ?_ ?_ hr
    List.nil_prefix
  · intro w op r w' hi hk
    obtain ⟨v, hv, rfl⟩ := Option.map_eq_some_iff.1 hk
    exact clientDeliver_got hv hi
  · rintro w w' hi ⟨c, hstep, rfl⟩
    exact hi.trans (step_grows hstep _)

/-- The requests of a client that meets a peer that echoes are messages. -/
theorem built_requests (hr : Runs d clientFd serverFd fd s c) {e : Echo}
    (he : ClientLoop.Runs clientFd s ⟨e, c.node⟩) (hm : Mirrors c.world.wire e) :
    ∀ f ∈ c.world.wire.requests, Built f := by
  obtain ⟨sent, ht⟩ := exists_tidy clientFd s he
  intro f hf
  rw [← hm.responses, ht.echoed] at hf
  obtain ⟨p, hp, rfl⟩ := List.mem_map.1 hf
  have hmem : p ∈ e.lines := ht.typed.subset hp
  rw [hm.lines] at hmem
  have hline := lines_typed hr p hmem
  exact built_jmpFrame (by decide) hline.isText hline.nonempty 1

/-- **The client's side.**  It takes part in a run against the peer that echoes
every message at once, with the same lines, requests and reads. -/
theorem client_meets_echo (h : ∀ dir, d.transc dir = cleared)
    (hr : Runs d clientFd serverFd fd s c) :
    ∃ e, ClientLoop.Runs clientFd s ⟨e, c.node⟩ ∧ Mirrors c.world.wire e := by
  refine Beside.own_reach (fun c : System => c) (fun hs => hs)
    (fun (w : Middle) e => Mirrors w.wire e) ?_ ?_ hr mirrors_fresh
  · intro c l op k r w' e hreach hrun hm hcall hk
    obtain ⟨v, hv, rfl⟩ := Option.map_eq_some_iff.1 hk
    obtain ⟨cut, hfront⟩ := Cut.exists_cut (built_requests hreach hrun hm)
    obtain ⟨h₁, h₂, h₃, h₄⟩ := chain_bounds cut h (chain_reach hreach)
    exact echo_answers hm ((h₁.trans (h₂.trans (h₃.trans h₄))).trans cut.front_prefix) hv
  · rintro w w' e hm ⟨c, -, rfl⟩
    exact ⟨hm.lines, hm.responses, hm.consumed, hm.flow⟩

/-- Where the requests are cut. -/
theorem exists_front_requests (h : ∀ dir, d.transc dir = cleared)
    (hr : Runs d clientFd serverFd fd s c) :
    ∃ cut : Cut c.world.wire.sent,
      join cut.front = (readable c.world.wire.requests).flatten := by
  obtain ⟨e, he, hm⟩ := client_meets_echo h hr
  exact Cut.exists_cut (built_requests hr he hm)

/-- What the client has read is a beginning of the requests in front. -/
theorem got_front (h : ∀ dir, d.transc dir = cleared) (hr : Runs d clientFd serverFd fd s c) :
    c.world.wire.got <+: (readable c.world.wire.requests).flatten := by
  obtain ⟨cut, hfront⟩ := exists_front_requests h hr
  obtain ⟨h₁, h₂, h₃, h₄⟩ := chain_bounds cut h (chain_reach hr)
  rw [← hfront]
  exact (got_written hr).trans (h₁.trans (h₂.trans (h₃.trans h₄)))

/-! ## End to end -/

/-- **Through all three programs.**  At every moment each place has a beginning
of what the place in front of it has, from the requests in front of the first
one the proxy misreads to what the client has read; the requests are those of
the lines typed, and at most one response is missing. -/
theorem system_in_order (h : ∀ dir, d.transc dir = cleared)
    (hr : Runs d clientFd serverFd fd s c) :
    c.world.wire.got <+: c.world.wire.host.written (d.peer .outgoing) ∧
      c.world.wire.host.written (d.peer .outgoing) <+: c.world.server.written fd ∧
      c.world.server.written fd <+: c.world.server.consumed fd ∧
      c.world.server.consumed fd <+: c.world.wire.host.written (d.peer .ingoing) ∧
      c.world.wire.host.written (d.peer .ingoing) <+:
        (readable c.world.wire.requests).flatten ∧
      c.world.wire.requests <+: c.world.wire.lines.map request ∧
      c.world.wire.lines.length ≤ c.world.wire.reads.length + 1 := by
  obtain ⟨e, he, hm⟩ := client_meets_echo h hr
  obtain ⟨cut, hfront⟩ := Cut.exists_cut (built_requests hr he hm)
  obtain ⟨h₁, h₂, h₃, h₄⟩ := chain_bounds cut h (chain_reach hr)
  obtain ⟨sent, ht⟩ := exists_tidy clientFd s he
  have hone := one_outstanding he
  have hecho := ht.echoed
  have htyped := ht.typed
  rw [hm.responses] at hecho
  rw [hm.lines] at hone htyped
  rw [hm.consumed] at hone
  refine ⟨got_written hr, h₁, h₂, h₃, hfront ▸ h₄, ?_, hone⟩
  rw [hecho]
  exact htyped.map request

/-- A step of the chain on a given action. -/
def chainMove (d : WorkData) (serverFd fd : Int) (a : PairAct Int Answer Unit Answer)
    (w : Middle) : Option Middle :=
  (w.chain.act (proxyDeliver d w.wire.sent fd) (serverDeliver d) proxyConnEvent
    (fun _ => serverRound serverFd fd) (fun _ => true) id a).map w.withChain

/-- A line of text is typed and sent. -/
def typedActs (p : Bytes) : List (Act Unit Answer ⊕ PairAct Int Answer Unit Answer) :=
  [.inl (.event ()), .inl (.answer (.stored (p ++ [10]))),
    .inl (.answer (.count (request p).length))]

theorem exists_system (as : List (Act Unit Answer ⊕ PairAct Int Answer Unit Answer))
    (p : System → Prop) [DecidablePred p]
    (h : (Beside.exec (callDeliver sampleWorker) (chainMove sampleWorker 3 4)
      (fun _ => clientRound 5) id as ⟨Middle.fresh sampleWorker, .done freshClient true⟩).any
        (fun c => decide (p c)) = true) :
    ∃ c, Runs sampleWorker 5 3 4 freshClient c ∧ p c := by
  refine Beside.exists_reach_of_exec ?_ as p h
  intro a w w' hw
  obtain ⟨c, hc, rfl⟩ := Option.map_eq_some_iff.1 hw
  exact ⟨c, step_of_act hc, rfl⟩

/-- A line of 236 letters, of which the server has read a part. -/
theorem system_in_order_typed :
    ∃ c : System, c.world.server.consumed 4 = (request (List.replicate 236 97)).take 120 ∧
      c.world.server.consumed 4 <+: c.world.wire.host.written 4 ∧
      c.world.wire.lines.length ≤ c.world.wire.reads.length + 1 := by
  obtain ⟨c, hr, hpart⟩ := exists_system
    (typedActs (List.replicate 236 97) ++ forwardedActs.map .inr)
    (fun c => c.world.server.consumed 4 = (request (List.replicate 236 97)).take 120)
    (by decide +kernel)
  obtain ⟨-, -, -, hserver, -, -, hone⟩ := system_in_order sampleWorker_cleared hr
  exact ⟨c, hpart, hserver, hone⟩

/-- A run of the chain in the system. -/
theorem goes_of_chain {w : Middle} {c : Chain}
    (hr : ProxyServer.Goes d w.wire.sent serverFd fd w.chain c) :
    Relation.ReflTransGen (ChainStep d serverFd fd) w (w.withChain c) := by
  induction hr with
  | refl => exact .refl
  | tail _ hs ih => exact ih.tail ⟨_, hs, rfl⟩

/-- **A client that waits can still be answered exactly if it has not read all
the requests in front of the first one the proxy misreads.** -/
theorem answered_iff (h : ∀ dir, d.transc dir = cleared) (hfd : 0 ≤ fd)
    (hserver : fd ≠ serverFd) (hr : Runs d clientFd serverFd fd s c)
    (hwaits : c.node.waits = some (.read clientFd 1024)) :
    (∃ c', Goes d clientFd serverFd fd c c' ∧
      c.world.wire.reads.length < c'.world.wire.reads.length) ↔
    c.world.wire.got.length < (readable c.world.wire.requests).flatten.length := by
  constructor
  · rintro ⟨c', hgo, hmore⟩
    have hwait : (c'.node = c.node ∧ c'.world.wire.requests = c.world.wire.requests ∧
        c'.world.wire.reads = c.world.wire.reads) ∨
        c.world.wire.got.length < (readable c.world.wire.requests).flatten.length := by
      refine Beside.reach_invariant (I := fun c' : System =>
        (c'.node = c.node ∧ c'.world.wire.requests = c.world.wire.requests ∧
          c'.world.wire.reads = c.world.wire.reads) ∨
        c.world.wire.got.length < (readable c.world.wire.requests).flatten.length) ?_ hgo
        (.inl ⟨rfl, rfl, rfl⟩)
      rintro c₁ c₂ hgo₁ (⟨hnode, hreq, hreads⟩ | hdone) hs
      · cases hs with
        | own hs =>
            have hstep : Goes d clientFd serverFd fd c₁ c₂ := .single (.own hs)
            have hgot := got_front h ((hr.trans hgo₁).trans hstep)
            rw [← hnode] at hwaits
            cases hs with
            | start e ha => cases hwaits
            | answer hk =>
                obtain rfl := Option.some.inj hwaits
                obtain ⟨v, hv, rfl⟩ := Option.map_eq_some_iff.1 hk
                obtain ⟨rfl, hpos, -⟩ := read_cases hv
                refine .inr ?_
                have hle := hgot.length_le
                simp only [Wire.got] at hle ⊢
                rw [hreq, hreads, List.flatten_append, List.length_append,
                  List.flatten_singleton] at hle
                omega
        | env he =>
            obtain ⟨c₃, -, rfl⟩ := he
            exact .inl ⟨hnode, hreq, hreads⟩
      · exact .inr hdone
    rcases hwait with ⟨-, -, hreads⟩ | hdone
    · rw [hreads] at hmore
      exact absurd hmore (Nat.lt_irrefl _)
    · exact hdone
  · intro hlt
    obtain ⟨cut, hfront⟩ := exists_front_requests h hr
    obtain ⟨chain, hgo, hback⟩ := exists_back cut h hfd hserver (chain_reach hr)
    rw [hfront] at hback
    obtain ⟨w, n⟩ := c
    have hgo' : Goes d clientFd serverFd fd ⟨w, n⟩ ⟨w.withChain chain, n⟩ :=
      Beside.reach_of_env (goes_of_chain hgo)
    have hgot := got_written (hr.trans hgo')
    obtain ⟨r, hread⟩ := read_answered clientFd hgot (by
      show w.wire.got.length < (chain.world.proxy.written (d.peer .outgoing)).length
      rw [hback]
      exact hlt)
    obtain ⟨v, hv⟩ := Option.isSome_iff_exists.1 hread
    cases n with
    | done l a => cases hwaits
    | fault l => cases hwaits
    | call l op k =>
        obtain rfl : op = .read clientFd 1024 := Option.some.inj hwaits
        refine ⟨⟨{ w.withChain chain with wire := v }, k r⟩, hgo'.tail (.own (.answer ?_)), ?_⟩
        · exact Option.map_eq_some_iff.2 ⟨v, hv, rfl⟩
        · obtain ⟨rfl, -, -⟩ := read_cases hv
          show w.wire.reads.length < (w.wire.reads ++ [r.data]).length
          rw [List.length_append]
          exact Nat.lt_succ_self _

/-- A line of 236 letters is answered and the line `hi` never is. -/
theorem answered_iff_typed :
    (∃ c : System, c.world.wire.requests = [request (List.replicate 236 97)] ∧
      ∃ c', Goes sampleWorker 5 3 4 c c' ∧
        c.world.wire.reads.length < c'.world.wire.reads.length) ∧
    ∃ c : System, c.world.wire.requests = [request [104, 105]] ∧
      ¬ ∃ c', Goes sampleWorker 5 3 4 c c' ∧
        c.world.wire.reads.length < c'.world.wire.reads.length := by
  refine ⟨?_, ?_⟩
  · obtain ⟨c, hr, hwaits, hreq, hgot⟩ := exists_system (typedActs (List.replicate 236 97))
      (fun c => c.node.waits = some (.read 5 1024) ∧
        c.world.wire.requests = [request (List.replicate 236 97)] ∧ c.world.wire.got = [])
      (by decide +kernel)
    refine ⟨c, hreq, (answered_iff sampleWorker_cleared (by decide) (by decide) hr hwaits).2 ?_⟩
    rw [hreq, hgot]
    decide +kernel
  · obtain ⟨c, hr, hwaits, hreq⟩ := exists_system (typedActs [104, 105])
      (fun c => c.node.waits = some (.read 5 1024) ∧
        c.world.wire.requests = [request [104, 105]]) (by decide +kernel)
    refine ⟨c, hreq, fun hanswer => ?_⟩
    have hlt := (answered_iff sampleWorker_cleared (by decide) (by decide) hr hwaits).1 hanswer
    have hnone : readable [request [104, 105]] = [] := by decide +kernel
    rw [hreq, hnone] at hlt
    exact absurd hlt (Nat.not_lt_zero _)

end Run

end ZeroCopyProxy.Ports.ClientProxyServer
