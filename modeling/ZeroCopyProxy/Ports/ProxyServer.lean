import ZeroCopyProxy.Verified.Pairs
import ZeroCopyProxy.Ports.ProxyByteOrder
import ZeroCopyProxy.Ports.ServerProgress

/-!
# The proxy in front of the server

A worker of the proxy and `server_process_data`, in any interleaving.  The
messages of a client arrive at the worker; what it writes to its other
descriptor arrives at the server, and what the server writes arrives at the
worker and goes back to the client.

The two programs read the length of a message differently, so only the
messages in front of the first one the proxy misreads reach the server.  These
are messages for both (`Cut`).  The server is given nothing else, therefore
echoes, and what comes back are messages for the proxy again.
-/

namespace ZeroCopyProxy.Ports.ProxyServer

open ZeroCopyProxy.Verified
open ZeroCopyProxy.Verified.Resumption
open ZeroCopyProxy.Verified.PrefixCode
open ZeroCopyProxy.Verified.Beside (reach_invariant)
open ZeroCopyProxy.Verified.Pairs
open ZeroCopyProxy.Ports.Posix
open ZeroCopyProxy.Ports.Kernel
open ZeroCopyProxy.Ports.Frame
open ZeroCopyProxy.Ports.JmpMessage
open ZeroCopyProxy.Ports.TranscHeader
open ZeroCopyProxy.Ports.ProxyRelay
open ZeroCopyProxy.Ports.ProxyStream
open ZeroCopyProxy.Ports.PipeSlots (pageSize Spacious)
open ZeroCopyProxy.Ports.ProxyCapacity (Relaying relaying_writes)
open ZeroCopyProxy.Ports.StreamFraming (Built)
open ZeroCopyProxy.Ports.ProxyByteOrder
open ZeroCopyProxy.Ports.ServerLoop
open ZeroCopyProxy.Ports.ServerEcho
open ZeroCopyProxy.Ports.ServerProgress (Healthy Serving Serves exists_written_back
  written_behind)

/-! ## The two hosts -/

/-- The host of the proxy and that of the server. -/
structure Hosts where
  proxy : Host
  server : Host

/-- Nothing has happened. -/
def Hosts.fresh : Hosts := ⟨Host.fresh, Host.fresh⟩

section Parties

variable (d : WorkData) (stream : Bytes) (serverFd fd : Int)

/-- What arrives on the descriptors of the worker: the bytes of the client, and
what the server has written to its descriptor `fd`. -/
def arrives (w : Hosts) (f : Int) : Bytes :=
  if d.dirOf f = .ingoing then stream else w.server.written fd

/-- What arrives at the server: what the worker has written for it. -/
abbrev forwarded (w : Hosts) : Bytes := w.proxy.written (d.peer .ingoing)

/-- The answers to the server, to which these bytes arrive. -/
def Served (s : Bytes) (w : Host) (op : SysCall) (r : Answer) : Prop :=
  (WholeSends op r ∧ Continues (fun _ => s) w op r) ∧ Healthy op r

instance (s : Bytes) (w : Host) (op : SysCall) (r : Answer) : Decidable (Served s w op r) :=
  inferInstanceAs (Decidable ((_ ∧ _) ∧ _))

/-- The calls of the worker. -/
def proxyDeliver (w : Hosts) (op : SysCall) (r : Answer) : Option Hosts :=
  (hostDeliver (Relaying Spacious (arrives d stream fd w)) w.proxy op r).map fun p =>
    { w with proxy := p }

/-- The calls of the server. -/
def serverDeliver (w : Hosts) (op : SysCall) (r : Answer) : Option Hosts :=
  (hostDeliver (Served (forwarded d w)) w.server op r).map fun s => { w with server := s }

/-- The worker, to whose connection the bytes of the client arrive. -/
abbrev proxy : Party Hosts WorkData SysCall Answer (List Int) Int :=
  partyOf (proxyDeliver d stream fd) proxyConnEvent fun _ => true

/-- The server, whose client is the proxy. -/
abbrev server : Party Hosts ServerTransc SysCall Answer Bool Unit :=
  partyOf (serverDeliver d) (fun _ => serverRound serverFd fd) id

/-- A worker and a server. -/
abbrev Chain : Type :=
  Pair Hosts WorkData SysCall Answer (List Int) ServerTransc SysCall Answer Bool

/-- How a chain goes on. -/
abbrev Goes : Chain → Chain → Prop := Pair.Reach (proxy d stream fd) (server d serverFd fd)

/-- The runs of a new worker and a server with a cleared record. -/
abbrev Runs (c : Chain) : Prop :=
  Goes d stream serverFd fd ⟨Hosts.fresh, .done d [], .done serverCleared true⟩ c

end Parties

section Deliver

variable {d : WorkData} {stream : Bytes} {fd : Int} {w w' : Hosts} {op : SysCall} {r : Answer}

/-- What a call of the worker does. -/
theorem proxyDeliver_eq (h : proxyDeliver d stream fd w op r = some w') :
    hostKernel (Relaying Spacious (arrives d stream fd w)) w.proxy op r w'.proxy ∧
      w'.server = w.server := by
  obtain ⟨p, hp, rfl⟩ := Option.map_eq_some_iff.1 h
  exact ⟨hostKernel_of_hostDeliver hp, rfl⟩

/-- What a call of the server does. -/
theorem serverDeliver_eq (h : serverDeliver d w op r = some w') :
    hostKernel (Served (forwarded d w)) w.server op r w'.server ∧ w'.proxy = w.proxy := by
  obtain ⟨s, hs, rfl⟩ := Option.map_eq_some_iff.1 h
  exact ⟨hostKernel_of_hostDeliver hs, rfl⟩

theorem hostDeliver_of_hostKernel {policy : Host → SysCall → Answer → Prop}
    [∀ w op r, Decidable (policy w op r)] {v v' : Host} (h : hostKernel policy v op r v') :
    hostDeliver policy v op r = some v' := by
  obtain ⟨hcan, hpol, rfl⟩ := h
  exact if_pos ⟨hcan, hpol⟩

theorem arrives_source (d : WorkData) (stream : Bytes) (fd : Int) (w : Hosts) :
    arrives d stream fd w (d.source .ingoing) = stream ∧
      arrives d stream fd w (d.source .outgoing) = w.server.written fd := by
  unfold arrives
  rw [WorkData.dirOf_source, WorkData.dirOf_source]
  exact ⟨rfl, rfl⟩

end Deliver

/-! ## The messages both sides read -/

/-- A stream cut where the proxy stops: messages that are short and that both
programs read alike, and behind them nothing or what the proxy takes for a
large message. -/
structure Cut (stream : Bytes) where
  front : List (Message .big)
  same : List (Message .little)
  behind : Bytes
  stream_eq : stream = join front ++ behind
  join_same : join same = join front
  fits : ∀ f ∈ front, f.1.length ≤ 20 + pageSize
  short : ∀ f ∈ same, f.1.length ≤ 1044
  stops : behind = [] ∨ Large behind

namespace Cut

variable {stream : Bytes} (k : Cut stream)

theorem front_prefix : join k.front <+: stream := ⟨k.behind, k.stream_eq.symm⟩

/-- What is behind the messages, in both directions. -/
def rest (dir : Dir) : Bytes := if dir = .ingoing then k.behind else []

theorem rest_stops (dir : Dir) : k.rest dir = [] ∨ Large (k.rest dir) := by
  cases dir with
  | ingoing => exact k.stops
  | outgoing => exact .inl rfl

/-- What arrives at the worker if the server sends back no more than the
messages in front. -/
theorem arrives_within {d : WorkData} {fd : Int} {w : Hosts}
    (hback : w.server.written fd <+: join k.front) (f : Int) :
    arrives d stream fd w f <+: join k.front ++ k.rest (d.dirOf f) := by
  unfold arrives rest
  by_cases hdir : d.dirOf f = .ingoing
  · rw [if_pos hdir, if_pos hdir]
    exact ⟨[], (List.append_nil _).trans k.stream_eq⟩
  · rw [if_neg hdir, if_neg hdir, List.append_nil]
    exact hback

/-- The messages of the programs as the server reads them. -/
theorem exists_same (fs : List Bytes) (h : ∀ f ∈ fs, Built f) :
    ∃ same : List (Message .little), join same = fs.flatten ∧
      ∀ f ∈ same, f.1.length ≤ 1044 := by
  induction fs with
  | nil => exact ⟨[], rfl, fun f hf => (List.not_mem_nil hf).elim⟩
  | cons f fs ih =>
      obtain ⟨hframe, hshort⟩ := built_frame (h f List.mem_cons_self)
      obtain ⟨same, hjoin, hall⟩ := ih fun g hg => h g (List.mem_cons_of_mem f hg)
      refine ⟨⟨f, hframe⟩ :: same, by rw [join_cons, hjoin, List.flatten_cons], ?_⟩
      intro g hg
      rcases List.mem_cons.1 hg with rfl | hg
      · exact hshort
      · exact hall g hg

/-- The messages of the programs are cut behind the last one in front of the
first that is misread. -/
theorem exists_cut {fs : List Bytes} (h : ∀ f ∈ fs, Built f) :
    ∃ k : Cut fs.flatten, join k.front = (readable fs).flatten := by
  obtain ⟨front, behind, hstream, hfront, hfits, hstops⟩ := exists_front_messages h
  obtain ⟨same, hsame, hshort⟩ :=
    exists_same (readable fs) fun f hf => h f ((List.takeWhile_prefix _).subset hf)
  exact ⟨⟨front, same, behind, hstream, hsame.trans hfront.symm, hfits, hshort, hstops⟩, hfront⟩

end Cut

/-! ## Each side against what it is given -/

section Run

variable {d : WorkData} {stream : Bytes} {serverFd fd : Int} {c c' : Chain}

/-- What the worker and the server have taken in had arrived. -/
theorem consumed_arrived (hr : Runs d stream serverFd fd c) :
    (∀ f, c.world.proxy.consumed f <+: arrives d stream fd c.world f) ∧
      c.world.server.consumed fd <+: forwarded d c.world := by
  refine world_reach (I := fun w : Hosts =>
    (∀ f, w.proxy.consumed f <+: arrives d stream fd w f) ∧
      w.server.consumed fd <+: forwarded d w) ?_ ?_ hr ⟨fun _ => List.nil_prefix,
        List.nil_prefix⟩
  · rintro w op r w' ⟨hproxy, hserver⟩ hk
    obtain ⟨⟨-, hpol, hafter⟩, hsame⟩ := proxyDeliver_eq hk
    refine ⟨fun f => ?_, ?_⟩
    · have hstream : arrives d stream fd w' f = arrives d stream fd w f := by
        rw [arrives, arrives, hsame]
      rw [hstream, hafter]
      exact hpol.1.2.consumed (hproxy f)
    · rw [hsame]
      refine hserver.trans ?_
      rw [forwarded, forwarded, hafter]
      exact Host.written_grows _ _ _ _
  · rintro w op r w' ⟨hproxy, hserver⟩ hk
    obtain ⟨⟨-, hpol, hafter⟩, hsame⟩ := serverDeliver_eq hk
    refine ⟨fun f => ?_, ?_⟩
    · rw [hsame]
      refine (hproxy f).trans ?_
      unfold arrives
      split
      · exact List.prefix_rfl
      · rw [hafter]
        exact Host.written_grows _ _ _ _
    · rw [forwarded, hsame, hafter]
      exact hpol.1.2.consumed hserver

/-- What is written only grows. -/
theorem step_grows (h : Pair.Step (proxy d stream fd) (server d serverFd fd) c c') (f : Int) :
    c.world.proxy.written f <+: c'.world.proxy.written f := by
  cases h with
  | left h =>
      cases h with
      | start e ha => exact List.prefix_rfl
      | answer hk =>
          obtain ⟨⟨-, -, hafter⟩, -⟩ := proxyDeliver_eq hk
          rw [hafter]
          exact Host.written_grows _ _ _ _
  | right h =>
      cases h with
      | start e ha => exact List.prefix_rfl
      | answer hk =>
          exact ⟨[], by rw [List.append_nil, (serverDeliver_eq hk).2]⟩

/-- More may have arrived. -/
theorem Runs.mono {stream' : Bytes} (hle : stream <+: stream')
    (hr : Runs d stream serverFd fd c) : Runs d stream' serverFd fd c := by
  refine Pair.Reach.mono ?_ (fun _ _ _ _ hk => hk) hr
  intro w op r w' hk
  obtain ⟨p, hp, rfl⟩ := Option.map_eq_some_iff.1 hk
  obtain ⟨hcan, hpol, hafter⟩ := hostKernel_of_hostDeliver hp
  refine Option.map_eq_some_iff.2 ⟨p, hostDeliver_of_hostKernel ⟨hcan, ?_, hafter⟩, rfl⟩
  refine relaying_mono hpol fun f => ?_
  unfold arrives
  split
  · exact hle
  · exact List.prefix_rfl

/-- The worker relays the messages in front to the server and gets them back,
and the server is given nothing else. -/
structure Parts (d : WorkData) (k : Cut stream) (serverFd fd : Int) (c : Chain) : Prop where
  proxy : Carries d (fun dir => join k.front ++ k.rest dir) ⟨c.world.proxy, c.left⟩
  server : Serves k.same serverFd fd ⟨Host.fresh, .done serverCleared true⟩
    ⟨c.world.server, c.right⟩

variable (k : Cut stream)

/-- What a chain of these parts forwards and echoes. -/
theorem Parts.bounds (h : ∀ dir, d.transc dir = cleared) (hp : Parts d k serverFd fd c) :
    forwarded d c.world <+: join k.front ∧
      c.world.server.written fd <+: c.world.server.consumed fd ∧
      c.world.server.written fd <+: join k.front := by
  have hecho := written_behind fd k.short
    (hp.server.mono fun _ _ _ _ _ hk => ⟨hk.1, hk.2.1.1, hk.2.2⟩)
  rw [k.join_same] at hecho
  exact ⟨written_front h k.rest_stops hp.proxy .ingoing, hecho.1, hecho.1.trans hecho.2⟩

/-- **Each side relies on the other.** -/
theorem parts_reach (h : ∀ dir, d.transc dir = cleared) (hr : Runs d stream serverFd fd c) :
    Parts d k serverFd fd c := by
  refine reach_invariant (I := fun c => Parts d k serverFd fd c) ?_ hr ⟨.refl, .refl⟩
  intro c c' _ hi hs
  obtain ⟨hforward, -, hback⟩ := hi.bounds k h
  cases hs with
  | left hs =>
      cases hs with
      | start e ha => exact ⟨hi.proxy.tail (.start e ha), hi.server⟩
      | answer hk =>
          obtain ⟨⟨hcan, hpol, hafter⟩, hsame⟩ := proxyDeliver_eq hk
          refine ⟨hi.proxy.tail (.answer ⟨hcan, relaying_mono hpol fun f => ?_, hafter⟩), ?_⟩
          · exact k.arrives_within hback f
          · show Serves k.same serverFd fd _ ⟨_, _⟩
            rw [hsame]
            exact hi.server
  | right hs =>
      cases hs with
      | start e ha => exact ⟨hi.proxy, hi.server.tail (.start e ha)⟩
      | answer hk =>
          obtain ⟨⟨hcan, hpol, hafter⟩, hsame⟩ := serverDeliver_eq hk
          refine ⟨?_, hi.server.tail (.answer ⟨hcan, ⟨⟨hpol.1.1, ?_⟩, hpol.2⟩, hafter⟩)⟩
          · show Carries d _ ⟨_, _⟩
            rw [hsame]
            exact hi.proxy
          · refine continues_mono hpol.1.2 fun _ => ?_
            rw [k.join_same]
            exact hforward

/-! ## Going on -/

/-- A run of the worker alone, with what has arrived so far. -/
theorem goes_of_proxy {w : Hosts} {p : Host} {l l' : Res WorkData SysCall Answer (List Int)}
    {r : Res ServerTransc SysCall Answer Bool}
    (hr : Reach (blind (hostKernel (Relaying Spacious (arrives d stream fd w)))) proxyConnEvent
      (fun _ => true) ⟨w.proxy, l⟩ ⟨p, l'⟩) :
    Goes d stream serverFd fd ⟨w, l, r⟩ ⟨⟨p, w.server⟩, l', r⟩ := by
  obtain ⟨w', hrun, rfl⟩ := hr.simulate (L := blind (proxy d stream fd).kernel)
    (R := fun (p : Host) (w' : Hosts) => w' = ⟨p, w.server⟩) (v := w) (by
      rintro p₁ _ op r p₂ _ rfl hk
      exact ⟨_, Option.map_eq_some_iff.2 ⟨p₂, hostDeliver_of_hostKernel hk, rfl⟩, rfl⟩) rfl
  exact reach_of_left hrun

/-- A run of the server alone, with what has been forwarded so far. -/
theorem goes_of_server {w : Hosts} {s : Host} {l : Res WorkData SysCall Answer (List Int)}
    {r r' : Res ServerTransc SysCall Answer Bool}
    (hr : Reach (blind (hostKernel (Served (forwarded d w))))
      (fun _ : Unit => serverRound serverFd fd) id ⟨w.server, r⟩ ⟨s, r'⟩) :
    Goes d stream serverFd fd ⟨w, l, r⟩ ⟨⟨w.proxy, s⟩, l, r'⟩ := by
  obtain ⟨w', hrun, rfl⟩ := hr.simulate (L := blind (server d serverFd fd).kernel)
    (R := fun (s : Host) (w' : Hosts) => w' = ⟨w.proxy, s⟩) (v := w) (by
      rintro s₁ _ op r s₂ _ rfl hk
      exact ⟨_, Option.map_eq_some_iff.2 ⟨s₂, hostDeliver_of_hostKernel hk, rfl⟩, rfl⟩) rfl
  exact reach_of_right hrun

/-- The worker can write what is in front, in the direction in which it has
arrived. -/
theorem goes_through (h : ∀ dir, d.transc dir = cleared) (hr : Runs d stream serverFd fd c)
    (dir : Dir) (hstream : join k.front <+: arrives d stream fd c.world (d.source dir)) :
    ∃ p d' codes, Goes d stream serverFd fd c
        ⟨⟨p, c.world.server⟩, .done d' codes, c.right⟩ ∧
      p.written (d.peer dir) = join k.front := by
  obtain ⟨p, d', codes, hrun, hdone⟩ := exists_front h k.rest_stops (parts_reach k h hr).proxy
    dir k.fits (consumed_arrived hr).1 hstream
  exact ⟨p, d', codes, goes_of_proxy hrun, hdone⟩

/-! ## End to end -/

/-- What each place has of the messages in front. -/
theorem chain_bounds (h : ∀ dir, d.transc dir = cleared) (hr : Runs d stream serverFd fd c) :
    c.world.proxy.written (d.peer .outgoing) <+: c.world.server.written fd ∧
      c.world.server.written fd <+: c.world.server.consumed fd ∧
      c.world.server.consumed fd <+: c.world.proxy.written (d.peer .ingoing) ∧
      c.world.proxy.written (d.peer .ingoing) <+: join k.front := by
  have hparts := parts_reach k h hr
  obtain ⟨hproxy, hserver⟩ := consumed_arrived hr
  obtain ⟨hforward, hecho, -⟩ := hparts.bounds k h
  have hrel := relayed_reach relaying_writes h (relays_completed h k.rest_stops hparts.proxy)
    .outgoing
  obtain ⟨ws, hw, hc⟩ := hrel.1.whole
  have hback := hproxy (d.source .outgoing)
  rw [(arrives_source d _ fd c.world).2] at hback
  exact ⟨(hw.trans hc).trans hback, hecho, hserver, hforward⟩

/-- **In order.**  At every moment what the client gets back is a beginning of
what the server has written, that of what it has consumed, that of what the
worker has written for it, and that of the messages in front of the first one
the proxy misreads. -/
theorem chain_in_order (h : ∀ dir, d.transc dir = cleared) {fs : List Bytes}
    (hbuilt : ∀ f ∈ fs, Built f) (hr : Runs d fs.flatten serverFd fd c) :
    c.world.proxy.written (d.peer .outgoing) <+: c.world.server.written fd ∧
      c.world.server.written fd <+: c.world.server.consumed fd ∧
      c.world.server.consumed fd <+: c.world.proxy.written (d.peer .ingoing) ∧
      c.world.proxy.written (d.peer .ingoing) <+: (readable fs).flatten := by
  obtain ⟨k, hfront⟩ := Cut.exists_cut hbuilt
  rw [← hfront]
  exact chain_bounds k h hr

/-- The long text has been forwarded, and the server has read a part of it. -/
def forwardedActs : List (PairAct Int Answer Unit Answer) :=
  [.inl (.event 3), .inl (.answer (.stored ((jmpFrame 1 (List.replicate 236 97) 1).take 20))),
    .inl (.answer (.stored (List.replicate 236 97))), .inl (.answer (.count 20)),
    .inl (.answer (.count 236)), .inr (.event ()), .inr (.answer (.count 0)),
    .inr (.answer ⟨1, .other 0, [], [4]⟩),
    .inr (.answer (.stored ((jmpFrame 1 (List.replicate 236 97) 1).take 20))),
    .inr (.answer (.stored (List.replicate 100 97)))]

theorem exists_forwarded (p : Chain → Prop) [DecidablePred p]
    (h : (Pair.exec (proxyDeliver sampleWorker sampleTexts.flatten 4)
      (serverDeliver sampleWorker) proxyConnEvent (fun _ => serverRound 3 4) (fun _ => true) id
      forwardedActs ⟨Hosts.fresh, .done sampleWorker [], .done serverCleared true⟩).any
        (fun c => decide (p c)) = true) :
    ∃ c, Runs sampleWorker sampleTexts.flatten 3 4 c ∧ p c :=
  exists_reach_of_exec forwardedActs p h

theorem sampleWorker_cleared (dir : Dir) : sampleWorker.transc dir = cleared := by
  cases dir <;> rfl

theorem chain_in_order_forwarded :
    ∃ c : Chain, c.world.server.consumed 4 =
        (jmpFrame 1 (List.replicate 236 97) 1).take 120 ∧
      c.world.proxy.written 4 <+: jmpFrame 1 (List.replicate 236 97) 1 ∧
      c.world.server.written 4 <+: c.world.server.consumed 4 := by
  obtain ⟨c, hr, hpart⟩ := exists_forwarded (fun c => c.world.server.consumed 4 =
    (jmpFrame 1 (List.replicate 236 97) 1).take 120) (by decide +kernel)
  obtain ⟨-, hecho, -, hforward⟩ := chain_in_order sampleWorker_cleared built_sample hr
  rw [readable_sample] at hforward
  exact ⟨c, hpart, hforward, hecho⟩

/-- All the messages in front can come back. -/
theorem exists_back (h : ∀ dir, d.transc dir = cleared) (hfd : 0 ≤ fd) (hserver : fd ≠ serverFd)
    (hr : Runs d stream serverFd fd c) :
    ∃ c', Goes d stream serverFd fd c c' ∧
      c'.world.proxy.written (d.peer .outgoing) = join k.front := by
  -- the worker forwards what is in front
  obtain ⟨p, d₁, codes₁, hgo₁, hforward⟩ := goes_through k h hr .ingoing (by
    rw [(arrives_source d _ fd c.world).1]
    exact k.front_prefix)
  -- the server catches up
  obtain ⟨s, t, hserve, hecho⟩ := exists_written_back k.short hfd hserver
    (parts_reach k h (hr.trans hgo₁)).server
  have hgo₂ : Goes d stream serverFd fd ⟨⟨p, c.world.server⟩, .done d₁ codes₁, c.right⟩
      ⟨⟨p, s⟩, .done d₁ codes₁, .done t true⟩ := by
    refine goes_of_server (w := ⟨p, c.world.server⟩) (hserve.mono ?_)
    rintro w _ op r w' ⟨hcan, ⟨hpol, hhealthy⟩, hafter⟩
    refine ⟨hcan, ⟨⟨hpol.1, continues_mono hpol.2 fun _ => ?_⟩, hhealthy⟩, hafter⟩
    exact ⟨[], (List.append_nil _).trans (k.join_same.trans hforward.symm)⟩
  -- and the worker takes it back
  obtain ⟨p', d₂, codes₂, hgo₃, hback⟩ := goes_through k h ((hr.trans hgo₁).trans hgo₂)
    .outgoing (by
      rw [(arrives_source d _ fd _).2]
      exact ⟨[], (List.append_nil _).trans (k.join_same.symm.trans hecho.symm)⟩)
  exact ⟨_, (hgo₁.trans hgo₂).trans hgo₃, hback⟩

/-- **All of them can come back.**  From every state of a run the chain can go
on until the client has got back all the messages in front of the first one
the proxy misreads. -/
theorem all_come_back (h : ∀ dir, d.transc dir = cleared) {fs : List Bytes}
    (hbuilt : ∀ f ∈ fs, Built f) (hfd : 0 ≤ fd) (hserver : fd ≠ serverFd)
    (hr : Runs d fs.flatten serverFd fd c) :
    ∃ c', Goes d fs.flatten serverFd fd c c' ∧
      c'.world.proxy.written (d.peer .outgoing) = (readable fs).flatten := by
  obtain ⟨k, hfront⟩ := Cut.exists_cut hbuilt
  rw [← hfront]
  exact exists_back k h hfd hserver hr

/-- The long text comes back, and the text behind it never does. -/
theorem all_come_back_forwarded :
    ∃ c : Chain, c.world.proxy.written 3 = [] ∧ c.world.server.written 4 = [] ∧
      ∃ c', Goes sampleWorker sampleTexts.flatten 3 4 c c' ∧
        c'.world.proxy.written 3 = jmpFrame 1 (List.replicate 236 97) 1 := by
  obtain ⟨c, hr, hproxy, hserver⟩ := exists_forwarded (fun c => c.world.proxy.written 3 = [] ∧
    c.world.server.written 4 = []) (by decide +kernel)
  obtain ⟨c', hgo, hback⟩ := all_come_back sampleWorker_cleared built_sample (by decide)
    (by decide) hr
  exact ⟨c, hproxy, hserver, c', hgo, hback.trans readable_sample⟩

end Run

end ZeroCopyProxy.Ports.ProxyServer
