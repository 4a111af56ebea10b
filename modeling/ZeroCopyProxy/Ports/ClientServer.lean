import ZeroCopyProxy.Verified.Pairs
import ZeroCopyProxy.Ports.ClientLoop
import ZeroCopyProxy.Ports.ServerProgress

/-!
# The client and the server on one connection

`client_process_data` and `server_process_data` at the two ends of a TCP
connection, in any interleaving.  What the client has sent is what arrives at
the server, in any pieces that leave headers whole, and what the server has
written is what the client may read, in any pieces.

The client was studied against a peer that echoes every message at once
(`ClientLoop.echoDeliver`).  The server is such a peer: whatever it does and
however late, the client takes part in a run against the echo
(`client_meets_echo`).  Each side relies on the other here.  The server echoes
what is cut into messages, which is what the client sends; the client sends
messages as long as what it reads is an echo.
-/

namespace ZeroCopyProxy.Ports.ClientServer

open ZeroCopyProxy.Verified
open ZeroCopyProxy.Verified.Resumption
open ZeroCopyProxy.Verified.PrefixCode
open ZeroCopyProxy.Verified.Beside (reach_invariant)
open ZeroCopyProxy.Verified.Pairs
open ZeroCopyProxy.Ports.Posix
open ZeroCopyProxy.Ports.Kernel
open ZeroCopyProxy.Ports.Frame
open ZeroCopyProxy.Ports.JmpMessage
open ZeroCopyProxy.Ports.ServerLoop
open ZeroCopyProxy.Ports.ServerEcho
open ZeroCopyProxy.Ports.ServerProgress (Healthy Serves exists_written_back written_behind)
open ZeroCopyProxy.Ports.ClientLoop

/-! ## The connection -/

/-- The lines typed, what each `write` and each `read` of the client moved,
and the host of the server. -/
structure Wire where
  lines : List Bytes
  requests : List Bytes
  reads : List Bytes
  host : Host

/-- Nothing has been typed. -/
def Wire.fresh : Wire := ⟨[], [], [], Host.fresh⟩

/-- The bytes on their way to the server. -/
abbrev Wire.sent (w : Wire) : Bytes := w.requests.flatten

/-- The bytes the client has read. -/
abbrev Wire.got (w : Wire) : Bytes := w.reads.flatten

/-- The calls of the client.  A blocking `write` sends everything, and a
`read` takes at least one byte of what the server has written to its
descriptor `fd`. -/
def clientDeliver (fd : Int) (w : Wire) (op : ClientCall) (r : Answer) : Option Wire :=
  match op with
  | .fgets size =>
    if IsLine r.data.dropLast ∧ r.data = r.data.dropLast ++ [10] ∧ r.data.length < size ∧
        r.ret = r.data.length then
      some { w with lines := w.lines ++ [r.data.dropLast] }
    else none
  | .write _ buf count =>
    if r.ret = count then some { w with requests := w.requests ++ [buf.take count.toNat] }
    else none
  | .read _ count =>
    if 1 ≤ r.ret ∧ r.ret ≤ count ∧ r.ret = r.data.length ∧
        w.got ++ r.data <+: w.host.written fd then
      some { w with reads := w.reads ++ [r.data] }
    else none
  | .shows _ _ => some w

/-- The calls of the server, to which the bytes the client has sent arrive.
`H` is what else is known of the answers. -/
def serverDeliver (H : SysCall → Answer → Prop) [∀ op r, Decidable (H op r)] (w : Wire)
    (op : SysCall) (r : Answer) : Option Wire :=
  if w.host.Can op r ∧ WholeSends op r ∧ Continues (fun _ => w.sent) w.host op r ∧
      H op r then
    some { w with host := w.host.after op r }
  else none

/-- The client, whose socket is connected to the server's descriptor `fd`. -/
abbrev client (clientFd fd : Int) : Party Wire Client ClientCall Answer Bool Unit :=
  partyOf (clientDeliver fd) (fun _ => clientRound clientFd) id

/-- The server. -/
abbrev server (H : SysCall → Answer → Prop) [∀ op r, Decidable (H op r)] (serverFd fd : Int) :
    Party Wire ServerTransc SysCall Answer Bool Unit :=
  partyOf (serverDeliver H) (fun _ => serverRound serverFd fd) id

/-- A client and a server. -/
abbrev Connection : Type := Pair Wire Client ClientCall Answer Bool ServerTransc SysCall Answer Bool

/-- The runs of a client that starts with this memory and a server with a
cleared record. -/
abbrev Runs (H : SysCall → Answer → Prop) [∀ op r, Decidable (H op r)]
    (clientFd serverFd fd : Int) (s : Client) (c : Connection) : Prop :=
  Pair.Reach (client clientFd fd) (server H serverFd fd)
    ⟨Wire.fresh, .done s true, .done serverCleared true⟩ c

/-! ## The requests are messages -/

/-- The request for a line is a message the server has room for. -/
theorem isFrame_request {p : Bytes} (hp : IsLine p) : IsFrame .little (request p) :=
  isFrame_jmpFrame (by decide) hp.isText hp.nonempty 1

theorem exists_frames {ps : List Bytes} (h : ∀ p ∈ ps, IsLine p) :
    ∃ frames : List (Message .little), join frames = (ps.map request).flatten ∧
      ∀ f ∈ frames, f.1.length ≤ 1044 := by
  induction ps with
  | nil => exact ⟨[], rfl, fun f hf => by cases hf⟩
  | cons p ps ih =>
      have hp := h p List.mem_cons_self
      have hsize := hp.size
      obtain ⟨frames, hjoin, hshort⟩ := ih fun q hq => h q (List.mem_cons_of_mem p hq)
      refine ⟨⟨request p, isFrame_request hp⟩ :: frames, ?_, fun f hf => ?_⟩
      · rw [join_cons, hjoin, List.map_cons, List.flatten_cons]
      · rcases List.mem_cons.1 hf with rfl | hf
        · show (jmpFrame 1 p 1).length ≤ 1044
          rw [length_jmpFrame]
          omega
        · exact hshort f hf

/-! ## What the calls keep -/

section Keep

variable {H : SysCall → Answer → Prop} [∀ op r, Decidable (H op r)] {fd : Int} {w w' : Wire}

/-- What a call of the client does to the connection. -/
theorem clientDeliver_cases {op : ClientCall} {r : Answer}
    (h : clientDeliver fd w op r = some w') :
    w'.host = w.host ∧ w.sent <+: w'.sent ∧ ((∀ p ∈ w.lines, IsLine p) →
      ∀ p ∈ w'.lines, IsLine p) := by
  cases op with
  | fgets size =>
      simp only [clientDeliver] at h
      split at h
      · next hr =>
          cases h
          refine ⟨rfl, List.prefix_rfl, fun hall p hp => ?_⟩
          rcases List.mem_append.1 hp with hp | hp
          · exact hall p hp
          · rw [List.mem_singleton.1 hp]
            exact hr.1
      · cases h
  | write fd' buf count =>
      simp only [clientDeliver] at h
      split at h
      · cases h
        refine ⟨rfl, ?_, fun hall => hall⟩
        show w.requests.flatten <+: (w.requests ++ _).flatten
        rw [List.flatten_append]
        exact List.prefix_append _ _
      · cases h
  | read fd' count =>
      simp only [clientDeliver] at h
      split at h
      · cases h
        exact ⟨rfl, List.prefix_rfl, fun hall => hall⟩
      · cases h
  | shows text bytes =>
      cases h
      exact ⟨rfl, List.prefix_rfl, fun hall => hall⟩

/-- What a `read` of the client does. -/
theorem read_cases {f n : Int} {r : Answer} (h : clientDeliver fd w (.read f n) r = some w') :
    w' = { w with reads := w.reads ++ [r.data] } ∧ 0 < r.data.length ∧
      w.got ++ r.data <+: w.host.written fd := by
  simp only [clientDeliver] at h
  split at h
  · next hr =>
      cases h
      exact ⟨rfl, by omega, hr.2.2.2⟩
  · cases h

/-- The client reads what was written to it. -/
theorem clientDeliver_got {op : ClientCall} {r : Answer} (h : clientDeliver fd w op r = some w')
    (hgot : w.got <+: w.host.written fd) : w'.got <+: w'.host.written fd := by
  cases op with
  | read f n =>
      obtain ⟨rfl, -, hpre⟩ := read_cases h
      show (w.reads ++ [r.data]).flatten <+: w.host.written fd
      rwa [List.flatten_append, List.flatten_singleton]
  | fgets size =>
      simp only [clientDeliver] at h
      split at h <;> cases h
      exact hgot
  | write f buf count =>
      simp only [clientDeliver] at h
      split at h <;> cases h
      exact hgot
  | shows text bytes =>
      cases h
      exact hgot

/-- What a call of the server does to the connection. -/
theorem serverDeliver_eq {op : SysCall} {r : Answer} (h : serverDeliver H w op r = some w') :
    w.host.Can op r ∧ WholeSends op r ∧ Continues (fun _ => w.sent) w.host op r ∧ H op r ∧
      w' = { w with host := w.host.after op r } := by
  unfold serverDeliver at h
  split at h
  · next hr =>
      cases h
      exact ⟨hr.1, hr.2.1, hr.2.2.1, hr.2.2.2, rfl⟩
  · cases h

end Keep

section Run

variable {H : SysCall → Answer → Prop} [∀ op r, Decidable (H op r)]
  {clientFd serverFd fd : Int} {s : Client} {c : Connection}

/-- Only lines are typed. -/
theorem lines_typed (hr : Runs H clientFd serverFd fd s c) : ∀ p ∈ c.world.lines, IsLine p := by
  refine world_reach (I := fun w : Wire => ∀ p ∈ w.lines, IsLine p) ?_ ?_ hr ?_
  · intro w op r w' hi hk
    exact (clientDeliver_cases hk).2.2 hi
  · intro w op r w' hi hk
    obtain ⟨-, -, -, -, rfl⟩ := serverDeliver_eq hk
    exact hi
  · intro p hp
    cases hp

/-- These messages arrive at the server. -/
def FramesArrive (H : SysCall → Answer → Prop) (frames : List (Message .little)) (w : Host)
    (op : SysCall) (r : Answer) : Prop :=
  EchoPolicy frames w op r ∧ H op r

/-- **The server's side.**  If the client sends the beginning of a stream of
messages, the server runs as it does when this stream arrives. -/
theorem server_reach (hr : Runs H clientFd serverFd fd s c) {frames : List (Message .little)}
    (hsent : c.world.sent <+: join frames) :
    Reach (blind (hostKernel (FramesArrive H frames))) (fun _ : Unit => serverRound serverFd fd) id
      ⟨Host.fresh, .done serverCleared true⟩ ⟨c.world.host, c.right⟩ := by
  refine reach_invariant (I := fun c : Connection => c.world.sent <+: join frames →
    Reach (blind (hostKernel (FramesArrive H frames))) (fun _ : Unit => serverRound serverFd fd) id
      ⟨Host.fresh, .done serverCleared true⟩ ⟨c.world.host, c.right⟩) ?_ hr (fun _ => .refl) hsent
  intro c c' _ hi hs hsent'
  cases hs with
  | left hs =>
      cases hs with
      | start e ha => exact hi hsent'
      | answer hk =>
          obtain ⟨hhost, hmono, -⟩ := clientDeliver_cases hk
          have hrun := hi (hmono.trans hsent')
          rw [← hhost] at hrun
          exact hrun
  | right hs =>
      cases hs with
      | start e ha => exact (hi hsent').tail (.start e ha)
      | answer hk =>
          obtain ⟨hcan, hwhole, hcont, hH, rfl⟩ := serverDeliver_eq hk
          refine (hi hsent').tail (.answer ⟨hcan, ⟨⟨hwhole, ?_⟩, hH⟩, rfl⟩)
          exact continues_mono hcont fun _ => hsent'

/-- What the server has written begins what it has consumed, and that begins
any stream of messages the client is about to send. -/
theorem server_echoes_sent (hr : Runs H clientFd serverFd fd s c)
    {frames : List (Message .little)} (hshort : ∀ f ∈ frames, f.1.length ≤ 1044)
    (hsent : c.world.sent = join frames) :
    c.world.host.written fd <+: c.world.host.consumed fd ∧
      c.world.host.consumed fd <+: c.world.sent := by
  have hle : c.world.sent <+: join frames := ⟨[], by rw [List.append_nil, hsent]⟩
  have hrun : Reach (blind (hostKernel (EchoPolicy frames)))
      (fun _ : Unit => serverRound serverFd fd) id ⟨Host.fresh, .done serverCleared true⟩
      ⟨c.world.host, c.right⟩ :=
    (server_reach hr hle).mono fun _ _ _ _ _ hk => ⟨hk.1, hk.2.1.1, hk.2.2⟩
  obtain ⟨hecho, hstream⟩ := written_behind fd hshort hrun
  exact ⟨hecho, hsent ▸ hstream⟩

/-! ## The client's side -/

/-- The connection and a peer that has echoed all of the requests at once. -/
structure Mirrors (w : Wire) (e : Echo) : Prop where
  lines : e.lines = w.lines
  responses : e.responses = w.requests
  consumed : e.consumed = w.reads
  flow : w.got ++ e.pending = w.sent

theorem mirrors_fresh : Mirrors Wire.fresh Echo.fresh := ⟨rfl, rfl, rfl, rfl⟩

/-- What the client has sent are messages. -/
theorem sent_frames {e : Echo} (hr : Runs H clientFd serverFd fd s c)
    (he : ClientLoop.Runs clientFd s ⟨e, c.left⟩) (hm : Mirrors c.world e) :
    ∃ frames : List (Message .little), c.world.sent = join frames ∧
      ∀ f ∈ frames, f.1.length ≤ 1044 := by
  obtain ⟨sent, ht⟩ := exists_tidy clientFd s he
  have htyped : ∀ p ∈ sent, IsLine p := by
    intro p hp
    have hmem : p ∈ e.lines := ht.typed.subset hp
    rw [hm.lines] at hmem
    exact lines_typed hr p hmem
  obtain ⟨frames, hjoin, hshort⟩ := exists_frames htyped
  refine ⟨frames, ?_, hshort⟩
  rw [hjoin, ← ht.echoed, hm.responses]

/-- Both sides of the connection lag behind the requests. -/
theorem sent_of_mirrors {e : Echo} (hr : Runs H clientFd serverFd fd s c)
    (he : ClientLoop.Runs clientFd s ⟨e, c.left⟩) (hm : Mirrors c.world e) :
    c.world.host.written fd <+: c.world.host.consumed fd ∧
      c.world.host.consumed fd <+: c.world.sent := by
  obtain ⟨frames, hsent, hshort⟩ := sent_frames hr he hm
  exact server_echoes_sent hr hshort hsent

/-- An answer to the client is an answer of the peer that echoes. -/
theorem echo_answers {w w' : Wire} {e : Echo} {op : ClientCall} {r : Answer}
    (hm : Mirrors w e) (hwritten : w.host.written fd <+: w.sent)
    (h : clientDeliver fd w op r = some w') : ∃ e', echoKernel e op r e' ∧ Mirrors w' e' := by
  cases op with
  | fgets size =>
      simp only [clientDeliver] at h
      split at h
      · next hline =>
          cases h
          refine ⟨_, if_pos hline, ?_⟩
          exact ⟨by rw [hm.lines], hm.responses, hm.consumed, hm.flow⟩
      · cases h
  | write fd' buf count =>
      simp only [clientDeliver] at h
      split at h
      · next hret =>
          cases h
          refine ⟨_, if_pos hret, hm.lines, by rw [hm.responses], hm.consumed, ?_⟩
          show w.got ++ (e.pending ++ _) = (w.requests ++ _).flatten
          rw [← List.append_assoc, hm.flow, List.flatten_append, List.flatten_singleton]
      · cases h
  | read fd' count =>
      simp only [clientDeliver] at h
      split at h
      · next hread =>
          obtain ⟨hpos, hmax, hret, hdata⟩ := hread
          cases h
          have hpre : r.data <+: e.pending := by
            have hall := hdata.trans hwritten
            rw [← hm.flow] at hall
            exact (List.prefix_append_right_inj w.got).1 hall
          refine ⟨_, if_pos ⟨hpos, hmax, hret, hpre⟩, hm.lines, hm.responses,
            by rw [hm.consumed], ?_⟩
          obtain ⟨rest, hrest⟩ := hpre
          show (w.reads ++ [r.data]).flatten ++ e.pending.drop r.data.length = w.sent
          rw [← hm.flow, ← hrest, List.drop_left, List.flatten_append, List.flatten_singleton,
            List.append_assoc]
      · cases h
  | shows text bytes =>
      cases h
      exact ⟨e, rfl, hm⟩

/-- In every run of the connection the client takes part in a run against the
peer that echoes every message at once, with the same lines, the same requests
and the same reads. -/
theorem client_meets_echo (hr : Runs H clientFd serverFd fd s c) :
    ∃ e, ClientLoop.Runs clientFd s ⟨e, c.left⟩ ∧ Mirrors c.world e := by
  refine left_reach Mirrors ?_ ?_ hr mirrors_fresh
  · intro c l op k r w' e hreach hrun hm hcall hk
    exact echo_answers hm ((sent_of_mirrors hreach hrun hm).1.trans
      (sent_of_mirrors hreach hrun hm).2) hk
  · intro w op r w' e hm hk
    obtain ⟨-, -, -, -, rfl⟩ := serverDeliver_eq hk
    exact ⟨hm.lines, hm.responses, hm.consumed, hm.flow⟩

/-- The client waits for one response at a time. -/
theorem one_outstanding {e : Echo} {n : Res Client ClientCall Answer Bool}
    (he : ClientLoop.Runs clientFd s ⟨e, n⟩) : e.lines.length ≤ e.consumed.length + 1 := by
  refine Liberal.wlp_world (P := Expects) (Q := Rests)
    (I := fun e : Echo => e.lines.length ≤ e.consumed.length + 1) ?_ ?_ he
    (fun _ => ⟨Tidy.fresh, rfl⟩) (Nat.zero_le _)
  · intro e s op r e' hop hk
    cases op with
    | fgets size =>
        obtain ⟨p, -, -, -, -, hlines, hcons, -⟩ := hop.1.fgets hk
        rw [hlines, hcons, List.length_append, List.length_singleton, hop.2]
    | write fd buf count =>
        obtain ⟨sent, p, hlines, h, hread, hbuf⟩ := hop
        obtain ⟨-, hlines', hcons⟩ := h.write (hlines ▸ List.prefix_rfl) hbuf hread hk
        rw [hlines', hcons, hlines, List.length_append, List.length_singleton, hread]
    | read fd count =>
        obtain ⟨sent, p, hlines, h, hread, rfl⟩ := hop
        rw [hlines] at h
        obtain ⟨-, hlines', hcons⟩ := h.read hread hk
        rw [hlines', hcons, hlines]
        exact Nat.le_succ _
    | shows text bytes =>
        cases hk
        rw [hop.2]
        exact Nat.le_succ _
  · intro _ e s a ha h
    exact wlp_clientRound clientFd (h ha).1 (h ha).2

/-- With every response read, the reads make up the responses or less. -/
theorem behind_of_tidy {e : Echo} {sent : List Bytes} (h : Tidy e sent)
    (hread : e.consumed.length = sent.length) :
    e.consumed.flatten <+: (e.responses.take e.consumed.length).flatten := by
  rw [List.take_of_length_le (by rw [h.echoed, List.length_map, hread]), ← h.flow]
  exact List.prefix_append _ _

/-- No `read` runs ahead of its response. -/
theorem reads_behind {e : Echo} {n : Res Client ClientCall Answer Bool}
    (he : ClientLoop.Runs clientFd s ⟨e, n⟩) :
    e.consumed.flatten <+: (e.responses.take e.consumed.length).flatten := by
  refine Liberal.wlp_world (P := Expects) (Q := Rests)
    (I := fun e : Echo => e.consumed.flatten <+: (e.responses.take e.consumed.length).flatten)
    ?_ ?_ he (fun _ => ⟨Tidy.fresh, rfl⟩) List.nil_prefix
  · intro e s op r e' hop hk
    cases op with
    | fgets size =>
        have hresponses : e'.responses = e.responses := by
          simp only [echoKernel, echoDeliver] at hk
          split at hk <;> cases hk
          rfl
        obtain ⟨p, -, -, -, -, -, hcons, -⟩ := hop.1.fgets hk
        rw [hresponses, hcons]
        exact behind_of_tidy hop.1 hop.2
    | write fd buf count =>
        obtain ⟨sent, p, hlines, h, hread, hbuf⟩ := hop
        obtain ⟨h', -, hcons⟩ := h.write (hlines ▸ List.prefix_rfl) hbuf hread hk
        have hbefore := behind_of_tidy h hread
        have htake : e'.responses.take e.consumed.length =
            e.responses.take e.consumed.length := by
          rw [h'.echoed, h.echoed, List.map_append]
          exact List.take_append_of_le_length (by rw [List.length_map, hread])
        rw [hcons, htake]
        exact hbefore
    | read fd count =>
        obtain ⟨sent, p, hlines, h, hread, rfl⟩ := hop
        rw [hlines] at h
        obtain ⟨h', -, hread'⟩ := h.read hread hk
        exact behind_of_tidy h' hread'
    | shows text bytes =>
        cases hk
        exact behind_of_tidy hop.1 hop.2
  · intro _ e s a ha h
    exact wlp_clientRound clientFd (h ha).1 (h ha).2

/-- What was read was written. -/
theorem got_written (hr : Runs H clientFd serverFd fd s c) :
    c.world.got <+: c.world.host.written fd := by
  refine world_reach (I := fun w : Wire => w.got <+: w.host.written fd) ?_ ?_ hr List.nil_prefix
  · intro w op r w' hi hk
    exact clientDeliver_got hk hi
  · intro w op r w' hi hk
    obtain ⟨-, -, -, -, rfl⟩ := serverDeliver_eq hk
    exact hi.trans (Host.written_grows _ _ _ _)

/-- The line `hi`, sent, echoed and read in two pieces. -/
def hiActs : List (PairAct Unit Answer Unit Answer) :=
  [.inl (.event ()), .inl (.answer (.stored [104, 105, 10])), .inl (.answer (.count 22)),
    .inr (.event ()), .inr (.answer (.count 0)), .inr (.answer ⟨1, .other 0, [], [4]⟩),
    .inr (.answer (.stored ((request [104, 105]).take 20))),
    .inr (.answer (.stored [104])), .inr (.answer (.fail .eagain)), .inr (.event ()),
    .inr (.answer (.count 0)), .inr (.answer ⟨1, .other 0, [], [4]⟩),
    .inr (.answer (.stored [105])), .inr (.answer (.count 20)),
    .inl (.answer (.stored ((request [104, 105]).take 20))), .inr (.answer (.count 2))]

theorem exists_hi (n : Nat) (p : Connection → Prop) [DecidablePred p]
    (h : (Pair.exec (clientDeliver 4) (serverDeliver Healthy) (fun _ => clientRound 5)
      (fun _ => serverRound 3 4) id id (hiActs.take n)
      ⟨Wire.fresh, .done freshClient true, .done serverCleared true⟩).any
        (fun c => decide (p c)) = true) :
    ∃ c, Runs Healthy 5 3 4 freshClient c ∧ p c := exists_reach_of_exec (hiActs.take n) p h

/-- **Each side is the peer the other one was studied with.**  In every run of
the connection the client takes part in a run against the peer that echoes
every message at once, and the server in a run to which nothing but messages
arrive that fit its arrays. -/
theorem connection_decomposes (hr : Runs H clientFd serverFd fd s c) :
    (∃ e, ClientLoop.Runs clientFd s ⟨e, c.left⟩ ∧ Mirrors c.world e) ∧
      ∃ frames : List (Message .little), c.world.sent = join frames ∧
        (∀ f ∈ frames, f.1.length ≤ 1044) ∧
          Reach (blind (hostKernel (EchoPolicy frames))) (fun _ : Unit => serverRound serverFd fd)
            id ⟨Host.fresh, .done serverCleared true⟩ ⟨c.world.host, c.right⟩ := by
  obtain ⟨e, he, hm⟩ := client_meets_echo hr
  obtain ⟨frames, hsent, hshort⟩ := sent_frames hr he hm
  have hle : c.world.sent <+: join frames := ⟨[], by rw [List.append_nil, hsent]⟩
  refine ⟨⟨e, he, hm⟩, frames, hsent, hshort, ?_⟩
  exact (server_reach hr hle).mono fun _ _ _ _ _ hk => ⟨hk.1, hk.2.1.1, hk.2.2⟩

/-- A client that has read a part of its response. -/
theorem connection_decomposes_hi :
    ∃ (c : Connection) (e : Echo), c.world.got = (request [104, 105]).take 20 ∧
      ClientLoop.Runs 5 freshClient ⟨e, c.left⟩ ∧ Mirrors c.world e := by
  obtain ⟨c, hr, hgot⟩ := exists_hi 16 (fun c => c.world.got = (request [104, 105]).take 20)
    (by decide +kernel)
  obtain ⟨⟨e, he, hm⟩, -⟩ := connection_decomposes hr
  exact ⟨c, e, hgot, he, hm⟩

end Run

/-! ## No response is missing for good -/

section Progress

variable {clientFd serverFd fd : Int} {s : Client} {c : Connection}

/-- A run of the server under which the whole stream is at hand is a run of the
connection, in which the client stands still. -/
theorem reach_of_serves {frames : List (Message .little)} {w : Wire}
    {l : Res Client ClientCall Answer Bool} {n n' : Res ServerTransc SysCall Answer Bool}
    {host : Host} (hsent : w.sent = join frames)
    (hr : Serves frames serverFd fd ⟨w.host, n⟩ ⟨host, n'⟩) :
    Pair.Reach (client clientFd fd) (server Healthy serverFd fd) ⟨w, l, n⟩
      ⟨{ w with host := host }, l, n'⟩ := by
  obtain ⟨w', hrun, rfl⟩ := hr.simulate
    (L := blind (server Healthy serverFd fd).kernel)
    (R := fun (host : Host) (w' : Wire) => w' = { w with host := host }) (v := w) (by
      rintro host₁ _ op r host₂ _ rfl ⟨hcan, ⟨⟨hwhole, hcont⟩, hhealthy⟩, rfl⟩
      refine ⟨_, if_pos ⟨hcan, hwhole, ?_, hhealthy⟩, rfl⟩
      show Continues (fun _ => w.sent) host₁ op r
      rw [hsent]
      exact hcont) rfl
  exact reach_of_right hrun

/-- While the client waits for a response some of it is still to be read. -/
theorem got_lt_sent {H : SysCall → Answer → Prop} [∀ op r, Decidable (H op r)]
    (hr : Runs H clientFd serverFd fd s c)
    (hwaits : c.left.waits = some (.read clientFd 1024)) :
    c.world.got.length < c.world.sent.length := by
  obtain ⟨e, he, hm⟩ := client_meets_echo hr
  have hbehind := reads_behind he
  have hshows := Liberal.wlp_reach (P := Expects) (Q := Rests)
    (fun _ w s a ha h => wlp_clientRound clientFd (h ha).1 (h ha).2) he
    (fun _ => ⟨Tidy.fresh, rfl⟩)
  obtain ⟨w, l, n⟩ := c
  cases l with
  | done s a => cases hwaits
  | fault s => cases hwaits
  | call s op k =>
      obtain rfl : op = .read clientFd 1024 := Option.some.inj hwaits
      obtain ⟨sent, p, hlines, ht, hread, -⟩ := hshows.1
      have hsize : (request p).length = 20 + p.length := length_jmpFrame 1 p 1
      have hecho := ht.echoed
      rw [hlines, List.map_append, List.map_singleton] at hecho
      rw [hecho, List.take_append_of_le_length (by rw [List.length_map, hread]),
        List.take_of_length_le (by rw [List.length_map, hread])] at hbehind
      have hle := hbehind.length_le
      show w.reads.flatten.length < w.requests.flatten.length
      rw [← hm.consumed, ← hm.responses, hecho, List.flatten_append, List.length_append,
        List.flatten_singleton]
      omega

/-- Where the server has written more than the client has read, a `read` is
answered. -/
theorem read_answered (clientFd : Int) {w : Wire} (hpre : w.got <+: w.host.written fd)
    (hlt : w.got.length < (w.host.written fd).length) :
    ∃ r, (clientDeliver fd w (.read clientFd 1024) r).isSome = true := by
  obtain ⟨rest, hrest⟩ := hpre
  rw [← hrest, List.length_append] at hlt
  obtain ⟨b, rest, rfl⟩ : ∃ b rest', rest = b :: rest' := List.exists_cons_of_length_pos (by omega)
  refine ⟨.stored [b], ?_⟩
  have hgo : (1 : Int) ≤ (Answer.stored [b]).ret ∧ (Answer.stored [b]).ret ≤ 1024 ∧
      (Answer.stored [b]).ret = (Answer.stored [b]).data.length ∧
      w.got ++ (Answer.stored [b]).data <+: w.host.written fd := by
    refine ⟨Int.le_refl 1, show (1 : Int) ≤ 1024 by decide, rfl, ?_⟩
    rw [← hrest, List.prefix_append_right_inj]
    exact ⟨rest, rfl⟩
  rw [clientDeliver, if_pos hgo]
  rfl

/-- **Every response can come.**  As long as the checks in the server's loop
succeed, the server can always catch up by its own steps; then a client that
waits in `read` gets an answer. -/
theorem server_catches_up (hfd : 0 ≤ fd) (hserver : fd ≠ serverFd)
    (hr : Runs Healthy clientFd serverFd fd s c) :
    ∃ w t, Pair.Reach (client clientFd fd) (server Healthy serverFd fd) c
        ⟨w, c.left, .done t true⟩ ∧
      w.host.written fd = c.world.sent ∧
      (c.left.waits = some (.read clientFd 1024) →
        ∃ r, (clientDeliver fd w (.read clientFd 1024) r).isSome = true) := by
  obtain ⟨e, he, hm⟩ := client_meets_echo hr
  obtain ⟨frames, hsent, hshort⟩ := sent_frames hr he hm
  have hle : c.world.sent <+: join frames := ⟨[], by rw [List.append_nil, hsent]⟩
  obtain ⟨host, t, hrun, hdone⟩ := exists_written_back hshort hfd hserver (server_reach hr hle)
  have hreach : Pair.Reach (client clientFd fd) (server Healthy serverFd fd) c
      ⟨{ c.world with host := host }, c.left, .done t true⟩ := reach_of_serves hsent hrun
  refine ⟨_, t, hreach, by rw [hsent, hdone], fun hwaits => ?_⟩
  have hr' : Runs Healthy clientFd serverFd fd s
      ⟨{ c.world with host := host }, c.left, .done t true⟩ := hr.trans hreach
  refine read_answered clientFd (got_written hr') ?_
  show c.world.got.length < (host.written fd).length
  rw [hdone, ← hsent]
  exact got_lt_sent hr hwaits

/-- A client that waits while the server has only the header. -/
theorem server_catches_up_hi :
    ∃ c : Connection, c.world.host.written 4 = [] ∧ ∃ w t,
      Pair.Reach (client 5 4) (server Healthy 3 4) c ⟨w, c.left, .done t true⟩ ∧
        w.host.written 4 = request [104, 105] ∧
          ∃ r, (clientDeliver 4 w (.read 5 1024) r).isSome = true := by
  obtain ⟨c, hr, hwaits, hwritten, hsent⟩ := exists_hi 7
    (fun c => c.left.waits = some (.read 5 1024) ∧ c.world.host.written 4 = [] ∧
      c.world.sent = request [104, 105]) (by decide +kernel)
  obtain ⟨w, t, hreach, hdone, hread⟩ := server_catches_up (by decide) (by decide) hr
  exact ⟨c, hwritten, w, t, hreach, hdone.trans hsent, hread hwaits⟩

end Progress

end ZeroCopyProxy.Ports.ClientServer
