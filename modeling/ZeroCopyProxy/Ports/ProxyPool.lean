import ZeroCopyProxy.Ports.ProxyStream
import ZeroCopyProxy.Verified.Threads
import ZeroCopyProxy.Verified.Interleaving

/-!
# The workers of one proxy

`proxy_add_work_data` hands every accepted source to the thread pool with the
same `proxy->dst_fd`; each worker runs the loop of `proxy_conn` on its own
`jpool_work_data_t`.  Source descriptors and pipes belong to one worker, the
destination to all of them, and all wait on the same epoll handle, so any of
them may take any event.

A `Net` keeps, for every worker, what it moved on its descriptors, and for the
destination the bytes in the order in which they went there and came from
there, each with the worker that moved it.  The destination itself is the
environment: it answers the messages it has received whole, in their order.
-/

namespace ZeroCopyProxy.Ports.ProxyPool

open ZeroCopyProxy.Verified.Resumption
open ZeroCopyProxy.Verified.Threads
open ZeroCopyProxy.Verified.PrefixCode
open ZeroCopyProxy.Verified.Interleaving
open ZeroCopyProxy.Ports.Posix
open ZeroCopyProxy.Ports.Kernel
open ZeroCopyProxy.Ports.Frame
open ZeroCopyProxy.Ports.TranscHeader
open ZeroCopyProxy.Ports.ProxyRelay
open ZeroCopyProxy.Ports.ProxyStream

/-- The workers of one proxy: different sources, one destination, and nothing
under way. -/
structure Workers (ι : Type) where
  data : ι → WorkData
  dst : Int
  dst_eq : ∀ i, (data i).dstFd = dst
  src_inj : ∀ {i j}, (data i).srcFd = (data j).srcFd → i = j
  idle : ∀ i dir, (data i).transc dir = cleared

variable {ι : Type}

namespace Workers

/-- Requests go to the destination. -/
theorem peer_ingoing (p : Workers ι) (i : ι) : (ends (p.data i) .ingoing).peer = p.dst :=
  p.dst_eq i

/-- Responses come from there. -/
theorem fd_outgoing (p : Workers ι) (i : ι) : (ends (p.data i) .outgoing).fd = p.dst :=
  p.dst_eq i

theorem src_ne_dst (p : Workers ι) (i : ι) : (p.data i).srcFd ≠ p.dst := by
  rw [← p.dst_eq i]
  exact (p.data i).fd_ne

end Workers

/-! ## The shared destination -/

/-- What the workers moved, and what the destination answered to whom. -/
structure Net (ι : Type) where
  host : ι → Host
  toDst : List (ι × UInt8)
  fromDst : List (ι × UInt8)
  answers : List (ι × Message .big)

/-- The destination answers the next message it has received whole.  The answer
is for the source that message began to come from. -/
def Responds (w w' : Net ι) : Prop :=
  ∃ (gs : List (Message .big)) (g : Message .big) (i : ι) (f : Message .big),
    gs.length = w.answers.length ∧ join (gs ++ [g]) <+: w.toDst.map Prod.snd ∧
      (w.toDst[(join gs).length]?).map Prod.fst = some i ∧
      w' = { w with answers := w.answers ++ [(i, f)] }

/-- The messages the destination has answered, the one it answers next, and the
answer. -/
structure Response where
  answered : List (Message .big)
  request : Message .big
  response : Message .big

/-- `Responds` as a function. -/
def respond (m : Response) (w : Net ι) : Option (Net ι) :=
  if m.answered.length = w.answers.length ∧
      join (m.answered ++ [m.request]) <+: w.toDst.map Prod.snd then
    ((w.toDst[(join m.answered).length]?).map Prod.fst).map fun i =>
      { w with answers := w.answers ++ [(i, m.response)] }
  else none

theorem responds_of_respond (m : Response) (w w' : Net ι) (h : respond m w = some w') :
    Responds w w' := by
  unfold respond at h
  split at h
  · next hc =>
      rw [Option.map_eq_some_iff] at h
      obtain ⟨i, hi, rfl⟩ := h
      exact ⟨m.answered, m.request, i, m.response, hc.1, hc.2, hi, rfl⟩
  · cases h

variable [DecidableEq ι]

namespace Net

/-- Nothing has happened. -/
def fresh : Net ι := ⟨fun _ => Host.fresh, [], [], []⟩

/-- The effect of an answered call of the worker `i`. -/
def after (dst : Int) (w : Net ι) (i : ι) (op : SysCall) (r : Answer) : Net ι :=
  { w with
    host := Function.update w.host i ((w.host i).after op r)
    toDst := w.toDst ++
      sign i (if sink op = some dst then (w.host i).leaving op r else [])
    fromDst := w.fromDst ++ sign i (if source op = some dst then r.moved else []) }

@[simp] theorem after_host_self (dst : Int) (w : Net ι) (i : ι) (op : SysCall)
    (r : Answer) : (w.after dst i op r).host i = (w.host i).after op r :=
  Function.update_self _ _ _

theorem after_host_ne (dst : Int) (w : Net ι) {i j : ι} (h : j ≠ i) (op : SysCall)
    (r : Answer) : (w.after dst i op r).host j = w.host j :=
  Function.update_of_ne h _ _

theorem after_toDst (dst : Int) (w : Net ι) (i : ι) (op : SysCall) (r : Answer) :
    (w.after dst i op r).toDst =
      if sink op = some dst then w.toDst ++ sign i ((w.host i).leaving op r)
      else w.toDst := by
  by_cases h : sink op = some dst
  · simp [after, h]
  · simp [after, h]

theorem after_fromDst (dst : Int) (w : Net ι) (i : ι) (op : SysCall) (r : Answer) :
    (w.after dst i op r).fromDst =
      if source op = some dst then w.fromDst ++ sign i r.moved else w.fromDst := by
  by_cases h : source op = some dst
  · simp [after, h]
  · simp [after, h]

end Net

/-! ## Runs of the pool -/

/-- The workers with what they share. -/
abbrev PoolState (ι : Type) : Type := Pool ι (Net ι) WorkData SysCall Answer (List Int)

/-- Which of the possible answers a worker may get, in view of the pool. -/
abbrev PoolPolicy (ι : Type) : Type := PoolState ι → ι → SysCall → Answer → Prop

/-- The kernel that gives the possible answers a policy allows. -/
def poolKernel (dst : Int) (policy : PoolPolicy ι) (c : PoolState ι) (i : ι)
    (op : SysCall) (r : Answer) (w' : Net ι) : Prop :=
  (c.world.host i).Can op r ∧ policy c i op r ∧ w' = c.world.after dst i op r

/-- `poolKernel` as a function on answers. -/
def poolDeliver (dst : Int) (policy : PoolPolicy ι) [∀ c i op r, Decidable (policy c i op r)]
    (c : PoolState ι) (i : ι) (op : SysCall) (r : Answer) : Option (Net ι) :=
  if (c.world.host i).Can op r ∧ policy c i op r then some (c.world.after dst i op r)
  else none

theorem poolKernel_of_poolDeliver {dst : Int} {policy : PoolPolicy ι}
    [∀ c i op r, Decidable (policy c i op r)] (c : PoolState ι) (i : ι) (op : SysCall)
    (r : Answer) (w' : Net ι) (h : poolDeliver dst policy c i op r = some w') :
    poolKernel dst policy c i op r w' := by
  unfold poolDeliver at h
  split at h
  · next hc =>
      cases h
      exact ⟨hc.1, hc.2, rfl⟩
  · cases h

namespace Workers

variable {p : Workers ι} {policy : PoolPolicy ι} {c : PoolState ι}

/-- The pool when all workers have entered their loops. -/
def start (p : Workers ι) : PoolState ι := ⟨Net.fresh, fun i => .done (p.data i) []⟩

/-- The states the pool passes through, in any interleaving. -/
def Runs (p : Workers ι) (policy : PoolPolicy ι) (c : PoolState ι) : Prop :=
  Pool.Reach (poolKernel p.dst policy) Responds proxyConnEvent (fun _ => true) p.start c

/-- Each worker runs as if it were alone. -/
theorem Runs.worker (policy₁ : ι → Host → SysCall → Answer → Prop)
    (hp : ∀ c i op r, policy c i op r → policy₁ i (c.world.host i) op r)
    (hr : p.Runs policy c) (i : ι) :
    Reach (blind (hostKernel (policy₁ i))) proxyConnEvent (fun _ => true)
      ⟨Host.fresh, .done (p.data i) []⟩ ⟨c.world.host i, c.node i⟩ := by
  have hK : ∀ c i op r w', poolKernel p.dst policy c i op r w' →
      hostKernel (policy₁ i) (c.world.host i) op r (w'.host i) ∧
        ∀ j, j ≠ i → w'.host j = c.world.host j := by
    intro c i op r w' hk
    obtain ⟨hcan, hpol, rfl⟩ := hk
    refine ⟨⟨hcan, hp c i op r hpol, Net.after_host_self _ _ _ _ _⟩, fun j hj => ?_⟩
    exact Net.after_host_ne _ _ hj _ _
  have hN : ∀ w w' : Net ι, Responds w w' → ∀ i, w'.host i = w.host i := by
    intro w w' hw i
    obtain ⟨gs, g, j, f, _, _, _, rfl⟩ := hw
    rfl
  exact thread_reach (fun i (w : Net ι) => w.host i) hK hN hr i

/-- A shared stream that each call extends by what it adds to its worker's own
stream, and that answers of the destination leave as it is. -/
theorem Runs.part_stream (stream : Net ι → List (ι × UInt8)) (own : Host → Bytes)
    (piece : Net ι → ι → SysCall → Answer → Bytes)
    (hfresh : ∀ i, part i (stream Net.fresh) = own Host.fresh)
    (hresponds : ∀ w w', Responds w w' → stream w' = stream w)
    (hstream : ∀ w i op r,
      stream (w.after p.dst i op r) = stream w ++ sign i (piece w i op r))
    (hown : ∀ w i op r, own ((w.host i).after op r) = own (w.host i) ++ piece w i op r)
    (hr : p.Runs policy c) (i : ι) : part i (stream c.world) = own (c.world.host i) := by
  apply reach_invariant (I := fun c => ∀ i, part i (stream c.world) = own (c.world.host i))
    _ hr hfresh
  intro c c' _ ih hs i
  cases hs with
  | start j e hn ha => exact ih i
  | outside hw =>
      show part i (stream _) = _
      rw [hresponds _ _ hw]
      obtain ⟨gs, g, j, f, _, _, _, rfl⟩ := hw
      exact ih i
  | @answer _ op _ r _ j hn hk =>
      obtain ⟨_, _, rfl⟩ := hk
      show part i (stream (c.world.after p.dst j op r)) =
        own ((c.world.after p.dst j op r).host i)
      by_cases hij : i = j
      · subst hij
        rw [hstream, Net.after_host_self, hown, part_append, part_sign_self, ih i]
      · rw [hstream, Net.after_host_ne _ _ hij, part_append, part_sign_ne (Ne.symm hij),
          List.append_nil, ih i]

/-- What went to the destination is, for each worker, what it wrote there. -/
theorem Runs.part_toDst (hr : p.Runs policy c) (i : ι) :
    part i c.world.toDst = (c.world.host i).written p.dst := by
  refine Runs.part_stream Net.toDst (fun h => h.written p.dst)
    (fun w i op r => if sink op = some p.dst then (w.host i).leaving op r else [])
    (fun _ => rfl) ?_ (fun _ _ _ _ => rfl) ?_ hr i
  · rintro w w' ⟨gs, g, j, f, -, -, -, rfl⟩
    rfl
  · intro w i op r
    rw [Host.after_written]
    by_cases hd : sink op = some p.dst
    · rw [if_pos hd, if_pos hd]
    · rw [if_neg hd, if_neg hd, List.append_nil]

/-- What came from the destination is, for each worker, what it consumed. -/
theorem Runs.part_fromDst (hr : p.Runs policy c) (i : ι) :
    part i c.world.fromDst = (c.world.host i).consumed p.dst := by
  refine Runs.part_stream Net.fromDst (fun h => h.consumed p.dst)
    (fun _ _ op r => if source op = some p.dst then r.moved else [])
    (fun _ => rfl) ?_ (fun _ _ _ _ => rfl) ?_ hr i
  · rintro w w' ⟨gs, g, j, f, -, -, -, rfl⟩
    rfl
  · intro w i op r
    rw [Host.after_consumed]
    by_cases hd : source op = some p.dst
    · rw [if_pos hd, if_pos hd]
    · rw [if_neg hd, if_neg hd, List.append_nil]

end Workers

/-- Two workers, for the sources 3 and 9 and the destination 4. -/
def samplePair : Workers Bool where
  data i :=
    { sampleWorker with
      srcFd := if i then 9 else 3
      pipe1 := if i then ⟨10, 11⟩ else ⟨5, 6⟩
      pipe2 := if i then ⟨12, 13⟩ else ⟨7, 8⟩
      src_nonneg := by cases i <;> decide
      fd_ne := by cases i <;> decide
      pipe_ne := by cases i <;> decide }
  dst := 4
  dst_eq _ := rfl
  src_inj := by
    intro i j h
    cases i <;> cases j <;> first | rfl | exact absurd h (by decide)
  idle i dir := by cases dir <;> rfl

end ZeroCopyProxy.Ports.ProxyPool
