import ZeroCopyProxy.Ports.ProxyPool
import Mathlib.Data.Fintype.Basic

/-!
# Requests on the way to the destination

A request leaves a worker in at least two calls, the header and the parts of
the body, and nothing keeps another worker from writing to the same
destination between two of them.  The bytes that reach the destination are
then no sequence of messages.

`OwnTurn` is the condition on one step under which that does not happen: a
worker sends something only while no other worker is between the header and
the end of a body, which `is_send_header` tells.  In runs of such steps the
destination receives whole messages, each by one worker and those of each
worker in their order, and a beginning of at most one more.
-/

namespace ZeroCopyProxy.Ports.ProxyRequests

open ZeroCopyProxy.Verified.Resumption
open ZeroCopyProxy.Verified.Threads
open ZeroCopyProxy.Verified.PrefixCode
open ZeroCopyProxy.Verified.Interleaving
open ZeroCopyProxy.Ports.Posix
open ZeroCopyProxy.Ports.Kernel
open ZeroCopyProxy.Ports.Frame
open ZeroCopyProxy.Ports.ProxyRelay
open ZeroCopyProxy.Ports.ProxyStream
open ZeroCopyProxy.Ports.ProxyPool

variable {ι : Type} [DecidableEq ι]

/-! ## The condition and the law -/

/-- What the worker of the source `src` takes in there continues its
messages. -/
def FromSource (src : Int) (frames : List (Message .big)) (w : Host) (op : SysCall)
    (r : Answer) : Prop :=
  source op = some src → w.consumed src ++ r.moved <+: join frames

instance (src : Int) (frames : List (Message .big)) (w : Host) (op : SysCall)
    (r : Answer) : Decidable (FromSource src frames w op r) := by
  unfold FromSource
  infer_instance

/-- Header writes are whole, and every source sends its messages. -/
def WorkerPolicy (p : Workers ι) (frames : ι → List (Message .big)) (i : ι) (w : Host)
    (op : SysCall) (r : Answer) : Prop :=
  WholeHeaderWrites w op r ∧ FromSource (p.data i).srcFd (frames i) w op r

/-- The workers in any order. -/
def AnyTurn (p : Workers ι) (frames : ι → List (Message .big)) : PoolPolicy ι :=
  fun c i op r => WorkerPolicy p frames i (c.world.host i) op r

instance (p : Workers ι) (frames : ι → List (Message .big)) (c : PoolState ι) (i : ι)
    (op : SysCall) (r : Answer) : Decidable (AnyTurn p frames c i op r) := by
  unfold AnyTurn WorkerPolicy
  infer_instance

/-- A worker sends to the destination only while no other worker has sent a
header there and not yet the whole body. -/
def OwnTurn (p : Workers ι) (c : PoolState ι) (i : ι) (op : SysCall) (r : Answer) : Prop :=
  sink op = some p.dst → 0 < r.ret →
    ∀ j, j ≠ i → (c.node j).state.ingoingTransc.isSendHeader ≠ 1

instance [Fintype ι] (p : Workers ι) (c : PoolState ι) (i : ι) (op : SysCall) (r : Answer) :
    Decidable (OwnTurn p c i op r) := by
  unfold OwnTurn
  infer_instance

/-- The workers in turn. -/
def InTurn (p : Workers ι) (frames : ι → List (Message .big)) : PoolPolicy ι :=
  fun c i op r => AnyTurn p frames c i op r ∧ OwnTurn p c i op r

instance [Fintype ι] (p : Workers ι) (frames : ι → List (Message .big)) (c : PoolState ι)
    (i : ι) (op : SysCall) (r : Answer) : Decidable (InTurn p frames c i op r) := by
  unfold InTurn
  infer_instance

/-- A beginning of whole messages, each by one author. -/
def Orderly (s : List (ι × UInt8)) : Prop :=
  ∃ fs : List (ι × Message .big), s <+: weave fs

/-- The stream is a beginning of whole messages, each by one author, and those
of each author are his messages in their order. -/
def Unmixed (frames : ι → List (Message .big)) (s : List (ι × UInt8)) : Prop :=
  ∃ fs : List (ι × Message .big), s <+: weave fs ∧ ∀ j, part j fs <+: frames j

/-! ## One worker -/

section Worker

variable {p : Workers ι} {frames : ι → List (Message .big)} {policy : PoolPolicy ι}
  {c : PoolState ι}

/-- What a worker has sent to the destination. -/
theorem relayed_of_runs
    (hpolicy : ∀ c i op r, policy c i op r → AnyTurn p frames c i op r)
    (hr : p.Runs policy c) (i : ι) :
    Relayed (ends (p.data i) .ingoing) (c.world.host i)
      ((c.node i).state.transc .ingoing) :=
  (relayed_reach (fun _ _ _ h => h.1) (p.idle i)
    (hr.worker (WorkerPolicy p frames) hpolicy i) .ingoing).1

/-- What a worker has taken from its source. -/
theorem consumed_of_runs
    (hpolicy : ∀ c i op r, policy c i op r → AnyTurn p frames c i op r)
    (hr : p.Runs policy c) (i : ι) :
    (c.world.host i).consumed (p.data i).srcFd <+: join (frames i) := by
  have hworker := hr.worker (WorkerPolicy p frames) hpolicy i
  refine world_reach (I := fun w => w.consumed (p.data i).srcFd <+: join (frames i)) ?_
    hworker List.nil_prefix
  intro w s op r w' hw hk
  obtain ⟨_, ⟨_, hsource⟩, rfl⟩ := hk
  rw [Host.after_consumed]
  split
  · next hs => exact hsource hs
  · exact hw

/-- What a worker has sent are its messages in their order. -/
theorem part_of_runs
    (hpolicy : ∀ c i op r, policy c i op r → AnyTurn p frames c i op r)
    (hr : p.Runs policy c) (i : ι) : part i c.world.toDst <+: join (frames i) := by
  obtain ⟨fs, hw, hc⟩ := (relayed_of_runs hpolicy hr i).whole
  rw [p.peer_ingoing i] at hw
  rw [hr.part_toDst i]
  exact (hw.trans hc).trans (consumed_of_runs hpolicy hr i)

/-- What a worker has sent are whole messages, and a beginning of one more
exactly while it is behind a header. -/
theorem parsed_of_runs
    (hpolicy : ∀ c i op r, policy c i op r → AnyTurn p frames c i op r)
    (hr : p.Runs policy c) (i : ι) :
    ∃ (fs : List (Message .big)) (x : Bytes), part i c.world.toDst = join fs ++ x ∧
      Partial (IsFrame .big) x ∧
      (x = [] ↔ (c.node i).state.ingoingTransc.isSendHeader ≠ 1) := by
  obtain ⟨fs, x, hw, hx, hidle⟩ := (relayed_of_runs hpolicy hr i).parsed
  rw [p.peer_ingoing i] at hw
  exact ⟨fs, x, (hr.part_toDst i).trans hw, hx, hidle⟩

end Worker

/-! ## All of them -/

section Pool

variable {p : Workers ι} {frames : ι → List (Message .big)} {c c' : PoolState ι}

omit [DecidableEq ι] in
theorem InTurn.any (c : PoolState ι) (i : ι) (op : SysCall) (r : Answer)
    (h : InTurn p frames c i op r) : AnyTurn p frames c i op r := h.1

/-- While the others are idle, an unfinished message is the worker's own. -/
theorem orderly_own (hr : p.Runs (InTurn p frames) c) {k : ι}
    (hidle : ∀ j, j ≠ k → (c.node j).state.ingoingTransc.isSendHeader ≠ 1)
    (h : Orderly c.world.toDst) :
    ∃ (fs : List (ι × Message .big)) (x : Bytes), c.world.toDst = weave fs ++ sign k x := by
  obtain ⟨ms, hms⟩ := h
  obtain ⟨fs, i, x, hs, hx⟩ := parsed_of_prefix k hms
  by_cases hik : i = k
  · subst hik
    exact ⟨fs, x, hs⟩
  · obtain ⟨ws, y, hpart, hy, hnone⟩ := parsed_of_runs InTurn.any hr i
    rw [hs, part_append, part_weave, part_sign_self] at hpart
    have hxy := ((isPrefixCode .big).join_unique hpart hx hy).2
    have hnil : x = [] := hxy.trans (hnone.2 (hidle i hik))
    refine ⟨fs, [], ?_⟩
    rw [hs, hnil, sign_nil, sign_nil]

/-- A step in turn keeps the stream orderly. -/
theorem orderly_step (hr : p.Runs (InTurn p frames) c) (h : Orderly c.world.toDst)
    (hs : Pool.Step (poolKernel p.dst (InTurn p frames)) Responds proxyConnEvent
      (fun _ => true) c c') : Orderly c'.world.toDst := by
  have hr' : p.Runs (InTurn p frames) c' := hr.tail hs
  cases hs with
  | start j e hn ha => exact h
  | outside hw =>
      obtain ⟨gs, g, j, f, _, _, _, rfl⟩ := hw
      exact h
  | @answer _ op _ r _ k hn hk =>
      obtain ⟨_, ⟨_, hturn⟩, rfl⟩ := hk
      by_cases hsend : sink op = some p.dst ∧ 0 < r.ret
      · obtain ⟨hsink, hpos⟩ := hsend
        obtain ⟨fs, x, hown⟩ := orderly_own hr (hturn hsink hpos) h
        obtain ⟨ws, y, hpart, hy, _⟩ := parsed_of_runs InTurn.any hr' k
        have hstream : (c.world.after p.dst k op r).toDst =
            weave fs ++ sign k (x ++ (c.world.host k).leaving op r) := by
          rw [Net.after_toDst, if_pos hsink, hown, sign_append, List.append_assoc]
        -- the worker's own part parses, so what it added to `x` does
        have hparse := hpart
        rw [show part k (c.world.after p.dst k op r).toDst = _ from congrArg _ hstream,
          part_append, part_weave, part_sign_self] at hparse
        obtain ⟨us, _, hus⟩ := (isPrefixCode .big).join_split hparse hy
        have hwords : (c.world.after p.dst k op r).toDst =
            weave (fs ++ sign k us) ++ sign k y := by
          rw [hstream, hus, weave_append, weave_sign, sign_append, List.append_assoc]
        show Orderly (c.world.after p.dst k op r).toDst
        rw [hwords]
        exact exists_weave_of_partial _ k hy
      · have hsame : (c.world.after p.dst k op r).toDst = c.world.toDst := by
          rw [Net.after_toDst]
          by_cases hsink : sink op = some p.dst
          · have hidle : r.ret ≤ 0 := Int.not_lt.1 fun hpos => hsend ⟨hsink, hpos⟩
            rw [if_pos hsink, Host.leaving_idle _ _ hidle, sign_nil, List.append_nil]
          · rw [if_neg hsink]
        show Orderly (c.world.after p.dst k op r).toDst
        rw [hsame]
        exact h

/-- **Requests in turn.**  In every run whose steps are in turn, the destination
receives a beginning of whole messages, each from one source and those of each
source in the order in which it sends them. -/
theorem requests_unmixed (hr : p.Runs (InTurn p frames) c) :
    Unmixed frames c.world.toDst := by
  have horderly : Orderly c.world.toDst := by
    refine reach_invariant (I := fun c => Orderly c.world.toDst) ?_ hr ?_
    · intro c c' hr ih hs
      exact orderly_step hr ih hs
    · exact ⟨[], List.nil_prefix⟩
  obtain ⟨fs, hfs⟩ := horderly
  exact exists_weave_of_parts (isPrefixCode .big) hfs fun j => part_of_runs InTurn.any hr j

end Pool

/-- The condition is exact: a worker that sends something while another is
behind a header mixes the messages, whatever was sent before. -/
theorem mixed_of_interruption {p : Workers ι} {frames : ι → List (Message .big)}
    {c : PoolState ι} (hr : p.Runs (AnyTurn p frames) c) {j k : ι} (hjk : j ≠ k)
    (hbusy : (c.node j).state.ingoingTransc.isSendHeader = 1) {m : Bytes} (hm : m ≠ []) :
    ¬ Unmixed frames (c.world.toDst ++ sign k m) := by
  rintro ⟨ms, hms, _⟩
  obtain ⟨fs, i, x, hs, hx⟩ := parsed_of_prefix k hms
  obtain ⟨ws, y, hpart, hy, hidle⟩ := parsed_of_runs (fun _ _ _ _ h => h) hr j
  have hne : y ≠ [] := fun hnil => hidle.1 hnil hbusy
  have hown := congrArg (part j) hs
  rw [part_append, part_append, part_weave, part_sign_ne hjk.symm, List.append_nil,
    hpart] at hown
  -- the unfinished message of `j` must be the one at the end of the stream
  by_cases hij : i = j
  · subst hij
    rw [part_sign_self] at hown
    have hyx := ((isPrefixCode .big).join_unique hown hy hx).2
    exact hjk (sign_author hm (hyx ▸ hne) hs).symm
  · rw [part_sign_ne hij] at hown
    exact hne ((isPrefixCode .big).join_unique hown hy .nil).2

/-! ## Two workers -/

/-- Both sources of `samplePair` send the message of 22 bytes. -/
def sampleRequests : Bool → List (Message .big) := fun _ => [sampleMessage]

/-- One after the other. -/
theorem requests_unmixed_pair :
    ∃ c, samplePair.Runs (InTurn samplePair sampleRequests) c ∧
      Unmixed sampleRequests c.world.toDst ∧
      c.world.toDst = sign true sampleMessage.1 ++ sign false sampleMessage.1 := by
  have hrun : ∃ c, samplePair.Runs (InTurn samplePair sampleRequests) c ∧
      c.world.toDst = sign true sampleMessage.1 ++ sign false sampleMessage.1 :=
    exists_reach_of_exec (poolDeliver samplePair.dst (InTurn samplePair sampleRequests))
      respond poolKernel_of_poolDeliver responds_of_respond
      [.event false 3, .event true 9, .answer true (.stored sampleHeader),
        .answer false (.stored sampleHeader), .answer true (.stored [7, 8]),
        .answer false (.stored [7, 8]), .answer true (.count 20),
        .answer false (.fail .eagain), .answer true (.count 2), .event false 3,
        .answer false (.count 20), .answer false (.count 2)]
      (fun c => c.world.toDst = sign true sampleMessage.1 ++ sign false sampleMessage.1)
      (by decide +kernel)
  obtain ⟨c, hc, hs⟩ := hrun
  exact ⟨c, hc, requests_unmixed hc, hs⟩

/-- The body of one message waits, the header of another goes in between. -/
theorem requests_mixed :
    ¬ ∀ c, samplePair.Runs (AnyTurn samplePair sampleRequests) c →
      Unmixed sampleRequests c.world.toDst := by
  intro hall
  have hrun : ∃ c, samplePair.Runs (AnyTurn samplePair sampleRequests) c ∧
      c.world.toDst = sign false sampleHeader ++ sign true sampleHeader :=
    exists_reach_of_exec (poolDeliver samplePair.dst (AnyTurn samplePair sampleRequests))
      respond poolKernel_of_poolDeliver responds_of_respond
      [.event false 3, .event true 9, .answer true (.stored sampleHeader),
        .answer false (.stored sampleHeader), .answer true (.stored [7, 8]),
        .answer false (.stored [7, 8]), .answer false (.count 20),
        .answer false (.fail .eagain), .answer true (.count 20)]
      (fun c => c.world.toDst = sign false sampleHeader ++ sign true sampleHeader)
      (by decide +kernel)
  obtain ⟨c, hc, hs⟩ := hrun
  obtain ⟨ms, hms, _⟩ := hall c hc
  obtain ⟨fs, i, x, hx, _⟩ := parsed_of_prefix true hms
  have hheader : Partial (IsFrame .big) sampleHeader :=
    .inr ⟨[7, 8], by decide, sampleMessage.2⟩
  -- both headers are waiting for their bodies, and one of them is no last word
  have hpart : part (!i) c.world.toDst = sampleHeader := by
    rw [hs]
    cases i <;> decide
  rw [hx, part_append, part_weave, part_sign_ne (by cases i <;> decide)] at hpart
  have hnil : ([] : Bytes) = sampleHeader :=
    ((isPrefixCode .big).join_unique (hpart.trans (List.nil_append _).symm :
      join (part (!i) fs) ++ [] = join [] ++ sampleHeader) .nil hheader).2
  exact absurd hnil (by decide)

end ZeroCopyProxy.Ports.ProxyRequests
