import ZeroCopyProxy.Ports.ProxyPool

/-!
# Responses on the way back

All workers wait for the same destination, and the one that takes an event
reads what is there and forwards it to its own source.  Whose request was
answered plays no part in that.

`TakesOwn` is the condition on one step under which every response still
arrives where it belongs: a worker takes bytes from the destination only when
the next byte there is of an answer to its own source.  One call never reaches
beyond the message it is in, so in runs of such steps every answer is taken,
and forwarded, by one worker.
-/

namespace ZeroCopyProxy.Ports.ProxyResponses

open ZeroCopyProxy.Verified.Resumption
open ZeroCopyProxy.Verified.Threads
open ZeroCopyProxy.Verified.PrefixCode
open ZeroCopyProxy.Verified.Interleaving
open ZeroCopyProxy.Ports.Posix
open ZeroCopyProxy.Ports.Kernel
open ZeroCopyProxy.Ports.Frame
open ZeroCopyProxy.Ports.ProxyRelay
open ZeroCopyProxy.Ports.ProxyStream
open ZeroCopyProxy.Ports.ProxyPool

variable {ι : Type} [DecidableEq ι]

/-! ## The condition and the law -/

/-- Headers of responses are read whole. -/
def WholeResponseReads (dst : Int) (op : SysCall) (r : Answer) : Prop :=
  match op with
  | .read fd .hdr _ => fd = dst → r.ret ≤ 0 ∨ r.ret = 20
  | _ => True

instance (dst : Int) (op : SysCall) (r : Answer) :
    Decidable (WholeResponseReads dst op r) :=
  match op with
  | .read fd .hdr _ => inferInstanceAs (Decidable (fd = dst → r.ret ≤ 0 ∨ r.ret = 20))
  | .read _ .body _ | .write .. | .spliceIn .. | .spliceOut .. | .close _ | .getsockopt _
  | .epollWait => .isTrue trivial

/-- What is taken in from the destination continues its answers. -/
def FromAnswers (dst : Int) (w : Net ι) (op : SysCall) (r : Answer) : Prop :=
  source op = some dst →
    w.fromDst.map Prod.snd ++ r.moved <+: (weave w.answers).map Prod.snd

instance (dst : Int) (w : Net ι) (op : SysCall) (r : Answer) :
    Decidable (FromAnswers dst w op r) := by
  unfold FromAnswers
  infer_instance

/-- Any worker reads from the destination. -/
def AnyReader (p : Workers ι) : PoolPolicy ι := fun c i op r =>
  WholeHeaderWrites (c.world.host i) op r ∧ WholeResponseReads p.dst op r ∧
    FromAnswers p.dst c.world op r

instance (p : Workers ι) (c : PoolState ι) (i : ι) (op : SysCall) (r : Answer) :
    Decidable (AnyReader p c i op r) := by
  unfold AnyReader
  infer_instance

/-- A worker takes bytes from the destination only when the next one is of an
answer to its own source. -/
def TakesOwn (dst : Int) (w : Net ι) (i : ι) (op : SysCall) (r : Answer) : Prop :=
  source op = some dst → 0 < r.ret →
    ((weave w.answers)[w.fromDst.length]?).map Prod.fst = some i

instance (dst : Int) (w : Net ι) (i : ι) (op : SysCall) (r : Answer) :
    Decidable (TakesOwn dst w i op r) := by
  unfold TakesOwn
  infer_instance

/-- The worker whose answer comes next reads from the destination. -/
def OwnReader (p : Workers ι) : PoolPolicy ι :=
  fun c i op r => AnyReader p c i op r ∧ TakesOwn p.dst c.world i op r

instance (p : Workers ι) (c : PoolState ι) (i : ι) (op : SysCall) (r : Answer) :
    Decidable (OwnReader p c i op r) := by
  unfold OwnReader
  infer_instance

/-- Every answer is taken by the worker of the source it is for, what that
worker took it has written to its source or still holds, and nobody else writes
there. -/
structure Delivered (p : Workers ι) (c : PoolState ι) : Prop where
  taken : c.world.fromDst <+: weave c.world.answers
  forwarded : ∀ i, (c.world.host i).written (p.data i).srcFd ++
      held ((c.node i).state.transc .outgoing)
        ((c.world.host i).piped ((p.data i).pipe .outgoing)) =
    part i c.world.fromDst
  own : ∀ i j, j ≠ i → (c.world.host j).written (p.data i).srcFd = []

/-- What a source gets are the answers to it, in their order. -/
theorem Delivered.addressed {p : Workers ι} {c : PoolState ι} (h : Delivered p c) (i : ι) :
    (c.world.host i).written (p.data i).srcFd <+: join (part i c.world.answers) := by
  have hpart := part_mono h.taken i
  rw [part_weave, ← h.forwarded i] at hpart
  exact (List.prefix_append _ _).trans hpart

omit [DecidableEq ι] in
/-- The condition is exact: once a worker has taken a byte of an answer to
another source, the answers are never again as they should be. -/
theorem not_taken_of_foreign {w w' : Net ι} {i j : ι} (hij : i ≠ j) {m : Bytes}
    (hm : m ≠ []) (hnext : ((weave w.answers)[w.fromDst.length]?).map Prod.fst = some j)
    (htook : w.fromDst ++ sign i m <+: w'.fromDst) (hmore : w.answers <+: w'.answers) :
    ¬ w'.fromDst <+: weave w'.answers := by
  intro h
  have hauthor := author_of_prefix hm (htook.trans h)
  obtain ⟨more, hanswers⟩ := hmore
  obtain ⟨b, hb, rfl⟩ := Option.map_eq_some_iff.1 hnext
  have hlt := (List.getElem?_eq_some_iff.1 hb).1
  rw [← hanswers, weave_append, List.getElem?_append_left hlt, hb] at hauthor
  exact hij (Option.some.inj hauthor).symm

/-! ## One call -/

section Call

variable {p : Workers ι} {policy : PoolPolicy ι} {c : PoolState ι}

/-- Each worker runs under whole header writes. -/
theorem worker_of_runs (hpolicy : ∀ c i op r, policy c i op r → AnyReader p c i op r)
    (hr : p.Runs policy c) (i : ι) :
    Reach (blind (hostKernel WholeHeaderWrites)) proxyConnEvent (fun _ => true)
      ⟨Host.fresh, .done (p.data i) []⟩ ⟨c.world.host i, c.node i⟩ :=
  hr.worker (fun _ => WholeHeaderWrites) (fun c i op r h => (hpolicy c i op r h).1) i

/-- A call that reads from the destination is one of the way back. -/
theorem outgoing_of_source {d : WorkData} {dir : Dir} {op : SysCall}
    (haddr : (ends d dir).Addresses op) (hs : source op = some d.dstFd) :
    dir = .outgoing := by
  cases dir with
  | outgoing => rfl
  | ingoing =>
      refine absurd ?_ d.fd_ne
      cases op with
      | read fd area n => exact haddr.symm.trans (Option.some.inj hs)
      | spliceIn fd pipe n => exact haddr.1.symm.trans (Option.some.inj hs)
      | _ => cases hs

/-- A receiving call asks for no more than the rest of the message it is in, and
where that is a header, for all of it. -/
theorem asks_within {e : Ends} {w : Host} {op : SysCall} {r : Answer}
    {fs : List (Message .big)} {u : Message .big} {x y : Bytes} (hclean : Clean e w)
    (hasks : Asks e w op) (hc : w.consumed e.fd = join fs ++ x) (hu : u.1 = x ++ y)
    (hy : y ≠ []) (hfits : r.Fits op) (hsource : source op = some e.fd) (hpos : 0 < r.ret) :
    r.moved.length ≤ y.length ∧ ∀ fd n, op = .read fd .hdr n → x = [] := by
  have hx : Partial (IsFrame .big) x := by
    refine .inr ⟨y, hy, ?_⟩
    rw [← hu]
    exact u.2
  have hmoved : r.moved.length ≤ r.ret.toNat := List.length_take_le _ _
  have hlen := congrArg List.length hu
  rw [List.length_append] at hlen
  cases op with
  | read fd area n =>
      rcases hasks with ⟨gs, hgs, hn⟩ | hstuck
      · have hparse : join gs ++ [] = join fs ++ x := by
          rw [List.append_nil, ← hgs, hc]
        have hnil := ((isPrefixCode .big).join_unique hparse .nil hx).2
        have hlt := u.2.twenty_lt
        have hle : r.ret ≤ n := hfits.1
        refine ⟨?_, fun _ _ _ => hnil.symm⟩
        rw [← hnil, List.length_nil] at hlen
        omega
      · exact absurd hclean hstuck.not_clean
  | spliceIn fd pipe n =>
      obtain ⟨gs, z, hz, hlong, hacc, hrest⟩ := hasks
      have hle : r.ret ≤ n := hfits.1
      have hpart := partial_of_lt hlong hacc (by omega)
      have hzx := ((isPrefixCode .big).join_unique (hz.symm.trans hc) hpart hx).2
      subst hzx
      have hlength := u.2.length_eq
      rw [hu, len24_append .big (by omega), ← hu] at hlength
      refine ⟨by omega, ?_⟩
      intro fd n heq
      cases heq
  | _ => cases hsource

/-- A header read where a message of the stream starts is a good one. -/
theorem not_spoils_of_header (u : Message .big) {fd : Int} {op : SysCall} {r : Answer}
    {y : Bytes} (hwhole : WholeResponseReads fd op r) (hu : ∀ n, op = .read fd .hdr n → u.1 = y)
    (hmoved : r.moved <+: y) (hfits : r.Fits op) : ¬ Spoils fd (op, r) := by
  intro hbad
  cases op with
  | read f area n =>
      cases area with
      | hdr =>
          obtain ⟨rfl, hpos, hcase⟩ := hbad
          have hret : r.ret = 20 := (hwhole rfl).resolve_left (by omega)
          have hlen := hfits.2 (by omega)
          rcases hcase with hshort | hna
          · omega
          · obtain ⟨z, hz⟩ := hmoved
            have hacc := u.2.accepted
            rw [hu n rfl, ← hz, accepted_append .big] at hacc
            · exact hna hacc
            · rw [Answer.moved_eq hlen]
              omega
      | body => exact hbad
  | _ => exact hbad

end Call

/-! ## All of them -/

section Pool

variable {p : Workers ι} {c c' : PoolState ι}

/-- The answers were taken in their order, and every header was good. -/
structure InOrder (p : Workers ι) (c : PoolState ι) : Prop where
  taken : c.world.fromDst <+: weave c.world.answers
  clean : ∀ i, Clean (ends (p.data i) .outgoing) (c.world.host i)

omit [DecidableEq ι] in
theorem OwnReader.any (c : PoolState ι) (i : ι) (op : SysCall) (r : Answer)
    (h : OwnReader p c i op r) : AnyReader p c i op r := h.1

/-- What a worker takes from the destination continues an answer to its own
source. -/
theorem taken_call (hr : p.Runs (OwnReader p) c) (h : InOrder p c) {k : ι} {op : SysCall}
    {r : Answer} (hop : (c.node k).waits = some op) (hcan : (c.world.host k).Can op r)
    (hpol : OwnReader p c k op r) (hsource : source op = some p.dst) (hpos : 0 < r.ret) :
    c.world.fromDst ++ sign k r.moved <+: weave c.world.answers ∧
      ¬ Spoils p.dst (op, r) := by
  obtain ⟨⟨_, hwhole, hfrom⟩, htakes⟩ := hpol
  obtain ⟨pre, u, post, x, y, hanswers, hs, hu, hy⟩ :=
    exists_weave_of_author h.taken (htakes hsource hpos)
  -- the worker itself has taken whole answers and `x`
  have hconsumed : (c.world.host k).consumed (ends (p.data k) .outgoing).fd =
      join (part k pre) ++ x := by
    rw [p.fd_outgoing k, ← hr.part_fromDst k, hs, part_append, part_weave, part_sign_self]
  have hworker := worker_of_runs OwnReader.any hr k
  obtain ⟨dir, haddr, hasks⟩ := call_reach (fun _ _ _ hp => hp) (p.idle k) hworker hop
  have hsource' : source op = some (p.data k).dstFd := by rw [hsource, p.dst_eq k]
  have hdir := outgoing_of_source haddr hsource'
  subst hdir
  obtain ⟨hle, hstart⟩ := asks_within (h.clean k) hasks hconsumed hu hy hcan.1 hsource' hpos
  have hstream := hfrom hsource
  rw [hs, hanswers] at hstream
  obtain ⟨hmoved, hnext⟩ := weave_continue hu hstream hle
  refine ⟨?_, not_spoils_of_header u hwhole ?_ hmoved hcan.1⟩
  · rw [hs, hanswers]
    exact hnext
  · intro n heq
    rw [hu, hstart _ n heq, List.nil_append]

theorem inOrder_step (hr : p.Runs (OwnReader p) c) (h : InOrder p c)
    (hs : Pool.Step (poolKernel p.dst (OwnReader p)) Responds proxyConnEvent
      (fun _ => true) c c') : InOrder p c' := by
  cases hs with
  | start j e hn ha => exact ⟨h.taken, h.clean⟩
  | outside hw =>
      obtain ⟨gs, g, j, f, _, _, _, rfl⟩ := hw
      refine ⟨h.taken.trans ?_, h.clean⟩
      show weave c.world.answers <+: weave (c.world.answers ++ [(j, f)])
      rw [weave_append]
      exact List.prefix_append _ _
  | @answer _ op _ r _ k hn hk =>
      obtain ⟨hcan, hpol, rfl⟩ := hk
      have hop : (c.node k).waits = some op := by
        rw [hn]
        rfl
      have hboth : (c.world.after p.dst k op r).fromDst <+: weave c.world.answers ∧
          ¬ Spoils p.dst (op, r) := by
        rw [Net.after_fromDst]
        by_cases hsource : source op = some p.dst
        · rw [if_pos hsource]
          by_cases hpos : 0 < r.ret
          · exact taken_call hr h hop hcan hpol hsource hpos
          · have hidle : r.ret ≤ 0 := Int.not_lt.1 hpos
            rw [Answer.moved_nil hidle, sign_nil, List.append_nil]
            exact ⟨h.taken, not_spoils_of_idle hidle⟩
        · rw [if_neg hsource]
          exact ⟨h.taken, not_spoils_of_source hsource r⟩
      refine ⟨hboth.1, fun i => ?_⟩
      by_cases hik : i = k
      · subst hik
        show Clean _ ((c.world.after p.dst i op r).host i)
        rw [Net.after_host_self]
        refine (h.clean i).after ?_
        rw [p.fd_outgoing i]
        exact hboth.2
      · show Clean _ ((c.world.after p.dst k op r).host i)
        rw [Net.after_host_ne _ _ hik]
        exact h.clean i

theorem inOrder_of_runs (hr : p.Runs (OwnReader p) c) : InOrder p c := by
  refine reach_invariant (I := InOrder p) ?_ hr ?_
  · intro c c' hr h hs
    exact inOrder_step hr h hs
  · exact ⟨List.nil_prefix, fun i => (idle_fresh _).clean⟩

/-- **Responses to their own readers.**  In every run in which a worker takes
bytes from the destination only where an answer to its own source continues,
every answer is forwarded to the source whose request it answers, and to
nobody else. -/
theorem responses_delivered (hr : p.Runs (OwnReader p) c) : Delivered p c := by
  have hinv := inOrder_of_runs hr
  refine ⟨hinv.taken, fun i => ?_, fun i j hji => ?_⟩
  · have hrel := (relayed_reach (fun _ _ _ hp => hp) (p.idle i)
      (worker_of_runs OwnReader.any hr i) .outgoing).1
    rcases hrel.exact with hexact | hstuck
    · rw [p.fd_outgoing i, ← hr.part_fromDst i] at hexact
      exact hexact
    · exact absurd (hinv.clean i) hstuck.not_clean
  · refine written_reach (fun _ _ _ hp => hp) (p.idle j)
      (worker_of_runs OwnReader.any hr j) fun dir => ?_
    cases dir with
    | ingoing =>
        intro heq
        exact p.src_ne_dst i (heq.trans (p.dst_eq j))
    | outgoing =>
        intro heq
        exact hji (p.src_inj heq).symm

end Pool

/-! ## Two workers -/

/-- The request of the source 3 is forwarded and answered, and its worker takes
the answer in two parts. -/
theorem responses_delivered_pair :
    ∃ c, samplePair.Runs (OwnReader samplePair) c ∧ Delivered samplePair c ∧
      (c.world.host false).written 3 = sampleMessage.1 ∧
      c.world.answers = [(false, sampleMessage)] := by
  have hrun : ∃ c, samplePair.Runs (OwnReader samplePair) c ∧
      (c.world.host false).written 3 = sampleMessage.1 ∧
        c.world.answers = [(false, sampleMessage)] :=
    exists_reach_of_exec (poolDeliver samplePair.dst (OwnReader samplePair))
      respond poolKernel_of_poolDeliver responds_of_respond
      [.event false 3, .answer false (.stored sampleHeader),
        .answer false (.stored [7, 8]), .answer false (.count 20), .answer false (.count 2),
        .outside ⟨[], sampleMessage, sampleMessage⟩, .event true 4,
        .answer true (.fail .eagain), .event false 4, .answer false (.stored sampleHeader),
        .answer false (.stored [7]), .event false 4, .answer false (.stored [8]),
        .answer false (.count 20), .answer false (.count 2)]
      (fun c => (c.world.host false).written 3 = sampleMessage.1 ∧
        c.world.answers = [(false, sampleMessage)])
      (by decide +kernel)
  obtain ⟨c, hc, hw, ha⟩ := hrun
  exact ⟨c, hc, responses_delivered hc, hw, ha⟩

/-- The other worker takes the event, and the source 9 gets the answer. -/
theorem responses_misdelivered :
    ¬ ∀ c, samplePair.Runs (AnyReader samplePair) c → Delivered samplePair c := by
  intro hall
  have hrun : ∃ c, samplePair.Runs (AnyReader samplePair) c ∧
      (c.world.host true).written 9 = sampleMessage.1 ∧ part true c.world.answers = [] :=
    exists_reach_of_exec (poolDeliver samplePair.dst (AnyReader samplePair))
      respond poolKernel_of_poolDeliver responds_of_respond
      [.event false 3, .answer false (.stored sampleHeader), .answer false (.stored [7, 8]),
        .answer false (.count 20), .answer false (.count 2),
        .outside ⟨[], sampleMessage, sampleMessage⟩, .event true 4,
        .answer true (.stored sampleHeader), .answer true (.stored [7, 8]),
        .answer true (.count 20), .answer true (.count 2)]
      (fun c => (c.world.host true).written 9 = sampleMessage.1 ∧
        part true c.world.answers = [])
      (by decide +kernel)
  obtain ⟨c, hc, hw, ha⟩ := hrun
  have haddressed : (c.world.host true).written 9 <+: join (part true c.world.answers) :=
    (hall c hc).addressed true
  rw [hw, ha] at haddressed
  exact absurd haddressed (by decide)

end ZeroCopyProxy.Ports.ProxyResponses
