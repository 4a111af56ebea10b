import ZeroCopyProxy.Ports.ProxyStream

/-!
# The relay is faithful on well-formed streams

Both peers send nothing but messages, and every header moves in one piece.
Then no header can be short or rejected: a header read starts where a message
starts, because everything before it has been consumed message by message.
So neither direction of a worker is ever stuck, and at every moment what was
written together with what is held back is exactly what was consumed.
-/

namespace ZeroCopyProxy.Ports.ProxyDuplex

open ZeroCopyProxy.Verified.Resumption
open ZeroCopyProxy.Verified.PrefixCode
open ZeroCopyProxy.Ports.Posix
open ZeroCopyProxy.Ports.Kernel
open ZeroCopyProxy.Ports.Frame
open ZeroCopyProxy.Ports.TranscHeader
open ZeroCopyProxy.Ports.ProxyRelay
open ZeroCopyProxy.Ports.ProxyStream

/-- Header transfers move all 20 bytes and splices at least one byte, or they
fail with `EAGAIN`. -/
def Progress (op : SysCall) (r : Answer) : Prop :=
  match op with
  | .read _ .hdr _ => Again r ∨ r.ret = 20
  | .write _ .hdr _ _ => Again r ∨ r.ret = 20
  | .spliceIn _ _ _ => Again r ∨ 0 < r.ret
  | .spliceOut _ _ _ => Again r ∨ 0 < r.ret
  | _ => True

instance (op : SysCall) (r : Answer) : Decidable (Progress op r) :=
  match op with
  | .read _ .hdr _ | .write _ .hdr _ _ => inferInstanceAs (Decidable (Again r ∨ r.ret = 20))
  | .spliceIn .. | .spliceOut .. => inferInstanceAs (Decidable (Again r ∨ 0 < r.ret))
  | .read _ .body _ | .write _ .body _ _ | .close _ | .getsockopt _ | .epollWait =>
      .isTrue trivial

/-- Whole headers, and streams that arrive on the descriptors. -/
def WholeHeaders (stream : Int → Bytes) (w : Host) (op : SysCall) (r : Answer) : Prop :=
  Progress op r ∧ Continues stream w op r

instance (stream : Int → Bytes) (w : Host) (op : SysCall) (r : Answer) :
    Decidable (WholeHeaders stream w op r) := by
  unfold WholeHeaders
  infer_instance

theorem WholeHeaders.writes {stream : Int → Bytes} (w : Host) (op : SysCall)
    (r : Answer) (h : WholeHeaders stream w op r) : WholeHeaderWrites w op r := by
  cases op with
  | write fd area buf n =>
      cases area with
      | hdr =>
          rcases h.1 with h | h
          · exact .inl (Int.le_of_lt h.1)
          · exact .inr h
      | body => exact True.intro
  | _ => exact True.intro

/-- The streams that arrive on the two descriptors of a worker. -/
def arriving (d : WorkData) (frames : Dir → List (Message .big)) (fd : Int) : Bytes :=
  join (frames (d.dirOf fd))

/-- What was consumed begins the stream, and header reads were not short. -/
structure Aligned (d : WorkData) (frames : Dir → List (Message .big)) (w : Host) :
    Prop where
  consumed : ∀ dir, w.consumed (d.source dir) <+: join (frames dir)
  headers : ∀ fd n r, (SysCall.read fd .hdr n, r) ∈ w.log → 0 < r.ret →
    r.moved.length = 20

theorem aligned_fresh (d : WorkData) (frames : Dir → List (Message .big)) :
    Aligned d frames Host.fresh where
  consumed _ := List.nil_prefix
  headers := by
    intro fd n r hmem
    cases hmem

theorem Aligned.step {d : WorkData} {frames : Dir → List (Message .big)} {w : Host}
    (h : Aligned d frames w) {op : SysCall} {r : Answer}
    {w' : Host} (hk : hostKernel (WholeHeaders (arriving d frames)) w op r w') :
    Aligned d frames w' := by
  obtain ⟨⟨hfits, _⟩, ⟨hprog, hcont⟩, rfl⟩ := hk
  refine ⟨fun dir => ?_, fun fd n r' hmem hpos => ?_⟩
  · have hstream : arriving d frames (d.source dir) = join (frames dir) := by
      rw [arriving, WorkData.dirOf_source]
    rw [← hstream]
    apply hcont.consumed
    rw [hstream]
    exact h.consumed dir
  · rw [Host.after_log, List.mem_append, List.mem_singleton] at hmem
    rcases hmem with hmem | hlast
    · exact h.headers fd n r' hmem hpos
    · cases hlast
      have hret : r.ret = 20 := hprog.resolve_left (not_again_of_pos hpos)
      have hlen := hfits.2 (by omega)
      rw [Answer.moved_eq hlen]
      omega

/-- On aligned streams no direction is stuck. -/
theorem not_stuck {d : WorkData} {frames : Dir → List (Message .big)} {w : Host}
    (h : Aligned d frames w) (dir : Dir) : ¬ Stuck (ends d dir) w := by
  intro hstuck
  obtain ⟨fs, ⟨op, r⟩, hmem, hbad, _, hc⟩ := hstuck.relayed
  cases op with
  | read fd area n =>
      cases area with
      | hdr =>
          obtain ⟨rfl, hpos, hcase⟩ := hbad
          have hlen := h.headers _ n r hmem hpos
          have hacc := (header_of_stream hlen (hc.trans (h.consumed dir))).1
          rcases hcase with hshort | hna
          · have hle : r.moved.length ≤ r.ret.toNat := List.length_take_le _ _
            omega
          · exact hna hacc
      | body => exact hbad
  | _ => exact hbad

/-- **The relay preserves both streams.**  For any messages arriving on the
two descriptors, any interleaving of events on them and any whole-header
answers, in every reachable state and for each direction, the bytes written
followed by the bytes held back are exactly the bytes consumed. -/
theorem relay_preserves_streams {d : WorkData} (h : ∀ dir, d.transc dir = cleared)
    (frames : Dir → List (Message .big)) {c : WorkerConfig Host}
    (hr : Reach (blind <| hostKernel (WholeHeaders (arriving d frames))) proxyConnEvent
      (fun _ => true) ⟨Host.fresh, .done d []⟩ c) (dir : Dir) :
    c.world.written (d.peer dir) ++
        held (c.node.state.transc dir) (c.world.piped (d.pipe dir)) =
      c.world.consumed (d.source dir) ∧
    c.world.consumed (d.source dir) <+: join (frames dir) := by
  have hrel := (relayed_reach WholeHeaders.writes h hr dir).1
  have haligned : Aligned d frames c.world :=
    world_reach (fun _ _ _ _ _ hi hk => hi.step hk) hr (aligned_fresh d frames)
  refine ⟨?_, haligned.consumed dir⟩
  rcases hrel.exact with hexact | hstuck
  · exact hexact
  · exact absurd hstuck (not_stuck haligned dir)

/-- One byte of a body is forwarded and one is still in the pipe when a
message of the other direction has just been received. -/
theorem relay_preserves_streams_mid :
    ∃ c : WorkerConfig Host,
      (c.world.written 4 ++ held c.node.state.ingoingTransc (c.world.piped ⟨5, 6⟩) =
        c.world.consumed 3) ∧
      (c.world.written 3 ++ held c.node.state.outgoingTransc (c.world.piped ⟨7, 8⟩) =
        c.world.consumed 4) ∧
      c.world.piped ⟨5, 6⟩ = [8] ∧ c.world.consumed 4 = sampleMessage.1 := by
  let frames : Dir → List (Message .big) := fun _ => [sampleMessage, sampleMessage]
  let policy := WholeHeaders (arriving sampleWorker frames)
  have hrun : ∃ c : WorkerConfig Host, Reach (blind <| hostKernel policy)
      proxyConnEvent (fun _ => true) ⟨Host.fresh, .done sampleWorker []⟩ c ∧
      c.world.piped ⟨5, 6⟩ = [8] ∧ c.world.consumed 4 = sampleMessage.1 :=
    exists_reach_of_exec (fun w _ => hostDeliver policy w) hostKernel_of_hostDeliver
      [.event 3, .answer (.stored sampleHeader), .answer (.stored [7]), .event 3,
        .answer (.fail .eagain), .event 3, .answer (.stored [8]), .answer (.count 20),
        .answer (.count 1), .answer (.fail .eagain), .event 4,
        .answer (.stored sampleHeader), .answer (.stored [7, 8])]
      (fun c : WorkerConfig Host => c.world.piped ⟨5, 6⟩ = [8] ∧
        c.world.consumed 4 = sampleMessage.1) (by decide)
  obtain ⟨c, hc, hp⟩ := hrun
  have hcleared : ∀ dir, sampleWorker.transc dir = cleared := by
    intro dir
    cases dir <;> rfl
  exact ⟨c, (relay_preserves_streams hcleared frames hc .ingoing).1,
    (relay_preserves_streams hcleared frames hc .outgoing).1, hp⟩

end ZeroCopyProxy.Ports.ProxyDuplex
