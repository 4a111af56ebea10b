import ZeroCopyProxy.Ports.ClientSession
import ZeroCopyProxy.Verified.History

/-!
# The bounds of the client's buffers

`client_process_data` writes at `strlen( msg) - 1` and at `recv_bytes`, and it
follows the data of `recv_msg` to its first NUL.  Nothing guards the three: an
empty string in `msg`, a `read` of all the 1024 bytes, or data without a NUL
takes the client out of a buffer.  The message it writes is never too long.

The law is an equivalence over whole runs: the client is inside its buffers
exactly if its input was ordinary.
-/

namespace ZeroCopyProxy.Ports.ClientBounds

open ZeroCopyProxy.Verified.Resumption
open ZeroCopyProxy.Verified.History
open ZeroCopyProxy.Ports.Posix
open ZeroCopyProxy.Ports.ClientLoop
open ZeroCopyProxy.Ports.ClientSession

/-- A `write` takes its bytes from one message: `sizeof( jmp_t)` is 1044. -/
def Within : ClientCall → Prop
  | .write _ buf count => buf.length = 1044 ∧ 0 ≤ count ∧ count ≤ 1044
  | _ => True

instance (op : ClientCall) : Decidable (Within op) :=
  match op with
  | .write _ buf count =>
      inferInstanceAs (Decidable (buf.length = 1044 ∧ 0 ≤ count ∧ count ≤ 1044))
  | .fgets _ => .isTrue True.intro
  | .read _ _ => .isTrue True.intro
  | .shows _ _ => .isTrue True.intro

/-- No index, copy or scan has left its array, and no `write`, the one the
client waits in included, has taken bytes from behind its message. -/
structure InBounds (c : SessionConfig) : Prop where
  noFault : c.node.faulted = false
  written : ∀ e ∈ c.world, Within e.1
  writes : ∀ op, c.node.waits = some op → Within op

/-- `fgets` has left an empty string in `msg`. -/
def Lineless : ClientEvent → Prop
  | (.fgets _, r) => NoLine r
  | _ => False

/-- Every line begins with a byte that is not NUL, and no `read` overruns the
memory that the reads before it have left. -/
structure Ordinary (m : Bytes) (log : List ClientEvent) : Prop where
  lines : ∀ e ∈ log, ¬ Lineless e
  reads : ¬ Occurs (fun past data => Overruns (memory m past) data) (received log)

/-! ## One more call -/

/-- The invariant between two calls. -/
structure Steady (m : Bytes) (w : List ClientEvent) (s : Client) : Prop where
  memory : s.recvMsg.bytes = memory m (received w)
  ordinary : Ordinary m w
  written : ∀ e ∈ w, Within e.1

theorem Steady.fresh (s : Client) : Steady s.recvMsg.bytes [] s where
  memory := rfl
  ordinary :=
    { lines := fun _ he => absurd he List.not_mem_nil
      reads := not_occurs_nil }
  written := fun _ he => absurd he List.not_mem_nil

/-- A call that stores nothing in `recv_msg`. -/
theorem Steady.keep {m : Bytes} {w : List ClientEvent} {s : Client} (h : Steady m w s)
    {e : ClientEvent} (hread : receivedBy e = []) (hline : ¬ Lineless e) (hwithin : Within e.1) :
    Steady m (w ++ [e]) s := by
  have hreceived : received (w ++ [e]) = received w := by
    rw [received_snoc, hread, List.append_nil]
  refine ⟨?_, ⟨?_, ?_⟩, ?_⟩
  · rw [hreceived]
    exact h.memory
  · exact List.forall_mem_append.2 ⟨h.ordinary.lines, List.forall_mem_singleton.2 hline⟩
  · rw [hreceived]
    exact h.ordinary.reads
  · exact List.forall_mem_append.2 ⟨h.written, List.forall_mem_singleton.2 hwithin⟩

theorem Steady.quiet {fd : Int} {m : Bytes} {w : List ClientEvent} {s : Client}
    (h : Steady m w s) {e : ClientEvent} (he : Quiet fd e) : Steady m (w ++ [e]) s := by
  have hread := he.receivedBy
  cases he with
  | fgets hline => exact h.keep hread hline True.intro
  | write hlen hlow hhigh => exact h.keep hread id ⟨hlen, by omega, by omega⟩
  | read hret => exact h.keep hread id True.intro

/-- A `read` that stores its bytes and does not overrun. -/
theorem Steady.read {m : Bytes} {w : List ClientEvent} {s s' : Client} (h : Steady m w s)
    {fd count : Int} {r : Answer} (hpos : 0 < r.ret)
    (hsafe : ¬ Overruns s.recvMsg.bytes r.data)
    (hs : s'.recvMsg.bytes = overlay s.recvMsg.bytes r.data) :
    Steady m (w ++ [(.read fd count, r)]) s' := by
  rw [h.memory] at hsafe
  refine ⟨?_, ⟨?_, ?_⟩, ?_⟩
  · rw [hs, received_read _ _ _ hpos, memory_snoc, h.memory]
  · exact List.forall_mem_append.2 ⟨h.ordinary.lines, List.forall_mem_singleton.2 id⟩
  · rw [received_read _ _ _ hpos, occurs_snoc]
    exact fun hocc => hocc.elim h.ordinary.reads hsafe
  · exact List.forall_mem_append.2 ⟨h.written, List.forall_mem_singleton.2 True.intro⟩

/-- A `read` that overruns. -/
theorem Steady.overrun {m : Bytes} {w : List ClientEvent} {s : Client} (h : Steady m w s)
    {fd count : Int} {r : Answer} (hpos : 0 < r.ret) (hover : Overruns s.recvMsg.bytes r.data) :
    ¬ Ordinary m (w ++ [(.read fd count, r)]) := by
  rw [h.memory] at hover
  intro hord
  refine hord.reads ?_
  rw [received_read _ _ _ hpos, occurs_snoc]
  exact .inr hover

theorem not_ordinary_of_lineless {m : Bytes} {w : List ClientEvent} {e : ClientEvent}
    (he : Lineless e) : ¬ Ordinary m (w ++ [e]) :=
  fun hord => hord.lines e (List.mem_append_right w (List.mem_singleton_self e)) he

/-! ## Whole runs -/

/-- The client is steady until it faults, and what it faults behind is not
ordinary. -/
theorem boundsLaw (fd : Int) (m : Bytes) :
    SessionLaw fd (Steady m) (fun w s _ => Steady m w s) (fun w => ¬ Ordinary m w) where
  frame := fun h hs => ⟨by rw [hs, h.memory], h.ordinary, h.written⟩
  quiet := fun h he => h.quiet he
  line := fun _ hline => not_ordinary_of_lineless hline
  overrun := fun h hpos hover => h.overrun hpos hover
  read := fun h hpos hsafe hs => h.read hpos hsafe hs
  shows := fun h => h.keep rfl id True.intro

/-- **The bounds.**  In every run from any memory the client is inside its
buffers exactly if every line was one and no `read` overran. -/
theorem inBounds_iff (fd : Int) (s : Client) {c : SessionConfig} (hc : Session fd s c) :
    InBounds c ↔ Ordinary s.recvMsg.bytes c.world := by
  have hrun := (boundsLaw fd s.recvMsg.bytes).reach (Steady.fresh s) hc
  obtain ⟨w, node⟩ := c
  cases node with
  | done s' a =>
      have hsteady : Steady s.recvMsg.bytes w s' := hrun
      refine iff_of_true ⟨rfl, hsteady.written, fun op hop => ?_⟩ hsteady.ordinary
      cases hop
  | call s' op k =>
      have hcall : Steady s.recvMsg.bytes w s' ∧ Within op := by
        obtain ⟨hop, -⟩ := hrun
        cases op with
        | write fd buf count =>
            obtain ⟨hsteady, hlen, hlow, hhigh⟩ := hop
            exact ⟨hsteady, hlen, by omega, by omega⟩
        | fgets size => exact ⟨hop, True.intro⟩
        | read fd count => exact ⟨hop, True.intro⟩
        | shows text bytes => exact ⟨hop, True.intro⟩
      obtain ⟨hsteady, hwithin⟩ := hcall
      refine iff_of_true ⟨rfl, hsteady.written, fun op' hop => ?_⟩ hsteady.ordinary
      cases hop
      exact hwithin
  | fault s' =>
      have hbad : ¬ Ordinary s.recvMsg.bytes w := hrun
      exact iff_of_false (fun h => Bool.noConfusion h.noFault) hbad

/-- The line `hi` and a response that ends in the zeros of `recv_msg`. -/
def hiSession : List (Act Unit Answer) :=
  [.event (), .answer (.stored [104, 105, 10]), .answer (.count 22),
    .answer (.stored (JmpMessage.jmpFrame 1 [104, 105] 1))]

theorem inBounds_iff_hi :
    ∃ c, Session 3 freshClient c ∧ c.world.length = 3 ∧
      (InBounds c ↔ Ordinary freshClient.recvMsg.bytes c.world) := by
  have hrun : ∃ c, Session 3 freshClient c ∧ c.world.length = 3 :=
    exists_reach_of_exec (fun w (_ : Client) => sessionDeliver w) id hiSession
      (fun c => c.world.length = 3) (by decide +kernel)
  obtain ⟨c, hc, hlen⟩ := hrun
  exact ⟨c, hc, hlen, inBounds_iff 3 freshClient hc⟩

/-- The terminal is closed at the first prompt: `msg` is empty, and the client
writes at index -1. -/
theorem eof_leaves_msg : ¬ ∀ (fd : Int) (s : Client) (c : SessionConfig),
    Session fd s c → InBounds c := by
  intro h
  have hrun : ∃ c, Session 3 freshClient c ∧ c.node.faulted = true :=
    exists_reach_of_exec (fun w (_ : Client) => sessionDeliver w) id
      [.event (), .answer (.fail (.other 0))] (fun c => c.node.faulted = true)
      (by decide +kernel)
  obtain ⟨c, hc, hfault⟩ := hrun
  have hno := (h 3 freshClient c hc).noFault
  rw [hfault] at hno
  exact Bool.noConfusion hno

end ZeroCopyProxy.Ports.ClientBounds
