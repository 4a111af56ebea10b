import ZeroCopyProxy.Ports.Posix
import Mathlib.Logic.Function.Basic

/-!
# The host: what the kernel keeps

For every descriptor the bytes consumed from it and the bytes written to it,
for every pipe its content, and the calls answered so far.  `Host.after` is
the effect of one answered call; nothing in it depends on who made the call
or why, so a byte sent to the wrong descriptor shows up there.

Which answers are possible at all is `Host.Can`; a law about "every choice
of results" narrows this by a policy, and `hostKernel` is the kernel with
that policy.
-/

namespace ZeroCopyProxy.Ports.Kernel

open ZeroCopyProxy.Ports.Posix

/-- A call with its answer. -/
abbrev Event : Type := SysCall × Answer

/-- The state of the host that the programs can observe. -/
structure Host where
  consumed : Int → Bytes
  written : Int → Bytes
  piped : Pipe → Bytes
  log : List Event

namespace Host

/-- Nothing has happened and every pipe is empty. -/
def fresh : Host := ⟨fun _ => [], fun _ => [], fun _ => [], []⟩

/-- The effect of an answered call. -/
def after (w : Host) (op : SysCall) (r : Answer) : Host :=
  let w := { w with log := w.log ++ [(op, r)] }
  match op with
  | .read fd _ _ =>
      { w with consumed := Function.update w.consumed fd (w.consumed fd ++ r.moved) }
  | .write fd _ buf _ =>
      { w with written :=
          Function.update w.written fd (w.written fd ++ buf.take r.ret.toNat) }
  | .spliceIn fd pipe _ =>
      { w with
        consumed := Function.update w.consumed fd (w.consumed fd ++ r.moved)
        piped := Function.update w.piped pipe (w.piped pipe ++ r.moved) }
  | .spliceOut pipe fd _ =>
      { w with
        written := Function.update w.written fd
          (w.written fd ++ (w.piped pipe).take r.ret.toNat)
        piped := Function.update w.piped pipe ((w.piped pipe).drop r.ret.toNat) }
  | _ => w

/-- The answers that are possible: nothing moves more than was asked for, and
a pipe gives no more than it holds. -/
def Can (w : Host) (op : SysCall) (r : Answer) : Prop :=
  r.Fits op ∧
    match op with
    | .spliceOut pipe _ _ => r.ret ≤ (w.piped pipe).length
    | _ => True

instance (w : Host) (op : SysCall) (r : Answer) : Decidable (w.Can op r) :=
  match op with
  | .spliceOut pipe _ _ =>
      inferInstanceAs (Decidable (r.Fits _ ∧ r.ret ≤ (w.piped pipe).length))
  | .read .. | .write .. | .spliceIn .. | .close _ | .getsockopt _ | .epollWait =>
      inferInstanceAs (Decidable (r.Fits _ ∧ True))

@[simp] theorem after_log (w : Host) (op : SysCall) (r : Answer) :
    (w.after op r).log = w.log ++ [(op, r)] := by
  cases op <;> rfl

end Host

/-- The kernel that gives the possible answers a policy allows. -/
def hostKernel (policy : Host → SysCall → Answer → Prop) (w : Host) (op : SysCall)
    (r : Answer) (w' : Host) : Prop :=
  w.Can op r ∧ policy w op r ∧ w' = w.after op r

/-- `hostKernel` as a function on answers. -/
def hostDeliver (policy : Host → SysCall → Answer → Prop)
    [∀ w op r, Decidable (policy w op r)] (w : Host) (op : SysCall) (r : Answer) :
    Option Host :=
  if w.Can op r ∧ policy w op r then some (w.after op r) else none

theorem hostKernel_of_hostDeliver {policy : Host → SysCall → Answer → Prop}
    [∀ w op r, Decidable (policy w op r)] {w w' : Host} {op : SysCall} {r : Answer}
    (h : hostDeliver policy w op r = some w') : hostKernel policy w op r w' := by
  unfold hostDeliver at h
  split at h
  · next hc =>
      cases h
      exact ⟨hc.1, hc.2, rfl⟩
  · cases h

theorem hostKernel_fits {policy : Host → SysCall → Answer → Prop} (w : Host)
    (op : SysCall) (r : Answer) (w' : Host) (h : hostKernel policy w op r w') :
    r.Fits op := h.1.1

/-- The call failed because it would block. -/
def Again (r : Answer) : Prop :=
  r.ret < 0 ∧ (r.errno = .eagain ∨ r.errno = .ewouldblock)

instance (r : Answer) : Decidable (Again r) := by
  unfold Again
  infer_instance

/-- A call that moved something did not fail. -/
theorem not_again_of_pos {r : Answer} (h : 0 < r.ret) : ¬ Again r :=
  fun hagain => Int.lt_asymm h hagain.1

/-- A call that moved something moved the piece that was due. -/
theorem ret_of_due {r : Answer} {due : Option Nat} {k : Nat}
    (hpol : Again r ∨ (0 ≤ r.ret ∧ due = some r.ret.toNat)) (hk : due = some k)
    (hpos : 0 < r.ret) : r.ret = k := by
  obtain ⟨_, hdue⟩ := hpol.resolve_left (not_again_of_pos hpos)
  rw [hk, Option.some.injEq] at hdue
  omega

/-- The peer has closed the connection, or the call failed for good. -/
def HangsUp (r : Answer) : Prop := r.ret ≤ 0 ∧ ¬ Again r

instance (r : Answer) : Decidable (HangsUp r) := by
  unfold HangsUp
  infer_instance

/-- The code of a receive that got nothing says which of the two it was. -/
theorem recvCode_le_zeroByte {r : Answer} (hr : r.ret ≤ 0) :
    (if r.ret < 0 then recvErrorCode r.errno else zeroByte) ≤ zeroByte ↔ HangsUp r := by
  unfold HangsUp Again
  split
  · next hneg =>
      rw [recvErrorCode_le_zeroByte]
      exact ⟨fun h => ⟨hr, fun hagain => h hagain.2⟩, fun h hblock => h.2 ⟨hneg, hblock⟩⟩
  · next hneg => exact ⟨fun _ => ⟨hr, fun hagain => hneg hagain.1⟩, fun _ => Int.le_refl _⟩

/-! ## A kernel that keeps nothing -/

/-- A kernel that never moves more than it was asked to. -/
def anyKernel (_ : Unit) (op : SysCall) (r : Answer) (_ : Unit) : Prop := r.Fits op

/-- `anyKernel` as a function on answers. -/
def anyDeliver (_ : Unit) (op : SysCall) (r : Answer) : Option Unit :=
  if r.Fits op then some () else none

theorem anyKernel_of_anyDeliver {w w' : Unit} {op : SysCall} {r : Answer}
    (h : anyDeliver w op r = some w') : anyKernel w op r w' := by
  unfold anyDeliver at h
  split at h
  · assumption
  · cases h

/-! ## One direction of a connection -/

/-- Where the bytes of one direction come from, wait and go to. -/
structure Ends where
  fd : Int
  pipe : Pipe
  peer : Int
  deriving DecidableEq

/-- A call that works on these ends. -/
def Ends.Addresses (e : Ends) : SysCall → Prop
  | .read fd _ _ => fd = e.fd
  | .write fd _ _ _ => fd = e.peer
  | .spliceIn fd pipe _ => fd = e.fd ∧ pipe = e.pipe
  | .spliceOut pipe fd _ => pipe = e.pipe ∧ fd = e.peer
  | .close fd => fd = e.fd
  | _ => True

/-- Two directions that share neither a source, nor a pipe, nor a peer. -/
structure Ends.Apart (e e' : Ends) : Prop where
  fd : e.fd ≠ e'.fd
  pipe : e.pipe ≠ e'.pipe
  peer : e.peer ≠ e'.peer

/-- A call of one direction changes nothing of the other. -/
theorem Host.after_apart {e e' : Ends} (ha : e.Apart e') (w : Host) {op : SysCall}
    (hop : e.Addresses op) (r : Answer) :
    (w.after op r).consumed e'.fd = w.consumed e'.fd ∧
      (w.after op r).piped e'.pipe = w.piped e'.pipe ∧
      (w.after op r).written e'.peer = w.written e'.peer := by
  have hfd := ha.fd.symm
  have hpipe := ha.pipe.symm
  have hpeer := ha.peer.symm
  cases op with
  | read fd area count =>
      cases hop
      exact ⟨Function.update_of_ne hfd _ _, rfl, rfl⟩
  | write fd area buf count =>
      cases hop
      exact ⟨rfl, rfl, Function.update_of_ne hpeer _ _⟩
  | spliceIn fd pipe count =>
      obtain ⟨rfl, rfl⟩ := hop
      exact ⟨Function.update_of_ne hfd _ _, Function.update_of_ne hpipe _ _, rfl⟩
  | spliceOut pipe fd count =>
      obtain ⟨rfl, rfl⟩ := hop
      exact ⟨rfl, Function.update_of_ne hpipe _ _, Function.update_of_ne hpeer _ _⟩
  | close fd => exact ⟨rfl, rfl, rfl⟩
  | getsockopt fd => exact ⟨rfl, rfl, rfl⟩
  | epollWait => exact ⟨rfl, rfl, rfl⟩

/-- The stream of one descriptor grows and the others stay. -/
theorem update_append (streams : Int → Bytes) (f fd : Int) (more : Bytes) :
    Function.update streams f (streams f ++ more) fd =
      if some f = some fd then streams fd ++ more else streams fd := by
  by_cases h : f = fd
  · subst h
    rw [if_pos rfl]
    exact Function.update_self _ _ _
  · have hne : ¬ some f = some fd := fun heq => h (Option.some.inj heq)
    rw [if_neg hne]
    exact Function.update_of_ne (Ne.symm h) _ _

/-- The descriptor a call takes bytes from. -/
def source : SysCall → Option Int
  | .read fd _ _ => some fd
  | .spliceIn fd _ _ => some fd
  | _ => none

/-- What is consumed of any descriptor. -/
theorem Host.after_consumed (w : Host) (op : SysCall) (r : Answer) (fd : Int) :
    (w.after op r).consumed fd =
      if source op = some fd then w.consumed fd ++ r.moved else w.consumed fd := by
  cases op with
  | read f area n => exact update_append w.consumed f fd r.moved
  | spliceIn f pipe n => exact update_append w.consumed f fd r.moved
  | _ => rfl

/-- The descriptor a call sends bytes to. -/
def sink : SysCall → Option Int
  | .write fd _ _ _ => some fd
  | .spliceOut _ fd _ => some fd
  | _ => none

/-- The bytes an answered call sends. -/
def Host.leaving (w : Host) (op : SysCall) (r : Answer) : Bytes :=
  match op with
  | .write _ _ buf _ => buf.take r.ret.toNat
  | .spliceOut pipe _ _ => (w.piped pipe).take r.ret.toNat
  | _ => []

/-- What is written to any descriptor. -/
theorem Host.after_written (w : Host) (op : SysCall) (r : Answer) (fd : Int) :
    (w.after op r).written fd =
      if sink op = some fd then w.written fd ++ w.leaving op r else w.written fd := by
  cases op with
  | write f area buf n => exact update_append w.written f fd (buf.take r.ret.toNat)
  | spliceOut pipe f n => exact update_append w.written f fd ((w.piped pipe).take r.ret.toNat)
  | _ => rfl

/-- What is written stays written. -/
theorem Host.written_grows (w : Host) (op : SysCall) (r : Answer) (fd : Int) :
    w.written fd <+: (w.after op r).written fd := by
  rw [Host.after_written]
  split
  · exact List.prefix_append _ _
  · exact List.prefix_rfl

/-- A call that moves nothing sends nothing. -/
theorem Host.leaving_idle (w : Host) (op : SysCall) {r : Answer} (hr : r.ret ≤ 0) :
    w.leaving op r = [] := by
  have h0 : r.ret.toNat = 0 := by omega
  cases op <;> simp [Host.leaving, h0]

/-- What a call takes in continues the stream that arrives on its
descriptor. -/
def Continues (stream : Int → Bytes) (w : Host) (op : SysCall) (r : Answer) : Prop :=
  match source op with
  | some fd => w.consumed fd ++ r.moved <+: stream fd
  | none => True

instance (stream : Int → Bytes) (w : Host) (op : SysCall) (r : Answer) :
    Decidable (Continues stream w op r) :=
  match op with
  | .read fd _ _ | .spliceIn fd _ _ =>
      inferInstanceAs (Decidable (w.consumed fd ++ r.moved <+: stream fd))
  | .write .. | .spliceOut .. | .close _ | .getsockopt _ | .epollWait => .isTrue trivial

/-- What was consumed stays a beginning of the stream. -/
theorem Continues.consumed {stream : Int → Bytes} {w : Host} {op : SysCall}
    {r : Answer} (h : Continues stream w op r) {fd : Int}
    (hw : w.consumed fd <+: stream fd) : (w.after op r).consumed fd <+: stream fd := by
  rw [Host.after_consumed]
  split
  · next hfd =>
      rw [Continues, hfd] at h
      exact h
  · exact hw

/-- A longer stream goes on as a shorter one does. -/
theorem continues_mono {stream stream' : Int → Bytes} {w : Host} {op : SysCall} {r : Answer}
    (h : Continues stream w op r) (hle : ∀ fd, stream fd <+: stream' fd) :
    Continues stream' w op r := by
  unfold Continues at h ⊢
  split at h
  · next fd hfd => exact h.trans (hle fd)
  · exact True.intro

/-- What moves nothing continues a stream of which enough has come. -/
theorem continues_idle {stream : Int → Bytes} {w : Host} {r : Answer} (op : SysCall)
    (hr : r.ret ≤ 0) (h : ∀ fd, w.consumed fd <+: stream fd) : Continues stream w op r := by
  unfold Continues
  split
  · next fd _ =>
      rw [Answer.moved_nil hr, List.append_nil]
      exact h fd
  · exact True.intro

/-- A call on some ends takes nothing in but what comes from there. -/
theorem Ends.Addresses.source {e : Ends} {op : SysCall} {fd : Int} (h : e.Addresses op)
    (hs : Kernel.source op = some fd) : fd = e.fd := by
  cases op with
  | read f area n => exact (Option.some.inj hs).symm.trans h
  | spliceIn f pipe n => exact (Option.some.inj hs).symm.trans h.1
  | _ => cases hs

section Effects

variable (w : Host) (r : Answer)

/-- A call that moves nothing changes only the log. -/
theorem Host.after_idle (op : SysCall) (hr : r.ret ≤ 0) :
    (w.after op r).consumed = w.consumed ∧ (w.after op r).piped = w.piped ∧
      (w.after op r).written = w.written := by
  have h0 : r.ret.toNat = 0 := by omega
  cases op <;>
    simp [Host.after, Answer.moved, h0, Function.update_eq_self]

@[simp] theorem Host.after_read_consumed (fd : Int) (area : Area) (n : Int) :
    (w.after (.read fd area n) r).consumed fd = w.consumed fd ++ r.moved :=
  Function.update_self _ _ _

@[simp] theorem Host.after_read_piped (fd : Int) (area : Area) (n : Int) :
    (w.after (.read fd area n) r).piped = w.piped := rfl

@[simp] theorem Host.after_read_written (fd : Int) (area : Area) (n : Int) :
    (w.after (.read fd area n) r).written = w.written := rfl

@[simp] theorem Host.after_write_consumed (fd : Int) (area : Area) (buf : Bytes)
    (n : Int) : (w.after (.write fd area buf n) r).consumed = w.consumed := rfl

@[simp] theorem Host.after_write_piped (fd : Int) (area : Area) (buf : Bytes)
    (n : Int) : (w.after (.write fd area buf n) r).piped = w.piped := rfl

@[simp] theorem Host.after_write_written (fd : Int) (area : Area) (buf : Bytes)
    (n : Int) : (w.after (.write fd area buf n) r).written fd =
      w.written fd ++ buf.take r.ret.toNat :=
  Function.update_self _ _ _

theorem Host.after_write_length {fd : Int} {area : Area} {buf : Bytes} {n : Int} {k : Nat}
    (hret : r.ret = k) (hle : k ≤ buf.length) :
    ((w.after (.write fd area buf n) r).written fd).length = (w.written fd).length + k := by
  rw [Host.after_write_written, List.length_append, List.length_take, hret,
    Int.toNat_natCast, Nat.min_eq_left hle]

@[simp] theorem Host.after_spliceIn_consumed (fd : Int) (pipe : Pipe) (n : Int) :
    (w.after (.spliceIn fd pipe n) r).consumed fd = w.consumed fd ++ r.moved :=
  Function.update_self _ _ _

@[simp] theorem Host.after_spliceIn_piped (fd : Int) (pipe : Pipe) (n : Int) :
    (w.after (.spliceIn fd pipe n) r).piped pipe = w.piped pipe ++ r.moved :=
  Function.update_self _ _ _

@[simp] theorem Host.after_spliceIn_written (fd : Int) (pipe : Pipe) (n : Int) :
    (w.after (.spliceIn fd pipe n) r).written = w.written := rfl

@[simp] theorem Host.after_spliceOut_consumed (pipe : Pipe) (fd : Int) (n : Int) :
    (w.after (.spliceOut pipe fd n) r).consumed = w.consumed := rfl

@[simp] theorem Host.after_spliceOut_piped (pipe : Pipe) (fd : Int) (n : Int) :
    (w.after (.spliceOut pipe fd n) r).piped pipe =
      (w.piped pipe).drop r.ret.toNat :=
  Function.update_self _ _ _

@[simp] theorem Host.after_spliceOut_written (pipe : Pipe) (fd : Int) (n : Int) :
    (w.after (.spliceOut pipe fd n) r).written fd =
      w.written fd ++ (w.piped pipe).take r.ret.toNat :=
  Function.update_self _ _ _

end Effects

end ZeroCopyProxy.Ports.Kernel
