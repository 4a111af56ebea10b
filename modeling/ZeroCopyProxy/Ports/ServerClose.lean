import ZeroCopyProxy.Ports.ServerLoop
import ZeroCopyProxy.Ports.Receives
import ZeroCopyProxy.Ports.Sends
import ZeroCopyProxy.Verified.History

/-!
# How often the server closes a client

`server_process_data` closes the descriptor where a receive ends with a code
from `ZERO_BYTE` down and records that nowhere: what keeps it from using the
descriptor again is `server_check_fd` at the top of the next round, and before
that only the flags.  They do not tell a body that has not begun to arrive
from one whose connection has ended, so where the read of the body that
follows the header at once fails, the second receive of the same event reads
from the closed descriptor and closes it again.  And a loop left for another
reason than a closed descriptor leaves it open.

The law is one about the history of the calls (`Proper`), and so is the
condition under which it holds (`Calm`).
-/

namespace ZeroCopyProxy.Ports.ServerClose

open ZeroCopyProxy.Verified.History
open ZeroCopyProxy.Verified.Resumption
open ZeroCopyProxy.Verified.Liberal
open ZeroCopyProxy.Ports.Posix
open ZeroCopyProxy.Ports.TranscHeader
open ZeroCopyProxy.Ports.Kernel
open ZeroCopyProxy.Ports.ServerLoop
open ZeroCopyProxy.Ports.Receives (wlp_recvHeader)
open ZeroCopyProxy.Ports.Sends (keeps_sendHeader)

variable {serverFd fd : Int}

/-! ## The kernel and the law -/

/-- A read or a write on this descriptor. -/
def Transfers (fd : Int) : SysCall → Prop
  | .read f _ _ => f = fd
  | .write f _ _ _ => f = fd
  | _ => False

/-- A call on this descriptor. -/
def OnFd (fd : Int) : SysCall → Prop
  | .read f _ _ => f = fd
  | .write f _ _ _ => f = fd
  | .close f => f = fd
  | .getsockopt f => f = fd
  | _ => False

instance (fd : Int) (op : SysCall) : Decidable (Transfers fd op) :=
  match op with
  | .read f _ _ | .write f _ _ _ => inferInstanceAs (Decidable (f = fd))
  | .spliceIn .. | .spliceOut .. | .close _ | .getsockopt _ | .epollWait => .isFalse id

instance (fd : Int) (op : SysCall) : Decidable (OnFd fd op) :=
  match op with
  | .read f _ _ | .write f _ _ _ | .close f | .getsockopt f =>
      inferInstanceAs (Decidable (f = fd))
  | .spliceIn .. | .spliceOut .. | .epollWait => .isFalse id

/-- The calls answered so far. -/
def answered (w : Host) : List SysCall := w.log.map Prod.fst

/-- `EBADF`. -/
def ebadf : Errno := .other 9

/-- A call on a closed descriptor fails with `EBADF`, and `epoll_wait` reports
a descriptor once. -/
def ClientAnswers (fd : Int) (w : Host) (op : SysCall) (r : Answer) : Prop :=
  (.close fd ∈ answered w → OnFd fd op → r.ret < 0 ∧ r.errno = ebadf) ∧
    (op = .epollWait → (r.ready.take r.ret.toNat).Nodup)

instance (w : Host) (op : SysCall) (r : Answer) : Decidable (ClientAnswers fd w op r) :=
  inferInstanceAs (Decidable (_ ∧ _))

/-- The kernel of a client that nobody else has. -/
abbrev clientKernel (fd : Int) : Host → ServerTransc → SysCall → Answer → Host → Prop :=
  blind (hostKernel (ClientAnswers fd))

/-- Closed at most once, and not used after that. -/
structure Proper (fd : Int) (ops : List SysCall) : Prop where
  once : ops.count (.close fd) ≤ 1
  unused : ¬ Occurs (fun pre op => .close fd ∈ pre ∧ Transfers fd op) ops

/-- The calls made so far: those answered and the one the server waits in. -/
def calls (c : ServerConfig Host) : List SysCall := answered c.world ++ c.node.waits.toList

/-- `server_process_data` has returned. -/
def returned (c : ServerConfig Host) : Bool :=
  match c.node with
  | .done _ again => !again
  | _ => false

/-- The descriptor is closed once before the function returns and not used
after that. -/
structure ClosesOnce (fd : Int) (c : ServerConfig Host) : Prop where
  proper : Proper fd (calls c)
  closed : returned c = true → (calls c).count (.close fd) = 1

/-- A read of a part of a message. -/
def ReadsArea (area : Area) : SysCall → Prop
  | .read _ a _ => a = area
  | _ => False

instance (area : Area) (op : SysCall) : Decidable (ReadsArea area op) :=
  match op with
  | .read _ a _ => inferInstanceAs (Decidable (a = area))
  | .write .. | .spliceIn .. | .spliceOut .. | .close _ | .getsockopt _ | .epollWait =>
      .isFalse id

/-- The last call was a read of a header. -/
def BehindHeader (pre : List Event) : Prop := ∃ e ∈ pre.getLast?, ReadsArea .hdr e.1

instance (pre : List Event) : Decidable (BehindHeader pre) :=
  inferInstanceAs (Decidable (∃ e ∈ pre.getLast?, ReadsArea .hdr e.1))

/-- What the loop does not cope with: `epoll_wait` fails, the descriptor is
found invalid although it is open, or the connection ends where a body is to
follow its header at once. -/
def Trouble (fd : Int) (pre : List Event) (e : Event) : Prop :=
  (e.1 = .epollWait ∧ e.2.ret < 0) ∨
    (e.1 = .getsockopt fd ∧ e.2.ret < 0 ∧ .close fd ∉ pre.map Prod.fst) ∨
    (ReadsArea .body e.1 ∧ HangsUp e.2 ∧ BehindHeader pre)

instance (fd : Int) (pre : List Event) (e : Event) : Decidable (Trouble fd pre e) :=
  inferInstanceAs (Decidable (_ ∨ _ ∨ _))

/-- Nothing of this has happened. -/
def Calm (fd : Int) (w : Host) : Prop := ¬ Occurs (Trouble fd) w.log

instance (fd : Int) (w : Host) : Decidable (Calm fd w) :=
  inferInstanceAs (Decidable (¬ Occurs (Trouble fd) w.log))

/-! ## What a call does to the history -/

section Histories

variable {w : Host} {op : SysCall} {r : Answer} {ops : List SysCall}

@[simp] theorem answered_after : answered (w.after op r) = answered w ++ [op] := by
  rw [answered, Host.after_log, List.map_append]
  rfl

theorem calm_after : Calm fd (w.after op r) ↔ Calm fd w ∧ ¬ Trouble fd w.log (op, r) := by
  rw [Calm, Host.after_log, occurs_snoc, not_or]
  rfl

/-- While the descriptor is open any call may be made. -/
theorem Proper.snoc (h : Proper fd ops) (hopen : .close fd ∉ ops) (op : SysCall) :
    Proper fd (ops ++ [op]) where
  once := by
    rw [List.count_append, List.count_eq_zero.2 hopen, Nat.zero_add]
    exact List.count_le_length
  unused := by
    rw [occurs_snoc, not_or]
    exact ⟨h.unused, fun hlate => hopen hlate.1⟩

/-- Any call but a transfer and another close may be made. -/
theorem Proper.snoc_other (h : Proper fd ops) (hne : op ≠ .close fd)
    (huse : ¬ Transfers fd op) : Proper fd (ops ++ [op]) where
  once := by
    have hzero : [op].count (.close fd) = 0 :=
      List.count_eq_zero.2 fun hmem => hne.symm (List.mem_singleton.1 hmem)
    rw [List.count_append, hzero, Nat.add_zero]
    exact h.once
  unused := by
    rw [occurs_snoc, not_or]
    exact ⟨h.unused, fun hlate => huse hlate.2⟩

theorem Proper.of_append {ops' : List SysCall} (h : Proper fd (ops ++ ops')) :
    Proper fd ops where
  once := by
    have honce := h.once
    rw [List.count_append] at honce
    omega
  unused := fun hlate => h.unused (hlate.append ops')

/-- A transfer on the closed descriptor. -/
theorem not_proper_snoc (hclosed : .close fd ∈ ops) (huse : Transfers fd op) :
    ¬ Proper fd (ops ++ [op]) := fun h => h.unused (occurs_snoc.2 (.inr ⟨hclosed, huse⟩))

theorem proper_nil : Proper fd [] := ⟨Nat.zero_le 1, not_occurs_nil⟩

/-- The descriptor is open. -/
structure Open (fd : Int) (w : Host) : Prop where
  calm : Calm fd w
  proper : Proper fd (answered w)
  notClosed : .close fd ∉ answered w

/-- The descriptor has been closed once. -/
structure Shut (fd : Int) (w : Host) : Prop where
  calm : Calm fd w
  proper : Proper fd (answered w)
  closed : (answered w).count (.close fd) = 1

/-- It has been closed and a read is about to follow. -/
structure Doomed (fd : Int) (w : Host) : Prop where
  troubled : ¬ Calm fd w
  closed : .close fd ∈ answered w

/-- The law is broken. -/
structure Ruined (fd : Int) (w : Host) : Prop where
  troubled : ¬ Calm fd w
  improper : ¬ Proper fd (answered w)

theorem open_fresh : Open fd Host.fresh := ⟨not_occurs_nil, proper_nil, List.not_mem_nil⟩

theorem Open.after (h : Open fd w) (hne : op ≠ .close fd)
    (hcalm : ¬ Trouble fd w.log (op, r)) : Open fd (w.after op r) where
  calm := calm_after.2 ⟨h.calm, hcalm⟩
  proper := by
    rw [answered_after]
    exact h.proper.snoc h.notClosed op
  notClosed := by
    rw [answered_after, List.mem_append, List.mem_singleton, not_or]
    exact ⟨h.notClosed, hne.symm⟩

theorem Open.close (h : Open fd w) : Shut fd (w.after (.close fd) r) where
  calm := calm_after.2 ⟨h.calm, by simp [Trouble, ReadsArea]⟩
  proper := by
    rw [answered_after]
    exact h.proper.snoc h.notClosed _
  closed := by
    rw [answered_after, List.count_append, List.count_eq_zero.2 h.notClosed]
    simp

theorem not_calm_after (h : ¬ Calm fd w) : ¬ Calm fd (w.after op r) :=
  fun hcalm => h (calm_after.1 hcalm).1

theorem Doomed.transfer (h : Doomed fd w) (huse : Transfers fd op) :
    Ruined fd (w.after op r) where
  troubled := not_calm_after h.troubled
  improper := by
    rw [answered_after]
    exact not_proper_snoc h.closed huse

theorem Ruined.after (h : Ruined fd w) (op : SysCall) (r : Answer) :
    Ruined fd (w.after op r) where
  troubled := not_calm_after h.troubled
  improper := by
    rw [answered_after]
    exact fun hp => h.improper hp.of_append

end Histories

/-! ## Receiving -/

section Receive

variable {W : Type} {t : ServerTransc}

/-- Receiving a part of a body: one read, whose result decides about the
code. -/
theorem wlp_serverRecvBody {K : W → ServerTransc → SysCall → Answer → W → Prop}
    {P : W → ServerTransc → SysCall → Prop} {Q : W → ServerTransc → Int → Prop} {w : W}
    {sh sb : Int} (hf : t.Flags 1 0 sh sb) (hP : ∀ n, P w t (.read fd .body n))
    (hends : ∀ n r w' c, K w t (.read fd .body n) r w' → c ≤ zeroByte → HangsUp r →
      Q w' t c)
    (hgoes : ∀ n r w' t' c, K w t (.read fd .body n) r w' → ¬ c ≤ zeroByte → ¬ HangsUp r →
      (t'.Flags 1 0 sh sb ∨ t'.Flags 1 1 sh sb) → Q w' t' c) :
    wlp K P Q (serverRecvBody fd t) w := by
  obtain ⟨hrh, hrb, hsh, hsb⟩ := hf
  have hnormal : ¬ normal ≤ zeroByte := by decide
  have hcode : ∀ n r w' c, K w t (.read fd .body n) r w' → r.ret ≤ 0 →
      c = (if r.ret < 0 then recvErrorCode r.errno else zeroByte) → Q w' t c := by
    intro n r w' c hk hr hc
    have hiff := recvCode_le_zeroByte hr
    rw [← hc] at hiff
    by_cases hle : c ≤ zeroByte
    · exact hends n r w' c hk hle (hiff.1 hle)
    · exact hgoes n r w' t c hk hle (fun hup => hle (hiff.2 hup))
        (.inl ⟨hrh, hrb, hsh, hsb⟩)
  simp only [serverRecvBody, wlp_bind, wlp_state, wlp_ite, wlp_pure]
  refine ⟨fun _ => ?_, fun hne => absurd ⟨hrh, hrb⟩ hne⟩
  apply wlp_sysRead (hP _)
  intro r w' hk
  simp only [wlp_orFault, wlp_update]
  refine ⟨fun hneg => ?_, fun hnneg => ⟨fun hz => ?_, fun hnz b hb => ?_⟩⟩
  · exact hcode _ r w' _ hk (by omega) (by rw [if_pos hneg])
  · exact hcode _ r w' _ hk (by omega) (by rw [if_neg hnneg])
  · have hup : ¬ HangsUp r := fun hup => by
      have hle := hup.1
      omega
    refine ⟨fun _ => ?_, fun _ => ?_⟩
    · exact hgoes _ r w' _ _ hk hnormal hup (.inr ⟨hrh, rfl, hsh, hsb⟩)
    · exact hgoes _ r w' _ _ hk hnormal hup (.inl ⟨hrh, hrb, hsh, hsb⟩)

end Receive

/-! ## Sending -/

/-- The call keeps the law if all was calm before it. -/
def Allowed (fd : Int) {S : Type} (w : Host) (_ : S) (op : SysCall) : Prop :=
  Calm fd w → Proper fd (answered w ++ [op])

theorem Open.allows {S : Type} {w : Host} (h : Open fd w) (s : S) (op : SysCall) :
    Allowed fd w s op := fun _ => h.proper.snoc h.notClosed op

/-- A message that has arrived, on an open descriptor. -/
def Arrived (fd : Int) (w : Host) (t : Transc) : Prop :=
  Open fd w ∧ t.isRecvHeader = 1 ∧ t.isRecvBody = 1

section Send

variable {S : Type} {I : Host → S → Prop}

/-- A write keeps the descriptor open. -/
theorem keeps_write {area : Area} {buf : Bytes} {count : Int}
    (hopen : ∀ {w s}, I w s → Open fd w) (hI : ∀ {w w' s}, I w s → Open fd w' → I w' s) :
    Keeps (blind (hostKernel (ClientAnswers fd))) (Allowed fd) I
      (sysWrite fd area buf count : Prog S SysCall Answer Answer) := by
  apply keeps_sysWrite
  · exact fun w s h => (hopen h).allows s _
  · rintro w s r w' h ⟨-, -, rfl⟩
    exact hI h ((hopen h).after (by simp) (by simp [Trouble, ReadsArea]))

theorem keeps_serverSendHeader :
    Keeps (blind (hostKernel (ClientAnswers fd))) (Allowed fd) (Arrived fd)
      (sendHeader fd) := by
  apply keeps_sendHeader
  · rintro w t t' ⟨hopen, hrh, hrb⟩ hrh' hrb'
    exact ⟨hopen, hrh'.trans hrh, hrb'.trans hrb⟩
  · rintro w t op hop ⟨hopen, hflags⟩
    refine ⟨hopen.allows t op, ?_⟩
    rintro r w' ⟨-, -, rfl⟩
    refine ⟨hopen.after ?_ ?_, hflags⟩
    · rintro rfl
      exact hop
    · cases op with
      | write f area buf count => simp [Trouble, ReadsArea]
      | read | spliceIn | spliceOut | close | getsockopt | epollWait => exact hop.elim

/-- The same for the server's record. -/
def ArrivedAll (fd : Int) (w : Host) (t : ServerTransc) : Prop := Arrived fd w t.toTransc

theorem keeps_serverSendBody :
    Keeps (clientKernel fd) (Allowed fd) (ArrivedAll fd) (serverSendBody fd) := by
  have hprepare : Keeps (clientKernel fd) (Allowed fd) (ArrivedAll fd) prepareBody := by
    have hfill : ∀ o : Option (Buf 1024), Keeps (clientKernel fd) (Allowed fd)
        (ArrivedAll fd) (do
          let b ← Prog.orFault o
          Prog.update fun t => { t with writeBodyBuf := b }
          pure (none : Option Int)) := fun o =>
      keeps_orFault_bind fun b => keeps_update_bind (fun _ _ h => h) (keeps_pure _)
    refine keeps_state_bind fun t => keeps_ite (keeps_orFault_bind fun b => ?_) (keeps_pure _)
    refine keeps_update_bind (fun _ _ h => h) (keeps_state_bind fun t => ?_)
    exact keeps_ite (hfill _) (keeps_ite (hfill _) (keeps_pure _))
  have hwrite : Keeps (clientKernel fd) (Allowed fd) (ArrivedAll fd) (writeBody fd) := by
    refine keeps_state_bind fun t => ?_
    apply (keeps_write (fun h => h.1) fun h hopen => ⟨hopen, h.2⟩).bind
    refine fun r => keeps_ite (keeps_pure _) ?_
    refine keeps_update_bind (fun _ _ h => h) (keeps_state_bind fun t => ?_)
    exact keeps_ite (keeps_update_bind (fun _ _ h => h) (keeps_pure _)) (keeps_pure _)
  refine keeps_state_bind fun t => keeps_ite ?_ (keeps_pure _)
  apply hprepare.bind
  intro rv
  cases rv with
  | some c => exact keeps_pure _
  | none => exact hwrite

/-- Sending makes no call but writes. -/
theorem keeps_serverSend :
    Keeps (clientKernel fd) (Allowed fd) (ArrivedAll fd) (serverSend fd) := by
  have hheader : Keeps (clientKernel fd) (Allowed fd) (ArrivedAll fd)
      (onTransc (sendHeader fd)) := by
    intro w t h
    rw [onTransc, wlp_zoom]
    exact keeps_serverSendHeader w t.toTransc h
  unfold serverSend serverSendData
  apply Keeps.bind _ fun _ => keeps_pure _
  refine keeps_ite (keeps_pure _) (keeps_state_bind fun t => keeps_ite ?_ ?_)
  · apply hheader.bind
    intro rv
    cases rv with
    | some c => exact keeps_pure _
    | none => exact keeps_serverSendBody
  · exact keeps_ite (keeps_pure _) keeps_serverSendBody

end Send

/-! ## One event -/

section Event

variable {w : Host} {t : ServerTransc} {r : Answer}

theorem behindHeader_after {op : SysCall} :
    BehindHeader (w.after op r).log ↔ ReadsArea .hdr op := by
  rw [BehindHeader, Host.after_log, List.getLast?_concat]
  simp

theorem not_trouble_header {n : Int} : ¬ Trouble fd w.log (.read fd .hdr n, r) := by
  simp [Trouble, ReadsArea]

theorem trouble_body {n : Int} :
    Trouble fd w.log (.read fd .body n, r) ↔ HangsUp r ∧ BehindHeader w.log := by
  simp [Trouble, ReadsArea]

/-- The descriptor is open, and no body is about to follow its header. -/
structure Ready (fd : Int) (w : Host) (t : ServerTransc) : Prop where
  opened : Open fd w
  phase : t.Flags 0 0 0 0 ∨ (t.Flags 1 0 0 0 ∧ ¬ BehindHeader w.log) ∨
    (t.isRecvHeader = 1 ∧ t.isRecvBody = 1)

/-- The descriptor has been closed and nothing has arrived that could be
sent. -/
structure Gone (fd : Int) (w : Host) (t : ServerTransc) : Prop where
  shut : Shut fd w
  phase : t.Flags 0 0 0 0 ∨ t.Flags 1 0 0 0

theorem flags_arrived {t : Transc} (h : t.Flags 1 1 0 0) :
    t.isRecvHeader = 1 ∧ t.isRecvBody = 1 := ⟨h.recvHeader, h.recvBody⟩

/-- Behind other calls than the read of a header the body may be read. -/
theorem Open.ready {op : SysCall} (h : Open fd (w.after op r)) (hop : ¬ ReadsArea .hdr op)
    (hf : t.Flags 1 0 0 0 ∨ t.Flags 1 1 0 0) : Ready fd (w.after op r) t := by
  refine ⟨h, .inr ?_⟩
  rcases hf with hf | hf
  · exact .inl ⟨hf, fun hb => hop (behindHeader_after.1 hb)⟩
  · exact .inr (flags_arrived hf)

/-- Receiving a part of the body. -/
theorem wlp_recvBody (ho : Open fd w) (hf : t.Flags 1 0 0 0) :
    wlp (clientKernel fd) (Allowed fd) (fun w' t' c =>
      (c ≤ zeroByte → t'.Flags 1 0 0 0 ∧
        (¬ BehindHeader w.log → Open fd w') ∧ (BehindHeader w.log → ¬ Calm fd w')) ∧
      (¬ c ≤ zeroByte → Ready fd w' t')) (serverRecvBody fd t) w := by
  apply wlp_serverRecvBody hf
  · exact fun n => ho.allows t _
  · rintro n r w' c ⟨-, -, rfl⟩ hle hup
    refine ⟨fun _ => ⟨hf, fun hb => ?_, fun hb => ?_⟩, fun hgt => absurd hle hgt⟩
    · exact ho.after (by simp) fun htr => hb (trouble_body.1 htr).2
    · exact fun hcalm => (calm_after.1 hcalm).2 (trouble_body.2 ⟨hup, hb⟩)
  · rintro n r w' t' c ⟨-, -, rfl⟩ hgt hup hf'
    refine ⟨fun hle => absurd hle hgt, fun _ => ?_⟩
    exact (ho.after (by simp) fun htr => hup (trouble_body.1 htr).1).ready
      (by simp [ReadsArea]) hf'

/-- Receiving a header, and what there is of its body. -/
theorem wlp_recvHeaderBody (ho : Open fd w) (hf : t.Flags 0 0 0 0) :
    wlp (clientKernel fd) (Allowed fd) (fun w' t' c =>
      (c ≤ zeroByte → (Open fd w' ∧ t'.Flags 0 0 0 0) ∨ (¬ Calm fd w' ∧ t'.Flags 1 0 0 0)) ∧
      (¬ c ≤ zeroByte → Ready fd w' t')) (serverRecvData fd t) w := by
  simp only [serverRecvData, wlp_bind, wlp_state]
  rw [if_pos ⟨hf.recvHeader, hf.recvBody⟩, wlp_bind, onTransc, wlp_zoom]
  apply wlp_recvHeader decodes_server (fun w _ => hostKernel_fits w) hf
  · exact fun t' n => ho.allows _ _
  · rintro t₁ n r w' t' c ⟨-, -, rfl⟩ hf' -
    have ho' : Open fd (w.after (.read fd .hdr n) r) := ho.after (by simp) not_trouble_header
    exact ⟨fun _ => .inl ⟨ho', hf'⟩, fun _ => ⟨ho', .inl hf'⟩⟩
  · rintro t₁ n r w' t' ⟨-, -, rfl⟩ hf' -
    have ho' : Open fd (w.after (.read fd .hdr n) r) := ho.after (by simp) not_trouble_header
    refine wlp_post ?_ (wlp_recvBody (t := { t with toTransc := t' }) ho' hf')
    intro w' t'' c hc
    refine ⟨fun hle => ?_, hc.2⟩
    exact .inr ⟨(hc.1 hle).2.2 (behindHeader_after.2 rfl), (hc.1 hle).1⟩

/-- The first attempt to receive. -/
theorem wlp_serverReceive_header (ho : Open fd w) (hf : t.Flags 0 0 0 0) :
    wlp (clientKernel fd) (Allowed fd) (fun w' t' _ =>
      Ready fd w' t' ∨ (Shut fd w' ∧ t'.Flags 0 0 0 0) ∨ (Doomed fd w' ∧ t'.Flags 1 0 0 0))
      (serverReceive fd t) w := by
  simp only [serverReceive, wlp_bind, wlp_ite, wlp_pure, wlp_prog_call]
  refine wlp_post (fun w' t' c hc => ⟨fun hle => ?_, fun hgt => .inl (hc.2 hgt)⟩)
    (wlp_recvHeaderBody ho hf)
  rcases hc.1 hle with ⟨ho', hf'⟩ | ⟨htr, hf'⟩
  · refine ⟨ho'.allows _ _, ?_⟩
    rintro r w'' ⟨-, -, rfl⟩
    exact .inr (.inl ⟨ho'.close, hf'⟩)
  · refine ⟨fun hcalm => absurd hcalm htr, ?_⟩
    rintro r w'' ⟨-, -, rfl⟩
    refine .inr (.inr ⟨⟨not_calm_after htr, ?_⟩, hf'⟩)
    rw [answered_after]
    exact List.mem_append_right _ (List.mem_singleton_self _)

/-- The second one, with the descriptor open. -/
theorem wlp_serverReceive_body (ho : Open fd w) (hb : ¬ BehindHeader w.log)
    (hf : t.Flags 1 0 0 0) :
    wlp (clientKernel fd) (Allowed fd) (fun w' t' _ => Ready fd w' t' ∨ Gone fd w' t')
      (serverReceive fd t) w := by
  simp only [serverReceive, serverRecvData, wlp_bind, wlp_state]
  rw [if_neg (by rw [hf.recvHeader]; omega), if_neg (by rw [hf.recvHeader]; omega)]
  simp only [wlp_ite, wlp_pure, wlp_bind, wlp_prog_call]
  refine wlp_post (fun w' t' c hc => ⟨fun hle => ?_, fun hgt => .inl (hc.2 hgt)⟩)
    (wlp_recvBody ho hf)
  obtain ⟨hf', ho', -⟩ := hc.1 hle
  refine ⟨(ho' hb).allows _ _, ?_⟩
  rintro r w'' ⟨-, -, rfl⟩
  exact .inr ⟨(ho' hb).close, .inr hf'⟩

/-- What is ruined stays so. -/
theorem wlp_ruined {α : Type} {Q : Host → ServerTransc → α → Prop}
    (hQ : ∀ w t a, Ruined fd w → Q w t a) (n : Res ServerTransc SysCall Answer α)
    (h : Ruined fd w) : wlp (clientKernel fd) (Allowed fd) Q n w := by
  refine wlp_of_kept ?_ (fun w t op hr hcalm => absurd hcalm hr.troubled) hQ n h
  rintro w t op r w' hr ⟨-, -, rfl⟩
  exact hr.after op r

/-- The second one, with the descriptor closed. -/
theorem wlp_serverReceive_doomed (hd : Doomed fd w) (hf : t.Flags 1 0 0 0) :
    wlp (clientKernel fd) (Allowed fd) (fun w' _ _ => Ruined fd w') (serverReceive fd t) w := by
  have hread : wlp (clientKernel fd) (Allowed fd) (fun w' _ _ => Ruined fd w')
      (serverRecvBody fd t) w := by
    apply wlp_serverRecvBody hf
    · exact fun n hcalm => absurd hcalm hd.troubled
    · rintro n r w' c ⟨-, -, rfl⟩ - -
      exact hd.transfer rfl
    · rintro n r w' t' c ⟨-, -, rfl⟩ - - -
      exact hd.transfer rfl
  simp only [serverReceive, serverRecvData, wlp_bind, wlp_state]
  rw [if_neg (by rw [hf.recvHeader]; omega), if_neg (by rw [hf.recvHeader]; omega)]
  exact wlp_post (fun w' t' c hr => wlp_ruined (fun _ _ _ h => h) _ hr) hread

/-- How an event leaves the descriptor. -/
def Served (fd : Int) (w : Host) (t : ServerTransc) : Prop :=
  Ready fd w t ∨ Gone fd w t ∨ Ruined fd w

/-- The two attempts to receive. -/
theorem wlp_receives (h : Ready fd w t) :
    wlp (clientKernel fd) (Allowed fd) (fun w' t' _ => Served fd w' t') ((do
      Prog.guarded (fun t => t.isRecvHeader = 0 ∧ t.isRecvBody = 0) (serverReceive fd)
      Prog.guarded (fun t => t.isRecvHeader = 1 ∧ t.isRecvBody = 0) (serverReceive fd) :
        Prog ServerTransc SysCall Answer Unit) t) w := by
  have hsecond : ∀ {w : Host} {t : ServerTransc}, Ready fd w t →
      wlp (clientKernel fd) (Allowed fd) (fun w' t' _ => Served fd w' t')
        (Prog.guarded (fun t => t.isRecvHeader = 1 ∧ t.isRecvBody = 0) (serverReceive fd) t)
        w := by
    intro w t h
    rw [wlp_guarded]
    refine ⟨fun hc => ?_, fun _ => .inl h⟩
    rcases h.phase with hf | ⟨hf, hb⟩ | hf
    · have hrh := hf.recvHeader
      omega
    · exact wlp_post (fun w' t' _ h' => h'.elim .inl fun hg => .inr (.inl hg))
        (wlp_serverReceive_body h.opened hb hf)
    · omega
  rw [wlp_bind, wlp_guarded]
  refine ⟨fun hc => ?_, fun _ => hsecond h⟩
  have hf : t.Flags 0 0 0 0 := by
    rcases h.phase with hf | ⟨hf, -⟩ | hf
    · exact hf
    · have hrh := hf.recvHeader
      omega
    · omega
  refine wlp_post (fun w₁ t₁ _ h₁ => ?_) (wlp_serverReceive_header h.opened hf)
  rcases h₁ with h₁ | ⟨hshut, hf₁⟩ | ⟨hd, hf₁⟩
  · exact hsecond h₁
  · rw [wlp_guarded]
    refine ⟨fun hc => ?_, fun _ => .inr (.inl ⟨hshut, .inl hf₁⟩)⟩
    have hrh := hf₁.recvHeader
    omega
  · rw [wlp_guarded]
    refine ⟨fun _ => ?_, fun hc => absurd ⟨hf₁.recvHeader, hf₁.recvBody⟩ hc⟩
    exact wlp_post (fun _ _ _ hr => .inr (.inr hr)) (wlp_serverReceive_doomed hd hf₁)

/-- An attempt to send, which is made only for a message that has arrived. -/
theorem wlp_sends {c : ServerTransc → Prop} [DecidablePred c]
    (hc : ∀ {t : ServerTransc}, c t → t.isRecvBody = 1 ∨ t.isSendHeader = 1)
    (h : Served fd w t) :
    wlp (clientKernel fd) (Allowed fd) (fun w' t' _ => Served fd w' t')
      (Prog.guarded c (serverSend fd) t) w := by
  have hflags : ∀ {rh : Int}, t.Flags rh 0 0 0 → ¬ c t := by
    intro rh hf hct
    have hrb := hf.recvBody
    have hsh := hf.sendHeader
    rcases hc hct with h1 | h1 <;> omega
  rcases h with h | h | h
  · rw [wlp_guarded]
    refine ⟨fun hct => ?_, fun _ => .inl h⟩
    rcases h.phase with hf | ⟨hf, -⟩ | hf
    · exact absurd hct (hflags hf)
    · exact absurd hct (hflags hf)
    · refine wlp_post (fun w' t' _ h' => .inl ?_) (keeps_serverSend w t ⟨h.opened, hf⟩)
      exact ⟨h'.1, .inr (.inr h'.2)⟩
  · rw [wlp_guarded]
    refine ⟨fun hct => ?_, fun _ => .inr (.inl h)⟩
    rcases h.phase with hf | hf
    · exact absurd hct (hflags hf)
    · exact absurd hct (hflags hf)
  · exact wlp_ruined (fun _ _ _ hr => .inr (.inr hr)) _ h

theorem wlp_serverEvent (h : Ready fd w t) :
    wlp (clientKernel fd) (Allowed fd) (fun w' t' _ => Served fd w' t') (serverEvent fd t) w := by
  have hreceives := wlp_receives h
  simp only [serverEvent, wlp_bind] at hreceives ⊢
  refine wlp_post (fun w₁ t₁ _ h₁ => ?_) hreceives
  refine wlp_post (fun w₂ t₂ _ h₂ => ?_) h₁
  refine wlp_post (fun w₃ t₃ _ h₃ => ?_) (wlp_sends (fun hc => .inl hc.2) h₂)
  exact wlp_sends (fun hc => .inr hc.1) h₃

/-- Events of other descriptors do nothing. -/
theorem serverEvents_absent {es : List Int} (h : fd ∉ es) (t : ServerTransc) :
    serverEvents serverFd fd es t = .done t () := by
  induction es with
  | nil => rfl
  | cons e es ih =>
      rw [List.mem_cons, not_or] at h
      have hskip : ¬ (e ≠ serverFd ∧ e = fd) := fun hc => h.1 hc.2.symm
      show (Prog.guarded _ _ t).bind _ = _
      rw [Prog.guarded, if_neg hskip]
      exact ih h.2

/-- The descriptor is among the events of a round at most once. -/
theorem wlp_serverEvents {es : List Int} (hes : es.Nodup) (h : Ready fd w t) :
    wlp (clientKernel fd) (Allowed fd) (fun w' t' _ => Served fd w' t')
      (serverEvents serverFd fd es t) w := by
  induction es with
  | nil => exact .inl h
  | cons e es ih =>
      obtain ⟨hnot, hes⟩ := List.nodup_cons.1 hes
      rw [serverEvents, wlp_bind, wlp_guarded]
      refine ⟨fun hc => ?_, fun _ => ih hes⟩
      rw [hc.2] at hnot
      refine wlp_post (fun w' t' _ h' => ?_) (wlp_serverEvent h)
      rw [serverEvents_absent hnot]
      exact h'

end Event

/-! ## Rounds and runs -/

section Run

variable {w : Host} {t : ServerTransc}

/-- How a round ends: with another one, or behind the loop with the law kept
if and only if all was calm. -/
def Rounded (fd : Int) (w : Host) (t : ServerTransc) (again : Bool) : Prop :=
  if again then Served fd w t
  else (Proper fd (answered w) ∧ (answered w).count (.close fd) = 1 ↔ Calm fd w)

/-- A loop left with the descriptor open. -/
theorem rounded_open {op : SysCall} {r : Answer} (ho : Open fd w) (hne : op ≠ .close fd)
    (htr : Trouble fd w.log (op, r)) : Rounded fd (w.after op r) t false := by
  refine ⟨fun hp => ?_, fun hcalm => absurd htr (calm_after.1 hcalm).2⟩
  have hcount := hp.2
  have hnone : (answered (w.after op r)).count (.close fd) = 0 := by
    rw [List.count_eq_zero, answered_after, List.mem_append, List.mem_singleton, not_or]
    exact ⟨ho.notClosed, hne.symm⟩
  omega

/-- A loop left because the descriptor is closed. -/
theorem rounded_shut {r : Answer} (hs : Shut fd w) :
    Rounded fd (w.after (.getsockopt fd) r) t false := by
  have hclosed : .close fd ∈ answered w := by
    rw [← List.count_pos_iff, hs.closed]
    exact Nat.one_pos
  refine ⟨fun _ => calm_after.2 ⟨hs.calm, ?_⟩, fun _ => ⟨?_, ?_⟩⟩
  · rintro (⟨hop, -⟩ | ⟨-, -, hopen⟩ | ⟨hop, -⟩)
    · cases hop
    · exact hopen hclosed
    · exact hop
  · rw [answered_after]
    exact hs.proper.snoc_other (by simp) (by simp [Transfers])
  · rw [answered_after, List.count_append, hs.closed]
    rfl

theorem wlp_serverClear {Q : Host → ServerTransc → Unit → Prop} (h : Ready fd w t)
    (hQ : ∀ t', (t'.Flags 0 0 0 0 ∨ t'.Flags 1 0 0 0 ∨
      (t'.isRecvHeader = 1 ∧ t'.isRecvBody = 1)) → Q w t' ()) :
    wlp (clientKernel fd) (Allowed fd) Q (serverClear t) w := by
  simp only [serverClear, wlp_guarded, wlp_update, serverTranscClear_eq]
  refine ⟨fun _ => hQ _ (.inl ⟨rfl, rfl, rfl, rfl⟩), fun _ => hQ _ ?_⟩
  exact h.phase.imp_right fun hp => hp.imp_left fun hb => hb.1

theorem wlp_serverRound (h : Served fd w t) :
    wlp (clientKernel fd) (Allowed fd) (Rounded fd) (serverRound serverFd fd t) w := by
  rcases h with h | h | h
  · simp only [serverRound, wlp_bind, wlp_prog_call, wlp_ite, wlp_pure]
    refine ⟨h.opened.allows _ _, ?_⟩
    rintro r₁ w₁ ⟨-, -, rfl⟩
    refine ⟨fun hneg => ?_, fun hnneg => ?_⟩
    · exact rounded_open h.opened (by simp) (.inr (.inl ⟨rfl, hneg, h.opened.notClosed⟩))
    have ho₁ : Open fd (w.after (.getsockopt fd) r₁) :=
      h.opened.after (by simp) (by simp [Trouble, ReadsArea, hnneg])
    have hcheck : ¬ ReadsArea .hdr (.getsockopt fd) := by simp [ReadsArea]
    have h₁ : Ready fd (w.after (.getsockopt fd) r₁) t :=
      ⟨ho₁, h.phase.imp_right fun hp => hp.imp_left fun hf =>
        ⟨hf.1, fun hb => hcheck (behindHeader_after.1 hb)⟩⟩
    apply wlp_serverClear h₁
    intro t' hf'
    refine ⟨ho₁.allows _ _, ?_⟩
    rintro r₂ w₂ ⟨-, hpol, rfl⟩
    refine ⟨fun hneg => rounded_open ho₁ (by simp) (.inl ⟨rfl, hneg⟩), fun hnneg₂ => ?_⟩
    have ho₂ : Open fd ((w.after (.getsockopt fd) r₁).after .epollWait r₂) :=
      ho₁.after (by simp) (by simp [Trouble, ReadsArea, hnneg₂])
    have hwait : ¬ ReadsArea .hdr .epollWait := by simp [ReadsArea]
    have h₂ : Ready fd ((w.after (.getsockopt fd) r₁).after .epollWait r₂) t' :=
      ⟨ho₂, hf'.imp_right fun hp => hp.imp_left fun hf =>
        ⟨hf, fun hb => hwait (behindHeader_after.1 hb)⟩⟩
    refine ⟨fun _ => .inl h₂, fun _ => ?_⟩
    exact wlp_serverEvents (hpol.2 rfl) h₂
  · simp only [serverRound, wlp_bind, wlp_prog_call, wlp_ite, wlp_pure]
    have hclosed : .close fd ∈ answered w := by
      rw [← List.count_pos_iff, h.shut.closed]
      exact Nat.one_pos
    refine ⟨fun _ => h.shut.proper.snoc_other (by simp) (by simp [Transfers]), ?_⟩
    rintro r₁ w₁ ⟨-, hpol, rfl⟩
    refine ⟨fun _ => rounded_shut h.shut, fun hnneg => ?_⟩
    exact absurd (hpol.1 hclosed rfl).1 hnneg
  · refine wlp_ruined (fun w' t' b hr => ?_) _ h
    cases b with
    | true => exact .inr (.inr hr)
    | false => exact ⟨fun hp => absurd hp.1 hr.improper, fun hc => absurd hc hr.troubled⟩

/-- A client that has been accepted, with a cleared record. -/
def accepted : ServerConfig Host := ⟨Host.fresh, .done serverCleared true⟩

/-- The runs of `server_process_data` for this client. -/
abbrev Run (serverFd fd : Int) (c : ServerConfig Host) : Prop :=
  Reach (clientKernel fd) (fun _ : Unit => serverRound serverFd fd) id accepted c

theorem wlp_run {c : ServerConfig Host} (hr : Run serverFd fd c) :
    wlp (clientKernel fd) (Allowed fd) (Rounded fd) c.node c.world := by
  refine wlp_reach (fun _ w t b hb hq => wlp_serverRound ?_) hr ?_
  · cases b with
    | true => exact hq
    | false => cases hb
  · exact .inl ⟨open_fresh, .inl ⟨rfl, rfl, rfl, rfl⟩⟩

/-- What has been answered keeps the law as long as all is calm. -/
theorem proper_run {c : ServerConfig Host} (hr : Run serverFd fd c)
    (hcalm : Calm fd c.world) : Proper fd (answered c.world) := by
  have hall : Calm fd c.world → Proper fd (answered c.world) :=
    wlp_world (K := clientKernel fd) (P := Allowed fd) (Q := Rounded fd)
      (I := fun w => Calm fd w → Proper fd (answered w))
      (fun w t op r w' hp hk hcalm => by
        obtain ⟨-, -, rfl⟩ := hk
        rw [answered_after]
        exact hp (calm_after.1 hcalm).1)
      (fun _ w t b hb hq => wlp_serverRound (by
        cases b with
        | true => exact hq
        | false => cases hb))
      hr (.inl ⟨open_fresh, .inl ⟨rfl, rfl, rfl, rfl⟩⟩) (fun _ => proper_nil)
  exact hall hcalm

/-- **When the server closes a client once.**  As long as `epoll_wait` does
not fail, the descriptor is found valid while it is open, and no connection
ends where a body is to follow its header at once; and of the runs that return
in no others. -/
theorem server_closes_once {c : ServerConfig Host} (hr : Run serverFd fd c) :
    (Calm fd c.world → ClosesOnce fd c) ∧
      (returned c = true → (ClosesOnce fd c ↔ Calm fd c.world)) := by
  have hwlp := wlp_run hr
  have hproper := proper_run hr
  obtain ⟨w, node⟩ := c
  cases node with
  | done t again =>
      have hcalls : calls ⟨w, .done t again⟩ = answered w := List.append_nil _
      cases again with
      | true =>
          refine ⟨fun hcalm => ⟨?_, fun hret => by cases hret⟩, fun hret => by cases hret⟩
          rw [hcalls]
          exact hproper hcalm
      | false =>
          have hiff : Proper fd (answered w) ∧ (answered w).count (.close fd) = 1 ↔
              Calm fd w := hwlp
          have hcloses : ClosesOnce fd ⟨w, .done t false⟩ ↔ Calm fd w := by
            rw [← hiff]
            constructor
            · intro h
              have hp := h.proper
              have hc := h.closed rfl
              rw [hcalls] at hp hc
              exact ⟨hp, hc⟩
            · rintro ⟨hp, hc⟩
              rw [← hcalls] at hp hc
              exact ⟨hp, fun _ => hc⟩
          exact ⟨hcloses.2, fun _ => hcloses⟩
  | call t op k =>
      exact ⟨fun hcalm => ⟨hwlp.1 hcalm, fun hret => by cases hret⟩, fun hret => by cases hret⟩
  | fault t =>
      have hcalls : calls ⟨w, .fault t⟩ = answered w := List.append_nil _
      refine ⟨fun hcalm => ⟨?_, fun hret => by cases hret⟩, fun hret => by cases hret⟩
      rw [hcalls]
      exact hproper hcalm

/-- A client hangs up between two messages. -/
theorem server_closes_once_idle :
    ∃ c : ServerConfig Host, (returned c = true ∧ Calm 4 c.world) ∧ ClosesOnce 4 c := by
  have hrun : ∃ c : ServerConfig Host, Run 3 4 c ∧ returned c = true ∧ Calm 4 c.world :=
    exists_reach_of_exec (fun w _ => hostDeliver (ClientAnswers 4) w)
      hostKernel_of_hostDeliver
      [.event (), .answer (.count 0), .answer ⟨1, .other 0, [], [4]⟩, .answer (.count 0),
        .answer (.count 0), .event (), .answer (.fail ebadf)]
      (fun c : ServerConfig Host => returned c = true ∧ Calm 4 c.world) (by decide +kernel)
  obtain ⟨c, hr, hret, hcalm⟩ := hrun
  exact ⟨c, ⟨hret, hcalm⟩, (server_closes_once hr).1 hcalm⟩

/-- A client hangs up behind the header of a message. -/
theorem server_closes_twice :
    ¬ ∀ c : ServerConfig Host, Run 3 4 c → ClosesOnce 4 c := by
  intro hall
  have hrun : ∃ c : ServerConfig Host, Run 3 4 c ∧
      (answered c.world).count (.close 4) = 2 ∧ c.node.waits = none :=
    exists_reach_of_exec (fun w _ => hostDeliver (ClientAnswers 4) w)
      hostKernel_of_hostDeliver
      [.event (), .answer (.count 0), .answer ⟨1, .other 0, [], [4]⟩,
        .answer (.stored ([1, 21, 0, 0] ++ List.replicate 16 0)), .answer (.count 0),
        .answer (.count 0), .answer (.fail ebadf), .answer (.fail ebadf)]
      (fun c : ServerConfig Host =>
        (answered c.world).count (.close 4) = 2 ∧ c.node.waits = none) (by decide +kernel)
  obtain ⟨c, hr, htwice, hwaits⟩ := hrun
  have honce := (hall c hr).proper.once
  rw [calls, hwaits, Option.toList_none, List.append_nil, htwice] at honce
  exact absurd honce (by decide)

end Run

end ZeroCopyProxy.Ports.ServerClose
