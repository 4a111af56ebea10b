import ZeroCopyProxy.Ports.ProxyFlags
import ZeroCopyProxy.Ports.Receives
import ZeroCopyProxy.Ports.Sends

/-!
# A receive that finds nothing

A `read` or `splice` of the receiving side that fails with `EAGAIN`,
`EWOULDBLOCK` or `EINTR` says nothing about the connection.  The receivers
tell these codes apart, `ERRNO_EAGAIN` and `INTERRUPT`, but the caller compares
what they return with `ZERO_BYTE` by order: the first is above it and the
second below.  So a receive that would block leaves everything as it was, and
one that a signal interrupts closes the descriptor.

What is left of the event behind such a receive is a specification in a world
of its own, which remembers the state in which the receive failed (`remembers`)
and forgets it with the next answer.
-/

namespace ZeroCopyProxy.Ports.ProxyTransient

open ZeroCopyProxy.Verified.Resumption
open ZeroCopyProxy.Verified.Liberal
open ZeroCopyProxy.Ports.Posix
open ZeroCopyProxy.Ports.Kernel
open ZeroCopyProxy.Ports.TranscHeader
open ZeroCopyProxy.Ports.ProxyRelay
open ZeroCopyProxy.Ports.ProxyFlags
open ZeroCopyProxy.Ports.Receives (wlp_recvHeader)
open ZeroCopyProxy.Ports.Sends

/-! ## The law -/

/-- A call of the receiving side. -/
def Receives : SysCall → Prop
  | .read .. | .spliceIn .. => True
  | _ => False

/-- The call failed, and may succeed when it is made again. -/
def Transient (r : Answer) : Prop :=
  r.ret < 0 ∧ (r.errno = .eagain ∨ r.errno = .ewouldblock ∨ r.errno = .eintr)

instance (op : SysCall) : Decidable (Receives op) := by
  unfold Receives
  split <;> infer_instance

instance (r : Answer) : Decidable (Transient r) :=
  inferInstanceAs (Decidable (_ ∧ _))

/-- The kernel that gives every possible answer. -/
abbrev workerKernel : Host → WorkData → SysCall → Answer → Host → Prop :=
  blind (hostKernel fun _ _ _ => True)

/-- The runs of a worker. -/
abbrev Run (c c' : WorkerConfig Host) : Prop :=
  Reach workerKernel proxyConnEvent (fun _ => true) c c'

/-- The runs of the event that is being served. -/
abbrev Rest (c c' : WorkerConfig Host) : Prop :=
  Reach workerKernel proxyConnEvent (fun _ => false) c c'

/-- The same message, received and sent as far. -/
structure SameMessage (t t' : Transc) : Prop where
  flags : t'.Flags t.isRecvHeader t.isRecvBody t.isSendHeader t.isSendBody
  length : t'.length = t.length
  recvBytes : t'.recvBytes = t.recvBytes
  sendBytes : t'.sendBytes = t.sendBytes
  readHdrBuf : t'.readHdrBuf = t.readHdrBuf

/-- The same bytes consumed, written and in the pipes. -/
structure SameBytes (w w' : Host) : Prop where
  consumed : w'.consumed = w.consumed
  written : w'.written = w.written
  piped : w'.piped = w.piped

/-- Every run of the first worker is one of the second as well, in which the
same bytes are delivered. -/
def Follows (c₁ c₂ : WorkerConfig Host) : Prop :=
  ∀ c, Run c₁ c → ∃ v, Run c₂ ⟨v, c.node⟩ ∧ SameBytes c.world v

/-- The descriptor a call closes. -/
def closes : SysCall → Option Int
  | .close fd => some fd
  | _ => none

/-- The descriptors closed so far. -/
def closed (w : Host) : List Int := w.log.filterMap fun e => closes e.1

/-- In an event that began in the host `w₁` the answer `r` to the call `op` of
a worker with the work data `d` leaves the rest `n`.  The event ends, and
nothing is closed in it; the messages and the pipes are what they were at the
call, and what follows is what would follow without the call. -/
structure Undisturbed (w₁ w : Host) (d : WorkData) (op : SysCall) (r : Answer)
    (n : Res WorkData SysCall Answer (List Int)) : Prop where
  returns : ∃ w' d' codes, Rest ⟨w.after op r, n⟩ ⟨w', .done d' codes⟩
  unclosed : ∀ c, Rest ⟨w.after op r, n⟩ c →
    closed c.world = closed w₁ ∧ ∀ fd, c.node.waits ≠ some (.close fd)
  messages : ∀ w' d' codes, Rest ⟨w.after op r, n⟩ ⟨w', .done d' codes⟩ →
    ∀ dir, SameMessage (d.transc dir) (d'.transc dir)
  pipes : ∀ w' d' codes, Rest ⟨w.after op r, n⟩ ⟨w', .done d' codes⟩ →
    w'.piped = w.piped
  later : ∀ w' d' codes, Rest ⟨w.after op r, n⟩ ⟨w', .done d' codes⟩ →
    Follows ⟨w', .done d' codes⟩ ⟨w, .done d codes⟩ ∧
      Follows ⟨w, .done d codes⟩ ⟨w', .done d' codes⟩

/-! ## Behind a receive that failed -/

section Ghost

variable {D : Type}

/-- What a receive has left to remember: the state of the worker and the error
of a receive that failed, until the next answer. -/
def remembers (_ : Option (D × Errno)) (d : D) (op : SysCall) (r : Answer)
    (g : Option (D × Errno)) : Prop :=
  r.Fits op ∧ g = if Receives op ∧ Transient r then some (d, r.errno) else none

/-- The only call behind a receive that failed closes a descriptor, in the same
state, and only after `EINTR`. -/
def Halts (g : Option (D × Errno)) (d : D) (op : SysCall) : Prop :=
  ∀ p, g = some p → p.2 = .eintr ∧ p.1 = d ∧ ∃ fd, op = .close fd

/-- The event ends behind a receive that failed, in the same state, only if it
was not interrupted. -/
def Returns {α : Type} (g : Option (D × Errno)) (d : D) (_ : α) : Prop :=
  ∀ p, g = some p → p.2 ≠ .eintr ∧ p.1 = d

theorem halts_none (d : D) (op : SysCall) : Halts none d op := by
  intro p hp
  cases hp

theorem remembers_other {g g' : Option (D × Errno)} {d : D} {op : SysCall} {r : Answer}
    (h : remembers g d op r g') (hop : ¬ Receives op) : g' = none := by
  rw [h.2, if_neg fun hc => hop hc.1]

theorem remembers_moved {g g' : Option (D × Errno)} {d : D} {op : SysCall} {r : Answer}
    (h : remembers g d op r g') (hpos : 0 < r.ret) : g' = none := by
  rw [h.2, if_neg fun hc => absurd hc.2.1 (by omega)]

/-- A message in one of its receiving phases, of which nothing is sent. -/
def Unsent (t : Transc) : Prop :=
  ¬ (t.isRecvHeader = 1 ∧ t.isRecvBody = 1) ∧ t.isSendHeader = 0

/-- What is remembered behind a receive with this code. -/
def Recalls (put : Transc → D) (g : Option (D × Errno)) (t : Transc) (c : Int) : Prop :=
  ∀ p, g = some p → p.1 = put t ∧ (c ≤ zeroByte ↔ p.2 = .eintr) ∧ Unsent t

/-- The code of a receive that got nothing. -/
theorem recalls_code {put : Transc → D} {g g' : Option (D × Errno)} {t : Transc} {op : SysCall}
    {r : Answer} (h : remembers g (put t) op r g') (ht : Unsent t) :
    Recalls put g' t (if r.ret < 0 then recvErrorCode r.errno else zeroByte) := by
  intro p hp
  rw [h.2] at hp
  by_cases hc : Receives op ∧ Transient r
  · rw [if_pos hc] at hp
    obtain rfl : (put t, r.errno) = p := Option.some.inj hp
    refine ⟨rfl, ?_, ht⟩
    rw [if_pos hc.2.1, recvErrorCode_le_zeroByte]
    constructor
    · intro hno
      rcases hc.2.2 with he | he | he
      · exact absurd (.inl he) hno
      · exact absurd (.inr he) hno
      · exact he
    · intro (he : r.errno = .eintr)
      rw [he]
      simp
  · rw [if_neg hc] at hp
    cases hp

theorem recalls_none (put : Transc → D) (t : Transc) (c : Int) : Recalls put none t c := by
  intro p hp
  cases hp

section Event

variable (put : Transc → D) {fd peer : Int} {pipe : Pipe} {t : Transc}

/-- The kernel of one direction of a worker. -/
abbrev remembersAt (g : Option (D × Errno)) (t : Transc) (op : SysCall) (r : Answer)
    (g' : Option (D × Errno)) : Prop :=
  remembers g (put t) op r g'

/-- The calls of one direction of a worker. -/
abbrev haltsAt (g : Option (D × Errno)) (t : Transc) (op : SysCall) : Prop :=
  Halts g (put t) op

theorem unsent_hdr {w : Unit} (h : flagPhases.hdr w t) : Unsent t := by
  obtain ⟨hf, -⟩ := h
  refine ⟨fun hc => ?_, hf.sendHeader⟩
  have hrh := hf.recvHeader
  omega

theorem wlp_recvBody_recalls (hf : t.Flags 1 0 0 0) :
    wlp (remembersAt put) (haltsAt put) (Recalls put) (recvBody fd pipe t) none := by
  have ht : Unsent t := by
    refine ⟨fun hc => ?_, hf.sendHeader⟩
    have hrb := hf.recvBody
    omega
  apply wlp_of_wp
  apply wp_recvBody hf
  · exact halts_none _ _
  · intro r g hk _
    exact recalls_code hk ht
  · intro r g hk hpos _
    rw [remembers_moved hk hpos]
    exact recalls_none put _ _
  · intro r g hk hpos _
    rw [remembers_moved hk hpos]
    exact recalls_none put _ _

theorem wlp_proxyRecvData_recalls (h : flagPhases.hdr () t ∨ flagPhases.body () t) :
    wlp (remembersAt put) (haltsAt put) (Recalls put)
      (proxyRecvData fd (some pipe) endian t) none := by
  simp only [proxyRecvData, wlp_bind, wlp_state, wlp_ite, wlp_pure]
  refine ⟨fun _ => recalls_none put _ _, fun _ => ⟨fun hf => ?_, fun hf => ⟨fun _ =>
    recalls_none put _ _, fun _ => ?_⟩⟩⟩
  · rcases h with h | h
    · have ht := unsent_hdr h
      obtain ⟨hflags, h0, h20, -⟩ := h
      apply wlp_of_wp
      apply wp_recvHeader decodes_big (fun _ _ _ _ _ hk => hk.1) h0 h20
      · exact halts_none _ _
      · intro r g hk _
        exact recalls_code hk ht
      · intro r g b len hk hpos _ _ _
        rw [remembers_moved hk hpos]
        exact recalls_none put _ _
      · intro r g b hk hpos _ _ _
        rw [remembers_moved hk hpos]
        exact wlp_recvBody_recalls put ⟨rfl, hflags.recvBody, hflags.sendHeader, hflags.sendBody⟩
    · have hrh := h.1.recvHeader
      omega
  · rcases h with h | h
    · exact absurd ⟨h.1.recvHeader, h.1.recvBody⟩ hf
    · exact wlp_recvBody_recalls put h.1

/-- What is remembered behind the receive of an event. -/
def Settles (g : Option (D × Errno)) (t : Transc) : Prop :=
  ∀ p, g = some p → p.2 ≠ .eintr ∧ p.1 = put t ∧ Unsent t

theorem wlp_forwardRecv_settles (h : flagPhases.Inv () t) :
    wlp (remembersAt put) (haltsAt put) (fun g t' _ => Settles put g t')
      (forwardRecv fd (some pipe) t) none := by
  have hnone : ∀ t', Settles put none t' := by
    intro t' p hp
    cases hp
  simp only [forwardRecv, wlp_bind, wlp_state, wlp_ite, wlp_pure, wlp_prog_call]
  refine ⟨fun hf => ?_, fun _ => hnone t⟩
  have hfront : flagPhases.hdr () t ∨ flagPhases.body () t := by
    cases h with
    | hdr h => exact .inl h
    | body h => exact .inr h
    | sendHdr h =>
        have hrh := h.1.recvHeader
        have hrb := h.1.recvBody
        omega
    | sendBody h =>
        have hrh := h.1.recvHeader
        have hrb := h.1.recvBody
        omega
  refine wlp_post (fun g t' c hc => ⟨fun hle => ⟨fun p hp => ?_, fun r g' hk => ?_⟩,
    fun hgt p hp => ?_⟩) (wlp_proxyRecvData_recalls put hfront)
  · obtain ⟨hput, hiff, -⟩ := hc p hp
    exact ⟨hiff.1 hle, hput, fd, rfl⟩
  · rw [remembers_other hk id]
    exact hnone t'
  · obtain ⟨hput, hiff, ht⟩ := hc p hp
    exact ⟨fun he => hgt (hiff.2 he), hput, ht⟩

/-- Behind a receive that failed nothing is sent and nothing cleared. -/
theorem wlp_rest_unsent {g : Option (D × Errno)} (hs : Settles put g t) (ht : Unsent t) :
    wlp (remembersAt put) (haltsAt put) (fun g' t' _ => Returns g' (put t') ())
      (forwardRest pipe peer t) g := by
  have hsend : ¬ t.isSendHeader = 1 := by
    have hsh := ht.2
    omega
  simp only [forwardRest, wlp_bind, forwardSend, forwardResend, forwardClear, wlp_state]
  rw [if_neg ht.1, wlp_pure, if_neg fun hc => hsend hc.1, wlp_pure, if_neg fun hc => hsend hc.1]
  intro p hp
  exact ⟨(hs p hp).1, (hs p hp).2.1⟩

/-- The calls of the senders receive nothing. -/
theorem wlp_rest_sends :
    wlp (remembersAt put) (haltsAt put) (fun g' t' _ => Returns g' (put t') ())
      (forwardRest pipe peer t) none := by
  have hsees : SeesReceived fun (g : Option (D × Errno)) (_ : Transc) => g = none :=
    fun _ _ _ h _ _ => h
  have hsends : KeptBy (remembersAt put) (haltsAt put) (fun g _ => g = none)
      (SendsTo pipe peer) := by
    rintro g t op hop rfl
    refine ⟨halts_none _ _, fun r g' hk => remembers_other hk fun hrecv => ?_⟩
    cases op with
    | read | spliceIn => exact hop
    | write | spliceOut | close | getsockopt | epollWait => exact hrecv
  refine wlp_post (fun g t' _ hg p hp => ?_)
    (keeps_forwardRest hsees hsends (fun _ _ h => h) none t rfl)
  rw [hg] at hp
  cases hp

/-- One call of `proxy_process_data`. -/
theorem wlp_forward_returns (h : flagPhases.Inv () t) :
    wlp (remembersAt put) (haltsAt put) (fun g t' _ => Returns g (put t') ())
      (forward fd (some pipe) peer t) none := by
  rw [wlp_forward]
  refine wlp_post (fun g t' _ hs => ?_) (wlp_forwardRecv_settles put h)
  cases g with
  | none => exact wlp_rest_sends put
  | some p => exact wlp_rest_unsent put hs (hs p rfl).2.2

end Event

/-- One event of a worker. -/
theorem wlp_proxyConnEvent_returns {d : WorkData}
    (h : ∀ dir, flagPhases.Inv () (d.transc dir)) (fd : Int) :
    wlp remembers Halts Returns (proxyConnEvent fd d) none := by
  have hprocess : ∀ fd, wlp remembers Halts Returns (proxyProcessData fd d) none := by
    intro fd
    unfold proxyProcessData
    rw [wlp_zoom]
    exact wlp_forward_returns (fun t => d.setTransc (d.dirOf fd) t) (h _)
  simp only [proxyConnEvent, wlp_bind, wlp_state, wlp_ite, wlp_pure]
  refine ⟨fun _ => hprocess _, fun _ => ⟨fun _ => hprocess _, fun _ => ?_⟩⟩
  intro p hp
  cases hp

end Ghost

/-! ## In front of a receive -/

theorem closes_receives {op : SysCall} (hop : Receives op) : closes op = none := by
  cases op with
  | read | spliceIn => rfl
  | write | spliceOut | close | getsockopt | epollWait => exact hop.elim

theorem closed_after (w : Host) {op : SysCall} (r : Answer) (hop : closes op = none) :
    closed (w.after op r) = closed w := by
  simp only [closed, Host.after_log, List.filterMap_append, List.filterMap_cons, hop,
    List.filterMap_nil, List.append_nil]

section Before

variable {K : Host → Transc → SysCall → Answer → Host → Prop} {fd peer : Int} {pipe : Pipe}

/-- The receivers make no other calls. -/
theorem wlp_proxyRecvData_receives (hK : ∀ w t op r w', K w t op r w' → r.Fits op) (w : Host)
    (t : Transc) :
    wlp K (fun _ _ op => Receives op) (fun _ _ _ => True)
      (proxyRecvData fd (some pipe) endian t) w := by
  have hbody : Keeps K (fun _ _ op => Receives op) (fun _ _ => True) (recvBody fd pipe) := by
    refine keeps_state_bind fun t => keeps_ite ?_ (keeps_pure _)
    apply (keeps_call (fun _ _ _ => True.intro) fun _ _ _ _ h _ => h).bind
    refine fun r => keeps_ite (keeps_pure _) (keeps_ite (keeps_pure _) ?_)
    refine keeps_update_bind (fun _ _ h => h) (keeps_state_bind fun t => ?_)
    exact keeps_ite (keeps_update_bind (fun _ _ h => h) (keeps_pure _)) (keeps_pure _)
  simp only [proxyRecvData, wlp_bind, wlp_state, wlp_ite, wlp_pure]
  refine ⟨fun _ => True.intro, fun _ => ⟨fun hf => ?_, fun _ => ⟨fun _ => True.intro,
    fun _ => hbody w t True.intro⟩⟩⟩
  have hflags : t.Flags 0 0 t.isSendHeader t.isSendBody := ⟨hf.1, hf.2, rfl, rfl⟩
  apply wlp_recvHeader decodes_big hK hflags
  · exact fun _ _ => True.intro
  · exact fun _ _ _ _ _ _ _ _ _ => True.intro
  · exact fun _ _ _ w' t' _ _ _ => hbody w' t' True.intro

/-- A receive comes before every other call of its event. -/
def Unclosed {S : Type} (w₁ w : Host) (_ : S) (op : SysCall) : Prop :=
  Receives op → closed w = closed w₁

variable (hK : ∀ w t op r w', K w t op r w' → r.Fits op ∧ w' = w.after op r)
include hK

theorem wlp_forward_unclosed (w₁ : Host) (t : Transc) :
    wlp K (Unclosed w₁) (fun _ _ _ => True) (forward fd (some pipe) peer t) w₁ := by
  have hsends : KeptBy K (Unclosed w₁) (fun _ _ => True) (SendsTo pipe peer) := by
    refine fun w t op hop _ => ⟨fun hrecv => ?_, fun _ _ _ => True.intro⟩
    cases op with
    | read | spliceIn => exact hop.elim
    | write | spliceOut | close | getsockopt | epollWait => exact hrecv.elim
  have hrecv : wlp K (Unclosed w₁) (fun _ _ _ => True) (proxyRecvData fd (some pipe) endian t)
      w₁ := by
    have hall : wlp K (fun w' _ op => Receives op ∧ closed w' = closed w₁)
        (fun w' _ _ => True ∧ closed w' = closed w₁)
        (proxyRecvData fd (some pipe) endian t) w₁ := by
      refine wlp_invariant ?_ (wlp_proxyRecvData_receives (fun w t op r w' hk =>
        (hK w t op r w' hk).1) w₁ t) rfl
      intro w t op r w' hop hk hw
      rw [(hK _ _ _ _ _ hk).2, closed_after w r (closes_receives hop)]
      exact hw
    exact wlp_post (fun _ _ _ _ => True.intro) (wlp_calls (fun _ _ _ hp _ => hp.2) hall)
  have hsees : SeesReceived fun (_ : Host) (_ : Transc) => True := fun _ _ _ h _ _ => h
  have hclose : wlp K (Unclosed w₁) (fun _ _ _ => True) (forwardRecv fd (some pipe) t) w₁ := by
    simp only [forwardRecv, wlp_bind, wlp_state, wlp_ite, wlp_pure, wlp_prog_call]
    refine ⟨fun _ => wlp_post (fun w t c _ => ?_) hrecv, fun _ => True.intro⟩
    exact ⟨fun _ => ⟨fun hc => hc.elim, fun _ _ _ => True.intro⟩, fun _ => True.intro⟩
  rw [wlp_forward]
  exact wlp_post (fun w t _ _ =>
    keeps_forwardRest hsees hsends (fun _ _ h => h) w t True.intro) hclose

end Before

/-! ## Workers that moved the same bytes -/

section Same

variable {w v : Host} {op : SysCall} {r : Answer}

theorem SameBytes.can (h : SameBytes w v) (hc : w.Can op r) : v.Can op r := by
  cases op with
  | spliceOut pipe fd count =>
      refine ⟨hc.1, ?_⟩
      rw [h.piped]
      exact hc.2
  | read | write | spliceIn | close | getsockopt | epollWait => exact hc

theorem SameBytes.after (h : SameBytes w v) : SameBytes (w.after op r) (v.after op r) := by
  obtain ⟨consumed, written, piped, log⟩ := w
  obtain ⟨consumed', written', piped', log'⟩ := v
  obtain ⟨rfl, rfl, rfl⟩ := h
  cases op <;> exact ⟨rfl, rfl, rfl⟩

/-- What a worker goes on to do depends on the bytes moved so far and not on
the calls that moved none. -/
theorem follows_of_sameBytes (h : SameBytes w v)
    (n : Res WorkData SysCall Answer (List Int)) : Follows ⟨w, n⟩ ⟨v, n⟩ := by
  intro c hr
  refine hr.simulate (R := SameBytes) ?_ h
  rintro w s op r w' v h ⟨hcan, -, rfl⟩
  exact ⟨v.after op r, ⟨h.can hcan, True.intro, rfl⟩, h.after⟩

theorem SameBytes.symm (h : SameBytes w v) : SameBytes v w :=
  ⟨h.consumed.symm, h.written.symm, h.piped.symm⟩

/-- A call that failed moves nothing. -/
theorem sameBytes_after (w : Host) (op : SysCall) (hr : r.ret < 0) :
    SameBytes w (w.after op r) := by
  obtain ⟨hconsumed, hpiped, hwritten⟩ := w.after_idle r op (Int.le_of_lt hr)
  exact ⟨hconsumed, hwritten, hpiped⟩

/-- Nothing is left to run of an event that has ended. -/
theorem rest_done {d : WorkData} {codes : List Int} {c : WorkerConfig Host}
    (hr : Rest ⟨w, .done d codes⟩ c) : c = ⟨w, .done d codes⟩ := by
  induction hr with
  | refl => rfl
  | tail _ hs ih =>
      subst ih
      cases hs with
      | start e ha => cases ha

/-- A receive behind which the event ends at once. -/
theorem undisturbed_done {w₁ : Host} {d : WorkData} {codes : List Int} (hr : r.ret < 0)
    (hop : Receives op) (hclosed : closed w = closed w₁) :
    Undisturbed w₁ w d op r (.done d codes) where
  returns := ⟨_, _, _, .refl⟩
  unclosed := by
    intro c hc
    rw [rest_done hc]
    refine ⟨(closed_after w r (closes_receives hop)).trans hclosed, fun fd hw => ?_⟩
    cases hw
  messages := by
    intro w' d' codes' hc dir
    cases rest_done hc
    exact ⟨⟨rfl, rfl, rfl, rfl⟩, rfl, rfl, rfl, rfl⟩
  pipes := by
    intro w' d' codes' hc
    cases rest_done hc
    exact (sameBytes_after w op hr).piped
  later := by
    intro w' d' codes' hc
    cases rest_done hc
    have hsame := sameBytes_after w op hr
    exact ⟨follows_of_sameBytes hsame.symm _, follows_of_sameBytes hsame _⟩

end Same

/-! ## Runs -/

section Runs

variable {d₀ d : WorkData} {w : Host} {op : SysCall} {r : Answer}
  {k : Answer → Res WorkData SysCall Answer (List Int)} {c : WorkerConfig Host}

/-- A worker with empty pipes. -/
abbrev begun (d₀ : WorkData) : WorkerConfig Host := ⟨Host.fresh, .done d₀ []⟩

/-- Both messages of a worker are in one of their phases whenever it waits for
an event, and it never faults. -/
theorem run_phases (h₀ : ∀ dir, d₀.transc dir = cleared) (hr : Run (begun d₀) c) :
    c.node.faulted = false ∧
      ∀ d codes, c.node = .done d codes → ∀ dir, flagPhases.Inv () (d.transc dir) := by
  have hinit : ∀ dir, flagPhases.Inv () (d₀.transc dir) := by
    intro dir
    rw [h₀ dir]
    exact .hdr ⟨⟨rfl, rfl, rfl, rfl⟩, Int.le_refl 0, by decide, rfl⟩
  have hany : ∃ v, Reach (blind anyKernel) proxyConnEvent (fun _ => true)
      ⟨(), .done d₀ []⟩ ⟨v, c.node⟩ ∧ True :=
    hr.simulate (R := fun _ _ => True) (fun _ hk => ⟨(), hk.1.1, True.intro⟩) True.intro
  obtain ⟨⟨⟩, hr', -⟩ := hany
  have hwp := worker_wp (Φ := fun _ => flagPhases) (P := fun _ => CallVisible)
    (fun dir => flagPhases_sound _ _ _) (fun _ _ _ _ hi => hi) hinit hr'
  cases hn : c.node with
  | done d codes =>
      rw [hn] at hwp
      refine ⟨rfl, fun d' codes' heq dir => ?_⟩
      cases heq
      exact hwp.2.inv dir
  | call d op k =>
      refine ⟨rfl, fun d' codes' heq => ?_⟩
      cases heq
  | fault d =>
      rw [hn] at hwp
      exact hwp.elim

/-- What is left to run of a worker remembers its receives. -/
theorem run_returns (h₀ : ∀ dir, d₀.transc dir = cleared) (hr : Run (begun d₀) c) :
    ∃ g, wlp remembers Halts Returns c.node g := by
  refine wlp_ghost ?_ ?_ hr ⟨none, fun p hp => by cases hp⟩
  · rintro w d op r w' ⟨hcan, -, -⟩ g
    exact ⟨_, hcan.1, rfl⟩
  · intro w d codes hr' _ fd
    exact ⟨none, wlp_proxyConnEvent_returns ((run_phases h₀ hr').2 d codes rfl) fd⟩

/-- **Behind a receive that failed.**  If it was not interrupted the event
ends, and if it was a descriptor is closed. -/
theorem behind_transient (h₀ : ∀ dir, d₀.transc dir = cleared)
    (hr : Run (begun d₀) ⟨w, .call d op k⟩) (hop : Receives op) (ht : Transient r)
    (hcan : w.Can op r) :
    (r.errno ≠ .eintr → ∃ codes, k r = .done d codes) ∧
      (r.errno = .eintr → ∃ fd, (k r).waits = some (.close fd)) := by
  obtain ⟨g, hg⟩ := run_returns h₀ hr
  have hremembers : remembers g d op r (some (d, r.errno)) := ⟨hcan.1, by rw [if_pos ⟨hop, ht⟩]⟩
  have hrest := hg.2 r _ hremembers
  have hr' : Run (begun d₀) ⟨w.after op r, k r⟩ := hr.tail (.answer ⟨hcan, True.intro, rfl⟩)
  have hfault : (k r).faulted = false := (run_phases h₀ hr').1
  cases hk : k r with
  | done d' codes =>
      rw [hk] at hrest
      obtain ⟨hne, hd⟩ := hrest (d, r.errno) rfl
      refine ⟨fun _ => ⟨codes, ?_⟩, fun he => absurd he hne⟩
      exact congrArg (Res.done · codes) hd.symm
  | call d' op' k' =>
      rw [hk] at hrest
      obtain ⟨he, -, fd, hop'⟩ := hrest.1 (d, r.errno) rfl
      refine ⟨fun hne => absurd he hne, fun _ => ⟨fd, ?_⟩⟩
      rw [hop']
      rfl
  | fault d' =>
      rw [hk] at hfault
      cases hfault

/-- What happens within an event happens in a run. -/
theorem run_of_rest {c c' : WorkerConfig Host} (hr : Rest c c') : Run c c' := by
  induction hr with
  | refl => exact .refl
  | tail _ hs ih =>
      cases hs with
      | start e ha => cases ha
      | answer hk => exact ih.tail (.answer hk)

/-- Nothing has been closed in an event that waits in a receive. -/
theorem closed_of_receives {w₁ : Host} {d₁ : WorkData} {fd : Int}
    (hr : Rest ⟨w₁, proxyConnEvent fd d₁⟩ ⟨w, .call d op k⟩) (hop : Receives op) :
    closed w = closed w₁ := by
  have hprocess : ∀ fd, wlp workerKernel (Unclosed w₁) (fun _ _ _ => True)
      (proxyProcessData fd d₁) w₁ := by
    intro fd
    unfold proxyProcessData
    rw [wlp_zoom]
    exact wlp_forward_unclosed (fun w t op r w' hk => ⟨hk.1.1, hk.2.2⟩) w₁ _
  have hevent : wlp workerKernel (Unclosed w₁) (fun _ _ _ => True) (proxyConnEvent fd d₁) w₁ := by
    simp only [proxyConnEvent, wlp_bind, wlp_state, wlp_ite, wlp_pure]
    exact ⟨fun _ => hprocess _, fun _ => ⟨fun _ => hprocess _, fun _ => True.intro⟩⟩
  have hwlp := wlp_reach (fun _ _ _ _ ha _ => by cases ha) hr hevent
  exact hwlp.1 hop

/-- **When a receive that failed leaves the connection as it was.**  Whatever
has happened before, exactly if it was not interrupted by a signal. -/
theorem transient_undisturbed_iff (h₀ : ∀ dir, d₀.transc dir = cleared) {w₁ : Host}
    {d₁ : WorkData} {codes : List Int} {fd : Int} (hr₁ : Run (begun d₀) ⟨w₁, .done d₁ codes⟩)
    (hr : Rest ⟨w₁, proxyConnEvent fd d₁⟩ ⟨w, .call d op k⟩) (hop : Receives op)
    (ht : Transient r) (hcan : w.Can op r) :
    Undisturbed w₁ w d op r (k r) ↔ r.errno ≠ .eintr := by
  have hevent : Run (begun d₀) ⟨w₁, proxyConnEvent fd d₁⟩ := hr₁.tail (.start fd rfl)
  obtain ⟨hreturns, hcloses⟩ := behind_transient h₀ (hevent.trans (run_of_rest hr)) hop ht hcan
  constructor
  · intro hu he
    obtain ⟨fd, hfd⟩ := hcloses he
    exact (hu.unclosed _ .refl).2 fd hfd
  · intro hne
    obtain ⟨codes, hdone⟩ := hreturns hne
    rw [hdone]
    exact undisturbed_done ht.1 hop (closed_of_receives hr hop)

/-- A worker whose first read would block. -/
theorem transient_undisturbed_again :
    ∃ d k, proxyConnEvent 3 sampleWorker = .call d (.read 3 .hdr 20) k ∧
      Undisturbed Host.fresh Host.fresh d (.read 3 .hdr 20) (.fail .eagain)
        (k (.fail .eagain)) := by
  obtain ⟨d, k, hnode⟩ : ∃ d k, proxyConnEvent 3 sampleWorker = .call d (.read 3 .hdr 20) k :=
    ⟨_, _, rfl⟩
  have hr : Rest ⟨Host.fresh, proxyConnEvent 3 sampleWorker⟩
      ⟨Host.fresh, .call d (.read 3 .hdr 20) k⟩ := by
    rw [← hnode]
    exact .refl
  refine ⟨d, k, hnode, ?_⟩
  exact (transient_undisturbed_iff (fun dir => by cases dir <;> rfl) .refl hr True.intro
    (by decide) (by decide)).2 (by decide)

/-- A worker whose first read is interrupted by a signal. -/
theorem transient_interrupted :
    ¬ ∀ w₁ d₁ codes fd w d op k r, Run (begun sampleWorker) ⟨w₁, .done d₁ codes⟩ →
      Rest ⟨w₁, proxyConnEvent fd d₁⟩ ⟨w, .call d op k⟩ → Receives op → Transient r →
      w.Can op r → Undisturbed w₁ w d op r (k r) := by
  intro hall
  obtain ⟨d, k, hnode, hclose⟩ : ∃ d k,
      proxyConnEvent 3 sampleWorker = .call d (.read 3 .hdr 20) k ∧
        (k (.fail .eintr)).waits = some (.close 3) := ⟨_, _, rfl, rfl⟩
  have hr : Rest ⟨Host.fresh, proxyConnEvent 3 sampleWorker⟩
      ⟨Host.fresh, .call d (.read 3 .hdr 20) k⟩ := by
    rw [← hnode]
    exact .refl
  have hu := hall _ _ _ 3 _ d _ k (.fail .eintr) .refl hr True.intro (by decide) (by decide)
  exact (hu.unclosed _ .refl).2 3 hclose

end Runs

end ZeroCopyProxy.Ports.ProxyTransient
