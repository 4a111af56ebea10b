import ZeroCopyProxy.Ports.ProxyByteOrder
import ZeroCopyProxy.Ports.ProxyConn
import ZeroCopyProxy.Ports.Sends
import ZeroCopyProxy.Verified.Inside
import Mathlib.Data.Fintype.EquivFin

/-!
# What a whole `proxy_conn` relays

`ProxyRelay` and its laws are about the events of a worker.  Around these
`proxy_conn` clears the records, opens two pipes, adds the source to the epoll
handle, and in its loop tests both descriptors and waits before it serves what
`epoll_wait` has reported.

In its loop `proxy_conn` is such a worker (`wp_proxyConn`), and it may be every
such worker (`goes_of_worker`).  It leaves when one of its own calls fails, and
behind that writes nothing any more.
-/

namespace ZeroCopyProxy.Ports.ProxyConnRelay

open ZeroCopyProxy.Verified.Resumption
open ZeroCopyProxy.Verified.Liberal
open ZeroCopyProxy.Verified.PrefixCode
open ZeroCopyProxy.Verified.Transitions (unconditional)
open ZeroCopyProxy.Verified.Stages
open ZeroCopyProxy.Verified.Inside
open ZeroCopyProxy.Ports.Posix
open ZeroCopyProxy.Ports.Kernel
open ZeroCopyProxy.Ports.Frame
open ZeroCopyProxy.Ports.TranscHeader
open ZeroCopyProxy.Ports.ProxyRelay
open ZeroCopyProxy.Ports.PipeSlots
open ZeroCopyProxy.Ports.ProxyCapacity (Relaying relaying_wp exists_rest relaying_of_rest)
open ZeroCopyProxy.Ports.JmpMessage
open ZeroCopyProxy.Ports.StreamFraming (Built)
open ZeroCopyProxy.Ports.ProxyByteOrder
open ZeroCopyProxy.Ports.ProxyConn
open ZeroCopyProxy.Ports.Sends

/-! ## The environment of a worker -/

/-- A call of `proxy_conn` with its answer. -/
abbrev ConnEvent : Type := ConnCall × Answer

/-- The host, and the calls answered so far. -/
structure World where
  host : Host
  log : List ConnEvent

/-- Nothing has happened. -/
def World.fresh : World := ⟨Host.fresh, []⟩

/-- The effect of an answered call. -/
def World.after (w : World) (op : ConnCall) (r : Answer) : World where
  host := match op with
    | .sys op => w.host.after op r
    | _ => w.host
  log := w.log ++ [(op, r)]

/-- The pipe in an answer of `pipe`. -/
def pipeOf (r : Answer) : Pipe := ⟨r.ready.getD 0 (-1), r.ready.getD 1 (-1)⟩

/-- The answers that are possible while these bytes arrive: a pipe is not one
of those already open. -/
def Possible (stream : Int → Bytes) (w : World) (op : ConnCall) (r : Answer) : Prop :=
  match op with
  | .sys op => w.host.Can op r ∧ Relaying Spacious stream w.host op r
  | .pipe => r.ret < 0 ∨
      ∀ e ∈ w.log, e.1 = .pipe → 0 ≤ e.2.ret → pipeOf e.2 ≠ pipeOf r
  | _ => True

instance (stream : Int → Bytes) (w : World) (op : ConnCall) (r : Answer) :
    Decidable (Possible stream w op r) :=
  match op with
  | .sys op => inferInstanceAs (Decidable (w.host.Can op r ∧ Relaying Spacious stream w.host op r))
  | .pipe => inferInstanceAs (Decidable (r.ret < 0 ∨
      ∀ e ∈ w.log, e.1 = .pipe → 0 ≤ e.2.ret → pipeOf e.2 ≠ pipeOf r))
  | .epollAdd _ | .delFd _ | .findWork _ | .delWork _ => .isTrue trivial

/-- The kernel as a function on answers. -/
def deliver (stream : Int → Bytes) (w : World) (_ : JpoolWorkData) (op : ConnCall) (r : Answer) :
    Option World :=
  if Possible stream w op r then some (w.after op r) else none

/-- A configuration of `proxy_conn`. -/
abbrev ConnConfig : Type := Config World JpoolWorkData ConnCall Answer Stage

/-- How `proxy_conn` goes on while these bytes arrive at its descriptors. -/
abbrev Goes (d : JpoolWorkData) (stream : Dir → Bytes) : ConnConfig → ConnConfig → Prop :=
  Verified.Transitions.Reach
    (stageStep (deliver fun fd => stream (d.dirOf fd)) proxyConn fun stage =>
      decide (stage ≠ .returned))
    unconditional

/-- The runs of `proxy_conn`, from its call. -/
abbrev Runs (d : JpoolWorkData) (stream : Dir → Bytes) (c : ConnConfig) : Prop :=
  Goes d stream ⟨World.fresh, .done d .setUp⟩ c

/-- A call of `proxy_conn` itself fails. -/
def Fails : ConnEvent → Prop
  | (.pipe, r) | (.epollAdd _, r) | (.sys (.getsockopt _), r) | (.sys .epollWait, r) => r.ret < 0
  | _ => False

instance (e : ConnEvent) : Decidable (Fails e) := by
  unfold Fails
  split <;> infer_instance

/-- None has failed. -/
def Sound (w : World) : Prop := ∀ e ∈ w.log, ¬ Fails e

section World

variable {stream : Int → Bytes} {w w' : World} {t : JpoolWorkData} {op : ConnCall} {r : Answer}

theorem deliver_eq (h : delivers (deliver stream) w t op r w') :
    Possible stream w op r ∧ w' = w.after op r := by
  unfold delivers deliver at h
  split at h
  · next hp => exact ⟨hp, (Option.some.inj h).symm⟩
  · cases h

theorem deliver_of_possible (h : Possible stream w op r) :
    deliver stream w t op r = some (w.after op r) := if_pos h

theorem sound_after : Sound (w.after op r) ↔ Sound w ∧ ¬ Fails (op, r) := by
  unfold Sound World.after
  rw [List.forall_mem_append, List.forall_mem_singleton]

/-- A call that writes nothing. -/
def Quiet : ConnCall → Prop
  | .sys op => sink op = none
  | _ => True

theorem quiet_written (h : Quiet op) : (w.after op r).host.written = w.host.written := by
  cases op with
  | sys op =>
      funext fd
      show (w.host.after op r).written fd = _
      rw [Host.after_written, show sink op = none from h]
      rfl
  | _ => rfl

end World

/-! ## What an event asks for -/

/-- A call of `proxy_process_data`. -/
def Transfers : SysCall → Prop
  | .getsockopt _ | .epollWait => False
  | _ => True

section Transfers

variable {W S : Type} {K : W → Transc → SysCall → Answer → W → Prop}

/-- Nothing is known of the world and the record. -/
abbrev anything (_ : W) (_ : S) : Prop := True

theorem keeps_forward (fd : Int) (pipe : Pipe) (peer : Int) :
    Keeps K (fun _ _ op => Transfers op) anything (forward fd (some pipe) peer) := by
  have hbody : Keeps K (fun _ _ op => Transfers op) anything (recvBody fd pipe) := by
    intro w t _
    simp only [recvBody, wlp_bind, wlp_state, wlp_ite, wlp_pure, wlp_prog_call, wlp_update]
    simp [Transfers]
  have hheader : ∀ m, Keeps K (fun _ _ op => Transfers op) anything (recvHeader m fd) := by
    intro m w t _
    simp only [recvHeader, wlp_bind, wlp_update, wlp_state]
    apply wlp_sysRead True.intro
    intro r w' _
    simp only [wlp_ite, wlp_pure, wlp_bind, wlp_orFault, wlp_update, wlp_state]
    simp
  have hrecv : Keeps K (fun _ _ op => Transfers op) anything
      (proxyRecvData fd (some pipe) endian) := by
    refine keeps_ite (keeps_pure _) (keeps_state_bind fun t => keeps_ite ?_ ?_)
    · apply (hheader _).bind
      intro rv
      cases rv with
      | some c => exact keeps_pure _
      | none => exact hbody
    · exact keeps_ite (keeps_pure _) hbody
  have hfirst : Keeps K (fun _ _ op => Transfers op) anything (forwardRecv fd (some pipe)) := by
    refine keeps_state_bind fun t => keeps_ite ?_ (keeps_pure _)
    refine hrecv.bind fun rv => keeps_ite ?_ (keeps_pure _)
    refine (keeps_call (fun _ _ _ => True.intro) fun _ _ _ _ h _ => h).bind fun _ => keeps_pure _
  intro w t h
  rw [wlp_forward]
  refine wlp_post (fun w' t' _ h' => ?_) (hfirst w t h)
  refine keeps_forwardRest (fun _ _ _ h _ _ => h) ?_ (fun _ _ h => h) w' t' h'
  intro w t op hop _
  refine ⟨?_, fun _ _ _ => True.intro⟩
  cases op with
  | write | spliceOut => exact True.intro
  | read | spliceIn | close | getsockopt | epollWait => exact hop.elim

end Transfers

/-- A worker between two events makes nothing but transfers. -/
theorem transfers_reach {W : Type} {k : W → SysCall → Answer → W → Prop} {d d' : WorkData}
    {w w' : W} {codes : List Int} {op : SysCall} {rest : Answer → Res WorkData SysCall Answer _}
    (hr : Reach (blind k) proxyConnEvent (fun _ => true) ⟨w, .done d codes⟩
      ⟨w', .call d' op rest⟩) : Transfers op := by
  have hevent : ∀ fd w d, wlp (blind k) (fun _ _ op => Transfers op) (fun _ _ _ => True)
      (proxyConnEvent fd d) w := by
    intro fd w d
    simp only [proxyConnEvent, proxyProcessData, wlp_bind, wlp_state, wlp_ite, wlp_pure, wlp_zoom]
    exact ⟨fun _ => keeps_forward _ _ _ w _ True.intro, fun _ =>
      ⟨fun _ => keeps_forward _ _ _ w _ True.intro, fun _ => True.intro⟩⟩
  exact (wlp_reach (fun fd w d _ _ _ => hevent fd w d) hr True.intro).1

/-! ## The worker in the loop -/

/-- The same bytes have moved, in the same pieces. -/
structure Alike (v w : Host) : Prop where
  consumed : v.consumed = w.consumed
  written : v.written = w.written
  piped : v.piped = w.piped
  transfers : ∀ pipe, transfers v pipe = transfers w pipe

theorem Alike.symm {v w : Host} (h : Alike v w) : Alike w v :=
  ⟨h.consumed.symm, h.written.symm, h.piped.symm, fun pipe => (h.transfers pipe).symm⟩

theorem Alike.trans {u v w : Host} (h : Alike u v) (h' : Alike v w) : Alike u w :=
  ⟨h.consumed.trans h'.consumed, h.written.trans h'.written, h.piped.trans h'.piped,
    fun pipe => (h.transfers pipe).trans (h'.transfers pipe)⟩

theorem Alike.after {v w : Host} (h : Alike v w) (op : SysCall) (r : Answer) :
    Alike (v.after op r) (w.after op r) := by
  have htrans : ∀ pipe, PipeSlots.transfers (v.after op r) pipe =
      PipeSlots.transfers (w.after op r) pipe := by
    intro pipe
    rw [transfers_after, transfers_after, h.transfers]
  obtain ⟨c, wr, p, l⟩ := v
  obtain ⟨c', wr', p', l'⟩ := w
  obtain ⟨rfl, rfl, rfl, -⟩ := h
  cases op <;> exact ⟨rfl, rfl, rfl, htrans⟩

/-- A test or a wait moves nothing. -/
theorem alike_check (w : Host) (op : SysCall) (r : Answer) (hop : ¬ Transfers op) :
    Alike (w.after op r) w := by
  cases op with
  | getsockopt | epollWait => exact ⟨rfl, rfl, rfl, fun pipe => transfers_after w _ r pipe⟩
  | read | write | spliceIn | spliceOut | close => exact absurd True.intro hop

/-- The same answers are possible. -/
theorem Alike.possible {stream : Int → Bytes} {v w : Host} {op : SysCall} {r : Answer}
    (h : Alike v w) (hv : v.Can op r ∧ Relaying Spacious stream v op r) :
    w.Can op r ∧ Relaying Spacious stream w op r := by
  obtain ⟨c, wr, p, l⟩ := v
  obtain ⟨c', wr', p', l'⟩ := w
  obtain ⟨rfl, rfl, rfl, htrans⟩ := h
  obtain ⟨hcan, hheaders, hroom⟩ := hv
  cases op with
  | spliceIn fd pipe n =>
      exact ⟨hcan, hheaders, spacious_law.same (w := ⟨c, wr, p, l⟩) rfl (htrans pipe).symm hroom⟩
  | _ => exact ⟨hcan, hheaders, hroom⟩

/-- The worker that serves the same descriptors with cleared records. -/
structure Becomes (d₀ : JpoolWorkData) (d : WorkData) : Prop where
  srcFd : d.srcFd = d₀.srcFd
  dstFd : d.dstFd = d₀.dstFd
  cleared : ∀ dir, d.transc dir = cleared

section Run

variable (d₀ : JpoolWorkData) (pre : Dir → List (Message .big)) (x : Dir → Bytes)

/-- What arrives in a direction. -/
abbrev streams (dir : Dir) : Bytes := join (pre dir) ++ x dir

/-- A worker at this node that has moved the same bytes. -/
def Mirrors (w : World) (n : Res WorkData SysCall Answer (List Int)) : Prop :=
  Sound w ∧ ∃ d host, Becomes d₀ d ∧ Carries d (streams pre x) ⟨host, n⟩ ∧ Alike w.host host

/-- Nothing but the messages in front is written. -/
def Front (w : World) : Prop := ∀ dir, w.host.written (d₀.peer dir) <+: join (pre dir)

/-- One of its own calls has failed, and `proxy_conn` is on its way out. -/
def Left (w : World) : Prop := ¬ Sound w ∧ Front d₀ pre w

/-- The calls `proxy_conn` makes itself as long as none has failed. -/
def Checks : ConnCall → Prop
  | .pipe | .epollAdd _ | .sys (.getsockopt _) | .sys .epollWait => True
  | _ => False

/-- What holds while `proxy_conn` waits in a call. -/
inductive During (w : World) (t : JpoolWorkData) (op : ConnCall) : Prop
  | check (hop : Checks op) (hsound : Sound w) (hfront : Front d₀ pre w)
  | event {d' : WorkData} {sys : SysCall} {rest : Answer → Res WorkData SysCall Answer (List Int)}
      (hop : op = .sys sys) (hraw : t = raw d') (hw : Mirrors d₀ pre x w (.call d' sys rest))
  | left (hop : Quiet op) (h : Left d₀ pre w)

/-- What holds between two stages. -/
def Between (w : World) (t : JpoolWorkData) : Stage → Prop
  | .setUp => w = World.fresh ∧ t = d₀
  | .loops => ∃ d' codes, t = raw d' ∧ Mirrors d₀ pre x w (.done d' codes)
  | .closes | .returned => Left d₀ pre w

end Run

/-! ## One stage -/

section Stage

variable {d₀ : JpoolWorkData} {pre : Dir → List (Message .big)} {x : Dir → Bytes} {w : World}
  {t : JpoolWorkData} {n : Res WorkData SysCall Answer (List Int)}

/-- The kernel of `proxy_conn` while the streams arrive. -/
abbrev kernel (d₀ : JpoolWorkData) (stream : Dir → Bytes) :
    World → JpoolWorkData → ConnCall → Answer → World → Prop :=
  delivers (deliver fun fd => stream (d₀.dirOf fd))

theorem Becomes.dirOf {d : WorkData} (h : Becomes d₀ d) (fd : Int) : d.dirOf fd = d₀.dirOf fd := by
  unfold WorkData.dirOf JpoolWorkData.dirOf
  rw [h.dstFd]

theorem Becomes.peer {d : WorkData} (h : Becomes d₀ d) (dir : Dir) :
    d.peer dir = d₀.peer dir := by
  cases dir with
  | ingoing => exact h.dstFd
  | outgoing => exact h.srcFd

theorem Mirrors.front (hx : ∀ dir, x dir = [] ∨ Large (x dir)) (h : Mirrors d₀ pre x w n) :
    Front d₀ pre w := by
  obtain ⟨-, d, host, hd, hr, halike⟩ := h
  intro dir
  have hle := written_front hd.cleared hx hr dir
  rwa [← halike.written, hd.peer dir] at hle

/-- A call that is no transfer leaves the worker where it is. -/
theorem Mirrors.after {op : ConnCall} {r : Answer} (h : Mirrors d₀ pre x w n)
    (hop : Checks op) (hr : ¬ Fails (op, r)) : Mirrors d₀ pre x (w.after op r) n := by
  obtain ⟨hsound, d, host, hd, hrun, halike⟩ := h
  refine ⟨sound_after.2 ⟨hsound, hr⟩, d, host, hd, hrun, ?_⟩
  cases op with
  | sys op =>
      cases op with
      | getsockopt fd => exact (alike_check w.host (.getsockopt fd) r fun h => h).trans halike
      | epollWait => exact (alike_check w.host .epollWait r fun h => h).trans halike
      | read | write | spliceIn | spliceOut | close => exact hop.elim
  | pipe | epollAdd => exact halike
  | delFd | findWork | delWork => exact hop.elim

/-- Such a call may fail: then `proxy_conn` is on its way out. -/
theorem left_of_fails {op : ConnCall} {r : Answer} (h : Front d₀ pre w) (hop : Quiet op)
    (hr : Fails (op, r)) : Left d₀ pre (w.after op r) := by
  refine ⟨fun hsound => (sound_after.1 hsound).2 hr, fun dir => ?_⟩
  rw [quiet_written hop]
  exact h dir

theorem Left.after {op : ConnCall} {r : Answer} (h : Left d₀ pre w) (hop : Quiet op) :
    Left d₀ pre (w.after op r) := by
  refine ⟨fun hsound => h.1 (sound_after.1 hsound).1, fun dir => ?_⟩
  rw [quiet_written hop]
  exact h.2 dir

variable (hx : ∀ dir, x dir = [] ∨ Large (x dir))
include hx

/-- One event of `proxy_conn` is one of the worker. -/
theorem wp_connEvent (fd : Int) {d' : WorkData} {codes : List Int}
    (h : Mirrors d₀ pre x w (.done d' codes)) :
    wp (kernel d₀ (streams pre x)) (During d₀ pre x)
      (fun w t _ => ∃ d' codes, t = raw d' ∧ Mirrors d₀ pre x w (.done d' codes))
      (connEvent fd (raw d')) w := by
  obtain ⟨hsound, d, host, hd, hrun, halike⟩ := h
  have hstart : Carries d (streams pre x) ⟨host, proxyConnEvent fd d'⟩ :=
    hrun.tail (.start fd rfl)
  rw [connEvent_raw]
  have hin := wp_inside raw ConnCall.sys (K := kernel d₀ (streams pre x))
    (fun (v : World) (w : Host) => Sound v ∧ Alike v.host w) ?_ ?_ ⟨hsound, halike⟩ hstart
  · refine wp_mono ?_ ?_ hin
    · rintro w t op ⟨host, d', sys, rest, rfl, rfl, ⟨hsound, halike⟩, hrun⟩
      exact .event rfl rfl ⟨hsound, d, host, hd, hrun, halike⟩
    · rintro w t codes ⟨host, d', rfl, ⟨hsound, halike⟩, hrun⟩
      exact ⟨d', codes, rfl, hsound, d, host, hd, hrun, halike⟩
  · rintro v v' host s op r rest hrun ⟨hsound, halike⟩ hk
    obtain ⟨hposs, rfl⟩ := deliver_eq hk
    have htransfer := transfers_reach hrun
    obtain ⟨hcan, hrel⟩ := halike.possible hposs
    refine ⟨host.after op r, ⟨hcan, ?_, rfl⟩, sound_after.2 ⟨hsound, ?_⟩, halike.after op r⟩
    · simpa only [hd.dirOf] using hrel
    · cases op with
      | getsockopt | epollWait => exact htransfer.elim
      | read | write | spliceIn | spliceOut | close => exact id
  · intro c hr
    have hwp := relaying_wp spacious_law hd.cleared (relays_completed hd.cleared hx hr)
    obtain ⟨w, n⟩ := c
    cases n with
    | done | call => rfl
    | fault => exact hwp.elim

/-- Whatever `epoll_wait` reports. -/
theorem wp_connEvents (fds : List Int) {d' : WorkData} {codes : List Int}
    (h : Mirrors d₀ pre x w (.done d' codes)) :
    wp (kernel d₀ (streams pre x)) (During d₀ pre x)
      (fun w t _ => ∃ d' codes, t = raw d' ∧ Mirrors d₀ pre x w (.done d' codes))
      (connEvents fds (raw d')) w := by
  induction fds generalizing w d' codes with
  | nil => exact ⟨d', codes, rfl, h⟩
  | cons fd fds ih =>
      unfold connEvents
      rw [wp_bind]
      refine wp_post ?_ (wp_connEvent hx fd h)
      rintro w t _ ⟨d', codes, rfl, h⟩
      exact ih h

omit hx in
theorem wp_connEnded (fd : Int) (h : Left d₀ pre w) :
    wp (kernel d₀ (streams pre x)) (During d₀ pre x) (Between d₀ pre x) (connEnded fd t) w := by
  have hafter : ∀ op, Quiet op → ∀ {w w' t r}, Left d₀ pre w →
      kernel d₀ (streams pre x) w t op r w' → Left d₀ pre w' := by
    intro op hop w w' t r h hk
    obtain ⟨-, rfl⟩ := deliver_eq hk
    exact h.after hop
  simp only [connEnded, proxyDeleteSrcInfo, wp_bind, wp_prog_call, wp_ite, wp_pure]
  refine ⟨.left True.intro h, fun r w₁ hk => ?_⟩
  have h₁ := hafter (.delFd fd) True.intro h hk
  refine ⟨fun _ => h₁, fun _ => ⟨.left True.intro h₁, fun r w₂ hk => ?_⟩⟩
  have h₂ := hafter (.findWork fd) True.intro h₁ hk
  refine ⟨fun _ => h₂, fun _ => ⟨.left True.intro h₂, fun r w₃ hk => ?_⟩⟩
  exact hafter (.delWork _) True.intro h₂ hk

/-- A test of a descriptor. -/
theorem wp_proxyCheckFd (fd : Int) {d' : WorkData} {codes : List Int}
    {Q : World → JpoolWorkData → Int → Prop} (h : Mirrors d₀ pre x w (.done d' codes))
    (hgood : ∀ w', Mirrors d₀ pre x w' (.done d' codes) → Q w' t normal)
    (hbad : ∀ w', Left d₀ pre w' → Q w' t fdErr) :
    wp (kernel d₀ (streams pre x)) (During d₀ pre x) Q (proxyCheckFd fd t) w := by
  simp only [proxyCheckFd, wp_bind, wp_prog_call, wp_ite, wp_pure]
  refine ⟨.check True.intro h.1 (h.front hx), fun r w' hk => ?_⟩
  obtain ⟨-, rfl⟩ := deliver_eq hk
  exact ⟨fun hfail => hbad _ (left_of_fails (h.front hx) rfl hfail),
    fun hok => hgood _ (h.after True.intro hok)⟩

theorem wp_connWait {d' : WorkData} {codes : List Int} (h : Mirrors d₀ pre x w (.done d' codes)) :
    wp (kernel d₀ (streams pre x)) (During d₀ pre x) (Between d₀ pre x) (connWait (raw d')) w := by
  simp only [connWait, wp_bind, wp_prog_call, wp_ite, wp_pure]
  refine ⟨.check True.intro h.1 (h.front hx), fun r w' hk => ?_⟩
  obtain ⟨-, rfl⟩ := deliver_eq hk
  refine ⟨fun hfail => left_of_fails (h.front hx) rfl hfail, fun hok => ?_⟩
  have h' : Mirrors d₀ pre x (w.after (.sys .epollWait) r) (.done d' codes) :=
    h.after True.intro hok
  exact ⟨fun _ => ⟨d', codes, rfl, h'⟩, fun _ => wp_post (fun w t _ ht => ht)
    (wp_connEvents hx r.ready h')⟩

/-- One round of the loop. -/
theorem wp_connRound {d' : WorkData} {codes : List Int}
    (h : Mirrors d₀ pre x w (.done d' codes)) :
    wp (kernel d₀ (streams pre x)) (During d₀ pre x) (Between d₀ pre x) (connRound (raw d')) w := by
  have hne : normal ≠ fdErr := by decide
  unfold connRound
  simp only [wp_bind, wp_state]
  apply wp_proxyCheckFd hx _ h
  · intro w₁ h₁
    rw [if_neg hne, wp_bind]
    apply wp_proxyCheckFd hx _ h₁
    · intro w₂ h₂
      rw [if_neg hne]
      exact wp_connWait hx h₂
    · intro w₂ h₂
      rw [if_pos rfl]
      exact wp_connEnded _ h₂
  · intro w₁ h₁
    rw [if_pos rfl]
    exact wp_connEnded _ h₁

omit hx in
/-- A call in front of the loop: nothing has moved yet. -/
theorem front_fresh (log : List ConnEvent) : Front d₀ pre ⟨Host.fresh, log⟩ :=
  fun _ => List.nil_prefix

omit hx in
/-- Opening a pipe in front of the loop. -/
theorem wp_pipeOpen {put : Pipe → JpoolWorkData → JpoolWorkData} {log : List ConnEvent}
    {Q : World → JpoolWorkData → Int → Prop} (h : Sound ⟨Host.fresh, log⟩)
    (hbad : ∀ w', Left d₀ pre w' → Q w' t (-1))
    (hgood : ∀ r, 0 ≤ r.ret →
      (∀ e ∈ log, e.1 = .pipe → 0 ≤ e.2.ret → pipeOf e.2 ≠ pipeOf r) →
      Sound ⟨Host.fresh, log ++ [(.pipe, r)]⟩ →
      Q ⟨Host.fresh, log ++ [(.pipe, r)]⟩ (put (pipeOf r) t) 0) :
    wp (kernel d₀ (streams pre x)) (During d₀ pre x) Q (pipeOpen put t) ⟨Host.fresh, log⟩ := by
  simp only [pipeOpen, wp_bind, wp_prog_call, wp_ite, wp_pure, wp_update]
  refine ⟨.check True.intro h (front_fresh log), fun r w' hk => ?_⟩
  obtain ⟨hposs, rfl⟩ := deliver_eq hk
  refine ⟨fun hfail => hbad _ (left_of_fails (front_fresh log) True.intro hfail), fun hok => ?_⟩
  have hsound : Sound (World.after ⟨Host.fresh, log⟩ .pipe r) := sound_after.2 ⟨h, hok⟩
  exact hgood r (by omega) (hposs.resolve_left hok) hsound

omit hx in
/-- From the call to the loop. -/
theorem wp_connSetUp (hsrc : 0 ≤ d₀.srcFd) (hdst : 0 ≤ d₀.dstFd) (hne : d₀.srcFd ≠ d₀.dstFd) :
    wp (kernel d₀ (streams pre x)) (During d₀ pre x)
      (fun w t stage => Between d₀ pre x w t stage ∧ stage ≠ .setUp)
      (connSetUp d₀) World.fresh := by
  have hneg : (-1 : Int) < 0 := by decide
  have hzero : ¬ (0 : Int) < 0 := by decide
  unfold connSetUp
  simp only [wp_bind, wp_update]
  apply wp_pipeOpen (List.forall_mem_nil _)
  · intro w₁ h₁
    rw [if_pos hneg]
    exact ⟨h₁, Stage.noConfusion⟩
  intro r₁ hr₁ _ hs₁
  rw [if_neg hzero, wp_bind]
  apply wp_pipeOpen hs₁
  · intro w₂ h₂
    rw [if_pos hneg]
    exact ⟨h₂, Stage.noConfusion⟩
  intro r₂ hr₂ hnew hs₂
  rw [if_neg hzero]
  simp only [wp_bind, wp_state, wp_prog_call, wp_ite, wp_pure]
  refine ⟨.check True.intro hs₂ (front_fresh _), fun r w₃ hk => ?_⟩
  obtain ⟨-, rfl⟩ := deliver_eq hk
  refine ⟨fun hfail => ⟨left_of_fails (front_fresh _) True.intro hfail, Stage.noConfusion⟩,
    fun hok => ⟨?_, Stage.noConfusion⟩⟩
  let d : WorkData := ⟨d₀.srcFd, d₀.dstFd, cleared, cleared, pipeOf r₁, pipeOf r₂, hsrc, hdst, hne,
    hnew (.pipe, r₁) (List.mem_append_right _ List.mem_cons_self) rfl hr₁⟩
  refine ⟨d, [], rfl, sound_after.2 ⟨hs₂, hok⟩, d, Host.fresh, ⟨rfl, rfl, fun dir => ?_⟩, .refl,
    ⟨rfl, rfl, rfl, fun _ => rfl⟩⟩
  cases dir <;> rfl

omit hx in
/-- Behind the loop. -/
theorem wp_connTearDown (h : Left d₀ pre w) :
    wp (kernel d₀ (streams pre x)) (During d₀ pre x) (Between d₀ pre x) (connTearDown t) w := by
  have hclose : ∀ get t w, Left d₀ pre w →
      wp (kernel d₀ (streams pre x)) (During d₀ pre x) (fun w _ _ => Left d₀ pre w)
        (pipeClose get t) w := by
    intro get t w h
    simp only [pipeClose, wp_bind, wp_state, wp_prog_call, wp_pure]
    refine ⟨.left rfl h, fun r w₁ hk => ?_⟩
    obtain ⟨-, rfl⟩ := deliver_eq hk
    have h₁ : Left d₀ pre (w.after (.sys (.close (get t).rd)) r) := h.after rfl
    refine ⟨.left rfl h₁, fun r w₂ hk => ?_⟩
    obtain ⟨-, rfl⟩ := deliver_eq hk
    exact h₁.after rfl
  unfold connTearDown
  rw [wp_bind]
  refine wp_post (fun w t _ h => ?_) (hclose _ t w h)
  rw [wp_bind]
  exact wp_post (fun _ _ _ h => h) (hclose _ t w h)

/-- Every stage of `proxy_conn`. -/
theorem wp_proxyConn (hsrc : 0 ≤ d₀.srcFd) (hdst : 0 ≤ d₀.dstFd) (hne : d₀.srcFd ≠ d₀.dstFd)
    {stage : Stage} (h : Between d₀ pre x w t stage) :
    wp (kernel d₀ (streams pre x)) (During d₀ pre x) (Between d₀ pre x) (proxyConn stage t) w := by
  cases stage with
  | setUp =>
      obtain ⟨rfl, rfl⟩ := h
      exact wp_post (fun _ _ _ h' => h'.1) (wp_connSetUp hsrc hdst hne)
  | loops =>
      obtain ⟨d', codes, rfl, h⟩ := h
      exact wp_connRound hx h
  | closes => exact wp_connTearDown h
  | returned => exact h

end Stage

/-! ## Whole runs -/

section Whole

variable {d₀ : JpoolWorkData} {pre : Dir → List (Message .big)} {x : Dir → Bytes} {w : World}
  {c c' : ConnConfig}

/-- What is left of a run begins only with what the messages in front allow. -/
theorem front_of_wp (hx : ∀ dir, x dir = [] ∨ Large (x dir))
    (h : wp (kernel d₀ (streams pre x)) (During d₀ pre x) (Between d₀ pre x) c.node c.world) :
    Front d₀ pre c.world := by
  obtain ⟨w, n⟩ := c
  cases n with
  | done t stage =>
      cases stage with
      | setUp =>
          obtain ⟨rfl, -⟩ := h
          exact front_fresh []
      | loops =>
          obtain ⟨d', codes, -, h⟩ := h
          exact h.front hx
      | closes | returned => exact h.2
  | call t op rest =>
      cases h.1 with
      | check _ _ hfront => exact hfront
      | event _ _ h => exact h.front hx
      | left _ h => exact h.2
  | fault t => exact h.elim

/-- A transfer that is due can be answered. -/
theorem exists_answer (hx : ∀ dir, x dir = [] ∨ Large (x dir)) {d d' : WorkData} {host : Host}
    {sys : SysCall} {rest : Answer → Res WorkData SysCall Answer (List Int)}
    (h : ∀ dir, d.transc dir = cleared)
    (hr : Carries d (streams pre x) ⟨host, .call d' sys rest⟩) :
    ∃ r, host.Can sys r ∧ Relaying Spacious (fun fd => streams pre x (d.dirOf fd)) host sys r := by
  obtain ⟨w, d₁, codes, hrest⟩ := exists_rest spacious_law h (relays_completed h hx hr)
  have hrun := relaying_of_rest spacious_law hrest (consumed_carried hr)
  rcases hrun.cases_head with heq | ⟨c, hstep, -⟩
  · cases heq
  · cases hstep with
    | answer hk => exact ⟨_, hk.1, hk.2.1⟩

/-- As long as nothing has failed, every call can be answered without a
failure. -/
theorem exists_sound_answer (hx : ∀ dir, x dir = [] ∨ Large (x dir)) {t : JpoolWorkData}
    {op : ConnCall} (h : During d₀ pre x w t op) (hs : Sound w) :
    ∃ r, Possible (fun fd => streams pre x (d₀.dirOf fd)) w op r ∧ ¬ Fails (op, r) := by
  have hzero : ¬ (0 : Int) < 0 := by decide
  cases h with
  | check hop =>
      cases op with
      | pipe =>
          obtain ⟨n, hn⟩ := Infinite.exists_notMem_finset
            (w.log.map fun e => (pipeOf e.2).rd).toFinset
          refine ⟨⟨0, .other 0, [], [n, n]⟩, .inr fun e he _ _ heq => hn ?_, hzero⟩
          rw [List.mem_toFinset, List.mem_map]
          exact ⟨e, he, congrArg Pipe.rd heq⟩
      | epollAdd fd => exact ⟨.count 0, True.intro, hzero⟩
      | sys sys =>
          cases sys with
          | getsockopt | epollWait =>
              exact ⟨.count 0, ⟨⟨True.intro, True.intro⟩, ⟨True.intro, True.intro⟩, True.intro,
                True.intro⟩, hzero⟩
          | read | write | spliceIn | spliceOut | close => exact hop.elim
      | delFd | findWork | delWork => exact hop.elim
  | @event d' sys rest hop _ h =>
      subst hop
      obtain ⟨-, d, host, hd, hr, halike⟩ := h
      obtain ⟨r, hcan, hrel⟩ := exists_answer hx hd.cleared hr
      have hposs := halike.symm.possible ⟨hcan, hrel⟩
      simp only [hd.dirOf] at hposs
      have htransfer := transfers_reach hr
      refine ⟨r, hposs, ?_⟩
      cases sys with
      | getsockopt | epollWait => exact htransfer.elim
      | read | write | spliceIn | spliceOut | close => exact id
  | left _ h => exact absurd hs h.1

/-- A stage in which nothing fails can end without a failure. -/
theorem exists_stage_end (hx : ∀ dir, x dir = [] ∨ Large (x dir))
    {Q : World → JpoolWorkData → Stage → Prop}
    (h : wp (kernel d₀ (streams pre x)) (During d₀ pre x) Q c.node c.world)
    (hs : Sound c.world) :
    ∃ w t stage, Goes d₀ (streams pre x) c ⟨w, .done t stage⟩ ∧ Q w t stage ∧ Sound w := by
  let K₁ : World → JpoolWorkData → ConnCall → Answer → World → Prop := fun w t op r w' =>
    kernel d₀ (streams pre x) w t op r w' ∧ ¬ Fails (op, r)
  have hgood : wp K₁ (fun w t op => During d₀ pre x w t op ∧ Sound w)
      (fun w t stage => Q w t stage ∧ Sound w) c.node c.world := by
    refine wp_invariant ?_ (wp_kernel_mono (fun _ _ _ _ _ hk => hk.1) h) hs
    rintro w t op r w' - ⟨hk, hr⟩ hs
    obtain ⟨-, rfl⟩ := deliver_eq hk
    exact sound_after.2 ⟨hs, hr⟩
  refine exists_stage_run hgood (fun _ _ _ _ _ hk => hk.1) ?_
  rintro w t op ⟨h, hs⟩
  obtain ⟨r, hposs, hr⟩ := exists_sound_answer hx h hs
  exact ⟨r, w.after op r, deliver_of_possible hposs, hr⟩

/-- A call that is answered. -/
theorem goes_answer {stream : Dir → Bytes} {t : JpoolWorkData} {op : ConnCall} {r : Answer}
    {rest : Answer → Res JpoolWorkData ConnCall Answer Stage}
    (h : Possible (fun fd => stream (d₀.dirOf fd)) w op r)
    (hr : Goes d₀ stream ⟨w.after op r, rest r⟩ c) : Goes d₀ stream ⟨w, .call t op rest⟩ c := by
  refine .head ⟨some r, True.intro, ?_⟩ hr
  exact Option.map_eq_some_iff.2 ⟨_, deliver_of_possible h, rfl⟩

/-- The loop can begin any event. -/
theorem goes_event (d₀ : JpoolWorkData) (stream : Dir → Bytes) (w : World) (d : WorkData)
    (fd : Int) :
    ∃ w', Goes d₀ stream ⟨w, .done (raw d) .loops⟩
        ⟨w', (((proxyConnEvent fd d).lift raw).hoist .sys).bind fun t _ => .done t Stage.loops⟩ ∧
      Alike w'.host w.host := by
  have hevent : ((connEvents [fd] (raw d)).bind fun t _ => .done t Stage.loops) =
      (((proxyConnEvent fd d).lift raw).hoist .sys).bind fun t _ => .done t Stage.loops := by
    show ((connEvent fd (raw d)).bind fun t _ => connEvents [] t).bind _ = _
    rw [bind_assoc, connEvent_raw]
    rfl
  have hcheck : ∀ (w : World) (sys : SysCall) (r : Answer), Checks (.sys sys) →
      Possible (fun fd => stream (d₀.dirOf fd)) w (.sys sys) r := by
    intro w sys r hsys
    cases sys with
    | getsockopt | epollWait =>
        exact ⟨⟨True.intro, True.intro⟩, ⟨True.intro, True.intro⟩, True.intro, True.intro⟩
    | read | write | spliceIn | spliceOut | close => exact hsys.elim
  have hgo : Goes d₀ stream ⟨w, .done (raw d) .loops⟩
      ⟨((w.after (.sys (.getsockopt d.srcFd)) (.count 0)).after (.sys (.getsockopt d.dstFd))
        (.count 0)).after (.sys .epollWait) ⟨1, .other 0, [], [fd]⟩,
        (connEvents [fd] (raw d)).bind fun t _ => .done t Stage.loops⟩ := by
    refine .head ⟨none, True.intro, rfl⟩ ?_
    refine goes_answer (hcheck _ (.getsockopt d.srcFd) (.count 0) True.intro) ?_
    refine goes_answer (hcheck _ (.getsockopt d.dstFd) (.count 0) True.intro) ?_
    exact goes_answer (hcheck _ .epollWait ⟨1, .other 0, [], [fd]⟩ True.intro) .refl
  rw [hevent] at hgo
  have hthree := ((alike_check w.host (.getsockopt d.srcFd) (.count 0) fun h => h).symm.trans
    (alike_check _ (.getsockopt d.dstFd) (.count 0) fun h => h).symm).trans
    (alike_check _ .epollWait ⟨1, .other 0, [], [fd]⟩ fun h => h).symm
  exact ⟨_, hgo, hthree.symm⟩

/-- `proxy_conn` in its loop can do whatever the worker can. -/
theorem goes_of_worker {d d' d'' : WorkData} {v : World} {host host' : Host}
    {codes codes' : List Int} (hd : Becomes d₀ d) {stream : Dir → Bytes}
    (halike : Alike v.host host)
    (hr : CarriesOn d stream ⟨host, .done d' codes⟩ ⟨host', .done d'' codes'⟩) :
    ∃ v', Goes d₀ stream ⟨v, .done (raw d') .loops⟩ ⟨v', .done (raw d'') .loops⟩ ∧
      Alike v'.host host' := by
  refine reach_inside raw ConnCall.sys (fun t _ => .done t Stage.loops)
    (fun (v : World) (w : Host) => Alike v.host w) ?_ ?_ hr halike
  · rintro v w w' s op r halike ⟨hcan, hrel, rfl⟩
    have hposs := halike.symm.possible ⟨hcan, hrel⟩
    simp only [hd.dirOf] at hposs
    exact ⟨_, deliver_of_possible hposs, halike.after op r⟩
  · rintro v w s a fd halike -
    obtain ⟨v', hgo, hsame⟩ := goes_event d₀ stream v s fd
    exact ⟨v', hgo, hsame.trans halike⟩

section Main

variable (hsrc : 0 ≤ d₀.srcFd) (hdst : 0 ≤ d₀.dstFd) (hne : d₀.srcFd ≠ d₀.dstFd)
  (hx : ∀ dir, x dir = [] ∨ Large (x dir))
include hsrc hdst hne hx

theorem wp_goes
    (h : wp (kernel d₀ (streams pre x)) (During d₀ pre x) (Between d₀ pre x) c.node c.world)
    (hr : Goes d₀ (streams pre x) c c') :
    wp (kernel d₀ (streams pre x)) (During d₀ pre x) (Between d₀ pre x) c'.node c'.world :=
  wp_stages (fun _ _ _ _ hb => wp_proxyConn hx hsrc hdst hne hb) hr h

theorem wp_runs (hr : Runs d₀ (streams pre x) c) :
    wp (kernel d₀ (streams pre x)) (During d₀ pre x) (Between d₀ pre x) c.node c.world :=
  wp_goes hsrc hdst hne hx (c := ⟨World.fresh, .done d₀ .setUp⟩) ⟨rfl, rfl⟩ hr

/-- Once a call has failed nothing more is written. -/
theorem goes_left
    (h : wp (kernel d₀ (streams pre x)) (During d₀ pre x) (Between d₀ pre x) c.node c.world)
    (hleft : ¬ Sound c.world) (hr : Goes d₀ (streams pre x) c c') :
    ¬ Sound c'.world ∧ c'.world.host.written = c.world.host.written := by
  induction hr with
  | refl => exact ⟨hleft, rfl⟩
  | tail hr hs ih =>
      obtain ⟨r, -, hs⟩ := hs
      have hwp := wp_goes hsrc hdst hne hx h hr
      rcases stageStep_cases hs with ⟨t, stage, hn, -, rfl⟩ | ⟨t, op, rest, r, w, hn, hw, rfl⟩
      · exact ih
      · obtain ⟨-, rfl⟩ := deliver_eq hw
        rw [hn] at hwp
        have hquiet : Quiet op := by
          cases hwp.1 with
          | check _ hsound => exact absurd hsound ih.1
          | event _ _ hm => exact absurd hm.1 ih.1
          | left hop => exact hop
        exact ⟨fun hsound => ih.1 (sound_after.1 hsound).1, (quiet_written hquiet).trans ih.2⟩

/-- Until then `proxy_conn` can always come back to its loop. -/
theorem exists_loop (hr : Runs d₀ (streams pre x) c) (hs : Sound c.world) :
    ∃ w d' codes, Goes d₀ (streams pre x) c ⟨w, .done (raw d') .loops⟩ ∧
      Mirrors d₀ pre x w (.done d' codes) := by
  obtain ⟨w, t, stage, hgo, hb, hs⟩ :=
    exists_stage_end hx (wp_runs hsrc hdst hne hx hr) hs
  cases stage with
  | setUp =>
      obtain ⟨rfl, rfl⟩ := hb
      have hsetUp : wp (kernel t (streams pre x)) (During t pre x)
          (fun w t' stage => Between t pre x w t' stage ∧ stage ≠ .setUp)
          (connSetUp t) World.fresh := wp_connSetUp hsrc hdst hne
      obtain ⟨w, t', stage, hgo', ⟨hb, hne'⟩, hs⟩ :=
        exists_stage_end (c := ⟨World.fresh, connSetUp t⟩) hx hsetUp hs
      cases stage with
      | setUp => exact absurd rfl hne'
      | loops =>
          obtain ⟨d', codes, rfl, hm⟩ := hb
          exact ⟨w, d', codes, hgo.trans (.head ⟨none, True.intro, rfl⟩ hgo'), hm⟩
      | closes | returned => exact absurd hs hb.1
  | loops =>
      obtain ⟨d', codes, rfl, hm⟩ := hb
      exact ⟨w, d', codes, hgo, hm⟩
  | closes | returned => exact absurd hs hb.1

/-- What is in front can be written exactly as long as nothing has failed. -/
theorem goes_on_iff (hfits : ∀ dir, ∀ f ∈ pre dir, f.1.length ≤ 20 + pageSize)
    (hr : Runs d₀ (streams pre x) c) (dir : Dir) :
    (∃ c', Goes d₀ (streams pre x) c c' ∧
        c'.world.host.written (d₀.peer dir) = join (pre dir)) ↔
      Sound c.world ∨ c.world.host.written (d₀.peer dir) = join (pre dir) := by
  have hwp := wp_runs hsrc hdst hne hx hr
  constructor
  · rintro ⟨c', hgo, hdone⟩
    refine or_iff_not_imp_left.2 fun hleft => ?_
    rw [← (goes_left hsrc hdst hne hx hwp hleft hgo).2]
    exact hdone
  · rintro (hs | hdone)
    · obtain ⟨w, d', codes, hgo, -, d, host, hd, hrun, halike⟩ :=
        exists_loop hsrc hdst hne hx hr hs
      obtain ⟨host', d'', codes', hrun', hdone⟩ := exists_front hd.cleared hx hrun dir (hfits dir)
        (consumed_carried hrun) (by
          rw [WorkData.dirOf_source]
          exact List.prefix_append _ _)
      obtain ⟨w', hgo', halike'⟩ := goes_of_worker hd halike hrun'
      refine ⟨_, hgo.trans hgo', ?_⟩
      rw [halike'.written, ← hd.peer dir]
      exact hdone
    · exact ⟨c, .refl, hdone⟩

end Main

/-- **What `proxy_conn` relays.**  Whatever happens in a run from its call to
its return, nothing is written but the messages in front of the first one
whose length is no multiple of 256; and these can all still be written exactly
if neither `pipe` nor `epoll_ctl`, `getsockopt` or `epoll_wait` has failed,
unless they have been. -/
theorem conn_relays_iff (hsrc : 0 ≤ d₀.srcFd) (hdst : 0 ≤ d₀.dstFd) (hne : d₀.srcFd ≠ d₀.dstFd)
    {frames : Dir → List Bytes} (hbuilt : ∀ dir, ∀ f ∈ frames dir, Built f)
    (hr : Runs d₀ (fun dir => (frames dir).flatten) c) (dir : Dir) :
    c.world.host.written (d₀.peer dir) <+: (readable (frames dir)).flatten ∧
    ((∃ c', Goes d₀ (fun dir => (frames dir).flatten) c c' ∧
        c'.world.host.written (d₀.peer dir) = (readable (frames dir)).flatten) ↔
      Sound c.world ∨
        c.world.host.written (d₀.peer dir) = (readable (frames dir)).flatten) := by
  choose pre x hstream hpre hfits hx using fun dir => exists_front_messages (hbuilt dir)
  have hall : (fun dir => (frames dir).flatten) = streams pre x := funext hstream
  rw [hall] at hr ⊢
  rw [← hpre dir]
  refine ⟨?_, goes_on_iff hsrc hdst hne hx hfits hr dir⟩
  exact front_of_wp hx (wp_runs hsrc hdst hne hx hr) dir

/-- Work data of which nothing is known but the two descriptors. -/
def sampleData : JpoolWorkData := { blank with srcFd := 3, dstFd := 4 }

/-- A part of the long text has been taken in, and it can still be written. -/
theorem conn_relays_iff_halfway :
    ∃ c, c.world.host.consumed 3 = (jmpFrame 1 (List.replicate 236 97) 1).take 120 ∧
      c.world.host.written 4 = [] ∧
      ∃ c', Goes sampleData (fun dir => (sampleFrames dir).flatten) c c' ∧
        c'.world.host.written 4 = jmpFrame 1 (List.replicate 236 97) 1 := by
  have hrun : ∃ c : ConnConfig, Runs sampleData (fun dir => (sampleFrames dir).flatten) c ∧
      c.world.host.consumed 3 = (jmpFrame 1 (List.replicate 236 97) 1).take 120 ∧
      c.world.host.written 4 = [] ∧ ∀ e ∈ c.world.log, ¬ Fails e :=
    Verified.Transitions.exists_reach_of_exec
      (stageStep (deliver fun fd => (sampleFrames (sampleData.dirOf fd)).flatten) proxyConn
        fun stage => decide (stage ≠ .returned)) unconditional
      ⟨World.fresh, .done sampleData .setUp⟩
      [none, some ⟨0, .other 0, [], [5, 6]⟩, some ⟨0, .other 0, [], [7, 8]⟩, some (.count 0), none,
        some (.count 0), some (.count 0), some ⟨1, .other 0, [], [3]⟩,
        some (.stored ((jmpFrame 1 (List.replicate 236 97) 1).take 20)),
        some (.stored (List.replicate 100 97))]
      (fun c : ConnConfig =>
        c.world.host.consumed 3 = (jmpFrame 1 (List.replicate 236 97) 1).take 120 ∧
          c.world.host.written 4 = [] ∧ ∀ e ∈ c.world.log, ¬ Fails e)
      (by decide +kernel)
  obtain ⟨c, hr, hpart, hnone, hsound⟩ := hrun
  have hsrc : 0 ≤ sampleData.srcFd := by decide
  have hlaw := conn_relays_iff hsrc (by decide) (by decide) built_frames hr .ingoing
  have hreadable : (readable (sampleFrames .ingoing)).flatten =
      jmpFrame 1 (List.replicate 236 97) 1 := readable_sample
  rw [hreadable] at hlaw
  exact ⟨c, hpart, hnone, hlaw.2.2 (.inl hsound)⟩

end Whole

end ZeroCopyProxy.Ports.ProxyConnRelay
