import ZeroCopyProxy.Ports.FdListMisses
import ZeroCopyProxy.Ports.FdListRuns
import ZeroCopyProxy.Ports.ProxyConn
import ZeroCopyProxy.Ports.Receives
import ZeroCopyProxy.Ports.Sends
import ZeroCopyProxy.Verified.Stages
import Mathlib.Data.List.Count

/-!
# What `proxy_conn` leaves behind

`proxy_conn` has acquired two pipes and is entered in two lists of the proxy
when its loop begins.  The three `return`s in front of the loop release
nothing of what has been acquired until then, the `break` behind a failed
`epoll_wait` skips `proxy_delete_src_info`, and none of them closes the
source: the only `close` of it is the one in `proxy_process_data`, behind a
receive that has ended the connection of the source itself.

The worker runs alone against a kernel that keeps the history of the calls and
the two lists.  `CleansUp` is what it should leave behind and `CleanRun` the
condition on the history under which it does.
-/

namespace ZeroCopyProxy.Ports.ProxyCleanup

open ZeroCopyProxy.Verified.Resumption
open ZeroCopyProxy.Verified.Liberal
open ZeroCopyProxy.Verified.Transitions (unconditional exists_reach_of_exec)
open ZeroCopyProxy.Verified.Stages
open ZeroCopyProxy.Ports.Posix
open ZeroCopyProxy.Ports.Kernel
open ZeroCopyProxy.Ports.TranscHeader
open ZeroCopyProxy.Ports.ProxyRelay
open ZeroCopyProxy.Ports.ProxyConn
open ZeroCopyProxy.Ports.Receives
open ZeroCopyProxy.Ports.Sends

/-! ## The kernel and the lists -/

/-- A call of a worker with its answer. -/
abbrev ConnEvent : Type := ConnCall × Answer

/-- The calls answered so far, `fd_list`, and the `src_fd`s of `work_list`. -/
structure World where
  log : List ConnEvent
  fdList : List Int
  workList : List Int

/-- The effect of an answered call. -/
def World.after (w : World) (op : ConnCall) (r : Answer) : World :=
  let w := { w with log := w.log ++ [(op, r)] }
  match op with
  | .delFd fd => { w with fdList := w.fdList.erase fd }
  | .delWork work => { w with workList := w.workList.eraseIdx work }
  | _ => w

def calls (w : World) : List ConnCall := w.log.map Prod.fst

/-- The descriptors a call has opened. -/
def openedBy : ConnEvent → List Int
  | (.pipe, r) => if r.ret < 0 then [] else r.ready
  | _ => []

/-- The pipe descriptors opened so far. -/
def opened (w : World) : List Int := w.log.flatMap openedBy

/-- The answers that are possible.  A pipe gets two numbers that are not in
use, and is not a socket; a deletion from `fd_list` returns `NORMAL` and runs
into a null pointer for a 0 that is not there; a search finds the first entry. -/
def Possible (w : World) (d : JpoolWorkData) (op : ConnCall) (r : Answer) : Prop :=
  match op with
  | .sys op => r.Fits op ∧ ∀ fd ∈ opened w, op = .getsockopt fd → r.ret < 0
  | .pipe => r.ret < 0 ∨
      (r.ready.length = 2 ∧ (opened w ++ r.ready).Nodup ∧ d.srcFd ∉ r.ready)
  | .delFd fd => r.ret = normal ∧ (fd = 0 → fd ∈ w.fdList)
  | .findWork fd => if fd ∈ w.workList then r.ret = w.workList.idxOf fd else r.ret < 0
  | .epollAdd _ | .delWork _ => True

instance (w : World) (d : JpoolWorkData) (op : ConnCall) (r : Answer) :
    Decidable (Possible w d op r) := by
  unfold Possible
  split <;> infer_instance

/-- The kernel as a function on answers. -/
def deliver (w : World) (d : JpoolWorkData) (op : ConnCall) (r : Answer) : Option World :=
  if Possible w d op r then some (w.after op r) else none

theorem deliver_eq {w w' : World} {d : JpoolWorkData} {op : ConnCall} {r : Answer}
    (h : delivers deliver w d op r w') : Possible w d op r ∧ w' = w.after op r := by
  unfold delivers deliver at h
  split at h
  · next hp => exact ⟨hp, (Option.some.inj h).symm⟩
  · cases h

abbrev ConnConfig : Type := Config World JpoolWorkData ConnCall Answer Stage

/-- A worker that begins to serve its work data. -/
def begun (d : JpoolWorkData) (fds works : List Int) : ConnConfig :=
  ⟨⟨[], fds, works⟩, .done d .setUp⟩

/-- The runs of `proxy_conn`. -/
abbrev Run (d : JpoolWorkData) (fds works : List Int) (c : ConnConfig) : Prop :=
  Verified.Transitions.Reach (stageStep deliver proxyConn fun stage => decide (stage ≠ .returned))
    unconditional (begun d fds works) c

/-- `proxy_conn` has returned. -/
def returned (c : ConnConfig) : Bool :=
  match c.node with
  | .done _ stage => stage = .returned
  | _ => false

/-! ## The law and the condition -/

/-- Every pipe descriptor is closed exactly once, the source is closed, and it
is in neither list. -/
structure CleansUp (src : Int) (w : World) : Prop where
  pipes : ∀ fd ∈ opened w, (calls w).count (.sys (.close fd)) = 1
  source : .sys (.close src) ∈ calls w
  fdList : src ∉ w.fdList
  workList : src ∉ w.workList

/-- A receive on this descriptor has found the end of the connection. -/
def EndsReceive (fd : Int) : ConnEvent → Prop
  | (.sys (.read f .hdr n), r) => f = fd ∧ BadHeader .big n r
  | (.sys (.spliceIn f _ _), r) => f = fd ∧ HangsUp r
  | _ => False

/-- One of the calls in front of the loop fails. -/
def SetUpFails : ConnEvent → Prop
  | (.pipe, r) | (.epollAdd _, r) => r.ret < 0
  | _ => False

/-- `epoll_wait` fails. -/
def WaitFails : ConnEvent → Prop
  | (.sys .epollWait, r) => r.ret < 0
  | _ => False

instance (fd : Int) (e : ConnEvent) : Decidable (EndsReceive fd e) := by
  unfold EndsReceive
  split <;> infer_instance

instance (e : ConnEvent) : Decidable (SetUpFails e) := by
  unfold SetUpFails
  split <;> infer_instance

instance (e : ConnEvent) : Decidable (WaitFails e) := by
  unfold WaitFails
  split <;> infer_instance

/-- A receive on this descriptor has ended. -/
def Ended (fd : Int) (w : World) : Prop := ∃ e ∈ w.log, EndsReceive fd e

/-- The source was in neither list, or it was in none of them twice and no
`epoll_wait` has failed. -/
def Delisted (src : Int) (fds works : List Int) (w : World) : Prop :=
  (src ∉ fds ∧ src ∉ works) ∨
    ((∀ e ∈ w.log, ¬ WaitFails e) ∧ fds.count src ≤ 1 ∧ works.count src ≤ 1)

/-- Both pipes were opened and the source was added to the epoll handle, the
connection of the source itself has come to its end, and the source was taken
off both lists. -/
structure CleanRun (src : Int) (fds works : List Int) (w : World) : Prop where
  setUp : ∀ e ∈ w.log, ¬ SetUpFails e
  ended : Ended src w
  delisted : Delisted src fds works w

instance (fd : Int) (w : World) : Decidable (Ended fd w) :=
  inferInstanceAs (Decidable (∃ e ∈ w.log, EndsReceive fd e))

instance (src : Int) (fds works : List Int) (w : World) : Decidable (Delisted src fds works w) :=
  inferInstanceAs (Decidable (_ ∨ _))

instance (src : Int) (fds works : List Int) (w : World) : Decidable (CleanRun src fds works w) :=
  decidable_of_iff
    ((∀ e ∈ w.log, ¬ SetUpFails e) ∧ Ended src w ∧ Delisted src fds works w)
    ⟨fun h => ⟨h.1, h.2.1, h.2.2⟩, fun h => ⟨h.setUp, h.ended, h.delisted⟩⟩

/-! ## What a call does to the history -/

section Histories

variable {w : World} {op : ConnCall} {sys : SysCall} {r : Answer} {fd : Int}

@[simp] theorem log_after : (w.after op r).log = w.log ++ [(op, r)] := by
  cases op <;> rfl

@[simp] theorem calls_after : calls (w.after op r) = calls w ++ [op] := by
  rw [calls, log_after, List.map_append]
  rfl

theorem opened_after : opened (w.after op r) = opened w ++ openedBy (op, r) := by
  rw [opened, log_after, List.flatMap_append, List.flatMap_singleton]
  rfl

theorem opened_other (hne : op ≠ .pipe) : opened (w.after op r) = opened w := by
  rw [opened_after]
  cases op with
  | pipe => exact absurd rfl hne
  | sys | epollAdd | delFd | findWork | delWork => exact List.append_nil _

theorem ended_after : Ended fd (w.after op r) ↔ Ended fd w ∨ EndsReceive fd (op, r) := by
  simp only [Ended, log_after, List.mem_append, List.mem_singleton, or_and_right, exists_or,
    exists_eq_left]

/-- A property of every entry of the history. -/
theorem forall_log_after {p : ConnEvent → Prop} :
    (∀ e ∈ (w.after op r).log, p e) ↔ (∀ e ∈ w.log, p e) ∧ p (op, r) := by
  rw [log_after, List.forall_mem_append, List.forall_mem_singleton]

/-- Before the loop ends a descriptor has been closed exactly if a receive on
it has ended, and no pipe descriptor has. -/
structure Balanced (ends : List Int) (w : World) : Prop where
  closed : ∀ fd, .sys (.close fd) ∈ calls w ↔ Ended fd w
  apart : ∀ fd ∈ ends, ¬ Ended fd w

/-- A receive on this descriptor has ended, and the descriptor is about to be
closed. -/
structure Owing (ends : List Int) (fd : Int) (w : World) : Prop where
  closed : ∀ f, f ≠ fd → (.sys (.close f) ∈ calls w ↔ Ended f w)
  ended : Ended fd w
  apart : ∀ f ∈ ends, ¬ Ended f w

/-- While the loop runs both pipes are open and nothing has failed but
receives and transfers. -/
structure Running (ends fds works : List Int) (w : World) : Prop where
  opened : opened w = ends
  setUp : ∀ e ∈ w.log, ¬ SetUpFails e
  waits : ∀ e ∈ w.log, ¬ WaitFails e
  fdList : w.fdList = fds
  workList : w.workList = works

variable {ends fds works : List Int}

theorem Balanced.after (h : Balanced ends w) (hclose : ∀ f, op ≠ .sys (.close f))
    (hends : ∀ f, ¬ EndsReceive f (op, r)) : Balanced ends (w.after op r) where
  closed f := by
    rw [calls_after, List.mem_append, List.mem_singleton, ended_after, ← h.closed f]
    exact or_congr_right (iff_of_false (fun heq => hclose f heq.symm) (hends f))
  apart f hf := by
    rw [ended_after, not_or]
    exact ⟨h.apart f hf, hends f⟩

/-- A receive that ends. -/
theorem Balanced.end_receive (h : Balanced ends w) (hfd : fd ∉ ends)
    (hclose : ∀ f, op ≠ .sys (.close f))
    (hends : ∀ f, EndsReceive f (op, r) ↔ f = fd) : Owing ends fd (w.after op r) where
  closed f hne := by
    rw [calls_after, List.mem_append, List.mem_singleton, ended_after, ← h.closed f, hends f]
    exact or_congr_right (iff_of_false (fun heq => hclose f heq.symm) hne)
  ended := ended_after.2 (.inr ((hends fd).2 rfl))
  apart f hf := by
    rw [ended_after, not_or, hends f]
    refine ⟨h.apart f hf, ?_⟩
    rintro rfl
    exact hfd hf

/-- The descriptor is closed. -/
theorem Owing.close (h : Owing ends fd w) : Balanced ends (w.after (.sys (.close fd)) r) where
  closed f := by
    have hnot : ¬ EndsReceive f (.sys (.close fd), r) := id
    rw [calls_after, List.mem_append, List.mem_singleton, ended_after, or_iff_left hnot]
    by_cases hf : f = fd
    · rw [hf]
      exact iff_of_true (.inr rfl) h.ended
    · rw [h.closed f hf]
      refine or_iff_left fun heq => hf ?_
      cases heq
      rfl
  apart f hf := by
    have hnot : ¬ EndsReceive f (.sys (.close fd), r) := id
    rw [ended_after, or_iff_left hnot]
    exact h.apart f hf

theorem Running.after_sys (h : Running ends fds works w) (hwait : ¬ WaitFails (.sys sys, r)) :
    Running ends fds works (w.after (.sys sys) r) where
  opened := (opened_other ConnCall.noConfusion).trans h.opened
  setUp := forall_log_after.2 ⟨h.setUp, id⟩
  waits := forall_log_after.2 ⟨h.waits, hwait⟩
  fdList := h.fdList
  workList := h.workList

end Histories

/-! ## Events -/

/-- The receiving flags of a message that is under way. -/
def Receiving (t : Transc) : Prop :=
  (t.isRecvHeader = 0 ∧ t.isRecvBody = 0) ∨ (t.isRecvHeader = 1 ∧ t.isRecvBody = 0) ∨
    (t.isRecvHeader = 1 ∧ t.isRecvBody = 1)

/-- The state of a worker in its loop, and of one of its messages. -/
structure Steady (ends fds works : List Int) (w : World) (t : Transc) : Prop where
  running : Running ends fds works w
  balanced : Balanced ends w
  receiving : Receiving t

section Events

variable {K : World → Transc → SysCall → Answer → World → Prop}
  {ends fds works : List Int} {fd peer : Int} {pipe : Pipe} {w : World} {t : Transc}

/-- Nothing is asked of the calls. -/
abbrev anyCall {S Op : Type} : World → S → Op → Prop := fun _ _ _ => True

/-- The worker behind a receive with this code. -/
structure Received (ends fds works : List Int) (fd : Int) (w : World) (t : Transc) (c : Int) :
    Prop where
  running : Running ends fds works w
  receiving : Receiving t
  owing : c ≤ zeroByte → Owing ends fd w
  balanced : ¬ c ≤ zeroByte → Balanced ends w

/-- The answer to a receive decides about its code. -/
theorem received {sys : SysCall} {r : Answer} {c : Int} {q : Prop} (hfd : fd ∉ ends)
    (h : Steady ends fds works w t) (hclose : ∀ f, sys ≠ .close f) (hwait : sys ≠ .epollWait)
    (hends : ∀ f, EndsReceive f (.sys sys, r) ↔ fd = f ∧ q) (hcode : c ≤ zeroByte ↔ q)
    {t' : Transc} (ht : Receiving t') :
    Received ends fds works fd (w.after (.sys sys) r) t' c where
  running := by
    apply h.running.after_sys
    cases sys with
    | epollWait => exact absurd rfl hwait
    | read | write | spliceIn | spliceOut | close | getsockopt => exact id
  receiving := ht
  owing hle := by
    apply h.balanced.end_receive hfd
    · rintro f heq
      cases heq
      exact hclose f rfl
    · intro f
      rw [hends f]
      exact ⟨fun hf => hf.1.symm, fun hf => ⟨hf.symm, hcode.1 hle⟩⟩
  balanced hgt := by
    apply h.balanced.after
    · rintro f heq
      cases heq
      exact hclose f rfl
    · intro f hf
      exact hgt (hcode.2 ((hends f).1 hf).2)

theorem Received.steady {c : Int} (h : Received ends fds works fd w t c)
    (hc : ¬ c ≤ zeroByte) : Steady ends fds works w t :=
  ⟨h.running, h.balanced hc, h.receiving⟩

variable (hK : ∀ w t op r w', K w t op r w' → r.Fits op ∧ w' = w.after (.sys op) r)
include hK

/-- Receiving a part of a body. -/
theorem wlp_recvBody_steady (hfd : fd ∉ ends) (hf : t.isRecvHeader = 1 ∧ t.isRecvBody = 0)
    (h : Steady ends fds works w t) :
    wlp K anyCall (Received ends fds works fd) (recvBody fd pipe t) w := by
  have hflags : t.Flags 1 0 t.isSendHeader t.isSendBody := ⟨hf.1, hf.2, rfl, rfl⟩
  apply wlp_recvBody hflags
  · exact fun _ => True.intro
  · intro n r w' c hk hle hup
    obtain ⟨-, rfl⟩ := hK _ _ _ _ _ hk
    exact received hfd h (by simp) (by simp) (fun f => Iff.rfl) (iff_of_true hle hup)
      h.receiving
  · intro n r w' t' c hk hgt hup hf'
    obtain ⟨-, rfl⟩ := hK _ _ _ _ _ hk
    apply received hfd h (by simp) (by simp) (fun f => Iff.rfl) (iff_of_false hgt hup)
    rcases hf' with hf' | hf'
    · exact .inr (.inl ⟨hf'.recvHeader, hf'.recvBody⟩)
    · exact .inr (.inr ⟨hf'.recvHeader, hf'.recvBody⟩)

/-- Receiving, in the phase the message is in. -/
theorem wlp_proxyRecvData_steady (hfd : fd ∉ ends) (h : Steady ends fds works w t) :
    wlp K anyCall (Received ends fds works fd) (proxyRecvData fd (some pipe) endian t) w := by
  have hidle : ∀ {c : Int}, ¬ c ≤ zeroByte → Received ends fds works fd w t c := fun hc =>
    ⟨h.running, h.receiving, fun hle => absurd hle hc, fun _ => h.balanced⟩
  simp only [proxyRecvData, wlp_bind, wlp_state, wlp_ite, wlp_pure]
  refine ⟨fun _ => hidle (by decide), fun _ => ⟨fun hf => ?_, fun hf => ⟨fun hu => ?_,
    fun hu => ?_⟩⟩⟩
  · have hflags : t.Flags 0 0 t.isSendHeader t.isSendBody := ⟨hf.1, hf.2, rfl, rfl⟩
    apply wlp_recvHeader decodes_big (fun w t op r w' hk => (hK w t op r w' hk).1) hflags
    · exact fun _ _ => True.intro
    · intro t₁ n r w' t' c hk hf' hcode
      obtain ⟨-, rfl⟩ := hK _ _ _ _ _ hk
      exact received hfd h (by simp) (by simp) (fun f => Iff.rfl) hcode
        (.inl ⟨hf'.recvHeader, hf'.recvBody⟩)
    · intro t₁ n r w' t' hk hf' hgood
      obtain ⟨-, rfl⟩ := hK _ _ _ _ _ hk
      have hgo : Received ends fds works fd (w.after (.sys (.read fd .hdr n)) r) t' normal :=
        received hfd h (by simp) (by simp) (fun f => Iff.rfl)
          (iff_of_false (by decide) hgood) (.inr (.inl ⟨hf'.recvHeader, hf'.recvBody⟩))
      exact wlp_recvBody_steady hK hfd ⟨hf'.recvHeader, hf'.recvBody⟩
        (hgo.steady (by decide))
  · rcases h.receiving with hr | hr | hr <;> omega
  · by_cases hb : t.isRecvHeader = 1 ∧ t.isRecvBody = 0
    · exact wlp_recvBody_steady hK hfd hb h
    · simp only [recvBody, wlp_bind, wlp_state, wlp_ite, wlp_pure]
      exact ⟨fun hc => absurd hc hb, fun _ => hidle (by decide)⟩

/-- The receive of an event closes the descriptor exactly if it has ended. -/
theorem wlp_forwardRecv_steady (hfd : fd ∉ ends) (h : Steady ends fds works w t) :
    wlp K anyCall (fun w' t' _ => Steady ends fds works w' t')
      (forwardRecv fd (some pipe) t) w := by
  simp only [forwardRecv, wlp_bind, wlp_state, wlp_ite, wlp_pure, wlp_prog_call]
  refine ⟨fun _ => ?_, fun _ => h⟩
  refine wlp_post (fun w' t' c hc => ?_) (wlp_proxyRecvData_steady hK hfd h)
  refine ⟨fun hle => ⟨True.intro, fun r w'' hk => ?_⟩, fun hgt => hc.steady hgt⟩
  obtain ⟨-, rfl⟩ := hK _ _ _ _ _ hk
  exact ⟨hc.running.after_sys id, (hc.owing hle).close, hc.receiving⟩

/-- One event. -/
theorem wlp_forward_steady (hfd : fd ∉ ends) (h : Steady ends fds works w t) :
    wlp K anyCall (fun w' t' _ => Steady ends fds works w' t')
      (forward fd (some pipe) peer t) w := by
  have hsees : SeesReceived (Steady ends fds works) := by
    intro w t t' h hrh hrb
    refine ⟨h.running, h.balanced, ?_⟩
    unfold Receiving
    rw [hrh, hrb]
    exact h.receiving
  have hsends : KeptBy K anyCall (Steady ends fds works) (SendsTo pipe peer) := by
    intro w t op hop h
    refine ⟨True.intro, fun r w' hk => ?_⟩
    obtain ⟨-, rfl⟩ := hK _ _ _ _ _ hk
    cases op with
    | write f area buf count =>
        exact ⟨h.running.after_sys id, h.balanced.after (by simp) (fun _ => id), h.receiving⟩
    | spliceOut p f count =>
        exact ⟨h.running.after_sys id, h.balanced.after (by simp) (fun _ => id), h.receiving⟩
    | read | spliceIn | close | getsockopt | epollWait => exact hop.elim
  have hclear : ∀ w t, Steady ends fds works w t → Steady ends fds works w cleared :=
    fun w t h => ⟨h.running, h.balanced, .inl ⟨rfl, rfl⟩⟩
  rw [wlp_forward]
  exact wlp_post (fun w₁ t₁ _ h₁ => keeps_forwardRest hsees hsends hclear w₁ t₁ h₁)
    (wlp_forwardRecv_steady hK hfd h)

end Events

/-! ## Stages -/

/-- The pipe descriptors of a work data, in the order in which they are opened
and closed. -/
def pipeEnds (d : JpoolWorkData) : List Int :=
  [d.pipe1.rd, d.pipe1.wr, d.pipe2.rd, d.pipe2.wr]

/-- A worker in its loop. -/
structure Looping (src : Int) (fds works : List Int) (w : World) (d : JpoolWorkData) :
    Prop where
  serves : d.srcFd = src
  nodup : (pipeEnds d).Nodup
  apart : src ∉ pipeEnds d
  running : Running (pipeEnds d) fds works w
  balanced : Balanced (pipeEnds d) w
  receiving : ∀ dir, Receiving (d.transc dir)

/-- A worker behind its loop: what is left to close are the pipes. -/
structure Leaving (src : Int) (fds works : List Int) (w : World) (d : JpoolWorkData) :
    Prop where
  nodup : (pipeEnds d).Nodup
  apart : src ∉ pipeEnds d
  opened : opened w = pipeEnds d
  setUp : ∀ e ∈ w.log, ¬ SetUpFails e
  balanced : Balanced (pipeEnds d) w
  lists : src ∉ w.fdList ∧ src ∉ w.workList ↔ Delisted src fds works w

section Stages

variable {src : Int} {fds works : List Int} {w : World} {d : JpoolWorkData}

theorem Looping.after_sys {sys : SysCall} {r : Answer} (h : Looping src fds works w d)
    (hclose : ∀ f, sys ≠ .close f) (hends : ∀ f, ¬ EndsReceive f (.sys sys, r))
    (hwait : ¬ WaitFails (.sys sys, r)) :
    Looping src fds works (w.after (.sys sys) r) d where
  serves := h.serves
  nodup := h.nodup
  apart := h.apart
  running := h.running.after_sys hwait
  balanced := by
    apply h.balanced.after _ hends
    rintro f heq
    cases heq
    exact hclose f rfl
  receiving := h.receiving

/-- An event on a descriptor that is not a pipe. -/
theorem wlp_processData_looping {fd : Int} (h : Looping src fds works w d)
    (hfd : fd ∉ pipeEnds d) :
    wlp (delivers deliver) anyCall
      (fun w' d' _ => Looping src fds works w' d' ∧ pipeEnds d' = pipeEnds d ∧
        d'.dstFd = d.dstFd) (processData fd d) w := by
  have hends : ∀ t, pipeEnds (d.setTransc (d.dirOf fd) t) = pipeEnds d := by
    intro t
    cases d.dirOf fd <;> rfl
  have hdst : ∀ t, (d.setTransc (d.dirOf fd) t).dstFd = d.dstFd := by
    intro t
    cases d.dirOf fd <;> rfl
  have hrecv : ∀ t, Receiving t → ∀ dir, Receiving ((d.setTransc (d.dirOf fd) t).transc dir) := by
    intro t ht dir
    cases d.dirOf fd <;> cases dir
    · exact ht
    · exact h.receiving .outgoing
    · exact h.receiving .ingoing
    · exact ht
  unfold processData
  rw [wlp_zoom, wlp_hoist]
  have hsteady : Steady (pipeEnds d) fds works w (d.transc (d.dirOf fd)) :=
    ⟨h.running, h.balanced, h.receiving _⟩
  refine wlp_post (fun w' t' _ h' => ?_) (wlp_forward_steady ?_ hfd hsteady)
  · refine ⟨?_, hends t', hdst t'⟩
    constructor
    · exact (d.srcFd_setTransc _ t').trans h.serves
    · rw [hends]
      exact h.nodup
    · rw [hends]
      exact h.apart
    · rw [hends]
      exact h'.running
    · rw [hends]
      exact h'.balanced
    · exact hrecv t' h'.receiving
  · intro w t op r w' hk
    obtain ⟨hp, rfl⟩ := deliver_eq hk
    exact ⟨hp.1, rfl⟩

/-- The events of one round; the check of the destination has shown that it is
not a pipe. -/
theorem wlp_connEvents_looping (fs : List Int) (h : Looping src fds works w d)
    (hdst : d.dstFd ∉ pipeEnds d) :
    wlp (delivers deliver) anyCall (fun w' d' _ => Looping src fds works w' d')
      (connEvents fs d) w := by
  induction fs generalizing d w with
  | nil => exact h
  | cons fd fs ih =>
      have hevent : wlp (delivers deliver) anyCall
          (fun w' d' _ => Looping src fds works w' d' ∧ pipeEnds d' = pipeEnds d ∧
            d'.dstFd = d.dstFd) (connEvent fd d) w := by
        unfold connEvent
        simp only [wlp_bind, wlp_state, wlp_ite, wlp_pure]
        refine ⟨fun _ => wlp_processData_looping h ?_, fun _ =>
          ⟨fun _ => wlp_processData_looping h hdst, fun _ => ⟨h, True.intro, True.intro⟩⟩⟩
        rw [h.serves]
        exact h.apart
      unfold connEvents
      rw [wlp_bind]
      refine wlp_post (fun w' d' _ h' => ?_) hevent
      obtain ⟨hloop, hends, hdst'⟩ := h'
      apply ih hloop
      rw [hends, hdst']
      exact hdst

/-- How a round ends. -/
def Rounded (src : Int) (fds works : List Int) (w : World) (d : JpoolWorkData)
    (stage : Stage) : Prop :=
  (stage = .loops ∧ Looping src fds works w d) ∨ (stage = .closes ∧ Leaving src fds works w d)

/-- A loop left with the lists as they were. -/
theorem leaving_waitFails {r : Answer} (h : Looping src fds works w d) (hneg : r.ret < 0) :
    Leaving src fds works (w.after (.sys .epollWait) r) d where
  nodup := h.nodup
  apart := h.apart
  opened := (opened_other ConnCall.noConfusion).trans h.running.opened
  setUp := forall_log_after.2 ⟨h.running.setUp, id⟩
  balanced := h.balanced.after (by simp) (fun _ => id)
  lists := by
    have hlists : src ∉ (w.after (.sys .epollWait) r).fdList ∧
        src ∉ (w.after (.sys .epollWait) r).workList ↔ src ∉ fds ∧ src ∉ works := by
      rw [← h.running.fdList, ← h.running.workList]
      exact Iff.rfl
    rw [hlists, Delisted]
    refine (or_iff_left fun hw => ?_).symm
    exact (forall_log_after.1 hw.1).2 hneg

theorem notMem_erase_iff {l : List Int} {a : Int} : a ∉ l.erase a ↔ l.count a ≤ 1 := by
  rw [← List.count_eq_zero, List.count_erase_self]
  omega

/-- A call on the lists. -/
def OnLists : ConnCall → Prop
  | .delFd _ | .findWork _ | .delWork _ => True
  | _ => False

/-- What the calls on the lists keep. -/
structure Kept (ends : List Int) (w : World) : Prop where
  opened : opened w = ends
  setUp : ∀ e ∈ w.log, ¬ SetUpFails e
  waits : ∀ e ∈ w.log, ¬ WaitFails e
  balanced : Balanced ends w

theorem Kept.after {ends : List Int} {op : ConnCall} {r : Answer} (h : Kept ends w)
    (hop : OnLists op) : Kept ends (w.after op r) := by
  have hpipe : op ≠ .pipe := by
    rintro rfl
    exact hop
  have hclose : ∀ f, op ≠ .sys (.close f) := by
    rintro f rfl
    exact hop
  have hends : ∀ f, ¬ EndsReceive f (op, r) := by
    intro f
    cases op with
    | delFd | findWork | delWork => exact id
    | sys | pipe | epollAdd => exact hop.elim
  have hfails : ¬ SetUpFails (op, r) ∧ ¬ WaitFails (op, r) := by
    cases op with
    | delFd | findWork | delWork => exact ⟨id, id⟩
    | sys | pipe | epollAdd => exact hop.elim
  exact ⟨(opened_other hpipe).trans h.opened, forall_log_after.2 ⟨h.setUp, hfails.1⟩,
    forall_log_after.2 ⟨h.waits, hfails.2⟩, h.balanced.after hclose hends⟩

/-- A loop left with the source taken off the lists. -/
theorem leaving_deleted (hnodup : (pipeEnds d).Nodup) (hapart : src ∉ pipeEnds d)
    (hk : Kept (pipeEnds d) w) (hfds : w.fdList = fds.erase src)
    (hworks : w.workList = works.erase src) : Leaving src fds works w d where
  nodup := hnodup
  apart := hapart
  opened := hk.opened
  setUp := hk.setUp
  balanced := hk.balanced
  lists := by
    rw [hfds, hworks, notMem_erase_iff, notMem_erase_iff]
    constructor
    · exact fun hcount => .inr ⟨hk.waits, hcount⟩
    · rintro (⟨hf, hw⟩ | ⟨-, hcount⟩)
      · rw [← List.count_eq_zero] at hf hw
        omega
      · exact hcount

/-- The deletions behind a failed check. -/
theorem wlp_connEnded_looping (h : Looping src fds works w d) :
    wlp (delivers deliver) anyCall (Rounded src fds works) (connEnded d.srcFd d) w := by
  have hkept : Kept (pipeEnds d) w :=
    ⟨h.running.opened, h.running.setUp, h.running.waits, h.balanced⟩
  have hleaves : ∀ {w' : World}, Kept (pipeEnds d) w' → w'.fdList = fds.erase src →
      w'.workList = works.erase src → Rounded src fds works w' d .closes :=
    fun hk hf hw => .inr ⟨rfl, leaving_deleted h.nodup h.apart hk hf hw⟩
  rw [h.serves]
  simp only [connEnded, proxyDeleteSrcInfo, wlp_bind, wlp_prog_call, wlp_ite, wlp_pure]
  refine ⟨True.intro, fun r₁ w₁ hk₁ => ?_⟩
  obtain ⟨⟨hnormal, -⟩, rfl⟩ := deliver_eq hk₁
  refine ⟨fun hneg => absurd hneg (by rw [hnormal]; decide), fun _ => ⟨True.intro,
    fun r₂ w₂ hk₂ => ?_⟩⟩
  obtain ⟨hfound, rfl⟩ := deliver_eq hk₂
  have hkept₁ : Kept (pipeEnds d) (w.after (.delFd src) r₁) := hkept.after True.intro
  have hkept₂ : Kept (pipeEnds d) ((w.after (.delFd src) r₁).after (.findWork src) r₂) :=
    hkept₁.after True.intro
  have hfds : (w.fdList.erase src) = fds.erase src := by rw [h.running.fdList]
  have hworks : w.workList = works := h.running.workList
  have hanswer : if src ∈ works then r₂.ret = works.idxOf src else r₂.ret < 0 := by
    rw [← hworks]
    exact hfound
  refine ⟨fun hneg => ?_, fun hret => ⟨True.intro, fun r₃ w₃ hk₃ => ?_⟩⟩
  · have hsrc : src ∉ works := by
      intro hmem
      rw [if_pos hmem] at hanswer
      omega
    refine hleaves hkept₂ hfds ?_
    rw [List.erase_of_not_mem hsrc]
    exact hworks
  · obtain ⟨-, rfl⟩ := deliver_eq hk₃
    have hsrc : src ∈ works := by
      by_contra hmem
      rw [if_neg hmem] at hanswer
      exact hret hanswer
    rw [if_pos hsrc] at hanswer
    refine hleaves (hkept₂.after True.intro) hfds ?_
    show w.workList.eraseIdx r₂.ret.toNat = works.erase src
    rw [hworks, hanswer, Int.toNat_natCast]
    exact List.eraseIdx_idxOf_eq_erase src works

/-- A check that shows its descriptor to be a socket, and one that fails. -/
theorem wlp_check {Q : World → JpoolWorkData → Int → Prop} {fd : Int}
    (h : Looping src fds works w d)
    (hfails : ∀ w', Looping src fds works w' d → Q w' d fdErr)
    (hgoes : ∀ w', Looping src fds works w' d → fd ∉ pipeEnds d → Q w' d normal) :
    wlp (delivers deliver) anyCall Q (proxyCheckFd fd d) w := by
  simp only [proxyCheckFd, wlp_bind, wlp_prog_call, wlp_ite, wlp_pure]
  refine ⟨True.intro, fun r w' hk => ?_⟩
  obtain ⟨⟨-, hsocket⟩, rfl⟩ := deliver_eq hk
  have h' : Looping src fds works (w.after (.sys (.getsockopt fd)) r) d :=
    h.after_sys (by simp) (fun _ => id) id
  refine ⟨fun _ => hfails _ h', fun hpos => hgoes _ h' fun hmem => hpos ?_⟩
  rw [← h.running.opened] at hmem
  exact hsocket fd hmem rfl

/-- One round of the loop. -/
theorem wlp_connRound_looping (h : Looping src fds works w d) :
    wlp (delivers deliver) anyCall (Rounded src fds works) (connRound d) w := by
  have hfd : ¬ normal = fdErr := by decide
  unfold connRound
  simp only [wlp_bind, wlp_state]
  apply wlp_check h
  · intro w₁ h₁
    rw [if_pos rfl]
    exact wlp_connEnded_looping h₁
  intro w₁ h₁ _
  rw [if_neg hfd, wlp_bind]
  apply wlp_check h₁
  · intro w₂ h₂
    rw [if_pos rfl]
    exact wlp_connEnded_looping h₂
  intro w₂ h₂ hdst
  rw [if_neg hfd]
  simp only [connWait, wlp_bind, wlp_prog_call, wlp_ite, wlp_pure]
  refine ⟨True.intro, fun r w₃ hk => ?_⟩
  obtain ⟨-, rfl⟩ := deliver_eq hk
  refine ⟨fun hneg => .inr ⟨rfl, leaving_waitFails h₂ hneg⟩, fun hpos => ?_⟩
  have h₃ : Looping src fds works (w₂.after (.sys .epollWait) r) d :=
    h₂.after_sys (by simp) (fun _ => id) hpos
  refine ⟨fun _ => .inl ⟨rfl, h₃⟩, fun _ => ?_⟩
  exact wlp_post (fun w' d' _ h' => .inl ⟨rfl, h'⟩) (wlp_connEvents_looping r.ready h₃ hdst)

/-- The law and the condition agree on what has happened. -/
def Settled (src : Int) (fds works : List Int) (w : World) : Prop :=
  CleansUp src w ↔ CleanRun src fds works w

/-- A `return` in front of the loop leaves the source open. -/
theorem settled_failed (hfails : ∃ e ∈ w.log, SetUpFails e)
    (hclose : .sys (.close src) ∉ calls w) : Settled src fds works w := by
  obtain ⟨e, he, hfail⟩ := hfails
  exact iff_of_false (fun h => hclose h.source) fun h => h.setUp e he hfail

/-- Calls that close something open nothing, end no receive and are not among
those whose failure counts. -/
theorem silent_of_closes {es : List ConnEvent} {ends : List Int}
    (hes : es.map Prod.fst = ends.map fun fd => .sys (.close fd)) :
    ∀ e ∈ es, openedBy e = [] ∧ ¬ EndsReceive src e ∧ ¬ SetUpFails e ∧ ¬ WaitFails e := by
  rintro ⟨op, r⟩ he
  have hmem : op ∈ es.map Prod.fst := List.mem_map_of_mem he
  rw [hes] at hmem
  obtain ⟨fd, -, rfl⟩ := List.mem_map.1 hmem
  exact ⟨rfl, id, id, id⟩

theorem opened_append {w' : World} {es : List ConnEvent} (hlog : w'.log = w.log ++ es)
    (h : ∀ e ∈ es, openedBy e = []) : opened w' = opened w := by
  rw [opened, opened, hlog, List.flatMap_append, List.flatMap_eq_nil_iff.2 h,
    List.append_nil]

theorem ended_append {w' : World} {es : List ConnEvent} (hlog : w'.log = w.log ++ es)
    (h : ∀ e ∈ es, ¬ EndsReceive src e) : Ended src w' ↔ Ended src w := by
  have hno : ¬ ∃ e ∈ es, EndsReceive src e := fun ⟨e, he, hends⟩ => h e he hends
  simp only [Ended, hlog, List.mem_append, or_and_right, exists_or, or_iff_left hno]

/-- Different descriptors are closed once each. -/
theorem count_closes {ends : List Int} (h : ends.Nodup) {fd : Int} (hfd : fd ∈ ends) :
    (ends.map fun fd => ConnCall.sys (.close fd)).count (.sys (.close fd)) = 1 := by
  have hinj : Function.Injective fun fd : Int => ConnCall.sys (.close fd) := by
    intro a b hab
    cases hab
    rfl
  rw [List.count_map_of_injective _ _ hinj, h.count, if_pos hfd]

/-- The four calls of `close` behind the loop. -/
theorem settled_closed {w' : World} {es : List ConnEvent} (h : Leaving src fds works w d)
    (hlog : w'.log = w.log ++ es)
    (hes : es.map Prod.fst = (pipeEnds d).map fun fd => .sys (.close fd))
    (hfds : w'.fdList = w.fdList) (hworks : w'.workList = w.workList) :
    Settled src fds works w' := by
  have hnone : ∀ e ∈ es, openedBy e = [] ∧ ¬ EndsReceive src e ∧ ¬ SetUpFails e ∧
      ¬ WaitFails e := silent_of_closes hes
  have hopened : opened w' = pipeEnds d :=
    (opened_append hlog fun e he => (hnone e he).1).trans h.opened
  have hcalls : calls w' = calls w ++ (pipeEnds d).map fun fd => .sys (.close fd) := by
    rw [calls, hlog, List.map_append, hes]
    rfl
  have hended : Ended src w' ↔ Ended src w := ended_append hlog fun e he => (hnone e he).2.1
  have hset : ∀ e ∈ w'.log, ¬ SetUpFails e := by
    rw [hlog, List.forall_mem_append]
    exact ⟨h.setUp, fun e he => (hnone e he).2.2.1⟩
  have hwaits : (∀ e ∈ w'.log, ¬ WaitFails e) ↔ ∀ e ∈ w.log, ¬ WaitFails e := by
    rw [hlog, List.forall_mem_append]
    exact and_iff_left fun e he => (hnone e he).2.2.2
  have hlists : src ∉ w'.fdList ∧ src ∉ w'.workList ↔ Delisted src fds works w' := by
    rw [hfds, hworks, h.lists, Delisted, Delisted, hwaits]
  have hpipes : ∀ fd ∈ opened w', (calls w').count (.sys (.close fd)) = 1 := by
    intro fd hfd
    rw [hopened] at hfd
    have hbefore : .sys (.close fd) ∉ calls w := by
      rw [h.balanced.closed fd]
      exact h.balanced.apart fd hfd
    rw [hcalls, List.count_append, List.count_eq_zero.2 hbefore, count_closes h.nodup hfd]
  have hsource : .sys (.close src) ∈ calls w' ↔ Ended src w' := by
    rw [hcalls, hended, ← h.balanced.closed src, List.mem_append, List.mem_map]
    refine or_iff_left ?_
    rintro ⟨fd, hfd, heq⟩
    cases heq
    exact h.apart hfd
  constructor
  · intro hclean
    exact ⟨hset, hsource.1 hclean.source, hlists.1 ⟨hclean.fdList, hclean.workList⟩⟩
  · intro hrun
    obtain ⟨hf, hw⟩ := hlists.2 hrun.delisted
    exact ⟨hpipes, hsource.2 hrun.ended, hf, hw⟩

/-- Behind the loop. -/
theorem wlp_connTearDown_leaving (h : Leaving src fds works w d) :
    wlp (delivers deliver) anyCall
      (fun w' _ stage => stage = .returned ∧ Settled src fds works w') (connTearDown d) w := by
  simp only [connTearDown, pipeClose, wlp_bind, wlp_state, wlp_prog_call, wlp_pure]
  refine ⟨True.intro, fun r₁ w₁ hk₁ => ⟨True.intro, fun r₂ w₂ hk₂ => ⟨True.intro,
    fun r₃ w₃ hk₃ => ⟨True.intro, fun r₄ w₄ hk₄ => ?_⟩⟩⟩⟩
  obtain ⟨-, rfl⟩ := deliver_eq hk₁
  obtain ⟨-, rfl⟩ := deliver_eq hk₂
  obtain ⟨-, rfl⟩ := deliver_eq hk₃
  obtain ⟨-, rfl⟩ := deliver_eq hk₄
  refine ⟨True.intro, settled_closed h (?_ : _ = w.log ++
    [(.sys (.close d.pipe1.rd), r₁), (.sys (.close d.pipe1.wr), r₂),
      (.sys (.close d.pipe2.rd), r₃), (.sys (.close d.pipe2.wr), r₄)]) rfl rfl rfl⟩
  simp only [log_after, List.append_assoc]
  rfl

end Stages

/-! ## Setting up -/

/-- A call in front of the loop. -/
def SetsUp : ConnCall → Prop
  | .pipe | .epollAdd _ => True
  | _ => False

/-- In front of the loop nothing is closed and nothing received. -/
structure Starting (fds works : List Int) (w : World) : Prop where
  balanced : ∀ ends, Balanced ends w
  unclosed : ∀ fd, .sys (.close fd) ∉ calls w
  waits : ∀ e ∈ w.log, ¬ WaitFails e
  fdList : w.fdList = fds
  workList : w.workList = works

section SetUp

variable {src : Int} {fds works : List Int} {w : World} {d : JpoolWorkData}

theorem starting_nil : Starting fds works ⟨[], fds, works⟩ where
  balanced ends := by
    have hnone : ∀ fd, ¬ Ended fd ⟨[], fds, works⟩ := by
      rintro fd ⟨e, he, -⟩
      exact List.not_mem_nil he
    exact ⟨fun fd => iff_of_false List.not_mem_nil (hnone fd), fun fd _ => hnone fd⟩
  unclosed _ := List.not_mem_nil
  waits := List.forall_mem_nil _
  fdList := rfl
  workList := rfl

theorem Starting.after {op : ConnCall} {r : Answer} (h : Starting fds works w)
    (hop : SetsUp op) : Starting fds works (w.after op r) := by
  have hclose : ∀ f, op ≠ .sys (.close f) := by
    rintro f rfl
    exact hop
  have hends : ∀ f, ¬ EndsReceive f (op, r) := by
    intro f
    cases op with
    | pipe | epollAdd => exact id
    | sys | delFd | findWork | delWork => exact hop.elim
  have hwait : ¬ WaitFails (op, r) := by
    cases op with
    | pipe | epollAdd => exact id
    | sys | delFd | findWork | delWork => exact hop.elim
  have hlists : (w.after op r).fdList = w.fdList ∧ (w.after op r).workList = w.workList := by
    cases op with
    | pipe | epollAdd => exact ⟨rfl, rfl⟩
    | sys | delFd | findWork | delWork => exact hop.elim
  constructor
  · exact fun ends => (h.balanced ends).after hclose hends
  · intro fd
    rw [calls_after, List.mem_append, List.mem_singleton, not_or]
    exact ⟨h.unclosed fd, fun heq => hclose fd heq.symm⟩
  · exact forall_log_after.2 ⟨h.waits, hwait⟩
  · exact hlists.1.trans h.fdList
  · exact hlists.2.trans h.workList

/-- A failed call in front of the loop. -/
theorem Starting.failed {op : ConnCall} {r : Answer} (h : Starting fds works w)
    (hop : SetsUp op) (hfails : SetUpFails (op, r)) :
    Settled src fds works (w.after op r) := by
  have hlast : (op, r) ∈ (w.after op r).log := by
    rw [log_after]
    exact List.mem_append_right _ (List.mem_singleton.2 rfl)
  exact settled_failed ⟨_, hlast, hfails⟩ ((h.after hop).unclosed src)

/-- Two descriptors, or an error. -/
theorem wlp_pipeOpen_opened {put : Pipe → JpoolWorkData → JpoolWorkData}
    {Q : World → JpoolWorkData → Int → Prop} (hfail : ∀ r, r.ret < 0 → Q (w.after .pipe r) d (-1))
    (hopen : ∀ r a b, ¬ r.ret < 0 → opened (w.after .pipe r) = opened w ++ [a, b] →
      (opened w ++ [a, b]).Nodup → d.srcFd ∉ [a, b] → Q (w.after .pipe r) (put ⟨a, b⟩ d) 0) :
    wlp (delivers deliver) anyCall Q (pipeOpen put d) w := by
  simp only [pipeOpen, wlp_bind, wlp_prog_call, wlp_ite, wlp_pure, wlp_update]
  refine ⟨True.intro, fun r w' hk => ?_⟩
  obtain ⟨hp, rfl⟩ := deliver_eq hk
  refine ⟨hfail r, fun hpos => ?_⟩
  rcases hp with hneg | ⟨hlen, hnodup, hsrc⟩
  · exact absurd hneg hpos
  · obtain ⟨a, b, hready⟩ := List.length_eq_two.1 hlen
    rw [hready] at hnodup hsrc ⊢
    apply hopen r a b hpos _ hnodup hsrc
    rw [opened_after, openedBy, if_neg hpos, hready]

theorem wlp_connSetUp_starting (h : Starting fds works w) (hlog : w.log = [])
    (hsrc : d.srcFd = src) :
    wlp (delivers deliver) anyCall
      (fun w' d' stage => (stage = .returned ∧ Settled src fds works w') ∨
        (stage = .loops ∧ Looping src fds works w' d')) (connSetUp d) w := by
  have hneg : (-1 : Int) < 0 := by decide
  have hzero : ¬ (0 : Int) < 0 := by decide
  have hnone : opened w = [] := by rw [opened, hlog, List.flatMap_nil]
  have hfine : ∀ e ∈ w.log, ¬ SetUpFails e := by
    rw [hlog]
    exact List.forall_mem_nil _
  simp only [connSetUp, wlp_bind, wlp_update, transcClearData_eq]
  apply wlp_pipeOpen_opened
  · intro r hr
    rw [if_pos hneg]
    exact .inl ⟨rfl, h.failed True.intro hr⟩
  intro r₁ a₁ b₁ hr₁ ho₁ _ hs₁
  rw [hnone, List.nil_append] at ho₁
  have h₁ : Starting fds works (w.after .pipe r₁) := h.after True.intro
  rw [if_neg hzero, wlp_bind]
  apply wlp_pipeOpen_opened
  · intro r hr
    rw [if_pos hneg]
    exact .inl ⟨rfl, h₁.failed True.intro hr⟩
  intro r₂ a₂ b₂ hr₂ ho₂ hnodup hs₂
  rw [ho₁] at ho₂ hnodup
  have h₂ : Starting fds works ((w.after .pipe r₁).after .pipe r₂) := h₁.after True.intro
  rw [if_neg hzero]
  simp only [wlp_bind, wlp_state, wlp_prog_call, wlp_ite, wlp_pure]
  refine ⟨True.intro, fun r₃ w₃ hk => ?_⟩
  obtain ⟨-, rfl⟩ := deliver_eq hk
  refine ⟨fun hr => .inl ⟨True.intro, h₂.failed True.intro hr⟩, fun hr₃ =>
    .inr ⟨True.intro, ?_⟩⟩
  have h₃ : Starting fds works
      (((w.after .pipe r₁).after .pipe r₂).after (.epollAdd d.srcFd) r₃) := h₂.after True.intro
  constructor
  · exact hsrc
  · exact hnodup
  · have hapart : d.srcFd ∉ [a₁, b₁] ++ [a₂, b₂] := by
      rw [List.mem_append, not_or]
      exact ⟨hs₁, hs₂⟩
    rw [← hsrc]
    exact hapart
  · constructor
    · exact (opened_other ConnCall.noConfusion).trans ho₂
    · exact forall_log_after.2 ⟨forall_log_after.2 ⟨forall_log_after.2 ⟨hfine, hr₁⟩, hr₂⟩, hr₃⟩
    · exact h₃.waits
    · exact h₃.fdList
    · exact h₃.workList
  · exact h₃.balanced _
  · intro dir
    cases dir <;> exact .inl ⟨rfl, rfl⟩

end SetUp

/-! ## The answers are those of the lists -/

section Lists

open ZeroCopyProxy.Verified.LinkedHeap
open ZeroCopyProxy.Verified.HeapRun
open ZeroCopyProxy.Verified.DoubleList

/-- A deletion from `fd_list` takes the first entry off, if there is one. -/
theorem dlistInt_erases {s : FdList.Store} {ns : List (Addr × Int)} (h : FdList.Holds s ns)
    (fd : Int) (hzero : fd = 0 → fd ∈ ns.map Prod.snd) :
    ∃ (s' : FdList.Store) (ns' : List (Addr × Int)),
      FdList.dlistIntDelNodeByData fd s = .ok (normal, s') ∧
        Ring s'.nodes.cells (s'.list.head, 0) ns' (s'.list.tail, 0) ∧
        ns'.map Prod.snd = (ns.map Prod.snd).erase fd := by
  by_cases hmem : fd ∈ ns.map Prod.snd
  · have hlegal : (FdListRuns.Op.delNodeByData fd).Legal (s, ns) := hmem
    obtain ⟨s', hrun, hs'⟩ := FdListRuns.run_ok h hlegal
    refine ⟨s', _, hrun, hs'.ring, ?_⟩
    rw [FdListRuns.Op.apply, List.erase_eq_eraseP', List.eraseP_map]
    rfl
  · have htail : FdList.hasData fd (some s.list.tail) s = .ok (false, s) := by
      rw [FdListMisses.hasData_tail h fd, decide_eq_false fun heq => hmem (hzero heq.symm)]
    refine ⟨_, ns, FdListMisses.delNode_miss h (FdListMisses.hasData_absent h hmem) htail,
      h.ring, ?_⟩
    rw [List.erase_of_not_mem hmem]

/-- A 0 that is not in `fd_list` is looked for in the sentinel. -/
theorem dlistInt_null {s : FdList.Store} {ns : List (Addr × Int)} (h : FdList.Holds s ns)
    (hzero : 0 ∉ ns.map Prod.snd) : FdList.dlistIntDelNodeByData 0 s = .error .null :=
  FdListMisses.delNode_tail h (FdListMisses.hasData_absent h hzero)
    (FdListMisses.hasData_tail h 0)

/-- A search in `work_list` finds the first entry with this `src_fd`. -/
theorem dlistPtr_finds {s : WorkList.Store} {es : List WorkList.Entry} {key : Addr}
    {w : JpoolWorkData} (h : WorkList.Holds s es) (hw : s.records.cells.get key = some w) :
    WorkList.dlistPtrFindNodeDataByData (some key) s =
      .ok (es[(es.map fun e => e.work.srcFd).idxOf w.srcFd]?.map WorkList.Entry.record, s) := by
  rw [WorkList.findNodeDataByData_ok h hw, List.find?_eq_getElem?_findIdx, List.idxOf,
    List.findIdx_map]
  congr 5
  funext e
  exact decide_eq_decide.2 eq_comm

end Lists

/-! ## Runs -/

section Runs

variable {src : Int} {fds works : List Int} {w : World} {d : JpoolWorkData}

/-- What holds where a stage ends and the next one begins. -/
def Between (src : Int) (fds works : List Int) (w : World) (d : JpoolWorkData) : Stage → Prop
  | .setUp => Starting fds works w ∧ w.log = [] ∧ d.srcFd = src
  | .loops => Looping src fds works w d
  | .closes => Leaving src fds works w d
  | .returned => Settled src fds works w

theorem wlp_proxyConn_between (stage : Stage) (h : Between src fds works w d stage) :
    wlp (delivers deliver) anyCall (Between src fds works) (proxyConn stage d) w := by
  cases stage with
  | setUp =>
      obtain ⟨hstart, hlog, hsrc⟩ := h
      refine wlp_post (fun w' d' stage h' => ?_) (wlp_connSetUp_starting hstart hlog hsrc)
      rcases h' with ⟨rfl, h'⟩ | ⟨rfl, h'⟩
      · exact h'
      · exact h'
  | loops =>
      refine wlp_post (fun w' d' stage h' => ?_) (wlp_connRound_looping h)
      rcases h' with ⟨rfl, h'⟩ | ⟨rfl, h'⟩
      · exact h'
      · exact h'
  | closes =>
      refine wlp_post (fun w' d' stage h' => ?_) (wlp_connTearDown_leaving h)
      obtain ⟨rfl, h'⟩ := h'
      exact h'
  | returned => exact h

/-- **When `proxy_conn` cleans up.**  A worker that has returned has closed
what it opened and its source, and taken the source off both lists, exactly if
none of the calls in front of its loop failed, the connection of the source
itself ended, and no failed `epoll_wait` and no second entry kept the source
on a list. -/
theorem proxyConn_cleans_iff (d : JpoolWorkData) (fds works : List Int) (c : ConnConfig)
    (hr : Run d fds works c) (hret : returned c = true) :
    CleansUp d.srcFd c.world ↔ CleanRun d.srcFd fds works c.world := by
  have hwlp : wlp (delivers deliver) anyCall (Between d.srcFd fds works) c.node c.world :=
    wlp_stages (fun w d' stage _ h => wlp_proxyConn_between stage h) hr
      ⟨starting_nil, rfl, rfl⟩
  obtain ⟨w, node⟩ := c
  cases node with
  | done d' stage =>
      obtain rfl : stage = .returned := of_decide_eq_true hret
      exact hwlp
  | call | fault => cases hret

/-- A worker that serves descriptor 3 over descriptor 4. -/
def worker : JpoolWorkData := { blank with srcFd := 3, dstFd := 4 }

/-- The answer of `pipe`. -/
def pipeAnswer (rd wr : Int) : Answer := ⟨0, .other 0, [], [rd, wr]⟩

/-- The source closes its connection while it is idle. -/
theorem proxyConn_cleans_iff_idle :
    ∃ c : ConnConfig, returned c = true ∧ CleansUp 3 c.world := by
  obtain ⟨c, hr, hret, hclean⟩ : ∃ c : ConnConfig, Run worker [3] [3] c ∧
      returned c = true ∧ CleanRun 3 [3] [3] c.world :=
    exists_reach_of_exec (stageStep deliver proxyConn fun stage => decide (stage ≠ .returned))
      unconditional (begun worker [3] [3])
      [none, some (pipeAnswer 5 6), some (pipeAnswer 7 8), some (.count 0),
        none, some (.count 0), some (.count 0), some ⟨1, .other 0, [], [3]⟩, some (.count 0),
        some (.count 0),
        none, some (.fail (.other 9)), some (.count 0), some (.count 0), some (.count 0),
        none, some (.count 0), some (.count 0), some (.count 0), some (.count 0)]
      (fun c : ConnConfig => returned c = true ∧ CleanRun 3 [3] [3] c.world) (by decide +kernel)
  exact ⟨c, hret, (proxyConn_cleans_iff worker [3] [3] c hr hret).2 hclean⟩

/-- `epoll_ctl` fails behind two open pipes. -/
theorem proxyConn_leaks :
    ¬ ∀ c : ConnConfig, Run worker [3] [3] c → returned c = true → CleansUp 3 c.world := by
  intro hall
  obtain ⟨c, hr, hret, hopen⟩ : ∃ c : ConnConfig, Run worker [3] [3] c ∧ returned c = true ∧
      ∃ fd ∈ opened c.world, (calls c.world).count (.sys (.close fd)) = 0 :=
    exists_reach_of_exec (stageStep deliver proxyConn fun stage => decide (stage ≠ .returned))
      unconditional (begun worker [3] [3])
      [none, some (pipeAnswer 5 6), some (pipeAnswer 7 8), some (.fail (.other 28))]
      (fun c : ConnConfig => returned c = true ∧
        ∃ fd ∈ opened c.world, (calls c.world).count (.sys (.close fd)) = 0) (by decide +kernel)
  obtain ⟨fd, hfd, hzero⟩ := hopen
  have hone := (hall c hr hret).pipes fd hfd
  rw [hzero] at hone
  exact absurd hone (by decide)

end Runs

end ZeroCopyProxy.Ports.ProxyCleanup
