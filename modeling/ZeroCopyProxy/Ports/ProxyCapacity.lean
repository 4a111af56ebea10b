import ZeroCopyProxy.Verified.Liberal
import ZeroCopyProxy.Ports.PipeSlots
import Mathlib.Data.Int.LeastGreatest

/-!
# The pipe between receiving and sending

`proxy_process_data` sends nothing of a message before the whole body is in
the pipe.  As long as the pipe has room for the rest of a body, the message is
relayed in the end: from every state of a run there is a continuation in which
its last byte is written and the record is cleared.  This is so for any law of
pipes under which bodies up to some length find room (`PipeLaw`).

The runs are those of `ProxyDuplex` with pipes that fill up.  `flowPhases` are
the phases of `ProxyStream` without the stuck ones, so that a record between
two messages is known to be cleared, and with room for what is left of a body.
-/

namespace ZeroCopyProxy.Ports.ProxyCapacity

open ZeroCopyProxy.Verified.Resumption
open ZeroCopyProxy.Verified.Liberal
open ZeroCopyProxy.Verified.PrefixCode
open ZeroCopyProxy.Ports.Posix
open ZeroCopyProxy.Ports.Kernel
open ZeroCopyProxy.Ports.Frame
open ZeroCopyProxy.Ports.TranscHeader
open ZeroCopyProxy.Ports.ProxyRelay
open ZeroCopyProxy.Ports.ProxyStream
open ZeroCopyProxy.Ports.ProxyDuplex
open ZeroCopyProxy.Ports.PipeSlots

/-! ## The law -/

/-- The count a call asks for. -/
def asked : SysCall → Int
  | .read _ _ n | .write _ _ _ n | .spliceIn _ _ n | .spliceOut _ _ n => n
  | _ => 0

section Law

variable (room : Host → SysCall → Answer → Prop)

/-- Whole headers, streams that arrive on the descriptors, and pipes that take
in what they have room for; a splice that finds none fails with `EAGAIN`. -/
def Relaying (stream : Int → Bytes) (w : Host) (op : SysCall) (r : Answer) : Prop :=
  WholeHeaders stream w op r ∧ room w op r

instance [∀ w op r, Decidable (room w op r)] (stream : Int → Bytes) (w : Host) (op : SysCall)
    (r : Answer) : Decidable (Relaying room stream w op r) :=
  inferInstanceAs (Decidable (_ ∧ _))

/-- On top of this the sockets have the rest of their streams and the peers
accept everything: a call moves as much as it can. -/
def Flowing (stream : Int → Bytes) (w : Host) (op : SysCall) (r : Answer) : Prop :=
  Relaying room stream w op r ∧
    ∀ r', w.Can op r' → Relaying room stream w op r' → r'.ret ≤ asked op → r'.ret ≤ r.ret

variable (d : WorkData) (frames : Dir → List (Message .big)) (dir : Dir)

/-- The messages of this direction are written and its record is cleared. -/
structure Finished (w : Host) (d' : WorkData) : Prop where
  written : w.written (d.peer dir) = join (frames dir)
  cleared : d'.transc dir = cleared

/-- The configurations of a worker to which these messages arrive. -/
def Relays (c : WorkerConfig Host) : Prop :=
  Reach (blind <| hostKernel (Relaying room (arriving d frames))) proxyConnEvent
    (fun _ => true) ⟨Host.fresh, .done d []⟩ c

/-- From every reachable state there is a continuation, with sockets and peers
that are ready, at the end of which the messages of this direction are
relayed. -/
def NeverWedged : Prop :=
  ∀ c, Relays room d frames c → ∃ w d' codes,
    Reach (blind <| hostKernel (Flowing room (arriving d frames))) proxyConnEvent
      (fun _ => true) c ⟨w, .done d' codes⟩ ∧ Finished d frames dir w d'

end Law

/-! ## Calls that leave a direction and its pipe alone -/

/-- A step that moves no byte of this direction and nothing through its
pipe. -/
structure Still (e : Ends) (w w' : Host) : Prop extends Untouched e w w' where
  transfers : transfers w' e.pipe = transfers w e.pipe

theorem still_of_idle (e : Ends) (w : Host) (op : SysCall) {r : Answer} (hr : r.ret ≤ 0) :
    Still e w (w.after op r) :=
  ⟨untouched_of_idle e w op hr, transfers_idle hr⟩

theorem still_of_apart {e e' : Ends} (ha : e'.Apart e) (w : Host) {op : SysCall}
    (hop : e'.Addresses op) (r : Answer) : Still e w (w.after op r) :=
  ⟨untouched_of_apart ha w hop r, transfers_apart ha hop⟩

theorem still_of_close (e : Ends) (w : Host) (r : Answer) :
    Still e w (w.after (.close e.fd) r) where
  toUntouched :=
    ⟨rfl, rfl, rfl, _, Host.after_log _ _ _, fun hsp => hsp, fun hem => hem⟩
  transfers := by
    rw [transfers_after]
    rfl

/-! ## The phases of a message that flows -/

/-- A body of at most `limit` bytes has room for the rest of it. -/
def Fitting (room : Host → SysCall → Answer → Prop) (limit : Nat) (e : Ends) (w : Host)
    (t : Transc) : Prop :=
  t.length ≤ 20 + (limit : Int) → HasRoom room w e.fd e.pipe (t.length - t.recvBytes)

/-- The phases of `ProxyStream`, with a cleared record between two messages and
room for the rest of a body. -/
def flowPhases (room : Host → SysCall → Answer → Prop) (limit : Nat) (e : Ends) :
    Phases Host :=
  { streamPhases e with
    hdr := fun w t => t = cleared ∧ Idle e w
    body := fun w t => (streamPhases e).body w t ∧ Fitting room limit e w t }

section Flow

variable {room : Host → SysCall → Answer → Prop} {limit : Nat} {stream : Int → Bytes}
  {policy : Host → SysCall → Answer → Prop} {e : Ends} {fs : List (Message .big)} {w w' : Host}
  {t : Transc}

theorem streamPhases_of_flow (h : (flowPhases room limit e).Inv w t) :
    (streamPhases e).Inv w t := by
  cases h with
  | hdr h =>
      obtain ⟨rfl, hidle⟩ := h
      exact .hdr ⟨⟨rfl, rfl, rfl, rfl⟩, rfl, .inl ⟨rfl, hidle⟩⟩
  | body h => exact .body h.1
  | sendHdr h => exact .sendHdr h
  | sendBody h => exact .sendBody h

/-- A record between two messages is cleared, and any other is not. -/
theorem idle_of_cleared (h : (flowPhases room limit e).Inv w cleared) : Idle e w := by
  cases h with
  | hdr h => exact h.2
  | body h => exact absurd h.1.1.recvHeader (by decide)
  | sendHdr h => exact absurd h.1.recvHeader (by decide)
  | sendBody h => exact absurd h.1.recvHeader (by decide)

variable (hlaw : PipeLaw room limit)
include hlaw

theorem still_fitting (hs : Still e w w') (h : Fitting room limit e w t) :
    Fitting room limit e w' t :=
  fun hle r hr => hlaw.same hs.piped hs.transfers (h hle r hr)

theorem flow_still (hs : Still e w w') (h : (flowPhases room limit e).Inv w t) :
    (flowPhases room limit e).Inv w' t := by
  cases h with
  | hdr h => exact .hdr ⟨h.1, hs.idle h.2⟩
  | body h => exact .body ⟨hs.body h.1, still_fitting hlaw hs h.2⟩
  | sendHdr h => exact .sendHdr (hs.sendHdr h)
  | sendBody h => exact .sendBody (hs.sendBody h)

/-- The rest of a body behind a part of it. -/
theorem fitting_part {r : Answer} (hr : Receiving e w t) (h : Levelled w)
    (hroom : room w (.spliceIn e.fd e.pipe (t.length - t.recvBytes)) r) (hpos : 0 < r.ret)
    (hfits : r.Fits (.spliceIn e.fd e.pipe (t.length - t.recvBytes)))
    (hne : t.recvBytes + r.ret ≠ t.length) :
    Fitting room limit e (w.after (.spliceIn e.fd e.pipe (t.length - t.recvBytes)) r)
      { t with recvBytes := t.recvBytes + r.ret } := by
  intro hle
  have hrecv := hr.received
  have hask : r.ret ≤ t.length - t.recvBytes := hfits.1
  have hlen := hfits.2 (by omega)
  have hleft : t.length - (t.recvBytes + r.ret) = t.length - t.recvBytes - r.ret := by omega
  show HasRoom room _ e.fd e.pipe (t.length - (t.recvBytes + r.ret))
  rw [hleft]
  refine hlaw.rest h hroom hpos (by rw [Answer.moved_eq hlen, hlen]) (by omega) ?_
  have hle' : t.length ≤ 20 + (limit : Int) := hle
  omega

/-- On a stream of messages a header is whole and accepted, or not there. -/
theorem flowPhases_recvHeader
    (hpolicy : ∀ w op r, policy w op r → Relaying room stream w op r ∧ Levelled w)
    (hstream : stream e.fd = join fs) (h : (flowPhases room limit e).hdr w t) :
    wp (blind (hostKernel policy)) (CallRelayed e) (fun w' t' rv => match rv with
      | some c => c ≠ unknown ∧ (flowPhases room limit e).hdr w' t'
      | none => (flowPhases room limit e).body w' t')
      (recvHeader (fun t => transcGetMsgLength t endian) e.fd t) w := by
  obtain ⟨rfl, hidle⟩ := h
  obtain ⟨done, hw, hc⟩ := hidle.relayed
  have hwhole : ∀ {r : Answer}, r.Fits (.read e.fd .hdr (20 - cleared.recvBytes)) →
      policy w (.read e.fd .hdr (20 - cleared.recvBytes)) r → 0 < r.ret →
      r.ret = 20 ∧ r.data.length = 20 ∧ r.moved = r.data ∧ Accepted .big r.data := by
    intro r hfits hpol hpos
    obtain ⟨⟨⟨hprog, hcont⟩, -⟩, -⟩ := hpolicy _ _ _ hpol
    have hret : r.ret = 20 := hprog.resolve_left (not_again_of_pos hpos)
    have hlen := hfits.2 (by omega)
    have hpre : w.consumed e.fd ++ r.moved <+: stream e.fd := hcont
    rw [hc, hstream, Answer.moved_eq hlen] at hpre
    exact ⟨hret, by omega, Answer.moved_eq hlen, (header_of_stream (by omega) hpre).1⟩
  apply wp_recvHeader decodes_big (fun w _ => hostKernel_fits w) (by decide) (by decide)
  · exact ⟨relayed_of_idle rfl rfl hidle, rfl, .inl ⟨done, hc, rfl⟩⟩
  · rintro r w' ⟨_, _, rfl⟩ hret
    refine ⟨?_, rfl, (untouched_of_idle e w _ hret).idle hidle⟩
    split
    · exact recvErrorCode_ne_unknown _
    · decide
  · rintro r w' b len ⟨⟨hfits, _⟩, hpol, rfl⟩ hpos _ hb hbad
    obtain ⟨hret, hlen, _, hacc⟩ := hwhole hfits hpol hpos
    have hbytes : b.bytes = r.data := hb.trans (received_zero hlen)
    rw [hbytes] at hbad
    exact (hbad.elim (fun hne => hne (by rw [hret]; rfl)) fun hna => hna hacc).elim
  · rintro r w' b ⟨⟨hfits, _⟩, hpol, rfl⟩ hpos _ hb hacc
    obtain ⟨hret, hlen, hmoved, _⟩ := hwhole hfits hpol hpos
    have hbytes : b.bytes = r.data := hb.trans (received_zero hlen)
    refine ⟨⟨⟨rfl, rfl, rfl, rfl⟩, hidle.accept rfl ?_ hret hacc⟩, fun hle => ?_⟩
    · rw [hmoved, hbytes]
    · have hlev := (hpolicy _ _ _ hpol).2
      have hempty : (w.after (.read e.fd .hdr (20 - cleared.recvBytes)) r).piped e.pipe = [] :=
        hidle.empty
      refine hlaw.first (hlev.after _ _) hempty ?_
      have hle' : (len24 .big b.bytes : Int) ≤ 20 + (limit : Int) := hle
      show (len24 .big b.bytes : Int) - 20 ≤ (limit : Int)
      omega

/-- A part of a body leaves room for the rest. -/
theorem flowPhases_recvBody
    (hpolicy : ∀ w op r, policy w op r → Relaying room stream w op r ∧ Levelled w)
    (h : (flowPhases room limit e).body w t) :
    wp (blind (hostKernel policy)) (CallRelayed e)
      (fun w' t' c => c ≠ unknown ∧
        ((flowPhases room limit e).body w' t' ∨ (flowPhases room limit e).sendHdr w' t'))
      (recvBody e.fd e.pipe t) w := by
  obtain ⟨hbody, hfit⟩ := h
  have hroom : wp (blind (hostKernel policy)) (fun _ _ _ => True)
      (fun w' t' (_ : Int) => t'.isRecvBody = 0 → Fitting room limit e w' t')
      (recvBody e.fd e.pipe t) w := by
    apply wp_recvBody hbody.1 True.intro
    · rintro r w' ⟨_, _, rfl⟩ hret _
      exact still_fitting hlaw (still_of_idle e w _ hret) hfit
    · rintro r w' ⟨⟨hfits, _⟩, hpol, rfl⟩ hpos hne _
      obtain ⟨⟨-, hroom⟩, hlev⟩ := hpolicy _ _ _ hpol
      exact fitting_part hlaw hbody.2 hlev hroom hpos hfits hne
    · exact fun _ _ _ _ _ hzero => absurd hzero Int.one_ne_zero
  refine wp_mono (fun _ _ _ hp => hp.1) (fun w' t' c hq => ⟨hq.1.1, ?_⟩)
    (wp_and_wlp (streamPhases_recvBody hbody) (wlp_of_wp hroom))
  rcases hq.1.2 with hb | hs
  · exact .inl ⟨hb, hq.2 hb.1.recvBody⟩
  · exact .inr hs

/-- Streams of messages flow from phase to phase. -/
theorem flowPhases_sound
    (hpolicy : ∀ w op r, policy w op r → Relaying room stream w op r ∧ Levelled w)
    (hstream : stream e.fd = join fs) :
    (flowPhases room limit e).Sound (blind (hostKernel policy)) (CallRelayed e) (· ≠ unknown)
      e.fd e.pipe e.peer where
  code_normal := by decide
  code_fdErr := by decide
  hdr_flags h := by
    obtain ⟨rfl, _⟩ := h
    exact ⟨rfl, rfl, rfl, rfl⟩
  body_flags h := h.1.1
  sendHdr_flags h := h.1
  sendBody_flags h := h.1
  sent_flags h := h.1
  recvHeader h := flowPhases_recvHeader hlaw hpolicy hstream h
  recvBody h := flowPhases_recvBody hlaw hpolicy h
  sendHeader h :=
    streamPhases_sendHeader (fun w op r hp => (hpolicy w op r hp).1.1.writes) h
  sendBody h := streamPhases_sendBody h
  close := by
    intro w t c _ _ h
    refine ⟨⟨relayed_of_inv (streamPhases_of_flow h), rfl, True.intro⟩, ?_⟩
    rintro r w' ⟨_, _, rfl⟩
    exact flow_still hlaw (still_of_close e w r) h
  clear h := ⟨rfl, h.2⟩

end Flow

/-! ## What every answer keeps -/

section Keep

variable {room : Host → SysCall → Answer → Prop} {limit : Nat} {d : WorkData}
  {frames : Dir → List (Message .big)} {w w' : Host} {op : SysCall} {r : Answer}

/-- The streams are aligned, no pipe is overfull, and the transfers account for
what is in the pipes. -/
structure Contained (d : WorkData) (frames : Dir → List (Message .big)) (w : Host) :
    Prop where
  aligned : Aligned d frames w
  sized : ∀ pipe, (w.piped pipe).length ≤ pipeCapacity
  levelled : Levelled w

theorem contained_fresh (d : WorkData) (frames : Dir → List (Message .big)) :
    Contained d frames Host.fresh :=
  ⟨aligned_fresh d frames, fun _ => Nat.zero_le _, levelled_fresh⟩

theorem sized_after (hlaw : PipeLaw room limit) (h : ∀ pipe, (w.piped pipe).length ≤ pipeCapacity)
    (hroom : room w op r) (pipe : Pipe) : ((w.after op r).piped pipe).length ≤ pipeCapacity := by
  by_cases hr : r.ret ≤ 0
  · rw [(w.after_idle r op hr).2.1]
    exact h pipe
  cases op with
  | spliceIn fd p n =>
      by_cases hp : pipe = p
      · subst hp
        rw [Host.after_spliceIn_piped, List.length_append]
        exact hlaw.bytes hroom (by omega)
      · have hsame : (w.after (.spliceIn fd p n) r).piped pipe = w.piped pipe :=
          Function.update_of_ne hp _ _
        rw [hsame]
        exact h pipe
  | spliceOut p fd n =>
      by_cases hp : pipe = p
      · subst hp
        rw [Host.after_spliceOut_piped, List.length_drop]
        exact Nat.le_trans (Nat.sub_le _ _) (h pipe)
      · have hsame : (w.after (.spliceOut p fd n) r).piped pipe = w.piped pipe :=
          Function.update_of_ne hp _ _
        rw [hsame]
        exact h pipe
  | _ => exact h pipe

theorem Contained.step (hlaw : PipeLaw room limit) (h : Contained d frames w)
    (hk : hostKernel (Relaying room (arriving d frames)) w op r w') : Contained d frames w' := by
  obtain ⟨hcan, hpol, rfl⟩ := hk
  exact ⟨h.aligned.step ⟨hcan, hpol.1, rfl⟩, sized_after hlaw h.sized hpol.2,
    h.levelled.after op r⟩

theorem contained_reach (hlaw : PipeLaw room limit) {c : WorkerConfig Host}
    (hr : Relays room d frames c) : Contained d frames c.world :=
  world_reach (fun _ _ _ _ _ hi hk => hi.step hlaw hk) hr (contained_fresh d frames)

/-- What was taken in arrived. -/
theorem consumed_arrived {stream : Int → Bytes} {c : WorkerConfig Host}
    (hr : Reach (blind <| hostKernel (Relaying room stream)) proxyConnEvent (fun _ => true)
      ⟨Host.fresh, .done d []⟩ c) (fd : Int) : c.world.consumed fd <+: stream fd := by
  refine world_reach (I := fun w : Host => w.consumed fd <+: stream fd) ?_ hr List.nil_prefix
  rintro w s op r w' hi ⟨-, hpol, rfl⟩
  exact hpol.1.2.consumed hi

theorem relaying_writes {stream : Int → Bytes} (w : Host) (op : SysCall) (r : Answer)
    (h : Relaying room stream w op r) : WholeHeaderWrites w op r := h.1.writes

/-- Ready sockets and peers answer as sockets and peers do. -/
theorem relaying_of_flowing {stream : Int → Bytes}
    (hk : hostKernel (Flowing room stream) w op r w') :
    hostKernel (Relaying room stream) w op r w' :=
  ⟨hk.1, hk.2.1.1, hk.2.2⟩

/-- They move as much as any possible answer. -/
theorem flowing_most {stream : Int → Bytes} (hk : hostKernel (Flowing room stream) w op r w')
    (r' : Answer) (hcan : w.Can op r') (hrel : Relaying room stream w op r')
    (hle : r'.ret ≤ asked op) : r'.ret ≤ r.ret := hk.2.1.2 r' hcan hrel hle

/-- Where a call can be answered, one answer moves the most. -/
theorem exists_flowing {stream : Int → Bytes}
    (h : ∃ r, w.Can op r ∧ Relaying room stream w op r ∧ r.ret ≤ asked op) :
    ∃ r w', hostKernel (Flowing room stream) w op r w' := by
  obtain ⟨r, hcan, hrel, hle⟩ := h
  obtain ⟨most, ⟨r', ⟨hcan', hrel', -⟩, rfl⟩, hmost⟩ := Int.exists_greatest_of_bdd
    (P := fun n => ∃ r : Answer, (w.Can op r ∧ Relaying room stream w op r ∧ r.ret ≤ asked op) ∧
      r.ret = n)
    ⟨asked op, fun n ⟨r, hr, heq⟩ => heq ▸ hr.2.2⟩ ⟨r.ret, r, ⟨hcan, hrel, hle⟩, rfl⟩
  exact ⟨r', _, hcan', ⟨hrel', fun r'' hc hp hl => hmost r''.ret ⟨r'', ⟨hc, hp, hl⟩, rfl⟩⟩, rfl⟩

/-- The bytes a direction has taken in and sent so far. -/
def moved (e : Ends) (w : Host) : Nat := (w.consumed e.fd).length + (w.written e.peer).length

theorem moved_after (e : Ends) (w : Host) (op : SysCall) (r : Answer) :
    moved e w ≤ moved e (w.after op r) := by
  have hc : (w.consumed e.fd).length ≤ ((w.after op r).consumed e.fd).length := by
    rw [Host.after_consumed]
    split
    · rw [List.length_append]
      exact Nat.le_add_right _ _
    · exact Nat.le_refl _
  have hw : (w.written e.peer).length ≤ ((w.after op r).written e.peer).length := by
    rw [Host.after_written]
    split
    · rw [List.length_append]
      exact Nat.le_add_right _ _
    · exact Nat.le_refl _
  exact Nat.add_le_add hc hw

/-- Taking bytes in moves them. -/
theorem moved_source {e : Ends} (hs : source op = some e.fd) (hr : 0 < r.moved.length) :
    moved e w < moved e (w.after op r) := by
  unfold moved
  rw [Host.after_consumed, Host.after_written, if_pos hs, List.length_append]
  split
  · rw [List.length_append]
    omega
  · omega

/-- Sending bytes moves them. -/
theorem moved_sink {e : Ends} (hs : sink op = some e.peer)
    (hr : 0 < (w.leaving op r).length) : moved e w < moved e (w.after op r) := by
  unfold moved
  rw [Host.after_consumed, Host.after_written, if_pos hs, List.length_append]
  split
  · rw [List.length_append]
    omega
  · omega

end Keep

/-! ## The first call of an event -/

/-- The kernel that never answers. -/
abbrev noKernel {S : Type} (_ : Host) (_ : S) (_ : SysCall) (_ : Answer) (_ : Host) : Prop :=
  False

section First

variable {room : Host → SysCall → Answer → Prop} {limit : Nat} {F : Host → SysCall → Prop}
  {e : Ends} {w : Host} {t : Transc}

/-- A message that was received whole is sent. -/
theorem forward_first_send {fd peer : Int} {pipe : Option Pipe} (hheader : t.isRecvHeader = 1)
    (hbody : t.isRecvBody = 1)
    (h : wp noKernel (fun w _ op => F w op) (fun _ _ _ => False) (proxySendData pipe peer t) w) :
    wp noKernel (fun w _ op => F w op) (fun _ _ _ => False) (forward fd pipe peer t) w := by
  rw [forward, wp_bind]
  simp only [forwardRecv, wp_bind, wp_state, wp_ite, wp_pure]
  refine ⟨fun hz => ?_, fun _ => ?_⟩
  · exact absurd hz (by rw [hheader, hbody]; decide)
  simp only [forwardSend, wp_bind, wp_state, wp_ite]
  refine ⟨fun _ => wp_post (fun _ _ _ hfalse => hfalse.elim) h, fun hne => ?_⟩
  exact absurd ⟨hheader, hbody⟩ hne

/-- Between two messages an event reads a header. -/
theorem forward_first_header (hfd : 0 ≤ e.fd) (h : F w (.read e.fd .hdr 20)) :
    wp noKernel (fun w _ op => F w op) (fun _ _ _ => False)
      (forward e.fd (some e.pipe) e.peer cleared) w := by
  have hno : ∀ w (t : Transc) op r w', noKernel w t op r w' → r.Fits op :=
    fun _ _ _ _ _ hk => hk.elim
  apply wp_forward_closes hfd ⟨rfl, rfl, rfl, rfl⟩ (fun _ _ _ _ hk => hk)
  apply wp_recvHeader decodes_big hno (by decide) (by decide)
  · exact h
  · exact fun _ _ hk => hk.elim
  · exact fun _ _ _ _ hk => hk.elim
  · exact fun _ _ _ hk => hk.elim

/-- In a body it takes in the rest. -/
theorem forward_first_body (hfd : 0 ≤ e.fd) (hf : t.Flags 1 0 0 0)
    (h : F w (.spliceIn e.fd e.pipe (t.length - t.recvBytes))) :
    wp noKernel (fun w _ op => F w op) (fun _ _ _ => False)
      (forward e.fd (some e.pipe) e.peer t) w := by
  rw [forward, wp_bind]
  simp only [forwardRecv, wp_bind, wp_state, wp_ite]
  refine ⟨fun _ => ?_, fun hne => absurd (.inr hf.recvBody) hne⟩
  simp only [proxyRecvData, wp_bind, wp_state, wp_ite]
  refine ⟨fun hneg => absurd hneg (Int.not_lt.2 hfd), fun _ => ⟨fun hz => ?_, fun _ =>
    ⟨fun hz => ?_, fun _ => ?_⟩⟩⟩
  · exact absurd (hf.recvHeader.symm.trans hz.1) (by decide)
  · exact absurd (hf.recvHeader.symm.trans hz.1) (by decide)
  · apply wp_recvBody hf h
    · exact fun _ _ hk => hk.elim
    · exact fun _ _ hk => hk.elim
    · exact fun _ _ hk => hk.elim

/-- The first call of an event continues the message where it stands. -/
theorem forward_first (hfd : 0 ≤ e.fd) (hpeer : 0 ≤ e.peer)
    (h : (flowPhases room limit e).Inv w t)
    (hhdr : t = cleared → Idle e w → F w (.read e.fd .hdr 20))
    (hbody : Receiving e w t → Fitting room limit e w t →
      F w (.spliceIn e.fd e.pipe (t.length - t.recvBytes)))
    (hsendHdr : ∀ b : Buf 20, F w (.write e.peer .hdr b.bytes 20))
    (hsendBody : Sending e w t → F w (.spliceOut e.pipe e.peer t.recvBytes)) :
    wp noKernel (fun w _ op => F w op) (fun _ _ _ => False)
      (forward e.fd (some e.pipe) e.peer t) w := by
  have hno : ∀ w (t : Transc) op r w', noKernel w t op r w' → r.Fits op :=
    fun _ _ _ _ _ hk => hk.elim
  cases h with
  | hdr h =>
      obtain ⟨rfl, hidle⟩ := h
      exact forward_first_header hfd (hhdr rfl hidle)
  | body h =>
      obtain ⟨⟨hf, hr⟩, hfit⟩ := h
      exact forward_first_body hfd hf (hbody hr hfit)
  | sendHdr h =>
      obtain ⟨hf, hr⟩ := h
      apply forward_first_send hf.recvHeader hf.recvBody
      simp only [proxySendData, wp_bind, wp_state, wp_ite]
      refine ⟨fun hneg => absurd hneg (Int.not_lt.2 hpeer), fun _ => ⟨fun _ => ?_, fun hne =>
        absurd ⟨hf.sendHeader, hf.sendBody⟩ hne⟩⟩
      have hs := hr.unsent
      apply wp_sendHeader hno (by omega) (by omega)
      · intro b _
        rw [hs]
        exact hsendHdr b
      · exact fun _ _ _ _ hk => hk.elim
      · exact fun _ _ _ _ hk => hk.elim
      · exact fun _ _ _ _ hk => hk.elim
  | sendBody h =>
      obtain ⟨hf, hs⟩ := h
      apply forward_first_send hf.recvHeader hf.recvBody
      simp only [proxySendData, wp_bind, wp_state, wp_ite]
      refine ⟨fun hneg => absurd hneg (Int.not_lt.2 hpeer), fun _ => ⟨fun hz => ?_, fun _ =>
        ⟨fun hz => ?_, fun _ => ?_⟩⟩⟩
      · exact absurd (hf.sendHeader.symm.trans hz.1) (by decide)
      · exact absurd (hf.sendHeader.symm.trans hz.1) (by decide)
      · apply wp_sendBody hf (hsendBody hs)
        · exact fun _ _ hk => hk.elim
        · exact fun _ _ hk => hk.elim
        · exact fun _ _ hk => hk.elim

end First

/-! ## Bodies that fit -/

section Fits

variable {room : Host → SysCall → Answer → Prop} {limit : Nat} {d : WorkData}
  {frames : Dir → List (Message .big)} {dir : Dir} {w : Host} {t : Transc}

/-- No ready socket or peer answers this call without moving bytes. -/
def Moves (room : Host → SysCall → Answer → Prop) (d : WorkData)
    (frames : Dir → List (Message .big)) (dir : Dir) (w : Host) (op : SysCall) : Prop :=
  ∀ r w', hostKernel (Flowing room (arriving d frames)) w op r w' →
    moved (ends d dir) w < moved (ends d dir) w'

theorem arriving_source (d : WorkData) (frames : Dir → List (Message .big)) (dir : Dir) :
    arriving d frames (d.source dir) = join (frames dir) := by
  rw [arriving, WorkData.dirOf_source]

theorem source_nonneg (d : WorkData) (dir : Dir) : 0 ≤ d.source dir := by
  cases dir with
  | ingoing => exact d.src_nonneg
  | outgoing => exact d.dst_nonneg

theorem peer_nonneg (d : WorkData) (dir : Dir) : 0 ≤ d.peer dir := by
  cases dir with
  | ingoing => exact d.dst_nonneg
  | outgoing => exact d.src_nonneg

/-- The next bytes of a stream. -/
theorem continues_drop {stream x : Bytes} (hpre : x <+: stream) (n : Nat) :
    x ++ (stream.drop x.length).take n <+: stream := by
  obtain ⟨y, rfl⟩ := hpre
  rw [List.drop_left, List.prefix_append_right_inj]
  exact List.take_prefix n y

/-- Something is left of a stream that is not consumed. -/
theorem drop_pos {stream x : Bytes} (hpre : x <+: stream) (hne : x ≠ stream) :
    0 < (stream.drop x.length).length := by
  obtain ⟨y, rfl⟩ := hpre
  rw [List.drop_left]
  apply List.length_pos_of_ne_nil
  rintro rfl
  exact hne (List.append_nil x).symm

/-- Behind whole messages, a stream that goes on has another header. -/
theorem header_left {fs : List (Message .big)} (hcons : w.consumed (d.source dir) = join fs)
    (hpre : w.consumed (d.source dir) <+: join (frames dir))
    (hne : w.consumed (d.source dir) ≠ join (frames dir)) :
    20 ≤ ((join (frames dir)).drop (w.consumed (d.source dir)).length).length := by
  have hpos := drop_pos hpre hne
  obtain ⟨y, hy⟩ := hpre
  rw [← hy, List.drop_left] at hpos ⊢
  have hall : join fs ++ y <+: join (frames dir) := by
    refine ⟨[], ?_⟩
    rw [List.append_nil, ← hcons, hy]
  obtain ⟨u, rest, hframes, _⟩ :=
    (isPrefixCode .big).next_word hall (List.ne_nil_of_length_pos hpos)
  have hlt := u.2.twenty_lt
  rw [hframes, hcons] at hy
  have heq : y = u.1 ++ join rest := by simpa using hy
  rw [heq, List.length_append]
  omega

/-- A body is that of a message of the stream, the rest of which is there. -/
theorem body_left (hc : w.consumed (d.source dir) <+: join (frames dir))
    (hr : Receiving (ends d dir) w t) :
    ∃ u ∈ frames dir, t.length = u.1.length ∧ t.length - t.recvBytes ≤
      ((join (frames dir)).drop (w.consumed (d.source dir)).length).length := by
  obtain ⟨fs, _, hcons⟩ := hr.relayed
  have hhdr := t.readHdrBuf.size
  have hrecv : t.recvBytes = 20 + (w.piped (d.pipe dir)).length := hr.received
  have hlength := hr.length_eq
  have hcons' : w.consumed (d.source dir) =
      join fs ++ (t.readHdrBuf.bytes ++ w.piped (d.pipe dir)) := hcons
  have hne : t.readHdrBuf.bytes ++ w.piped (d.pipe dir) ≠ [] :=
    List.ne_nil_of_length_pos (by rw [List.length_append]; omega)
  obtain ⟨u, rest, hframes, hu⟩ := (isPrefixCode .big).next_word (hcons' ▸ hc) hne
  have hlen : len24 .big t.readHdrBuf.bytes = u.1.length := by
    have htwenty := u.2.twenty_lt
    rw [u.2.length_eq]
    rcases hu with ⟨z, hz⟩ | ⟨z, hz⟩
    · rw [← hz, List.append_assoc, len24_append .big (by omega)]
    · rw [← len24_append .big (by omega) (w.piped (d.pipe dir)), ← hz,
        len24_append .big (by omega)]
  have hall : (join (frames dir)).length =
      (join fs).length + (u.1.length + (join rest).length) := by
    rw [hframes]
    simp
  refine ⟨u, hframes ▸ List.mem_append_right _ List.mem_cons_self, by omega, ?_⟩
  rw [List.length_drop, hcons', List.length_append, List.length_append]
  omega

/-- The answer of a call that takes in the next `n` bytes of its stream. -/
def takes (d : WorkData) (frames : Dir → List (Message .big)) (dir : Dir) (w : Host)
    (n : Nat) : Answer :=
  .stored (((join (frames dir)).drop (w.consumed (d.source dir)).length).take n)

theorem takes_continues (hc : w.consumed (d.source dir) <+: join (frames dir)) (n : Nat) :
    w.consumed (d.source dir) ++ (takes d frames dir w n).moved <+:
      arriving d frames (d.source dir) := by
  rw [show (takes d frames dir w n).moved = (takes d frames dir w n).data from
    Answer.moved_eq rfl, arriving_source]
  exact continues_drop hc n

theorem takes_whole {n : Nat}
    (hn : n ≤ ((join (frames dir)).drop (w.consumed (d.source dir)).length).length) :
    Whole n (takes d frames dir w n) := by
  have hlen : ((takes d frames dir w n).data.length : Int) = n := by
    show (List.length (List.take n _) : Int) = n
    rw [List.length_take, Nat.min_eq_left hn]
  exact ⟨hlen, hlen⟩

/-- An event on a message that fits moves bytes. -/
theorem forward_moves (hlaw : PipeLaw room limit)
    (hfits : ∀ f ∈ frames dir, f.1.length ≤ 20 + limit) (hc : Contained d frames w)
    (h : (flowPhases room limit (ends d dir)).Inv w t)
    (hun : ¬ (w.written (d.peer dir) = join (frames dir) ∧ t = cleared)) :
    wp noKernel (fun w _ op => Moves room d frames dir w op) (fun _ _ _ => False)
      (forward (d.source dir) (some (d.pipe dir)) (d.peer dir) t) w := by
  have hpre := hc.aligned.consumed dir
  apply forward_first (e := ends d dir) (source_nonneg d dir) (peer_nonneg d dir) h
  · -- the next header is there
    rintro rfl hidle r w' hk
    obtain ⟨fs, hw, hcons⟩ := hidle.relayed
    have hne : w.consumed (d.source dir) ≠ join (frames dir) := fun hall =>
      hun ⟨hw.trans (hcons.symm.trans hall), rfl⟩
    have hwhole := takes_whole (header_left hcons hpre hne)
    have hmost := flowing_most hk (takes d frames dir w 20)
      ⟨⟨Int.le_of_eq hwhole.ret, fun _ => rfl⟩, True.intro⟩
      ⟨⟨.inr hwhole.ret, takes_continues hpre 20⟩, hlaw.other fun _ _ _ heq => by cases heq⟩
      (Int.le_of_eq hwhole.ret)
    have hret : (20 : Int) ≤ r.ret := by
      rw [hwhole.ret] at hmost
      exact hmost
    obtain ⟨⟨hcan, _⟩, -, rfl⟩ := hk
    have hlen := hcan.2 (by omega)
    exact moved_source rfl (by rw [Answer.moved_eq hlen]; omega)
  · -- and so is the rest of a body, for which the pipe has room
    intro hr hfit r w' hk
    obtain ⟨u, hu, hlength, hleft⟩ := body_left hpre hr
    have hle := hfits u hu
    have hun := hr.unfinished
    obtain ⟨n, hn⟩ := Int.eq_ofNat_of_zero_le (show 0 ≤ t.length - t.recvBytes by omega)
    have hwhole : Whole n (takes d frames dir w n) := takes_whole (by omega)
    rw [← hn] at hwhole
    have hmost := flowing_most hk (takes d frames dir w n)
      ⟨⟨Int.le_of_eq hwhole.ret, fun _ => rfl⟩, True.intro⟩
      ⟨⟨.inr (by rw [hwhole.ret]; omega), takes_continues hpre n⟩,
        hfit (by omega) _ hwhole⟩ (Int.le_of_eq hwhole.ret)
    rw [hwhole.ret] at hmost
    obtain ⟨⟨hcan, _⟩, -, rfl⟩ := hk
    have hlen := hcan.2 (by omega)
    exact moved_source rfl (by rw [Answer.moved_eq hlen]; omega)
  · rintro b r w' hk
    have hmost := flowing_most hk (.count 20) ⟨Int.le_refl 20, True.intro⟩
      ⟨⟨.inr rfl, True.intro⟩, hlaw.other fun _ _ _ heq => by cases heq⟩ (Int.le_refl 20)
    have hret : (20 : Int) ≤ r.ret := hmost
    obtain ⟨-, -, rfl⟩ := hk
    refine moved_sink rfl ?_
    rw [Host.leaving, List.length_take, b.size]
    omega
  · rintro hs r w' hk
    have hlen := List.length_pos_of_ne_nil hs.unfinished
    have hcount := hs.counted
    have hmost := flowing_most hk (.count t.recvBytes)
      ⟨Int.le_refl _, Int.le_of_eq hcount⟩
      ⟨⟨.inr (show 0 < t.recvBytes by omega), True.intro⟩,
        hlaw.other fun _ _ _ heq => by cases heq⟩ (Int.le_refl _)
    have hret : t.recvBytes ≤ r.ret := hmost
    obtain ⟨-, -, rfl⟩ := hk
    refine moved_sink rfl ?_
    rw [Host.leaving, List.length_take]
    omega

end Fits

/-! ## Calls that find nothing to do -/

/-- A call that asks for `n` bytes fails because it would block. -/
def stalled (n : Int) : Answer := ⟨min (-1) n, .eagain, [], []⟩

theorem again_stalled (n : Int) : Again (stalled n) := by
  refine ⟨?_, .inl rfl⟩
  show min (-1) n < 0
  omega

theorem fits_stalled (op : SysCall) : (stalled (asked op)).Fits op := by
  have hneg := (again_stalled (asked op)).1
  have hle : (stalled (asked op)).ret ≤ asked op := Int.min_le_right _ _
  cases op with
  | read fd area n => exact ⟨hle, fun h0 => absurd hneg (Int.not_lt.2 h0)⟩
  | spliceIn fd pipe n => exact ⟨hle, fun h0 => absurd hneg (Int.not_lt.2 h0)⟩
  | write fd area buf n => exact hle
  | spliceOut pipe fd n => exact hle
  | _ => exact True.intro

/-- The answers that move nothing. -/
def Resting (_ : Host) (op : SysCall) (r : Answer) : Prop := Progress op r ∧ r.ret ≤ 0

/-- Every call may find nothing to do. -/
theorem resting_stalled (w : Host) (op : SysCall) :
    w.Can op (stalled (asked op)) ∧ Resting w op (stalled (asked op)) := by
  have hagain := again_stalled (asked op)
  have hneg := hagain.1
  refine ⟨⟨fits_stalled op, ?_⟩, ?_, Int.le_of_lt hneg⟩
  · cases op with
    | spliceOut pipe fd n =>
        show (stalled (asked (.spliceOut pipe fd n))).ret ≤ (w.piped pipe).length
        omega
    | _ => exact True.intro
  · cases op with
    | read fd area n =>
        cases area with
        | hdr => exact .inl hagain
        | body => exact True.intro
    | write fd area buf n =>
        cases area with
        | hdr => exact .inl hagain
        | body => exact True.intro
    | spliceIn | spliceOut => exact .inl hagain
    | _ => exact True.intro

/-- They are possible whatever arrives behind what has been taken in. -/
theorem relaying_of_resting {room : Host → SysCall → Answer → Prop} {limit : Nat}
    (hlaw : PipeLaw room limit) {stream : Int → Bytes} {w : Host} {op : SysCall} {r : Answer}
    (h : Resting w op r) (hc : ∀ fd, w.consumed fd <+: stream fd) :
    Relaying room stream w op r :=
  ⟨⟨h.1, continues_idle op h.2 hc⟩, hlaw.idle h.2⟩

/-! ## Runs -/

section Runs

variable {room : Host → SysCall → Answer → Prop} {limit : Nat} {d d' : WorkData}
  {frames : Dir → List (Message .big)} {dir : Dir} {w : Host}

/-- What holds between two events. -/
def Between (room : Host → SysCall → Answer → Prop) (limit : Nat) (d : WorkData)
    (frames : Dir → List (Message .big)) (w : Host) (d' : WorkData) : Prop :=
  Settled (fun dir => flowPhases room limit (ends d dir)) d w d' ∧ Contained d frames w

/-- What holds while the worker waits in a call. -/
def During (room : Host → SysCall → Answer → Prop) (limit : Nat) (d : WorkData)
    (frames : Dir → List (Message .big)) (w : Host) (d' : WorkData) (op : SysCall) : Prop :=
  (∃ dir, Waiting (fun dir => flowPhases room limit (ends d dir))
    (fun dir => CallRelayed (ends d dir)) d dir w d' op) ∧ Contained d frames w

variable (hlaw : PipeLaw room limit)
include hlaw

theorem flow_other {policy : Host → SysCall → Answer → Prop} {dir dir' : Dir} {w w' : Host}
    {t : Transc} {op : SysCall} {r : Answer} (t' : Transc) (hne : dir' ≠ dir)
    (hcall : CallRelayed (ends d dir) w t op) (hk : hostKernel policy w op r w')
    (h : (flowPhases room limit (ends d dir')).Inv w t') :
    (flowPhases room limit (ends d dir')).Inv w' t' := by
  obtain ⟨_, _, rfl⟩ := hk
  exact flow_still hlaw (still_of_apart (ends_apart d hne.symm) w hcall.2.1 r) h

/-- The answers while the transfers account for what is in the pipes. -/
abbrev Accounted (room : Host → SysCall → Answer → Prop) (stream : Int → Bytes) (w : Host)
    (op : SysCall) (r : Answer) : Prop := Relaying room stream w op r ∧ Levelled w

omit hlaw in
theorem levelled_step {policy : Host → SysCall → Answer → Prop} (w : Host) (s : WorkData)
    (op : SysCall) (r : Answer) (w' : Host) (hk : blind (hostKernel policy) w s op r w')
    (h : Levelled w) : Levelled w' := by
  obtain ⟨-, -, rfl⟩ := hk
  exact h.after op r

/-- What is left of a run. -/
theorem relaying_wp (h : ∀ dir, d.transc dir = cleared) {c : WorkerConfig Host}
    (hr : Relays room d frames c) :
    wp (blind (hostKernel (Relaying room (arriving d frames)))) (During room limit d frames)
      (fun w d' _ => Between room limit d frames w d') c.node c.world := by
  have hinit : ∀ dir, (flowPhases room limit (ends d dir)).Inv Host.fresh (d.transc dir) := by
    intro dir
    rw [h dir]
    exact .hdr ⟨rfl, idle_fresh _⟩
  have hassumed : Reach (blind (hostKernel (Accounted room (arriving d frames))))
      proxyConnEvent (fun _ => true) ⟨Host.fresh, .done d []⟩ c :=
    (hr.assuming (fun w s op r w' hi hk => levelled_step w s op r w' hk hi)
      levelled_fresh).mono fun _ _ _ _ _ hk => ⟨hk.1.1, ⟨hk.1.2.1, hk.2⟩, hk.1.2.2⟩
  have hwp := worker_wp (Φ := fun dir => flowPhases room limit (ends d dir))
    (P := fun dir => CallRelayed (ends d dir))
    (fun dir => flowPhases_sound hlaw (fun _ _ _ hp => hp) (arriving_source d frames dir))
    (flow_other hlaw) hinit hassumed
  have hcont := contained_reach hlaw hr
  have hwp' := wp_assuming levelled_step
    (wp_kernel_mono (fun _ _ _ _ _ hk => ⟨hk.1.1, ⟨hk.1.2.1, hk.2⟩, hk.1.2.2⟩) hwp)
    hcont.levelled
  have hall := wp_invariant (fun w s op r w' _ hk hi => hi.step hlaw hk) hwp' hcont
  exact wp_mono (fun _ _ _ hp => hp) (fun _ _ _ hq => ⟨hq.1.2, hq.2⟩) hall

/-- An event begins where the last one has ended. -/
theorem event_wp (h : Between room limit d frames w d') (fd : Int) :
    wp (blind (hostKernel (Relaying room (arriving d frames)))) (During room limit d frames)
      (fun w d' _ => Between room limit d frames w d') (proxyConnEvent fd d') w := by
  obtain ⟨hset, hc⟩ := h
  have hevent := wp_proxyConnEvent
    (K := hostKernel (Accounted room (arriving d frames)))
    (fun dir => flowPhases_sound hlaw (fun _ _ _ hp => hp) (arriving_source d frames dir))
    (flow_other hlaw) hset fd
  have hassumed := wp_assuming levelled_step
    (wp_kernel_mono (fun _ _ _ _ _ hk => ⟨hk.1.1, ⟨hk.1.2.1, hk.2⟩, hk.1.2.2⟩) hevent)
    hc.levelled
  have hall := wp_invariant (fun w s op r w' _ hk hi => hi.step hlaw hk) hassumed hc
  exact wp_mono (fun _ _ _ hp => hp) (fun _ _ _ hq => ⟨hq.1.2, hq.2⟩) hall

/-- What is left of a run whose sockets and peers are ready from now on. -/
theorem relays_wp (h : ∀ dir, d.transc dir = cleared) {c : WorkerConfig Host}
    (hr : Relays room d frames c) :
    wp (blind (hostKernel (Flowing room (arriving d frames)))) (During room limit d frames)
      (fun w d' _ => Between room limit d frames w d') c.node c.world :=
  wp_kernel_mono (fun _ _ _ _ _ hk => relaying_of_flowing hk) (relaying_wp hlaw h hr)

omit hlaw in
/-- The program of an event on the source of a direction. -/
theorem wp_event {K : Host → SysCall → Answer → Host → Prop} {P : Host → SysCall → Prop}
    {Q : Host → Prop} (h : Between room limit d frames w d') (dir : Dir)
    (hforward : wp (blind K) (fun w _ op => P w op) (fun w _ _ => Q w)
      (forward (d.source dir) (some (d.pipe dir)) (d.peer dir) (d'.transc dir)) w) :
    wp (blind K) (fun w _ op => P w op) (fun w _ (_ : List Int) => Q w)
      (proxyConnEvent (d.source dir) d') w := by
  have hsource : d.source dir = d'.source dir := by rw [h.1.ends.source]
  rw [hsource, proxyConnEvent_source]
  simp only [proxyProcessData, wp_zoom, WorkData.dirOf_source]
  rw [h.1.ends.source, h.1.ends.pipe, h.1.ends.peer]
  exact hforward

/-- One event on a message that fits. -/
theorem event_moves (hfits : ∀ f ∈ frames dir, f.1.length ≤ 20 + limit)
    (h : Between room limit d frames w d') (hun : ¬ Finished d frames dir w d') :
    wp (blind (hostKernel (Flowing room (arriving d frames)))) (During room limit d frames)
      (fun w' d'' _ => Between room limit d frames w' d'' ∧
        moved (ends d dir) w < moved (ends d dir) w')
      (proxyConnEvent (d.source dir) d') w := by
  have hevent := wp_kernel_mono (fun _ _ _ _ _ hk => relaying_of_flowing hk)
    (event_wp hlaw h (d.source dir))
  refine wp_first (I := fun w' => moved (ends d dir) w < moved (ends d dir) w')
    (F := fun w _ op => Moves room d frames dir w op) ?_ ?_ ?_ hevent
  · rintro w₁ s op r w₂ ⟨_, _, rfl⟩ hlt
    exact Nat.lt_of_lt_of_le hlt (moved_after _ _ _ _)
  · exact wp_event h dir (forward_moves hlaw hfits h.2 (h.1.inv dir)
      fun hdone => hun ⟨hdone.1, hdone.2⟩)
  · exact fun s op r w' hf hk => hf r w' hk

omit hlaw in
/-- No more is moved than the stream twice. -/
theorem moved_le (h : Between room limit d frames w d') :
    moved (ends d dir) w ≤ 2 * (join (frames dir)).length := by
  obtain ⟨fs, hw, hc⟩ := (relayed_of_inv (streamPhases_of_flow (h.1.inv dir))).whole
  have hle := (h.2.aligned.consumed dir).length_le
  have hwc := (hw.trans hc).length_le
  have hcons : (w.consumed (ends d dir).fd).length = (w.consumed (d.source dir)).length := rfl
  unfold moved
  omega

/-- Every call of a message that flows may find nothing to do. -/
theorem relaying_stalled {op : SysCall} (h : During room limit d frames w d' op) :
    Relaying room (arriving d frames) w op (stalled (asked op)) := by
  obtain ⟨⟨dir, hwait⟩, hc⟩ := h
  obtain ⟨-, hrest⟩ := resting_stalled w op
  refine ⟨⟨hrest.1, ?_⟩, hlaw.idle hrest.2⟩
  unfold Continues
  split
  · next fd hfd =>
      obtain rfl : fd = d.source dir := hwait.call.2.1.source hfd
      rw [Answer.moved_nil hrest.2, List.append_nil, arriving_source]
      exact hc.aligned.consumed dir
  · exact True.intro

/-- So it is answered. -/
theorem flowing_answers {op : SysCall} (h : During room limit d frames w d' op) :
    ∃ r w', hostKernel (Flowing room (arriving d frames)) w op r w' :=
  exists_flowing ⟨_, (resting_stalled w op).1, relaying_stalled hlaw h, Int.min_le_right _ _⟩

/-- A direction whose bodies fit is never wedged. -/
theorem never_wedged_of_fits (h : ∀ dir, d.transc dir = cleared)
    (hfits : ∀ f ∈ frames dir, f.1.length ≤ 20 + limit) : NeverWedged room d frames dir := by
  intro c hr
  have hlive : ∀ w s op, During room limit d frames w s op →
      ∃ r w', hostKernel (Flowing room (arriving d frames)) w op r w' :=
    fun w s op hd => flowing_answers hlaw hd
  have hevent : ∃ w₁ d₁ codes₁,
      Reach (blind <| hostKernel (Flowing room (arriving d frames))) proxyConnEvent
        (fun _ => true) c ⟨w₁, .done d₁ codes₁⟩ ∧ Between room limit d frames w₁ d₁ :=
    exists_run (relays_wp hlaw h hr) (fun _ _ _ _ _ hk => hk) hlive
  obtain ⟨w₁, d₁, codes₁, hr₁, h₁⟩ := hevent
  obtain ⟨w₂, d₂, codes₂, hr₂, h₂⟩ := exists_run_progress
    (I := fun w d' _ => Between room limit d frames w d')
    (G := fun w d' _ => Finished d frames dir w d')
    (moved (ends d dir)) _ (d.source dir) (fun hb => moved_le hb) (fun _ => rfl)
    (fun hb hun => event_moves hlaw hfits hb hun) hlive h₁
  exact ⟨w₂, d₂, codes₂, hr₁.trans hr₂, h₂⟩

/-- An event that is going on can end without another byte being moved. -/
theorem exists_rest (h : ∀ dir, d.transc dir = cleared) {c : WorkerConfig Host}
    (hr : Relays room d frames c) :
    ∃ w d' codes, Reach (blind <| hostKernel Resting) proxyConnEvent (fun _ => true) c
      ⟨w, .done d' codes⟩ := by
  have hleft : wp (blind (hostKernel fun w op r =>
      Resting w op r ∧ Relaying room (arriving d frames) w op r)) (During room limit d frames)
      (fun w d' _ => Between room limit d frames w d') c.node c.world :=
    wp_kernel_mono (fun _ _ _ _ _ hk => ⟨hk.1, hk.2.1.2, hk.2.2⟩) (relaying_wp hlaw h hr)
  have hrun : ∃ w d' codes, Reach (blind <| hostKernel Resting) proxyConnEvent (fun _ => true)
      c ⟨w, .done d' codes⟩ ∧ Between room limit d frames w d' := by
    apply exists_run hleft
    · exact fun _ _ _ _ _ hk => ⟨hk.1, hk.2.1.1, hk.2.2⟩
    intro w s op hd
    obtain ⟨hcan, hrest⟩ := resting_stalled w op
    exact ⟨_, _, hcan, ⟨hrest, relaying_stalled hlaw hd⟩, rfl⟩
  obtain ⟨w, d', codes, hrun, -⟩ := hrun
  exact ⟨w, d', codes, hrun⟩

omit hlaw in
/-- Nothing has changed at the end of such a run. -/
theorem resting_reach {c c' : WorkerConfig Host}
    (hr : Reach (blind <| hostKernel Resting) proxyConnEvent (fun _ => true) c c') :
    c'.world.consumed = c.world.consumed ∧ c'.world.written = c.world.written ∧
      ∀ pipe, transfers c'.world pipe = transfers c.world pipe := by
  refine world_reach (I := fun w : Host => w.consumed = c.world.consumed ∧
    w.written = c.world.written ∧ ∀ pipe, transfers w pipe = transfers c.world pipe) ?_ hr
    ⟨rfl, rfl, fun _ => rfl⟩
  rintro w s op r w' ⟨hc, hw, ht⟩ ⟨-, hrest, rfl⟩
  obtain ⟨hc', -, hw'⟩ := w.after_idle r op hrest.2
  exact ⟨hc'.trans hc, hw'.trans hw, fun pipe => (transfers_idle hrest.2).trans (ht pipe)⟩

/-- Such a run goes on as it does when more arrives. -/
theorem relaying_of_rest {c c' : WorkerConfig Host}
    (hr : Reach (blind <| hostKernel Resting) proxyConnEvent (fun _ => true) c c')
    {stream : Int → Bytes} (hc : ∀ fd, c.world.consumed fd <+: stream fd) :
    Reach (blind <| hostKernel (Relaying room stream)) proxyConnEvent (fun _ => true) c c' := by
  have hassumed := hr.assuming (I := fun w : Host => w.consumed = c.world.consumed)
    (by
      rintro w s op r w' hi ⟨-, hrest, rfl⟩
      exact (w.after_idle r op hrest.2).1.trans hi) rfl
  refine hassumed.mono fun w s op r w' hk => ⟨hk.1.1, ?_, hk.1.2.2⟩
  refine relaying_of_resting hlaw hk.1.2.1 fun fd => ?_
  rw [hk.2]
  exact hc fd

omit hlaw in
/-- A header and a pipe are all a direction holds back. -/
theorem held_le (t : Transc) (piped : Bytes) : (held t piped).length ≤ 20 + piped.length := by
  unfold held
  split
  · omega
  · split
    · rw [List.length_append, t.readHdrBuf.size]
    · simp

/-- Nothing is written of a message that was not taken in as a whole. -/
theorem written_short (h : ∀ dir, d.transc dir = cleared) {pre post : List (Message .big)}
    {f : Message .big} (hframes : frames dir = pre ++ f :: post) {c : WorkerConfig Host}
    (hr : Relays room d frames c)
    (hshort : (c.world.consumed (d.source dir)).length < (join pre).length + f.1.length) :
    (c.world.written (d.peer dir)).length ≤ (join pre).length := by
  obtain ⟨fs, hw, hc⟩ := (relayed_reach relaying_writes h hr dir).1.whole
  have hahead := (contained_reach hlaw hr).aligned.consumed dir
  have hfs : join fs <+: join (pre ++ f :: post) := by
    rw [← hframes]
    exact hc.trans hahead
  have hcons : (join fs).length ≤ (c.world.consumed (d.source dir)).length := hc.length_le
  by_contra hlong
  have hle : (c.world.written (d.peer dir)).length ≤ (join fs).length := hw.length_le
  have hnext := (isPrefixCode .big).next_length hfs (by omega)
  omega

/-- Nothing is written behind the messages in front of one that is longer than
a header and a pipe. -/
theorem written_le (h : ∀ dir, d.transc dir = cleared) {pre post : List (Message .big)}
    {f : Message .big} (hframes : frames dir = pre ++ f :: post)
    (hbig : 20 + pipeCapacity < f.1.length) {c : WorkerConfig Host} (hr : Relays room d frames c) :
    (c.world.written (d.peer dir)).length ≤ (join pre).length := by
  have hrel := fun {c : WorkerConfig Host} (hr : Relays room d frames c) =>
    (relayed_reach relaying_writes h hr dir).1
  induction hr with
  | refl => exact Nat.zero_le _
  | @tail c₁ c₂ hr hs ih =>
      have hr₂ : Relays room d frames c₂ := hr.tail hs
      have hexact := (hrel hr).exact.resolve_right (not_stuck (contained_reach hlaw hr).aligned dir)
      cases hs with
      | start e ha => exact ih
      | @answer w w' s op k r hk =>
          obtain ⟨_, _, rfl⟩ := hk
          have hbefore : (w.written (d.peer dir)).length ≤ (join pre).length := ih
          have hsized : (w.piped (d.pipe dir)).length ≤ pipeCapacity :=
            (contained_reach hlaw hr).sized _
          show ((w.after op r).written (d.peer dir)).length ≤ (join pre).length
          by_contra hlong
          have hsink : sink op = some (d.peer dir) := by
            by_contra hne
            rw [Host.after_written, if_neg hne] at hlong
            exact hlong hbefore
          -- a call that writes takes nothing in
          have hsame : (w.after op r).consumed (d.source dir) = w.consumed (d.source dir) := by
            rw [Host.after_consumed, if_neg]
            cases op <;> simp [source, sink] at hsink ⊢
          have hall : (w.written (d.peer dir)).length +
              (held (s.transc dir) (w.piped (d.pipe dir))).length =
              (w.consumed (d.source dir)).length := by
            rw [← List.length_append]
            exact congrArg List.length hexact
          have hheld := held_le (s.transc dir) (w.piped (d.pipe dir))
          have hshort : ((w.after op r).consumed (d.source dir)).length <
              (join pre).length + f.1.length := by
            rw [hsame]
            omega
          exact hlong (written_short hlaw h hframes hr₂ hshort)

end Runs

end ZeroCopyProxy.Ports.ProxyCapacity
