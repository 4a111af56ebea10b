import ZeroCopyProxy.Ports.ProxyRelay
import ZeroCopyProxy.Ports.ServerLoop
import ZeroCopyProxy.Ports.Kernel
import ZeroCopyProxy.Verified.Chunks

/-!
# A header that arrives in pieces

Both receivers keep the number of header bytes received so far and put the
next ones behind them, so a header is meant to survive any way TCP splits it.
It does not: the array is cleared on every entry, and a read that does not
complete the header is answered with `BUF_ERR`, on which the caller closes
the descriptor.

A header is delivered here in pieces `ks`, with any number of reads that would
block between them, and nothing else arrives.  `ProxyHeaderLaw` and
`ServerHeaderLaw` say that every run ends up with what one read of twenty
bytes gives; both hold exactly for the one piece of twenty bytes.
-/

namespace ZeroCopyProxy.Ports.HeaderSplit

open ZeroCopyProxy.Verified.Resumption
open ZeroCopyProxy.Verified.Chunks
open ZeroCopyProxy.Ports.Posix
open ZeroCopyProxy.Ports.Kernel
open ZeroCopyProxy.Ports.Frame
open ZeroCopyProxy.Ports.TranscHeader
open ZeroCopyProxy.Ports.ProxyRelay
open ZeroCopyProxy.Ports.ServerLoop

/-! ## The two laws -/

/-- The header arrives in the pieces `ks`; a read may also find nothing yet,
and nothing follows the header. -/
def HeaderArrives (hdr : Bytes) (ks : List Nat) (w : Host) (op : SysCall) (r : Answer) :
    Prop :=
  match op with
  | .read fd .hdr _ =>
      Again r ∨ (0 ≤ r.ret ∧ next ks (w.consumed fd).length = some r.ret.toNat ∧
        w.consumed fd ++ r.moved <+: hdr)
  | .read _ .body _ => Again r
  | .spliceIn _ _ _ => Again r
  | _ => True

instance (hdr : Bytes) (ks : List Nat) (w : Host) (op : SysCall) (r : Answer) :
    Decidable (HeaderArrives hdr ks w op r) :=
  match op with
  | .read fd .hdr _ =>
      inferInstanceAs (Decidable (Again r ∨ (0 ≤ r.ret ∧
        next ks (w.consumed fd).length = some r.ret.toNat ∧ w.consumed fd ++ r.moved <+: hdr)))
  | .read _ .body _ | .spliceIn .. => inferInstanceAs (Decidable (Again r))
  | .write .. | .spliceOut .. | .close _ | .getsockopt _ | .epollWait => .isTrue trivial

/-- The kernel that delivers a header in these pieces. -/
def arrivalKernel (hdr : Bytes) (ks : List Nat) : Host → SysCall → Answer → Host → Prop :=
  hostKernel (HeaderArrives hdr ks)

/-- What one read of the whole header makes of a cleared message. -/
structure AsWhole (e : ByteOrder) (hdr : Bytes) (t : Transc) : Prop where
  isRecvHeader : t.isRecvHeader = 1
  readHdrBuf : t.readHdrBuf.bytes = hdr
  length : t.length = len24 e hdr
  recvBytes : t.recvBytes = 20

/-- The proxy closes nothing, and a header it has consumed completely has left
what one read leaves. -/
def ProxyHeaderLaw (d : WorkData) (hdr : Bytes) (ks : List Nat) : Prop :=
  ∀ c : WorkerConfig Host,
    Reach (blind (arrivalKernel hdr ks)) proxyConnEvent (fun _ => true)
      ⟨Host.fresh, .done d []⟩ c →
    (∀ fd, c.node.waits ≠ some (.close fd)) ∧
      ∀ dir, c.world.consumed (d.source dir) = hdr →
        AsWhole .big hdr (c.node.state.transc dir)

/-- The same of the server. -/
def ServerHeaderLaw (serverFd fd : Int) (hdr : Bytes) (ks : List Nat) : Prop :=
  ∀ c : ServerConfig Host,
    Reach (blind (arrivalKernel hdr ks)) (fun _ : Unit => serverRound serverFd fd) id
      ⟨Host.fresh, .done serverCleared true⟩ c →
    (∀ fd, c.node.waits ≠ some (.close fd)) ∧
      (c.world.consumed fd = hdr → AsWhole .little hdr c.node.state.toTransc)

/-! ## One piece -/

section Whole

variable {T : Type} {e : ByteOrder} {hdr : Bytes}

/-- A message whose header arrives in one piece waits for it or has it. -/
def arrivalPhases (e : ByteOrder) (hdr : Bytes) (fd : Int) (view : T → Transc) :
    MessagePhases Host T where
  hdr w t := (view t).Flags 0 0 0 0 ∧ (view t).recvBytes = 0 ∧ w.consumed fd = []
  body w t := (view t).Flags 1 0 0 0 ∧ AsWhole e hdr (view t) ∧ w.consumed fd = hdr
  sendHdr _ _ := False
  sendBody _ _ := False
  sent _ _ := False

/-- A call that takes nothing from other descriptors and closes nothing. -/
def Harmless (fd : Int) : SysCall → Prop
  | .read f _ _ => f = fd
  | .spliceIn f _ _ => f = fd
  | .close _ => False
  | _ => True

/-- What is visible of a message while its receiver waits in a call. -/
def Arriving (e : ByteOrder) (hdr : Bytes) (fd : Int) (view : T → Transc) (w : Host) (t : T)
    (op : SysCall) : Prop :=
  Harmless fd op ∧ (w.consumed fd = hdr → AsWhole e hdr (view t))

theorem Harmless.ne_close {fd f : Int} {op : SysCall} (h : Harmless fd op) :
    op ≠ .close f := by
  rintro rfl
  exact h

/-- Other descriptors keep what was consumed of them. -/
theorem Harmless.after_consumed {fd fd' : Int} {op : SysCall} (h : Harmless fd op)
    (hne : fd' ≠ fd) (w : Host) (r : Answer) :
    (w.after op r).consumed fd' = w.consumed fd' := by
  rw [Host.after_consumed, if_neg]
  intro hs
  cases op with
  | read f area n => exact hne (Option.some.inj hs ▸ h)
  | spliceIn f pipe n => exact hne (Option.some.inj hs ▸ h)
  | _ => cases hs

/-- Nothing consumed is not the whole header. -/
theorem ne_hdr (hlen : hdr.length = 20) {bs : Bytes} (h : bs = []) : bs ≠ hdr := by
  rintro rfl
  rw [h] at hlen
  exact absurd hlen (by decide)

theorem asWhole_of_inv {fd : Int} (view : T → Transc) {w : Host} {t : T}
    (hlen : hdr.length = 20) (h : (arrivalPhases e hdr fd view).Inv w t)
    (hw : w.consumed fd = hdr) : AsWhole e hdr (view t) := by
  cases h with
  | hdr h => exact absurd hw (ne_hdr hlen h.2.2)
  | body h => exact h.2.1
  | sendHdr h => exact h.elim
  | sendBody h => exact h.elim

/-- What nobody consumed stays in its phase. -/
theorem arrivalPhases_frame {fd : Int} {view : T → Transc} {w w' : Host} {t : T}
    (heq : w'.consumed fd = w.consumed fd) (h : (arrivalPhases e hdr fd view).Inv w t) :
    (arrivalPhases e hdr fd view).Inv w' t := by
  cases h with
  | hdr h => exact .hdr ⟨h.1, h.2.1, heq.trans h.2.2⟩
  | body h => exact .body ⟨h.1, h.2.1, heq.trans h.2.2⟩
  | sendHdr h => exact h.elim
  | sendBody h => exact h.elim

theorem zeroByte_lt_recvErrorCode {r : Answer} (h : Again r) :
    zeroByte < recvErrorCode r.errno := by
  rw [recvErrorCode, if_pos h.2]
  decide

/-- A read of the header finds nothing, or all of it. -/
theorem arrivalPhases_recvHeader {m : Transc → UInt64} (hm : Decodes e m)
    (hlen : hdr.length = 20) (hacc : Accepted e hdr) {fd : Int} {t : Transc} {w : Host}
    (hf : t.Flags 0 0 0 0) (h0 : t.recvBytes = 0) (hw : w.consumed fd = []) :
    wp (blind (arrivalKernel hdr [20])) (Arriving e hdr fd id)
      (fun w' t' rv => match rv with
        | some c => zeroByte < c ∧ (arrivalPhases e hdr fd id).hdr w' t'
        | none => (arrivalPhases e hdr fd id).body w' t')
      (recvHeader m fd t) w := by
  apply wp_recvHeader hm (fun _ _ _ _ _ hk => hostKernel_fits _ _ _ _ hk)
  · omega
  · omega
  · exact ⟨rfl, fun hc => absurd hc (ne_hdr hlen hw)⟩
  · intro r w' hk hle
    obtain ⟨_, hpol, rfl⟩ := hk
    have hagain : Again r := by
      rcases hpol with hagain | ⟨_, hn, _⟩
      · exact hagain
      · have hk20 := (Splits.next_single hn).2
        omega
    have hidle := (Host.after_idle w r (.read fd .hdr (20 - t.recvBytes)) hle).1
    rw [if_pos hagain.1]
    refine ⟨zeroByte_lt_recvErrorCode hagain, ⟨hf.1, hf.2, hf.3, hf.4⟩, h0, ?_⟩
    rw [hidle]
    exact hw
  · intro r w' b len hk hpos _ hb hbad
    obtain ⟨⟨hfit, _⟩, hpol, rfl⟩ := hk
    exfalso
    obtain ⟨_, hn, hpre⟩ := hpol.resolve_left (not_again_of_pos hpos)
    have hk20 := (Splits.next_single hn).2
    have hdata : (r.data.length : Int) = r.ret := hfit.2 (by omega)
    rw [hw, List.nil_append, Answer.moved_eq hdata] at hpre
    have hall : r.data = hdr := hpre.eq_of_length (by omega)
    rcases hbad with hne | hrej
    · omega
    · rw [hb, h0, Int.toNat_zero, received_zero (by omega), hall] at hrej
      exact hrej hacc
  · intro r w' b hk hpos _ hb _
    obtain ⟨⟨hfit, _⟩, hpol, rfl⟩ := hk
    have hdata : (r.data.length : Int) = r.ret := hfit.2 (by omega)
    obtain ⟨_, hn, hpre⟩ := hpol.resolve_left (not_again_of_pos hpos)
    have hk20 := (Splits.next_single hn).2
    rw [hw, List.nil_append, Answer.moved_eq hdata] at hpre
    have hall : r.data = hdr := hpre.eq_of_length (by omega)
    have hbytes : b.bytes = hdr := by
      rw [hb, h0, Int.toNat_zero, received_zero (by omega), hall]
    refine ⟨⟨rfl, hf.2, hf.3, hf.4⟩, ⟨rfl, hbytes, ?_, rfl⟩, ?_⟩
    · show (len24 e b.bytes : Int) = len24 e hdr
      rw [hbytes]
    · rw [Host.after_read_consumed, hw, List.nil_append, Answer.moved_eq hdata, hall]

/-- A read of the body finds nothing. -/
theorem arrivalPhases_recvBody {fd : Int} {pipe : Pipe} {t : Transc} {w : Host}
    (h : (arrivalPhases e hdr fd id).body w t) :
    wp (blind (arrivalKernel hdr [20])) (Arriving e hdr fd id)
      (fun w' t' c => zeroByte < c ∧ ((arrivalPhases e hdr fd id).body w' t' ∨
        (arrivalPhases e hdr fd id).sendHdr w' t'))
      (recvBody fd pipe t) w := by
  have hf : t.Flags 1 0 0 0 := h.1
  obtain ⟨_, hwhole, hw⟩ := h
  apply wp_recvBody hf
  · exact ⟨rfl, fun _ => hwhole⟩
  · intro r w' hk _
    obtain ⟨_, hagain, rfl⟩ := hk
    have hidle := (Host.after_idle w r (.spliceIn fd pipe (t.length - t.recvBytes))
      (Int.le_of_lt hagain.1)).1
    rw [if_pos hagain.1]
    refine ⟨zeroByte_lt_recvErrorCode hagain, .inl ⟨hf, hwhole, ?_⟩⟩
    rw [hidle]
    exact hw
  · intro r w' hk hpos _
    exact absurd hk.2.1 (not_again_of_pos hpos)
  · intro r w' hk hpos _
    exact absurd hk.2.1 (not_again_of_pos hpos)

theorem arrivalPhases_proxy_sound (hlen : hdr.length = 20) (hacc : Accepted .big hdr)
    (fd : Int) (pipe : Pipe) (peer : Int) :
    ProxyRelay.Phases.Sound (arrivalPhases .big hdr fd id)
      (blind (arrivalKernel hdr [20])) (Arriving .big hdr fd id) (zeroByte < ·) fd pipe
      peer where
  code_normal := by decide
  code_fdErr := by decide
  hdr_flags h := h.1
  body_flags h := h.1
  sendHdr_flags h := h.elim
  sendBody_flags h := h.elim
  sent_flags h := h.elim
  recvHeader h := arrivalPhases_recvHeader decodes_big hlen hacc h.1 h.2.1 h.2.2
  recvBody h := arrivalPhases_recvBody h
  sendHeader h := h.elim
  sendBody h := h.elim
  close hc hle _ := absurd hle (Int.not_le.2 hc)
  clear h := h.elim

/-- In one piece the header reaches the proxy as it is. -/
theorem proxyHeaderLaw_whole (hlen : hdr.length = 20) (hacc : Accepted .big hdr)
    {d : WorkData} (hd : ∀ dir, d.transc dir = cleared) : ProxyHeaderLaw d hdr [20] := by
  intro c hr
  have hne : ∀ {dir dir' : Dir}, dir' ≠ dir → d.source dir' ≠ d.source dir := by
    intro dir dir' h heq
    apply h
    rw [← d.dirOf_source dir', heq, d.dirOf_source]
  have hinit : ∀ dir,
      (arrivalPhases .big hdr (d.source dir) id).Inv Host.fresh (d.transc dir) := by
    intro dir
    rw [hd dir]
    exact .hdr ⟨⟨rfl, rfl, rfl, rfl⟩, rfl, rfl⟩
  have hshows := worker_reach (Φ := fun dir => arrivalPhases .big hdr (d.source dir) id)
    (P := fun dir => Arriving .big hdr (d.source dir) id)
    (fun dir => arrivalPhases_proxy_sound hlen hacc _ _ _)
    (by
      intro dir dir' w t op r w' t' hdir hp hk hi
      obtain ⟨_, _, rfl⟩ := hk
      exact arrivalPhases_frame (hp.1.after_consumed (hne hdir) w r) hi)
    hinit hr
  obtain ⟨w, n⟩ := c
  cases n with
  | done s codes =>
      refine ⟨fun fd => by rintro ⟨⟩, fun dir hw => ?_⟩
      exact asWhole_of_inv id hlen (hshows.2.inv dir) hw
  | call s op k =>
      obtain ⟨dir, hwait⟩ := hshows
      refine ⟨fun fd hop => hwait.call.1.ne_close (Option.some.inj hop), fun dir' hw => ?_⟩
      by_cases hdir : dir' = dir
      · subst hdir
        exact hwait.call.2 hw
      · exact asWhole_of_inv id hlen (hwait.other dir' hdir) hw
  | fault s => exact hshows.elim

/-- A read of the body finds nothing, however long the body is to be. -/
theorem arrivalPhases_serverRecvBody {fd : Int} {t : ServerTransc} {w : Host}
    (h : (arrivalPhases e hdr fd ServerTransc.toTransc).body w t) :
    wp (blind (arrivalKernel hdr [20])) (Arriving e hdr fd ServerTransc.toTransc)
      (fun w' t' c => zeroByte < c ∧
        ((arrivalPhases e hdr fd ServerTransc.toTransc).body w' t' ∨
          (arrivalPhases e hdr fd ServerTransc.toTransc).sendHdr w' t'))
      (serverRecvBody fd t) w := by
  have hf : t.Flags 1 0 0 0 := h.1
  obtain ⟨_, hwhole, hw⟩ := h
  simp only [serverRecvBody, sysRead, wp_bind, wp_state, wp_ite, wp_pure, wp_prog_call,
    wp_prog_fault]
  refine ⟨fun _ => ⟨⟨rfl, fun _ => hwhole⟩, fun r w' hk => ?_⟩,
    fun hne => absurd ⟨hf.recvHeader, hf.recvBody⟩ hne⟩
  obtain ⟨_, hagain, rfl⟩ := hk
  have hneg : r.ret < 0 := hagain.1
  have hidle := (Host.after_idle w r (.read fd .body (t.length - t.recvBytes))
    (Int.le_of_lt hneg)).1
  refine ⟨fun _ => ⟨fun _ => ⟨zeroByte_lt_recvErrorCode hagain, .inl ⟨hf, hwhole, ?_⟩⟩,
    fun hnneg => absurd hneg hnneg⟩, fun hbig => hbig ?_⟩
  · rw [hidle]
    exact hw
  · simp only [Area.size]
    omega

theorem arrivalPhases_server_sound (hlen : hdr.length = 20) (hacc : Accepted .little hdr)
    (fd : Int) :
    ServerLoop.Phases.Sound (arrivalPhases .little hdr fd ServerTransc.toTransc)
      (blind (arrivalKernel hdr [20])) (Arriving .little hdr fd ServerTransc.toTransc)
      (zeroByte < ·) fd where
  code_normal := by decide
  code_fdErr := by decide
  hdr_flags h := h.1
  body_flags h := h.1
  sendHdr_flags h := h.elim
  sendBody_flags h := h.elim
  sent_flags h := h.elim
  recvHeader h := by
    rw [onTransc, wp_zoom]
    exact arrivalPhases_recvHeader decodes_server hlen hacc h.1 h.2.1 h.2.2
  recvBody h := arrivalPhases_serverRecvBody h
  sendHeader h := h.elim
  sendBody h := h.elim
  close hc hle _ := absurd hle (Int.not_le.2 hc)
  check {w _} h := by
    have hinv := h.resolve_right id
    refine ⟨⟨True.intro, asWhole_of_inv _ hlen hinv⟩, fun r w' hk => ?_⟩
    obtain ⟨_, _, rfl⟩ := hk
    have hsame : (w.after (.getsockopt fd) r).consumed fd = w.consumed fd := rfl
    exact .inl (arrivalPhases_frame hsame hinv)
  wait {w _} h := by
    refine ⟨⟨True.intro, asWhole_of_inv _ hlen h⟩, fun r w' hk => ?_⟩
    obtain ⟨_, _, rfl⟩ := hk
    have hsame : (w.after .epollWait r).consumed fd = w.consumed fd := rfl
    exact arrivalPhases_frame hsame h
  clear h := h.elim

/-- In one piece the header reaches the server as it is. -/
theorem serverHeaderLaw_whole (hlen : hdr.length = 20) (hacc : Accepted .little hdr)
    (serverFd fd : Int) : ServerHeaderLaw serverFd fd hdr [20] := by
  intro c hr
  have hinit : (arrivalPhases .little hdr fd ServerTransc.toTransc).hdr Host.fresh
      serverCleared := ⟨⟨rfl, rfl, rfl, rfl⟩, rfl, rfl⟩
  have hshows := server_reach (arrivalPhases_server_sound hlen hacc fd) hinit hr
  obtain ⟨w, n⟩ := c
  cases n with
  | done s a =>
      refine ⟨fun f => by rintro ⟨⟩, fun hw => ?_⟩
      exact asWhole_of_inv _ hlen (hshows.resolve_right id) hw
  | call s op k =>
      exact ⟨fun f hop => hshows.1.ne_close (Option.some.inj hop), hshows.2⟩
  | fault s => exact hshows.elim

end Whole

/-! ## More than one piece -/

section Pieces

variable {T : Type} {e : ByteOrder} {hdr : Bytes} {ks : List Nat}

/-- The kernel that delivers a header in these pieces, on its answers that
bring the next piece on `fd`. -/
def pieceKernel (hdr : Bytes) (ks : List Nat) (fd : Int) (w : Host) (op : SysCall)
    (r : Answer) (w' : Host) : Prop :=
  arrivalKernel hdr ks w op r w' ∧
    match op with
    | .read _ _ _ => 0 < r.ret
    | .getsockopt _ => 0 ≤ r.ret
    | .epollWait => r.ret = 1 ∧ r.ready = [fd]
    | _ => False

/-- The calls up to the first piece. -/
def AwaitsPiece (fd : Int) (w : Host) (_ : T) (op : SysCall) : Prop :=
  match op with
  | .read f .hdr count => f = fd ∧ count = 20 ∧ w.consumed fd = []
  | .getsockopt _ => True
  | .epollWait => True
  | .close _ => True
  | _ => False

/-- The first piece is there for every call but `close`. -/
theorem exists_piece {fd : Int} {k : Nat} (hlen : hdr.length = 20)
    (hk : next ks 0 = some k) (hlt : k < 20) (hpos : 0 < k) {w : Host} {t : T}
    {op : SysCall} (h : AwaitsPiece fd w t op) :
    (∃ f, op = .close f) ∨ ∃ r w', pieceKernel hdr ks fd w op r w' := by
  cases op with
  | read f area count =>
      cases area with
      | hdr =>
          obtain ⟨rfl, rfl, hw⟩ := h
          have hdata : (hdr.take k).length = k := by
            rw [List.length_take, hlen]
            omega
          have hret : (Answer.stored (hdr.take k)).ret = k := by
            rw [Answer.stored, hdata]
          have hmoved : (Answer.stored (hdr.take k)).moved = hdr.take k :=
            Answer.moved_eq rfl
          refine .inr ⟨.stored (hdr.take k), _, ⟨⟨⟨?_, fun _ => rfl⟩, True.intro⟩,
            .inr ⟨?_, ?_, ?_⟩, rfl⟩, ?_⟩
          · rw [hret]
            omega
          · rw [hret]
            omega
          · rw [hret, hw, Int.toNat_natCast]
            exact hk
          · rw [hmoved, hw, List.nil_append]
            exact List.take_prefix k hdr
          · show 0 < (Answer.stored (hdr.take k)).ret
            rw [hret]
            omega
      | body => exact h.elim
  | close f => exact .inl ⟨f, rfl⟩
  | getsockopt f =>
      exact .inr ⟨.count 0, _, ⟨⟨True.intro, True.intro⟩, True.intro, rfl⟩, Int.le_refl 0⟩
  | epollWait =>
      exact .inr ⟨⟨1, .other 0, [], [fd]⟩, _,
        ⟨⟨True.intro, True.intro⟩, True.intro, rfl⟩, rfl, rfl⟩
  | _ => exact h.elim

/-- A first piece that is not the whole header ends with `BUF_ERR`. -/
theorem wp_recvHeader_piece {m : Transc → UInt64} (hm : Decodes e m) {fd : Int} {k : Nat}
    (hk : next ks 0 = some k) (hlt : k < 20) {t : Transc} {w : Host}
    (h0 : t.recvBytes = 0) (hw : w.consumed fd = []) :
    wp (blind (pieceKernel hdr ks fd)) (AwaitsPiece fd)
      (fun w' t' rv => rv = some bufErr ∧ AwaitsPiece fd w' t' (.close fd))
      (recvHeader m fd t) w := by
  have hpiece : ∀ {r w'}, pieceKernel hdr ks fd w (.read fd .hdr (20 - t.recvBytes)) r w' →
      r.ret = k := by
    intro r w' hr
    obtain ⟨⟨_, hpol, _⟩, hpos⟩ := hr
    exact ret_of_due (hpol.imp_right fun h => ⟨h.1, h.2.1⟩)
      (by rw [hw, List.length_nil, hk]) hpos
  apply wp_recvHeader hm (fun _ _ _ _ _ hr => hostKernel_fits _ _ _ _ hr.1)
  · omega
  · omega
  · exact ⟨rfl, by omega, hw⟩
  · intro r w' hr hle
    have hpos : 0 < r.ret := hr.2
    omega
  · intro r w' b len _ _ _ _ _
    exact ⟨rfl, True.intro⟩
  · intro r w' b hr _ hfull _ _
    have hrk := hpiece hr
    omega

/-- A first piece that is not the whole header makes the proxy close the
descriptor it came from. -/
theorem proxy_closes {k : Nat} (hlen : hdr.length = 20) (hk : next ks 0 = some k)
    (hlt : k < 20) (hpos : 0 < k) {d : WorkData} (hd : ∀ dir, d.transc dir = cleared) :
    ¬ ProxyHeaderLaw d hdr ks := by
  intro hlaw
  have hrun : wp (blind (pieceKernel hdr ks d.srcFd)) (AwaitsPiece d.srcFd)
      (fun _ _ _ => False) (proxyConnEvent d.srcFd d) Host.fresh := by
    have hdir : d.dirOf d.srcFd = .ingoing := d.dirOf_source .ingoing
    simp only [proxyConnEvent, wp_bind, wp_state, wp_ite]
    refine ⟨fun _ => ?_, fun hne => absurd True.intro hne⟩
    simp only [proxyProcessData, wp_zoom, hdir, hd]
    apply wp_forward_closes d.src_nonneg ⟨rfl, rfl, rfl, rfl⟩
    · intro w t r w' hc
      exact hc.2
    · exact wp_recvHeader_piece decodes_big hk hlt rfl rfl
  obtain ⟨c, hc, hend⟩ := exists_run_until (G := fun _ _ op => ∃ f, op = .close f) hrun
    (fun _ _ _ _ _ h => h.1) (fun _ _ _ h => exists_piece hlen hk hlt hpos h)
  rcases hend with ⟨op, hop, f, rfl⟩ | ⟨_, _, _, hF⟩
  · exact (hlaw c (.head (.start d.srcFd rfl) hc)).1 f hop
  · exact hF

/-- A first piece that is not the whole header makes the server close the
client's descriptor. -/
theorem server_closes {k : Nat} (hlen : hdr.length = 20) (hk : next ks 0 = some k)
    (hlt : k < 20) (hpos : 0 < k) {serverFd fd : Int} (hne : fd ≠ serverFd) :
    ¬ ServerHeaderLaw serverFd fd hdr ks := by
  intro hlaw
  have hrun : wp (blind (pieceKernel hdr ks fd)) (AwaitsPiece fd)
      (fun _ _ _ => False) (serverRound serverFd fd serverCleared) Host.fresh := by
    apply wp_serverRound_closes hne ⟨rfl, rfl, rfl, rfl⟩
    · intro w t r w' hc
      exact hc.2
    · exact True.intro
    · intro r w₁ hr
      exact ⟨hr.2, True.intro⟩
    · intro r₁ w₁ r w₂ hr₁ hr
      obtain ⟨⟨_, _, rfl⟩, _⟩ := hr₁
      obtain ⟨⟨_, _, rfl⟩, hret, hfds⟩ := hr
      rw [onTransc, wp_zoom]
      exact ⟨hret, hfds, wp_recvHeader_piece decodes_server hk hlt rfl rfl⟩
  obtain ⟨c, hc, hend⟩ := exists_run_until (G := fun _ _ op => ∃ f, op = .close f) hrun
    (fun _ _ _ _ _ h => h.1) (fun _ _ _ h => exists_piece hlen hk hlt hpos h)
  rcases hend with ⟨op, hop, f, rfl⟩ | ⟨_, _, _, hF⟩
  · exact (hlaw c (.head (.start () rfl) hc)).1 f hop
  · exact hF

end Pieces

/-- **Split headers.**  For a header accepted when it is read at once, a way to
split it gives what the whole header gives, and closes nothing, if and only
if it is no split at all; in the proxy and in the server. -/
theorem header_split_iff {hdr : Bytes} {ks : List Nat} (hlen : hdr.length = 20)
    (hks : Splits 20 ks) {d : WorkData} (hd : ∀ dir, d.transc dir = cleared)
    {serverFd fd : Int} (hne : fd ≠ serverFd) :
    (Accepted .big hdr → (ProxyHeaderLaw d hdr ks ↔ ks = [20])) ∧
      (Accepted .little hdr → (ServerHeaderLaw serverFd fd hdr ks ↔ ks = [20])) := by
  have hfirst : ks ≠ [20] → ∃ k, next ks 0 = some k ∧ k < 20 ∧ 0 < k := by
    intro hmany
    cases ks with
    | nil =>
        have hsum := hks.sum
        exact absurd hsum (by decide)
    | cons k post =>
        have hmem : k ∈ k :: post := List.mem_cons_self
        exact ⟨k, rfl, hks.lt_of_ne_single hmany hmem, hks.pos k hmem⟩
  refine ⟨fun hacc => ⟨fun hlaw => ?_, ?_⟩, fun hacc => ⟨fun hlaw => ?_, ?_⟩⟩
  · by_contra hmany
    obtain ⟨k, hk, hlt, hpos⟩ := hfirst hmany
    exact proxy_closes hlen hk hlt hpos hd hlaw
  · rintro rfl
    exact proxyHeaderLaw_whole hlen hacc hd
  · by_contra hmany
    obtain ⟨k, hk, hlt, hpos⟩ := hfirst hmany
    exact server_closes hlen hk hlt hpos hne hlaw
  · rintro rfl
    exact serverHeaderLaw_whole hlen hacc serverFd fd

/-- A header announcing 256 bytes in both byte orders. -/
def evenHeader : Bytes :=
  [1, 0, 1, 0, 0, 0, 0, 0, 0, 0, 0, 0, 0, 0, 0, 0, 0, 0, 0, 0]

theorem header_split_iff_whole :
    ProxyHeaderLaw sampleWorker evenHeader [20] ∧ ServerHeaderLaw 3 4 evenHeader [20] := by
  have h : (Accepted .big evenHeader →
        (ProxyHeaderLaw sampleWorker evenHeader [20] ↔ [20] = [20])) ∧
      (Accepted .little evenHeader →
        (ServerHeaderLaw 3 4 evenHeader [20] ↔ [20] = [20])) :=
    header_split_iff rfl (by decide) (fun dir => by cases dir <;> rfl) (by decide)
  exact ⟨(h.1 (by decide)).2 rfl, (h.2 (by decide)).2 rfl⟩

/-- Seven bytes and then thirteen: after the first read the proxy closes the
source's descriptor, and the server the client's. -/
theorem header_split_closes :
    ¬ ProxyHeaderLaw sampleWorker evenHeader [7, 13] ∧
      ¬ ServerHeaderLaw 3 4 evenHeader [7, 13] := by
  constructor
  · intro hlaw
    have hrun : ∃ c : WorkerConfig Host,
        Reach (blind (arrivalKernel evenHeader [7, 13])) proxyConnEvent (fun _ => true)
          ⟨Host.fresh, .done sampleWorker []⟩ c ∧ c.node.waits = some (.close 3) :=
      exists_reach_of_exec (fun w _ => hostDeliver (HeaderArrives evenHeader [7, 13]) w)
        hostKernel_of_hostDeliver
        [.event 3, .answer (.stored [1, 0, 1, 0, 0, 0, 0])]
        (fun c : WorkerConfig Host => c.node.waits = some (.close 3)) (by decide)
    obtain ⟨c, hc, hop⟩ := hrun
    exact (hlaw c hc).1 3 hop
  · intro hlaw
    have hrun : ∃ c : ServerConfig Host,
        Reach (blind (arrivalKernel evenHeader [7, 13]))
          (fun _ : Unit => serverRound 3 4) id
          ⟨Host.fresh, .done serverCleared true⟩ c ∧ c.node.waits = some (.close 4) :=
      exists_reach_of_exec (fun w _ => hostDeliver (HeaderArrives evenHeader [7, 13]) w)
        hostKernel_of_hostDeliver
        [.event (), .answer (.count 0), .answer ⟨1, .other 0, [], [4]⟩,
          .answer (.stored [1, 0, 1, 0, 0, 0, 0])]
        (fun c : ServerConfig Host => c.node.waits = some (.close 4)) (by decide)
    obtain ⟨c, hc, hop⟩ := hrun
    exact (hlaw c hc).1 4 hop

end ZeroCopyProxy.Ports.HeaderSplit
