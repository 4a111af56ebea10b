import ZeroCopyProxy.Ports.ProxyRelay
import ZeroCopyProxy.Ports.Kernel

/-!
# The flags and counters of the proxy

What `proxy_process_data` keeps about a `transc_t` when nothing at all is
known about the kernel, except that a call moves no more than it was asked
to: headers and bodies may be split anywhere, and any call may fail.

The four phases have the flags `0000`, `1000`, `1100` and `1110`.  The
counters are bounded in each of them; `recv_bytes` is the number of bytes
received up to the third phase, and from the fourth on only a positive upper
bound for what `splice` is asked to send.
-/

namespace ZeroCopyProxy.Ports.ProxyFlags

open ZeroCopyProxy.Verified.Resumption
open ZeroCopyProxy.Ports.Posix
open ZeroCopyProxy.Ports.Kernel
open ZeroCopyProxy.Ports.Frame
open ZeroCopyProxy.Ports.TranscHeader
open ZeroCopyProxy.Ports.ProxyRelay

/-- The invariant of a `transc_t`, as an observer sees it. -/
structure WellFormed (t : Transc) : Prop where
  header_of_body : t.isRecvBody = 1 → t.isRecvHeader = 1
  body_of_send : t.isSendHeader = 1 → t.isRecvBody = 1
  length_range : t.isRecvHeader = 1 → 20 < t.length ∧ t.length < 2 ^ 24
  recv_nonneg : 0 ≤ t.recvBytes
  recv_header : t.isRecvHeader = 0 → t.recvBytes ≤ 20
  recv_body : t.isRecvHeader ≠ 0 → t.recvBytes ≤ t.length
  send_nonneg : 0 ≤ t.sendBytes
  send_header : t.isSendHeader = 0 → t.sendBytes ≤ 19

/-- The length of a message whose header was accepted. -/
def Announced (t : Transc) : Prop := 20 < t.length ∧ t.length < 2 ^ 24

/-- The phases by their flags and counters alone. -/
def flagPhases : Phases Unit where
  hdr _ t := t.Flags 0 0 0 0 ∧ 0 ≤ t.recvBytes ∧ t.recvBytes ≤ 20 ∧ t.sendBytes = 0
  body _ t := t.Flags 1 0 0 0 ∧ Announced t ∧ 20 ≤ t.recvBytes ∧
    t.recvBytes < t.length ∧ t.sendBytes = 0
  sendHdr _ t := t.Flags 1 1 0 0 ∧ Announced t ∧ t.recvBytes = t.length ∧
    0 ≤ t.sendBytes ∧ t.sendBytes < 20
  sendBody _ t := t.Flags 1 1 1 0 ∧ Announced t ∧ 0 < t.recvBytes ∧
    t.recvBytes ≤ t.length ∧ 20 ≤ t.sendBytes
  sent _ t := t.Flags 1 1 1 1

/-- What is visible of a message while the proxy waits in a call. -/
def CallVisible (_ : Unit) (t : Transc) (op : SysCall) : Prop :=
  WellFormed t ∧ op.InBounds

theorem wellFormed_hdr {t : Transc} (h : flagPhases.hdr () t) : WellFormed t := by
  obtain ⟨⟨h1, h2, h3, h4⟩, h0, h20, hs⟩ := h
  constructor <;> omega

theorem wellFormed_body {t : Transc} (h : flagPhases.body () t) : WellFormed t := by
  obtain ⟨⟨h1, h2, h3, h4⟩, ⟨hl, hu⟩, h0, h20, hs⟩ := h
  constructor <;> omega

theorem wellFormed_sendHdr {t : Transc} (h : flagPhases.sendHdr () t) :
    WellFormed t := by
  obtain ⟨⟨h1, h2, h3, h4⟩, ⟨hl, hu⟩, h0, h20, hs⟩ := h
  constructor <;> omega

theorem wellFormed_sendBody {t : Transc} (h : flagPhases.sendBody () t) :
    WellFormed t := by
  obtain ⟨⟨h1, h2, h3, h4⟩, ⟨hl, hu⟩, h0, h20, hs⟩ := h
  constructor <;> omega

theorem wellFormed_of_inv {t : Transc} (h : flagPhases.Inv () t) : WellFormed t := by
  cases h with
  | hdr h => exact wellFormed_hdr h
  | body h => exact wellFormed_body h
  | sendHdr h => exact wellFormed_sendHdr h
  | sendBody h => exact wellFormed_sendBody h

theorem flagPhases_recvHeader {fd : Int} {t : Transc} (h : flagPhases.hdr () t) :
    wp (blind anyKernel) CallVisible (fun w' t' rv => match rv with
      | some c => c ≠ unknown ∧ flagPhases.hdr w' t'
      | none => flagPhases.body w' t')
      (recvHeader (fun t => transcGetMsgLength t endian) fd t) () := by
  have hwf := wellFormed_hdr h
  obtain ⟨hf, h0, h20, hs⟩ := h
  apply wp_recvHeader decodes_big (fun _ _ _ _ _ hk => hk) h0 h20
  · refine ⟨⟨hwf.1, hwf.2, hwf.3, hwf.4, hwf.5, hwf.6, hwf.7, hwf.8⟩, ?_⟩
    show 0 ≤ 20 - t.recvBytes ∧ 20 - t.recvBytes ≤ 20
    omega
  · intro r _ _ _
    refine ⟨?_, ⟨hf.1, hf.2, hf.3, hf.4⟩, h0, h20, hs⟩
    split
    · exact recvErrorCode_ne_unknown _
    · decide
  · intro r _ b len _ hpos hle _ _
    refine ⟨by decide, ⟨hf.1, hf.2, hf.3, hf.4⟩, ?_, hle, hs⟩
    show 0 ≤ t.recvBytes + r.ret
    omega
  · intro r _ b _ _ _ _ hacc
    have hlt := len24_lt .big b.bytes
    have hgt := hacc.2
    refine ⟨⟨rfl, hf.2, hf.3, hf.4⟩, ⟨?_, ?_⟩, ?_, ?_, hs⟩
    · show (20 : Int) < (len24 .big b.bytes : Int)
      omega
    · show (len24 .big b.bytes : Int) < 2 ^ 24
      omega
    · show (20 : Int) ≤ 20
      decide
    · show (20 : Int) < (len24 .big b.bytes : Int)
      omega

theorem flagPhases_recvBody {fd : Int} {pipe : Pipe} {t : Transc}
    (h : flagPhases.body () t) :
    wp (blind anyKernel) CallVisible
      (fun w' t' c => c ≠ unknown ∧ (flagPhases.body w' t' ∨ flagPhases.sendHdr w' t'))
      (recvBody fd pipe t) () := by
  have hwf := wellFormed_body h
  have hbody := h
  obtain ⟨hf, hl, h0, h20, hs⟩ := h
  apply wp_recvBody hf
  · refine ⟨hwf, ?_⟩
    show 0 ≤ t.length - t.recvBytes
    omega
  · intro r _ _ _
    refine ⟨?_, .inl hbody⟩
    split
    · exact recvErrorCode_ne_unknown _
    · decide
  · intro r _ hk hpos hne
    have hle : r.ret ≤ t.length - t.recvBytes := hk.1
    refine ⟨by decide, .inl ⟨⟨hf.1, hf.2, hf.3, hf.4⟩, hl, ?_, ?_, hs⟩⟩
    · show 20 ≤ t.recvBytes + r.ret
      omega
    · show t.recvBytes + r.ret < t.length
      omega
  · intro r _ hk hpos heq
    refine ⟨by decide, .inr ⟨⟨hf.1, rfl, hf.3, hf.4⟩, hl, heq, ?_, ?_⟩⟩
    · show 0 ≤ t.sendBytes
      omega
    · show t.sendBytes < 20
      omega

theorem flagPhases_sendHeader {peer : Int} {t : Transc}
    (h : flagPhases.sendHdr () t) :
    wp (blind anyKernel) CallVisible (fun w' t' rv => match rv with
      | some c => c ≠ unknown ∧ flagPhases.sendHdr w' t'
      | none => flagPhases.sendHdr w' t' ∨ flagPhases.sendBody w' t')
      (sendHeader peer t) () := by
  have hwf := wellFormed_sendHdr h
  obtain ⟨hf, hl, hr, h0, h19⟩ := h
  apply wp_sendHeader (fun _ _ _ _ _ hk => hk) h0 h19
  · intro b _
    refine ⟨⟨hwf.1, hwf.2, hwf.3, hwf.4, hwf.5, hwf.6, hwf.7, hwf.8⟩, ?_⟩
    show 0 ≤ 20 - t.sendBytes ∧ 20 - t.sendBytes ≤ 20
    omega
  · intro b r _ _ _ _
    exact ⟨sendErrorCode_ne_unknown _, ⟨hf.1, hf.2, hf.3, hf.4⟩, hl, hr, h0, h19⟩
  · intro b r _ _ _ hpos hlt
    refine .inl ⟨⟨hf.1, hf.2, hf.3, hf.4⟩, hl, hr, ?_, hlt⟩
    show 0 ≤ t.sendBytes + r.ret
    omega
  · intro b r _ _ _ hpos heq
    have hlen := hl.1
    refine .inr ⟨⟨hf.1, hf.2, rfl, hf.4⟩, hl, ?_, ?_, Int.le_refl 20⟩
    · show 0 < t.recvBytes - r.ret
      omega
    · show t.recvBytes - r.ret ≤ t.length
      omega

theorem flagPhases_sendBody {pipe : Pipe} {peer : Int} {t : Transc}
    (h : flagPhases.sendBody () t) :
    wp (blind anyKernel) CallVisible
      (fun w' t' c => c ≠ unknown ∧ (flagPhases.sendBody w' t' ∨ flagPhases.sent w' t'))
      (sendBody pipe peer t) () := by
  have hwf := wellFormed_sendBody h
  have hbody := h
  obtain ⟨hf, hl, h0, h20, hs⟩ := h
  apply wp_sendBody hf
  · exact ⟨hwf, Int.le_of_lt h0⟩
  · intro r _ _ _
    exact ⟨sendErrorCode_ne_unknown _, .inl hbody⟩
  · intro r _ hk hpos hne
    have hle : r.ret ≤ t.recvBytes := hk
    refine ⟨by decide, .inl ⟨⟨hf.1, hf.2, hf.3, hf.4⟩, hl, ?_, ?_, ?_⟩⟩
    · show 0 < t.recvBytes - r.ret
      omega
    · show t.recvBytes - r.ret ≤ t.length
      omega
    · show 20 ≤ t.sendBytes + r.ret
      omega
  · intro r _ _ _ _
    exact ⟨by decide, .inr ⟨hf.1, hf.2, hf.3, rfl⟩⟩

/-- Whatever the kernel does, each phase hands the message to the next. -/
theorem flagPhases_sound (fd : Int) (pipe : Pipe) (peer : Int) :
    flagPhases.Sound (blind anyKernel) CallVisible (· ≠ unknown) fd pipe peer where
  code_normal := by decide
  code_fdErr := by decide
  hdr_flags h := h.1
  body_flags h := h.1
  sendHdr_flags h := h.1
  sendBody_flags h := h.1
  sent_flags h := h
  recvHeader h := flagPhases_recvHeader h
  recvBody h := flagPhases_recvBody h
  sendHeader h := flagPhases_sendHeader h
  sendBody h := flagPhases_sendBody h
  close _ _ h := ⟨⟨wellFormed_of_inv h, True.intro⟩, fun _ _ _ => h⟩
  clear _ := ⟨⟨rfl, rfl, rfl, rfl⟩, Int.le_refl 0, by decide, rfl⟩

/-! ## Runs of a worker -/

/-- What holds of both messages while a worker waits in a call. -/
def CallInvariant (_ : Unit) (d : WorkData) (op : SysCall) : Prop :=
  (∀ dir, WellFormed (d.transc dir)) ∧ op.InBounds

/-- What holds of both messages when `proxy_process_data` has returned. -/
def ReturnInvariant (_ : Unit) (d : WorkData) (codes : List Int) : Prop :=
  unknown ∉ codes ∧ ∀ dir, WellFormed (d.transc dir) ∧ (d.transc dir).isSendBody = 0

/-- In every run from cleared messages, whatever the kernel answers, the
invariant holds at every call and at every return; every count handed to the
kernel is in bounds, no copy leaves a header array, and no `UNKNOWN` branch
is taken. -/
theorem transc_invariant {d : WorkData} (h : ∀ dir, d.transc dir = cleared)
    {c : WorkerConfig Unit}
    (hr : Reach (blind anyKernel) proxyConnEvent (fun _ => true) ⟨(), .done d []⟩ c) :
    c.Shows CallInvariant ReturnInvariant := by
  have hinit : ∀ dir, flagPhases.Inv () (d.transc dir) := by
    intro dir
    rw [h dir]
    exact .hdr ⟨⟨rfl, rfl, rfl, rfl⟩, Int.le_refl 0, by decide, rfl⟩
  have hshows := worker_reach (Φ := fun _ => flagPhases) (P := fun _ => CallVisible)
    (fun dir => flagPhases_sound _ _ _) (fun _ _ _ _ hi => hi) hinit hr
  refine hshows.mono ?_ ?_
  · rintro ⟨⟩ d' op ⟨dir, hw⟩
    refine ⟨fun dir' => ?_, hw.call.2⟩
    by_cases hdir : dir' = dir
    · subst hdir
      exact hw.call.1
    · exact wellFormed_of_inv (hw.other dir' hdir)
  · rintro ⟨⟩ d' codes ⟨hcodes, hset⟩
    refine ⟨fun hmem => hcodes unknown hmem rfl, fun dir =>
      ⟨wellFormed_of_inv (hset.inv dir), ?_⟩⟩
    exact (flagPhases_sound 0 ⟨0, 0⟩ 0).not_sent (hset.inv dir)

/-- After a header read of seven bytes the proxy closes the descriptor and
keeps the count; the next header read asks for thirteen. -/
theorem transc_invariant_short_header :
    ∃ c : WorkerConfig Unit,
      c.Shows CallInvariant ReturnInvariant ∧
        c.node.state.ingoingTransc.recvBytes = 7 := by
  have hrun : ∃ c : WorkerConfig Unit, Reach (blind anyKernel) proxyConnEvent (fun _ => true)
      ⟨(), .done sampleWorker []⟩ c ∧ c.node.state.ingoingTransc.recvBytes = 7 :=
    exists_reach_of_exec (fun w _ => anyDeliver w) anyKernel_of_anyDeliver
      [.event 3, .answer (.stored [1, 0, 0, 30, 0, 0, 0]), .answer (.count 0), .event 3]
      (fun c : WorkerConfig Unit => c.node.state.ingoingTransc.recvBytes = 7)
      (by decide)
  obtain ⟨c, hc, hp⟩ := hrun
  exact ⟨c, transc_invariant (d := sampleWorker) (fun dir => by cases dir <;> rfl) hc, hp⟩

end ZeroCopyProxy.Ports.ProxyFlags
