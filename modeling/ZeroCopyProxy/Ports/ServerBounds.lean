import ZeroCopyProxy.Ports.ServerBody
import ZeroCopyProxy.Ports.Kernel

/-!
# Where the server stays inside its arrays

The length of a message comes from a 24-bit field, and `server_recv_data`
accepts every length above 20; the body arrays have 1024 bytes.  A header
that announces more than 1044 bytes makes the very next `read` ask for more
than `temp_read_body_buf` holds.  The sender has two more ways out of its
array, both after a short `write`: a header written in pieces leaves too much
in `recv_bytes`, and a body resumed within its last 20 bytes makes the size
of a copy negative.

`StaysInside` is the condition on one step under which none of the three
happens; runs of such steps never leave an array.
-/

namespace ZeroCopyProxy.Ports.ServerBounds

open ZeroCopyProxy.Verified.Resumption
open ZeroCopyProxy.Ports.Posix
open ZeroCopyProxy.Ports.Kernel
open ZeroCopyProxy.Ports.Frame
open ZeroCopyProxy.Ports.TranscHeader
open ZeroCopyProxy.Ports.ServerLoop
open ZeroCopyProxy.Ports.ServerBody

/-- A step that keeps the server inside its arrays: a complete header is
rejected or announces at most 1044 bytes, the last piece of a header leaves no
more in `recv_bytes` than `write_body_buf` holds, and a body that is not
written completely keeps at least 20 bytes to send, or too many were sent. -/
def StaysInside (t : ServerTransc) (op : SysCall) (r : Answer) : Prop :=
  match op with
  | .read _ .hdr _ =>
      r.ret = 20 → Accepted .little r.data → len24 .little r.data ≤ 1044
  | .write _ .hdr _ count => r.ret = count → t.recvBytes - r.ret ≤ 1024
  | .write _ .body _ count =>
      0 < r.ret → r.ret = count ∨ t.sendBytes + r.ret ≤ t.length - 20 ∨
        t.length ≤ t.sendBytes + r.ret
  | _ => True

instance (t : ServerTransc) (op : SysCall) (r : Answer) :
    Decidable (StaysInside t op r) :=
  match op with
  | .read _ .hdr _ =>
      inferInstanceAs (Decidable (r.ret = 20 → Accepted .little r.data →
        len24 .little r.data ≤ 1044))
  | .write _ .hdr _ count =>
      inferInstanceAs (Decidable (r.ret = count → t.recvBytes - r.ret ≤ 1024))
  | .write _ .body _ count =>
      inferInstanceAs (Decidable (0 < r.ret → r.ret = count ∨
        t.sendBytes + r.ret ≤ t.length - 20 ∨ t.length ≤ t.sendBytes + r.ret))
  | .read _ .body _ | .spliceIn .. | .spliceOut .. | .close _ | .getsockopt _ | .epollWait =>
      .isTrue trivial

/-- A kernel that never moves more than it was asked to, on such steps. -/
def insideKernel (w : Unit) (t : ServerTransc) (op : SysCall) (r : Answer)
    (w' : Unit) : Prop :=
  anyKernel w op r w' ∧ StaysInside t op r

/-- A message whose body fits the arrays. -/
def Fitting (t : ServerTransc) : Prop := 20 < t.length ∧ t.length ≤ 1044

/-- The phases by their flags and counters. -/
def boundPhases : Phases Unit where
  hdr _ t := t.Flags 0 0 0 0 ∧ 0 ≤ t.recvBytes ∧ t.recvBytes ≤ 20 ∧ t.sendBytes = 0
  body _ t := t.Flags 1 0 0 0 ∧ Fitting t ∧ 20 ≤ t.recvBytes ∧
    t.recvBytes < t.length ∧ t.sendBytes = 0
  sendHdr _ t := t.Flags 1 1 0 0 ∧ Fitting t ∧ t.recvBytes = t.length ∧
    0 ≤ t.sendBytes ∧ t.sendBytes < 20
  sendBody _ t := t.Flags 1 1 1 0 ∧ Fitting t ∧ 0 < t.recvBytes ∧
    t.recvBytes ≤ 1024 ∧ 20 ≤ t.sendBytes ∧
    (t.sendBytes = 20 ∨ t.sendBytes ≤ t.length - 20 ∨ t.length ≤ t.sendBytes)
  sent _ t := t.Flags 1 1 1 1

/-- The count of a call covers only the array it works on. -/
def InArrays (_ : Unit) (_ : ServerTransc) (op : SysCall) : Prop := op.InBounds

theorem boundPhases_recvHeader {fd : Int} {t : ServerTransc}
    (h : boundPhases.hdr () t) :
    wp insideKernel InArrays (fun w' t' rv => match rv with
      | some _ => True ∧ boundPhases.hdr w' t'
      | none => boundPhases.body w' t')
      (onTransc (recvHeader serverTranscGetMsgLength fd) t) () := by
  obtain ⟨hf, h0, h20, hs⟩ := h
  rw [onTransc, wp_zoom]
  apply wp_recvHeader decodes_server (fun _ _ _ _ _ hk => hk.1) h0 h20
  · show 0 ≤ 20 - t.recvBytes ∧ 20 - t.recvBytes ≤ 20
    omega
  · intro r _ _ _
    exact ⟨True.intro, ⟨hf.1, hf.2, hf.3, hf.4⟩, h0, h20, hs⟩
  · intro r _ b len _ hpos hle _ _
    refine ⟨True.intro, ⟨hf.1, hf.2, hf.3, hf.4⟩, ?_, hle, hs⟩
    show 0 ≤ t.recvBytes + r.ret
    omega
  · intro r _ b hk hpos hfull hb hacc
    have hr0 : t.recvBytes = 0 := by
      by_contra hne
      rw [hb] at hacc
      exact not_accepted_received (by omega) _ hacc
    have hlen : (r.data.length : Int) = r.ret := hk.1.2 (by omega)
    have hbytes : b.bytes = r.data := by
      rw [hb, hr0, Int.toNat_zero, received_zero (by omega)]
    have hle : len24 .little b.bytes ≤ 1044 := by
      rw [hbytes] at hacc ⊢
      exact hk.2 (by omega) hacc
    have hgt := hacc.2
    refine ⟨⟨rfl, hf.2, hf.3, hf.4⟩, ⟨?_, ?_⟩, ?_, ?_, hs⟩
    · show (20 : Int) < (len24 .little b.bytes : Int)
      omega
    · show (len24 .little b.bytes : Int) ≤ 1044
      omega
    · exact Int.le_refl 20
    · show (20 : Int) < (len24 .little b.bytes : Int)
      omega

theorem boundPhases_recvBody {fd : Int} {t : ServerTransc} (h : boundPhases.body () t) :
    wp insideKernel InArrays
      (fun w' t' _ => True ∧ (boundPhases.body w' t' ∨ boundPhases.sendHdr w' t'))
      (serverRecvBody fd t) () := by
  have hbody := h
  obtain ⟨hf, hl, h20, hlt, hs⟩ := h
  apply wp_serverRecvBody (fun _ _ _ _ _ hk => hk.1) hf h20 hl.2
  · have hle := hl.2
    show 0 ≤ t.length - t.recvBytes ∧ t.length - t.recvBytes ≤ 1024
    omega
  · intro r _ _ _
    exact ⟨True.intro, .inl hbody⟩
  · intro r _ b hk hpos hne _
    have hle : r.ret ≤ t.length - t.recvBytes := hk.1.1
    refine ⟨True.intro, .inl ⟨⟨hf.1, hf.2, hf.3, hf.4⟩, hl, ?_, ?_, hs⟩⟩
    · show 20 ≤ t.recvBytes + r.ret
      omega
    · show t.recvBytes + r.ret < t.length
      omega
  · intro r _ b _ _ hfull _
    refine ⟨True.intro, .inr ⟨⟨hf.1, rfl, hf.3, hf.4⟩, hl, hfull, ?_, ?_⟩⟩
    · show 0 ≤ t.sendBytes
      omega
    · show t.sendBytes < 20
      omega

theorem boundPhases_sendHeader {fd : Int} {t : ServerTransc}
    (h : boundPhases.sendHdr () t) :
    wp insideKernel InArrays (fun w' t' rv => match rv with
      | some _ => True ∧ boundPhases.sendHdr w' t'
      | none => boundPhases.sendHdr w' t' ∨ boundPhases.sendBody w' t')
      (onTransc (sendHeader fd) t) () := by
  obtain ⟨hf, hl, hr, h0, h19⟩ := h
  rw [onTransc, wp_zoom]
  apply wp_sendHeader (fun _ _ _ _ _ hk => hk.1) h0 h19
  · intro b _
    show 0 ≤ 20 - t.sendBytes ∧ 20 - t.sendBytes ≤ 20
    omega
  · intro b r _ _ _ _
    exact ⟨True.intro, ⟨hf.1, hf.2, hf.3, hf.4⟩, hl, hr, h0, h19⟩
  · intro b r _ _ _ hpos hlt
    refine .inl ⟨⟨hf.1, hf.2, hf.3, hf.4⟩, hl, hr, ?_, hlt⟩
    show 0 ≤ t.sendBytes + r.ret
    omega
  · intro b r _ _ hk hpos heq
    have hinside : t.recvBytes - r.ret ≤ 1024 := hk.2 (by omega)
    have hlen := hl.1
    refine .inr ⟨⟨hf.1, hf.2, rfl, hf.4⟩, hl, ?_, hinside, Int.le_refl 20, .inl rfl⟩
    show 0 < t.recvBytes - r.ret
    omega

theorem boundPhases_sendBody {fd : Int} {t : ServerTransc}
    (h : boundPhases.sendBody () t) :
    wp insideKernel InArrays
      (fun w' t' _ => True ∧ (boundPhases.sendBody w' t' ∨ boundPhases.sent w' t'))
      (serverSendBody fd t) () := by
  have hbody := h
  obtain ⟨hf, hl, hpos, hcount, h20, hsend⟩ := h
  apply wp_serverSendBody (fun _ _ _ hk => Int.le_trans hk.1 hcount) hf h20 hl.2
  · intro hlt
    rcases hsend with hsend | hsend | hsend
    · exact .inl hsend
    · exact .inr hsend
    · omega
  · intro _
    exact ⟨True.intro, .inl hbody⟩
  · intro b _ _
    exact ⟨Int.le_of_lt hpos, hcount⟩
  · intro b r _ _ _
    exact ⟨True.intro, .inl ⟨⟨hf.1, hf.2, hf.3, hf.4⟩, hl, hpos, hcount, h20, hsend⟩⟩
  · intro b r _ _ _ hk hret hne
    have hle : r.ret ≤ t.recvBytes := hk.1
    have hinside : r.ret = t.recvBytes ∨ t.sendBytes + r.ret ≤ t.length - 20 ∨
        t.length ≤ t.sendBytes + r.ret := hk.2 hret
    refine ⟨True.intro, .inl ⟨⟨hf.1, hf.2, hf.3, hf.4⟩, hl, ?_, ?_, ?_, ?_⟩⟩
    · show 0 < t.recvBytes - r.ret
      omega
    · show t.recvBytes - r.ret ≤ 1024
      omega
    · show 20 ≤ t.sendBytes + r.ret
      omega
    · rcases hinside with heq | hinside
      · omega
      · exact .inr hinside
  · intro b r _ _ _ _ _ _
    exact ⟨True.intro, .inr ⟨hf.1, hf.2, hf.3, rfl⟩⟩

/-- On steps that stay inside, each phase hands the message to the next. -/
theorem boundPhases_sound (fd : Int) :
    boundPhases.Sound insideKernel InArrays (fun _ => True) fd where
  code_normal := True.intro
  code_fdErr := True.intro
  hdr_flags h := h.1
  body_flags h := h.1
  sendHdr_flags h := h.1
  sendBody_flags h := h.1
  sent_flags h := h
  recvHeader h := boundPhases_recvHeader h
  recvBody h := boundPhases_recvBody h
  sendHeader h := boundPhases_sendHeader h
  sendBody h := boundPhases_sendBody h
  close _ _ h := ⟨True.intro, fun _ _ _ => h⟩
  check h := ⟨True.intro, fun _ _ _ => h⟩
  wait h := ⟨True.intro, fun _ _ _ => h⟩
  clear _ := ⟨⟨rfl, rfl, rfl, rfl⟩, Int.le_refl 0, by decide, rfl⟩

/-- **Bounds.**  In every run whose steps stay inside, every count handed to
the kernel covers only the array of the call, and no copy leaves an array. -/
theorem server_stays_in_arrays {serverFd fd : Int} {c : ServerConfig Unit}
    (hr : Reach insideKernel (fun _ : Unit => serverRound serverFd fd) id
      ⟨(), .done serverCleared true⟩ c) :
    c.Shows InArrays (fun _ _ _ => True) := by
  have hinit : boundPhases.hdr () serverCleared :=
    ⟨⟨rfl, rfl, rfl, rfl⟩, Int.le_refl 0, by decide, rfl⟩
  exact (server_reach (boundPhases_sound fd) hinit hr).mono
    (fun _ _ _ h => h) (fun _ _ _ _ => True.intro)

/-- A header announcing 25 bytes, least significant byte first. -/
def shortHeader : Bytes :=
  [1, 25, 0, 0, 0, 0, 0, 0, 0, 0, 0, 0, 0, 0, 0, 0, 0, 0, 0, 0]

/-- A message of 25 bytes is received; its body is offered to `write` in one
piece. -/
theorem server_stays_in_arrays_short :
    ∃ c : ServerConfig Unit, c.Shows InArrays (fun _ _ _ => True) ∧
      c.node.state.recvBytes = 5 ∧ c.node.state.isSendHeader = 1 := by
  have hrun : ∃ c : ServerConfig Unit, Reach insideKernel
      (fun _ : Unit => serverRound 3 4) id ⟨(), .done serverCleared true⟩ c ∧
      c.node.state.recvBytes = 5 ∧ c.node.state.isSendHeader = 1 :=
    exists_reach_of_exec
      (fun w t op r => if r.Fits op ∧ StaysInside t op r then some w else none)
      (by
        intro w t op r w' h
        split at h
        · assumption
        · cases h)
      [.event (), .answer (.count 0), .answer ⟨1, .other 0, [], [4]⟩,
        .answer (.stored shortHeader), .answer (.stored [1, 2, 3, 4, 5]),
        .answer (.count 20)]
      (fun c : ServerConfig Unit =>
        c.node.state.recvBytes = 5 ∧ c.node.state.isSendHeader = 1) (by decide +kernel)
  obtain ⟨c, hc, hp⟩ := hrun
  exact ⟨c, server_stays_in_arrays hc, hp⟩

/-- A header announcing 2000 bytes, least significant byte first. -/
def longHeader : Bytes :=
  [1, 208, 7, 0, 0, 0, 0, 0, 0, 0, 0, 0, 0, 0, 0, 0, 0, 0, 0, 0]

/-- Without the condition the bounds do not hold: after a header announcing
2000 bytes the body read asks for 1980. -/
theorem server_leaves_arrays :
    ¬ ∀ c : ServerConfig Unit, Reach (blind anyKernel)
      (fun _ : Unit => serverRound 3 4) id ⟨(), .done serverCleared true⟩ c →
      c.Shows InArrays (fun _ _ _ => True) := by
  intro h
  have hrun : ∃ c : ServerConfig Unit, Reach (blind anyKernel)
      (fun _ : Unit => serverRound 3 4) id ⟨(), .done serverCleared true⟩ c ∧
      c.node.waits = some (.read 4 .body 1980) :=
    exists_reach_of_exec (fun w _ => anyDeliver w) anyKernel_of_anyDeliver
      [.event (), .answer (.count 0), .answer ⟨1, .other 0, [], [4]⟩,
        .answer (.stored longHeader)]
      (fun c : ServerConfig Unit => c.node.waits = some (.read 4 .body 1980))
      (by decide +kernel)
  obtain ⟨c, hc, hop⟩ := hrun
  have hbound : SysCall.InBounds (.read 4 .body 1980) := (h c hc).call hop
  have hle : (1980 : Int) ≤ 1024 := hbound.2
  exact absurd hle (by decide)

end ZeroCopyProxy.Ports.ServerBounds
