import ZeroCopyProxy.Ports.ServerStack

/-!
# The run on which one message is echoed

A message arrives in two reads, and its header is written in pieces of 1 and
19 bytes.  The body is then written with a count that is one too large: behind
it goes the byte that was at its place in `write_body_buf` before.
-/

namespace ZeroCopyProxy.Ports.ServerMessage

open ZeroCopyProxy.Verified.Resumption
open ZeroCopyProxy.Verified.TwoRuns
open ZeroCopyProxy.Ports.Posix
open ZeroCopyProxy.Ports.Frame
open ZeroCopyProxy.Ports.TranscHeader
open ZeroCopyProxy.Ports.ServerLoop
open ZeroCopyProxy.Ports.ServerBody
open ZeroCopyProxy.Ports.ServerStack

/-! ## The results of one message -/

/-- The header of a message with a body of `n` bytes. -/
def msgHeader (n : Nat) : Bytes :=
  [1, UInt8.ofNat (20 + n), UInt8.ofNat ((20 + n) / 256), 0] ++ List.replicate 16 0

theorem msgHeader_length (n : Nat) : (msgHeader n).length = 20 := by
  simp [msgHeader]

theorem len24_msgHeader {n : Nat} (hn : n ≤ 1023) : len24 .little (msgHeader n) = 20 + n := by
  have hlow : (UInt8.ofNat (20 + n)).toNat = (20 + n) % 256 := UInt8.toNat_ofNat'
  have hhigh : (UInt8.ofNat ((20 + n) / 256)).toNat = (20 + n) / 256 % 256 := UInt8.toNat_ofNat'
  show ((0 : UInt8).toNat <<< 16) + ((UInt8.ofNat ((20 + n) / 256)).toNat <<< 8) +
    (UInt8.ofNat (20 + n)).toNat = 20 + n
  rw [hlow, hhigh]
  simp only [Nat.shiftLeft_eq, UInt8.toNat_zero]
  omega

theorem accepted_msgHeader {n : Nat} (h0 : 0 < n) (hn : n ≤ 1023) :
    Accepted .little (msgHeader n) := by
  refine ⟨by show (1 : UInt8) ≠ 0; decide, ?_⟩
  rw [len24_msgHeader hn]
  omega

/-- There is an event on the client's descriptor. -/
def clientEvent (fd : Int) : Answer := ⟨1, .other 0, [], [fd]⟩

/-- The message arrives in two reads, of the header and of the body. -/
def arrival (fd : Int) (n : Nat) : List Answer :=
  [.count 0, clientEvent fd, .stored (msgHeader n), .stored (List.replicate n 0)]

/-- Its header is written in pieces of 1 and 19 bytes, and then its body. -/
def echo (fd : Int) (n : Nat) : List Answer :=
  [.count 1, .count 0, clientEvent fd, .count 19, .count (n + 1)]

section Message

variable {G : List (SysCall × Option Answer) → Prop} {fd : Int} {n : Nat} {t : ServerTransc}
  {rest : List Answer} {es : List (SysCall × Option Answer)}
  {Q : List Answer × List (SysCall × Option Answer) → ServerTransc → Unit → Prop}

/-- An answer fits its call. -/
abbrev Fits (op : SysCall) (r : Answer) : Prop := r.Fits op

/-- Its header arrives. -/
theorem wp_header_arrives (h0 : 0 < n) (hn : n ≤ 1023) (hbytes : t.recvBytes = 0)
    {Q : List Answer × List (SysCall × Option Answer) → ServerTransc → Option Int → Prop}
    (hQ : ∀ hdr : Buf 20, hdr.bytes = msgHeader n →
      Q (rest, es ++ [(.read fd .hdr 20, some (.stored (msgHeader n)))])
        { t with
          readHdrBuf := hdr, length := 20 + n, recvBytes := 20, isRecvHeader := 1 } none) :
    wp (records Fits) (Fitting Fits G) Q (onTransc (recvHeader serverTranscGetMsgLength fd) t)
      (.stored (msgHeader n) :: rest, es) := by
  have hret : ((msgHeader n).length : Int) = 20 := by rw [msgHeader_length]; rfl
  rw [onTransc, wp_zoom]
  apply wp_recvHeader decodes_server
  case hK => exact fun _ _ _ _ _ h => h.2.2
  case h0 => rw [hbytes]
  case h20 =>
    rw [hbytes]
    decide
  case hP =>
    rw [hbytes]
    exact ⟨Int.le_of_eq hret, fun _ => rfl⟩
  case hnone =>
    intro r w' hk hle
    obtain ⟨rfl, -⟩ := records_cons hk
    exact absurd (hret.symm.trans_le hle) (by decide)
  case hbad =>
    intro r w' b len hk _ _ hb hbad
    obtain ⟨rfl, -⟩ := records_cons hk
    rcases hbad with hshort | hrejected
    · rw [hbytes, Int.zero_add] at hshort
      exact absurd hret hshort
    · rw [hb, hbytes] at hrejected
      exact absurd (accepted_msgHeader h0 hn) (received_zero (msgHeader_length n) ▸ hrejected)
  case hgood =>
    intro r w' hdr hk _ _ hb _
    obtain ⟨rfl, rfl, -⟩ := records_cons hk
    have hdata : hdr.bytes = msgHeader n := by
      rw [hb, hbytes]
      exact received_zero (msgHeader_length n)
    have hlen : (len24 .little hdr.bytes : Int) = 20 + n := by
      rw [hdata, len24_msgHeader hn]
      rfl
    rw [hlen, hbytes]
    exact hQ hdr hdata

/-- Its body arrives. -/
theorem wp_body_arrives {sh sb : Int} (h0 : 0 < n) (hn : n ≤ 1023) (hf : t.Flags 1 0 sh sb)
    (hlength : t.length = 20 + n) (hbytes : t.recvBytes = 20)
    {Q : List Answer × List (SysCall × Option Answer) → ServerTransc → Int → Prop}
    (hQ : ∀ body : Buf 1024, body.bytes = placed t.readBodyBuf.bytes 0 (List.replicate n 0) →
      Q (rest, es ++ [(.read fd .body n, some (.stored (List.replicate n 0)))])
        { t with readBodyBuf := body, recvBytes := 20 + n, isRecvBody := 1 } normal) :
    wp (records Fits) (Fitting Fits G) Q (serverRecvBody fd t)
      (.stored (List.replicate n 0) :: rest, es) := by
  have hret : (Answer.stored (List.replicate n 0)).ret = n := by
    show ((List.replicate n (0 : UInt8)).length : Int) = n
    rw [List.length_replicate]
  have hcount : t.length - t.recvBytes = n := by omega
  apply wp_serverRecvBody (fun _ _ _ _ _ h => h.2.2) hf
  case h20 => omega
  case hlen => omega
  case hP =>
    rw [hcount]
    exact ⟨Int.le_of_eq hret, fun _ => rfl⟩
  case hnone =>
    intro r w' hk hle
    obtain ⟨rfl, -⟩ := records_cons hk
    omega
  case hpart =>
    intro r w' b hk _ hpart
    obtain ⟨rfl, -⟩ := records_cons hk
    omega
  case hfull =>
    intro r w' b hk _ _ hb
    obtain ⟨rfl, rfl, -⟩ := records_cons hk
    rw [hbytes, Int.sub_self] at hb
    rw [hret, hcount, hbytes]
    exact hQ b hb

/-- A whole message arrives where the server waits for one. -/
theorem wp_arrival {sh sb : Int} (h0 : 0 < n) (hn : n ≤ 1023)
    (hf : t.Flags 0 0 sh sb) (hbytes : t.recvBytes = 0)
    (hQ : ∀ (hdr : Buf 20) (body : Buf 1024), hdr.bytes = msgHeader n →
      body.bytes = placed t.readBodyBuf.bytes 0 (List.replicate n 0) →
      Q (rest, es ++ [(.read fd .hdr 20, some (.stored (msgHeader n))),
          (.read fd .body n, some (.stored (List.replicate n 0)))])
        { t with
          readHdrBuf := hdr, length := 20 + n, recvBytes := 20 + n, isRecvHeader := 1
          isRecvBody := 1, readBodyBuf := body } ()) :
    wp (records Fits) (Fitting Fits G) Q (serverReceive fd t)
      (.stored (msgHeader n) :: .stored (List.replicate n 0) :: rest, es) := by
  simp only [serverReceive, serverRecvData, wp_bind, wp_state, wp_ite, wp_pure]
  refine ⟨fun _ => ?_, fun hne => absurd ⟨hf.recvHeader, hf.recvBody⟩ hne⟩
  apply wp_header_arrives h0 hn hbytes
  intro hdr hdata
  simp only
  apply wp_body_arrives h0 hn
  case hf => exact ⟨rfl, hf.recvBody, hf.sendHeader, hf.sendBody⟩
  case hlength => rfl
  case hbytes => rfl
  case hQ =>
    intro body hbody
    refine ⟨fun hle => absurd hle (by decide), fun _ => ?_⟩
    rw [List.append_assoc]
    exact hQ hdr body hdata hbody

/-- The first byte of the header is written. -/
theorem wp_firstPiece (hfd : 0 ≤ fd) (hf : t.Flags 1 1 0 0) (hsend : t.sendBytes = 0)
    (hQ : ∀ b : Buf 20, b.bytes = t.readHdrBuf.bytes →
      Q (rest, es ++ [(.write fd .hdr b.bytes 20, some (.count 1))])
        { t with writeHdrBuf := b, sendBytes := 1 } ()) :
    wp (records Fits) (Fitting Fits G) Q (serverSend fd t) (.count 1 :: rest, es) := by
  simp only [serverSend, serverSendData, wp_bind, wp_state, wp_ite, wp_pure]
  refine ⟨fun hneg => absurd hfd (Int.not_le.2 hneg), fun _ => ⟨fun _ => ?_,
    fun hne => absurd ⟨hf.sendHeader, hf.sendBody⟩ hne⟩⟩
  rw [onTransc, wp_zoom]
  apply wp_sendHeader
  case hK => exact fun _ _ _ _ _ h => h.2.2
  case h0 => rw [hsend]
  case h19 =>
    rw [hsend]
    decide
  case hP =>
    intro b _
    rw [hsend]
    show (1 : Int) ≤ 20
    decide
  case hnone =>
    intro b r w' _ hk hle
    obtain ⟨rfl, -⟩ := records_cons hk
    exact absurd hle (by decide)
  case hpart =>
    intro b r w' hb hk _ _
    obtain ⟨rfl, rfl, -⟩ := records_cons hk
    rw [hsend] at hb
    have hend := hQ b hb
    rw [hsend]
    simp only [serverSendBody, wp_bind, wp_state, wp_ite, wp_pure]
    refine ⟨fun hflags => absurd (hf.sendHeader.symm.trans hflags.1) (by decide), fun _ => ?_⟩
    exact hend
  case hfull =>
    intro b r w' hb hk _ hfull
    obtain ⟨rfl, -⟩ := records_cons hk
    rw [hsend] at hfull
    exact absurd hfull (by decide)

/-- Behind what a copy has put there an array is as it was. -/
theorem byteAt_behind {body : Bytes} {n : Nat} (h : n ≤ body.length) (old : Bytes) :
    byteAt (body.take n ++ old.drop n) n = byteAt old n := by
  have hlen : (body.take n).length = n := by rw [List.length_take, Nat.min_eq_left h]
  rw [byteAt_append_right _ (Nat.le_of_eq hlen), hlen, byteAt_drop, Nat.sub_self, Nat.add_zero]

/-- The body is written with a count that is one too large. -/
theorem wp_long_body {rh rb : Int} (hn : n ≤ 1023) (hf : t.Flags rh rb 1 0) (h0 : 0 < n)
    (hlength : t.length = 20 + n) (hrecv : t.recvBytes = n + 1) (hsend : t.sendBytes = 20)
    {Q : List Answer × List (SysCall × Option Answer) → ServerTransc → Int → Prop}
    (hQ : ∀ body : Buf 1024, byteAt body.bytes n = byteAt t.writeBodyBuf.bytes n →
      Q (rest, es ++ [(.write fd .body body.bytes (n + 1), some (.count (n + 1)))])
        { t with
          writeBodyBuf := body, recvBytes := 0, sendBytes := 20 + (n + 1), isSendBody := 1 }
        normal) :
    wp (records Fits) (Fitting Fits G) Q (serverSendBody fd t)
      (.count (n + 1) :: rest, es) := by
  have hret : (Answer.count ((n : Int) + 1)).ret = n + 1 := rfl
  apply wp_serverSendBody
  case hf => exact hf
  case h20 => omega
  case hlen => omega
  case hroom => exact fun _ => .inl hsend
  case hret =>
    intro c r w' hk
    obtain ⟨rfl, -⟩ := records_cons hk
    omega
  case hover =>
    intro hle
    omega
  case hP =>
    intro _ _ _
    rw [hrecv]
    exact Int.le_refl _
  case hfail =>
    intro c r w' hk hle
    obtain ⟨rfl, -⟩ := records_cons hk
    omega
  case hpart =>
    intro c r w' _ _ hk _ hne
    obtain ⟨rfl, -⟩ := records_cons hk
    omega
  case hfull =>
    intro c r w' _ hc hk _ _
    obtain ⟨rfl, rfl, -⟩ := records_cons hk
    have hstale : byteAt c.bytes n = byteAt t.writeBodyBuf.bytes n := by
      have hn' : (t.length - 20).toNat = n := by omega
      rw [hc]
      simp only [hn', hsend, Int.sub_self, Int.toNat_zero, bodyToSend, if_true]
      exact byteAt_behind (t.readBodyBuf.size.symm ▸ by omega) _
    rw [hrecv, hsend]
    exact hQ c hstale

/-- The rest of the header is written, and then the body. -/
theorem wp_lastPieces (hfd : 0 ≤ fd) (h0 : 0 < n) (hn : n ≤ 1023) (hf : t.Flags 1 1 0 0)
    (hlength : t.length = 20 + n) (hrecv : t.recvBytes = 20 + n) (hsend : t.sendBytes = 1)
    (hQ : ∀ (b : Buf 20) (body : Buf 1024) (t' : ServerTransc), t'.Flags 1 1 1 1 →
      byteAt body.bytes n = byteAt t.writeBodyBuf.bytes n →
      Q (rest, es ++ [(.write fd .hdr b.bytes 19, some (.count 19)),
        (.write fd .body body.bytes (n + 1), some (.count (n + 1)))]) t' ()) :
    wp (records Fits) (Fitting Fits G) Q (serverSend fd t)
      (.count 19 :: .count (n + 1) :: rest, es) := by
  simp only [serverSend, serverSendData, wp_bind, wp_state, wp_ite, wp_pure]
  refine ⟨fun hneg => absurd hfd (Int.not_le.2 hneg), fun _ => ⟨fun _ => ?_,
    fun hne => absurd ⟨hf.sendHeader, hf.sendBody⟩ hne⟩⟩
  rw [onTransc, wp_zoom]
  apply wp_sendHeader
  case hK => exact fun _ _ _ _ _ h => h.2.2
  case h0 => omega
  case h19 => omega
  case hP =>
    intro b _
    rw [hsend]
    show (19 : Int) ≤ 20 - 1
    decide
  case hnone =>
    intro b r w' _ hk hle
    obtain ⟨rfl, -⟩ := records_cons hk
    exact absurd hle (by decide)
  case hpart =>
    intro b r w' hb hk _ hlt
    obtain ⟨rfl, -⟩ := records_cons hk
    rw [hsend] at hlt
    exact absurd hlt (by decide)
  case hfull =>
    intro b r w' hb hk _ _
    obtain ⟨rfl, rfl, -⟩ := records_cons hk
    simp only
    apply wp_long_body hn
    case hf => exact ⟨rfl, rfl, rfl, hf.sendBody⟩
    case h0 => exact h0
    case hlength => exact hlength
    case hrecv =>
      show t.recvBytes - 19 = n + 1
      omega
    case hsend => rfl
    case hQ =>
      intro c hstale
      rw [List.append_assoc, hsend]
      exact hQ b c _ ⟨hf.recvHeader, hf.recvBody, rfl, rfl⟩ hstale

end Message

/-! ## The run -/

section Run

variable {serverFd fd : Int} {t : ServerTransc} {n : Nat} {rest : List Answer}
  {G : List (SysCall × Option Answer) → Prop} {es : List (SysCall × Option Answer)}

/-- A round with one event, on the client's descriptor. -/
theorem serverRun_event (hne : fd ≠ serverFd)
    (hsent : ¬ (t.isSendHeader = 1 ∧ t.isSendBody = 1))
    (h : wp (records Fits) (Fitting Fits G)
      (fun w s _ => G (w.2 ++ serverRun serverFd fd s w.1)) (serverEvent fd t)
      (rest, es ++ [(.getsockopt fd, some (.count 0)), (.epollWait, some (clientEvent fd))])) :
    G (es ++ serverRun serverFd fd t (.count 0 :: clientEvent fd :: rest)) := by
  have hcalls : (serverRound serverFd fd t).waits ≠ none := Option.some_ne_none _
  have hround : wp (records Fits) (Fitting Fits G)
      (fun w s a => G (w.2 ++ log (serverRound serverFd fd) id (.done s a) w.1))
      (serverRound serverFd fd t) (.count 0 :: clientEvent fd :: rest, es) := by
    have hone : (clientEvent fd).ret = 1 := rfl
    unfold serverRound
    simp only [wp_bind, wp_prog_call]
    refine ⟨True.intro, fun c w' hk => ?_⟩
    obtain ⟨rfl, rfl, -⟩ := records_cons hk
    simp only [wp_ite, wp_pure, wp_bind, wp_prog_call]
    refine ⟨fun hneg => absurd hneg (by decide), fun _ => ?_⟩
    rw [serverClear_eq, wp_done, afterClear, if_neg hsent]
    refine ⟨True.intro, fun r w' hk => ?_⟩
    obtain ⟨rfl, rfl, -⟩ := records_cons hk
    rw [hone]
    refine ⟨fun hneg => absurd hneg (by decide), fun _ => ⟨fun hz => absurd hz (by decide),
      fun _ => ?_⟩⟩
    show wp _ _ _ (serverEvents serverFd fd [fd] t) _
    simp only [serverEvents, wp_bind, wp_pure, Prog.guarded]
    rw [if_pos ⟨hne, trivial⟩, List.append_assoc]
    exact h
  unfold serverRun
  rw [log_again rfl hcalls]
  exact log_of_wp hround

/-- A message arrives in one event, and the server turns to sending. -/
theorem wp_event_arrival {sh sb : Int} (h0 : 0 < n) (hn : n ≤ 1023) (hf : t.Flags 0 0 sh sb)
    (hbytes : t.recvBytes = 0)
    {Q : List Answer × List (SysCall × Option Answer) → ServerTransc → Unit → Prop}
    (hsend : ∀ (hdr : Buf 20) (body : Buf 1024), hdr.bytes = msgHeader n →
      body.bytes = placed t.readBodyBuf.bytes 0 (List.replicate n 0) →
      wp (records Fits) (Fitting Fits G)
        (fun w s _ => (s.isSendHeader = 1 ∧ s.isSendBody = 0 →
          wp (records Fits) (Fitting Fits G) Q (serverSend fd s) w) ∧
          (¬ (s.isSendHeader = 1 ∧ s.isSendBody = 0) → Q w s ()))
        (serverSend fd { t with
          readHdrBuf := hdr, length := 20 + n, recvBytes := 20 + n, isRecvHeader := 1
          isRecvBody := 1, readBodyBuf := body })
        (rest, es ++ [(.read fd .hdr 20, some (.stored (msgHeader n))),
          (.read fd .body n, some (.stored (List.replicate n 0)))])) :
    wp (records Fits) (Fitting Fits G) Q (serverEvent fd t)
      (.stored (msgHeader n) :: .stored (List.replicate n 0) :: rest, es) := by
  simp only [serverEvent, wp_bind, wp_guarded]
  refine ⟨fun _ => ?_, fun hne => absurd ⟨hf.recvHeader, hf.recvBody⟩ hne⟩
  apply wp_arrival h0 hn hf hbytes
  intro hdr body hhdr hbody
  refine ⟨fun hc => absurd hc.2 (by decide : (1 : Int) ≠ 0), fun _ => ⟨fun _ => ?_,
    fun hne => absurd ⟨rfl, rfl⟩ hne⟩⟩
  exact hsend hdr body hhdr hbody

/-- The rest of a message is sent in one event. -/
theorem wp_event_lastPieces (hfd : 0 ≤ fd) (h0 : 0 < n) (hn : n ≤ 1023) (hf : t.Flags 1 1 0 0)
    (hlength : t.length = 20 + n) (hrecv : t.recvBytes = 20 + n) (hsend : t.sendBytes = 1)
    {Q : List Answer × List (SysCall × Option Answer) → ServerTransc → Unit → Prop}
    (hQ : ∀ (b : Buf 20) (body : Buf 1024) (t' : ServerTransc), t'.Flags 1 1 1 1 →
      byteAt body.bytes n = byteAt t.writeBodyBuf.bytes n →
      Q (rest, es ++ [(.write fd .hdr b.bytes 19, some (.count 19)),
        (.write fd .body body.bytes (n + 1), some (.count (n + 1)))]) t' ()) :
    wp (records Fits) (Fitting Fits G) Q (serverEvent fd t)
      (.count 19 :: .count (n + 1) :: rest, es) := by
  simp only [serverEvent, wp_bind, wp_guarded]
  refine ⟨fun hc => absurd (hf.recvHeader.symm.trans hc.1) (by decide), fun _ =>
    ⟨fun hc => absurd (hf.recvBody.symm.trans hc.2) (by decide), fun _ => ⟨fun _ => ?_,
      fun hne => absurd ⟨hf.recvHeader, hf.recvBody⟩ hne⟩⟩⟩
  apply wp_lastPieces hfd h0 hn hf hlength hrecv hsend
  intro b body t' hf' hstale
  exact ⟨fun hc => absurd (hf'.sendBody.symm.trans hc.2) (by decide),
    fun _ => hQ b body t' hf' hstale⟩

/-- What a run shows on which that message arrives and is echoed. -/
def messageLog (fd : Int) (n : Nat) (hdr body : Bytes) : List (SysCall × Option Answer) :=
  [(.getsockopt fd, some (.count 0)), (.epollWait, some (clientEvent fd)),
    (.read fd .hdr 20, some (.stored (msgHeader n))),
    (.read fd .body n, some (.stored (List.replicate n 0))),
    (.write fd .hdr (msgHeader n) 20, some (.count 1)),
    (.getsockopt fd, some (.count 0)), (.epollWait, some (clientEvent fd)),
    (.write fd .hdr hdr 19, some (.count 19)),
    (.write fd .body body (n + 1), some (.count (n + 1))), (.getsockopt fd, none)]

/-- The message is echoed, and with it a byte that lay behind the body. -/
def Echoes (fd : Int) (n : Nat) (stale : UInt8) (es : List (SysCall × Option Answer)) : Prop :=
  ∃ (hdr : Buf 20) (body : Buf 1024),
    byteAt body.bytes n = stale ∧ es = messageLog fd n hdr.bytes body.bytes

/-- Behind the body a byte is sent that was in `write_body_buf` before. -/
theorem serverRun_message (hfd : 0 ≤ fd) (hne : fd ≠ serverFd) (h0 : 0 < n) (hn : n ≤ 1023)
    (hf : t.Flags 0 0 0 0) (hrecv : t.recvBytes = 0) (hsend : t.sendBytes = 0) :
    Echoes fd n (byteAt t.writeBodyBuf.bytes n)
      (serverRun serverFd fd t (arrival fd n ++ echo fd n)) := by
  have hunsent : ¬ (t.isSendHeader = 1 ∧ t.isSendBody = 1) :=
    fun hc => absurd (hf.sendHeader.symm.trans hc.1) (by decide)
  rw [← List.nil_append (serverRun serverFd fd t _)]
  apply serverRun_event hne hunsent
  apply wp_event_arrival h0 hn hf hrecv
  intro hdr body hhdr _
  have hf₁ : ServerTransc.toTransc { t with
      readHdrBuf := hdr, length := 20 + (n : Int), recvBytes := 20 + n, isRecvHeader := 1
      isRecvBody := 1, readBodyBuf := body } |>.Flags 1 1 0 0 :=
    ⟨rfl, rfl, hf.sendHeader, hf.sendBody⟩
  apply wp_firstPiece hfd hf₁ hsend
  intro b hb
  refine ⟨fun hc => absurd (hf.sendHeader.symm.trans hc.1) (by decide), fun _ => ?_⟩
  dsimp only
  apply serverRun_event hne
  case hsent => exact hunsent
  apply wp_event_lastPieces hfd h0 hn
  case hf => exact ⟨rfl, rfl, hf.sendHeader, hf.sendBody⟩
  case hlength => rfl
  case hrecv => rfl
  case hsend => rfl
  case hQ =>
    intro b₂ c t' _ hstale
    refine ⟨b₂, c, hstale, ?_⟩
    have hlast : serverRun serverFd fd t' [] = [(.getsockopt fd, none)] := rfl
    dsimp only at hb ⊢
    rw [hlast, hb, hhdr]
    rfl

end Run

end ZeroCopyProxy.Ports.ServerMessage
