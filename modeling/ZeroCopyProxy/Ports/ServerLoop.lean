import ZeroCopyProxy.Ports.TranscHeader

/-!
# The echo server: `server_process_data`

`server_recv_data`, `server_send_data` and the loop of `server_process_data`
of `server.c`.  Here the body passes through the process: it is read into
`read_body_buf` at an index computed from `recv_bytes`, and written from
`write_body_buf`, which is rebuilt before every `write`.  Both arrays have
`BUF_MAX_LEN` = 1024 bytes.

The header phases are those of the proxy, with the length decoded from its
least significant byte on.
-/

namespace ZeroCopyProxy.Ports.ServerLoop

open ZeroCopyProxy.Verified.Resumption
open ZeroCopyProxy.Ports.Posix
open ZeroCopyProxy.Ports.Frame
open ZeroCopyProxy.Ports.TranscHeader

/-- `struct transc_s` of `server.h`: the members of the proxy's and two body
arrays. -/
structure ServerTransc extends Transc where
  readBodyBuf : Buf 1024
  writeBodyBuf : Buf 1024
  deriving DecidableEq

/-- `server_transc_clear`. -/
def serverTranscClear (t : ServerTransc) : ServerTransc :=
  { t with
    isRecvHeader := 0
    isRecvBody := 0
    isSendHeader := 0
    isSendBody := 0
    length := 0
    recvBytes := 0
    sendBytes := 0
    readHdrBuf := Buf.zeros 20
    readBodyBuf := Buf.zeros 1024
    writeHdrBuf := Buf.zeros 20
    writeBodyBuf := Buf.zeros 1024 }

/-- The record `server_transc_clear` leaves. -/
def serverCleared : ServerTransc where
  toTransc := cleared
  readBodyBuf := Buf.zeros 1024
  writeBodyBuf := Buf.zeros 1024

@[simp] theorem serverTranscClear_eq (t : ServerTransc) :
    serverTranscClear t = serverCleared := rfl

/-- `server_transc_get_msg_length`. -/
def serverTranscGetMsgLength (t : Transc) : UInt64 :=
  if strlen t.readHdrBuf.bytes = 0 then -1
  else (UInt32.ofNat (len24 .little t.readHdrBuf.bytes)).toUInt64

theorem decodes_server : Decodes .little serverTranscGetMsgLength := by
  intro t
  by_cases h0 : byteAt t.readHdrBuf.bytes 0 = 0
  · simp only [serverTranscGetMsgLength, strlen_hdr_eq_zero_iff, h0, if_true,
      toInt_neg_one]
  · simp only [serverTranscGetMsgLength, strlen_hdr_eq_zero_iff, h0, if_false,
      toInt_len24]

/-- Run a function of the header phases on the members both programs have. -/
def onTransc {α : Type} (p : Prog Transc SysCall Answer α) :
    Prog ServerTransc SysCall Answer α :=
  Prog.zoom ServerTransc.toTransc (fun s t => { s with toTransc := t }) p

/-! ## `server_recv_data` -/

/-- The body phase of `server_recv_data`. -/
def serverRecvBody (fd : Int) : Prog ServerTransc SysCall Answer Int := do
  let t ← Prog.state
  if t.isRecvHeader = 1 ∧ t.isRecvBody = 0 then do
    let r ← sysRead fd .body (t.length - t.recvBytes)
    if r.ret < 0 then
      pure (recvErrorCode r.errno)
    else if r.ret = 0 then
      pure zeroByte
    else do
      let bodyIndex := t.recvBytes - 20
      let b ← Prog.orFault (t.readBodyBuf.memcpy bodyIndex r.data 0 r.ret)
      Prog.update fun t =>
        { t with readBodyBuf := b, recvBytes := t.recvBytes + r.ret }
      let t ← Prog.state
      if t.recvBytes = t.length then do
        Prog.update fun t => { t with isRecvBody := 1 }
        pure normal
      else
        pure normal
  else
    pure normal

/-- `server_recv_data`. -/
def serverRecvData (fd : Int) : Prog ServerTransc SysCall Answer Int := do
  let t ← Prog.state
  if t.isRecvHeader = 0 ∧ t.isRecvBody = 0 then do
    match ← onTransc (recvHeader serverTranscGetMsgLength fd) with
    | some rv => pure rv
    | none => serverRecvBody fd
  else if t.isRecvHeader = 0 ∧ t.isRecvBody = 1 then
    pure unknown
  else
    serverRecvBody fd

/-! ## `server_send_data` -/

/-- Building `write_body_buf`.  The size of the second copy is computed as
`body_len - send_bytes`, although `send_bytes` counts the header as well. -/
def prepareBody : Prog ServerTransc SysCall Answer (Option Int) := do
  let t ← Prog.state
  let bodyLen := t.length - 20
  if t.sendBytes < t.length then do
    let b ← Prog.orFault (t.writeBodyBuf.memset bodyLen)
    Prog.update fun t => { t with writeBodyBuf := b }
    let t ← Prog.state
    if t.sendBytes = 20 then do
      let b ← Prog.orFault (t.writeBodyBuf.memcpy 0 t.readBodyBuf.bytes 0 bodyLen)
      Prog.update fun t => { t with writeBodyBuf := b }
      pure none
    else if 20 < t.sendBytes then do
      let bodyIndex := t.sendBytes - 20
      let b ← Prog.orFault (t.writeBodyBuf.memcpy bodyIndex t.readBodyBuf.bytes
        bodyIndex (bodyLen - t.sendBytes))
      Prog.update fun t => { t with writeBodyBuf := b }
      pure none
    else
      pure (some unknown)
  else
    pure (some unknown)

/-- Writing `write_body_buf` from its first byte on. -/
def writeBody (fd : Int) : Prog ServerTransc SysCall Answer Int := do
  let t ← Prog.state
  let r ← sysWrite fd .body t.writeBodyBuf.bytes t.recvBytes
  if r.ret ≤ 0 then
    pure (sendErrorCode r.errno)
  else do
    Prog.update fun t =>
      { t with recvBytes := t.recvBytes - r.ret, sendBytes := t.sendBytes + r.ret }
    let t ← Prog.state
    if t.recvBytes = 0 then do
      Prog.update fun t => { t with isSendBody := 1 }
      pure normal
    else
      pure normal

/-- The body phase of `server_send_data`. -/
def serverSendBody (fd : Int) : Prog ServerTransc SysCall Answer Int := do
  let t ← Prog.state
  if t.isSendHeader = 1 ∧ t.isSendBody = 0 then do
    match ← prepareBody with
    | some rv => pure rv
    | none => writeBody fd
  else
    pure normal

/-- `server_send_data`. -/
def serverSendData (fd : Int) : Prog ServerTransc SysCall Answer Int := do
  if fd < 0 then
    pure fdErr
  else do
    let t ← Prog.state
    if t.isSendHeader = 0 ∧ t.isSendBody = 0 then do
      match ← onTransc (sendHeader fd) with
      | some rv => pure rv
      | none => serverSendBody fd
    else if t.isSendHeader = 0 ∧ t.isSendBody = 1 then
      pure unknown
    else
      serverSendBody fd

/-! ## `server_process_data` -/

/-- Receiving, with a return code from `ZERO_BYTE` down closing the
descriptor. -/
def serverReceive (fd : Int) : Prog ServerTransc SysCall Answer Unit := do
  let rv ← serverRecvData fd
  if rv ≤ zeroByte then do
    let _ ← Prog.call (.close fd)
    pure ()
  else
    pure ()

/-- Sending; the return code is only printed. -/
def serverSend (fd : Int) : Prog ServerTransc SysCall Answer Unit := do
  let _ ← serverSendData fd
  pure ()

/-- What one event on the client's descriptor does: up to two attempts to
receive and up to two attempts to send. -/
def serverEvent (fd : Int) : Prog ServerTransc SysCall Answer Unit := do
  Prog.guarded (fun t => t.isRecvHeader = 0 ∧ t.isRecvBody = 0) (serverReceive fd)
  Prog.guarded (fun t => t.isRecvHeader = 1 ∧ t.isRecvBody = 0) (serverReceive fd)
  Prog.guarded (fun t => t.isRecvHeader = 1 ∧ t.isRecvBody = 1) (serverSend fd)
  Prog.guarded (fun t => t.isSendHeader = 1 ∧ t.isSendBody = 0) (serverSend fd)

/-- The events of one round; those on the listening descriptor are passed
over. -/
def serverEvents (serverFd fd : Int) : List Int → Prog ServerTransc SysCall Answer Unit
  | [] => pure ()
  | e :: es => do
    Prog.guarded (fun _ => e ≠ serverFd ∧ e = fd) (serverEvent fd)
    serverEvents serverFd fd es

/-- A message sent completely makes room for the next one. -/
def serverClear : Prog ServerTransc SysCall Answer Unit :=
  Prog.guarded (fun t => t.isSendHeader = 1 ∧ t.isSendBody = 1)
    (Prog.update serverTranscClear)

/-- One round of the loop in `server_process_data`; the result says whether
there is another one. -/
def serverRound (serverFd fd : Int) : Prog ServerTransc SysCall Answer Bool := do
  let c ← Prog.call (.getsockopt fd)
  if c.ret < 0 then
    pure false
  else do
    serverClear
    let r ← Prog.call .epollWait
    if r.ret < 0 then
      pure false
    else if r.ret = 0 then
      pure true
    else do
      serverEvents serverFd fd (r.ready.take r.ret.toNat)
      pure true

/-! ## The walk through the sending phases -/

/-- `server_send_data` takes a message that waits to be sent from its phase to
the same or the next one, if its two parts do. -/
theorem wp_serverSendData_walk {W : Type}
    {K : W → ServerTransc → SysCall → Answer → W → Prop}
    {P : W → ServerTransc → SysCall → Prop} {C : Int → Prop}
    {A B D : W → ServerTransc → Prop} {fd : Int}
    (hnormal : C normal) (hfdErr : C fdErr)
    (hA : ∀ {w t}, A w t → t.Flags 1 1 0 0) (hB : ∀ {w t}, B w t → t.Flags 1 1 1 0)
    (hD : ∀ {w t}, D w t → t.Flags 1 1 1 1)
    (hheader : ∀ {w t}, A w t →
      wp K P (fun w' t' rv => match rv with
        | some c => C c ∧ A w' t'
        | none => A w' t' ∨ B w' t')
        (onTransc (sendHeader fd) t) w)
    (hbody : ∀ {w t}, B w t →
      wp K P (fun w' t' c => C c ∧ (B w' t' ∨ D w' t')) (serverSendBody fd t) w)
    {w : W} {t : ServerTransc} (h : A w t ∨ B w t ∨ D w t) :
    wp K P (fun w' t' c => C c ∧ (A w' t' ∨ B w' t' ∨ D w' t'))
      (serverSendData fd t) w := by
  have hidle : ∀ {w t}, ¬ (t.isSendHeader = 1 ∧ t.isSendBody = 0) →
      (A w t ∨ B w t ∨ D w t) →
      wp K P (fun w' t' c => C c ∧ (A w' t' ∨ B w' t' ∨ D w' t'))
        (serverSendBody fd t) w := by
    intro w t hne hs
    simp only [serverSendBody, wp_bind, wp_state, wp_ite, wp_pure]
    exact ⟨fun hc => absurd hc hne, fun _ => ⟨hnormal, hs⟩⟩
  have hmove : ∀ {w t}, B w t →
      wp K P (fun w' t' c => C c ∧ (A w' t' ∨ B w' t' ∨ D w' t'))
        (serverSendBody fd t) w := by
    intro w t hb
    exact wp_post (fun w' t' c hc => ⟨hc.1, .inr hc.2⟩) (hbody hb)
  have hstay : ∀ {w t}, A w t →
      wp K P (fun w' t' c => C c ∧ (A w' t' ∨ B w' t' ∨ D w' t'))
        (serverSendBody fd t) w := by
    intro w t ha
    apply hidle _ (.inl ha)
    rw [(hA ha).sendHeader]
    omega
  have hdone : ∀ {w t}, D w t →
      wp K P (fun w' t' c => C c ∧ (A w' t' ∨ B w' t' ∨ D w' t'))
        (serverSendBody fd t) w := by
    intro w t hd
    apply hidle _ (.inr (.inr hd))
    rw [(hD hd).sendBody]
    omega
  simp only [serverSendData, wp_bind, wp_state, wp_ite, wp_pure]
  refine ⟨fun _ => ⟨hfdErr, h⟩, fun _ => ⟨fun hf => ?_, fun hf => ⟨fun hu => ?_,
    fun _ => ?_⟩⟩⟩
  · rcases h with h | h | h
    · refine wp_post (fun w' t' rv hrv => ?_) (hheader h)
      cases rv with
      | some c => exact ⟨hrv.1, .inl hrv.2⟩
      | none => exact hrv.elim hstay hmove
    · have h1 := (hB h).sendHeader
      omega
    · have h1 := (hD h).sendHeader
      omega
  · rcases h with h | h | h
    · have h1 := (hA h).sendBody
      omega
    · have h1 := (hB h).sendHeader
      omega
    · have h1 := (hD h).sendHeader
      omega
  · rcases h with h | h | h
    · exact absurd ⟨(hA h).sendHeader, (hA h).sendBody⟩ hf
    · exact hmove h
    · exact hdone h

/-! ## The walk through the phases -/

/-- The phases of a message in the server. -/
abbrev Phases (W : Type) : Type := MessagePhases W ServerTransc

namespace Phases

variable {W : Type}

/-- Each phase has its flags, each of the four functions takes a message from
its phase to the same or the next one with a return code that satisfies `C`,
and the calls of the loop leave it where it is. -/
structure Sound (Φ : Phases W) (K : W → ServerTransc → SysCall → Answer → W → Prop)
    (P : W → ServerTransc → SysCall → Prop) (C : Int → Prop) (fd : Int) : Prop where
  code_normal : C normal
  code_fdErr : C fdErr
  hdr_flags : ∀ {w t}, Φ.hdr w t → t.Flags 0 0 0 0
  body_flags : ∀ {w t}, Φ.body w t → t.Flags 1 0 0 0
  sendHdr_flags : ∀ {w t}, Φ.sendHdr w t → t.Flags 1 1 0 0
  sendBody_flags : ∀ {w t}, Φ.sendBody w t → t.Flags 1 1 1 0
  sent_flags : ∀ {w t}, Φ.sent w t → t.Flags 1 1 1 1
  recvHeader : ∀ {w t}, Φ.hdr w t →
    wp K P (fun w' t' rv => match rv with
      | some c => C c ∧ Φ.hdr w' t'
      | none => Φ.body w' t')
      (onTransc (recvHeader serverTranscGetMsgLength fd) t) w
  recvBody : ∀ {w t}, Φ.body w t →
    wp K P (fun w' t' c => C c ∧ (Φ.body w' t' ∨ Φ.sendHdr w' t'))
      (serverRecvBody fd t) w
  sendHeader : ∀ {w t}, Φ.sendHdr w t →
    wp K P (fun w' t' rv => match rv with
      | some c => C c ∧ Φ.sendHdr w' t'
      | none => Φ.sendHdr w' t' ∨ Φ.sendBody w' t')
      (onTransc (sendHeader fd) t) w
  sendBody : ∀ {w t}, Φ.sendBody w t →
    wp K P (fun w' t' c => C c ∧ (Φ.sendBody w' t' ∨ Φ.sent w' t'))
      (serverSendBody fd t) w
  close : ∀ {w t c}, C c → c ≤ zeroByte → Φ.Inv w t →
    P w t (.close fd) ∧ ∀ r w', K w t (.close fd) r w' → Φ.Inv w' t
  check : ∀ {w t}, Φ.Inv w t ∨ Φ.sent w t →
    P w t (.getsockopt fd) ∧
      ∀ r w', K w t (.getsockopt fd) r w' → Φ.Inv w' t ∨ Φ.sent w' t
  wait : ∀ {w t}, Φ.Inv w t →
    P w t .epollWait ∧ ∀ r w', K w t .epollWait r w' → Φ.Inv w' t
  clear : ∀ {w t}, Φ.sent w t → Φ.hdr w serverCleared

variable {Φ : Phases W} {K : W → ServerTransc → SysCall → Answer → W → Prop}
  {P : W → ServerTransc → SysCall → Prop} {C : Int → Prop} {fd : Int}

theorem wp_serverRecvData (hΦ : Φ.Sound K P C fd) {w : W} {t : ServerTransc}
    (h : Φ.hdr w t ∨ Φ.body w t) :
    wp K P (fun w' t' c => C c ∧ Φ.Inv w' t') (serverRecvData fd t) w := by
  have hbody : ∀ {w t}, Φ.body w t →
      wp K P (fun w' t' c => C c ∧ Φ.Inv w' t') (serverRecvBody fd t) w := by
    intro w t hb
    exact wp_post (fun w' t' c hc => ⟨hc.1, hc.2.elim .body .sendHdr⟩) (hΦ.recvBody hb)
  simp only [serverRecvData, wp_bind, wp_state, wp_ite, wp_pure]
  refine ⟨fun hf => ?_, fun hf => ⟨fun hu => ?_, fun _ => ?_⟩⟩
  · rcases h with h | h
    · refine wp_post (fun w' t' rv hrv => ?_) (hΦ.recvHeader h)
      cases rv with
      | some c => exact ⟨hrv.1, .hdr hrv.2⟩
      | none => exact hbody hrv
    · have h1 := (hΦ.body_flags h).recvHeader
      omega
  · rcases h with h | h
    · have h1 := (hΦ.hdr_flags h).recvBody
      omega
    · have h1 := (hΦ.body_flags h).recvHeader
      omega
  · rcases h with h | h
    · exact absurd ⟨(hΦ.hdr_flags h).recvHeader, (hΦ.hdr_flags h).recvBody⟩ hf
    · exact hbody h

/-- Where `server_send_data` finds and leaves a message. -/
def Sends (Φ : Phases W) (w : W) (t : ServerTransc) : Prop :=
  Φ.sendHdr w t ∨ Φ.sendBody w t ∨ Φ.sent w t

theorem wp_serverSendData (hΦ : Φ.Sound K P C fd) {w : W} {t : ServerTransc}
    (h : Φ.Sends w t) :
    wp K P (fun w' t' c => C c ∧ Φ.Sends w' t') (serverSendData fd t) w :=
  wp_serverSendData_walk hΦ.code_normal hΦ.code_fdErr hΦ.sendHdr_flags hΦ.sendBody_flags
    hΦ.sent_flags hΦ.sendHeader hΦ.sendBody h

theorem wp_serverReceive (hΦ : Φ.Sound K P C fd) {w : W} {t : ServerTransc}
    (h : Φ.hdr w t ∨ Φ.body w t) :
    wp K P (fun w' t' (_ : Unit) => Φ.Inv w' t') (serverReceive fd t) w := by
  simp only [serverReceive, wp_bind, wp_ite, wp_pure, wp_prog_call]
  refine wp_post (fun w' t' c hc => ?_) (wp_serverRecvData hΦ h)
  exact ⟨fun hle => hΦ.close hc.1 hle hc.2, fun _ => hc.2⟩

/-- One event keeps a message in its phases. -/
theorem wp_serverEvent (hΦ : Φ.Sound K P C fd) {w : W} {t : ServerTransc}
    (h : Φ.Inv w t ∨ Φ.sent w t) :
    wp K P (fun w' t' (_ : Unit) => Φ.Inv w' t' ∨ Φ.sent w' t') (serverEvent fd t) w := by
  have hfront : ∀ {w t}, Φ.Inv w t ∨ Φ.sent w t → t.isRecvBody = 0 →
      Φ.hdr w t ∨ Φ.body w t := by
    intro w t h hrb
    rcases h with (h | h | h | h) | h
    · exact .inl h
    · exact .inr h
    · have h1 := (hΦ.sendHdr_flags h).recvBody
      omega
    · have h1 := (hΦ.sendBody_flags h).recvBody
      omega
    · have h1 := (hΦ.sent_flags h).recvBody
      omega
  have hback : ∀ {w t}, Φ.Inv w t ∨ Φ.sent w t → t.isRecvBody = 1 → Φ.Sends w t := by
    intro w t h hrb
    rcases h with (h | h | h | h) | h
    · have h1 := (hΦ.hdr_flags h).recvBody
      omega
    · have h1 := (hΦ.body_flags h).recvBody
      omega
    · exact .inl h
    · exact .inr (.inl h)
    · exact .inr (.inr h)
  have hsend : ∀ {w t}, Φ.Sends w t →
      wp K P (fun w' t' (_ : Unit) => Φ.Inv w' t' ∨ Φ.sent w' t')
        (serverSend fd t) w := by
    intro w t h
    simp only [serverSend, wp_bind, wp_pure]
    refine wp_post (fun w' t' c hc => ?_) (wp_serverSendData hΦ h)
    rcases hc.2 with h' | h' | h'
    · exact .inl (.sendHdr h')
    · exact .inl (.sendBody h')
    · exact .inr h'
  have hresend : ∀ {w t}, Φ.Inv w t ∨ Φ.sent w t → t.isSendHeader = 1 → Φ.Sends w t := by
    intro w t h hsh
    rcases h with (h | h | h | h) | h
    · have h1 := (hΦ.hdr_flags h).sendHeader
      omega
    · have h1 := (hΦ.body_flags h).sendHeader
      omega
    · exact .inl h
    · exact .inr (.inl h)
    · exact .inr (.inr h)
  have hreceive : ∀ {w t}, Φ.Inv w t ∨ Φ.sent w t → t.isRecvBody = 0 →
      wp K P (fun w' t' (_ : Unit) => Φ.Inv w' t' ∨ Φ.sent w' t')
        (serverReceive fd t) w := by
    intro w t h hrb
    exact wp_post (fun _ _ _ hi => .inl hi) (wp_serverReceive hΦ (hfront h hrb))
  -- each of the four attempts is skipped or keeps the message in its phases
  simp only [serverEvent, wp_bind]
  refine wp_post (fun w₁ t₁ _ h₁ => ?_) (wp_guarded_inv h fun hc => hreceive h hc.2)
  refine wp_post (fun w₂ t₂ _ h₂ => ?_) (wp_guarded_inv h₁ fun hc => hreceive h₁ hc.2)
  refine wp_post (fun w₃ t₃ _ h₃ => ?_)
    (wp_guarded_inv h₂ fun hc => hsend (hback h₂ hc.2))
  exact wp_guarded_inv h₃ fun hc => hsend (hresend h₃ hc.1)

/-- So do the events of a round. -/
theorem wp_serverEvents (hΦ : Φ.Sound K P C fd) (serverFd : Int) (es : List Int) {w : W}
    {t : ServerTransc} (h : Φ.Inv w t ∨ Φ.sent w t) :
    wp K P (fun w' t' (_ : Unit) => Φ.Inv w' t' ∨ Φ.sent w' t')
      (serverEvents serverFd fd es t) w := by
  induction es generalizing w t with
  | nil => exact h
  | cons e es ih =>
      simp only [serverEvents, wp_bind, wp_guarded]
      refine ⟨fun _ => ?_, fun _ => ih h⟩
      exact wp_post (fun w' t' _ h' => ih h') (wp_serverEvent hΦ h)

/-- **The walk.**  A round of the loop keeps a message in its phases. -/
theorem wp_serverRound (hΦ : Φ.Sound K P C fd) (serverFd : Int) {w : W}
    {t : ServerTransc} (h : Φ.Inv w t ∨ Φ.sent w t) :
    wp K P (fun w' t' (_ : Bool) => Φ.Inv w' t' ∨ Φ.sent w' t')
      (serverRound serverFd fd t) w := by
  have hclear : ∀ {w t}, Φ.Inv w t ∨ Φ.sent w t →
      wp K P (fun w' t' (_ : Unit) => Φ.Inv w' t') (serverClear t) w := by
    intro w t h
    simp only [serverClear, wp_guarded, wp_update, serverTranscClear_eq]
    refine ⟨fun hf => ?_, fun hf => ?_⟩
    · rcases h with (h | h | h | h) | h
      · have h1 := (hΦ.hdr_flags h).sendHeader
        omega
      · have h1 := (hΦ.body_flags h).sendHeader
        omega
      · have h1 := (hΦ.sendHdr_flags h).sendHeader
        omega
      · have h1 := (hΦ.sendBody_flags h).sendBody
        omega
      · exact .hdr (hΦ.clear h)
    · rcases h with h | h
      · exact h
      · exact absurd ⟨(hΦ.sent_flags h).sendHeader, (hΦ.sent_flags h).sendBody⟩ hf
  simp only [serverRound, wp_bind, wp_prog_call, wp_ite, wp_pure]
  obtain ⟨hp, hk⟩ := hΦ.check h
  refine ⟨hp, fun r w₁ hr => ⟨fun _ => hk r w₁ hr, fun _ => ?_⟩⟩
  refine wp_post (fun w₂ t₂ _ h₂ => ?_) (hclear (hk r w₁ hr))
  obtain ⟨hp₂, hk₂⟩ := hΦ.wait h₂
  refine ⟨hp₂, fun r₃ w₃ hr₃ => ⟨fun _ => .inl (hk₂ r₃ w₃ hr₃), fun _ => ⟨fun _ => ?_,
    fun _ => ?_⟩⟩⟩
  · exact .inl (hk₂ r₃ w₃ hr₃)
  · exact wp_serverEvents hΦ serverFd _ (.inl (hk₂ r₃ w₃ hr₃))

end Phases

/-- Waiting for a header, a round that is told of the client and ends with a
bad header waits in `close` next, so a kernel without an answer to that call
ends the round there. -/
theorem wp_serverRound_closes {W : Type}
    {K : W → ServerTransc → SysCall → Answer → W → Prop}
    {P : W → ServerTransc → SysCall → Prop} {Q : W → ServerTransc → Bool → Prop}
    {serverFd fd : Int} {t : ServerTransc} {w : W} (hne : fd ≠ serverFd)
    (hf : t.Flags 0 0 0 0) (hK : ∀ w t r w', ¬ K w t (.close fd) r w')
    (hcheck : P w t (.getsockopt fd))
    (hwait : ∀ r w₁, K w t (.getsockopt fd) r w₁ → 0 ≤ r.ret ∧ P w₁ t .epollWait)
    (hready : ∀ r₁ w₁ r w₂, K w t (.getsockopt fd) r₁ w₁ → K w₁ t .epollWait r w₂ →
      r.ret = 1 ∧ r.ready = [fd] ∧
        wp K P (fun w' t' rv => rv = some bufErr ∧ P w' t' (.close fd))
          (onTransc (recvHeader serverTranscGetMsgLength fd) t) w₂) :
    wp K P Q (serverRound serverFd fd t) w := by
  have hidle : ¬ (t.isSendHeader = 1 ∧ t.isSendBody = 1) := by
    rw [hf.sendHeader]
    omega
  simp only [serverRound, wp_bind, wp_prog_call, wp_ite, wp_pure]
  refine ⟨hcheck, fun r₁ w₁ hk₁ => ⟨fun hneg => absurd hneg ?_, fun _ => ?_⟩⟩
  · have hnneg := (hwait r₁ w₁ hk₁).1
    omega
  · simp only [serverClear, wp_guarded]
    refine ⟨fun hc => absurd hc hidle, fun _ => ⟨(hwait r₁ w₁ hk₁).2, fun r w₂ hk₂ => ?_⟩⟩
    obtain ⟨hret, hfds, hrecv⟩ := hready r₁ w₁ r w₂ hk₁ hk₂
    refine ⟨fun hneg => absurd hneg (by omega), fun _ => ⟨fun hz => absurd hz (by omega),
      fun _ => ?_⟩⟩
    rw [hret, hfds]
    simp only [Int.toNat_one, List.take_one, List.head?_cons, Option.toList_some,
      serverEvents, wp_bind, wp_guarded, serverEvent]
    refine ⟨fun _ => ⟨fun _ => ?_, fun hc => absurd ⟨hf.recvHeader, hf.recvBody⟩ hc⟩,
      fun hc => absurd ⟨hne, True.intro⟩ hc⟩
    simp only [serverReceive, serverRecvData, wp_bind, wp_state, wp_ite, wp_pure,
      wp_prog_call]
    refine ⟨fun _ => ?_, fun hc => absurd ⟨hf.recvHeader, hf.recvBody⟩ hc⟩
    refine wp_post (fun w' t' rv hrv => ?_) hrecv
    obtain ⟨rfl, hp⟩ := hrv
    refine ⟨fun _ => ⟨hp, fun r w'' hk => absurd hk (hK _ _ _ _)⟩, fun hgt => ?_⟩
    exact absurd (by decide) hgt

/-- A server in a world of type `W`. -/
abbrev ServerConfig (W : Type) : Type := Config W ServerTransc SysCall Answer Bool

/-- Whole runs of the loop. -/
theorem server_reach {W : Type} {Φ : Phases W}
    {K : W → ServerTransc → SysCall → Answer → W → Prop}
    {P : W → ServerTransc → SysCall → Prop} {C : Int → Prop} {serverFd fd : Int}
    (hΦ : Φ.Sound K P C fd) {w : W} {t : ServerTransc} (h : Φ.hdr w t)
    {c : ServerConfig W}
    (hr : Reach K (fun _ : Unit => serverRound serverFd fd) id ⟨w, .done t true⟩ c) :
    c.Shows P (fun w' t' _ => Φ.Inv w' t' ∨ Φ.sent w' t') := by
  apply shows_of_wp
  refine wp_reach (fun _ w s a _ hq => Phases.wp_serverRound hΦ serverFd hq) hr ?_
  exact .inl (.hdr h)

end ZeroCopyProxy.Ports.ServerLoop
