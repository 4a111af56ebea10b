import ZeroCopyProxy.Ports.TranscHeader

/-!
# The proxy's relay: `proxy_process_data`

`proxy_recv_data`, `proxy_send_data` and `proxy_process_data` of `proxy.c`.
The body of a message never enters the process: it is spliced from the
socket into a pipe and from the pipe to the other socket.

A call of `proxy_process_data` walks a message through four phases: header
received, body received, header sent, body sent.  `Phases` names a predicate
for each phase and `wp_forward` is the walk, proved once: a family of
predicates that each phase hands to the next is an invariant of
`proxy_process_data`.  Everything later about the proxy is an instance.
-/

namespace ZeroCopyProxy.Ports.ProxyRelay

open ZeroCopyProxy.Verified.Resumption
open ZeroCopyProxy.Ports.Posix
open ZeroCopyProxy.Ports.TranscHeader

/-! ## `proxy_recv_data` and `proxy_send_data` -/

/-- `ENDIAN` of `proxy_l.h`: the most significant byte comes first. -/
def endian : Int := 1

/-- The body phase of `proxy_recv_data`. -/
def recvBody (fd : Int) (pipe : Pipe) : Prog Transc SysCall Answer Int := do
  let t ← Prog.state
  if t.isRecvHeader = 1 ∧ t.isRecvBody = 0 then do
    let r ← Prog.call (.spliceIn fd pipe (t.length - t.recvBytes))
    if r.ret < 0 then
      pure (recvErrorCode r.errno)
    else if r.ret = 0 then
      pure zeroByte
    else do
      Prog.update fun t => { t with recvBytes := t.recvBytes + r.ret }
      let t ← Prog.state
      if t.recvBytes = t.length then do
        Prog.update fun t => { t with isRecvBody := 1 }
        pure normal
      else
        pure normal
  else
    pure normal

/-- `proxy_recv_data`; a null pipe is `none`. -/
def proxyRecvData (fd : Int) (pipe : Option Pipe) (endian : Int) :
    Prog Transc SysCall Answer Int := do
  if fd < 0 then
    pure fdErr
  else match pipe with
  | none => pure bufErr
  | some pipe => do
    let t ← Prog.state
    if t.isRecvHeader = 0 ∧ t.isRecvBody = 0 then do
      match ← recvHeader (fun t => transcGetMsgLength t endian) fd with
      | some rv => pure rv
      | none => recvBody fd pipe
    else if t.isRecvHeader = 0 ∧ t.isRecvBody = 1 then
      pure unknown
    else
      recvBody fd pipe

/-- The body phase of `proxy_send_data`. -/
def sendBody (pipe : Pipe) (fd : Int) : Prog Transc SysCall Answer Int := do
  let t ← Prog.state
  if t.isSendHeader = 1 ∧ t.isSendBody = 0 then do
    let r ← Prog.call (.spliceOut pipe fd t.recvBytes)
    if r.ret < 0 then
      pure (sendErrorCode r.errno)
    else do
      Prog.update fun t =>
        { t with recvBytes := t.recvBytes - r.ret, sendBytes := t.sendBytes + r.ret }
      let t ← Prog.state
      if t.recvBytes = 0 then do
        Prog.update fun t => { t with isSendBody := 1 }
        pure normal
      else
        pure normal
  else
    pure normal

/-- `proxy_send_data`; a null pipe is `none`. -/
def proxySendData (pipe : Option Pipe) (fd : Int) :
    Prog Transc SysCall Answer Int := do
  if fd < 0 then
    pure fdErr
  else match pipe with
  | none => pure bufErr
  | some pipe => do
    let t ← Prog.state
    if t.isSendHeader = 0 ∧ t.isSendBody = 0 then do
      match ← sendHeader fd with
      | some rv => pure rv
      | none => sendBody pipe fd
    else if t.isSendHeader = 0 ∧ t.isSendBody = 1 then
      pure unknown
    else
      sendBody pipe fd

/-! ## `proxy_process_data` -/

/-- Receiving, as long as the message is not complete; a return code from
`ZERO_BYTE` down closes the descriptor. -/
def forwardRecv (fd : Int) (pipe : Option Pipe) :
    Prog Transc SysCall Answer (List Int) := do
  let t ← Prog.state
  if t.isRecvHeader = 0 ∨ t.isRecvBody = 0 then do
    let rv ← proxyRecvData fd pipe endian
    if rv ≤ zeroByte then do
      let _ ← Prog.call (.close fd)
      pure [rv]
    else
      pure [rv]
  else
    pure []

/-- The first attempt to send, once the message is complete. -/
def forwardSend (pipe : Option Pipe) (peer : Int) :
    Prog Transc SysCall Answer (List Int) := do
  let t ← Prog.state
  if t.isRecvHeader = 1 ∧ t.isRecvBody = 1 then do
    let rv ← proxySendData pipe peer
    pure [rv]
  else
    pure []

/-- The second attempt, when the header is gone and the body is not. -/
def forwardResend (pipe : Option Pipe) (peer : Int) :
    Prog Transc SysCall Answer (List Int) := do
  let t ← Prog.state
  if t.isSendHeader = 1 ∧ t.isSendBody = 0 then do
    let rv ← proxySendData pipe peer
    pure [rv]
  else
    pure []

/-- A message sent completely makes room for the next one. -/
def forwardClear : Prog Transc SysCall Answer Unit := do
  let t ← Prog.state
  if t.isSendHeader = 1 ∧ t.isSendBody = 1 then
    Prog.update transcClearData
  else
    pure ()

/-- `proxy_process_data` after it has chosen the direction.  The result lists
the return codes of `proxy_recv_data` and `proxy_send_data`, which the source
only prints. -/
def forward (fd : Int) (pipe : Option Pipe) (peer : Int) :
    Prog Transc SysCall Answer (List Int) := do
  let received ← forwardRecv fd pipe
  let sent ← forwardSend pipe peer
  let resent ← forwardResend pipe peer
  forwardClear
  pure (received ++ sent ++ resent)

/-- From the source to the destination or back. -/
inductive Dir where
  | ingoing
  | outgoing
  deriving DecidableEq

/-- `jpool_work_data_t` of a worker with two open pipes.  The descriptors
belong to open files, so they differ and are not negative. -/
structure WorkData where
  srcFd : Int
  dstFd : Int
  ingoingTransc : Transc
  outgoingTransc : Transc
  pipe1 : Pipe
  pipe2 : Pipe
  src_nonneg : 0 ≤ srcFd
  dst_nonneg : 0 ≤ dstFd
  fd_ne : srcFd ≠ dstFd
  pipe_ne : pipe1 ≠ pipe2

namespace WorkData

def transc (d : WorkData) : Dir → Transc
  | .ingoing => d.ingoingTransc
  | .outgoing => d.outgoingTransc

def setTransc (d : WorkData) (dir : Dir) (t : Transc) : WorkData :=
  match dir with
  | .ingoing => { d with ingoingTransc := t }
  | .outgoing => { d with outgoingTransc := t }

def pipe (d : WorkData) : Dir → Pipe
  | .ingoing => d.pipe1
  | .outgoing => d.pipe2

/-- The descriptor messages of this direction come from. -/
def source (d : WorkData) : Dir → Int
  | .ingoing => d.srcFd
  | .outgoing => d.dstFd

/-- The descriptor messages of this direction go to. -/
def peer (d : WorkData) : Dir → Int
  | .ingoing => d.dstFd
  | .outgoing => d.srcFd

/-- The direction an event on `fd` belongs to. -/
def dirOf (d : WorkData) (fd : Int) : Dir :=
  if fd = d.dstFd then .outgoing else .ingoing

@[simp] theorem transc_setTransc_self (d : WorkData) (dir : Dir) (t : Transc) :
    (d.setTransc dir t).transc dir = t := by
  cases dir <;> rfl

theorem transc_setTransc_ne (d : WorkData) {dir dir' : Dir} (h : dir' ≠ dir)
    (t : Transc) : (d.setTransc dir t).transc dir' = d.transc dir' := by
  cases dir <;> cases dir' <;> first | rfl | exact absurd rfl h

@[simp] theorem source_setTransc (d : WorkData) (dir dir' : Dir) (t : Transc) :
    (d.setTransc dir t).source dir' = d.source dir' := by
  cases dir <;> cases dir' <;> rfl

@[simp] theorem peer_setTransc (d : WorkData) (dir dir' : Dir) (t : Transc) :
    (d.setTransc dir t).peer dir' = d.peer dir' := by
  cases dir <;> cases dir' <;> rfl

@[simp] theorem pipe_setTransc (d : WorkData) (dir dir' : Dir) (t : Transc) :
    (d.setTransc dir t).pipe dir' = d.pipe dir' := by
  cases dir <;> cases dir' <;> rfl

@[simp] theorem dirOf_source (d : WorkData) (dir : Dir) :
    d.dirOf (d.source dir) = dir := by
  cases dir with
  | ingoing => simp [dirOf, source, d.fd_ne]
  | outgoing => simp [dirOf, source]

end WorkData

/-- A worker that serves descriptor 3 over descriptor 4. -/
def sampleWorker : WorkData where
  srcFd := 3
  dstFd := 4
  ingoingTransc := cleared
  outgoingTransc := cleared
  pipe1 := ⟨5, 6⟩
  pipe2 := ⟨7, 8⟩
  src_nonneg := by decide
  dst_nonneg := by decide
  fd_ne := by decide
  pipe_ne := by decide

/-- `proxy_process_data`: an event on the destination is forwarded to the
source through the second pipe, any other event to the destination through
the first. -/
def proxyProcessData (fd : Int) : Prog WorkData SysCall Answer (List Int) :=
  fun d =>
    Prog.zoom (fun d => d.transc (d.dirOf fd))
      (fun e t => e.setTransc (d.dirOf fd) t)
      (forward fd (some (d.pipe (d.dirOf fd))) (d.peer (d.dirOf fd))) d

/-- One event of the loop in `proxy_conn`: an event on one of the worker's
two descriptors is processed, any other is passed over. -/
def proxyConnEvent (fd : Int) : Prog WorkData SysCall Answer (List Int) := do
  let d ← Prog.state
  if fd = d.srcFd then
    proxyProcessData d.srcFd
  else if fd = d.dstFd then
    proxyProcessData d.dstFd
  else
    pure []

/-- A worker in a world of type `W`. -/
abbrev WorkerConfig (W : Type) : Type :=
  Config W WorkData SysCall Answer (List Int)

/-! ## The walk through the sending phases -/

/-- `proxy_send_data` takes a message that waits to be sent from its phase to
the same or the next one, if its two parts do. -/
theorem wp_proxySendData_walk {W : Type}
    {K : W → Transc → SysCall → Answer → W → Prop} {P : W → Transc → SysCall → Prop}
    {C : Int → Prop} {A B D : W → Transc → Prop} {pipe : Pipe} {peer : Int}
    (hnormal : C normal) (hfdErr : C fdErr)
    (hA : ∀ {w t}, A w t → t.Flags 1 1 0 0) (hB : ∀ {w t}, B w t → t.Flags 1 1 1 0)
    (hD : ∀ {w t}, D w t → t.Flags 1 1 1 1)
    (hheader : ∀ {w t}, A w t →
      wp K P (fun w' t' rv => match rv with
        | some c => C c ∧ A w' t'
        | none => A w' t' ∨ B w' t')
        (sendHeader peer t) w)
    (hbody : ∀ {w t}, B w t →
      wp K P (fun w' t' c => C c ∧ (B w' t' ∨ D w' t')) (sendBody pipe peer t) w)
    {w : W} {t : Transc} (h : A w t ∨ B w t ∨ D w t) :
    wp K P (fun w' t' c => C c ∧ (A w' t' ∨ B w' t' ∨ D w' t'))
      (proxySendData (some pipe) peer t) w := by
  have hidle : ∀ {w t}, ¬ (t.isSendHeader = 1 ∧ t.isSendBody = 0) →
      (A w t ∨ B w t ∨ D w t) →
      wp K P (fun w' t' c => C c ∧ (A w' t' ∨ B w' t' ∨ D w' t'))
        (sendBody pipe peer t) w := by
    intro w t hne hs
    simp only [sendBody, wp_bind, wp_state, wp_ite, wp_pure]
    exact ⟨fun hc => absurd hc hne, fun _ => ⟨hnormal, hs⟩⟩
  have hmove : ∀ {w t}, B w t →
      wp K P (fun w' t' c => C c ∧ (A w' t' ∨ B w' t' ∨ D w' t'))
        (sendBody pipe peer t) w := by
    intro w t hb
    exact wp_post (fun w' t' c hc => ⟨hc.1, .inr hc.2⟩) (hbody hb)
  have hstay : ∀ {w t}, A w t →
      wp K P (fun w' t' c => C c ∧ (A w' t' ∨ B w' t' ∨ D w' t'))
        (sendBody pipe peer t) w := by
    intro w t ha
    apply hidle _ (.inl ha)
    rw [(hA ha).sendHeader]
    omega
  have hdone : ∀ {w t}, D w t →
      wp K P (fun w' t' c => C c ∧ (A w' t' ∨ B w' t' ∨ D w' t'))
        (sendBody pipe peer t) w := by
    intro w t hd
    apply hidle _ (.inr (.inr hd))
    rw [(hD hd).sendBody]
    omega
  simp only [proxySendData, wp_bind, wp_state, wp_ite, wp_pure]
  refine ⟨fun _ => ⟨hfdErr, h⟩, fun _ => ⟨fun hf => ?_, fun hf => ⟨fun hu => ?_,
    fun _ => ?_⟩⟩⟩
  · rcases h with h | h | h
    · refine wp_post (fun w' t' rv hrv => ?_) (hheader h)
      cases rv with
      | some c => exact ⟨hrv.1, .inl hrv.2⟩
      | none => exact hrv.elim hstay hmove
    · have h1 := (hB h).sendHeader
      omega
    · have h1 := (hD h).sendHeader
      omega
  · rcases h with h | h | h
    · have h1 := (hA h).sendBody
      omega
    · have h1 := (hB h).sendHeader
      omega
    · have h1 := (hD h).sendHeader
      omega
  · rcases h with h | h | h
    · exact absurd ⟨(hA h).sendHeader, (hA h).sendBody⟩ hf
    · exact hmove h
    · exact hdone h

/-! ## The walk through the phases -/

/-- The phases of a message in the proxy. -/
abbrev Phases (W : Type) : Type := MessagePhases W Transc

namespace Phases

variable {W : Type}

/-- Each phase has its flags, and each of the four functions takes a message
from its phase to the same or the next one.  Their return codes satisfy `C`,
and closing the descriptor needs to be allowed only if one of these is a
closing code. -/
structure Sound (Φ : Phases W) (K : W → Transc → SysCall → Answer → W → Prop)
    (P : W → Transc → SysCall → Prop) (C : Int → Prop) (fd : Int) (pipe : Pipe)
    (peer : Int) : Prop where
  code_normal : C normal
  code_fdErr : C fdErr
  hdr_flags : ∀ {w t}, Φ.hdr w t → t.Flags 0 0 0 0
  body_flags : ∀ {w t}, Φ.body w t → t.Flags 1 0 0 0
  sendHdr_flags : ∀ {w t}, Φ.sendHdr w t → t.Flags 1 1 0 0
  sendBody_flags : ∀ {w t}, Φ.sendBody w t → t.Flags 1 1 1 0
  sent_flags : ∀ {w t}, Φ.sent w t → t.Flags 1 1 1 1
  recvHeader : ∀ {w t}, Φ.hdr w t →
    wp K P (fun w' t' rv => match rv with
      | some c => C c ∧ Φ.hdr w' t'
      | none => Φ.body w' t')
      (recvHeader (fun t => transcGetMsgLength t endian) fd t) w
  recvBody : ∀ {w t}, Φ.body w t →
    wp K P (fun w' t' c => C c ∧ (Φ.body w' t' ∨ Φ.sendHdr w' t'))
      (recvBody fd pipe t) w
  sendHeader : ∀ {w t}, Φ.sendHdr w t →
    wp K P (fun w' t' rv => match rv with
      | some c => C c ∧ Φ.sendHdr w' t'
      | none => Φ.sendHdr w' t' ∨ Φ.sendBody w' t')
      (sendHeader peer t) w
  sendBody : ∀ {w t}, Φ.sendBody w t →
    wp K P (fun w' t' c => C c ∧ (Φ.sendBody w' t' ∨ Φ.sent w' t'))
      (ProxyRelay.sendBody pipe peer t) w
  close : ∀ {w t c}, C c → c ≤ zeroByte → Φ.Inv w t →
    P w t (.close fd) ∧ ∀ r w', K w t (.close fd) r w' → Φ.Inv w' t
  clear : ∀ {w t}, Φ.sent w t → Φ.hdr w cleared

variable {Φ : Phases W} {K : W → Transc → SysCall → Answer → W → Prop}
  {P : W → Transc → SysCall → Prop} {C : Int → Prop} {fd : Int} {pipe : Pipe}
  {peer : Int}

theorem Sound.not_sent (hΦ : Φ.Sound K P C fd pipe peer) {w : W} {t : Transc}
    (h : Φ.Inv w t) : t.isSendBody = 0 := by
  cases h with
  | hdr h => exact (hΦ.hdr_flags h).sendBody
  | body h => exact (hΦ.body_flags h).sendBody
  | sendHdr h => exact (hΦ.sendHdr_flags h).sendBody
  | sendBody h => exact (hΦ.sendBody_flags h).sendBody

/-- A message whose body has not been received completely stays in front of
the sending phases. -/
theorem wp_proxyRecvData (hΦ : Φ.Sound K P C fd pipe peer) {w : W} {t : Transc}
    (h : Φ.hdr w t ∨ Φ.body w t) :
    wp K P (fun w' t' c => C c ∧ Φ.Inv w' t')
      (proxyRecvData fd (some pipe) endian t) w := by
  have hbody : ∀ {w t}, Φ.body w t →
      wp K P (fun w' t' c => C c ∧ Φ.Inv w' t')
        (ProxyRelay.recvBody fd pipe t) w := by
    intro w t hb
    refine wp_post (fun w' t' c hc => ⟨hc.1, ?_⟩) (hΦ.recvBody hb)
    exact hc.2.elim .body .sendHdr
  simp only [proxyRecvData, wp_bind, wp_state, wp_ite, wp_pure]
  refine ⟨fun _ => ⟨hΦ.code_fdErr, h.elim .hdr .body⟩, fun _ => ⟨fun hf => ?_,
    fun hf => ⟨fun hu => ?_, fun _ => ?_⟩⟩⟩
  · rcases h with h | h
    · refine wp_post (fun w' t' rv hrv => ?_) (hΦ.recvHeader h)
      cases rv with
      | some c => exact ⟨hrv.1, .hdr hrv.2⟩
      | none => exact hbody hrv
    · have h1 := (hΦ.body_flags h).recvHeader
      omega
  · rcases h with h | h
    · have h1 := (hΦ.hdr_flags h).recvBody
      omega
    · have h1 := (hΦ.body_flags h).recvHeader
      omega
  · rcases h with h | h
    · exact absurd ⟨(hΦ.hdr_flags h).recvHeader, (hΦ.hdr_flags h).recvBody⟩ hf
    · exact hbody h

/-- A message that has been received completely stays in the sending
phases. -/
theorem wp_proxySendData (hΦ : Φ.Sound K P C fd pipe peer) {w : W} {t : Transc}
    (h : Φ.sendHdr w t ∨ Φ.sendBody w t) :
    wp K P (fun w' t' c => C c ∧
        (Φ.sendHdr w' t' ∨ Φ.sendBody w' t' ∨ Φ.sent w' t'))
      (proxySendData (some pipe) peer t) w :=
  wp_proxySendData_walk hΦ.code_normal hΦ.code_fdErr hΦ.sendHdr_flags hΦ.sendBody_flags
    hΦ.sent_flags hΦ.sendHeader hΦ.sendBody (h.imp_right .inl)

/-- Receiving keeps a message in one of its phases. -/
theorem wp_forwardRecv (hΦ : Φ.Sound K P C fd pipe peer) {w : W} {t : Transc}
    (h : Φ.Inv w t) :
    wp K P (fun w' t' codes => (∀ c ∈ codes, C c) ∧ Φ.Inv w' t')
      (forwardRecv fd (some pipe) t) w := by
  simp only [forwardRecv, wp_bind, wp_state, wp_ite, wp_pure, wp_prog_call]
  refine ⟨fun hf => ?_, fun _ => ⟨by simp, h⟩⟩
  have hfront : Φ.hdr w t ∨ Φ.body w t := by
    cases h with
    | hdr h => exact .inl h
    | body h => exact .inr h
    | sendHdr h =>
        have h1 := (hΦ.sendHdr_flags h).recvHeader
        have h2 := (hΦ.sendHdr_flags h).recvBody
        omega
    | sendBody h =>
        have h1 := (hΦ.sendBody_flags h).recvHeader
        have h2 := (hΦ.sendBody_flags h).recvBody
        omega
  refine wp_post (fun w' t' c hc => ?_) (wp_proxyRecvData hΦ hfront)
  have hcode : ∀ c' ∈ [c], C c' := List.forall_mem_singleton.2 hc.1
  refine ⟨fun hle => ?_, fun _ => ⟨hcode, hc.2⟩⟩
  obtain ⟨hp, hk⟩ := hΦ.close hc.1 hle hc.2
  exact ⟨hp, fun r w'' h => ⟨hcode, hk r w'' h⟩⟩

/-- One of the two attempts to send. -/
theorem wp_attempt (hΦ : Φ.Sound K P C fd pipe peer) {w : W} {t : Transc}
    (h : Φ.sendHdr w t ∨ Φ.sendBody w t) :
    wp K P (fun w' t' c => (∀ c' ∈ [c], C c') ∧ (Φ.Inv w' t' ∨ Φ.sent w' t'))
      (proxySendData (some pipe) peer t) w := by
  refine wp_post (fun w' t' c hc => ⟨List.forall_mem_singleton.2 hc.1, ?_⟩)
    (wp_proxySendData hΦ h)
  rcases hc.2 with h | h | h
  · exact .inl (.sendHdr h)
  · exact .inl (.sendBody h)
  · exact .inr h

theorem wp_forwardSend (hΦ : Φ.Sound K P C fd pipe peer) {w : W} {t : Transc}
    (h : Φ.Inv w t) :
    wp K P (fun w' t' codes => (∀ c ∈ codes, C c) ∧ (Φ.Inv w' t' ∨ Φ.sent w' t'))
      (forwardSend (some pipe) peer t) w := by
  simp only [forwardSend, wp_bind, wp_state, wp_ite, wp_pure]
  refine ⟨fun hf => wp_attempt hΦ ?_, fun _ => ⟨by simp, .inl h⟩⟩
  cases h with
  | hdr h =>
      have h1 := (hΦ.hdr_flags h).recvHeader
      omega
  | body h =>
      have h1 := (hΦ.body_flags h).recvBody
      omega
  | sendHdr h => exact .inl h
  | sendBody h => exact .inr h

theorem wp_forwardResend (hΦ : Φ.Sound K P C fd pipe peer) {w : W} {t : Transc}
    (h : Φ.Inv w t ∨ Φ.sent w t) :
    wp K P (fun w' t' codes => (∀ c ∈ codes, C c) ∧ (Φ.Inv w' t' ∨ Φ.sent w' t'))
      (forwardResend (some pipe) peer t) w := by
  simp only [forwardResend, wp_bind, wp_state, wp_ite, wp_pure]
  refine ⟨fun hf => wp_attempt hΦ (.inr ?_), fun _ => ⟨by simp, h⟩⟩
  rcases h with h | h
  · cases h with
    | hdr h =>
        have h1 := (hΦ.hdr_flags h).sendHeader
        omega
    | body h =>
        have h1 := (hΦ.body_flags h).sendHeader
        omega
    | sendHdr h =>
        have h1 := (hΦ.sendHdr_flags h).sendHeader
        omega
    | sendBody h => exact h
  · have h1 := (hΦ.sent_flags h).sendBody
    omega

theorem wp_forwardClear (hΦ : Φ.Sound K P C fd pipe peer) {w : W} {t : Transc}
    (h : Φ.Inv w t ∨ Φ.sent w t) :
    wp K P (fun w' t' (_ : Unit) => Φ.Inv w' t') (forwardClear t) w := by
  simp only [forwardClear, wp_bind, wp_state, wp_ite, wp_update, wp_pure,
    transcClearData_eq]
  refine ⟨fun hf => ?_, fun hf => ?_⟩
  · rcases h with h | h
    · have h1 := hΦ.not_sent h
      omega
    · exact .hdr (hΦ.clear h)
  · rcases h with h | h
    · exact h
    · exact absurd ⟨(hΦ.sent_flags h).sendHeader, (hΦ.sent_flags h).sendBody⟩ hf

/-- **The walk.**  Phases that hand a message on to one another are an
invariant of `proxy_process_data`, and it never takes an `UNKNOWN` branch. -/
theorem wp_forward (hΦ : Φ.Sound K P C fd pipe peer) {w : W} {t : Transc}
    (h : Φ.Inv w t) :
    wp K P (fun w' t' codes => (∀ c ∈ codes, C c) ∧ Φ.Inv w' t')
      (forward fd (some pipe) peer t) w := by
  simp only [forward, wp_bind, wp_pure]
  refine wp_post (fun w₁ t₁ c₁ h₁ => ?_) (wp_forwardRecv hΦ h)
  refine wp_post (fun w₂ t₂ c₂ h₂ => ?_) (wp_forwardSend hΦ h₁.2)
  refine wp_post (fun w₃ t₃ c₃ h₃ => ?_) (wp_forwardResend hΦ h₂.2)
  refine wp_post (fun w₄ t₄ _ h₄ => ⟨?_, h₄⟩) (wp_forwardClear hΦ h₃.2)
  rw [List.forall_mem_append, List.forall_mem_append]
  exact ⟨⟨h₁.1, h₂.1⟩, h₃.1⟩

end Phases

/-- Waiting for a header, an event that ends with a bad one waits in `close`
next, so a kernel without an answer to that call ends the event there. -/
theorem wp_forward_closes {W : Type} {K : W → Transc → SysCall → Answer → W → Prop}
    {P : W → Transc → SysCall → Prop} {Q : W → Transc → List Int → Prop} {fd : Int}
    {pipe : Pipe} {peer : Int} {t : Transc} {w : W} (hfd : 0 ≤ fd)
    (hf : t.Flags 0 0 0 0) (hK : ∀ w t r w', ¬ K w t (.close fd) r w')
    (h : wp K P (fun w' t' rv => rv = some bufErr ∧ P w' t' (.close fd))
      (recvHeader (fun t => transcGetMsgLength t endian) fd t) w) :
    wp K P Q (forward fd (some pipe) peer t) w := by
  rw [forward, wp_bind]
  simp only [forwardRecv, wp_bind, wp_state, wp_ite]
  refine ⟨fun _ => ?_, fun hne => absurd (Or.inl hf.recvHeader) hne⟩
  simp only [proxyRecvData, wp_bind, wp_state, wp_ite]
  refine ⟨fun hneg => absurd hneg (by omega), fun _ => ⟨fun _ => ?_, fun hne => ?_⟩⟩
  · refine wp_post (fun w' t' rv hrv => ?_) h
    obtain ⟨rfl, hp⟩ := hrv
    refine ⟨fun _ => ⟨hp, fun r w'' hk => absurd hk (hK _ _ _ _)⟩, fun hgt => ?_⟩
    exact absurd (by decide) hgt
  · exact absurd ⟨hf.recvHeader, hf.recvBody⟩ hne

/-! ## A worker -/

section Worker

variable {W : Type} {Φ : Dir → Phases W} {K : W → SysCall → Answer → W → Prop}
  {P : Dir → W → Transc → SysCall → Prop} {C : Int → Prop} {d₀ d : WorkData}

/-- The descriptors and pipes of a worker never change. -/
structure WorkData.SameEnds (d₀ d : WorkData) : Prop where
  source : d.source = d₀.source
  peer : d.peer = d₀.peer
  pipe : d.pipe = d₀.pipe

theorem WorkData.SameEnds.setTransc (h : d₀.SameEnds d) (dir : Dir) (t : Transc) :
    d₀.SameEnds (d.setTransc dir t) where
  source := by rw [← h.source]; funext; exact source_setTransc _ _ _ _
  peer := by rw [← h.peer]; funext; exact peer_setTransc _ _ _ _
  pipe := by rw [← h.pipe]; funext; exact pipe_setTransc _ _ _ _

/-- Both directions of a worker are in one of their phases. -/
structure Settled (Φ : Dir → Phases W) (d₀ : WorkData) (w : W) (d : WorkData) :
    Prop where
  ends : d₀.SameEnds d
  inv : ∀ dir, (Φ dir).Inv w (d.transc dir)

/-- A worker waits in a call of one direction while the other one is in one
of its phases. -/
structure Waiting (Φ : Dir → Phases W) (P : Dir → W → Transc → SysCall → Prop)
    (d₀ : WorkData) (dir : Dir) (w : W) (d : WorkData) (op : SysCall) : Prop where
  ends : d₀.SameEnds d
  call : P dir w (d.transc dir) op
  other : ∀ dir', dir' ≠ dir → (Φ dir').Inv w (d.transc dir')

/-- An event on one of the worker's own descriptors is processed. -/
theorem proxyConnEvent_source (d : WorkData) (dir : Dir) :
    proxyConnEvent (d.source dir) d = proxyProcessData (d.source dir) d := by
  cases dir with
  | ingoing =>
      show (if d.srcFd = d.srcFd then proxyProcessData d.srcFd else _) d = _
      rw [if_pos rfl]
      rfl
  | outgoing =>
      show (if d.dstFd = d.srcFd then proxyProcessData d.srcFd
        else if d.dstFd = d.dstFd then proxyProcessData d.dstFd else _) d = _
      rw [if_neg (Ne.symm d.fd_ne), if_pos rfl]
      rfl

/-- The two directions of a worker do not disturb each other: each is walked
by `wp_forward`, and no call of one changes what the other is in. -/
theorem wp_proxyConnEvent
    (hΦ : ∀ dir, (Φ dir).Sound (blind K) (P dir) C (d₀.source dir) (d₀.pipe dir)
      (d₀.peer dir))
    (hother : ∀ {dir dir' w t op r w'} (t' : Transc), dir' ≠ dir → P dir w t op →
      K w op r w' → (Φ dir').Inv w t' → (Φ dir').Inv w' t')
    {w : W} (h : Settled Φ d₀ w d) (fd : Int) :
    wp (blind K) (fun w' d' op => ∃ dir, Waiting Φ P d₀ dir w' d' op)
      (fun w' d' codes => (∀ c ∈ codes, C c) ∧ Settled Φ d₀ w' d')
      (proxyConnEvent fd d) w := by
  have hdir : ∀ dir, wp (blind K) (fun w' d' op => ∃ dir, Waiting Φ P d₀ dir w' d' op)
      (fun w' d' codes => (∀ c ∈ codes, C c) ∧ Settled Φ d₀ w' d')
      (proxyProcessData (d.source dir) d) w := by
    intro dir
    simp only [proxyProcessData, wp_zoom, WorkData.dirOf_source]
    rw [h.ends.source, h.ends.pipe, h.ends.peer]
    let I : W → Prop := fun w' => ∀ dir', dir' ≠ dir → (Φ dir').Inv w' (d.transc dir')
    have hI : ∀ w s op r w', P dir w s op → K w op r w' → I w → I w' := by
      intro w s op r w' hp hk hi dir' hne
      exact hother _ hne hp hk (hi dir' hne)
    have hframe := wp_invariant hI (Phases.wp_forward (hΦ dir) (h.inv dir))
      (fun dir' _ => h.inv dir')
    apply wp_mono _ _ hframe
    · intro w' t' op hc
      refine ⟨dir, h.ends.setTransc dir t', ?_, fun dir' hne => ?_⟩
      · rw [WorkData.transc_setTransc_self]
        exact hc.1
      · rw [WorkData.transc_setTransc_ne _ hne]
        exact hc.2 dir' hne
    · intro w' t' codes hc
      refine ⟨hc.1.1, h.ends.setTransc dir t', fun dir' => ?_⟩
      by_cases hne : dir' = dir
      · subst hne
        rw [WorkData.transc_setTransc_self]
        exact hc.1.2
      · rw [WorkData.transc_setTransc_ne _ hne]
        exact hc.2 dir' hne
  simp only [proxyConnEvent, wp_bind, wp_state, wp_ite, wp_pure]
  refine ⟨fun _ => hdir .ingoing, fun _ => ⟨fun _ => hdir .outgoing, fun _ => ?_⟩⟩
  exact ⟨List.forall_mem_nil _, h⟩

/-- What is left of a run of a worker. -/
theorem worker_wp
    (hΦ : ∀ dir, (Φ dir).Sound (blind K) (P dir) C (d₀.source dir) (d₀.pipe dir)
      (d₀.peer dir))
    (hother : ∀ {dir dir' w t op r w'} (t' : Transc), dir' ≠ dir → P dir w t op →
      K w op r w' → (Φ dir').Inv w t' → (Φ dir').Inv w' t')
    {w : W} (h : ∀ dir, (Φ dir).Inv w (d₀.transc dir))
    {c : WorkerConfig W}
    (hr : Reach (blind K) proxyConnEvent (fun _ => true) ⟨w, .done d₀ []⟩ c) :
    wp (blind K) (fun w' d' op => ∃ dir, Waiting Φ P d₀ dir w' d' op)
      (fun w' d' codes => (∀ c ∈ codes, C c) ∧ Settled Φ d₀ w' d') c.node c.world := by
  refine wp_reach (fun fd w s a _ hq => wp_proxyConnEvent hΦ hother hq.2 fd) hr ?_
  exact ⟨List.forall_mem_nil _, ⟨rfl, rfl, rfl⟩, h⟩

/-- Whole runs of a worker. -/
theorem worker_reach
    (hΦ : ∀ dir, (Φ dir).Sound (blind K) (P dir) C (d₀.source dir) (d₀.pipe dir)
      (d₀.peer dir))
    (hother : ∀ {dir dir' w t op r w'} (t' : Transc), dir' ≠ dir → P dir w t op →
      K w op r w' → (Φ dir').Inv w t' → (Φ dir').Inv w' t')
    {w : W} (h : ∀ dir, (Φ dir).Inv w (d₀.transc dir))
    {c : WorkerConfig W}
    (hr : Reach (blind K) proxyConnEvent (fun _ => true) ⟨w, .done d₀ []⟩ c) :
    c.Shows (fun w' d' op => ∃ dir, Waiting Φ P d₀ dir w' d' op)
      (fun w' d' codes => (∀ c ∈ codes, C c) ∧ Settled Φ d₀ w' d') :=
  shows_of_wp (worker_wp hΦ hother h hr)

end Worker

/-! ## The body phases -/

section Bodies

variable {W : Type} {K : W → Transc → SysCall → Answer → W → Prop}
  {P : W → Transc → SysCall → Prop} {Q : W → Transc → Int → Prop}

/-- Receiving a part of the body: one `splice` of what is missing. -/
theorem wp_recvBody {fd : Int} {pipe : Pipe} {t : Transc} {w : W}
    (hf : t.Flags 1 0 0 0)
    (hP : P w t (.spliceIn fd pipe (t.length - t.recvBytes)))
    (hnone : ∀ r w', K w t (.spliceIn fd pipe (t.length - t.recvBytes)) r w' →
      r.ret ≤ 0 → Q w' t (if r.ret < 0 then recvErrorCode r.errno else zeroByte))
    (hpart : ∀ r w', K w t (.spliceIn fd pipe (t.length - t.recvBytes)) r w' →
      0 < r.ret → t.recvBytes + r.ret ≠ t.length →
      Q w' { t with recvBytes := t.recvBytes + r.ret } normal)
    (hfull : ∀ r w', K w t (.spliceIn fd pipe (t.length - t.recvBytes)) r w' →
      0 < r.ret → t.recvBytes + r.ret = t.length →
      Q w' { t with recvBytes := t.recvBytes + r.ret, isRecvBody := 1 } normal) :
    wp K P Q (recvBody fd pipe t) w := by
  simp only [recvBody, wp_bind, wp_state, wp_ite, wp_pure, wp_prog_call, wp_update]
  refine ⟨fun _ => ⟨hP, fun r w' hk => ⟨fun hneg => ?_, fun hnneg =>
    ⟨fun hz => ?_, fun hnz => ⟨fun hfin => ?_, fun hfin => ?_⟩⟩⟩⟩, fun hne => ?_⟩
  · have h := hnone r w' hk (by omega)
    rwa [if_pos hneg] at h
  · have h := hnone r w' hk (by omega)
    rwa [if_neg hnneg] at h
  · exact hfull r w' hk (by omega) hfin
  · exact hpart r w' hk (by omega) hfin
  · exact absurd ⟨hf.recvHeader, hf.recvBody⟩ hne

/-- Sending a part of the body: one `splice` of `recv_bytes`. -/
theorem wp_sendBody {fd : Int} {pipe : Pipe} {t : Transc} {w : W}
    (hf : t.Flags 1 1 1 0)
    (hP : P w t (.spliceOut pipe fd t.recvBytes))
    (hfail : ∀ r w', K w t (.spliceOut pipe fd t.recvBytes) r w' → r.ret < 0 →
      Q w' t (sendErrorCode r.errno))
    (hpart : ∀ r w', K w t (.spliceOut pipe fd t.recvBytes) r w' → 0 ≤ r.ret →
      t.recvBytes - r.ret ≠ 0 →
      Q w' { t with recvBytes := t.recvBytes - r.ret,
                    sendBytes := t.sendBytes + r.ret } normal)
    (hfull : ∀ r w', K w t (.spliceOut pipe fd t.recvBytes) r w' → 0 ≤ r.ret →
      t.recvBytes - r.ret = 0 →
      Q w' { t with recvBytes := 0, sendBytes := t.sendBytes + r.ret,
                    isSendBody := 1 } normal) :
    wp K P Q (sendBody pipe fd t) w := by
  simp only [sendBody, wp_bind, wp_state, wp_ite, wp_pure, wp_prog_call, wp_update]
  refine ⟨fun _ => ⟨hP, fun r w' hk => ⟨fun hneg => hfail r w' hk hneg, fun hnneg =>
    ⟨fun hfin => ?_, fun hfin => hpart r w' hk (by omega) hfin⟩⟩⟩, fun hne => ?_⟩
  · have h := hfull r w' hk (by omega) hfin
    rw [← hfin] at h
    exact h
  · exact absurd ⟨hf.sendHeader, hf.sendBody⟩ hne

end Bodies

end ZeroCopyProxy.Ports.ProxyRelay
