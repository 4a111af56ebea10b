import ZeroCopyProxy.Ports.ServerMessage

/-!
# What a stale record gives away

A connection whose `transc` is not fresh behaves as no fresh one does.  The
flags and counters show in what the first message makes the server ask for or
write.  A byte left in `write_body_buf` shows when the header of a message is
written in two pieces.
-/

namespace ZeroCopyProxy.Ports.ServerStale

open ZeroCopyProxy.Verified.Resumption
open ZeroCopyProxy.Verified.Liberal
open ZeroCopyProxy.Verified.TwoRuns
open ZeroCopyProxy.Ports.Posix
open ZeroCopyProxy.Ports.Frame
open ZeroCopyProxy.Ports.TranscHeader
open ZeroCopyProxy.Ports.ServerLoop
open ZeroCopyProxy.Ports.ServerBody
open ZeroCopyProxy.Ports.ServerStack
open ZeroCopyProxy.Ports.ServerMessage

/-! ## Without a result a sender only writes -/

section Stuck

variable {S α : Type} {E : SysCall × Option Answer → Prop} {fd : Int}

/-- With no result left the program at most waits in a call that satisfies
`E`. -/
def Stuck (E : SysCall × Option Answer → Prop) (p : Prog S SysCall Answer α) : Prop :=
  ∀ s, wlp plays (fun w _ op => E (op, w.head?)) (fun w _ _ => w = []) (p s) []

/-- Every write satisfies `E`. -/
def Writes (fd : Int) (E : SysCall × Option Answer → Prop) : Prop :=
  ∀ area buf count, E (.write fd area buf count, none)

theorem Stuck.bind {β : Type} {p : Prog S SysCall Answer α} {f : α → Prog S SysCall Answer β}
    (hp : Stuck E p) (hf : ∀ a, Stuck E (f a)) : Stuck E (p >>= f) := by
  intro s
  rw [wlp_bind]
  refine wlp_post ?_ (hp s)
  intro w s' a hw
  subst hw
  exact hf a s'

theorem stuck_prepareHeader : Stuck E prepareHeader := by
  intro t
  simp [prepareHeader]

theorem stuck_writeHeader (hE : Writes fd E) : Stuck E (writeHeader fd) := by
  intro t
  simp [writeHeader, sysWrite, plays, hE _ _ _]

theorem stuck_prepareBody : Stuck E prepareBody := by
  intro t
  simp [prepareBody]

theorem stuck_writeBody (hE : Writes fd E) : Stuck E (writeBody fd) := by
  intro t
  simp [writeBody, sysWrite, plays, hE _ _ _]

theorem stuck_sendHeader (hE : Writes fd E) : Stuck E (sendHeader fd) := by
  unfold sendHeader
  apply stuck_prepareHeader.bind
  intro rv
  cases rv with
  | some c => exact fun _ => rfl
  | none => exact stuck_writeHeader hE

theorem stuck_serverSendBody (hE : Writes fd E) : Stuck E (serverSendBody fd) := by
  intro t
  unfold serverSendBody
  rw [wlp_bind, wlp_state, wlp_ite]
  refine ⟨fun _ => stuck_prepareBody.bind (fun rv => ?_) t, fun _ => rfl⟩
  cases rv with
  | some c => exact fun _ => rfl
  | none => exact stuck_writeBody hE

theorem stuck_serverSend (hE : Writes fd E) : Stuck E (serverSend fd) := by
  have hheader : Stuck E (onTransc (sendHeader fd)) := by
    intro t
    rw [onTransc, wlp_zoom]
    exact stuck_sendHeader hE t.toTransc
  have hdata : Stuck E (serverSendData fd) := by
    intro t
    unfold serverSendData
    rw [wlp_ite, wlp_bind, wlp_state, wlp_ite, wlp_ite]
    refine ⟨fun _ => rfl, fun _ => ⟨fun _ => hheader.bind (fun rv => ?_) t, fun _ =>
      ⟨fun _ => rfl, fun _ => stuck_serverSendBody hE t⟩⟩⟩
    cases rv with
    | some c => exact fun _ => rfl
    | none => exact stuck_serverSendBody hE
  exact hdata.bind fun _ _ => rfl

theorem Stuck.guarded {c : S → Prop} [DecidablePred c] {p : Prog S SysCall Answer Unit}
    (hp : Stuck E p) : Stuck E (Prog.guarded c p) := by
  intro s
  rw [wlp_guarded]
  exact ⟨fun _ => hp s, fun _ => rfl⟩

/-- The two attempts to send. -/
theorem stuck_sends (hE : Writes fd E) : Stuck E (do
    Prog.guarded (fun t => t.isRecvHeader = 1 ∧ t.isRecvBody = 1) (serverSend fd)
    Prog.guarded (fun t => t.isSendHeader = 1 ∧ t.isSendBody = 0) (serverSend fd)) :=
  (stuck_serverSend hE).guarded.bind fun _ => (stuck_serverSend hE).guarded

end Stuck

/-! ## Reads a stale record does not ask for -/

section Reads

variable {serverFd fd k : Int} {t : ServerTransc} {rest : List Answer}

/-- The result fits, and the call is no read of `k` bytes. -/
def NotAsked (k : Int) (e : SysCall × Option Answer) : Prop :=
  (∀ r ∈ e.2, r.Fits e.1) ∧ ∀ fd area, e.1 ≠ .read fd area k

theorem notAsked_writes : Writes fd (NotAsked k) := by
  intro area buf count
  refine ⟨fun r hr => (Option.not_mem_none r hr).elim, fun fd' area' h => ?_⟩
  cases h

/-- What holds of the calls of an event that uses up the results holds of the
whole run. -/
theorem notAsked_run (hne : fd ≠ serverFd) (hsent : ¬ (t.isSendHeader = 1 ∧ t.isSendBody = 1))
    (h : wlp plays (fun w _ op => NotAsked k (op, w.head?)) (fun w _ _ => w = [])
      (serverEvent fd t) rest) :
    ∀ e ∈ serverRun serverFd fd t (.count 0 :: clientEvent fd :: rest), NotAsked k e := by
  have hcalls : (serverRound serverFd fd t).waits ≠ none := Option.some_ne_none _
  have hquiet : ∀ {op : SysCall} {r : Option Answer}, (op = .getsockopt fd ∨ op = .epollWait) →
      NotAsked k (op, r) := by
    rintro op r (rfl | rfl)
    · refine ⟨fun _ _ => True.intro, fun fd' area h => ?_⟩
      cases h
    · refine ⟨fun _ _ => True.intro, fun fd' area h => ?_⟩
      cases h
  unfold serverRun
  rw [log_again rfl hcalls]
  apply log_all
  unfold serverRound
  simp only [wlp_bind, wlp_prog_call, wlp_ite, wlp_pure]
  refine ⟨hquiet (.inl rfl), fun c w hk => ?_⟩
  obtain ⟨rfl, rfl⟩ := List.cons.inj hk
  refine ⟨fun hneg => absurd hneg (by decide), fun _ => ?_⟩
  rw [serverClear_eq, wlp_done, afterClear, if_neg hsent]
  refine ⟨hquiet (.inr rfl), fun r w hk => ?_⟩
  obtain ⟨rfl, rfl⟩ := List.cons.inj hk
  have hone : (clientEvent fd).ret = 1 := rfl
  rw [hone]
  refine ⟨fun hneg => absurd hneg (by decide), fun _ => ⟨fun hz => absurd hz (by decide),
    fun _ => ?_⟩⟩
  show wlp _ _ _ (serverEvents serverFd fd [fd] t) _
  simp only [serverEvents, wlp_bind, wlp_pure, Prog.guarded]
  rw [if_pos ⟨hne, trivial⟩]
  refine wlp_post ?_ h
  intro w s _ hw
  subst hw
  have hlast : ∀ e ∈ log (serverRound serverFd fd) id (.done s true) [], NotAsked k e :=
    List.forall_mem_singleton.2 (hquiet (.inl rfl))
  exact hlast

theorem notAsked_read {k' : Int} {area : Area} (hk : k' ≠ k) :
    NotAsked k (.read fd area k', none) := by
  refine ⟨fun r hr => (Option.not_mem_none r hr).elim, ?_⟩
  intro fd' area' heq
  injection heq with _ _ hcount
  exact hk hcount

/-- The first read of an event asks for no whole header. -/
theorem stale_first_read (hne : fd ≠ serverFd)
    (hsent : ¬ (t.isSendHeader = 1 ∧ t.isSendBody = 1))
    (hhdr : t.isRecvHeader = 0 → t.isRecvBody = 0 → t.recvBytes ≠ 0)
    (hbody : t.isRecvHeader = 1 → t.isRecvBody = 0 → t.length - t.recvBytes ≠ 20) :
    ∀ e ∈ serverRun serverFd fd t [.count 0, clientEvent fd], NotAsked 20 e := by
  apply notAsked_run hne hsent
  unfold serverEvent
  rw [wlp_bind, wlp_guarded]
  refine ⟨fun hflags => ?_, fun _ => ?_⟩
  · have hcount : 20 - t.recvBytes ≠ 20 := by
      have hbytes := hhdr hflags.1 hflags.2
      omega
    simp only [serverReceive, serverRecvData, onTransc, recvHeader, sysRead, wlp_bind, wlp_state,
      wlp_ite, wlp_zoom, wlp_update, wlp_prog_call]
    exact ⟨fun _ => ⟨notAsked_read hcount, fun r w' hk => absurd hk plays_nil⟩,
      fun hother => absurd hflags hother⟩
  rw [wlp_bind, wlp_guarded]
  refine ⟨fun hflags => ?_, fun _ => stuck_sends notAsked_writes t⟩
  have hone : ¬ t.isRecvHeader = 0 := by
    rw [hflags.1]
    decide
  simp only [serverReceive, serverRecvData, serverRecvBody, sysRead, wlp_bind, wlp_state,
    wlp_ite, wlp_prog_call]
  exact ⟨fun hother => absurd hother.1 hone, fun _ => ⟨fun hother => absurd hother.1 hone,
    fun _ => ⟨fun _ => ⟨notAsked_read (hbody hflags.1 hflags.2), fun r w' hk =>
      absurd hk plays_nil⟩, fun hother => absurd hflags hother⟩⟩⟩

/-- A record that waits for 20 bytes of a body does not ask for one more when
it has got them. -/
theorem stale_second_read (hne : fd ≠ serverFd)
    (hsent : ¬ (t.isSendHeader = 1 ∧ t.isSendBody = 1))
    (hrh : t.isRecvHeader = 1) (hrb : t.isRecvBody = 0) (hcount : t.length - t.recvBytes = 20) :
    ∀ e ∈ serverRun serverFd fd t [.count 0, clientEvent fd, .stored (msgHeader 1)],
      NotAsked 1 e := by
  have hone : ¬ t.isRecvHeader = 0 := by
    rw [hrh]
    decide
  have hret : (Answer.stored (msgHeader 1)).ret = 20 := rfl
  apply notAsked_run hne hsent
  unfold serverEvent
  rw [wlp_bind, wlp_guarded]
  refine ⟨fun hflags => absurd hflags.1 hone, fun _ => ?_⟩
  rw [wlp_bind, wlp_guarded]
  refine ⟨fun _ => ?_, fun hother => absurd ⟨hrh, hrb⟩ hother⟩
  simp only [serverReceive, serverRecvData, serverRecvBody, sysRead, wlp_bind, wlp_state,
    wlp_ite, wlp_prog_call, wlp_pure, wlp_orFault, wlp_update]
  refine ⟨fun hother => absurd hother.1 hone, fun _ => ⟨fun hother => absurd hother.1 hone,
    fun _ => ⟨fun _ => ⟨?_, fun r w hk => ?_⟩, fun hother => absurd ⟨hrh, hrb⟩ hother⟩⟩⟩
  · rw [hcount]
    refine ⟨?_, fun fd' area' heq => ?_⟩
    · intro r hr
      obtain rfl := Option.some.inj hr
      exact ⟨Int.le_refl 20, fun _ => rfl⟩
    · injection heq with _ _ htwenty
      exact absurd htwenty (by decide)
  · obtain ⟨rfl, rfl⟩ := List.cons.inj hk
    rw [hret]
    have hfull : t.recvBytes + 20 = t.length := by omega
    refine ⟨fun _ => ⟨fun hneg => absurd hneg (by decide), fun _ => ⟨fun hz =>
      absurd hz (by decide), fun _ b _ => ⟨fun _ => ⟨fun hbad => absurd hbad (by decide),
        fun _ => ?_⟩, fun hpart => absurd hfull hpart⟩⟩⟩, fun _ => True.intro⟩
    exact (wlp_bind _ _ _ _).1 (stuck_sends notAsked_writes _)

end Reads

/-! ## Bytes a stale record does not write -/

section Writes

variable {serverFd fd : Int} {t : ServerTransc} {es : List (SysCall × Option Answer)}
  {Q : List Answer × List (SysCall × Option Answer) → ServerTransc → Unit → Prop}

/-- The result fits, and no byte 1 is written. -/
def NotSent (e : SysCall × Option Answer) : Prop :=
  (∀ r ∈ e.2, r.Fits e.1) ∧ 1 ∉ sentBy e

/-- No byte 1 is written in this log. -/
def Unsent (es : List (SysCall × Option Answer)) : Prop := ∀ e ∈ es, NotSent e

theorem Unsent.snoc (h : Unsent es) {e : SysCall × Option Answer} (he : NotSent e) :
    Unsent (es ++ [e]) :=
  List.forall_mem_append.2 ⟨h, List.forall_mem_singleton.2 he⟩

theorem notSent_waiting (op : SysCall) : NotSent (op, none) := by
  refine ⟨fun r hr => (Option.not_mem_none r hr).elim, ?_⟩
  cases op <;> exact List.not_mem_nil

theorem notSent_write {area : Area} {buf : Bytes} {count : Int} (hcount : 1 ≤ count)
    (hbuf : byteAt buf 0 = 0) : NotSent (.write fd area buf count, some (.count 1)) := by
  constructor
  · intro r hr
    obtain rfl := Option.some.inj hr
    exact hcount
  · cases buf with
    | nil => exact List.not_mem_nil
    | cons b bs =>
        obtain rfl : b = 0 := hbuf
        exact fun hmem => absurd (List.mem_singleton.1 hmem) (by decide)

/-- A message with a body of one zero byte has arrived, but the record does
not say that nothing of it is sent. -/
structure Stale (t : ServerTransc) : Prop where
  length : t.length = 21
  recvBytes : t.recvBytes = 21
  body : byteAt t.readBodyBuf.bytes 0 = 0
  started : ¬ (t.isSendHeader = 0 ∧ t.isSendBody = 0 ∧ t.sendBytes = 0)

/-- The first copy of a body begins with the body. -/
theorem byteAt_first (body : Buf 1024) (old : Bytes) :
    byteAt (bodyToSend 0 1 body.bytes old) 0 = byteAt body.bytes 0 := by
  obtain ⟨bytes, size⟩ := body
  cases bytes with
  | nil => exact absurd size (by decide)
  | cons b bs => rfl

/-- Nothing more is written of a message that counts as sent. -/
theorem wp_serverSend_sent (hsh : t.isSendHeader = 1)
    (hlen : t.length ≤ t.sendBytes) (hQ : Q ([], es) t ()) :
    wp (records Fits) (Fitting Fits Unsent) Q (serverSend fd t) ([], es) := by
  have hzero : ¬ t.isSendHeader = 0 := by
    rw [hsh]
    decide
  have hlt : ¬ t.sendBytes < t.length := Int.not_lt.2 hlen
  simp only [serverSend, serverSendData, serverSendBody, prepareBody, wp_bind, wp_state, wp_ite,
    wp_pure]
  exact ⟨fun _ => hQ, fun _ => ⟨fun hc => absurd hc.1 hzero, fun _ => ⟨fun _ => hQ,
    fun _ => ⟨fun _ => ⟨fun hc => absurd hc hlt, fun _ => hQ⟩, fun _ => hQ⟩⟩⟩⟩

theorem Stale.wp_sendBody (hs : Stale t) (hes : Unsent es)
    {Q : List Answer × List (SysCall × Option Answer) → ServerTransc → Int → Prop}
    (hflags : t.isSendHeader = 1 ∧ t.isSendBody = 0)
    (hstill : ∀ t', Stale t' → Q ([.count 1], es) t' unknown)
    (hsent : ∀ es' t' c, Unsent es' →
      (t'.isSendHeader = 1 → t'.isSendBody = 0 → t'.length ≤ t'.sendBytes) → Q ([], es') t' c) :
    wp (records Fits) (Fitting Fits Unsent) Q (serverSendBody fd t) ([.count 1], es) := by
  have hlength := hs.length
  by_cases h20 : 20 ≤ t.sendBytes
  · apply wp_serverSendBody
    case hf => exact ⟨rfl, rfl, hflags.1, hflags.2⟩
    case h20 => exact h20
    case hlen => omega
    case hroom =>
      intro hlt
      omega
    case hret =>
      intro b r w' hk
      obtain ⟨rfl, -⟩ := records_cons hk
      decide
    case hover => exact fun _ => hstill t hs
    case hP =>
      intro b _ _
      show (1 : Int) ≤ t.recvBytes
      rw [hs.recvBytes]
      decide
    case hfail =>
      intro b r w' hk hle
      obtain ⟨rfl, -⟩ := records_cons hk
      exact absurd hle (by decide)
    case hfull =>
      intro b r w' _ _ hk _ hfull
      obtain ⟨rfl, -⟩ := records_cons hk
      rw [hs.recvBytes] at hfull
      exact absurd hfull (by decide)
    case hpart =>
      intro b r w' hlt hb hk _ _
      obtain ⟨rfl, rfl, -⟩ := records_cons hk
      have hsendBytes : t.sendBytes = 20 := by omega
      have hfirst : byteAt b.bytes 0 = 0 := by
        rw [hb, hsendBytes, hlength]
        exact (byteAt_first t.readBodyBuf _).trans hs.body
      apply hsent
      · apply hes.snoc
        apply notSent_write _ hfirst
        rw [hs.recvBytes]
        decide
      · intro _ _
        show t.length ≤ t.sendBytes + 1
        omega
  · obtain ⟨m, hm, -⟩ := t.writeBodyBuf.memset_eq (k := 1) (by decide)
    have hlt : t.sendBytes < t.length := by omega
    simp only [serverSendBody, prepareBody, wp_bind, wp_state, wp_ite, wp_pure, wp_orFault,
      wp_update]
    refine ⟨fun _ => ⟨fun _ => ⟨m, ?_, fun h => ?_, fun _ => ⟨fun h => ?_, fun _ => ?_⟩⟩,
      fun h => absurd hlt h⟩, fun h => absurd hflags h⟩
    · rw [hlength]
      exact hm
    · omega
    · omega
    · exact hstill { t with writeBodyBuf := m }
        ⟨hs.length, hs.recvBytes, hs.body, hs.started⟩

/-- The body of such a message is not written before the result of the write
is known. -/
theorem wp_sendBody_waiting {rh rb : Int} (hf : t.Flags rh rb 1 0) (hlength : t.length = 21)
    (hsend : t.sendBytes = 20) (hes : Unsent es)
    {Q : List Answer × List (SysCall × Option Answer) → ServerTransc → Int → Prop} :
    wp (records Fits) (Fitting Fits Unsent) Q (serverSendBody fd t) ([], es) := by
  apply wp_serverSendBody
  case hf => exact hf
  case h20 => omega
  case hlen => omega
  case hroom => exact fun _ => .inl hsend
  case hover =>
    intro hle
    omega
  case hP => exact fun _ _ _ => hes.snoc (notSent_waiting _)
  case hret => exact fun _ _ _ hk => absurd hk records_nil
  case hfail => exact fun _ _ _ hk => absurd hk records_nil
  case hpart => exact fun _ _ _ _ _ hk => absurd hk records_nil
  case hfull => exact fun _ _ _ _ _ hk => absurd hk records_nil

theorem byteAt_resumed {off : Nat} (hoff : 0 < off) (hdr : Bytes) :
    byteAt (resumed off hdr) 0 = 0 := by
  obtain ⟨n, rfl⟩ : ∃ n, off = n + 1 := ⟨off - 1, by omega⟩
  rfl

/-- A header that is not sent from its beginning, and the body behind it. -/
theorem Stale.wp_sendHeader (hs : Stale t) (hes : Unsent es)
    {Q : List Answer × List (SysCall × Option Answer) → ServerTransc → Option Int → Prop}
    (hflags : t.isSendHeader = 0 ∧ t.isSendBody = 0)
    (hstill : ∀ t', Stale t' → Q ([.count 1], es) t' (some unknown))
    (hsent : ∀ es' t', Unsent es' → t'.isSendHeader = 0 → Q ([], es') t' none)
    (hnext : ∀ es' t', Unsent es' → t'.isSendHeader = 1 → t'.isSendBody = 0 →
      t'.length = 21 → t'.sendBytes = 20 → Q ([], es') t' none) :
    wp (records Fits) (Fitting Fits Unsent) Q (onTransc (sendHeader fd) t)
      ([.count 1], es) := by
  have hstart : t.sendBytes ≠ 0 := fun h => hs.started ⟨hflags.1, hflags.2, h⟩
  rw [onTransc, wp_zoom]
  by_cases hinside : 0 < t.sendBytes ∧ t.sendBytes < 20
  · have hfirst : ∀ {b : Buf 20}, b.bytes = resumed t.sendBytes.toNat t.readHdrBuf.bytes →
        NotSent (.write fd .hdr b.bytes (20 - t.sendBytes), some (.count 1)) := by
      intro b hb
      apply notSent_write
      · omega
      · rw [hb]
        exact byteAt_resumed (by omega) _
    apply TranscHeader.wp_sendHeader
    case hK => exact fun _ _ _ _ _ h => h.2.2
    case h0 => exact Int.le_of_lt hinside.1
    case h19 => exact hinside.2
    case hP =>
      intro b _
      show (1 : Int) ≤ 20 - t.sendBytes
      omega
    case hnone =>
      intro b r w' _ hk hle
      obtain ⟨rfl, -⟩ := records_cons hk
      exact absurd hle (by decide)
    case hpart =>
      intro b r w' hb hk _ _
      obtain ⟨rfl, rfl, -⟩ := records_cons hk
      exact hsent _ _ (hes.snoc (hfirst hb)) hflags.1
    case hfull =>
      intro b r w' hb hk _ _
      obtain ⟨rfl, rfl, -⟩ := records_cons hk
      exact hnext _ _ (hes.snoc (hfirst hb)) rfl hflags.2 hs.length rfl
  · simp only [sendHeader, prepareHeader, wp_bind, wp_state, wp_ite, wp_pure, wp_update,
      wp_orFault]
    refine ⟨fun hlt => ⟨fun hz => absurd hz hstart, fun _ => ⟨fun hpos =>
      absurd ⟨hpos, hlt⟩ hinside, fun _ => ?_⟩⟩, fun _ => hstill t hs⟩
    exact hstill { t with writeHdrBuf := Buf.zeros 20 }
      ⟨hs.length, hs.recvBytes, hs.body, hs.started⟩

/-- What such a record makes the server write does not begin with the header. -/
theorem Stale.wp_send (hfd : 0 ≤ fd) (hs : Stale t) (hes : Unsent es)
    (hstill : ∀ t', Stale t' → Q ([.count 1], es) t' ())
    (hsent : ∀ es' t', Unsent es' →
      (t'.isSendHeader = 1 → t'.isSendBody = 0 → t'.length ≤ t'.sendBytes) → Q ([], es') t' ()) :
    wp (records Fits) (Fitting Fits Unsent) Q (serverSend fd t) ([.count 1], es) := by
  simp only [serverSend, serverSendData, wp_bind, wp_state, wp_ite, wp_pure]
  refine ⟨fun hneg => absurd hfd (Int.not_le.2 hneg), fun _ => ⟨fun hflags => ?_,
    fun _ => ⟨fun _ => hstill t hs, fun _ => ?_⟩⟩⟩
  · apply hs.wp_sendHeader hes hflags
    case hstill => exact hstill
    case hsent =>
      intro es' t' hes' hsh
      have hne : ¬ t'.isSendHeader = 1 := by
        rw [hsh]
        decide
      simp only [serverSendBody, wp_bind, wp_state, wp_ite, wp_pure]
      exact ⟨fun hc => absurd hc.1 hne, fun _ => hsent es' t' hes' fun h => absurd h hne⟩
    case hnext =>
      intro es' t' hes' hsh hsb hlength hsend
      exact wp_sendBody_waiting ⟨rfl, rfl, hsh, hsb⟩ hlength hsend hes'
  · by_cases hflags : t.isSendHeader = 1 ∧ t.isSendBody = 0
    · apply hs.wp_sendBody hes hflags
      case hstill => exact hstill
      case hsent => exact fun es' t' _ => hsent es' t'
    · simp only [serverSendBody, wp_bind, wp_state, wp_ite, wp_pure]
      exact ⟨fun hc => absurd hc hflags, fun _ => hstill t hs⟩

end Writes

section FirstWrite

variable {serverFd fd : Int} {t : ServerTransc} {es : List (SysCall × Option Answer)}

/-! The rest of the run, with no result or with one. -/

theorem Unsent.run_nil (hes : Unsent es) : Unsent (es ++ serverRun serverFd fd t []) :=
  hes.snoc (notSent_waiting (.getsockopt fd))

theorem Unsent.run_one (hes : Unsent es) :
    Unsent (es ++ serverRun serverFd fd t [.count 1]) := by
  have hcalls : (serverRound serverFd fd t).waits ≠ none := Option.some_ne_none _
  have hround : wp (records Fits) (Fitting Fits Unsent)
      (fun w s a => Unsent (w.2 ++ log (serverRound serverFd fd) id (.done s a) w.1))
      (serverRound serverFd fd t) ([.count 1], es) := by
    unfold serverRound
    simp only [wp_bind, wp_prog_call]
    refine ⟨True.intro, fun c w' hk => ?_⟩
    obtain ⟨rfl, rfl, -⟩ := records_cons hk
    simp only [wp_ite, wp_pure, wp_bind, wp_prog_call]
    refine ⟨fun hneg => absurd hneg (by decide), fun _ => ?_⟩
    rw [serverClear_eq, wp_done]
    refine ⟨?_, fun r w' hk => absurd hk records_nil⟩
    apply Unsent.snoc _ (notSent_waiting _)
    apply hes.snoc
    exact ⟨fun _ _ => True.intro, List.not_mem_nil⟩
  unfold serverRun
  rw [log_again rfl hcalls]
  exact log_of_wp hround

theorem notSent_read {area : Area} {count : Int} {data : Bytes}
    (h : (data.length : Int) ≤ count) : NotSent (.read fd area count, some (.stored data)) := by
  refine ⟨?_, List.not_mem_nil⟩
  intro r hr
  obtain rfl := Option.some.inj hr
  exact ⟨h, fun _ => rfl⟩

/-- A record that has counted bytes of a message as sent does not write the
first byte of its header. -/
theorem stale_first_write (hfd : 0 ≤ fd) (hne : fd ≠ serverFd)
    (hsent : ¬ (t.isSendHeader = 1 ∧ t.isSendBody = 1))
    (hrh : t.isRecvHeader = 0) (hrb : t.isRecvBody = 0) (hrecv : t.recvBytes = 0)
    (hstale : ¬ (t.isSendHeader = 0 ∧ t.isSendBody = 0 ∧ t.sendBytes = 0)) :
    Unsent (serverRun serverFd fd t (arrival fd 1 ++ [.count 1])) := by
  rw [← List.nil_append (serverRun serverFd fd t _)]
  apply serverRun_event hne hsent
  apply wp_event_arrival (by decide) (by decide) ⟨hrh, hrb, rfl, rfl⟩ hrecv
  intro hdr body hhdr hbody
  have hs : Stale { t with
      readHdrBuf := hdr, length := 20 + ((1 : Nat) : Int), recvBytes := 20 + ((1 : Nat) : Int)
      isRecvHeader := 1, isRecvBody := 1, readBodyBuf := body } := by
    refine ⟨rfl, rfl, ?_, hstale⟩
    show byteAt body.bytes 0 = 0
    rw [hbody]
    rfl
  have hes : Unsent ([] ++ [(.getsockopt fd, some (.count 0)), (.epollWait, some (clientEvent fd))]
      ++ [(.read fd .hdr 20, some (.stored (msgHeader 1))),
        (.read fd .body (1 : Nat), some (.stored (List.replicate 1 0)))]) := by
    intro e he
    simp only [List.nil_append, List.cons_append, List.mem_cons, List.not_mem_nil, or_false] at he
    rcases he with rfl | rfl | rfl | rfl
    · exact ⟨fun _ _ => True.intro, List.not_mem_nil⟩
    · exact ⟨fun _ _ => True.intro, List.not_mem_nil⟩
    · exact notSent_read (Int.le_refl 20)
    · exact notSent_read (Int.le_refl 1)
  apply hs.wp_send hfd hes
  case hstill =>
    intro t' hs'
    refine ⟨fun _ => ?_, fun _ => hes.run_one⟩
    apply hs'.wp_send hfd hes
    case hstill => exact fun _ _ => hes.run_one
    case hsent => exact fun es' t' hes' _ => hes'.run_nil
  case hsent =>
    intro es' t' hes' hend
    refine ⟨fun hflags => ?_, fun _ => hes'.run_nil⟩
    exact wp_serverSend_sent hflags.1 (hend hflags.1 hflags.2) hes'.run_nil

end FirstWrite

/-! ## What a fresh record shows -/

section Fresh

variable {serverFd fd : Int} {t m : ServerTransc} {n : Nat}

/-- A fresh record has zeros behind the body. -/
theorem fresh_message (h : Fresh t) (hfd : 0 ≤ fd) (hne : fd ≠ serverFd) (h0 : 0 < n)
    (hn : n ≤ 1023) : Echoes fd n 0 (serverRun serverFd fd t (arrival fd n ++ echo fd n)) := by
  have hzero : byteAt serverCleared.writeBodyBuf.bytes n = 0 := by
    show (List.replicate 1024 (0 : UInt8)).getD n 0 = 0
    rw [List.getD_eq_getElem?_getD, List.getElem?_replicate]
    split <;> rfl
  have hrun := serverRun_message (t := serverCleared) hfd hne h0 hn idle_serverCleared.flags
    idle_serverCleared.recvBytes idle_serverCleared.sendBytes
  rw [hzero] at hrun
  rw [h.same_run (.inr idle_serverCleared)]
  exact hrun

theorem fresh_first_read (h : Fresh t) (hfd : 0 ≤ fd) (hne : fd ≠ serverFd) :
    serverRun serverFd fd t [.count 0, clientEvent fd] =
      [(.getsockopt fd, some (.count 0)), (.epollWait, some (clientEvent fd)),
        (.read fd .hdr 20, none)] := by
  obtain ⟨hdr, body, -, hlog⟩ := fresh_message (n := 1) h hfd hne (by decide) (by decide)
  show log _ _ _ _ = [_, _] ++ [_]
  exact log_prefix hlog rfl

theorem fresh_second_read (h : Fresh t) (hfd : 0 ≤ fd) (hne : fd ≠ serverFd) :
    serverRun serverFd fd t [.count 0, clientEvent fd, .stored (msgHeader 1)] =
      [(.getsockopt fd, some (.count 0)), (.epollWait, some (clientEvent fd)),
        (.read fd .hdr 20, some (.stored (msgHeader 1))), (.read fd .body 1, none)] := by
  obtain ⟨hdr, body, -, hlog⟩ := fresh_message (n := 1) h hfd hne (by decide) (by decide)
  show log _ _ _ _ = [_, _, _] ++ [_]
  exact log_prefix hlog rfl

theorem fresh_first_write (h : Fresh t) (hfd : 0 ≤ fd) (hne : fd ≠ serverFd) :
    serverRun serverFd fd t (arrival fd 1 ++ [.count 1]) =
      [(.getsockopt fd, some (.count 0)), (.epollWait, some (clientEvent fd)),
        (.read fd .hdr 20, some (.stored (msgHeader 1))),
        (.read fd .body 1, some (.stored (List.replicate 1 0))),
        (.write fd .hdr (msgHeader 1) 20, some (.count 1)), (.getsockopt fd, none)] := by
  obtain ⟨hdr, body, -, hlog⟩ := fresh_message (n := 1) h hfd hne (by decide) (by decide)
  show log _ _ _ _ = [_, _, _, _, _] ++ [_]
  exact log_prefix hlog rfl

end Fresh

/-! ## Telling them apart -/

section Apart

variable {serverFd fd k : Int} {t m : ServerTransc} {n : Nat}
  {es : List (SysCall × Option Answer)}

theorem not_mem_readsOf (fd : Int) (h : ∀ e ∈ es, NotAsked k e) : (fd, k) ∉ readsOf es := by
  intro hmem
  obtain ⟨⟨op, r⟩, he, hread⟩ := List.mem_filterMap.1 hmem
  cases op with
  | read fd' area count =>
      obtain ⟨rfl, rfl⟩ := Prod.mk.inj (Option.some.inj hread)
      exact (h _ he).2 fd' area rfl
  | _ => cases hread

theorem not_mem_sentOf (h : Unsent es) : 1 ∉ sentOf es := by
  intro hmem
  obtain ⟨e, he, hone⟩ := List.mem_flatMap.1 hmem
  exact (h e he).2 hone

theorem possible_messageLog (fd : Int) (n : Nat) (hdr body : Bytes) :
    Possible (messageLog fd n hdr body) := by
  have hanswer : ∀ {op : SysCall} {a : Answer}, a.Fits op →
      ∀ r ∈ (some a : Option Answer), r.Fits op := by
    intro op a hfits r hr
    obtain rfl := Option.some.inj hr
    exact hfits
  have hbody : ((List.replicate n (0 : UInt8)).length : Int) ≤ n := by
    rw [List.length_replicate]
  intro e he
  simp only [messageLog, List.mem_cons, List.not_mem_nil, or_false] at he
  rcases he with rfl | rfl | rfl | rfl | rfl | rfl | rfl | rfl | rfl | rfl
  · exact hanswer True.intro
  · exact hanswer True.intro
  · exact hanswer ⟨Int.le_refl 20, fun _ => rfl⟩
  · exact hanswer ⟨hbody, fun _ => rfl⟩
  · exact hanswer (show (1 : Int) ≤ 20 by decide)
  · exact hanswer True.intro
  · exact hanswer True.intro
  · exact hanswer (Int.le_refl 19)
  · exact hanswer (Int.le_refl (n + 1 : Int))
  · exact fun r hr => (Option.not_mem_none r hr).elim

theorem possible_prefix (es₁ : List (SysCall × Option Answer))
    {es₂ : List (SysCall × Option Answer)} {op : SysCall}
    (h : Possible (es₁ ++ es₂)) : Possible (es₁ ++ [(op, none)]) := by
  intro e he
  rcases List.mem_append.1 he with he | he
  · exact h e (List.mem_append_left _ he)
  · obtain rfl := List.mem_singleton.1 he
    exact fun r hr => (Option.not_mem_none r hr).elim

theorem sameRuns_first_read (h : SameRuns serverFd fd m t) (hm : Fresh m) (hfd : 0 ≤ fd)
    (hne : fd ≠ serverFd) (hsent : ¬ (t.isSendHeader = 1 ∧ t.isSendBody = 1)) :
    (t.isRecvHeader = 0 ∧ t.isRecvBody = 0 ∧ t.recvBytes = 0) ∨
      (t.isRecvHeader = 1 ∧ t.isRecvBody = 0 ∧ t.length - t.recvBytes = 20) := by
  by_contra hcon
  rw [not_or] at hcon
  have hstale := stale_first_read hne hsent (fun hrh hrb hrecv => hcon.1 ⟨hrh, hrb, hrecv⟩)
    fun hrh hrb hlen => hcon.2 ⟨hrh, hrb, hlen⟩
  have hlog := fresh_first_read hm hfd hne
  have hposs : Possible (serverRun serverFd fd m [.count 0, clientEvent fd]) := by
    rw [hlog]
    exact possible_prefix [_, _] (possible_messageLog fd 1 [] [])
  have hreads := (h _ hposs fun e he => (hstale e he).1).1
  rw [hlog] at hreads
  apply not_mem_readsOf fd hstale
  rw [← hreads]
  exact List.mem_singleton.2 rfl

theorem sameRuns_second_read (h : SameRuns serverFd fd m t) (hm : Fresh m) (hfd : 0 ≤ fd)
    (hne : fd ≠ serverFd) (hsent : ¬ (t.isSendHeader = 1 ∧ t.isSendBody = 1)) :
    ¬ (t.isRecvHeader = 1 ∧ t.isRecvBody = 0 ∧ t.length - t.recvBytes = 20) := by
  rintro ⟨hrh, hrb, hlen⟩
  have hstale := stale_second_read hne hsent hrh hrb hlen
  have hlog := fresh_second_read hm hfd hne
  have hposs : Possible (serverRun serverFd fd m
      [.count 0, clientEvent fd, .stored (msgHeader 1)]) := by
    rw [hlog]
    exact possible_prefix [_, _, _] (possible_messageLog fd 1 [] [])
  have hreads := (h _ hposs fun e he => (hstale e he).1).1
  rw [hlog] at hreads
  apply not_mem_readsOf fd hstale
  rw [← hreads]
  exact List.mem_cons_of_mem _ (List.mem_singleton.2 rfl)

theorem sameRuns_first_write (h : SameRuns serverFd fd m t) (hm : Fresh m) (hfd : 0 ≤ fd)
    (hne : fd ≠ serverFd) (hsent : ¬ (t.isSendHeader = 1 ∧ t.isSendBody = 1))
    (hrh : t.isRecvHeader = 0) (hrb : t.isRecvBody = 0) (hrecv : t.recvBytes = 0) :
    t.isSendHeader = 0 ∧ t.isSendBody = 0 ∧ t.sendBytes = 0 := by
  by_contra hstart
  have hstale := stale_first_write hfd hne hsent hrh hrb hrecv hstart
  have hlog := fresh_first_write hm hfd hne
  have hposs : Possible (serverRun serverFd fd m (arrival fd 1 ++ [.count 1])) := by
    rw [hlog]
    exact possible_prefix [_, _, _, _, _] (possible_messageLog fd 1 [] [])
  have hbytes := (h _ hposs fun e he => (hstale e he).1).2
  rw [hlog] at hbytes
  apply not_mem_sentOf hstale
  rw [← hbytes]
  exact List.mem_singleton.2 rfl

/-- Where the byte behind the body is among the bytes written. -/
theorem byteAt_sentOf {hdr : Buf 20} {body : Buf 1024} :
    byteAt (sentOf (messageLog fd n hdr.bytes body.bytes)) (20 + n) = byteAt body.bytes n := by
  have hsent : sentOf (messageLog fd n hdr.bytes body.bytes) =
      ((msgHeader n).take 1 ++ hdr.bytes.take 19) ++ body.bytes.take (n + 1) := by
    have hcount : ((n : Int) + 1).toNat = n + 1 := by omega
    simp [sentOf, messageLog, sentBy, Answer.count, hcount]
  have hlen : ((msgHeader n).take 1 ++ hdr.bytes.take 19).length = 20 := by
    rw [List.length_append, List.length_take, List.length_take, msgHeader_length, hdr.size]
    rfl
  rw [hsent, byteAt_append_right _ (by omega), hlen, Nat.add_sub_cancel_left,
    byteAt_take (Nat.lt_succ_self n)]

theorem sameRuns_rest (h : SameRuns serverFd fd m t) (hm : Fresh m) (hfd : 0 ≤ fd)
    (hne : fd ≠ serverFd) (hf : t.Flags 0 0 0 0) (hrecv : t.recvBytes = 0)
    (hsend : t.sendBytes = 0) (h0 : 0 < n) (hn : n ≤ 1023) :
    byteAt t.writeBodyBuf.bytes n = 0 := by
  obtain ⟨hdr, body, hstale, hlog⟩ := serverRun_message hfd hne h0 hn hf hrecv hsend
  obtain ⟨hdr', body', hzero, hlog'⟩ := fresh_message hm hfd hne h0 hn
  have hposs := possible_messageLog fd n hdr.bytes body.bytes
  have hposs' := possible_messageLog fd n hdr'.bytes body'.bytes
  rw [← hlog] at hposs
  rw [← hlog'] at hposs'
  have hbytes := (h _ hposs' hposs).2
  rw [hlog, hlog'] at hbytes
  rw [← hstale, ← byteAt_sentOf, ← hbytes, byteAt_sentOf, hzero]

/-- Only fresh contents lead to the run of a fresh one. -/
theorem fresh_of_sameRuns (h : SameRuns serverFd fd m t) (hm : Fresh m) (hfd : 0 ≤ fd)
    (hne : fd ≠ serverFd) : Fresh t := by
  by_cases hsent : t.isSendHeader = 1 ∧ t.isSendBody = 1
  · exact .inl hsent
  have hread := sameRuns_first_read h hm hfd hne hsent
  obtain ⟨hrh, hrb, hrecv⟩ := hread.resolve_right (sameRuns_second_read h hm hfd hne hsent)
  obtain ⟨hsh, hsb, hsend⟩ := sameRuns_first_write h hm hfd hne hsent hrh hrb hrecv
  have hf : t.Flags 0 0 0 0 := ⟨hrh, hrb, hsh, hsb⟩
  refine .inr ⟨hf, hrecv, hsend, ?_⟩
  have hrest : ∀ n, 0 < n → n ≤ 1023 → byteAt t.writeBodyBuf.bytes n = 0 :=
    fun n h0 hn => sameRuns_rest h hm hfd hne hf hrecv hsend h0 hn
  have hlen : (t.writeBodyBuf.bytes.drop 1).length = 1023 := by
    rw [List.length_drop, t.writeBodyBuf.size]
  refine List.eq_replicate_iff.2 ⟨hlen, fun b hb => ?_⟩
  obtain ⟨i, hi, rfl⟩ := List.getElem_of_mem hb
  have hbyte := hrest (1 + i) (by omega) (by omega)
  unfold byteAt at hbyte
  rw [List.getD_eq_getElem?_getD, ← List.getElem?_drop, List.getElem?_eq_getElem hi] at hbyte
  exact hbyte

/-- **When connections to the server are independent.**  Two contents of which
one is fresh lead to the same runs if and only if both are. -/
theorem connections_independent_iff {m' : ServerTransc} (hfd : 0 ≤ fd) (hne : fd ≠ serverFd)
    (h : Fresh m ∨ Fresh m') : SameRuns serverFd fd m m' ↔ Fresh m ∧ Fresh m' := by
  constructor
  · intro hsame
    have hback : SameRuns serverFd fd m' m := fun rs hposs' hposs =>
      ⟨(hsame rs hposs hposs').1.symm, (hsame rs hposs hposs').2.symm⟩
    rcases h with hm | hm'
    · exact ⟨hm, fresh_of_sameRuns hsame hm hfd hne⟩
    · exact ⟨fresh_of_sameRuns hback hm' hfd hne, hm'⟩
  · rintro ⟨hm, hm'⟩ rs - -
    rw [hm.same_run hm']
    exact ⟨rfl, rfl⟩

/-- Two connections that start after a message was sent completely. -/
theorem connections_independent_sent :
    SameRuns 3 4 { serverCleared with isSendHeader := 1, isSendBody := 1, length := 21 }
      serverCleared := by
  have hsent : Fresh { serverCleared with isSendHeader := 1, isSendBody := 1, length := 21 } :=
    .inl ⟨rfl, rfl⟩
  exact (connections_independent_iff (by decide) (by decide) (.inl hsent)).2
    ⟨hsent, .inr idle_serverCleared⟩

/-- What a connection leaves that ended when the header of a message of 22
bytes and the first byte of its body, `A`, had arrived. -/
def leftover : ServerTransc where
  isRecvHeader := 1
  isRecvBody := 0
  isSendHeader := 0
  isSendBody := 0
  length := 22
  recvBytes := 21
  sendBytes := 0
  readHdrBuf := ⟨msgHeader 2, msgHeader_length 2⟩
  writeHdrBuf := Buf.zeros 20
  readBodyBuf := ⟨65 :: List.replicate 1023 0, by rw [List.length_cons, List.length_replicate]⟩
  writeBodyBuf := Buf.zeros 1024

/-- The next connection sends one byte and gets the message of the one before
back. -/
theorem connection_reads_leftover : ¬ ∀ m m', SameRuns 3 4 m m' := by
  intro h
  have hrun := h serverCleared leftover
    [.count 0, clientEvent 4, .stored [66], .count 20, .count 2]
  unfold Possible at hrun
  have hsent := (hrun (by decide +kernel) (by decide +kernel)).2
  revert hsent
  decide +kernel

end Apart

end ZeroCopyProxy.Ports.ServerStale
