import ZeroCopyProxy.Ports.ServerEcho
import ZeroCopyProxy.Ports.ProxyCapacity

/-!
# The server is never stuck

The echo of `ServerEcho` is a safety law: what is written begins what was
consumed.  Here it is shown that the rest can follow.  As long as
`server_check_fd` and `epoll_wait` succeed, there is from every reachable
state a continuation at the end of which the whole stream is written back:
where the socket has the bytes and takes what it is given, every round that is
told of the client moves some (`serverRound_moves`).

Unlike the proxy the server holds a message in an array that has room for it,
so there is no condition on the messages but the one under which it echoes.
-/

namespace ZeroCopyProxy.Ports.ServerProgress

open ZeroCopyProxy.Verified.Resumption
open ZeroCopyProxy.Verified.Liberal
open ZeroCopyProxy.Verified.PrefixCode
open ZeroCopyProxy.Ports.Posix
open ZeroCopyProxy.Ports.Kernel
open ZeroCopyProxy.Ports.Frame
open ZeroCopyProxy.Ports.TranscHeader
open ZeroCopyProxy.Ports.ServerLoop
open ZeroCopyProxy.Ports.ServerBody
open ZeroCopyProxy.Ports.ServerEcho
open ZeroCopyProxy.Ports.ProxyCapacity (asked stalled again_stalled fits_stalled moved
  moved_after moved_source moved_sink continues_drop drop_pos)

/-! ## Sockets that are ready -/

/-- The checks of the loop succeed. -/
def Healthy (op : SysCall) (r : Answer) : Prop :=
  match op with
  | .getsockopt _ | .epollWait => 0 ≤ r.ret
  | _ => True

instance (op : SysCall) (r : Answer) : Decidable (Healthy op r) :=
  match op with
  | .getsockopt _ | .epollWait => inferInstanceAs (Decidable (0 ≤ r.ret))
  | .read .. | .write .. | .spliceIn .. | .spliceOut .. | .close _ => .isTrue trivial

/-- The messages of the client arrive, and the checks succeed. -/
def Serving (frames : List (Message .little)) (w : Host) (op : SysCall) (r : Answer) : Prop :=
  EchoPolicy frames w op r ∧ Healthy op r

instance (frames : List (Message .little)) (w : Host) (op : SysCall) (r : Answer) :
    Decidable (Serving frames w op r) :=
  inferInstanceAs (Decidable (_ ∧ _))

/-- The bytes of the stream that are still to be read from a descriptor. -/
abbrev ahead (stream : Bytes) (w : Host) (fd : Int) : Bytes :=
  stream.drop (w.consumed fd).length

/-- The answers of a kernel that has the rest of the stream at hand, takes
everything that is written, and reports the client. -/
def readyAnswer (stream : Bytes) (fd : Int) (w : Host) : SysCall → Answer
  | .read f .hdr n =>
      if n = 20 ∧ 20 ≤ (ahead stream w f).length then .stored ((ahead stream w f).take 20)
      else stalled n
  | .read f .body n =>
      if 0 < n ∧ 0 < (ahead stream w f).length then .stored ((ahead stream w f).take n.toNat)
      else stalled n
  | .write _ _ _ n => .count n
  | .spliceIn _ _ n | .spliceOut _ _ n => stalled n
  | .close _ | .getsockopt _ => .count 0
  | .epollWait => ⟨1, .other 0, [], [fd]⟩

/-- This kernel. -/
abbrev readyKernel (frames : List (Message .little)) (fd : Int) :
    Host → SysCall → Answer → Host → Prop :=
  hostKernel fun w op r => Serving frames w op r ∧ r = readyAnswer (join frames) fd w op

section Answers

variable {frames : List (Message .little)} {fd : Int} {w : Host}

/-- A call that moves nothing is always possible. -/
theorem can_stalled (op : SysCall) : w.Can op (stalled (asked op)) := by
  have hneg := (again_stalled (asked op)).1
  refine ⟨fits_stalled op, ?_⟩
  cases op with
  | spliceOut pipe f n =>
      show (stalled n).ret ≤ (w.piped pipe).length
      have hneg' : (stalled n).ret < 0 := hneg
      omega
  | _ => exact True.intro

/-- A read of the next bytes of the stream is possible. -/
theorem can_read {f n : Int} (area : Area) (k : Nat)
    (hpre : w.consumed f <+: join frames) (hk : (k : Int) ≤ n) :
    w.Can (.read f area n) (.stored ((ahead (join frames) w f).take k)) ∧
      Continues (fun _ => join frames) w (.read f area n)
        (.stored ((ahead (join frames) w f).take k)) := by
  have hle : (((ahead (join frames) w f).take k).length : Int) ≤ n := by
    rw [List.length_take]
    omega
  refine ⟨⟨⟨hle, fun _ => rfl⟩, True.intro⟩, ?_⟩
  show w.consumed f ++ (Answer.stored _).moved <+: join frames
  rw [Answer.moved_eq rfl]
  exact continues_drop hpre k

/-- A call that moves nothing leaves the stream where it is. -/
theorem continues_stalled (hpre : ∀ f, w.consumed f <+: join frames) (op : SysCall) :
    Continues (fun _ => join frames) w op (stalled (asked op)) :=
  continues_idle op (Int.le_of_lt (again_stalled (asked op)).1) hpre

/-- A kernel that is ready has an answer to every call. -/
theorem ready_answers (hpre : ∀ f, w.consumed f <+: join frames) (op : SysCall) :
    ∃ r w', readyKernel frames fd w op r w' := by
  suffices h : w.Can op (readyAnswer (join frames) fd w op) ∧
      Serving frames w op (readyAnswer (join frames) fd w op) from
    ⟨_, _, h.1, ⟨h.2, rfl⟩, rfl⟩
  have hstall := continues_stalled hpre op
  have hcan := can_stalled (w := w) op
  cases op with
  | read f area n =>
      cases area with
      | hdr =>
          simp only [readyAnswer]
          split
          · next hgo =>
              obtain ⟨rfl, hlen⟩ := hgo
              obtain ⟨hcan, hcont⟩ := can_read .hdr 20 (hpre f) (Int.le_refl 20)
              refine ⟨hcan, ⟨.inr ?_, hcont⟩, True.intro⟩
              show ((List.take 20 _).length : Int) = 20
              rw [List.length_take]
              omega
          · exact ⟨hcan, ⟨.inl (again_stalled n), hstall⟩, True.intro⟩
      | body =>
          simp only [readyAnswer]
          split
          · next hgo =>
              obtain ⟨hcan, hcont⟩ := can_read .body n.toNat (n := n) (hpre f) (by omega)
              refine ⟨hcan, ⟨.inr ?_, hcont⟩, True.intro⟩
              show 0 < ((List.take n.toNat _).length : Int)
              rw [List.length_take]
              omega
          · exact ⟨hcan, ⟨.inl (again_stalled n), hstall⟩, True.intro⟩
  | write f area buf n => exact ⟨⟨Int.le_refl n, True.intro⟩, ⟨.inr rfl, True.intro⟩, True.intro⟩
  | spliceIn f pipe n => exact ⟨hcan, ⟨True.intro, hstall⟩, True.intro⟩
  | spliceOut pipe f n => exact ⟨hcan, ⟨True.intro, hstall⟩, True.intro⟩
  | close f => exact ⟨⟨True.intro, True.intro⟩, ⟨True.intro, True.intro⟩, True.intro⟩
  | getsockopt f => exact ⟨⟨True.intro, True.intro⟩, ⟨True.intro, True.intro⟩, Int.le_refl 0⟩
  | epollWait => exact ⟨⟨True.intro, True.intro⟩, ⟨True.intro, True.intro⟩, Int.zero_le_ofNat 1⟩

end Answers

/-! ## The first transfer of a round -/

/-- The kernel that never answers. -/
abbrev noKernel (_ : Host) (_ : ServerTransc) (_ : SysCall) (_ : Answer) (_ : Host) : Prop :=
  False

section First

variable {F : Host → SysCall → Prop} {serverFd fd : Int} {w : Host} {t : ServerTransc}

/-- An event continues the message where it stands. -/
theorem serverEvent_first (hfd : 0 ≤ fd) (h : (echoPhases fd).Inv w t)
    (hhdr : Echoed fd w → F w (.read fd .hdr 20))
    (hbody : Arriving fd w t → t.recvBytes < t.length →
      F w (.read fd .body (t.length - t.recvBytes)))
    (hsendHdr : ∀ b : Buf 20, F w (.write fd .hdr b.bytes 20))
    (hsendBody : Answering fd w t → ∀ b : Buf 1024, F w (.write fd .body b.bytes t.recvBytes)) :
    wp noKernel (fun w _ op => F w op) (fun _ _ _ => False) (serverEvent fd t) w := by
  have hno : ∀ w t op r w', noKernel w t op r w' → r.Fits op := fun _ _ _ _ _ hk => hk.elim
  have hskip : ∀ {a b x y : Int}, a = x → b = y → ∀ {c d : Int}, (x ≠ c ∨ y ≠ d) →
      ¬ (a = c ∧ b = d) := by
    rintro a b x y rfl rfl c d hne ⟨rfl, rfl⟩
    exact hne.elim (fun hx => hx rfl) fun hy => hy rfl
  simp only [serverEvent, wp_bind, wp_guarded]
  cases h with
  | hdr h =>
      obtain ⟨hf, hr0, -, hecho⟩ := h
      refine ⟨fun _ => ?_, fun hne => absurd ⟨hf.recvHeader, hf.recvBody⟩ hne⟩
      simp only [serverReceive, serverRecvData, wp_bind, wp_state, wp_ite]
      refine ⟨fun _ => ?_, fun hne => absurd ⟨hf.recvHeader, hf.recvBody⟩ hne⟩
      rw [onTransc, wp_zoom]
      apply wp_recvHeader decodes_server (fun _ _ _ _ _ hk => hk.elim) (by omega) (by omega)
      · rw [hr0]
        exact hhdr hecho
      · exact fun _ _ hk => hk.elim
      · exact fun _ _ _ _ hk => hk.elim
      · exact fun _ _ _ hk => hk.elim
  | body h =>
      obtain ⟨hf, ha, hlt⟩ := h
      refine ⟨fun hc => absurd hc (hskip hf.recvHeader hf.recvBody (.inl (by decide))),
        fun _ => ⟨fun _ => ?_, fun hne => absurd ⟨hf.recvHeader, hf.recvBody⟩ hne⟩⟩
      simp only [serverReceive, serverRecvData, wp_bind, wp_state, wp_ite]
      refine ⟨fun hc => absurd hc (hskip hf.recvHeader hf.recvBody (.inl (by decide))),
        fun _ => ⟨fun hc => absurd hc (hskip hf.recvHeader hf.recvBody (.inl (by decide))),
        fun _ => ?_⟩⟩
      apply wp_serverRecvBody hno hf ha.counted ha.fits (hbody ha hlt)
      · exact fun _ _ hk => hk.elim
      · exact fun _ _ _ hk => hk.elim
      · exact fun _ _ _ hk => hk.elim
  | sendHdr h =>
      obtain ⟨hf, ha, hfull⟩ := h
      refine ⟨fun hc => absurd hc (hskip hf.recvHeader hf.recvBody (.inl (by decide))),
        fun _ => ⟨fun hc => absurd hc (hskip hf.recvHeader hf.recvBody (.inr (by decide))),
        fun _ => ⟨fun _ => ?_, fun hne => absurd ⟨hf.recvHeader, hf.recvBody⟩ hne⟩⟩⟩
      simp only [serverSend, serverSendData, wp_bind, wp_state, wp_ite]
      refine ⟨fun hneg => absurd hneg (Int.not_lt.2 hfd), fun _ => ⟨fun _ => ?_, fun hne =>
        absurd ⟨hf.sendHeader, hf.sendBody⟩ hne⟩⟩
      have hs := ha.unsent
      rw [onTransc, wp_zoom]
      apply wp_sendHeader (fun _ _ _ _ _ hk => hk.elim) (by omega) (by omega)
      · intro b _
        rw [hs]
        exact hsendHdr b
      · exact fun _ _ _ _ hk => hk.elim
      · exact fun _ _ _ _ hk => hk.elim
      · exact fun _ _ _ _ hk => hk.elim
  | sendBody h =>
      obtain ⟨hf, ha⟩ := h
      have hsent := ha.sent
      have hlong := ha.long
      refine ⟨fun hc => absurd hc (hskip hf.recvHeader hf.recvBody (.inl (by decide))),
        fun _ => ⟨fun hc => absurd hc (hskip hf.recvHeader hf.recvBody (.inr (by decide))),
        fun _ => ⟨fun _ => ?_, fun hne => absurd ⟨hf.recvHeader, hf.recvBody⟩ hne⟩⟩⟩
      simp only [serverSend, serverSendData, wp_bind, wp_state, wp_ite]
      refine ⟨fun hneg => absurd hneg (Int.not_lt.2 hfd), fun _ => ⟨fun hc =>
        absurd hc (hskip hf.sendHeader hf.sendBody (.inl (by decide))), fun _ => ⟨fun hc =>
        absurd hc (hskip hf.sendHeader hf.sendBody (.inl (by decide))), fun _ => ?_⟩⟩⟩
      apply wp_serverSendBody (fun _ _ _ hk => hk.elim) hf (by omega) ha.fits
        (fun _ => .inl hsent)
      · intro hover
        omega
      · intro b _ _
        exact hsendBody ha b
      · exact fun _ _ _ hk => hk.elim
      · exact fun _ _ _ _ _ hk => hk.elim
      · exact fun _ _ _ _ _ hk => hk.elim

end First

/-! ## Every round moves bytes -/

section Moves

variable {frames : List (Message .little)} {serverFd fd : Int} {w w' : Host}
  {t : ServerTransc} {op : SysCall} {r : Answer}

/-- The two ends of the echo are one descriptor. -/
def echoEnds (fd : Int) : Ends := ⟨fd, ⟨0, 0⟩, fd⟩

/-- No ready socket answers this call without moving bytes. -/
def Moves (frames : List (Message .little)) (fd : Int) (w : Host) (op : SysCall) : Prop :=
  ∀ r w', readyKernel frames fd w op r w' → moved (echoEnds fd) w < moved (echoEnds fd) w'

/-- Behind whole messages, a stream that goes on has another header. -/
theorem header_ahead (hpre : w.consumed fd <+: join frames) (he : Echoed fd w)
    (hne : w.written fd ≠ join frames) : 20 ≤ (ahead (join frames) w fd).length := by
  obtain ⟨fs, hw, hc⟩ := he
  have hpos := drop_pos hpre (by rw [hc, ← hw]; exact hne)
  obtain ⟨y, hy⟩ := hpre
  unfold ahead
  rw [← hy, List.drop_left] at hpos ⊢
  have hall : join fs ++ y <+: join frames := by
    refine ⟨[], ?_⟩
    rw [List.append_nil, ← hc, hy]
  obtain ⟨u, rest, hframes, _⟩ :=
    (isPrefixCode .little).next_word hall (List.ne_nil_of_length_pos hpos)
  have hlt := u.2.twenty_lt
  rw [hframes, hc] at hy
  have heq : y = u.1 ++ join rest := by simpa using hy
  rw [heq, List.length_append]
  omega

/-- While a body is missing something the stream is not consumed. -/
theorem body_ahead (hpre : w.consumed fd <+: join frames) (ha : Arriving fd w t)
    (hlt : t.recvBytes < t.length) : 0 < (ahead (join frames) w fd).length := by
  refine drop_pos hpre fun hall => ?_
  obtain ⟨fs, _, hc⟩ := ha.relayed
  have hcounted := ha.counted
  have hlength := ha.length_eq
  have hpart : Partial (IsFrame .little)
      (t.readHdrBuf.bytes ++ t.readBodyBuf.bytes.take (t.recvBytes - 20).toNat) := by
    refine partial_of_header t.readHdrBuf.size ha.accepted ?_
    rw [List.length_take]
    omega
  have heq : join frames ++ [] = join fs ++
      (t.readHdrBuf.bytes ++ t.readBodyBuf.bytes.take (t.recvBytes - 20).toNat) := by
    rw [List.append_nil, ← hall, hc]
  have hnil := congrArg List.length ((isPrefixCode .little).join_unique heq .nil hpart).2
  rw [List.length_append, t.readHdrBuf.size] at hnil
  simp only [List.length_nil] at hnil
  omega

/-- An event moves bytes unless the stream is written back. -/
theorem serverEvent_moves (hfd : 0 ≤ fd) (hpre : w.consumed fd <+: join frames)
    (h : (echoPhases fd).Inv w t) (hne : w.written fd ≠ join frames) :
    wp noKernel (fun w _ op => Moves frames fd w op) (fun _ _ _ => False)
      (serverEvent fd t) w := by
  apply serverEvent_first hfd h
  · rintro hecho r w' ⟨⟨⟨hle, hdata⟩, _⟩, ⟨_, hready⟩, rfl⟩
    have hlen := header_ahead hpre hecho hne
    rw [readyAnswer, if_pos ⟨rfl, hlen⟩] at hready
    subst hready
    refine moved_source rfl ?_
    rw [Answer.moved_eq rfl]
    show 0 < (List.take 20 _).length
    rw [List.length_take]
    omega
  · rintro ha hlt r w' ⟨⟨⟨hle, hdata⟩, _⟩, ⟨_, hready⟩, rfl⟩
    have hlen := body_ahead hpre ha hlt
    rw [readyAnswer, if_pos ⟨by omega, hlen⟩] at hready
    subst hready
    refine moved_source rfl ?_
    rw [Answer.moved_eq rfl]
    show 0 < (List.take _ _).length
    rw [List.length_take]
    omega
  · rintro b r w' ⟨_, ⟨_, hready⟩, rfl⟩
    subst hready
    refine moved_sink rfl ?_
    show 0 < (b.bytes.take 20).length
    rw [List.length_take, b.size]
    decide
  · rintro ha b r w' ⟨_, ⟨_, hready⟩, rfl⟩
    have hleft := ha.left
    have hlong := ha.long
    subst hready
    refine moved_sink rfl ?_
    show 0 < (b.bytes.take t.recvBytes.toNat).length
    rw [List.length_take, b.size]
    omega

/-- What holds between two rounds. -/
structure Between (frames : List (Message .little)) (fd : Int) (w : Host) (t : ServerTransc)
    (again : Bool) : Prop where
  again : again = true
  phase : (echoPhases fd).Inv w t ∨ (echoPhases fd).sent w t
  arrived : ∀ f, w.consumed f <+: join frames

/-- What a kernel that is ready keeps. -/
theorem arrived_after (hpre : ∀ f, w.consumed f <+: join frames)
    (hk : readyKernel frames fd w op r w') : ∀ f, w'.consumed f <+: join frames := by
  obtain ⟨_, ⟨⟨⟨_, hcont⟩, _⟩, _⟩, rfl⟩ := hk
  exact fun f => hcont.consumed (hpre f)

theorem echo_of_ready (hk : readyKernel frames fd w op r w') :
    hostKernel (EchoPolicy frames) w op r w' := ⟨hk.1, hk.2.1.1.1, hk.2.2⟩

/-- The events of a round that is told of the client. -/
theorem serverEvents_moves (hshort : ∀ f ∈ frames, f.1.length ≤ 1044) (hfd : 0 ≤ fd)
    (hserver : fd ≠ serverFd) (hpre : ∀ f, w.consumed f <+: join frames)
    (h : (echoPhases fd).Inv w t) (hne : w.written fd ≠ join frames) :
    wp (blind (readyKernel frames fd)) (fun w _ _ => ∀ f, w.consumed f <+: join frames)
      (fun w' t' _ => ((echoPhases fd).Inv w' t' ∨ (echoPhases fd).sent w' t') ∧
        (∀ f, w'.consumed f <+: join frames) ∧ moved (echoEnds fd) w < moved (echoEnds fd) w')
      (serverEvents serverFd fd [fd] t) w := by
  have hwalk := Phases.wp_serverEvents (echoPhases_sound hshort fd) serverFd [fd] (.inl h)
  have hecho : wp (blind (readyKernel frames fd)) (CallEchoes fd)
      (fun w' t' _ => (echoPhases fd).Inv w' t' ∨ (echoPhases fd).sent w' t')
      (serverEvents serverFd fd [fd] t) w :=
    wp_kernel_mono (fun _ _ _ _ _ hk => echo_of_ready hk) hwalk
  have hready := wp_invariant (I := fun w => ∀ f, w.consumed f <+: join frames)
    (fun _ _ _ _ _ _ hk hi => arrived_after hi hk) hecho hpre
  have hfirst : wp noKernel (fun w _ op => Moves frames fd w op) (fun _ _ _ => False)
      (serverEvents serverFd fd [fd] t) w := by
    simp only [serverEvents, wp_bind, wp_guarded, wp_pure]
    refine ⟨fun _ => ?_, fun hno => absurd ⟨hserver, True.intro⟩ hno⟩
    exact serverEvent_moves hfd (hpre fd) h hne
  have hgrow := wp_first (I := fun w' => moved (echoEnds fd) w < moved (echoEnds fd) w')
    (F := fun w _ op => Moves frames fd w op)
    (by
      rintro w₁ s op r w₂ ⟨_, _, rfl⟩ hlt
      exact Nat.lt_of_lt_of_le hlt (moved_after _ _ _ _))
    hfirst (fun s op r w' hf hk => hf r w' hk) hready
  exact wp_mono (fun _ _ _ hp => hp.2) (fun _ _ _ hq => ⟨hq.1.1, hq.1.2, hq.2⟩) hgrow

/-- Before a message is sent its last flag is down. -/
theorem inv_unsent (h : (echoPhases fd).Inv w t) : t.isSendBody = 0 := by
  cases h with
  | hdr h => exact h.1.sendBody
  | body h => exact h.1.sendBody
  | sendHdr h => exact h.1.sendBody
  | sendBody h => exact h.1.sendBody

/-- A round that is told of the client moves bytes unless the stream is
written back. -/
theorem serverRound_moves (hshort : ∀ f ∈ frames, f.1.length ≤ 1044) (hfd : 0 ≤ fd)
    (hserver : fd ≠ serverFd) (h : Between frames fd w t true)
    (hne : w.written fd ≠ join frames) :
    wp (blind (readyKernel frames fd)) (fun w _ _ => ∀ f, w.consumed f <+: join frames)
      (fun w' t' again => Between frames fd w' t' again ∧
        moved (echoEnds fd) w < moved (echoEnds fd) w')
      (serverRound serverFd fd t) w := by
  have hclear : ∀ {w : Host}, (echoPhases fd).Inv w t ∨ (echoPhases fd).sent w t →
      wp (blind (readyKernel frames fd)) (fun w _ _ => ∀ f, w.consumed f <+: join frames)
        (fun w' t' _ => w' = w ∧ (echoPhases fd).Inv w' t') (serverClear t) w := by
    intro w h
    rw [serverClear, wp_guarded, wp_update, serverTranscClear_eq]
    refine ⟨fun hf => ⟨rfl, ?_⟩, fun hf => ⟨rfl, ?_⟩⟩
    · rcases h with h | h
      · exact absurd hf.2 (by rw [inv_unsent h]; decide)
      · exact .hdr ⟨⟨rfl, rfl, rfl, rfl⟩, rfl, rfl, h.2⟩
    · exact h.resolve_right fun h => hf ⟨h.1.sendHeader, h.1.sendBody⟩
  simp only [serverRound, wp_bind, wp_prog_call, wp_ite, wp_pure]
  refine ⟨h.arrived, ?_⟩
  rintro r₁ w₁ ⟨_, ⟨⟨_, hchecked⟩, _⟩, rfl⟩
  refine ⟨fun hneg => absurd hneg (Int.not_lt.2 hchecked), fun _ => ?_⟩
  -- until the events begin only the log changes
  have hstill : Still fd w (w.after (.getsockopt fd) r₁) := ⟨rfl, rfl⟩
  have hphase : (echoPhases fd).Inv (w.after (.getsockopt fd) r₁) t ∨
      (echoPhases fd).sent (w.after (.getsockopt fd) r₁) t :=
    h.phase.imp hstill.inv fun hsent => ⟨hsent.1, hstill.echoed hsent.2⟩
  refine wp_post ?_ (hclear hphase)
  rintro _ t₂ _ ⟨rfl, h₂⟩
  refine ⟨h.arrived, ?_⟩
  rintro r w₃ ⟨_, ⟨_, hready⟩, rfl⟩
  rw [show r = ⟨1, .other 0, [], [fd]⟩ from hready]
  refine ⟨fun hneg => absurd hneg (show ¬ (1 : Int) < 0 by decide), fun _ => ⟨fun hz =>
    absurd hz (show (1 : Int) ≠ 0 by decide), fun _ => ?_⟩⟩
  have hwait : Still fd (w.after (.getsockopt fd) r₁)
      ((w.after (.getsockopt fd) r₁).after .epollWait ⟨1, .other 0, [], [fd]⟩) := ⟨rfl, rfl⟩
  refine wp_post ?_ (serverEvents_moves hshort hfd hserver h.arrived (hwait.inv h₂) hne)
  rintro w' t' _ ⟨hphase', hpre', hmoved⟩
  exact ⟨⟨rfl, hphase', hpre'⟩, hmoved⟩

/-- No more is moved than the stream twice. -/
theorem moved_le {again : Bool} (h : Between frames fd w t again) :
    moved (echoEnds fd) w ≤ 2 * (join frames).length := by
  have hcons := (h.arrived fd).length_le
  have hwritten := (echoes_of_inv h.phase).1.length_le
  show (w.consumed fd).length + (w.written fd).length ≤ 2 * (join frames).length
  omega

end Moves

/-! ## Whole runs -/

section Run

variable {frames : List (Message .little)} {serverFd fd : Int}

/-- What the server has written begins what it has consumed, and that begins
the stream. -/
theorem written_behind (fd : Int) (hshort : ∀ f ∈ frames, f.1.length ≤ 1044) {c : ServerConfig Host}
    (hr : Reach (blind (hostKernel (EchoPolicy frames))) (fun _ : Unit => serverRound serverFd fd)
      id ⟨Host.fresh, .done serverCleared true⟩ c) :
    c.world.written fd <+: c.world.consumed fd ∧ c.world.consumed fd <+: join frames := by
  have hinit : (echoPhases fd).hdr Host.fresh serverCleared :=
    ⟨⟨rfl, rfl, rfl, rfl⟩, rfl, rfl, [], rfl, rfl⟩
  have hshows := server_reach (echoPhases_sound hshort fd) hinit hr
  refine ⟨?_, ?_⟩
  · obtain ⟨w, n⟩ := c
    cases n with
    | done t b => exact (echoes_of_inv hshows).1
    | call t op k => exact hshows.1
    | fault t => exact hshows.elim
  · refine world_reach (I := fun w : Host => w.consumed fd <+: join frames) ?_ hr
      List.nil_prefix
    rintro w op r w' hr' hw ⟨-, hpol, rfl⟩
    exact hpol.2.consumed hw

/-- A round whose checks succeed is followed by another one. -/
theorem wlp_serverRound_again {t : ServerTransc} {w : Host} :
    wlp (blind (hostKernel (Serving frames))) (fun _ _ _ => True) (fun _ _ again => again = true)
      (serverRound serverFd fd t) w := by
  simp only [serverRound, wlp_bind, wlp_prog_call, wlp_ite, wlp_pure]
  refine ⟨True.intro, ?_⟩
  rintro r w₁ ⟨_, ⟨_, hchecked⟩, rfl⟩
  refine ⟨fun hneg => absurd hneg (Int.not_lt.2 hchecked), fun _ => ?_⟩
  refine wlp_post (Q := fun _ _ _ => True) (fun w₂ t₂ _ _ => ?_)
    (wlp_of_forall (fun _ _ _ => True.intro) (fun _ _ _ => True.intro) _ _)
  refine ⟨True.intro, ?_⟩
  rintro r w₃ ⟨_, ⟨_, hchecked⟩, rfl⟩
  refine ⟨fun hneg => absurd hneg (Int.not_lt.2 hchecked), fun _ => ⟨fun _ => True.intro,
    fun _ => ?_⟩⟩
  exact wlp_of_forall (fun _ _ _ => True.intro) (fun _ _ _ => True.intro) _ _

/-- What a server whose checks succeed passes through. -/
abbrev Serves (frames : List (Message .little)) (serverFd fd : Int) :
    ServerConfig Host → ServerConfig Host → Prop :=
  Reach (blind (hostKernel (Serving frames))) (fun _ : Unit => serverRound serverFd fd) id

/-- What is left of a run. -/
theorem serves_wp (hshort : ∀ f ∈ frames, f.1.length ≤ 1044) {c : ServerConfig Host}
    (hr : Serves frames serverFd fd ⟨Host.fresh, .done serverCleared true⟩ c) :
    wp (blind (readyKernel frames fd)) (fun w _ _ => ∀ f, w.consumed f <+: join frames)
      (fun w t again => Between frames fd w t again) c.node c.world := by
  have hsound := echoPhases_sound hshort fd
  have hinit : (echoPhases fd).hdr Host.fresh serverCleared :=
    ⟨⟨rfl, rfl, rfl, rfl⟩, rfl, rfl, [], rfl, rfl⟩
  have hecho : ∀ {w op r w'}, hostKernel (Serving frames) w op r w' →
      hostKernel (EchoPolicy frames) w op r w' := fun hk => ⟨hk.1, hk.2.1.1, hk.2.2⟩
  have hserving : ∀ {w op r w'}, readyKernel frames fd w op r w' →
      hostKernel (Serving frames) w op r w' := fun hk => ⟨hk.1, hk.2.1.1, hk.2.2⟩
  have hphase : wp (blind (hostKernel (EchoPolicy frames))) (CallEchoes fd)
      (fun w t (_ : Bool) => (echoPhases fd).Inv w t ∨ (echoPhases fd).sent w t) c.node
      c.world :=
    wp_reach (fun _ _ _ _ _ hq => Phases.wp_serverRound hsound serverFd hq)
      (hr.mono fun _ _ _ _ _ hk => hecho hk) (.inl (.hdr hinit))
  have hagain : wlp (blind (hostKernel (Serving frames))) (fun _ _ _ => True)
      (fun _ _ again => again = true) c.node c.world :=
    wlp_reach (fun _ _ _ _ _ _ => wlp_serverRound_again) hr rfl
  have hpre : ∀ f, c.world.consumed f <+: join frames := by
    refine world_reach (I := fun w : Host => ∀ f, w.consumed f <+: join frames) ?_ hr
      fun _ => List.nil_prefix
    rintro w s op r w' hi ⟨_, hpol, rfl⟩ f
    exact hpol.1.2.consumed (hi f)
  have hboth := wp_and_wlp
    (wp_kernel_mono (fun _ _ _ _ _ hk => hecho hk) hphase :
      wp (blind (hostKernel (Serving frames))) _ _ c.node c.world) hagain
  have hready : wp (blind (readyKernel frames fd)) _ _ c.node c.world :=
    wp_kernel_mono (fun _ _ _ _ _ hk => hserving hk) hboth
  have hall := wp_invariant (I := fun w : Host => ∀ f, w.consumed f <+: join frames)
    (fun _ _ _ _ _ _ hk hi => arrived_after hi hk) hready hpre
  exact wp_mono (fun _ _ _ hp => hp.2) (fun _ _ _ hq => ⟨hq.1.2, hq.1.1, hq.2⟩) hall

/-- A run that has got anywhere can go on until the whole stream is written. -/
theorem exists_written_back (hshort : ∀ f ∈ frames, f.1.length ≤ 1044) (hfd : 0 ≤ fd)
    (hserver : fd ≠ serverFd) {c : ServerConfig Host}
    (hr : Serves frames serverFd fd ⟨Host.fresh, .done serverCleared true⟩ c) :
    ∃ w t, Serves frames serverFd fd c ⟨w, .done t true⟩ ∧ w.written fd = join frames := by
  have hmono : ∀ {w op r w'}, readyKernel frames fd w op r w' →
      hostKernel (Serving frames) w op r w' := fun hk => ⟨hk.1, hk.2.1.1, hk.2.2⟩
  have hround : ∃ w₁ t₁ again₁, Serves frames serverFd fd c ⟨w₁, .done t₁ again₁⟩ ∧
      Between frames fd w₁ t₁ again₁ :=
    exists_run (serves_wp hshort hr) (fun _ _ _ _ _ hk => hmono hk)
      fun _ _ op hpre => ready_answers hpre op
  obtain ⟨w₁, t₁, again₁, hr₁, h₁⟩ := hround
  have hevent : ∀ {w t again}, Between frames fd w t again →
      ¬ (again = true ∧ w.written fd = join frames) →
      wp (blind (readyKernel frames fd)) (fun w _ _ => ∀ f, w.consumed f <+: join frames)
        (fun w' t' again' => Between frames fd w' t' again' ∧
          moved (echoEnds fd) w < moved (echoEnds fd) w') (serverRound serverFd fd t) w := by
    intro w t again h hne
    obtain rfl : again = true := h.again
    exact serverRound_moves hshort hfd hserver h fun heq => hne ⟨rfl, heq⟩
  have hrest : ∃ w₂ t₂ again₂, Reach (blind (readyKernel frames fd))
      (fun _ : Unit => serverRound serverFd fd) id ⟨w₁, .done t₁ again₁⟩
        ⟨w₂, .done t₂ again₂⟩ ∧ again₂ = true ∧ w₂.written fd = join frames :=
    exists_run_progress (K := blind (readyKernel frames fd))
      (I := fun w t again => Between frames fd w t again)
      (G := fun w _ again => again = true ∧ w.written fd = join frames)
      (moved (echoEnds fd)) _ () moved_le (fun h => h.again) hevent
      (fun _ _ op hpre => ready_answers hpre op) h₁
  obtain ⟨w₂, t₂, _, hr₂, rfl, hdone⟩ := hrest
  exact ⟨w₂, t₂, hr₁.trans (hr₂.mono fun _ _ _ _ _ hk => hmono hk), hdone⟩

/-- **The server is never stuck.**  As long as the checks of the loop succeed,
a run that has got anywhere goes on until the whole stream of the client has
been consumed and written back. -/
theorem server_never_stuck (hshort : ∀ f ∈ frames, f.1.length ≤ 1044) (hfd : 0 ≤ fd)
    (hserver : fd ≠ serverFd) {c : ServerConfig Host}
    (hr : Serves frames serverFd fd ⟨Host.fresh, .done serverCleared true⟩ c) :
    ∃ w t, Serves frames serverFd fd c ⟨w, .done t true⟩ ∧
      w.consumed fd = join frames ∧ w.written fd = join frames := by
  obtain ⟨w, t, hrun, hdone⟩ := exists_written_back hshort hfd hserver hr
  have hend := serves_wp hshort (hr.trans hrun)
  have hbehind := (echoes_of_inv hend.phase).1
  refine ⟨w, t, hrun, ?_, hdone⟩
  rw [hdone] at hbehind
  exact ((hend.arrived fd).eq_of_length (Nat.le_antisymm (hend.arrived fd).length_le
    hbehind.length_le))

/-- Two messages, of which a header and a part of a body have arrived. -/
theorem server_never_stuck_halfway :
    ∃ c : ServerConfig Host, c.world.consumed 4 = sampleEcho.1.take 22 ∧
      ∃ w t, Serves [sampleEcho, sampleEcho] 3 4 c ⟨w, .done t true⟩ ∧
        w.consumed 4 = join [sampleEcho, sampleEcho] ∧
          w.written 4 = join [sampleEcho, sampleEcho] := by
  have hrun : ∃ c : ServerConfig Host,
      Serves [sampleEcho, sampleEcho] 3 4 ⟨Host.fresh, .done serverCleared true⟩ c ∧
      c.world.consumed 4 = sampleEcho.1.take 22 :=
    exists_reach_of_exec (fun w _ => hostDeliver (Serving [sampleEcho, sampleEcho]) w)
      hostKernel_of_hostDeliver
      [.event (), .answer (.count 0), .answer ⟨2, .other 0, [], [3, 4]⟩,
        .answer (.stored (sampleEcho.1.take 20)), .answer (.stored [1, 2])]
      (fun c : ServerConfig Host => c.world.consumed 4 = sampleEcho.1.take 22)
      (by decide +kernel)
  obtain ⟨c, hc, hhalf⟩ := hrun
  exact ⟨c, hhalf, server_never_stuck (by decide) (by decide) (by decide) hc⟩

end Run

end ZeroCopyProxy.Ports.ServerProgress
