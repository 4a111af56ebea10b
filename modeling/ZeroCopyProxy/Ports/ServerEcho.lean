import ZeroCopyProxy.Ports.ServerBody
import ZeroCopyProxy.Ports.Kernel

/-!
# The server echoes the stream

A client that sends nothing but messages whose bodies fit the server's
arrays, and a kernel that transfers headers and written bodies whole; bodies
may arrive in any pieces.  The phases say where the bytes of the current
message are: consumed into the header array and, from its first index on,
into `read_body_buf`; written from the header array and then from a copy of
the body.
-/

namespace ZeroCopyProxy.Ports.ServerEcho

open ZeroCopyProxy.Verified.Resumption
open ZeroCopyProxy.Verified.PrefixCode
open ZeroCopyProxy.Ports.Posix
open ZeroCopyProxy.Ports.Kernel
open ZeroCopyProxy.Ports.Frame
open ZeroCopyProxy.Ports.TranscHeader
open ZeroCopyProxy.Ports.ServerLoop
open ZeroCopyProxy.Ports.ServerBody

/-- Header reads, header writes and body writes move all they were asked to,
body reads at least one byte, or they fail with `EAGAIN`. -/
def WholeSends (op : SysCall) (r : Answer) : Prop :=
  match op with
  | .read _ .hdr count => Again r ∨ r.ret = count
  | .read _ .body _ => Again r ∨ 0 < r.ret
  | .write _ _ _ count => Again r ∨ r.ret = count
  | _ => True

instance (op : SysCall) (r : Answer) : Decidable (WholeSends op r) :=
  match op with
  | .read _ .hdr count | .write _ _ _ count =>
      inferInstanceAs (Decidable (Again r ∨ r.ret = count))
  | .read _ .body _ => inferInstanceAs (Decidable (Again r ∨ 0 < r.ret))
  | .spliceIn .. | .spliceOut .. | .close _ | .getsockopt _ | .epollWait => .isTrue trivial

/-- Such a kernel, with the messages of the client arriving. -/
def EchoPolicy (frames : List (Message .little)) (w : Host) (op : SysCall)
    (r : Answer) : Prop :=
  WholeSends op r ∧ Continues (fun _ => join frames) w op r

instance (frames : List (Message .little)) (w : Host) (op : SysCall) (r : Answer) :
    Decidable (EchoPolicy frames w op r) := by
  unfold EchoPolicy
  infer_instance

/-! ## The phases -/

/-- All that was consumed has been written, message by message. -/
def Echoed (fd : Int) (w : Host) : Prop :=
  ∃ fs : List (Message .little), w.written fd = join fs ∧ w.consumed fd = join fs

/-- An accepted header that fits, and a part of its body in the array. -/
structure Arriving (fd : Int) (w : Host) (t : ServerTransc) : Prop where
  unsent : t.sendBytes = 0
  accepted : Accepted .little t.readHdrBuf.bytes
  length_eq : t.length = len24 .little t.readHdrBuf.bytes
  fits : t.length ≤ 1044
  counted : 20 ≤ t.recvBytes
  bounded : t.recvBytes ≤ t.length
  relayed : ∃ fs : List (Message .little), w.written fd = join fs ∧
    w.consumed fd = join fs ++
      (t.readHdrBuf.bytes ++ t.readBodyBuf.bytes.take (t.recvBytes - 20).toNat)

/-- The header is written, the body is not. -/
structure Answering (fd : Int) (w : Host) (t : ServerTransc) : Prop where
  sent : t.sendBytes = 20
  left : t.recvBytes = t.length - 20
  long : 20 < t.length
  fits : t.length ≤ 1044
  relayed : ∃ (fs : List (Message .little)) (f : Message .little) (x : Bytes),
    f.1 = x ++ t.readBodyBuf.bytes.take (t.length - 20).toNat ∧
      w.written fd = join fs ++ x ∧ w.consumed fd = join fs ++ f.1

/-- The phases by the bytes on their way. -/
def echoPhases (fd : Int) : Phases Host where
  hdr w t := t.Flags 0 0 0 0 ∧ t.recvBytes = 0 ∧ t.sendBytes = 0 ∧ Echoed fd w
  body w t := t.Flags 1 0 0 0 ∧ Arriving fd w t ∧ t.recvBytes < t.length
  sendHdr w t := t.Flags 1 1 0 0 ∧ Arriving fd w t ∧ t.recvBytes = t.length
  sendBody w t := t.Flags 1 1 1 0 ∧ Answering fd w t
  sent w t := t.Flags 1 1 1 1 ∧ Echoed fd w

/-- What every phase shows. -/
def Echoes (fd : Int) (w : Host) (t : ServerTransc) : Prop :=
  w.written fd <+: w.consumed fd ∧ (t.isSendBody = 1 → w.written fd = w.consumed fd)

theorem echoes_of_echoed {fd : Int} {w : Host} {t : ServerTransc} (h : Echoed fd w) :
    Echoes fd w t := by
  obtain ⟨fs, hw, hc⟩ := h
  rw [Echoes, hw, hc]
  exact ⟨List.prefix_rfl, fun _ => rfl⟩

theorem echoes_of_arriving {fd : Int} {w : Host} {t : ServerTransc}
    (hsb : t.isSendBody = 0) (h : Arriving fd w t) : Echoes fd w t := by
  obtain ⟨fs, hw, hc⟩ := h.relayed
  refine ⟨?_, fun h1 => by omega⟩
  rw [hw, hc]
  exact List.prefix_append _ _

theorem echoes_of_answering {fd : Int} {w : Host} {t : ServerTransc}
    (hsb : t.isSendBody = 0) (h : Answering fd w t) : Echoes fd w t := by
  obtain ⟨fs, f, x, hf, hw, hc⟩ := h.relayed
  refine ⟨?_, fun h1 => by omega⟩
  rw [hw, hc, hf, ← List.append_assoc]
  exact List.prefix_append _ _

theorem echoes_of_inv {fd : Int} {w : Host} {t : ServerTransc}
    (h : (echoPhases fd).Inv w t ∨ (echoPhases fd).sent w t) : Echoes fd w t := by
  rcases h with (h | h | h | h) | h
  · exact echoes_of_echoed h.2.2.2
  · exact echoes_of_arriving h.1.sendBody h.2.1
  · exact echoes_of_arriving h.1.sendBody h.2.1
  · exact echoes_of_answering h.1.sendBody h.2
  · exact echoes_of_echoed h.2

/-! ## Calls that move nothing -/

/-- A step that moves no byte of this client. -/
structure Still (fd : Int) (w w' : Host) : Prop where
  consumed : w'.consumed fd = w.consumed fd
  written : w'.written fd = w.written fd

theorem still_of_idle (fd : Int) (w : Host) (op : SysCall) {r : Answer}
    (hr : r.ret ≤ 0) : Still fd w (w.after op r) := by
  obtain ⟨hc, _, hw⟩ := w.after_idle r op hr
  exact ⟨by rw [hc], by rw [hw]⟩

section Frame

variable {fd : Int} {w w' : Host} {t : ServerTransc}

theorem Still.echoed (h : Still fd w w') (he : Echoed fd w) : Echoed fd w' := by
  rw [Echoed, h.written, h.consumed]
  exact he

theorem Still.arriving (h : Still fd w w') (ha : Arriving fd w t) : Arriving fd w' t :=
  ⟨ha.unsent, ha.accepted, ha.length_eq, ha.fits, ha.counted, ha.bounded, by
    rw [h.written, h.consumed]
    exact ha.relayed⟩

theorem Still.answering (h : Still fd w w') (ha : Answering fd w t) :
    Answering fd w' t :=
  ⟨ha.sent, ha.left, ha.long, ha.fits, by
    rw [h.written, h.consumed]
    exact ha.relayed⟩

theorem Still.inv (h : Still fd w w') (hi : (echoPhases fd).Inv w t) :
    (echoPhases fd).Inv w' t := by
  cases hi with
  | hdr hi => exact .hdr ⟨hi.1, hi.2.1, hi.2.2.1, h.echoed hi.2.2.2⟩
  | body hi => exact .body ⟨hi.1, h.arriving hi.2.1, hi.2.2⟩
  | sendHdr hi => exact .sendHdr ⟨hi.1, h.arriving hi.2.1, hi.2.2⟩
  | sendBody hi => exact .sendBody ⟨hi.1, h.answering hi.2⟩

end Frame

/-! ## The four functions -/

/-- What is visible while the server waits in a call. -/
def CallEchoes (fd : Int) (w : Host) (t : ServerTransc) (_ : SysCall) : Prop :=
  Echoes fd w t

section Sound

variable {frames : List (Message .little)} {fd : Int} {w : Host} {t : ServerTransc}

theorem echoPhases_recvHeader (hshort : ∀ f ∈ frames, f.1.length ≤ 1044)
    (h : (echoPhases fd).hdr w t) :
    wp (blind (hostKernel (EchoPolicy frames))) (CallEchoes fd) (fun w' t' rv =>
      match rv with
      | some _ => True ∧ (echoPhases fd).hdr w' t'
      | none => (echoPhases fd).body w' t')
      (onTransc (recvHeader serverTranscGetMsgLength fd) t) w := by
  obtain ⟨hf, hr0, hs0, hecho⟩ := h
  rw [onTransc, wp_zoom]
  -- a header read that moves something moves all 20 bytes of a message
  have hwhole : ∀ {r : Answer},
      w.Can (.read fd .hdr (20 - t.recvBytes)) r →
      EchoPolicy frames w (.read fd .hdr (20 - t.recvBytes)) r → 0 < r.ret →
      r.ret = 20 ∧ r.moved = r.data ∧ r.data.length = 20 ∧
        Accepted .little r.data ∧ ∃ u ∈ frames, len24 .little r.data = u.1.length := by
    intro r hcan hpol hpos
    have hret : r.ret = 20 - t.recvBytes := hpol.1.resolve_left (not_again_of_pos hpos)
    have hlen : (r.data.length : Int) = r.ret := hcan.1.2 (by omega)
    have hmoved := Answer.moved_eq hlen
    obtain ⟨fs, _, hc⟩ := hecho
    have hcont : w.consumed fd ++ r.moved <+: join frames := hpol.2
    rw [hc, hmoved] at hcont
    exact ⟨by omega, hmoved, by omega, header_of_stream (by omega) hcont⟩
  apply wp_recvHeader decodes_server (fun w _ => hostKernel_fits w) (by omega) (by omega)
  · exact echoes_of_echoed hecho
  · rintro r w' ⟨_, _, rfl⟩ hret
    exact ⟨True.intro, ⟨hf.1, hf.2, hf.3, hf.4⟩, hr0, hs0,
      (still_of_idle fd w _ hret).echoed hecho⟩
  · rintro r w' b len ⟨hcan, hpol, rfl⟩ hpos _ hb hbad
    obtain ⟨hret, _, hlen, hacc, _⟩ := hwhole hcan hpol hpos
    exfalso
    rcases hbad with hne | hna
    · omega
    · rw [hb, hr0, Int.toNat_zero, received_zero hlen] at hna
      exact hna hacc
  · rintro r w' b ⟨hcan, hpol, rfl⟩ hpos _ hb hacc
    obtain ⟨_, hmoved, hlen, _, u, hu, hlu⟩ := hwhole hcan hpol hpos
    rw [hr0, Int.toNat_zero, received_zero hlen] at hb
    have hgt := hacc.2
    have hle : len24 .little b.bytes ≤ 1044 := by
      rw [hb, hlu]
      exact hshort u hu
    refine ⟨⟨rfl, hf.2, hf.3, hf.4⟩, ⟨hs0, hacc, rfl, ?_, Int.le_refl 20, ?_, ?_⟩, ?_⟩
    · show (len24 .little b.bytes : Int) ≤ 1044
      omega
    · show (20 : Int) ≤ (len24 .little b.bytes : Int)
      omega
    · obtain ⟨fs, hw, hc⟩ := hecho
      refine ⟨fs, hw, ?_⟩
      rw [Host.after_read_consumed, hc, hmoved, ← hb]
      show join fs ++ b.bytes = join fs ++ (b.bytes ++ t.readBodyBuf.bytes.take 0)
      rw [List.take_zero, List.append_nil]
    · show (20 : Int) < (len24 .little b.bytes : Int)
      omega

/-- A part of the body is placed behind what arrived before. -/
theorem Arriving.read (h : Arriving fd w t) {r : Answer} {n : Int} {b : Buf 1024}
    (hlen : (r.data.length : Int) = r.ret) (hle : t.recvBytes + r.ret ≤ t.length)
    (hb : b.bytes = placed t.readBodyBuf.bytes (t.recvBytes - 20).toNat r.data)
    {t' : ServerTransc} (hhdr : t'.readHdrBuf = t.readHdrBuf)
    (hsend : t'.sendBytes = t.sendBytes) (hlength : t'.length = t.length)
    (hrecv : t'.recvBytes = t.recvBytes + r.ret) (hbody : t'.readBodyBuf = b) :
    Arriving fd (w.after (.read fd .body n) r) t' where
  unsent := by rw [hsend, h.unsent]
  accepted := by
    rw [hhdr]
    exact h.accepted
  length_eq := by rw [hlength, hhdr, h.length_eq]
  fits := by
    rw [hlength]
    exact h.fits
  counted := by
    have hcounted := h.counted
    omega
  bounded := by omega
  relayed := by
    obtain ⟨fs, hw, hc⟩ := h.relayed
    have hcounted := h.counted
    have hfits := h.fits
    refine ⟨fs, hw, ?_⟩
    have hoff : (t'.recvBytes - 20).toNat =
        (t.recvBytes - 20).toNat + r.data.length := by omega
    have hroom : (t.recvBytes - 20).toNat ≤ t.readBodyBuf.bytes.length := by
      rw [t.readBodyBuf.size]
      omega
    rw [Host.after_read_consumed, hc, Answer.moved_eq hlen, hhdr, hbody, hb, hoff,
      placed_take hroom]
    simp only [List.append_assoc]

theorem echoPhases_recvBody (h : (echoPhases fd).body w t) :
    wp (blind (hostKernel (EchoPolicy frames))) (CallEchoes fd)
      (fun w' t' _ => True ∧ ((echoPhases fd).body w' t' ∨ (echoPhases fd).sendHdr w' t'))
      (serverRecvBody fd t) w := by
  have hbody := h
  obtain ⟨hf, ha, hlt⟩ := h
  apply wp_serverRecvBody (fun w _ => hostKernel_fits w) hf ha.counted ha.fits
  · exact echoes_of_arriving hf.sendBody ha
  · rintro r w' ⟨_, _, rfl⟩ hret
    exact ⟨True.intro, .inl ⟨hf, (still_of_idle fd w _ hret).arriving ha, hlt⟩⟩
  · rintro r w' b ⟨⟨hfits, _⟩, _, rfl⟩ hpos hne hb
    have hle : r.ret ≤ t.length - t.recvBytes := hfits.1
    refine ⟨True.intro, .inl ⟨⟨hf.1, hf.2, hf.3, hf.4⟩, ?_, ?_⟩⟩
    · exact ha.read (hfits.2 (by omega)) (by omega) hb rfl rfl rfl rfl rfl
    · show t.recvBytes + r.ret < t.length
      omega
  · rintro r w' b ⟨⟨hfits, _⟩, _, rfl⟩ hpos hfull hb
    refine ⟨True.intro, .inr ⟨⟨hf.1, rfl, hf.3, hf.4⟩, ?_, hfull⟩⟩
    exact ha.read (hfits.2 (by omega)) (by omega) hb rfl rfl rfl rfl rfl

/-- The header leaves in one piece. -/
theorem Arriving.sendHeader (h : Arriving fd w t) (hfull : t.recvBytes = t.length)
    {r : Answer} {n : Int} {b : Bytes} (hb : b = t.readHdrBuf.bytes) (hret : r.ret = 20)
    {t' : ServerTransc} (hbody : t'.readBodyBuf = t.readBodyBuf)
    (hsend : t'.sendBytes = 20) (hlength : t'.length = t.length)
    (hrecv : t'.recvBytes = t.recvBytes - r.ret) :
    Answering fd (w.after (.write fd .hdr b n) r) t' where
  sent := hsend
  left := by rw [hrecv, hfull, hlength, hret]
  long := by
    have hgt := h.accepted.2
    have hlen := h.length_eq
    omega
  fits := by
    rw [hlength]
    exact h.fits
  relayed := by
    obtain ⟨fs, hw, hc⟩ := h.relayed
    have hgt := h.accepted.2
    have hlen := h.length_eq
    have hfits := h.fits
    have hframe : IsFrame .little (t.readHdrBuf.bytes ++
        t.readBodyBuf.bytes.take (t.length - 20).toNat) := by
      rw [isFrame_append_iff .little t.readHdrBuf.size, List.length_take,
        t.readBodyBuf.size]
      exact ⟨h.accepted, by omega⟩
    refine ⟨fs, ⟨_, hframe⟩, t.readHdrBuf.bytes, by rw [hbody, hlength], ?_, ?_⟩
    · rw [Host.after_write_written, hw, hb, hret]
      congr 1
      exact List.take_of_length_le (by rw [t.readHdrBuf.size]; decide)
    · rw [Host.after_write_consumed, hc, hfull]

theorem echoPhases_sendHeader (h : (echoPhases fd).sendHdr w t) :
    wp (blind (hostKernel (EchoPolicy frames))) (CallEchoes fd) (fun w' t' rv =>
      match rv with
      | some _ => True ∧ (echoPhases fd).sendHdr w' t'
      | none => (echoPhases fd).sendHdr w' t' ∨ (echoPhases fd).sendBody w' t')
      (onTransc (sendHeader fd) t) w := by
  obtain ⟨hf, ha, hfull⟩ := h
  have hkeep : ∀ (w' : Host) (b : Buf 20), Arriving fd w' t →
      Arriving fd w' { t with writeHdrBuf := b } := fun w' b h =>
    ⟨h.unsent, h.accepted, h.length_eq, h.fits, h.counted, h.bounded, h.relayed⟩
  rw [onTransc, wp_zoom]
  apply wp_sendHeader_whole (fun w _ => hostKernel_fits w) ha.unsent
  · rintro b r w' ⟨_, hpol, rfl⟩ hpos
    have hs := ha.unsent
    have hret : r.ret = 20 - t.sendBytes := hpol.1.resolve_left (not_again_of_pos hpos)
    omega
  · intro b _
    exact echoes_of_arriving hf.sendBody (hkeep w b ha)
  · rintro b r w' ⟨_, _, rfl⟩ hret
    exact ⟨True.intro, ⟨hf.1, hf.2, hf.3, hf.4⟩,
      hkeep _ b ((still_of_idle fd w _ hret).arriving ha), hfull⟩
  · rintro b r w' hb ⟨_, _, rfl⟩ h20
    exact .inr ⟨⟨hf.1, hf.2, rfl, hf.4⟩,
      ha.sendHeader hfull hb h20 rfl rfl rfl rfl⟩

/-- The body leaves in one piece. -/
theorem Answering.finish (h : Answering fd w t) {r : Answer} {n : Int} {b : Buf 1024}
    (hb : b.bytes = bodyToSend (t.sendBytes - 20).toNat (t.length - 20).toNat
      t.readBodyBuf.bytes t.writeBodyBuf.bytes)
    (hret : r.ret = t.length - 20) :
    Echoed fd (w.after (.write fd .body b.bytes n) r) := by
  obtain ⟨fs, f, x, hf, hw, hc⟩ := h.relayed
  have hfits := h.fits
  have hlen : (t.readBodyBuf.bytes.take (t.length - 20).toNat).length =
      (t.length - 20).toNat := by
    rw [List.length_take, t.readBodyBuf.size]
    omega
  have hsent : b.bytes.take r.ret.toNat =
      t.readBodyBuf.bytes.take (t.length - 20).toNat := by
    rw [hb, h.sent, show ((20 : Int) - 20).toNat = 0 from rfl, bodyToSend, if_pos rfl,
      hret]
    exact List.take_left' hlen
  refine ⟨fs ++ [f], ?_, ?_⟩
  · rw [Host.after_write_written, hsent, hw, join_append, join_cons, join_nil,
      List.append_nil, hf, List.append_assoc]
  · rw [Host.after_write_consumed, hc, join_append, join_cons, join_nil, List.append_nil]

theorem echoPhases_sendBody (h : (echoPhases fd).sendBody w t) :
    wp (blind (hostKernel (EchoPolicy frames))) (CallEchoes fd)
      (fun w' t' _ => True ∧ ((echoPhases fd).sendBody w' t' ∨ (echoPhases fd).sent w' t'))
      (serverSendBody fd t) w := by
  obtain ⟨hf, ha⟩ := h
  have hsent := ha.sent
  have hleft := ha.left
  have hlong := ha.long
  have hfits := ha.fits
  have hkeep : ∀ (w' : Host) (b : Buf 1024), Answering fd w' t →
      Answering fd w' { t with writeBodyBuf := b } := fun w' b h =>
    ⟨h.sent, h.left, h.long, h.fits, h.relayed⟩
  have hcount : t.recvBytes ≤ 1024 := by omega
  apply wp_serverSendBody (fun _ _ _ hk => Int.le_trans (hostKernel_fits _ _ _ _ hk) hcount)
    hf (by omega) hfits
  · intro _
    exact .inl hsent
  · intro hover
    omega
  · intro b _ _
    exact echoes_of_answering hf.sendBody (hkeep w b ha)
  · rintro b r w' ⟨_, _, rfl⟩ hret
    exact ⟨True.intro, .inl ⟨⟨hf.1, hf.2, hf.3, hf.4⟩,
      hkeep _ b ((still_of_idle fd w _ hret).answering ha)⟩⟩
  · rintro b r w' _ _ ⟨_, hpol, rfl⟩ hpos hne
    have hret : r.ret = t.recvBytes := hpol.1.resolve_left (not_again_of_pos hpos)
    omega
  · rintro b r w' _ hb ⟨_, _, rfl⟩ hpos heq
    exact ⟨True.intro, .inr ⟨⟨hf.1, hf.2, hf.3, rfl⟩, ha.finish hb (by omega)⟩⟩

/-- On whole sends each phase hands the message to the next. -/
theorem echoPhases_sound (hshort : ∀ f ∈ frames, f.1.length ≤ 1044) (fd : Int) :
    (echoPhases fd).Sound (blind (hostKernel (EchoPolicy frames))) (CallEchoes fd)
      (fun _ => True) fd where
  code_normal := True.intro
  code_fdErr := True.intro
  hdr_flags h := h.1
  body_flags h := h.1
  sendHdr_flags h := h.1
  sendBody_flags h := h.1
  sent_flags h := h.1
  recvHeader h := echoPhases_recvHeader hshort h
  recvBody h := echoPhases_recvBody h
  sendHeader h := echoPhases_sendHeader h
  sendBody h := echoPhases_sendBody h
  close := by
    intro w t c _ _ h
    refine ⟨echoes_of_inv (.inl h), ?_⟩
    rintro r w' ⟨_, _, rfl⟩
    have hstill : Still fd w (w.after (.close fd) r) := ⟨rfl, rfl⟩
    exact hstill.inv h
  check := by
    intro w t h
    refine ⟨echoes_of_inv h, ?_⟩
    rintro r w' ⟨_, _, rfl⟩
    have hstill : Still fd w (w.after (.getsockopt fd) r) := ⟨rfl, rfl⟩
    exact h.imp hstill.inv fun hsent => ⟨hsent.1, hstill.echoed hsent.2⟩
  wait := by
    intro w t h
    refine ⟨echoes_of_inv (.inl h), ?_⟩
    rintro r w' ⟨_, _, rfl⟩
    have hstill : Still fd w (w.after .epollWait r) := ⟨rfl, rfl⟩
    exact hstill.inv h
  clear h := ⟨⟨rfl, rfl, rfl, rfl⟩, rfl, rfl, h.2⟩

end Sound

/-! ## Runs of the server -/

/-- **The echo.**  In every reachable state the bytes written are a prefix of
the bytes consumed, which begin the client's stream; they are equal whenever
the current message has been sent. -/
theorem server_echoes {frames : List (Message .little)}
    (hshort : ∀ f ∈ frames, f.1.length ≤ 1044) {serverFd fd : Int}
    {c : ServerConfig Host}
    (hr : Reach (blind (hostKernel (EchoPolicy frames)))
      (fun _ : Unit => serverRound serverFd fd) id
      ⟨Host.fresh, .done serverCleared true⟩ c) :
    c.world.written fd <+: c.world.consumed fd ∧
      (c.node.state.isSendBody = 1 → c.world.written fd = c.world.consumed fd) ∧
      c.world.consumed fd <+: join frames := by
  have hinit : (echoPhases fd).hdr Host.fresh serverCleared :=
    ⟨⟨rfl, rfl, rfl, rfl⟩, rfl, rfl, [], rfl, rfl⟩
  have hstream : c.world.consumed fd <+: join frames := by
    have hI : ∀ (w : Host) (s : ServerTransc) op r w', w.consumed fd <+: join frames →
        blind (hostKernel (EchoPolicy frames)) w s op r w' →
        w'.consumed fd <+: join frames := by
      rintro w s op r w' hw ⟨_, hpol, rfl⟩
      exact hpol.2.consumed hw
    exact world_reach hI hr List.nil_prefix
  have hshows := server_reach (echoPhases_sound hshort fd) hinit hr
  have hecho : Echoes fd c.world c.node.state := by
    obtain ⟨w, node⟩ := c
    cases node with
    | done s b => exact echoes_of_inv hshows
    | call s op k => exact hshows
    | fault s => exact hshows.elim
  exact ⟨hecho.1, hecho.2, hstream⟩

/-- The message of 25 bytes with this header, least significant byte first. -/
def sampleEcho : Message .little :=
  ⟨[1, 25, 0, 0, 0, 0, 0, 0, 0, 0, 0, 0, 0, 0, 0, 0, 0, 0, 0, 0, 1, 2, 3, 4, 5], by decide⟩

/-- A message whose body arrives in two pieces, in two rounds, is echoed. -/
theorem server_echoes_sample :
    ∃ c : ServerConfig Host, c.world.written 4 <+: c.world.consumed 4 ∧
      c.world.written 4 = c.world.consumed 4 ∧ c.world.written 4 = sampleEcho.1 := by
  have hrun : ∃ c : ServerConfig Host,
      Reach (blind (hostKernel (EchoPolicy [sampleEcho, sampleEcho])))
        (fun _ : Unit => serverRound 3 4) id ⟨Host.fresh, .done serverCleared true⟩ c ∧
      c.node.state.isSendBody = 1 ∧ c.world.written 4 = sampleEcho.1 :=
    exists_reach_of_exec
      (fun w _ => hostDeliver (EchoPolicy [sampleEcho, sampleEcho]) w)
      hostKernel_of_hostDeliver
      [.event (), .answer (.count 0), .answer ⟨2, .other 0, [], [3, 4]⟩,
        .answer (.stored (sampleEcho.1.take 20)), .answer (.fail .eagain),
        .answer (.stored [1, 2]), .event (), .answer (.count 0),
        .answer ⟨1, .other 0, [], [4]⟩, .answer (.stored [3, 4, 5]),
        .answer (.count 20), .answer (.count 5)]
      (fun c : ServerConfig Host =>
        c.node.state.isSendBody = 1 ∧ c.world.written 4 = sampleEcho.1)
      (by decide +kernel)
  obtain ⟨c, hc, hsent, hp⟩ := hrun
  have hmain := server_echoes (by decide) hc
  exact ⟨c, hmain.1, hmain.2.1 hsent, hp⟩

end ZeroCopyProxy.Ports.ServerEcho
