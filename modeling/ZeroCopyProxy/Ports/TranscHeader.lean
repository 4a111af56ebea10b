import ZeroCopyProxy.Ports.Frame

/-!
# The message under way: `transc_t` and its header phases

`transc_t` is the record in which the proxy and the server keep the message
they are relaying: four phase flags, the announced length, two counters and
the two 20-byte header arrays.  The server's record has two body arrays on
top of these members.  The code that receives a header and the code that
sends one are the same lines in `proxy.c` and `server.c`, up to the function
that decodes the length, so they are written once here (`recvHeader`,
`sendHeader`) and both programs run them.

Each of the two has one specification, `wp_recvHeader` and `wp_sendHeader`,
with one hypothesis for each way the phase can end.
-/

namespace ZeroCopyProxy.Ports.TranscHeader

open ZeroCopyProxy.Verified.Resumption
open ZeroCopyProxy.Ports.Posix
open ZeroCopyProxy.Ports.Frame

/-- `struct transc_s`.  The flags are C integers: nothing but
`transc_clear_data` makes them 0 or 1. -/
structure Transc where
  isRecvHeader : Int
  isRecvBody : Int
  isSendHeader : Int
  isSendBody : Int
  length : Int
  recvBytes : Int
  sendBytes : Int
  readHdrBuf : Buf 20
  writeHdrBuf : Buf 20
  deriving DecidableEq

/-- `transc_clear_data`. -/
def transcClearData (t : Transc) : Transc :=
  { t with
    isRecvHeader := 0
    isRecvBody := 0
    isSendHeader := 0
    isSendBody := 0
    length := 0
    recvBytes := 0
    sendBytes := 0
    readHdrBuf := Buf.zeros 20
    writeHdrBuf := Buf.zeros 20 }

/-- The record `transc_clear_data` leaves, whatever was in it before. -/
def cleared : Transc where
  isRecvHeader := 0
  isRecvBody := 0
  isSendHeader := 0
  isSendBody := 0
  length := 0
  recvBytes := 0
  sendBytes := 0
  readHdrBuf := Buf.zeros 20
  writeHdrBuf := Buf.zeros 20

@[simp] theorem transcClearData_eq (t : Transc) : transcClearData t = cleared := rfl

/-- The four phase flags, in the order in which a message sets them. -/
structure Transc.Flags (t : Transc) (rh rb sh sb : Int) : Prop where
  recvHeader : t.isRecvHeader = rh
  recvBody : t.isRecvBody = rb
  sendHeader : t.isSendHeader = sh
  sendBody : t.isSendBody = sb

/-- A predicate on the world `W` and a record of type `T` for each phase of a
message: waiting for a header, receiving the body, sending the header, sending
the body, sent. -/
structure MessagePhases (W T : Type) where
  hdr : W → T → Prop
  body : W → T → Prop
  sendHdr : W → T → Prop
  sendBody : W → T → Prop
  sent : W → T → Prop

/-- A message that is under way is in one of the first four phases. -/
inductive MessagePhases.Inv {W T : Type} (Φ : MessagePhases W T) (w : W) (t : T) :
    Prop where
  | hdr (h : Φ.hdr w t)
  | body (h : Φ.body w t)
  | sendHdr (h : Φ.sendHdr w t)
  | sendBody (h : Φ.sendBody w t)

/-! ## The length of the message -/

/-- Conversion of a `uint64_t` to a 32-bit `int`. -/
def toInt (n : UInt64) : Int := Int.bmod n.toNat 4294967296

/-- `transc_get_msg_length`: both byte orders, `-1` for an empty header or an
unknown order. -/
def transcGetMsgLength (t : Transc) (endian : Int) : UInt64 :=
  if strlen t.readHdrBuf.bytes = 0 then -1
  else if endian = 1 then (UInt32.ofNat (len24 .big t.readHdrBuf.bytes)).toUInt64
  else if endian = 0 then (UInt32.ofNat (len24 .little t.readHdrBuf.bytes)).toUInt64
  else -1

/-- `m` decodes the length field in this byte order, and is `-1` as an `int`
when the first byte of the header is zero. -/
def Decodes (e : ByteOrder) (m : Transc → UInt64) : Prop :=
  ∀ t, toInt (m t) =
    if byteAt t.readHdrBuf.bytes 0 = 0 then (-1 : Int)
    else (len24 e t.readHdrBuf.bytes : Int)

theorem toInt_neg_one : toInt (-1) = -1 := by
  have hmax : (-1 : UInt64).toNat = 18446744073709551615 := by decide
  show Int.bmod ((-1 : UInt64).toNat) 4294967296 = -1
  rw [hmax]
  decide

theorem toInt_len24 (e : ByteOrder) (bs : Bytes) :
    toInt (UInt32.ofNat (len24 e bs)).toUInt64 = len24 e bs := by
  have hlt := len24_lt e bs
  have hnat : (UInt32.ofNat (len24 e bs)).toNat = len24 e bs := by
    apply UInt32.toNat_ofNat_of_lt'
    exact Nat.lt_of_lt_of_le hlt (by decide)
  unfold toInt
  simp only [UInt32.toNat_toUInt64, hnat]
  apply Int.bmod_eq_of_le <;> omega

theorem strlen_hdr_eq_zero_iff (b : Buf 20) :
    strlen b.bytes = 0 ↔ byteAt b.bytes 0 = 0 := by
  obtain ⟨bs, hbs⟩ := b
  cases bs with
  | nil => simp at hbs
  | cons x xs => exact strlen_eq_zero_iff x xs

theorem decodes_big : Decodes .big (fun t => transcGetMsgLength t 1) := by
  intro t
  by_cases h0 : byteAt t.readHdrBuf.bytes 0 = 0
  · simp only [transcGetMsgLength, strlen_hdr_eq_zero_iff, h0, if_true,
      toInt_neg_one]
  · simp only [transcGetMsgLength, strlen_hdr_eq_zero_iff, h0, if_false,
      if_true, toInt_len24]

/-- The body length the receivers compute is positive exactly for an accepted
header. -/
theorem Decodes.accepted_iff {e : ByteOrder} {m : Transc → UInt64}
    (hm : Decodes e m) (t : Transc) :
    0 < toInt (m t) - 20 ↔ Accepted e t.readHdrBuf.bytes := by
  rw [hm t, Accepted]
  by_cases h0 : byteAt t.readHdrBuf.bytes 0 = 0
  · simp [h0]
  · simp only [h0, if_false, ne_eq, not_false_eq_true, true_and]
    omega

/-! ## Receiving a header -/

/-- The header phase of `proxy_recv_data` and `server_recv_data`.  `none`
means that the function goes on to the body. -/
def recvHeader (msgLength : Transc → UInt64) (fd : Int) :
    Prog Transc SysCall Answer (Option Int) := do
  Prog.update fun t => { t with readHdrBuf := Buf.zeros 20 }
  let t ← Prog.state
  let r ← sysRead fd .hdr (20 - t.recvBytes)
  if r.ret < 0 then
    pure (some (recvErrorCode r.errno))
  else if r.ret = 0 then
    pure (some zeroByte)
  else do
    let b ← Prog.orFault (t.readHdrBuf.memcpy t.recvBytes r.data 0 r.ret)
    Prog.update fun t => { t with readHdrBuf := b, recvBytes := t.recvBytes + r.ret }
    let t ← Prog.state
    if t.recvBytes = 20 then do
      Prog.update fun t => { t with length := toInt (msgLength t) }
      let t ← Prog.state
      if t.length - 20 ≤ 0 then
        pure (some bufErr)
      else if 0 < t.length then do
        Prog.update fun t => { t with isRecvHeader := 1 }
        pure none
      else
        pure (some bufErr)
    else
      -- a header that is not complete after this read ends the connection
      pure (some bufErr)

/-- The header array after `data` arrived behind `off` bytes received before:
the array is cleared on entry, so the earlier bytes are gone. -/
def received (off : Nat) (data : Bytes) : Bytes :=
  List.replicate off 0 ++ data ++ List.replicate (20 - (off + data.length)) 0

theorem received_zero {data : Bytes} (h : data.length = 20) :
    received 0 data = data := by
  simp [received, h]

/-- Behind the first byte of the header the first byte is lost. -/
theorem byteAt_received {off : Nat} (hoff : 0 < off) (data : Bytes) :
    byteAt (received off data) 0 = 0 := by
  obtain ⟨n, rfl⟩ : ∃ n, off = n + 1 := ⟨off - 1, by omega⟩
  rfl

/-- A header whose bytes arrived in more than one read is never accepted. -/
theorem not_accepted_received {e : ByteOrder} {off : Nat} (hoff : 0 < off)
    (data : Bytes) : ¬ Accepted e (received off data) := by
  intro h
  exact h.1 (byteAt_received hoff data)

theorem memcpy_received (off : Nat) (data : Bytes) (h : off + data.length ≤ 20) :
    ∃ b, (Buf.zeros 20).memcpy off data 0 data.length = some b ∧
      b.bytes = received off data := by
  obtain ⟨b, hb, hbytes⟩ :=
    (Buf.zeros 20).memcpy_eq data (d := off) (s := 0) (k := data.length) h (by omega)
  refine ⟨b, by simpa using hb, ?_⟩
  rw [hbytes, received]
  simp only [Buf.zeros, List.take_replicate, List.drop_zero, List.take_length,
    List.drop_replicate]
  rw [show min off 20 = off by omega]

section RecvHeader

variable {W : Type} {K : W → Transc → SysCall → Answer → W → Prop}
  {P : W → Transc → SysCall → Prop} {Q : W → Transc → Option Int → Prop}

/-- **The header phase of the receivers.**  It issues one `read`.  A read
that moves nothing leaves the counters; a read that does not complete an
accepted header ends with `BUF_ERR`, the record keeping the bytes it counted;
a read that completes one starts the body. -/
theorem wp_recvHeader {e : ByteOrder} {m : Transc → UInt64} (hm : Decodes e m)
    (hK : ∀ w t op r w', K w t op r w' → r.Fits op) {fd : Int} {t : Transc} {w : W}
    (h0 : 0 ≤ t.recvBytes) (h20 : t.recvBytes ≤ 20)
    (hP : P w { t with readHdrBuf := Buf.zeros 20 }
      (.read fd .hdr (20 - t.recvBytes)))
    (hnone : ∀ r w', K w { t with readHdrBuf := Buf.zeros 20 }
      (.read fd .hdr (20 - t.recvBytes)) r w' → r.ret ≤ 0 →
      Q w' { t with readHdrBuf := Buf.zeros 20 }
        (some (if r.ret < 0 then recvErrorCode r.errno else zeroByte)))
    (hbad : ∀ r w' b len, K w { t with readHdrBuf := Buf.zeros 20 }
      (.read fd .hdr (20 - t.recvBytes)) r w' →
      0 < r.ret → t.recvBytes + r.ret ≤ 20 →
      b.bytes = received t.recvBytes.toNat r.data →
      (t.recvBytes + r.ret ≠ 20 ∨ ¬ Accepted e b.bytes) →
      Q w' { t with readHdrBuf := b, length := len,
                    recvBytes := t.recvBytes + r.ret } (some bufErr))
    (hgood : ∀ r w' b, K w { t with readHdrBuf := Buf.zeros 20 }
      (.read fd .hdr (20 - t.recvBytes)) r w' →
      0 < r.ret → t.recvBytes + r.ret = 20 →
      b.bytes = received t.recvBytes.toNat r.data → Accepted e b.bytes →
      Q w' { t with readHdrBuf := b, length := len24 e b.bytes,
                    recvBytes := 20, isRecvHeader := 1 } none) :
    wp K P Q (recvHeader m fd t) w := by
  simp only [recvHeader, wp_bind, wp_update, wp_state]
  refine wp_sysRead (fun r w' hk => hK _ _ _ _ _ hk) (by simp [Area.size]; omega) hP ?_
  intro r w' hk
  obtain ⟨hle, hdata⟩ := hK _ _ _ _ _ hk
  simp only [wp_ite, wp_pure, wp_bind, wp_orFault, wp_update, wp_state]
  refine ⟨fun hneg => ?_, fun hnneg => ⟨fun hz => ?_, fun hnz => ?_⟩⟩
  · have h := hnone r w' hk (by omega)
    rwa [if_pos hneg] at h
  · have h := hnone r w' hk (by omega)
    rwa [if_neg hnneg] at h
  · have hlen := hdata (by omega)
    obtain ⟨b, hb, hbytes⟩ :=
      memcpy_received t.recvBytes.toNat r.data (by omega)
    rw [Int.toNat_of_nonneg h0, hlen] at hb
    refine ⟨b, hb, fun hfull => ⟨fun hrej => ?_, fun hacc => ⟨fun _ => ?_, ?_⟩⟩,
      fun hshort => ?_⟩
    · refine hbad r w' b _ hk (by omega) (by omega) hbytes (.inr fun hacc => ?_)
      have hpos := (hm.accepted_iff
        { t with readHdrBuf := b, recvBytes := t.recvBytes + r.ret }).2 hacc
      omega
    · have hacc' : Accepted e b.bytes := (hm.accepted_iff
        { t with readHdrBuf := b, recvBytes := t.recvBytes + r.ret }).1 (by omega)
      have hlength := hm { t with readHdrBuf := b, recvBytes := t.recvBytes + r.ret }
      rw [if_neg hacc'.1] at hlength
      have h := hgood r w' b hk (by omega) hfull hbytes hacc'
      rw [← hlength, ← hfull] at h
      exact h
    · intro hneg
      omega
    · exact hbad r w' b t.length hk (by omega) (by omega) hbytes (.inl hshort)

end RecvHeader

/-! ## Sending a header -/

/-- Building `write_hdr_buf`: the part of the header that is still to be sent
is put at its own place in the array, the part before it is zero. -/
def prepareHeader : Prog Transc SysCall Answer (Option Int) := do
  let t ← Prog.state
  if t.sendBytes < 20 then do
    Prog.update fun t => { t with writeHdrBuf := Buf.zeros 20 }
    let t ← Prog.state
    if t.sendBytes = 0 then do
      let b ← Prog.orFault (t.writeHdrBuf.memcpy 0 t.readHdrBuf.bytes 0 20)
      Prog.update fun t => { t with writeHdrBuf := b }
      pure none
    else if 0 < t.sendBytes then do
      let b ← Prog.orFault (t.writeHdrBuf.memcpy t.sendBytes t.readHdrBuf.bytes
        t.sendBytes (20 - t.sendBytes))
      Prog.update fun t => { t with writeHdrBuf := b }
      pure none
    else
      pure (some unknown)
  else
    pure (some unknown)

/-- Writing `write_hdr_buf` from its first byte on. -/
def writeHeader (fd : Int) : Prog Transc SysCall Answer (Option Int) := do
  let t ← Prog.state
  let r ← sysWrite fd .hdr t.writeHdrBuf.bytes (20 - t.sendBytes)
  if r.ret ≤ 0 then
    pure (some (sendErrorCode r.errno))
  else do
    Prog.update fun t => { t with sendBytes := t.sendBytes + r.ret }
    let t ← Prog.state
    if t.sendBytes = 20 then do
      Prog.update fun t => { t with isSendHeader := 1, recvBytes := t.recvBytes - r.ret }
      pure none
    else
      pure none

/-- The header phase of `proxy_send_data` and `server_send_data`.  `none`
means that the function goes on to the body. -/
def sendHeader (fd : Int) : Prog Transc SysCall Answer (Option Int) := do
  match ← prepareHeader with
  | some rv => pure (some rv)
  | none => writeHeader fd

/-- The array a header is written from when `off` of its bytes are gone. -/
def resumed (off : Nat) (hdr : Bytes) : Bytes :=
  List.replicate off 0 ++ hdr.drop off

theorem resumed_zero (hdr : Bytes) : resumed 0 hdr = hdr := rfl

theorem memcpy_resumed (off : Nat) (hdr : Buf 20) (h : off ≤ 20) :
    ∃ b, (Buf.zeros 20).memcpy off hdr.bytes off (20 - off : Nat) = some b ∧
      b.bytes = resumed off hdr.bytes := by
  obtain ⟨b, hb, hbytes⟩ := (Buf.zeros 20).memcpy_eq hdr.bytes
    (d := off) (s := off) (k := 20 - off) (by omega) (by rw [hdr.size]; omega)
  refine ⟨b, hb, ?_⟩
  have htake : (hdr.bytes.drop off).take (20 - off) = hdr.bytes.drop off := by
    have hlen : (hdr.bytes.drop off).length = 20 - off := by
      rw [List.length_drop, hdr.size]
    exact List.take_of_length_le (Nat.le_of_eq hlen)
  rw [hbytes, resumed, htake]
  simp only [Buf.zeros, List.take_replicate, List.drop_replicate]
  rw [show min off 20 = off by omega, show 20 - (off + (20 - off)) = 0 by omega]
  simp

section SendHeader

variable {W : Type} {K : W → Transc → SysCall → Answer → W → Prop}
  {P : W → Transc → SysCall → Prop} {Q : W → Transc → Option Int → Prop}

/-- The array is built inside its bounds, whatever was sent before. -/
theorem wp_prepareHeader {t : Transc} {w : W} (h0 : 0 ≤ t.sendBytes)
    (h19 : t.sendBytes < 20)
    (hQ : ∀ b, b.bytes = resumed t.sendBytes.toNat t.readHdrBuf.bytes →
      Q w { t with writeHdrBuf := b } none) :
    wp K P Q (prepareHeader t) w := by
  obtain ⟨b, hb, hbytes⟩ :=
    memcpy_resumed t.sendBytes.toNat t.readHdrBuf (by omega)
  rw [show ((20 - t.sendBytes.toNat : Nat) : Int) = 20 - t.sendBytes by omega,
    Int.toNat_of_nonneg h0] at hb
  simp only [prepareHeader, wp_bind, wp_state, wp_ite, wp_update, wp_orFault,
    wp_pure]
  refine ⟨fun _ => ⟨fun hz => ⟨b, ?_, hQ b hbytes⟩,
    fun _ => ⟨fun _ => ⟨b, hb, hQ b hbytes⟩, fun hneg => ?_⟩⟩, fun hge => ?_⟩
  · rw [hz] at hb
    exact hb
  · omega
  · exact absurd h19 hge

/-- **The header phase of the senders.**  It issues one `write`, from the
first byte of the array.  A write that moves nothing leaves the counters; a
write that completes the header takes the bytes it moved, and only these, off
`recv_bytes`. -/
theorem wp_sendHeader (hK : ∀ w t op r w', K w t op r w' → r.Fits op) {fd : Int}
    {t : Transc} {w : W} (h0 : 0 ≤ t.sendBytes) (h19 : t.sendBytes < 20)
    (hP : ∀ b, b.bytes = resumed t.sendBytes.toNat t.readHdrBuf.bytes →
      P w { t with writeHdrBuf := b } (.write fd .hdr b.bytes (20 - t.sendBytes)))
    (hnone : ∀ b r w', b.bytes = resumed t.sendBytes.toNat t.readHdrBuf.bytes →
      K w { t with writeHdrBuf := b }
      (.write fd .hdr b.bytes (20 - t.sendBytes)) r w' → r.ret ≤ 0 →
      Q w' { t with writeHdrBuf := b } (some (sendErrorCode r.errno)))
    (hpart : ∀ b r w', b.bytes = resumed t.sendBytes.toNat t.readHdrBuf.bytes →
      K w { t with writeHdrBuf := b }
      (.write fd .hdr b.bytes (20 - t.sendBytes)) r w' → 0 < r.ret →
      t.sendBytes + r.ret < 20 →
      Q w' { t with writeHdrBuf := b, sendBytes := t.sendBytes + r.ret } none)
    (hfull : ∀ b r w', b.bytes = resumed t.sendBytes.toNat t.readHdrBuf.bytes →
      K w { t with writeHdrBuf := b }
      (.write fd .hdr b.bytes (20 - t.sendBytes)) r w' → 0 < r.ret →
      t.sendBytes + r.ret = 20 →
      Q w' { t with writeHdrBuf := b, sendBytes := 20, isSendHeader := 1,
                    recvBytes := t.recvBytes - r.ret } none) :
    wp K P Q (sendHeader fd t) w := by
  rw [sendHeader, wp_bind]
  refine wp_prepareHeader h0 h19 fun b hb => ?_
  simp only [writeHeader, wp_bind, wp_state]
  have hcount : 20 - t.sendBytes ≤ (Area.hdr.size : Int) := by
    simp only [Area.size]
    omega
  refine wp_sysWrite (fun r w' hk => Int.le_trans (hK _ _ _ _ _ hk) hcount) (hP b hb) ?_
  intro r w' hk
  have hle : r.ret ≤ 20 - t.sendBytes := hK _ _ _ _ _ hk
  simp only [wp_ite, wp_pure, wp_bind, wp_update, wp_state]
  refine ⟨fun hneg => hnone b r w' hb hk hneg, fun hpos => ⟨fun h20 => ?_, fun hne => ?_⟩⟩
  · have h := hfull b r w' hb hk (by omega) h20
    rw [← h20] at h
    exact h
  · exact hpart b r w' hb hk (by omega) (by omega)

/-- A header of which nothing is sent and which is taken whole or not at all. -/
theorem wp_sendHeader_whole (hK : ∀ w t op r w', K w t op r w' → r.Fits op) {fd : Int}
    {t : Transc} {w : W} (h0 : t.sendBytes = 0)
    (hwhole : ∀ b r w', K w { t with writeHdrBuf := b }
      (.write fd .hdr b.bytes (20 - t.sendBytes)) r w' → 0 < r.ret → r.ret = 20)
    (hP : ∀ b, b.bytes = t.readHdrBuf.bytes →
      P w { t with writeHdrBuf := b } (.write fd .hdr b.bytes (20 - t.sendBytes)))
    (hnone : ∀ b r w', K w { t with writeHdrBuf := b }
      (.write fd .hdr b.bytes (20 - t.sendBytes)) r w' → r.ret ≤ 0 →
      Q w' { t with writeHdrBuf := b } (some (sendErrorCode r.errno)))
    (hfull : ∀ b r w', b.bytes = t.readHdrBuf.bytes → K w { t with writeHdrBuf := b }
      (.write fd .hdr b.bytes (20 - t.sendBytes)) r w' → r.ret = 20 →
      Q w' { t with writeHdrBuf := b, sendBytes := 20, isSendHeader := 1,
                    recvBytes := t.recvBytes - r.ret } none) :
    wp K P Q (sendHeader fd t) w := by
  have hbytes : ∀ b : Buf 20, b.bytes = resumed t.sendBytes.toNat t.readHdrBuf.bytes →
      b.bytes = t.readHdrBuf.bytes := by
    intro b hb
    rw [hb, h0, Int.toNat_zero, resumed_zero]
  apply wp_sendHeader hK (by omega) (by omega)
  · intro b hb
    exact hP b (hbytes b hb)
  · intro b r w' _ hk hle
    exact hnone b r w' hk hle
  · intro b r w' _ hk hpos hlt
    have h20 := hwhole b r w' hk hpos
    omega
  · intro b r w' hb hk hpos _
    exact hfull b r w' (hbytes b hb) hk (hwhole b r w' hk hpos)

end SendHeader

end ZeroCopyProxy.Ports.TranscHeader
