import ZeroCopyProxy.Ports.ServerLoop

/-!
# The body phases of the server

One specification for `serverRecvBody` and one for `serverSendBody`, with one
hypothesis for each way the phase can end.  Both say exactly what the arrays
hold: the receiver places what arrived at `recv_bytes - 20`; the sender
rebuilds `write_body_buf` with the part still to be sent at its own place,
short by the 20 bytes the header counts in `send_bytes`.
-/

namespace ZeroCopyProxy.Ports.ServerBody

open ZeroCopyProxy.Verified.Resumption
open ZeroCopyProxy.Ports.Posix
open ZeroCopyProxy.Ports.ServerLoop

/-! ## Receiving -/

/-- An array in which `data` was put at `off`. -/
def placed (old : Bytes) (off : Nat) (data : Bytes) : Bytes :=
  old.take off ++ data ++ old.drop (off + data.length)

theorem placed_take {old : Bytes} {off : Nat} (h : off ≤ old.length) (data : Bytes) :
    (placed old off data).take (off + data.length) = old.take off ++ data := by
  have hlen : (old.take off ++ data).length = off + data.length := by
    rw [List.length_append, List.length_take, Nat.min_eq_left h]
  rw [placed, ← hlen, List.take_left]

theorem memcpy_placed (b : Buf 1024) (off : Nat) (data : Bytes)
    (h : off + data.length ≤ 1024) :
    ∃ c, b.memcpy off data 0 data.length = some c ∧
      c.bytes = placed b.bytes off data := by
  obtain ⟨c, hc, hbytes⟩ :=
    b.memcpy_eq data (d := off) (s := 0) (k := data.length) h (by omega)
  refine ⟨c, by simpa using hc, ?_⟩
  rw [hbytes, placed, List.drop_zero, List.take_length]

section Receive

variable {W : Type} {K : W → ServerTransc → SysCall → Answer → W → Prop}
  {P : W → ServerTransc → SysCall → Prop} {Q : W → ServerTransc → Int → Prop}

/-- Receiving a part of the body: one `read` of what is missing, placed
behind what arrived before. -/
theorem wp_serverRecvBody (hK : ∀ w t op r w', K w t op r w' → r.Fits op) {fd : Int}
    {t : ServerTransc} {w : W} {sh sb : Int} (hf : t.Flags 1 0 sh sb)
    (h20 : 20 ≤ t.recvBytes) (hlen : t.length ≤ 1044)
    (hP : P w t (.read fd .body (t.length - t.recvBytes)))
    (hnone : ∀ r w', K w t (.read fd .body (t.length - t.recvBytes)) r w' → r.ret ≤ 0 →
      Q w' t (if r.ret < 0 then recvErrorCode r.errno else zeroByte))
    (hpart : ∀ r w' b, K w t (.read fd .body (t.length - t.recvBytes)) r w' →
      0 < r.ret → t.recvBytes + r.ret ≠ t.length →
      b.bytes = placed t.readBodyBuf.bytes (t.recvBytes - 20).toNat r.data →
      Q w' { t with readBodyBuf := b, recvBytes := t.recvBytes + r.ret } normal)
    (hfull : ∀ r w' b, K w t (.read fd .body (t.length - t.recvBytes)) r w' →
      0 < r.ret → t.recvBytes + r.ret = t.length →
      b.bytes = placed t.readBodyBuf.bytes (t.recvBytes - 20).toNat r.data →
      Q w' { t with readBodyBuf := b, recvBytes := t.recvBytes + r.ret,
                    isRecvBody := 1 } normal) :
    wp K P Q (serverRecvBody fd t) w := by
  simp only [serverRecvBody, wp_bind, wp_state, wp_ite, wp_pure]
  refine ⟨fun _ => ?_, fun hne => absurd ⟨hf.recvHeader, hf.recvBody⟩ hne⟩
  refine wp_sysRead (fun r w' hk => hK _ _ _ _ _ hk) (by simp only [Area.size]; omega) hP ?_
  intro r w' hk
  obtain ⟨hle, hdata⟩ := hK _ _ _ _ _ hk
  simp only [wp_orFault, wp_update]
  refine ⟨fun hneg => ?_, fun hnneg => ⟨fun hz => ?_, fun hnz => ?_⟩⟩
  · have h := hnone r w' hk (by omega)
    rwa [if_pos hneg] at h
  · have h := hnone r w' hk (by omega)
    rwa [if_neg hnneg] at h
  · have hlength := hdata (by omega)
    obtain ⟨b, hb, hbytes⟩ := memcpy_placed t.readBodyBuf
      (t.recvBytes - 20).toNat r.data (by omega)
    rw [Int.toNat_of_nonneg (by omega), hlength] at hb
    exact ⟨b, hb, fun hfin => hfull r w' b hk (by omega) hfin hbytes,
      fun hfin => hpart r w' b hk (by omega) hfin hbytes⟩

end Receive

/-! ## Sending -/

/-- What `write_body_buf` holds when `off` bytes of a body of `len` bytes are
gone: nothing of the last 20 bytes, unless nothing was sent before. -/
def bodyToSend (off len : Nat) (body old : Bytes) : Bytes :=
  if off = 0 then body.take len ++ old.drop len
  else List.replicate off 0 ++ (body.drop off).take (len - 20 - off) ++
    List.replicate 20 0 ++ old.drop len

section Send

variable {W : Type} {K : W → ServerTransc → SysCall → Answer → W → Prop}
  {P : W → ServerTransc → SysCall → Prop}

/-- The first copy takes the whole body. -/
theorem memcpy_whole (write read : Buf 1024) (len : Nat) (hlen : len ≤ 1024) :
    ∃ m b, write.memset len = some m ∧ m.memcpy 0 read.bytes 0 len = some b ∧
      b.bytes = bodyToSend 0 len read.bytes write.bytes := by
  obtain ⟨m, hm, hmbytes⟩ := write.memset_eq hlen
  obtain ⟨b, hb, hbbytes⟩ := m.memcpy_eq read.bytes (d := 0) (s := 0) (k := len)
    (by omega) (by rw [read.size]; omega)
  refine ⟨m, b, hm, by simpa using hb, ?_⟩
  rw [hbbytes, hmbytes, bodyToSend, if_pos rfl]
  simp

/-- A later copy leaves out 20 bytes too many. -/
theorem memcpy_resumed_body (write read : Buf 1024) (off len : Nat) (hoff : 0 < off)
    (hlen : len ≤ 1024) (hroom : off + 20 ≤ len) :
    ∃ m b, write.memset len = some m ∧
      m.memcpy off read.bytes off (len - 20 - off : Nat) = some b ∧
      b.bytes = bodyToSend off len read.bytes write.bytes := by
  obtain ⟨m, hm, hmbytes⟩ := write.memset_eq hlen
  obtain ⟨b, hb, hbbytes⟩ := m.memcpy_eq read.bytes (d := off) (s := off)
    (k := len - 20 - off) (by omega) (by rw [read.size]; omega)
  refine ⟨m, b, hm, hb, ?_⟩
  have htake : (List.replicate len (0 : UInt8) ++ write.bytes.drop len).take off =
      List.replicate off 0 := by
    rw [List.take_append_of_le_length (by rw [List.length_replicate]; omega),
      List.take_replicate, Nat.min_eq_left (by omega)]
  have hdrop : (List.replicate len (0 : UInt8) ++ write.bytes.drop len).drop
      (off + (len - 20 - off)) = List.replicate 20 0 ++ write.bytes.drop len := by
    rw [List.drop_append_of_le_length (by rw [List.length_replicate]; omega),
      List.drop_replicate, show len - (off + (len - 20 - off)) = 20 by omega]
  rw [hbbytes, hmbytes, htake, hdrop, bodyToSend, if_neg (by omega)]
  simp only [List.append_assoc]

/-- The array is built inside its bounds if nothing of the body was sent or at
least 20 bytes of it are left. -/
theorem wp_prepareBody {t : ServerTransc} {w : W}
    {Q : W → ServerTransc → Option Int → Prop}
    (h20 : 20 ≤ t.sendBytes) (hlt : t.sendBytes < t.length) (hlen : t.length ≤ 1044)
    (hroom : t.sendBytes = 20 ∨ t.sendBytes ≤ t.length - 20)
    (hQ : ∀ b, b.bytes = bodyToSend (t.sendBytes - 20).toNat (t.length - 20).toNat
        t.readBodyBuf.bytes t.writeBodyBuf.bytes →
      Q w { t with writeBodyBuf := b } none) :
    wp K P Q (prepareBody t) w := by
  obtain ⟨len, hleneq⟩ : ∃ len : Nat, t.length - 20 = len :=
    ⟨(t.length - 20).toNat, by omega⟩
  obtain ⟨off, hoffeq⟩ : ∃ off : Nat, t.sendBytes - 20 = off :=
    ⟨(t.sendBytes - 20).toNat, by omega⟩
  have hsend : t.sendBytes = 20 + (off : Int) := by omega
  rw [hleneq, hoffeq] at hQ
  simp only [Int.toNat_natCast] at hQ
  simp only [prepareBody, wp_bind, wp_state, wp_ite, wp_update, wp_orFault, wp_pure]
  refine ⟨fun _ => ?_, fun hge => absurd hlt hge⟩
  by_cases hoff : off = 0
  · obtain ⟨m, b, hm, hb, hbytes⟩ :=
      memcpy_whole t.writeBodyBuf t.readBodyBuf len (by omega)
    refine ⟨m, by rw [hleneq]; exact hm, fun _ => ⟨b, by rw [hleneq]; exact hb, ?_⟩,
      fun hne => ?_⟩
    · refine hQ b ?_
      rw [hoff]
      exact hbytes
    · omega
  · obtain ⟨m, b, hm, hb, hbytes⟩ := memcpy_resumed_body t.writeBodyBuf t.readBodyBuf
      off len (by omega) (by omega) (by omega)
    refine ⟨m, by rw [hleneq]; exact hm, fun heq => ?_, fun _ => ⟨fun _ => ⟨b, ?_, ?_⟩,
      fun hle => ?_⟩⟩
    · omega
    · rw [hleneq, hoffeq, show (len : Int) - t.sendBytes = (len - 20 - off : Nat) by omega]
      exact hb
    · exact hQ b hbytes
    · omega

variable {Q : W → ServerTransc → Int → Prop}

/-- Sending a part of the body: one `write` of `recv_bytes` bytes from the
first byte of the array. -/
theorem wp_serverSendBody {fd : Int} {t : ServerTransc} {w : W} {rh rb : Int}
    (hret : ∀ b r w', K w { t with writeBodyBuf := b }
      (.write fd .body b.bytes t.recvBytes) r w' → r.ret ≤ 1024)
    (hf : t.Flags rh rb 1 0) (h20 : 20 ≤ t.sendBytes) (hlen : t.length ≤ 1044)
    (hroom : t.sendBytes < t.length → t.sendBytes = 20 ∨ t.sendBytes ≤ t.length - 20)
    (hover : t.length ≤ t.sendBytes → Q w t unknown)
    (hP : ∀ b, t.sendBytes < t.length →
      b.bytes = bodyToSend (t.sendBytes - 20).toNat (t.length - 20).toNat
        t.readBodyBuf.bytes t.writeBodyBuf.bytes →
      P w { t with writeBodyBuf := b } (.write fd .body b.bytes t.recvBytes))
    (hfail : ∀ b r w', K w { t with writeBodyBuf := b }
      (.write fd .body b.bytes t.recvBytes) r w' → r.ret ≤ 0 →
      Q w' { t with writeBodyBuf := b } (sendErrorCode r.errno))
    (hpart : ∀ b r w', t.sendBytes < t.length →
      b.bytes = bodyToSend (t.sendBytes - 20).toNat (t.length - 20).toNat
        t.readBodyBuf.bytes t.writeBodyBuf.bytes →
      K w { t with writeBodyBuf := b }
      (.write fd .body b.bytes t.recvBytes) r w' → 0 < r.ret →
      t.recvBytes - r.ret ≠ 0 →
      Q w' { t with writeBodyBuf := b, recvBytes := t.recvBytes - r.ret,
                    sendBytes := t.sendBytes + r.ret } normal)
    (hfull : ∀ b r w', t.sendBytes < t.length →
      b.bytes = bodyToSend (t.sendBytes - 20).toNat (t.length - 20).toNat
        t.readBodyBuf.bytes t.writeBodyBuf.bytes →
      K w { t with writeBodyBuf := b }
      (.write fd .body b.bytes t.recvBytes) r w' → 0 < r.ret →
      t.recvBytes - r.ret = 0 →
      Q w' { t with writeBodyBuf := b, recvBytes := 0,
                    sendBytes := t.sendBytes + r.ret, isSendBody := 1 } normal) :
    wp K P Q (serverSendBody fd t) w := by
  simp only [serverSendBody, wp_bind, wp_state, wp_ite, wp_pure]
  refine ⟨fun _ => ?_, fun hne => absurd ⟨hf.sendHeader, hf.sendBody⟩ hne⟩
  by_cases hlt : t.sendBytes < t.length
  · refine wp_prepareBody h20 hlt hlen (hroom hlt) fun b hb => ?_
    simp only [writeBody, wp_bind, wp_state]
    refine wp_sysWrite (fun r w' hk => hret b r w' hk) (hP b hlt hb) ?_
    intro r w' hk
    simp only [wp_ite, wp_pure, wp_bind, wp_update, wp_state]
    refine ⟨fun hneg => hfail b r w' hk hneg, fun hpos => ⟨fun hfin => ?_, fun hfin => ?_⟩⟩
    · have h := hfull b r w' hlt hb hk (by omega) hfin
      rw [← hfin] at h
      exact h
    · exact hpart b r w' hlt hb hk (by omega) hfin
  · simp only [prepareBody, wp_bind, wp_state, wp_ite, wp_pure]
    exact ⟨fun h => absurd h hlt, fun _ => hover (by omega)⟩

end Send

end ZeroCopyProxy.Ports.ServerBody
