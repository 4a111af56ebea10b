import ZeroCopyProxy.Ports.JmpMessage
import ZeroCopyProxy.Ports.ServerLoop

/-!
# The length field of the client and its readers

The client writes the length of a message as a bit-field of its header; the
proxy and the server read it back from single bytes, the proxy in either
order.  All of them agree on every header whose first byte is not zero and on
every length of 24 bits, whatever the rest of the header holds
(`decoders_undo_encoder`).
-/

namespace ZeroCopyProxy.Ports.JmpDecode

open ZeroCopyProxy.Ports.Posix
open ZeroCopyProxy.Ports.Frame
open ZeroCopyProxy.Ports.JmpMessage
open ZeroCopyProxy.Ports.TranscHeader
open ZeroCopyProxy.Ports.ServerLoop

/-! ## Headers in memory -/

/-- `hdr.length = n`: bytes 1 to 3 of the header. -/
def setLength (hdr : Buf 20) (n : BitVec 24) : Buf 20 where
  bytes := hdr.bytes.take 1 ++ leBytes 3 n.toNat ++ hdr.bytes.drop 4
  size := by simp

/-- The header with its bytes 1 and 3 exchanged. -/
def swapLength (hdr : Buf 20) : Buf 20 where
  bytes := (hdr.bytes.set 1 (byteAt hdr.bytes 3)).set 3 (byteAt hdr.bytes 1)
  size := by simp

/-- The first byte, the length, and the rest. -/
theorem setLength_eq (hdr : Buf 20) (n : BitVec 24) :
    (setLength hdr n).bytes =
      [byteAt hdr.bytes 0] ++ leBytes 3 n.toNat ++ hdr.bytes.drop 4 := by
  obtain ⟨bytes, hsize⟩ := hdr
  cases bytes with
  | nil => cases hsize
  | cons x bytes => rfl

theorem byteAt_setLength (hdr : Buf 20) (n : BitVec 24) :
    byteAt (setLength hdr n).bytes 0 = byteAt hdr.bytes 0 := by
  rw [setLength_eq]
  rfl

theorem len24_setLength (hdr : Buf 20) (n : BitVec 24) :
    len24 .little (setLength hdr n).bytes = n.toNat := by
  rw [setLength_eq]
  exact len24_leBytes _ n.isLt _

theorem byteAt_set_self {bs : Bytes} {i : Nat} (hi : i < bs.length) (x : UInt8) :
    byteAt (bs.set i x) i = x := by
  simp [byteAt, hi]

theorem byteAt_set_ne {bs : Bytes} {i j : Nat} (hij : i ≠ j) (x : UInt8) :
    byteAt (bs.set i x) j = byteAt bs j := by
  simp [byteAt, List.getD_eq_getElem?_getD, hij]

theorem byteAt_swapLength (hdr : Buf 20) :
    byteAt (swapLength hdr).bytes 0 = byteAt hdr.bytes 0 := by
  rw [swapLength, byteAt_set_ne (by decide), byteAt_set_ne (by decide)]

/-- The other byte order reads the same number from the exchanged bytes. -/
theorem len24_swapLength (hdr : Buf 20) :
    len24 .big (swapLength hdr).bytes = len24 .little hdr.bytes := by
  have h1 : byteAt (swapLength hdr).bytes 1 = byteAt hdr.bytes 3 := by
    rw [swapLength, byteAt_set_ne (by decide), byteAt_set_self (by simp)]
  have h2 : byteAt (swapLength hdr).bytes 2 = byteAt hdr.bytes 2 := by
    rw [swapLength, byteAt_set_ne (by decide), byteAt_set_ne (by decide)]
  have h3 : byteAt (swapLength hdr).bytes 3 = byteAt hdr.bytes 1 := by
    rw [swapLength, byteAt_set_self (by simp)]
  rw [len24, len24, h1, h2, h3]

/-! ## The decoders -/

section Decoders

variable {t : Transc}

theorem toNat_len24 (e : ByteOrder) (bs : Bytes) :
    (UInt32.ofNat (len24 e bs)).toUInt64.toNat = len24 e bs := by
  rw [UInt32.toNat_toUInt64]
  exact UInt32.toNat_ofNat_of_lt' (Nat.lt_of_lt_of_le (len24_lt e bs) (by decide))

theorem transcGetMsgLength_big (h : byteAt t.readHdrBuf.bytes 0 ≠ 0) :
    (transcGetMsgLength t 1).toNat = len24 .big t.readHdrBuf.bytes := by
  rw [transcGetMsgLength, if_neg (mt (strlen_hdr_eq_zero_iff _).1 h), if_pos rfl, toNat_len24]

theorem transcGetMsgLength_little (h : byteAt t.readHdrBuf.bytes 0 ≠ 0) :
    (transcGetMsgLength t 0).toNat = len24 .little t.readHdrBuf.bytes := by
  rw [transcGetMsgLength, if_neg (mt (strlen_hdr_eq_zero_iff _).1 h), if_neg (by decide),
    if_pos rfl, toNat_len24]

theorem serverTranscGetMsgLength_little (h : byteAt t.readHdrBuf.bytes 0 ≠ 0) :
    (serverTranscGetMsgLength t).toNat = len24 .little t.readHdrBuf.bytes := by
  rw [serverTranscGetMsgLength, if_neg (mt (strlen_hdr_eq_zero_iff _).1 h), toNat_len24]

end Decoders

/-- The first 20 bytes of a frame are its header. -/
theorem take_jmpFrame (version : UInt8) (p : Bytes) (code : UInt32) :
    (jmpFrame version p code).take 20 = (jmpHeader version p.length code).bytes := by
  rw [jmpFrame, List.take_append_of_le_length (by simp), List.take_of_length_le (by simp)]

theorem drop_jmpFrame (version : UInt8) (p : Bytes) (code : UInt32) :
    (jmpFrame version p code).drop 20 = p := by
  rw [jmpFrame, List.drop_append_of_le_length (by simp), List.drop_of_length_le (by simp),
    List.nil_append]

/-- **Decoding undoes encoding.**  Every text that fits makes a message of its
length and 20 bytes, ends it, and announces this length to both decoders; and
on every header both read the number its length field was set to, as the proxy
does in the other order from the exchanged bytes. -/
theorem decoders_undo_encoder :
    (∀ (msg : Jmp) (version : UInt8) (p rest : Bytes) (code : UInt32),
      version ≠ 0 → IsText p →
      ∃ m, jmpSetMsg msg version (some (p ++ 0 :: rest)) code = some (m, 1) ∧
        (jmpWire m).length = p.length + 20 ∧ (jmpWire m).drop 20 = p ∧
        ∀ t : Transc, t.readHdrBuf.bytes = (jmpWire m).take 20 →
          (transcGetMsgLength t 0).toNat = p.length + 20 ∧
            (serverTranscGetMsgLength t).toNat = p.length + 20) ∧
    ∀ (hdr : Buf 20) (n : BitVec 24), byteAt hdr.bytes 0 ≠ 0 →
      (∀ t : Transc, t.readHdrBuf = setLength hdr n →
        (transcGetMsgLength t 0).toNat = n.toNat ∧
          (serverTranscGetMsgLength t).toNat = n.toNat) ∧
      ∀ t : Transc, t.readHdrBuf = swapLength (setLength hdr n) →
        (transcGetMsgLength t 1).toNat = n.toNat := by
  constructor
  · intro msg version p rest code hversion hp
    obtain ⟨m, hm, -, -, hwire⟩ := jmpSetMsg_text msg version hp rest code
    refine ⟨m, hm, ?_, ?_, ?_⟩
    · rw [hwire, length_jmpFrame, Nat.add_comm]
    · rw [hwire, drop_jmpFrame]
    · intro t ht
      rw [hwire, take_jmpFrame] at ht
      have hfirst : byteAt t.readHdrBuf.bytes 0 ≠ 0 := by
        rw [ht, JmpHdr.byteAt_zero]
        exact hversion
      have hlength : len24 .little t.readHdrBuf.bytes = p.length + 20 := by
        have hsize := hp.size
        rw [ht, JmpHdr.len24_bytes, jmpHeader, BitVec.toNat_ofNat]
        omega
      rw [transcGetMsgLength_little hfirst, serverTranscGetMsgLength_little hfirst, hlength]
      exact ⟨rfl, rfl⟩
  · intro hdr n hfirst
    constructor
    · intro t ht
      have hfirst' : byteAt t.readHdrBuf.bytes 0 ≠ 0 := by
        rw [ht, byteAt_setLength]
        exact hfirst
      rw [transcGetMsgLength_little hfirst', serverTranscGetMsgLength_little hfirst', ht,
        len24_setLength]
      exact ⟨rfl, rfl⟩
    · intro t ht
      have hfirst' : byteAt t.readHdrBuf.bytes 0 ≠ 0 := by
        rw [ht, byteAt_swapLength, byteAt_setLength]
        exact hfirst
      rw [transcGetMsgLength_big hfirst', ht, len24_swapLength, len24_setLength]

/-- The message `hi` of version 1 has 22 bytes, and a header that is all 7
announces 66051 bytes after its length was set to that. -/
theorem decoders_undo_encoder_hi :
    (∃ m, jmpSetMsg ⟨jmpHeader 0 0 0, Buf.zeros 1024⟩ 1 (some [104, 105, 0]) 1 = some (m, 1) ∧
      (jmpWire m).length = 22) ∧
    (serverTranscGetMsgLength
      { cleared with
        readHdrBuf := setLength ⟨List.replicate 20 7, by decide⟩ 66051 }).toNat = 66051 := by
  constructor
  · obtain ⟨m, hm, hlen, -⟩ := decoders_undo_encoder.1 ⟨jmpHeader 0 0 0, Buf.zeros 1024⟩ 1
      [104, 105] [] 1 (by decide) (by decide)
    exact ⟨m, hm, hlen⟩
  · exact ((decoders_undo_encoder.2 ⟨List.replicate 20 7, by decide⟩ 66051 (by decide)).1
      _ rfl).2

end ZeroCopyProxy.Ports.JmpDecode
