import ZeroCopyProxy.Ports.Frame

/-!
# The client's messages: `jmp.h` and `jmp.c`

A message is a header of bit-fields and an array of `DATA_MAX_LEN` = 1024
bytes, and goes over the wire as it lies in memory.  With GCC on x86-64 the
header occupies 20 bytes without gaps: `version` in byte 0, `length` in bytes
1 to 3, `flag` in byte 4, `code` in bytes 5 to 7, then three words, each with
its least significant byte first; the data follows at once.

`jmp_set_msg` puts the length of the whole message into a field of 24 bits.
Read with the least significant byte first, the field of the header on the
wire is that length (`len24_jmpFrame`).
-/

namespace ZeroCopyProxy.Ports.JmpMessage

open ZeroCopyProxy.Ports.Posix
open ZeroCopyProxy.Ports.Frame

/-! ## The structures and their layout -/

/-- The `k` low bytes of a number, the least significant first. -/
def leBytes : Nat → Nat → Bytes
  | 0, _ => []
  | k + 1, n => UInt8.ofNat n :: leBytes k (n / 256)

@[simp] theorem length_leBytes (k n : Nat) : (leBytes k n).length = k := by
  induction k generalizing n with
  | zero => rfl
  | succ k ih => rw [leBytes, List.length_cons, ih]

/-- `struct jmp_hdr_s`. -/
structure JmpHdr where
  version : UInt8
  length : BitVec 24
  flag : UInt8
  code : BitVec 24
  appId : UInt32
  hopId : UInt32
  endId : UInt32
  deriving DecidableEq

/-- The header in memory. -/
def JmpHdr.bytes (h : JmpHdr) : Bytes :=
  [h.version] ++ leBytes 3 h.length.toNat ++ [h.flag] ++ leBytes 3 h.code.toNat ++
    leBytes 4 h.appId.toNat ++ leBytes 4 h.hopId.toNat ++ leBytes 4 h.endId.toNat

/-- `struct jmp_s`. -/
structure Jmp where
  hdr : JmpHdr
  data : Buf 1024
  deriving DecidableEq

/-- The message in memory. -/
def Jmp.bytes (msg : Jmp) : Bytes := msg.hdr.bytes ++ msg.data.bytes

/-- `sizeof( jmp_hdr_t)` is 20. -/
@[simp] theorem JmpHdr.length_bytes (h : JmpHdr) : h.bytes.length = 20 := by
  simp [JmpHdr.bytes]

@[simp] theorem Jmp.length_bytes (msg : Jmp) : msg.bytes.length = 1044 := by
  simp [Jmp.bytes]

/-- The least significant byte first, read as the decoders do. -/
theorem len24_leBytes (x : UInt8) {n : Nat} (hn : n < 2 ^ 24) (rest : Bytes) :
    len24 .little ([x] ++ leBytes 3 n ++ rest) = n := by
  have hbytes : [x] ++ leBytes 3 n ++ rest = [x, UInt8.ofNat n, UInt8.ofNat (n / 256),
      UInt8.ofNat (n / 256 / 256)] ++ rest := rfl
  rw [hbytes, len24_append .little (by simp)]
  simp only [len24, byteAt, List.getD_cons_succ, List.getD_cons_zero, UInt8.toNat_ofNat',
    Nat.shiftLeft_eq]
  omega

/-- The length field on the wire is the length field in memory. -/
theorem JmpHdr.len24_bytes (h : JmpHdr) : len24 .little h.bytes = h.length.toNat := by
  simp only [JmpHdr.bytes, List.append_assoc]
  rw [← List.append_assoc]
  exact len24_leBytes h.version h.length.isLt _

theorem JmpHdr.byteAt_zero (h : JmpHdr) : byteAt h.bytes 0 = h.version := rfl

/-! ## `jmp_set_msg` -/

/-- `jmp_get_msg_length`. -/
def jmpGetMsgLength (msg : Jmp) : Int := msg.hdr.length.toNat

/-- The header `jmp_set_msg` writes for `len` bytes of data. -/
def jmpHeader (version : UInt8) (len : Nat) (code : UInt32) : JmpHdr where
  version := version
  length := BitVec.ofNat 24 (len + 20)
  flag := 0
  code := BitVec.ofNat 24 code.toNat
  appId := 0
  hopId := 0
  endId := 0

/-- `jmp_set_msg`; a null `data` is `none`.  The copy has to stay inside the
data array. -/
def jmpSetMsg (msg : Jmp) (version : UInt8) (data : Option Bytes) (code : UInt32) :
    Option (Jmp × Int) :=
  match data with
  | none => some (msg, -1)
  | some data =>
    let len := strlen data
    ((Buf.zeros 1024).memcpy 0 data 0 len).map fun b => (⟨jmpHeader version len code, b⟩, 1)

/-- The bytes of a message that are sent. -/
def jmpWire (msg : Jmp) : Bytes := msg.bytes.take (jmpGetMsgLength msg).toNat

/-! ## Messages built from a text -/

/-- A text that fits into a message and does not end early. -/
structure IsText (p : Bytes) : Prop where
  noNul : (0 : UInt8) ∉ p
  size : p.length ≤ 1024

instance (p : Bytes) : Decidable (IsText p) :=
  decidable_of_iff ((0 : UInt8) ∉ p ∧ p.length ≤ 1024)
    ⟨fun h => ⟨h.1, h.2⟩, fun h => ⟨h.noNul, h.size⟩⟩

/-- The first NUL ends a text. -/
theorem takeWhile_text {p : Bytes} (h : (0 : UInt8) ∉ p) (rest : Bytes) :
    (p ++ 0 :: rest).takeWhile (· ≠ 0) = p := by
  induction p with
  | nil => rfl
  | cons x p ih =>
      rw [List.mem_cons, not_or] at h
      have hx : decide (x ≠ 0) = true := decide_eq_true (Ne.symm h.1)
      rw [List.cons_append, List.takeWhile_cons, hx, if_pos rfl, ih h.2]

/-- A C string is as long as its text. -/
theorem strlen_append_nul {p : Bytes} (h : (0 : UInt8) ∉ p) (rest : Bytes) :
    strlen (p ++ 0 :: rest) = p.length := by
  rw [strlen, takeWhile_text h]

/-- The frame of a text. -/
def jmpFrame (version : UInt8) (p : Bytes) (code : UInt32) : Bytes :=
  (jmpHeader version p.length code).bytes ++ p

/-- Whatever was in the message, `jmp_set_msg` makes it the frame of the
text. -/
theorem jmpSetMsg_text (msg : Jmp) (version : UInt8) {p : Bytes} (hp : IsText p)
    (rest : Bytes) (code : UInt32) :
    ∃ m, jmpSetMsg msg version (some (p ++ 0 :: rest)) code = some (m, 1) ∧
      m.hdr = jmpHeader version p.length code ∧
      m.data.bytes = p ++ List.replicate (1024 - p.length) 0 ∧
      jmpWire m = jmpFrame version p code := by
  have hsize := hp.size
  obtain ⟨b, hb, hbytes⟩ := (Buf.zeros 1024).memcpy_eq (p ++ 0 :: rest) (d := 0) (s := 0)
    (k := p.length) (by omega) (by rw [List.length_append]; omega)
  have hdata : b.bytes = p ++ List.replicate (1024 - p.length) 0 := by
    rw [hbytes, List.take_zero, List.nil_append, List.drop_zero,
      List.take_append_of_le_length (Nat.le_refl _), List.take_length, Buf.zeros,
      List.drop_replicate, Nat.zero_add]
  refine ⟨⟨jmpHeader version p.length code, b⟩, ?_, rfl, hdata, ?_⟩
  · show ((Buf.zeros 1024).memcpy 0 (p ++ 0 :: rest) 0 (strlen (p ++ 0 :: rest))).map _ = _
    rw [strlen_append_nul hp.noNul]
    exact congrArg (Option.map _) hb
  · have hlen : (jmpHeader version p.length code).length.toNat = p.length + 20 := by
      rw [jmpHeader, BitVec.toNat_ofNat]
      omega
    rw [jmpWire, jmpGetMsgLength, hlen, Jmp.bytes, hdata, Int.toNat_natCast, Nat.add_comm,
      jmpFrame, List.take_append, JmpHdr.length_bytes, Nat.add_sub_cancel_left,
      List.take_append_of_le_length (Nat.le_refl _), List.take_length,
      List.take_of_length_le (by rw [JmpHdr.length_bytes]; omega)]

theorem length_jmpFrame (version : UInt8) (p : Bytes) (code : UInt32) :
    (jmpFrame version p code).length = 20 + p.length := by
  rw [jmpFrame, List.length_append, JmpHdr.length_bytes]

/-- The decoders that start with the least significant byte undo the
encoding. -/
theorem len24_jmpFrame (version : UInt8) {p : Bytes} (hp : IsText p) (code : UInt32) :
    len24 .little (jmpFrame version p code) = (jmpFrame version p code).length := by
  have hsize := hp.size
  rw [length_jmpFrame, jmpFrame, len24_append .little (by rw [JmpHdr.length_bytes]; decide),
    JmpHdr.len24_bytes, jmpHeader, BitVec.toNat_ofNat]
  omega

/-- A text that is not empty makes a message for the server. -/
theorem isFrame_jmpFrame {version : UInt8} (hv : version ≠ 0) {p : Bytes} (hp : IsText p)
    (hne : p ≠ []) (code : UInt32) : IsFrame .little (jmpFrame version p code) where
  accepted := by
    have hpos := List.length_pos_of_ne_nil hne
    refine ⟨?_, ?_⟩
    · rw [jmpFrame, byteAt_append (by rw [JmpHdr.length_bytes]; decide), JmpHdr.byteAt_zero]
      exact hv
    · rw [len24_jmpFrame version hp, length_jmpFrame]
      omega
  length_eq := (len24_jmpFrame version hp code).symm

end ZeroCopyProxy.Ports.JmpMessage
