import ZeroCopyProxy.Ports.Posix
import ZeroCopyProxy.Verified.PrefixCode

/-!
# Frames on the wire

Every message starts with a 20-byte header whose bytes 1 to 3 hold the length
of the whole message.  The proxy is built with the most significant byte
first, the server reads the least significant byte first, so everything here
is stated for both byte orders.

The frames of one byte order form a prefix code (`isPrefixCode`): the length
field lies inside the header, so a frame that begins another has the same
length and is the same frame.
-/

namespace ZeroCopyProxy.Ports.Frame

open ZeroCopyProxy.Ports.Posix
open ZeroCopyProxy.Verified.PrefixCode

/-- The order of the bytes of the length field. -/
inductive ByteOrder where
  | big
  | little
  deriving DecidableEq

/-- The 24-bit length field of a header. -/
def len24 (e : ByteOrder) (bs : Bytes) : Nat :=
  match e with
  | .big => ((byteAt bs 1).toNat <<< 16) + ((byteAt bs 2).toNat <<< 8) +
      (byteAt bs 3).toNat
  | .little => ((byteAt bs 3).toNat <<< 16) + ((byteAt bs 2).toNat <<< 8) +
      (byteAt bs 1).toNat

theorem len24_lt (e : ByteOrder) (bs : Bytes) : len24 e bs < 2 ^ 24 := by
  have h1 := (byteAt bs 1).toNat_lt
  have h2 := (byteAt bs 2).toNat_lt
  have h3 := (byteAt bs 3).toNat_lt
  cases e <;> simp only [len24, Nat.shiftLeft_eq] <;> omega

/-- The receivers accept a header: its first byte is not zero and it
announces a body. -/
def Accepted (e : ByteOrder) (h : Bytes) : Prop :=
  byteAt h 0 ≠ 0 ∧ 20 < len24 e h

instance (e : ByteOrder) (h : Bytes) : Decidable (Accepted e h) := by
  unfold Accepted
  infer_instance

/-- A whole message: an accepted header and exactly as many bytes as it
announces. -/
structure IsFrame (e : ByteOrder) (f : Bytes) : Prop where
  accepted : Accepted e f
  length_eq : f.length = len24 e f

theorem isFrame_iff (e : ByteOrder) (f : Bytes) :
    IsFrame e f ↔ Accepted e f ∧ f.length = len24 e f :=
  ⟨fun h => ⟨h.accepted, h.length_eq⟩, fun h => ⟨h.1, h.2⟩⟩

instance (e : ByteOrder) (f : Bytes) : Decidable (IsFrame e f) :=
  decidable_of_iff _ (isFrame_iff e f).symm

/-- The messages of one byte order. -/
abbrev Message (e : ByteOrder) : Type := Word (IsFrame e)

/-! ## The header decides -/

theorem byteAt_append {h x : Bytes} {i : Nat} (hi : i < h.length) :
    byteAt (h ++ x) i = byteAt h i := by
  rw [byteAt, byteAt, List.getD_eq_getElem?_getD, List.getD_eq_getElem?_getD,
    List.getElem?_append_left hi]

theorem byteAt_append_right {h : Bytes} (x : Bytes) {i : Nat} (hi : h.length ≤ i) :
    byteAt (h ++ x) i = byteAt x (i - h.length) := by
  rw [byteAt, byteAt, List.getD_eq_getElem?_getD, List.getD_eq_getElem?_getD,
    List.getElem?_append_right hi]

theorem byteAt_take {n i : Nat} (h : i < n) (bs : Bytes) :
    byteAt (bs.take n) i = byteAt bs i := by
  simp [byteAt, List.getD_eq_getElem?_getD, h]

@[simp] theorem byteAt_drop (bs : Bytes) (d i : Nat) :
    byteAt (bs.drop d) i = byteAt bs (d + i) := by
  simp [byteAt, List.getD_eq_getElem?_getD]

/-- The length field is read off the header alone. -/
theorem len24_append (e : ByteOrder) {h : Bytes} (hh : 3 < h.length) (x : Bytes) :
    len24 e (h ++ x) = len24 e h := by
  have h1 : byteAt (h ++ x) 1 = byteAt h 1 := byteAt_append (by omega)
  have h2 : byteAt (h ++ x) 2 = byteAt h 2 := byteAt_append (by omega)
  have h3 : byteAt (h ++ x) 3 = byteAt h 3 := byteAt_append (by omega)
  cases e <;> simp only [len24, h1, h2, h3]

theorem accepted_append (e : ByteOrder) {h : Bytes} (hh : 3 < h.length) (x : Bytes) :
    Accepted e (h ++ x) ↔ Accepted e h := by
  have h0 : byteAt (h ++ x) 0 = byteAt h 0 := byteAt_append (by omega)
  rw [Accepted, Accepted, h0, len24_append e hh]

theorem IsFrame.twenty_lt {e : ByteOrder} {f : Bytes} (h : IsFrame e f) :
    20 < f.length := by
  rw [h.length_eq]
  exact h.accepted.2

/-- A header and a body of the announced length make a frame. -/
theorem isFrame_append_iff (e : ByteOrder) {h : Bytes} (hh : h.length = 20)
    (b : Bytes) :
    IsFrame e (h ++ b) ↔ Accepted e h ∧ 20 + b.length = len24 e h := by
  have hlt : 3 < h.length := by rw [hh]; decide
  rw [isFrame_iff, accepted_append e hlt, len24_append e hlt,
    List.length_append, hh]

/-- The frames of one byte order are a prefix code. -/
theorem isPrefixCode (e : ByteOrder) : IsPrefixCode (IsFrame e) where
  ne_nil := by
    intro f hf hnil
    have hlen := hf.twenty_lt
    rw [hnil] at hlen
    exact Nat.not_lt_zero _ hlen
  eq_of_prefix := by
    intro f g hf hg hfg
    obtain ⟨x, rfl⟩ := hfg
    have hlt := hf.twenty_lt
    have hlen : (f ++ x).length = f.length := by
      rw [hg.length_eq, len24_append e (by omega), hf.length_eq]
    have hx : x = [] := by
      rw [List.length_append] at hlen
      exact List.eq_nil_of_length_eq_zero (by omega)
    rw [hx, List.append_nil]

/-- A header with a proper beginning of the body it announces is an
unfinished message. -/
theorem partial_of_header {e : ByteOrder} {h b : Bytes}
    (hh : h.length = 20) (ha : Accepted e h)
    (hb : 20 + b.length < len24 e h) : Partial (IsFrame e) (h ++ b) := by
  let rest := List.replicate (len24 e h - (20 + b.length)) (0 : UInt8)
  have hrest : rest ≠ [] := by
    intro hnil
    have hlen := congrArg List.length hnil
    simp only [rest, List.length_replicate, List.length_nil] at hlen
    omega
  refine .inr ⟨rest, hrest, ?_⟩
  rw [List.append_assoc, isFrame_append_iff e hh]
  refine ⟨ha, ?_⟩
  simp only [rest, List.length_append, List.length_replicate]
  omega

/-- Fewer bytes than their header announces are an unfinished message. -/
theorem partial_of_lt {e : ByteOrder} {x : Bytes} (hx : 20 ≤ x.length)
    (ha : Accepted e x) (hlt : x.length < len24 e x) : Partial (IsFrame e) x := by
  have hlen : (x.take 20).length = 20 := by
    rw [List.length_take]
    omega
  have hsplit := List.take_append_drop 20 x
  have hhdr : 3 < (x.take 20).length := by rw [hlen]; decide
  rw [← hsplit, accepted_append e hhdr] at ha
  rw [← hsplit, len24_append e hhdr, List.length_append, hlen] at hlt
  rw [← hsplit]
  exact partial_of_header hlen ha hlt

/-- Twenty bytes read where a message starts are the header of a message of
the stream. -/
theorem header_of_stream {e : ByteOrder} {fs frames : List (Message e)} {hdr : Bytes}
    (hlen : hdr.length = 20) (h : join fs ++ hdr <+: join frames) :
    Accepted e hdr ∧ ∃ u ∈ frames, len24 e hdr = u.1.length := by
  have hne : hdr ≠ [] := List.ne_nil_of_length_pos (by omega)
  obtain ⟨u, rest, hframes, hu⟩ := (isPrefixCode e).next_word h hne
  have hlt := u.2.twenty_lt
  have hmem : u ∈ frames := by
    rw [hframes]
    exact List.mem_append_right _ (List.mem_cons_self)
  rcases hu with ⟨x, hx⟩ | ⟨x, hx⟩
  · have hacc := u.2.accepted
    have hlength := u.2.length_eq
    rw [← hx, accepted_append e (by omega)] at hacc
    rw [← hx, len24_append e (by omega), hx] at hlength
    exact ⟨hacc, u, hmem, hlength.symm⟩
  · have hle := congrArg List.length hx
    rw [List.length_append] at hle
    omega

end ZeroCopyProxy.Ports.Frame
