import ZeroCopyProxy.Ports.ProxyRelay
import ZeroCopyProxy.Ports.Kernel

/-!
# What a receive makes of its answer

The receivers turn the answer of `read` or `splice` into a code, and the code
decides whether the descriptor is closed.  Here that is said of the answers:
a header ends the connection if the read of it hangs up, brings a part of it
only, or brings one that is not accepted; a body ends it if its read or splice
hangs up.  Nothing is asked of the record but its two receiving flags, so the
specifications are liberal.
-/

namespace ZeroCopyProxy.Ports.Receives

open ZeroCopyProxy.Verified.Liberal
open ZeroCopyProxy.Ports.Posix
open ZeroCopyProxy.Ports.Frame
open ZeroCopyProxy.Ports.TranscHeader
open ZeroCopyProxy.Ports.Kernel
open ZeroCopyProxy.Ports.ProxyRelay

/-- The answer to a read of the last `n` bytes of a header ends the
connection. -/
def BadHeader (e : ByteOrder) (n : Int) (r : Answer) : Prop :=
  HangsUp r ∨ (0 < r.ret ∧ (r.ret ≠ n ∨ ¬ Accepted e (received (20 - n).toNat r.data)))

instance (e : ByteOrder) (n : Int) (r : Answer) : Decidable (BadHeader e n r) :=
  inferInstanceAs (Decidable (_ ∨ _))

variable {W : Type} {fd : Int} {K : W → Transc → SysCall → Answer → W → Prop}
  {P : W → Transc → SysCall → Prop}

/-- A code that ends the connection comes from an answer that does. -/
theorem recvCode_iff_badHeader {e : ByteOrder} {n : Int} {r : Answer} (hr : r.ret ≤ 0) :
    (if r.ret < 0 then recvErrorCode r.errno else zeroByte) ≤ zeroByte ↔ BadHeader e n r := by
  rw [recvCode_le_zeroByte hr]
  constructor
  · exact .inl
  · rintro (hup | ⟨hpos, -⟩)
    · exact hup
    · omega

/-- What the copy of a header into its array leaves, where it is defined. -/
theorem memcpy_header {off : Int} {r : Answer} {b : Buf 20}
    (hdata : (r.data.length : Int) = r.ret)
    (hb : (Buf.zeros 20).memcpy off r.data 0 r.ret = some b) :
    0 ≤ off ∧ b.bytes = received off.toNat r.data := by
  have hbounds := Buf.memcpy_bounds hb
  obtain ⟨c, hc, hbytes⟩ := memcpy_received off.toNat r.data (by omega)
  rw [Int.toNat_of_nonneg hbounds.2.1, hdata] at hc
  obtain rfl : c = b := Option.some.inj (hc.symm.trans hb)
  exact ⟨hbounds.2.1, hbytes⟩

/-- Receiving a header: one read, and behind it either the flags are what they
were or the header is complete. -/
theorem wlp_recvHeader {Q : W → Transc → Option Int → Prop} {e : ByteOrder}
    {m : Transc → UInt64} (hm : Decodes e m) (hK : ∀ w t op r w', K w t op r w' → r.Fits op)
    {w : W} {t : Transc} {sh sb : Int} (hf : t.Flags 0 0 sh sb)
    (hP : ∀ t' n, P w t' (.read fd .hdr n))
    (hsome : ∀ t₁ n r w' t' c, K w t₁ (.read fd .hdr n) r w' → t'.Flags 0 0 sh sb →
      (c ≤ zeroByte ↔ BadHeader e n r) → Q w' t' (some c))
    (hnone : ∀ t₁ n r w' t', K w t₁ (.read fd .hdr n) r w' → t'.Flags 1 0 sh sb →
      ¬ BadHeader e n r → Q w' t' none) :
    wlp K P Q (recvHeader m fd t) w := by
  obtain ⟨hrh, hrb, hsh, hsb⟩ := hf
  have hbuf : bufErr ≤ zeroByte := by decide
  simp only [recvHeader, wlp_bind, wlp_update, wlp_state]
  apply wlp_sysRead (hP _ _)
  intro r w' hk
  obtain ⟨-, hdata⟩ := hK _ _ _ _ _ hk
  simp only [wlp_ite, wlp_pure, wlp_bind, wlp_orFault, wlp_update, wlp_state]
  refine ⟨fun hneg => ?_, fun hnneg => ⟨fun hz => ?_, fun hnz b hb => ?_⟩⟩
  · refine hsome _ _ _ _ _ _ hk ⟨hrh, hrb, hsh, hsb⟩ ?_
    rw [← recvCode_iff_badHeader (by omega), if_pos hneg]
  · refine hsome _ _ _ _ _ _ hk ⟨hrh, hrb, hsh, hsb⟩ ?_
    rw [← recvCode_iff_badHeader (by omega), if_neg hnneg]
  · obtain ⟨hoff, hbytes⟩ := memcpy_header (hdata (by omega)) hb
    have hasked : (20 - (20 - t.recvBytes)).toNat = t.recvBytes.toNat := by omega
    have hpos : 0 < r.ret := by omega
    have hall : t.recvBytes + r.ret = 20 ↔ r.ret = 20 - t.recvBytes := by omega
    have hup : ¬ HangsUp r := fun hup => absurd hup.1 (by omega)
    refine ⟨fun hfull => ⟨fun hrej => ?_, fun hacc => ⟨fun _ => ?_, fun hnpos => ?_⟩⟩,
      fun hshort => ?_⟩
    · refine hsome _ _ _ _ _ _ hk ⟨hrh, hrb, hsh, hsb⟩ (iff_of_true hbuf (.inr ⟨hpos, ?_⟩))
      rw [hasked, ← hbytes]
      refine .inr fun hacc => absurd hrej (Int.not_le.2 ?_)
      exact (hm.accepted_iff
        { t with readHdrBuf := b, recvBytes := t.recvBytes + r.ret }).2 hacc
    · refine hnone _ _ _ _ _ hk ⟨rfl, hrb, hsh, hsb⟩ ?_
      rintro (hup' | ⟨-, hne | hrej⟩)
      · exact hup hup'
      · exact hne (hall.1 hfull)
      · rw [hasked, ← hbytes] at hrej
        exact hrej ((hm.accepted_iff
          { t with readHdrBuf := b, recvBytes := t.recvBytes + r.ret }).1 (Int.not_le.1 hacc))
    · exact absurd (Int.lt_trans (by decide) (Int.lt_of_sub_pos (Int.not_le.1 hacc))) hnpos
    · refine hsome _ _ _ _ _ _ hk ⟨hrh, hrb, hsh, hsb⟩
        (iff_of_true hbuf (.inr ⟨hpos, .inl ?_⟩))
      exact fun heq => hshort (hall.2 heq)

/-- Receiving a part of a body: one splice, whose answer decides about the
code. -/
theorem wlp_recvBody {Q : W → Transc → Int → Prop} {pipe : Pipe} {w : W} {t : Transc}
    {sh sb : Int} (hf : t.Flags 1 0 sh sb) (hP : ∀ n, P w t (.spliceIn fd pipe n))
    (hends : ∀ n r w' c, K w t (.spliceIn fd pipe n) r w' → c ≤ zeroByte → HangsUp r →
      Q w' t c)
    (hgoes : ∀ n r w' t' c, K w t (.spliceIn fd pipe n) r w' → ¬ c ≤ zeroByte → ¬ HangsUp r →
      (t'.Flags 1 0 sh sb ∨ t'.Flags 1 1 sh sb) → Q w' t' c) :
    wlp K P Q (recvBody fd pipe t) w := by
  obtain ⟨hrh, hrb, hsh, hsb⟩ := hf
  have hnormal : ¬ normal ≤ zeroByte := by decide
  have hcode : ∀ n r w' c, K w t (.spliceIn fd pipe n) r w' → r.ret ≤ 0 →
      c = (if r.ret < 0 then recvErrorCode r.errno else zeroByte) → Q w' t c := by
    intro n r w' c hk hr hc
    have hiff := recvCode_le_zeroByte hr
    rw [← hc] at hiff
    by_cases hle : c ≤ zeroByte
    · exact hends n r w' c hk hle (hiff.1 hle)
    · exact hgoes n r w' t c hk hle (fun hup => hle (hiff.2 hup))
        (.inl ⟨hrh, hrb, hsh, hsb⟩)
  simp only [recvBody, wlp_bind, wlp_state, wlp_ite, wlp_pure, wlp_prog_call, wlp_update]
  refine ⟨fun _ => ⟨hP _, fun r w' hk => ⟨fun hneg => ?_, fun hnneg => ⟨fun hz => ?_,
    fun hnz => ⟨fun _ => ?_, fun _ => ?_⟩⟩⟩⟩, fun hne => absurd ⟨hrh, hrb⟩ hne⟩
  · exact hcode _ r w' _ hk (by omega) (by rw [if_pos hneg])
  · exact hcode _ r w' _ hk (by omega) (by rw [if_neg hnneg])
  · exact hgoes _ r w' _ _ hk hnormal (fun hup => absurd hup.1 (by omega))
      (.inr ⟨hrh, rfl, hsh, hsb⟩)
  · exact hgoes _ r w' _ _ hk hnormal (fun hup => absurd hup.1 (by omega))
      (.inl ⟨hrh, hrb, hsh, hsb⟩)

end ZeroCopyProxy.Ports.Receives
