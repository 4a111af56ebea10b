import ZeroCopyProxy.Ports.ServerBody
import ZeroCopyProxy.Ports.Kernel
import ZeroCopyProxy.Verified.Chunks
import Mathlib.Data.List.GetD

/-!
# A message that leaves the server in pieces

The server resumes a header as the proxy does, with the same three places in
disagreement.  Its body is resumed at an index in the body, with a size
computed from an index in the message, and again written from the first byte
of the array.

`SendLaw` says that the bytes written do not depend on how the writes are
split and that no copy leaves an array.  Which splits keep it is settled by
`server_write_split_iff`: the header has to leave in one piece, and behind the
first piece of the body only zero bytes may follow, with at least 20 bytes of
the body left at the start of every later piece.
-/

namespace ZeroCopyProxy.Ports.ServerSendSplit

open ZeroCopyProxy.Verified.Resumption
open ZeroCopyProxy.Verified.Chunks
open ZeroCopyProxy.Ports.Posix
open ZeroCopyProxy.Ports.Kernel
open ZeroCopyProxy.Ports.Frame
open ZeroCopyProxy.Ports.TranscHeader
open ZeroCopyProxy.Ports.ServerLoop
open ZeroCopyProxy.Ports.ServerBody

/-! ## The first bytes of a resumed body -/

section Bytes

@[simp] theorem byteAt_zeros (n i : Nat) : byteAt (List.replicate n 0) i = 0 := by
  simp only [byteAt, List.getD_eq_getElem?_getD, List.getElem?_replicate]
  split <;> rfl

/-- Equal beginnings are equal byte by byte. -/
theorem take_eq_take_iff {a b : Bytes} {k : Nat} (ha : k ≤ a.length) (hb : k ≤ b.length) :
    a.take k = b.take k ↔ ∀ i < k, byteAt a i = byteAt b i := by
  constructor
  · intro h i hi
    rw [← byteAt_take hi a, h, byteAt_take hi]
  · intro h
    apply List.ext_getElem
    · rw [List.length_take, List.length_take]
      omega
    · intro i hia hib
      rw [List.length_take] at hia hib
      have hi := h i (by omega)
      rw [byteAt, byteAt, List.getD_eq_getElem _ _ (by omega),
        List.getD_eq_getElem _ _ (by omega)] at hi
      rw [List.getElem_take, List.getElem_take]
      exact hi

/-- Of a resumed body the array holds neither the first `off` nor the last 20
bytes. -/
theorem byteAt_bodyToSend {off len : Nat} (body old : Bytes) (hoff : 0 < off)
    (hroom : off + 20 ≤ len) (hbody : len ≤ body.length) {i : Nat} (hi : i < len) :
    byteAt (bodyToSend off len body old) i =
      if off ≤ i ∧ i + 20 < len then byteAt body i else 0 := by
  have hmid : ((body.drop off).take (len - 20 - off)).length = len - 20 - off := by
    rw [List.length_take, List.length_drop]
    omega
  rw [bodyToSend, if_neg (by omega), List.append_assoc, List.append_assoc]
  by_cases hlow : i < off
  · rw [byteAt_append (by rw [List.length_replicate]; exact hlow), byteAt_zeros,
      if_neg (by omega)]
  · rw [byteAt_append_right _ (by rw [List.length_replicate]; omega),
      List.length_replicate]
    by_cases hhigh : i + 20 < len
    · rw [byteAt_append (by omega), byteAt_take (by omega), byteAt_drop,
        if_pos (by omega), show off + (i - off) = i by omega]
    · rw [byteAt_append_right _ (by omega), hmid,
        byteAt_append (by rw [List.length_replicate]; omega), byteAt_zeros,
        if_neg (by omega)]

/-- A piece that begins behind the first byte of the body and is written from
the start of the array is right if and only if it is all zero. -/
theorem resumed_piece_iff {off len k : Nat} (body old : Bytes) (hoff : 0 < off)
    (hroom : off + 20 ≤ len) (hbody : len ≤ body.length) (hk : off + k ≤ len) :
    (∀ i < k, byteAt (bodyToSend off len body old) i = byteAt body (off + i)) ↔
      ∀ i < k, byteAt body (off + i) = 0 := by
  constructor
  · intro h i
    -- a byte of the piece is zero, or the byte `off` places before it in the piece
    induction i using Nat.strongRecOn with
    | ind i ih =>
        intro hi
        rw [← h i hi, byteAt_bodyToSend body old hoff hroom hbody (by omega)]
        by_cases hmid : off ≤ i ∧ i + 20 < len
        · have hback := ih (i - off) (by omega) (by omega)
          rw [show off + (i - off) = i by omega] at hback
          rw [if_pos hmid]
          exact hback
        · rw [if_neg hmid]
  · intro h i hi
    rw [h i hi, byteAt_bodyToSend body old hoff hroom hbody (by omega)]
    by_cases hmid : off ≤ i ∧ i + 20 < len
    · have hback := h (i - off) (by omega)
      rw [show off + (i - off) = i by omega] at hback
      rw [if_pos hmid]
      exact hback
    · rw [if_neg hmid]

end Bytes

/-! ## The law -/

/-- A message on its way back to the client, and what was written to it
before. -/
structure Reply where
  fd : Int
  hdr : Bytes
  body : Bytes
  out : Bytes
  fd_nonneg : 0 ≤ fd
  hdr_length : hdr.length = 20
  frame : IsFrame .little (hdr ++ body)
  short : body.length ≤ 1024

theorem Reply.body_pos (o : Reply) : 0 < o.body.length := by
  have hlt := o.frame.twenty_lt
  have hlen := o.hdr_length
  rw [List.length_append] at hlt
  omega

/-- The message is in the arrays of the record. -/
structure Loaded (o : Reply) (t : ServerTransc) : Prop where
  header : t.readHdrBuf.bytes = o.hdr
  body : t.readBodyBuf.bytes.take o.body.length = o.body
  length : t.length = 20 + o.body.length

/-- Received completely, and nothing of it sent. -/
structure Complete (o : Reply) (w : Host) (t : ServerTransc) : Prop where
  flags : t.Flags 1 1 0 0
  loaded : Loaded o t
  recv : t.recvBytes = 20 + o.body.length
  send : t.sendBytes = 0
  written : w.written o.fd = o.out

/-- The header leaves in the pieces `hs` and the body in the pieces `bs`,
behind `base` bytes written before; a write may also find no room. -/
def MessageLeaves (base : Nat) (hs bs : List Nat) (w : Host) (op : SysCall) (r : Answer) :
    Prop :=
  match op with
  | .write fd .hdr _ _ =>
      Again r ∨ (0 ≤ r.ret ∧ next hs ((w.written fd).length - base) = some r.ret.toNat)
  | .write fd .body _ _ =>
      Again r ∨ (0 ≤ r.ret ∧
        next bs ((w.written fd).length - (base + 20)) = some r.ret.toNat)
  | _ => True

instance (base : Nat) (hs bs : List Nat) (w : Host) (op : SysCall) (r : Answer) :
    Decidable (MessageLeaves base hs bs w op r) :=
  match op with
  | .write fd .hdr _ _ =>
      inferInstanceAs (Decidable (Again r ∨ (0 ≤ r.ret ∧
        next hs ((w.written fd).length - base) = some r.ret.toNat)))
  | .write fd .body _ _ =>
      inferInstanceAs (Decidable (Again r ∨ (0 ≤ r.ret ∧
        next bs ((w.written fd).length - (base + 20)) = some r.ret.toNat)))
  | .read .. | .spliceIn .. | .spliceOut .. | .close _ | .getsockopt _ | .epollWait =>
      .isTrue trivial

/-- The kernel that takes the message in these pieces. -/
def leavingKernel (o : Reply) (hs bs : List Nat) :
    Host → SysCall → Answer → Host → Prop :=
  hostKernel (MessageLeaves o.out.length hs bs)

/-- A sender in a world that keeps the host. -/
abbrev SendConfig : Type := Config Host ServerTransc SysCall Answer Int

/-- Runs of `server_send_data` calls on this message. -/
def Sends (o : Reply) (hs bs : List Nat) : SendConfig → SendConfig → Prop :=
  Reach (blind (leavingKernel o hs bs)) (fun _ : Unit => serverSendData o.fd)
    (fun _ => true)

/-- What is written is the message so far, and `is_send_body` says that it is
all of it. -/
structure Faithful (o : Reply) (w : Host) (t : ServerTransc) : Prop where
  written : ∃ n, w.written o.fd = o.out ++ (o.hdr ++ o.body).take n
  sent : t.isSendBody = 1 ↔ w.written o.fd = o.out ++ (o.hdr ++ o.body)

/-- Every run is faithful to the message, and no copy leaves an array. -/
def SendLaw (o : Reply) (hs bs : List Nat) (w : Host) (t : ServerTransc) : Prop :=
  ∀ c, Sends o hs bs ⟨w, .done t normal⟩ c →
    c.node.faulted = false ∧ Faithful o c.world c.node.state

/-- Every piece of the body but the first is zero, and begins where at least
20 bytes of the body are left. -/
def ZeroBehindFirst (o : Reply) (bs : List Nat) : Prop :=
  ∀ pre k post, bs = pre ++ k :: post → pre ≠ [] →
    pre.sum + 20 ≤ o.body.length ∧ ∀ i < k, byteAt o.body (pre.sum + i) = 0

/-- A later piece of the body is right at the start of the array if and only if
it is zero. -/
theorem Loaded.piece_iff {o : Reply} {t : ServerTransc} (h : Loaded o t) {n k : Nat}
    (hpos : 0 < n) (hroom : n + 20 ≤ o.body.length) (hle : n + k ≤ o.body.length)
    (old : Bytes) :
    (bodyToSend n o.body.length t.readBodyBuf.bytes old).take k =
        (o.body.drop n).take k ↔ ∀ i < k, byteAt o.body (n + i) = 0 := by
  have hsize := t.readBodyBuf.size
  have hshort := o.short
  have hbyte : ∀ i < k, byteAt o.body (n + i) = byteAt t.readBodyBuf.bytes (n + i) := by
    intro i hi
    rw [← h.body, byteAt_take (by omega)]
  have hlen : (bodyToSend n o.body.length t.readBodyBuf.bytes old).length =
      o.body.length + (old.length - o.body.length) := by
    simp only [bodyToSend, if_neg (Nat.ne_of_gt hpos), List.length_append,
      List.length_replicate, List.length_take, List.length_drop]
    omega
  have hpiece := resumed_piece_iff t.readBodyBuf.bytes old hpos hroom (by omega) hle
  rw [take_eq_take_iff (by omega) (by rw [List.length_drop]; omega)]
  constructor
  · intro h i hi
    rw [hbyte i hi]
    refine hpiece.1 (fun j hj => ?_) i hi
    rw [h j hj, byteAt_drop, hbyte j hj]
  · intro h i hi
    rw [byteAt_drop, hbyte i hi]
    refine hpiece.2 (fun j hj => ?_) i hi
    rw [← hbyte j hj]
    exact h j hj

/-! ## Splits that keep the law -/

section Kept

variable {o : Reply} {bs : List Nat} {w : Host} {t : ServerTransc}

/-- The header is gone and `n` bytes of the body. -/
structure BodyPart (o : Reply) (n : Nat) (w : Host) (t : ServerTransc) : Prop where
  loaded : Loaded o t
  written : w.written o.fd = o.out ++ (o.hdr ++ o.body.take n)
  send : t.sendBytes = 20 + n
  recv : t.recvBytes + n = o.body.length

/-- Sending the body, at the start of one of its pieces. -/
def Moving (o : Reply) (bs : List Nat) (w : Host) (t : ServerTransc) : Prop :=
  t.Flags 1 1 1 0 ∧ ∃ pre k post, bs = pre ++ k :: post ∧ BodyPart o pre.sum w t

/-- The message is sent. -/
def Gone (o : Reply) (w : Host) (t : ServerTransc) : Prop :=
  t.Flags 1 1 1 1 ∧ w.written o.fd = o.out ++ (o.hdr ++ o.body)

/-- What is visible while the server waits in a call. -/
def CallFaithful (o : Reply) (w : Host) (t : ServerTransc) (_ : SysCall) : Prop :=
  Faithful o w t

/-- A proper beginning of the message was written, and it is not marked as
sent. -/
theorem faithful_of_part {part rest : Bytes} (hpart : o.hdr ++ o.body = part ++ rest)
    (hrest : rest ≠ []) (hw : w.written o.fd = o.out ++ part) (hsb : t.isSendBody = 0) :
    Faithful o w t where
  written := by
    refine ⟨part.length, ?_⟩
    rw [hw, hpart, List.take_left]
  sent := by
    constructor
    · intro h1
      exact absurd (hsb.symm.trans h1) (by decide)
    · intro hall
      rw [hw, hpart] at hall
      have hnil := List.append_cancel_left hall
      exact absurd (List.self_eq_append_right.1 hnil) hrest

theorem Complete.faithful (h : Complete o w t) : Faithful o w t := by
  have hpos := o.body_pos
  apply faithful_of_part (List.nil_append _).symm
  · intro hnil
    have hlen := congrArg List.length hnil
    rw [List.length_append, List.length_nil] at hlen
    omega
  · rw [h.written, List.append_nil]
  · exact h.flags.sendBody

theorem BodyPart.faithful {n : Nat} (h : BodyPart o n w t) (hn : n < o.body.length)
    (hsb : t.isSendBody = 0) : Faithful o w t := by
  have hsplit : o.hdr ++ o.body = (o.hdr ++ o.body.take n) ++ o.body.drop n := by
    rw [List.append_assoc, List.take_append_drop]
  apply faithful_of_part hsplit _ h.written hsb
  rw [ne_eq, List.drop_eq_nil_iff]
  omega

theorem Gone.faithful (h : Gone o w t) : Faithful o w t where
  written := by
    refine ⟨(o.hdr ++ o.body).length, ?_⟩
    rw [h.2, List.take_length]
  sent := ⟨fun _ => h.2, fun _ => h.1.sendBody⟩

theorem Moving.faithful (hbs : Splits o.body.length bs) (h : Moving o bs w t) :
    Faithful o w t := by
  obtain ⟨hf, pre, k, post, hsplit, hpart⟩ := h
  have hlt := hbs.piece_le hsplit
  exact hpart.faithful (by omega) hf.sendBody

/-- A write of the header finds no room, or takes all of it. -/
theorem Complete.wp_sendHeader (hbs : Splits o.body.length bs) (h : Complete o w t) :
    wp (blind (leavingKernel o [20] bs)) (CallFaithful o)
      (fun w' t' rv => match rv with
        | some _ => True ∧ Complete o w' t'
        | none => Complete o w' t' ∨ Moving o bs w' t')
      (onTransc (sendHeader o.fd) t) w := by
  have hpos := o.body_pos
  obtain ⟨hf, hl, hrecv, hsend, hwritten⟩ := h
  rw [onTransc, wp_zoom]
  apply wp_sendHeader_whole (fun _ _ _ _ _ hk => hostKernel_fits _ _ _ _ hk) hsend
  · intro b r w' hk hpos
    obtain ⟨_, hn⟩ := hk.2.1.resolve_left (not_again_of_pos hpos)
    have h20 := (Splits.next_single hn).2
    omega
  · intro b _
    exact Complete.faithful
      ⟨⟨hf.1, hf.2, hf.3, hf.4⟩, ⟨hl.1, hl.2, hl.3⟩, hrecv, hsend, hwritten⟩
  · intro b r w' hk hle
    obtain ⟨_, _, rfl⟩ := hk
    have hidle := (Host.after_idle w r
      (.write o.fd .hdr b.bytes (20 - t.sendBytes)) hle).2.2
    refine ⟨True.intro, ⟨hf.1, hf.2, hf.3, hf.4⟩, ⟨hl.1, hl.2, hl.3⟩, hrecv, hsend, ?_⟩
    rw [hidle]
    exact hwritten
  · intro b r w' hb hk hret
    obtain ⟨_, _, rfl⟩ := hk
    have h20 : r.ret.toNat = 20 := by omega
    have htake : b.bytes.take 20 = o.hdr := by
      rw [hb, hl.header]
      exact List.take_of_length_le (Nat.le_of_eq o.hdr_length)
    cases bs with
    | nil =>
        have hsum := hbs.sum
        rw [List.sum_nil] at hsum
        omega
    | cons k post =>
        refine .inr ⟨⟨hf.1, hf.2, rfl, hf.4⟩, [], k, post, rfl, ⟨hl.1, hl.2, hl.3⟩, ?_,
          rfl, ?_⟩
        · rw [Host.after_write_written, hwritten, h20, htake, List.sum_nil,
            List.take_zero, List.append_nil]
        · show t.recvBytes - r.ret + (0 : Nat) = o.body.length
          omega

/-- The piece behind the first `n` bytes of the body is right at the start of
the array. -/
theorem take_bodyToSend (hzero : ZeroBehindFirst o bs) {pre post : List Nat} {k : Nat}
    (hbs : Splits o.body.length bs) (hsplit : bs = pre ++ k :: post) (hl : Loaded o t)
    (old : Bytes) :
    (bodyToSend pre.sum o.body.length t.readBodyBuf.bytes old).take k =
      (o.body.drop pre.sum).take k := by
  obtain ⟨hkpos, hle⟩ := hbs.piece_le hsplit
  by_cases hpre : pre = []
  · subst hpre
    rw [List.sum_nil] at hle ⊢
    rw [bodyToSend, if_pos rfl, hl.body, List.drop_zero,
      List.take_append_of_le_length (by omega)]
  · obtain ⟨hroom, hall⟩ := hzero pre k post hsplit hpre
    exact (hl.piece_iff (hbs.sum_pos hsplit hpre) hroom hle old).2 hall

theorem Moving.wp_serverSendBody (hbs : Splits o.body.length bs)
    (hzero : ZeroBehindFirst o bs) (h : Moving o bs w t) :
    wp (blind (leavingKernel o [20] bs)) (CallFaithful o)
      (fun w' t' _ => True ∧ (Moving o bs w' t' ∨ Gone o w' t')) (serverSendBody o.fd t) w := by
  obtain ⟨hf, pre, k, post, hsplit, hpart⟩ := h
  obtain ⟨hl, hwritten, hsend, hrecv⟩ := hpart
  have hlength := hl.length
  have hshort := o.short
  obtain ⟨hkpos, hle⟩ := hbs.piece_le hsplit
  have hnext := hbs.next_of_split hsplit
  have hd : (w.written o.fd).length - (o.out.length + 20) = pre.sum := by
    rw [hwritten]
    simp only [List.length_append, List.length_take, o.hdr_length]
    omega
  have hoff : (t.sendBytes - 20).toNat = pre.sum := by omega
  have hlen : (t.length - 20).toNat = o.body.length := by omega
  have hroom : pre.sum = 0 ∨ pre.sum + 20 ≤ o.body.length := by
    by_cases hpre : pre = []
    · exact .inl (by rw [hpre, List.sum_nil])
    · exact .inr (hzero pre k post hsplit hpre).1
  have hret : ∀ {b : Bytes} {r : Answer} {w' : Host}, leavingKernel o [20] bs w
      (.write o.fd .body b t.recvBytes) r w' → 0 < r.ret → r.ret = k := by
    intro b r w' hr hpos
    exact ret_of_due hr.2.1 (by rw [hd, hnext]) hpos
  have hafter : ∀ {b : Buf 1024} {r : Answer}, r.ret = k →
      b.bytes = bodyToSend (t.sendBytes - 20).toNat (t.length - 20).toNat
        t.readBodyBuf.bytes t.writeBodyBuf.bytes →
      (w.after (.write o.fd .body b.bytes t.recvBytes) r).written o.fd =
        o.out ++ (o.hdr ++ o.body.take (pre.sum + k)) := by
    intro b r hr hb
    rw [Host.after_write_written, hwritten, hr, Int.toNat_natCast, hb, hoff, hlen,
      take_bodyToSend hzero hbs hsplit hl, List.append_assoc, List.append_assoc,
      ← List.take_add]
  have hcount : t.recvBytes ≤ 1024 := by omega
  apply ServerBody.wp_serverSendBody
    (fun _ _ _ hk => Int.le_trans (hostKernel_fits _ _ _ _ hk) hcount) hf
  · omega
  · omega
  · omega
  · omega
  · intro b _ _
    have hpart' : BodyPart o pre.sum w { t with writeBodyBuf := b } :=
      ⟨⟨hl.1, hl.2, hl.3⟩, hwritten, hsend, hrecv⟩
    exact hpart'.faithful (by omega) hf.sendBody
  · intro b r w' hk hret
    obtain ⟨_, _, rfl⟩ := hk
    have hidle := (Host.after_idle w r (.write o.fd .body b.bytes t.recvBytes) hret).2.2
    refine ⟨True.intro, .inl ⟨⟨hf.1, hf.2, hf.3, hf.4⟩, pre, k, post, hsplit,
      ⟨hl.1, hl.2, hl.3⟩, ?_, hsend, hrecv⟩⟩
    rw [hidle]
    exact hwritten
  · intro b r w' _ hb hk hpos hne
    have hrk := hret hk hpos
    obtain ⟨_, _, rfl⟩ := hk
    cases post with
    | nil =>
        have hsum := hbs.sum
        rw [hsplit, List.sum_append, List.sum_singleton] at hsum
        omega
    | cons k' post =>
        refine ⟨True.intro, .inl ⟨⟨hf.1, hf.2, hf.3, hf.4⟩, pre ++ [k], k', post, ?_,
          ⟨hl.1, hl.2, hl.3⟩, ?_, ?_, ?_⟩⟩
        · rw [hsplit, List.append_assoc, List.singleton_append]
        · rw [List.sum_append, List.sum_singleton]
          exact hafter hrk hb
        · show t.sendBytes + r.ret = 20 + ((pre ++ [k]).sum : Nat)
          rw [List.sum_append, List.sum_singleton]
          omega
        · show t.recvBytes - r.ret + ((pre ++ [k]).sum : Nat) = o.body.length
          rw [List.sum_append, List.sum_singleton]
          omega
  · intro b r w' _ hb hk hpos hfin
    have hrk := hret hk hpos
    obtain ⟨_, _, rfl⟩ := hk
    refine ⟨True.intro, .inr ⟨⟨hf.1, hf.2, hf.3, rfl⟩, ?_⟩⟩
    rw [hafter hrk hb, show pre.sum + k = o.body.length by omega, List.take_length]

/-- Between two calls of `server_send_data`. -/
def Settled (o : Reply) (bs : List Nat) (w : Host) (t : ServerTransc) : Prop :=
  Complete o w t ∨ Moving o bs w t ∨ Gone o w t

/-- A header in one piece and a body that is zero behind its first piece leave
as they are. -/
theorem sendLaw_of_zero (hbs : Splits o.body.length bs) (hzero : ZeroBehindFirst o bs)
    (h : Complete o w t) : SendLaw o [20] bs w t := by
  intro c hr
  have hstep : ∀ {w t}, Settled o bs w t →
      wp (blind (leavingKernel o [20] bs)) (CallFaithful o)
        (fun w' t' _ => True ∧ Settled o bs w' t') (serverSendData o.fd t) w := by
    intro w t hs
    exact wp_serverSendData_walk True.intro True.intro (fun h => h.flags) (fun h => h.1)
      (fun h => h.1) (fun h => h.wp_sendHeader hbs)
      (fun h => h.wp_serverSendBody hbs hzero) hs
  have hshows : c.Shows (CallFaithful o) (fun w' t' _ => True ∧ Settled o bs w' t') := by
    apply shows_of_wp
    refine wp_reach (fun _ w s a _ hq => hstep hq.2) hr ?_
    exact ⟨True.intro, .inl h⟩
  obtain ⟨w, n⟩ := c
  cases n with
  | done s a =>
      refine ⟨rfl, ?_⟩
      rcases hshows.2 with h | h | h
      · exact h.faithful
      · exact h.faithful hbs
      · exact h.faithful
  | call s op k => exact ⟨rfl, hshows⟩
  | fault s => exact hshows.elim

end Kept

/-! ## Splits that break it -/

section Broken

variable {o : Reply} {hs bs : List Nat} {w : Host} {t : ServerTransc}

/-- `n` bytes were written of the header, in pieces that did not complete
it. -/
structure Pending (o : Reply) (n : Nat) (w : Host) (t : ServerTransc) : Prop where
  flags : t.Flags 1 1 0 0
  loaded : Loaded o t
  recv : t.recvBytes = 20 + o.body.length
  send : t.sendBytes = n
  written : (w.written o.fd).length = o.out.length + n

/-- The header and `n` bytes of the body were written, and `recv_bytes` is
`extra` too large. -/
structure Beyond (o : Reply) (extra n : Nat) (w : Host) (t : ServerTransc) : Prop where
  flags : t.Flags 1 1 1 (if t.recvBytes = 0 then 1 else 0)
  loaded : Loaded o t
  recv : t.recvBytes + n = o.body.length + extra
  send : t.sendBytes = 20 + n
  written : (w.written o.fd).length = o.out.length + 20 + n

/-- The kernel on its answers that take the next piece of the header and
nothing of the body. -/
def headerKernel (o : Reply) (hs bs : List Nat) (w : Host) (op : SysCall) (r : Answer)
    (w' : Host) : Prop :=
  leavingKernel o hs bs w op r w' ∧
    match op with
    | .write _ .hdr _ _ => 0 < r.ret
    | .write _ .body _ _ => r.ret < 0
    | _ => False

/-- The kernel on its answers that take the next piece of the body. -/
def bodyKernel (o : Reply) (hs bs : List Nat) (w : Host) (op : SysCall) (r : Answer)
    (w' : Host) : Prop :=
  leavingKernel o hs bs w op r w' ∧
    match op with
    | .write _ .body _ _ => 0 < r.ret
    | _ => False

/-- The piece of the header behind its first `n` bytes is offered, or the
body. -/
def OffersHeader (o : Reply) (n : Nat) (w : Host) (_ : ServerTransc) (op : SysCall) :
    Prop :=
  match op with
  | .write fd .hdr _ count =>
      fd = o.fd ∧ count = 20 - n ∧ (w.written fd).length = o.out.length + n
  | .write _ .body _ count => 0 ≤ count
  | _ => False

/-- At least `k` bytes are offered behind the first `n` bytes of the body. -/
def OffersBody (o : Reply) (n k : Nat) (w : Host) (_ : ServerTransc) (op : SysCall) :
    Prop :=
  match op with
  | .write fd .body _ count =>
      fd = o.fd ∧ k ≤ count ∧ (w.written fd).length = o.out.length + 20 + n
  | _ => False

theorem exists_headerKernel {n k : Nat} (hk : next hs n = some k) (hpos : 0 < k)
    (hle : n + k ≤ 20) {op : SysCall} (h : OffersHeader o n w t op) :
    ∃ r w', headerKernel o hs bs w op r w' := by
  cases op with
  | write fd area buf count =>
      cases area with
      | hdr =>
          obtain ⟨rfl, rfl, hwritten⟩ := h
          have hd : (w.written o.fd).length - o.out.length = n := by omega
          refine ⟨.count k, _, ⟨⟨?_, True.intro⟩, .inr ⟨?_, ?_⟩, rfl⟩, ?_⟩
          · show (k : Int) ≤ 20 - n
            omega
          · exact Int.natCast_nonneg k
          · rw [hd]
            exact hk
          · show (0 : Int) < k
            omega
      | body =>
          have hcount : 0 ≤ count := h
          have hneg : (Answer.fail .eagain).ret < 0 := by decide
          refine ⟨.fail .eagain, _, ⟨⟨?_, True.intro⟩, .inl ⟨hneg, .inl rfl⟩, rfl⟩, hneg⟩
          show (-1 : Int) ≤ count
          omega
  | _ => exact h.elim

theorem exists_bodyKernel {n k : Nat} (hk : next bs n = some k) (hpos : 0 < k)
    {op : SysCall} (h : OffersBody o n k w t op) :
    ∃ r w', bodyKernel o hs bs w op r w' := by
  cases op with
  | write fd area buf count =>
      cases area with
      | hdr => exact h.elim
      | body =>
          obtain ⟨rfl, hcount, hwritten⟩ := h
          have hd : (w.written o.fd).length - (o.out.length + 20) = n := by omega
          refine ⟨.count k, _, ⟨⟨hcount, True.intro⟩, .inr ⟨?_, ?_⟩, rfl⟩, ?_⟩
          · exact Int.natCast_nonneg k
          · rw [hd]
            exact hk
          · show (0 : Int) < k
            omega
  | _ => exact h.elim

/-- A body that finds no room changes nothing but `write_body_buf`. -/
theorem wp_serverSendBody_blocked {n : Nat} (hf : t.Flags 1 1 1 0) (hsend : t.sendBytes = 20)
    (hbody : 20 < t.length) (hshort : t.length ≤ 1044) (hrecv : 0 ≤ t.recvBytes) :
    wp (blind (headerKernel o hs bs)) (OffersHeader o n)
      (fun w' t' _ => w'.written = w.written ∧ ∃ b, t' = { t with writeBodyBuf := b })
      (serverSendBody o.fd t) w := by
  have hfails : ∀ {b : Buf 1024} {r : Answer} {w' : Host}, headerKernel o hs bs w
      (.write o.fd .body b.bytes t.recvBytes) r w' → r.ret < 0 := fun hr => hr.2
  apply ServerBody.wp_serverSendBody
  · intro b r w' hr
    have hneg := hfails hr
    omega
  · exact hf
  · omega
  · exact hshort
  · intro _
    exact .inl hsend
  · intro hover
    omega
  · intro b _ _
    exact hrecv
  · intro b r w' hr hret
    obtain ⟨⟨_, _, rfl⟩, _⟩ := hr
    exact ⟨(Host.after_idle w r _ hret).2.2, b, rfl⟩
  · intro b r w' _ _ hr hpos _
    have hneg := hfails hr
    omega
  · intro b r w' _ _ hr hpos _
    have hneg := hfails hr
    omega

/-- One call of `server_send_data` on the next piece of the header.  When it
completes the header, `recv_bytes` keeps counting the pieces before. -/
theorem Pending.wp_serverSendData (bs : List Nat) {n k : Nat} (h : Pending o n w t)
    (hk : next hs n = some k) (hpos : 0 < k) (hle : n + k ≤ 20) :
    wp (blind (headerKernel o hs bs)) (OffersHeader o n)
      (fun w' t' _ => (n + k < 20 ∧ Pending o (n + k) w' t') ∨
        (n + k = 20 ∧ Beyond o n 0 w' t'))
      (serverSendData o.fd t) w := by
  have hfd := o.fd_nonneg
  have hbody := o.body_pos
  have hshort := o.short
  obtain ⟨hf, hl, hrecv, hsend, hwritten⟩ := h
  have hlength := hl.length
  have hret : ∀ {b : Bytes} {r : Answer} {w' : Host}, headerKernel o hs bs w
      (.write o.fd .hdr b (20 - t.sendBytes)) r w' → r.ret = k := by
    intro b r w' hr
    obtain ⟨⟨_, hpol, _⟩, hpos⟩ := hr
    have hd : (w.written o.fd).length - o.out.length = n := by omega
    exact ret_of_due hpol (by rw [hd, hk]) hpos
  have hafter : ∀ {b : Buf 20} {r : Answer}, r.ret = k →
      ((w.after (.write o.fd .hdr b.bytes (20 - t.sendBytes)) r).written
        o.fd).length = o.out.length + (n + k) := by
    intro b r hr
    rw [Host.after_write_length _ _ hr (by rw [b.size]; omega)]
    omega
  simp only [serverSendData, wp_bind, wp_state, wp_ite]
  refine ⟨fun hneg => absurd hneg (by omega), fun _ => ⟨fun _ => ?_, fun hne => ?_⟩⟩
  · rw [onTransc, wp_zoom]
    apply TranscHeader.wp_sendHeader (fun _ _ _ _ _ hr => hostKernel_fits _ _ _ _ hr.1)
    · omega
    · omega
    · intro b _
      exact ⟨rfl, by omega, hwritten⟩
    · intro b r w' _ hr hle
      have hpos : 0 < r.ret := hr.2
      omega
    · intro b r w' _ hr _ hlt
      have hrk := hret hr
      obtain ⟨⟨_, _, rfl⟩, _⟩ := hr
      have hidle : ¬ (t.isSendHeader = 1 ∧ t.isSendBody = 0) := by
        rw [hf.sendHeader]
        omega
      simp only [serverSendBody, wp_bind, wp_state, wp_ite, wp_pure]
      refine ⟨fun hc => absurd hc hidle, fun _ => .inl ⟨by omega,
        ⟨hf.1, hf.2, hf.3, hf.4⟩, ⟨hl.1, hl.2, hl.3⟩, hrecv, ?_, hafter hrk⟩⟩
      show t.sendBytes + r.ret = ((n + k : Nat) : Int)
      omega
    · intro b r w' _ hr _ hfull
      have hrk := hret hr
      obtain ⟨⟨_, _, rfl⟩, _⟩ := hr
      have hnk : n + k = 20 := by omega
      have hcount : 0 < t.recvBytes - r.ret := by omega
      have hbody : 20 < t.length := by omega
      have hlong : t.length ≤ 1044 := by omega
      refine wp_post ?_ (wp_serverSendBody_blocked (t := { t with
        writeHdrBuf := b, sendBytes := 20, isSendHeader := 1,
        recvBytes := t.recvBytes - r.ret }) ⟨hf.1, hf.2, rfl, hf.4⟩ rfl hbody hlong
        (Int.le_of_lt hcount))
      rintro w' t' _ ⟨hsame, b', rfl⟩
      refine .inr ⟨hnk, ⟨hf.1, hf.2, rfl, ?_⟩, ⟨hl.1, hl.2, hl.3⟩, ?_, rfl, ?_⟩
      · show t.isSendBody = if t.recvBytes - r.ret = 0 then 1 else 0
        rw [if_neg (by omega)]
        exact hf.4
      · show t.recvBytes - r.ret + (0 : Nat) = o.body.length + n
        omega
      · rw [hsame, hafter hrk]
        omega
  · exact absurd ⟨hf.sendHeader, hf.sendBody⟩ hne

/-- One call of `server_send_data` on the next piece of the body. -/
theorem Beyond.wp_serverSendData (hs : List Nat) {extra n k : Nat} (h : Beyond o extra n w t)
    (hk : next bs n = some k) (hpos : 0 < k) (hle : n + k ≤ o.body.length)
    (hroom : n = 0 ∨ n + 20 ≤ o.body.length) :
    wp (blind (bodyKernel o hs bs)) (OffersBody o n k)
      (fun w' t' _ => Beyond o extra (n + k) w' t' ∧
        w'.written o.fd = w.written o.fd ++ (bodyToSend n o.body.length
          t.readBodyBuf.bytes t.writeBodyBuf.bytes).take k)
      (serverSendData o.fd t) w := by
  have hfd := o.fd_nonneg
  have hshort := o.short
  obtain ⟨hflags, hl, hrecv, hsend, hwritten⟩ := h
  have hlength := hl.length
  have hleft : t.recvBytes ≠ 0 := by omega
  have hf : t.Flags 1 1 1 0 := by
    rw [if_neg hleft] at hflags
    exact hflags
  have hn : (t.sendBytes - 20).toNat = n := by omega
  have hlen : (t.length - 20).toNat = o.body.length := by omega
  have hret : ∀ {b : Bytes} {r : Answer} {w' : Host}, bodyKernel o hs bs w
      (.write o.fd .body b t.recvBytes) r w' → r.ret = k := by
    intro b r w' hr
    obtain ⟨⟨_, hpol, _⟩, hpos⟩ := hr
    have hd : (w.written o.fd).length - (o.out.length + 20) = n := by omega
    exact ret_of_due hpol (by rw [hd, hk]) hpos
  have hafter : ∀ {b : Buf 1024} {r : Answer}, r.ret = k →
      b.bytes = bodyToSend (t.sendBytes - 20).toNat (t.length - 20).toNat
        t.readBodyBuf.bytes t.writeBodyBuf.bytes →
      (w.after (.write o.fd .body b.bytes t.recvBytes) r).written o.fd =
          w.written o.fd ++ (bodyToSend n o.body.length t.readBodyBuf.bytes
            t.writeBodyBuf.bytes).take k ∧
        ((w.after (.write o.fd .body b.bytes t.recvBytes) r).written o.fd).length =
          o.out.length + 20 + (n + k) := by
    intro b r hr hb
    constructor
    · rw [Host.after_write_written, hr, Int.toNat_natCast, hb, hn, hlen]
    · rw [Host.after_write_length _ _ hr (by rw [b.size]; omega)]
      omega
  simp only [serverSendData, wp_bind, wp_state, wp_ite]
  refine ⟨fun hneg => absurd hneg (by omega), fun _ => ⟨fun hc => ?_, fun _ =>
    ⟨fun hc => ?_, fun _ => ?_⟩⟩⟩
  · have h1 := hf.sendHeader
    omega
  · have h1 := hf.sendHeader
    omega
  · apply ServerBody.wp_serverSendBody
    · intro b r w' hr
      have hrk := hret hr
      omega
    · exact hf
    · omega
    · omega
    · omega
    · omega
    · intro b _ _
      exact ⟨rfl, by omega, hwritten⟩
    · intro b r w' hr hneg
      have hpos' : 0 < r.ret := hr.2
      omega
    · intro b r w' _ hb hr _ hne
      have hrk := hret hr
      obtain ⟨⟨_, _, rfl⟩, _⟩ := hr
      refine ⟨⟨⟨hf.1, hf.2, hf.3, ?_⟩, ⟨hl.1, hl.2, hl.3⟩, ?_, ?_, (hafter hrk hb).2⟩,
        (hafter hrk hb).1⟩
      · show t.isSendBody = if t.recvBytes - r.ret = 0 then 1 else 0
        rw [if_neg hne]
        exact hf.4
      · show t.recvBytes - r.ret + ((n + k : Nat) : Int) = o.body.length + extra
        omega
      · show t.sendBytes + r.ret = 20 + ((n + k : Nat) : Int)
        omega
    · intro b r w' _ hb hr _ hfin
      have hrk := hret hr
      obtain ⟨⟨_, _, rfl⟩, _⟩ := hr
      refine ⟨⟨⟨hf.1, hf.2, hf.3, rfl⟩, ⟨hl.1, hl.2, hl.3⟩, ?_, ?_, (hafter hrk hb).2⟩,
        (hafter hrk hb).1⟩
      · show (0 : Int) + ((n + k : Nat) : Int) = o.body.length + extra
        omega
      · show t.sendBytes + r.ret = 20 + ((n + k : Nat) : Int)
        omega

/-- A body resumed within its last 20 bytes makes the size of the copy
negative. -/
theorem Beyond.faulted {extra n : Nat} (h : Beyond o extra n w t) (hpos : 0 < n)
    (hlt : n < o.body.length) (hroom : o.body.length < n + 20) :
    (serverSendData o.fd t).faulted = true := by
  have hfd := o.fd_nonneg
  obtain ⟨hflags, hl, hrecv, hsend, _⟩ := h
  have hlength := hl.length
  have hleft : t.recvBytes ≠ 0 := by omega
  have hf : t.Flags 1 1 1 0 := by
    rw [if_neg hleft] at hflags
    exact hflags
  have h1 := hf.sendHeader
  have h2 := hf.sendBody
  apply faulted_of_not_wp (w := w)
  intro hwp
  simp only [serverSendData, serverSendBody, prepareBody, wp_bind, wp_state, wp_ite,
    wp_update, wp_orFault] at hwp
  have hsome := ((((hwp.2 (by omega)).2 (by omega)).2 (by omega)).1 ⟨h1, h2⟩).1 (by omega)
  obtain ⟨m, _, hm⟩ := hsome
  obtain ⟨b, hb, _⟩ := (hm.2 (by omega)).1 (by omega)
  have hsize := (Buf.memcpy_bounds hb).1
  omega

/-- Every split of the header can be written to its end. -/
theorem exists_beyond_zero (bs : List Nat) (hhs : Splits 20 hs) (h : Complete o w t)
    {pre : List Nat} {k : Nat} (hsplit : hs = pre ++ [k]) (hsum : pre.sum + k = 20) :
    ∃ w' t' a, Sends o hs bs ⟨w, .done t normal⟩ ⟨w', .done t' a⟩ ∧
      Beyond o pre.sum 0 w' t' := by
  let Reached : Nat → Prop := fun n => n < 20 → ∃ w' t' a,
    Sends o hs bs ⟨w, .done t normal⟩ ⟨w', .done t' a⟩ ∧ Pending o n w' t'
  have hnext : ∀ {n k : Nat}, next hs n = some k → ∀ {w₁ t₁} (a₁ : Int),
      Pending o n w₁ t₁ → ∃ w' t' a, Sends o hs bs ⟨w₁, .done t₁ a₁⟩ ⟨w', .done t' a⟩ ∧
        ((n + k < 20 ∧ Pending o (n + k) w' t') ∨ (n + k = 20 ∧ Beyond o n 0 w' t')) := by
    intro n k hk w₁ t₁ a₁ hpend
    obtain ⟨hpos, hle⟩ := hhs.next_le hk
    have hrun : ∃ w' t' a, Sends o hs bs ⟨w₁, serverSendData o.fd t₁⟩ ⟨w', .done t' a⟩ ∧
        ((n + k < 20 ∧ Pending o (n + k) w' t') ∨ (n + k = 20 ∧ Beyond o n 0 w' t')) :=
      exists_run (hpend.wp_serverSendData bs hk hpos hle)
        (fun _ _ _ _ _ hr => hr.1) (fun _ _ _ hop => exists_headerKernel hk hpos hle hop)
    obtain ⟨w', t', a, hr, hend⟩ := hrun
    exact ⟨w', t', a, .head (.start () rfl) hr, hend⟩
  have hzero : Reached 0 := by
    intro _
    refine ⟨w, t, normal, .refl, h.flags, h.loaded, h.recv, h.send, ?_⟩
    rw [h.written, Nat.add_zero]
  have hstep : ∀ {n k : Nat}, next hs n = some k → Reached n → Reached (n + k) := by
    intro n k hk ih hlt
    obtain ⟨w₁, t₁, a₁, hr₁, hpend⟩ := ih (by omega)
    obtain ⟨w₂, t₂, a₂, hr₂, ⟨_, hpend₂⟩ | ⟨hfull, _⟩⟩ := hnext hk a₁ hpend
    · exact ⟨w₂, t₂, a₂, hr₁.trans hr₂, hpend₂⟩
    · omega
  have hlast := hhs.next_of_split hsplit
  have hkpos := (hhs.piece_le hsplit).1
  obtain ⟨w₁, t₁, a₁, hr₁, hpend⟩ := along hhs.pos hzero hstep hsplit (by omega)
  obtain ⟨w₂, t₂, a₂, hr₂, ⟨hlt, _⟩ | ⟨_, hbeyond⟩⟩ := hnext hlast a₁ hpend
  · omega
  · exact ⟨w₂, t₂, a₂, hr₁.trans hr₂, hbeyond⟩

/-- What a faithful server has written after so many bytes. -/
theorem Faithful.content (h : Faithful o w t) {n : Nat} (hn : n ≤ o.body.length)
    (hw : (w.written o.fd).length = o.out.length + 20 + n) :
    w.written o.fd = o.out ++ (o.hdr ++ o.body.take n) := by
  obtain ⟨m, hm⟩ := h.written
  have hlen := congrArg List.length hm
  have hhdr := o.hdr_length
  have htake : (o.hdr ++ o.body).take m = (o.hdr ++ o.body).take (20 + n) := by
    apply List.take_eq_take_iff.2
    rw [List.length_append, List.length_take, List.length_append] at hlen
    rw [List.length_append]
    omega
  rw [hm, htake, ← hhdr, List.take_length_add_append]

section Law

variable {w₀ : Host} {t₀ : ServerTransc} {extra : Nat}

/-- Under the law at least 20 bytes of the body are left where a later piece
begins. -/
theorem room_of_law (hlaw : SendLaw o hs bs w₀ t₀) {n : Nat} {a : Int}
    (hr : Sends o hs bs ⟨w₀, .done t₀ normal⟩ ⟨w, .done t a⟩)
    (h : Beyond o extra n w t) (hlt : n < o.body.length) :
    n = 0 ∨ n + 20 ≤ o.body.length := by
  by_contra hne
  have hfault := h.faulted (by omega) hlt (by omega)
  have hsafe := (hlaw _ (hr.tail (.start () rfl))).1
  exact absurd (hfault.symm.trans hsafe) (by decide)

/-- Under the law every piece of the body can be written, and it is the right
one. -/
theorem exists_next_of_law (hbs : Splits o.body.length bs) (hlaw : SendLaw o hs bs w₀ t₀)
    {n k : Nat} {a : Int} (hr : Sends o hs bs ⟨w₀, .done t₀ normal⟩ ⟨w, .done t a⟩)
    (h : Beyond o extra n w t) (hk : next bs n = some k) :
    (∃ w' t' a', Sends o hs bs ⟨w₀, .done t₀ normal⟩ ⟨w', .done t' a'⟩ ∧
        Beyond o extra (n + k) w' t') ∧
      (bodyToSend n o.body.length t.readBodyBuf.bytes t.writeBodyBuf.bytes).take k =
        (o.body.drop n).take k := by
  obtain ⟨hpos, hle⟩ := hbs.next_le hk
  have hroom := room_of_law hlaw hr h (by omega)
  have hrun : ∃ w' t' a', Sends o hs bs ⟨w, serverSendData o.fd t⟩ ⟨w', .done t' a'⟩ ∧
      Beyond o extra (n + k) w' t' ∧
        w'.written o.fd = w.written o.fd ++ (bodyToSend n o.body.length
          t.readBodyBuf.bytes t.writeBodyBuf.bytes).take k :=
    exists_run (h.wp_serverSendData hs hk hpos hle hroom)
      (fun _ _ _ _ _ hr => hr.1) (fun _ _ _ hop => exists_bodyKernel hk hpos hop)
  obtain ⟨w', t', a', hr', hbeyond, hwritten⟩ := hrun
  have hall := hr.trans (.head (.start () rfl) hr')
  refine ⟨⟨w', t', a', hall, hbeyond⟩, ?_⟩
  have hbefore := (hlaw _ hr).2.content (n := n) (by omega) h.written
  have hafter := (hlaw _ hall).2.content (n := n + k) (by omega) hbeyond.written
  simp only at hbefore hafter
  rw [hwritten, hbefore, List.take_add, List.append_assoc, List.append_assoc] at hafter
  exact List.append_cancel_left (List.append_cancel_left (List.append_cancel_left hafter))

/-- Under the law every beginning of the body can be written. -/
theorem exists_beyond_of_law (hbs : Splits o.body.length bs)
    (hlaw : SendLaw o hs bs w₀ t₀) {a : Int}
    (hr : Sends o hs bs ⟨w₀, .done t₀ normal⟩ ⟨w, .done t a⟩) (h : Beyond o extra 0 w t)
    {pre post : List Nat} (hsplit : bs = pre ++ post) :
    ∃ w' t' a', Sends o hs bs ⟨w₀, .done t₀ normal⟩ ⟨w', .done t' a'⟩ ∧
      Beyond o extra pre.sum w' t' := by
  let Reached : Nat → Prop := fun n => ∃ w' t' a',
    Sends o hs bs ⟨w₀, .done t₀ normal⟩ ⟨w', .done t' a'⟩ ∧ Beyond o extra n w' t'
  have hzero : Reached 0 := ⟨w, t, a, hr, h⟩
  have hstep : ∀ {n k : Nat}, next bs n = some k → Reached n → Reached (n + k) := by
    intro n k hk ih
    obtain ⟨w₁, t₁, a₁, hr₁, hbeyond⟩ := ih
    exact (exists_next_of_law hbs hlaw hr₁ hbeyond hk).1
  exact along hbs.pos hzero hstep hsplit

end Law

end Broken

/-- **Split writes of the server.**  For a message received completely, a way
to split the writes of its header and its body keeps the bytes right in every
run, and every copy inside its arrays, if and only if the header leaves in one
piece and the body is zero behind its first piece, with at least 20 bytes left
at every later one. -/
theorem server_write_split_iff {o : Reply} {hs bs : List Nat} (hhs : Splits 20 hs)
    (hbs : Splits o.body.length bs) {w : Host} {t : ServerTransc} (h : Complete o w t) :
    SendLaw o hs bs w t ↔ hs = [20] ∧ ZeroBehindFirst o bs := by
  constructor
  · intro hlaw
    obtain ⟨hpre, k, hhsplit, hsum⟩ := hhs.exists_last (by decide)
    obtain ⟨w₁, t₁, a₁, hr₁, hstart⟩ := exists_beyond_zero bs hhs h hhsplit hsum
    constructor
    · -- written to its end, the body leaves `recv_bytes` at what the header left
      by_contra hmany
      have hk := hhs.lt_of_ne_single hmany (k := k) (by simp [hhsplit])
      obtain ⟨w₂, t₂, a₂, hr₂, hend⟩ := exists_beyond_of_law hbs hlaw hr₁ hstart
        (List.append_nil bs).symm
      rw [hbs.sum] at hend
      have hfaithful := (hlaw _ hr₂).2
      have hall := hfaithful.content (Nat.le_refl _) hend.written
      rw [List.take_length] at hall
      have hsent : t₂.isSendBody = 1 := hfaithful.sent.2 hall
      have hflag := hend.flags.sendBody
      have hrecv := hend.recv
      rw [if_neg (by omega)] at hflag
      omega
    · intro pre k post hsplit hpre
      obtain ⟨hkpos, hle⟩ := hbs.piece_le hsplit
      have hpos := hbs.sum_pos hsplit hpre
      obtain ⟨w₂, t₂, a₂, hr₂, hbeyond⟩ := exists_beyond_of_law hbs hlaw hr₁ hstart hsplit
      have hroom : pre.sum + 20 ≤ o.body.length :=
        (room_of_law hlaw hr₂ hbeyond (by omega)).resolve_left (by omega)
      have hpiece := (exists_next_of_law hbs hlaw hr₂ hbeyond (hbs.next_of_split hsplit)).2
      exact ⟨hroom, (hbeyond.loaded.piece_iff hpos hroom hle _).1 hpiece⟩
  · rintro ⟨rfl, hzero⟩
    exact sendLaw_of_zero hbs hzero h

/-- A message of 25 bytes on its way to descriptor 4. -/
def sampleReply : Reply where
  fd := 4
  hdr := [1, 25, 0, 0, 9, 9, 9, 9, 9, 9, 9, 9, 9, 9, 9, 9, 9, 9, 9, 9]
  body := [1, 2, 3, 4, 5]
  out := []
  fd_nonneg := Int.natCast_nonneg 4
  hdr_length := rfl
  frame := by decide
  short := by decide

/-- Its record when it has been received completely. -/
def sampleReceived : ServerTransc where
  isRecvHeader := 1
  isRecvBody := 1
  isSendHeader := 0
  isSendBody := 0
  length := 25
  recvBytes := 25
  sendBytes := 0
  readHdrBuf := ⟨sampleReply.hdr, rfl⟩
  writeHdrBuf := Buf.zeros 20
  readBodyBuf := ⟨sampleReply.body ++ List.replicate 1019 0, by
    rw [List.length_append, List.length_replicate]
    rfl⟩
  writeBodyBuf := Buf.zeros 1024

theorem sampleComplete : Complete sampleReply Host.fresh sampleReceived where
  flags := ⟨rfl, rfl, rfl, rfl⟩
  loaded := ⟨rfl, rfl, rfl⟩
  recv := rfl
  send := rfl
  written := rfl

theorem server_write_split_iff_sample :
    SendLaw sampleReply [20] [5] Host.fresh sampleReceived := by
  refine (server_write_split_iff (by decide) (by decide) sampleComplete).2 ⟨rfl, ?_⟩
  intro pre k post hsplit hpre
  cases pre with
  | nil => exact absurd rfl hpre
  | cons j pre => simp at hsplit

/-- A body of five bytes of which two were written: the size of the next copy
is `5 - 22`. -/
theorem server_write_split_faults :
    ¬ SendLaw sampleReply [20] [2, 3] Host.fresh sampleReceived := by
  intro hlaw
  have hrun : ∃ c : SendConfig,
      Sends sampleReply [20] [2, 3] ⟨Host.fresh, .done sampleReceived normal⟩ c ∧
        c.node.faulted = true :=
    exists_reach_of_exec (fun w _ => hostDeliver (MessageLeaves 0 [20] [2, 3]) w)
      hostKernel_of_hostDeliver
      [.event (), .answer (.count 20), .answer (.count 2), .event ()]
      (fun c : SendConfig => c.node.faulted = true) (by decide +kernel)
  obtain ⟨c, hc, hfault⟩ := hrun
  exact absurd (hfault.symm.trans (hlaw c hc).1) (by decide)

end ZeroCopyProxy.Ports.ServerSendSplit
