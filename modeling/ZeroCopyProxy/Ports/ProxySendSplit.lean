import ZeroCopyProxy.Ports.ProxyRelay
import ZeroCopyProxy.Ports.Kernel
import ZeroCopyProxy.Verified.Chunks

/-!
# A header that leaves the proxy in pieces

A message that has been received completely is sent by calls of
`proxy_send_data`: the header with `write`, the body with `splice`.  Three
places resume a header of which `send_bytes` bytes are gone, and they do not
agree: the rest is copied to its own place in `write_hdr_buf`, `write` starts
at the first byte of that array, and when the header is complete `recv_bytes`
loses the bytes of the last `write` only.

`HeaderSendLaw` is what the three are meant to achieve together, in every run
of such calls.  It holds exactly for a header written in one piece; for any
other split the body phase starts with a `recv_bytes` that is too large.
-/

namespace ZeroCopyProxy.Ports.ProxySendSplit

open ZeroCopyProxy.Verified.Resumption
open ZeroCopyProxy.Verified.Chunks
open ZeroCopyProxy.Ports.Posix
open ZeroCopyProxy.Ports.Kernel
open ZeroCopyProxy.Ports.Frame
open ZeroCopyProxy.Ports.TranscHeader
open ZeroCopyProxy.Ports.ProxyRelay

/-! ## The law -/

/-- A message on its way out: where its body waits, where it goes, and what
was written there before. -/
structure Outgoing where
  pipe : Pipe
  peer : Int
  hdr : Bytes
  body : Bytes
  out : Bytes
  peer_nonneg : 0 ≤ peer
  hdr_length : hdr.length = 20
  frame : IsFrame .big (hdr ++ body)

theorem Outgoing.body_pos (o : Outgoing) : 0 < o.body.length := by
  have hlt := o.frame.twenty_lt
  have hlen := o.hdr_length
  rw [List.length_append] at hlt
  omega

/-- Received completely, and nothing of it sent. -/
structure Complete (o : Outgoing) (w : Host) (t : Transc) : Prop where
  flags : t.Flags 1 1 0 0
  header : t.readHdrBuf.bytes = o.hdr
  recv : t.recvBytes = 20 + o.body.length
  send : t.sendBytes = 0
  piped : w.piped o.pipe = o.body
  written : w.written o.peer = o.out

/-- The header leaves in the pieces `ks`, behind `base` bytes written before;
a write may also find no room.  Nothing is said about the body. -/
def HeaderLeaves (base : Nat) (ks : List Nat) (w : Host) (op : SysCall) (r : Answer) :
    Prop :=
  match op with
  | .write fd .hdr _ _ =>
      Again r ∨ (0 ≤ r.ret ∧ next ks ((w.written fd).length - base) = some r.ret.toNat)
  | _ => True

instance (base : Nat) (ks : List Nat) (w : Host) (op : SysCall) (r : Answer) :
    Decidable (HeaderLeaves base ks w op r) :=
  match op with
  | .write fd .hdr _ _ =>
      inferInstanceAs (Decidable (Again r ∨ (0 ≤ r.ret ∧
        next ks ((w.written fd).length - base) = some r.ret.toNat)))
  | .write _ .body _ _ | .read .. | .spliceIn .. | .spliceOut .. | .close _ | .getsockopt _
  | .epollWait => .isTrue trivial

/-- The kernel that takes the header in these pieces. -/
def leavingKernel (o : Outgoing) (ks : List Nat) : Host → SysCall → Answer → Host → Prop :=
  hostKernel (HeaderLeaves o.out.length ks)

/-- What is written is the message so far, and from the header on the counters
say how much of the body is gone and how much is left. -/
structure Faithful (o : Outgoing) (w : Host) (t : Transc) : Prop where
  header : t.isSendHeader = 0 → ∃ n, w.written o.peer = o.out ++ o.hdr.take n
  body : t.isSendHeader = 1 → ∃ n ≤ o.body.length,
    w.written o.peer = o.out ++ o.hdr ++ o.body.take n ∧
      w.piped o.pipe = o.body.drop n ∧ t.sendBytes = 20 + n ∧
      t.recvBytes = (w.piped o.pipe).length ∧
      (t.isSendBody = 1 ↔ w.piped o.pipe = [])

/-- A sender in a world that keeps the host. -/
abbrev SendConfig : Type := Config Host Transc SysCall Answer Int

/-- Runs of `proxy_send_data` calls on this message. -/
def Sends (o : Outgoing) (ks : List Nat) : SendConfig → SendConfig → Prop :=
  Reach (blind (leavingKernel o ks)) (fun _ : Unit => proxySendData (some o.pipe) o.peer)
    (fun _ => true)

/-- Every run is faithful to the message. -/
def HeaderSendLaw (o : Outgoing) (ks : List Nat) (w : Host) (t : Transc) : Prop :=
  ∀ c, Sends o ks ⟨w, .done t normal⟩ c →
    c.node.faulted = false ∧ Faithful o c.world c.node.state

/-! ## One piece -/

section Whole

variable {o : Outgoing} {w : Host} {t : Transc}

/-- The header is gone and `n` bytes of the body. -/
structure BodyPart (o : Outgoing) (n : Nat) (w : Host) (t : Transc) : Prop where
  written : w.written o.peer = o.out ++ o.hdr ++ o.body.take n
  piped : w.piped o.pipe = o.body.drop n
  send : t.sendBytes = 20 + n
  recv : t.recvBytes + n = o.body.length

/-- Sending the body. -/
def Moving (o : Outgoing) (w : Host) (t : Transc) : Prop :=
  t.Flags 1 1 1 0 ∧ ∃ n < o.body.length, BodyPart o n w t

/-- The message is sent. -/
def Gone (o : Outgoing) (w : Host) (t : Transc) : Prop :=
  t.Flags 1 1 1 1 ∧ BodyPart o o.body.length w t

theorem Complete.faithful (h : Complete o w t) : Faithful o w t where
  header _ := ⟨0, by rw [h.written, List.take_zero, List.append_nil]⟩
  body h1 := absurd (h.flags.sendHeader.symm.trans h1) (by decide)

theorem BodyPart.faithful {n : Nat} (hn : n ≤ o.body.length) (h : BodyPart o n w t)
    (hsh : t.isSendHeader = 1) (hsb : t.isSendBody = 1 ↔ n = o.body.length) :
    Faithful o w t where
  header h0 := absurd (hsh.symm.trans h0) (by decide)
  body _ := by
    have hrecv := h.recv
    have hempty : w.piped o.pipe = [] ↔ n = o.body.length := by
      rw [h.piped, List.drop_eq_nil_iff]
      omega
    refine ⟨n, hn, h.written, h.piped, h.send, ?_, hsb.trans hempty.symm⟩
    rw [h.piped, List.length_drop]
    omega

theorem Moving.faithful (h : Moving o w t) : Faithful o w t := by
  obtain ⟨hf, n, hn, hpart⟩ := h
  apply hpart.faithful (Nat.le_of_lt hn) hf.sendHeader
  rw [hf.sendBody]
  omega

theorem Gone.faithful (h : Gone o w t) : Faithful o w t := by
  obtain ⟨hf, hpart⟩ := h
  apply hpart.faithful (Nat.le_refl _) hf.sendHeader
  rw [hf.sendBody]
  omega

/-- What is visible while the proxy waits in a call. -/
def CallFaithful (o : Outgoing) (w : Host) (t : Transc) (_ : SysCall) : Prop :=
  Faithful o w t

/-- A write of the header finds no room, or takes all of it. -/
theorem Complete.wp_sendHeader (h : Complete o w t) :
    wp (blind (leavingKernel o [20])) (CallFaithful o)
      (fun w' t' rv => match rv with
        | some _ => True ∧ Complete o w' t'
        | none => Complete o w' t' ∨ Moving o w' t')
      (sendHeader o.peer t) w := by
  have hpos := o.body_pos
  have hrecv := h.recv
  apply wp_sendHeader_whole (fun _ _ _ _ _ hk => hostKernel_fits _ _ _ _ hk) h.send
  · intro b r w' hk hpos
    obtain ⟨_, hn⟩ := hk.2.1.resolve_left (not_again_of_pos hpos)
    have h20 := (Splits.next_single hn).2
    omega
  · intro b _
    exact Complete.faithful
      ⟨⟨h.flags.1, h.flags.2, h.flags.3, h.flags.4⟩, h.header, h.recv, h.send, h.piped,
        h.written⟩
  · intro b r w' hk hle
    obtain ⟨_, _, rfl⟩ := hk
    obtain ⟨_, hpipe, hwritten⟩ :=
      Host.after_idle w r (.write o.peer .hdr b.bytes (20 - t.sendBytes)) hle
    refine ⟨True.intro, ⟨h.flags.1, h.flags.2, h.flags.3, h.flags.4⟩, h.header, h.recv,
      h.send, ?_, ?_⟩
    · rw [hpipe]
      exact h.piped
    · rw [hwritten]
      exact h.written
  · intro b r w' hb hk hret
    obtain ⟨_, _, rfl⟩ := hk
    have h20 : r.ret.toNat = 20 := by omega
    have htake : b.bytes.take 20 = o.hdr := by
      rw [hb, h.header]
      exact List.take_of_length_le (Nat.le_of_eq o.hdr_length)
    refine .inr ⟨⟨h.flags.1, h.flags.2, rfl, h.flags.4⟩, 0, hpos, ?_, ?_, rfl, ?_⟩
    · rw [Host.after_write_written, h.written, h20, htake, List.take_zero,
        List.append_nil]
    · rw [Host.after_write_piped, h.piped, List.drop_zero]
    · show t.recvBytes - r.ret + (0 : Nat) = o.body.length
      omega

/-- A splice moves the next bytes of the body. -/
theorem BodyPart.splice {n : Nat} (h : BodyPart o n w t) {r : Answer} (count : Int)
    (h0 : 0 ≤ r.ret) {t' : Transc} (hs : t'.sendBytes = t.sendBytes + r.ret)
    (hr : t'.recvBytes = t.recvBytes - r.ret) :
    BodyPart o (n + r.ret.toNat) (w.after (.spliceOut o.pipe o.peer count) r) t' where
  written := by
    rw [Host.after_spliceOut_written, h.written, h.piped, List.append_assoc,
      ← List.take_add]
  piped := by rw [Host.after_spliceOut_piped, h.piped, List.drop_drop]
  send := by
    have hsend := h.send
    omega
  recv := by
    have hrecv := h.recv
    omega

theorem Moving.wp_sendBody (h : Moving o w t) :
    wp (blind (leavingKernel o [20])) (CallFaithful o)
      (fun w' t' _ => True ∧ (Moving o w' t' ∨ Gone o w' t')) (sendBody o.pipe o.peer t) w := by
  have hmoving := h
  obtain ⟨hf, n, hn, hpart⟩ := h
  have hrecv := hpart.recv
  apply ProxyRelay.wp_sendBody hf
  · exact hmoving.faithful
  · intro r w' hk hneg
    obtain ⟨_, _, rfl⟩ := hk
    obtain ⟨_, hpipe, hwritten⟩ := Host.after_idle w r
      (.spliceOut o.pipe o.peer t.recvBytes) (Int.le_of_lt hneg)
    refine ⟨True.intro, .inl ⟨hf, n, hn, ?_, ?_, hpart.send, hpart.recv⟩⟩
    · rw [hwritten]
      exact hpart.written
    · rw [hpipe]
      exact hpart.piped
  · intro r w' hk h0 hne
    obtain ⟨⟨hfit, _⟩, _, rfl⟩ := hk
    have hle : r.ret ≤ t.recvBytes := hfit
    refine ⟨True.intro, .inl ⟨⟨hf.1, hf.2, hf.3, hf.4⟩, n + r.ret.toNat, ?_,
      hpart.splice _ h0 rfl rfl⟩⟩
    omega
  · intro r w' hk h0 hfin
    obtain ⟨_, _, rfl⟩ := hk
    have hall : n + r.ret.toNat = o.body.length := by omega
    refine ⟨True.intro, .inr ⟨⟨hf.1, hf.2, hf.3, rfl⟩, ?_⟩⟩
    rw [← hall]
    exact hpart.splice _ h0 rfl hfin.symm

/-- Between two calls of `proxy_send_data`. -/
def Settled (o : Outgoing) (w : Host) (t : Transc) : Prop :=
  Complete o w t ∨ Moving o w t ∨ Gone o w t

theorem Settled.faithful (h : Settled o w t) : Faithful o w t := by
  rcases h with h | h | h
  · exact h.faithful
  · exact h.faithful
  · exact h.faithful

theorem Settled.wp_proxySendData (h : Settled o w t) :
    wp (blind (leavingKernel o [20])) (CallFaithful o)
      (fun w' t' _ => True ∧ Settled o w' t') (proxySendData (some o.pipe) o.peer t) w :=
  wp_proxySendData_walk True.intro True.intro (fun h => h.flags) (fun h => h.1)
    (fun h => h.1) Complete.wp_sendHeader Moving.wp_sendBody h

/-- In one piece the header leaves as it is, and the counters stay right. -/
theorem headerSendLaw_whole (h : Complete o w t) : HeaderSendLaw o [20] w t := by
  intro c hr
  have hshows : c.Shows (CallFaithful o) (fun w' t' _ => True ∧ Settled o w' t') := by
    apply shows_of_wp
    refine wp_reach (fun _ w s a _ hq => hq.2.wp_proxySendData) hr ?_
    exact ⟨True.intro, .inl h⟩
  obtain ⟨w, n⟩ := c
  cases n with
  | done s a => exact ⟨rfl, hshows.2.faithful⟩
  | call s op k => exact ⟨rfl, hshows⟩
  | fault s => exact hshows.elim

end Whole

/-! ## More than one piece -/

section Pieces

variable {o : Outgoing} {ks : List Nat} {w : Host} {t : Transc}

/-- `d` bytes were written of the header, in pieces that did not complete it. -/
structure Pending (o : Outgoing) (d : Nat) (w : Host) (t : Transc) : Prop where
  flags : t.Flags 1 1 0 0
  recv : t.recvBytes = 20 + o.body.length
  send : t.sendBytes = d
  piped : w.piped o.pipe = o.body
  written : (w.written o.peer).length = o.out.length + d

/-- The kernel that takes the header in these pieces, on its answers that take
the next piece. -/
def takingKernel (o : Outgoing) (ks : List Nat) (w : Host) (op : SysCall) (r : Answer)
    (w' : Host) : Prop :=
  leavingKernel o ks w op r w' ∧
    match op with
    | .write _ _ _ _ => 0 < r.ret
    | _ => False

/-- The piece of `k` bytes behind the first `d` is offered; once it has
completed the header, the body is offered with `recv_bytes` still counting
those `d`. -/
def Offers (o : Outgoing) (d k : Nat) (w : Host) (t : Transc) (op : SysCall) : Prop :=
  match op with
  | .write fd area _ count => fd = o.peer ∧ area = .hdr ∧ count = 20 - d ∧
      (w.written fd).length = o.out.length + d
  | .spliceOut _ _ _ => d + k = 20 ∧ t.isSendHeader = 1 ∧
      t.recvBytes = o.body.length + d ∧ w.piped o.pipe = o.body
  | _ => False

theorem exists_taken {d k : Nat} (hk : next ks d = some k) (hpos : 0 < k)
    (hle : d + k ≤ 20) {op : SysCall} (h : Offers o d k w t op) :
    (∃ pipe fd n, op = .spliceOut pipe fd n ∧ Offers o d k w t op) ∨
      ∃ r w', takingKernel o ks w op r w' := by
  cases op with
  | write fd area buf count =>
      obtain ⟨rfl, rfl, rfl, hwritten⟩ := h
      have hd : (w.written o.peer).length - o.out.length = d := by omega
      refine .inr ⟨.count k, _, ⟨⟨?_, True.intro⟩, .inr ⟨?_, ?_⟩, rfl⟩, ?_⟩
      · show (k : Int) ≤ 20 - d
        omega
      · exact Int.natCast_nonneg k
      · rw [hd]
        exact hk
      · show (0 : Int) < k
        omega
  | spliceOut pipe fd n => exact .inl ⟨pipe, fd, n, rfl, h⟩
  | _ => exact h.elim

/-- One call of `proxy_send_data` on the next piece. -/
theorem Pending.wp_proxySendData {d k : Nat} (h : Pending o d w t)
    (hk : next ks d = some k) (hpos : 0 < k) (hle : d + k ≤ 20) :
    wp (blind (takingKernel o ks)) (Offers o d k)
      (fun w' t' _ => d + k < 20 ∧ Pending o (d + k) w' t')
      (proxySendData (some o.pipe) o.peer t) w := by
  have hsend := h.send
  have hwritten := h.written
  have hpeer := o.peer_nonneg
  have hret : ∀ {b r w'}, takingKernel o ks w
      (.write o.peer .hdr b (20 - t.sendBytes)) r w' → r.ret = k := by
    intro b r w' hr
    obtain ⟨⟨_, hpol, _⟩, hpos⟩ := hr
    have hd : (w.written o.peer).length - o.out.length = d := by omega
    exact ret_of_due hpol (by rw [hd, hk]) hpos
  have hlength : ∀ {b : Buf 20} {r : Answer}, r.ret = k →
      ((w.after (.write o.peer .hdr b.bytes (20 - t.sendBytes)) r).written
        o.peer).length = o.out.length + (d + k) := by
    intro b r hr
    rw [Host.after_write_length _ _ hr (by rw [b.size]; omega)]
    omega
  simp only [proxySendData, wp_bind, wp_state, wp_ite]
  refine ⟨fun hneg => absurd hneg (by omega), fun _ => ⟨fun _ => ?_, fun hne => ?_⟩⟩
  · apply TranscHeader.wp_sendHeader (fun _ _ _ _ _ hr => hostKernel_fits _ _ _ _ hr.1)
    · omega
    · omega
    · intro b _
      exact ⟨rfl, rfl, by omega, hwritten⟩
    · intro b r w' _ hr hle
      have hpos : 0 < r.ret := hr.2
      omega
    · intro b r w' _ hr _ hlt
      have hrk := hret hr
      obtain ⟨⟨_, _, rfl⟩, _⟩ := hr
      have hidle : ¬ (t.isSendHeader = 1 ∧ t.isSendBody = 0) := by
        rw [h.flags.sendHeader]
        omega
      simp only [sendBody, wp_bind, wp_state, wp_ite, wp_pure]
      refine ⟨fun hc => absurd hc hidle, fun _ => ⟨by omega,
        ⟨h.flags.1, h.flags.2, h.flags.3, h.flags.4⟩, h.recv, ?_, h.piped, hlength hrk⟩⟩
      show t.sendBytes + r.ret = ((d + k : Nat) : Int)
      omega
    · intro b r w' _ hr _ hfull
      have hrk := hret hr
      have hrecv := h.recv
      obtain ⟨⟨_, _, rfl⟩, _⟩ := hr
      simp only [sendBody, wp_bind, wp_state, wp_ite, wp_prog_call]
      refine ⟨fun _ => ⟨⟨by omega, rfl, ?_, h.piped⟩, fun r w' hr => hr.2.elim⟩,
        fun hne => ?_⟩
      · show t.recvBytes - r.ret = o.body.length + d
        omega
      · exact absurd ⟨True.intro, h.flags.sendBody⟩ hne
  · exact absurd ⟨h.flags.sendHeader, h.flags.sendBody⟩ hne

/-- The next piece can be written: the header stays incomplete, or the body is
offered next. -/
theorem Pending.next {d k : Nat} (h : Pending o d w t) (hk : next ks d = some k)
    (hpos : 0 < k) (hle : d + k ≤ 20) (a : Int) :
    ∃ c, Sends o ks ⟨w, .done t a⟩ c ∧
      ((∃ s b, c.node = .done s b ∧ d + k < 20 ∧ Pending o (d + k) c.world s) ∨
        (d + k = 20 ∧ c.node.state.isSendHeader = 1 ∧
          c.node.state.recvBytes = o.body.length + d ∧ c.world.piped o.pipe = o.body)) := by
  have hrun : ∃ c, Sends o ks ⟨w, proxySendData (some o.pipe) o.peer t⟩ c ∧
      ((∃ op, c.node.waits = some op ∧ ∃ pipe fd n, op = .spliceOut pipe fd n ∧
          Offers o d k c.world c.node.state op) ∨
        ∃ s b, c.node = .done s b ∧ d + k < 20 ∧ Pending o (d + k) c.world s) :=
    exists_run_until
      (G := fun w t op =>
        ∃ pipe fd n, op = SysCall.spliceOut pipe fd n ∧ Offers o d k w t op)
      (h.wp_proxySendData hk hpos hle) (fun _ _ _ _ _ hr => hr.1)
      (fun _ _ _ hop => exists_taken hk hpos hle hop)
  obtain ⟨c, hc, hend⟩ := hrun
  refine ⟨c, .head (.start () rfl) hc, ?_⟩
  rcases hend with ⟨op, _, pipe, fd, n, rfl, hoffer⟩ | hdone
  · exact .inr hoffer
  · exact .inl hdone

/-- Every beginning of the split that is not all of it can be written. -/
theorem exists_pending (hks : Splits 20 ks) (h : Complete o w t) {pre post : List Nat}
    (hpre : ks = pre ++ post) (hlt : pre.sum < 20) :
    ∃ w' t' a, Sends o ks ⟨w, .done t normal⟩ ⟨w', .done t' a⟩ ∧
      Pending o pre.sum w' t' := by
  let Reached : Nat → Prop := fun d => d < 20 → ∃ w' t' a,
    Sends o ks ⟨w, .done t normal⟩ ⟨w', .done t' a⟩ ∧ Pending o d w' t'
  have hzero : Reached 0 := by
    intro _
    refine ⟨w, t, normal, .refl, h.flags, h.recv, h.send, h.piped, ?_⟩
    rw [h.written, Nat.add_zero]
  have hstep : ∀ {d k : Nat}, next ks d = some k → Reached d → Reached (d + k) := by
    intro d k hk ih hlt
    obtain ⟨hpos, hle⟩ := hks.next_le hk
    obtain ⟨w₁, t₁, a₁, hr₁, hpend⟩ := ih (by omega)
    obtain ⟨⟨w₂, n₂⟩, hr₂, hend⟩ := hpend.next hk hpos hle a₁
    rcases hend with ⟨s, b, hn, _, hpend₂⟩ | ⟨hfull, _⟩
    · subst hn
      exact ⟨w₂, s, b, hr₁.trans hr₂, hpend₂⟩
    · omega
  exact along hks.pos hzero hstep hpre hlt

/-- In more than one piece the count of what is left of the body is wrong when
the body phase starts. -/
theorem not_headerSendLaw (hks : Splits 20 ks) (hmany : ks ≠ [20]) (h : Complete o w t) :
    ¬ HeaderSendLaw o ks w t := by
  intro hlaw
  -- the last piece completes the header
  obtain ⟨pre, k, hsplit, hsum⟩ := hks.exists_last (by decide)
  have hkpos := (hks.piece_le hsplit).1
  have hklt := hks.lt_of_ne_single hmany (k := k) (by simp [hsplit])
  have hnext := hks.next_of_split hsplit
  obtain ⟨w₁, t₁, a₁, hr₁, hpend⟩ := exists_pending hks h hsplit (by omega)
  obtain ⟨c, hc, hend⟩ := hpend.next hnext hkpos (by omega) a₁
  rcases hend with ⟨_, _, _, hlt, _⟩ | ⟨_, hsh, hrecv, hpiped⟩
  · omega
  · obtain ⟨n, _, _, _, _, hcount, _⟩ := (hlaw c (hr₁.trans hc)).2.body hsh
    rw [hpiped] at hcount
    omega

end Pieces

/-- **Split header writes.**  For a message received completely, a way to
split the writes of its header keeps the bytes and the counters right in every
run if and only if it is no split at all. -/
theorem header_write_split_iff {o : Outgoing} {ks : List Nat} (hks : Splits 20 ks)
    {w : Host} {t : Transc} (h : Complete o w t) :
    HeaderSendLaw o ks w t ↔ ks = [20] := by
  constructor
  · intro hlaw
    by_contra hmany
    exact not_headerSendLaw hks hmany h hlaw
  · rintro rfl
    exact headerSendLaw_whole h

/-- A message of 22 bytes in the pipe of descriptors 5 and 6. -/
def sampleOutgoing : Outgoing where
  pipe := ⟨5, 6⟩
  peer := 4
  hdr := [1, 0, 0, 22, 9, 9, 9, 9, 9, 9, 9, 9, 9, 9, 9, 9, 9, 9, 9, 9]
  body := [7, 8]
  out := []
  peer_nonneg := sampleWorker.dst_nonneg
  hdr_length := rfl
  frame := by decide

/-- Its record when it has been received completely. -/
def sampleReceived : Transc where
  isRecvHeader := 1
  isRecvBody := 1
  isSendHeader := 0
  isSendBody := 0
  length := 22
  recvBytes := 22
  sendBytes := 0
  readHdrBuf := ⟨sampleOutgoing.hdr, rfl⟩
  writeHdrBuf := Buf.zeros 20

/-- The host then. -/
def samplePiped : Host :=
  { Host.fresh with piped := Function.update Host.fresh.piped ⟨5, 6⟩ [7, 8] }

theorem sampleComplete : Complete sampleOutgoing samplePiped sampleReceived where
  flags := ⟨rfl, rfl, rfl, rfl⟩
  header := rfl
  recv := rfl
  send := rfl
  piped := by decide
  written := rfl

theorem header_write_split_iff_sample :
    HeaderSendLaw sampleOutgoing [20] samplePiped sampleReceived :=
  (header_write_split_iff (by decide) sampleComplete).2 rfl

/-- Seven bytes and then thirteen: the body phase starts with 9 bytes to move,
and there are two. -/
theorem header_write_split_miscounts :
    ¬ HeaderSendLaw sampleOutgoing [7, 13] samplePiped sampleReceived := by
  intro hlaw
  have hrun : ∃ c : SendConfig,
      Sends sampleOutgoing [7, 13] ⟨samplePiped, .done sampleReceived normal⟩ c ∧
        c.node.state.isSendHeader = 1 ∧ c.node.state.recvBytes = 9 ∧
        (c.world.piped ⟨5, 6⟩).length = 2 :=
    exists_reach_of_exec (fun w _ => hostDeliver (HeaderLeaves 0 [7, 13]) w)
      hostKernel_of_hostDeliver
      [.event (), .answer (.count 7), .event (), .answer (.count 13)]
      (fun c : SendConfig => c.node.state.isSendHeader = 1 ∧
        c.node.state.recvBytes = 9 ∧ (c.world.piped ⟨5, 6⟩).length = 2) (by decide)
  obtain ⟨c, hc, hsh, hrecv, hpiped⟩ := hrun
  obtain ⟨_, _, _, _, _, hcount, _⟩ := (hlaw c hc).2.body hsh
  have hlength : (c.world.piped sampleOutgoing.pipe).length = 2 := hpiped
  omega

end ZeroCopyProxy.Ports.ProxySendSplit
