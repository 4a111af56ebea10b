import ZeroCopyProxy.Ports.ServerBody
import ZeroCopyProxy.Verified.TwoRuns

/-!
# What is on the stack when a connection starts

`server_process_data` keeps the message under way in a local `transc` that
nothing initializes: `server_transc_clear` runs at the top of the loop, but
only when both send flags are set.  A connection starts with whatever lies on
the stack, for example with what the one before has left there.

Two runs on the same results of `epoll_wait` and of the socket are compared by
the reads they ask for and the bytes they write.  A content of the memory is
fresh if the first round clears it or if it looks like a cleared one where the
server looks before it writes; runs from fresh contents cannot be told apart.
-/

namespace ZeroCopyProxy.Ports.ServerStack

open ZeroCopyProxy.Verified.Resumption
open ZeroCopyProxy.Verified.TwoRuns
open ZeroCopyProxy.Ports.Posix
open ZeroCopyProxy.Ports.TranscHeader
open ZeroCopyProxy.Ports.ServerLoop

/-! ## Runs and what can be seen of them -/

/-- `server_process_data` on these results, when `transc` lies in memory with
this content. -/
def serverRun (serverFd fd : Int) (m : ServerTransc) (rs : List Answer) :
    List (SysCall × Option Answer) :=
  log (serverRound serverFd fd) id (.done m true) rs

/-- Every result fits the call it answers. -/
def Possible (es : List (SysCall × Option Answer)) : Prop :=
  ∀ e ∈ es, ∀ r ∈ e.2, r.Fits e.1

/-- The reads: the descriptor and the number of bytes asked for. -/
def readsOf (es : List (SysCall × Option Answer)) : List (Int × Int) :=
  es.filterMap fun e =>
    match e.1 with
    | .read fd _ count => some (fd, count)
    | _ => none

/-- The bytes a write has sent. -/
def sentBy : SysCall × Option Answer → Bytes
  | (.write _ _ buf _, some r) => buf.take r.ret.toNat
  | _ => []

/-- The bytes written. -/
def sentOf (es : List (SysCall × Option Answer)) : Bytes := es.flatMap sentBy

/-- On every sequence of results that is possible for both, the two runs ask
for the same reads and write the same bytes. -/
def SameRuns (serverFd fd : Int) (m m' : ServerTransc) : Prop :=
  ∀ rs, Possible (serverRun serverFd fd m rs) → Possible (serverRun serverFd fd m' rs) →
    readsOf (serverRun serverFd fd m rs) = readsOf (serverRun serverFd fd m' rs) ∧
      sentOf (serverRun serverFd fd m rs) = sentOf (serverRun serverFd fd m' rs)

/-- The record behind the test at the top of the loop. -/
def afterClear (t : ServerTransc) : ServerTransc :=
  if t.isSendHeader = 1 ∧ t.isSendBody = 1 then serverCleared else t

/-- No message is under way, and `write_body_buf` is zero behind its first
byte. -/
structure Idle (t : ServerTransc) : Prop where
  flags : t.Flags 0 0 0 0
  recvBytes : t.recvBytes = 0
  sendBytes : t.sendBytes = 0
  rest : t.writeBodyBuf.bytes.drop 1 = List.replicate 1023 0

/-- The first round clears the record, or it looks cleared. -/
def Fresh (t : ServerTransc) : Prop :=
  (t.isSendHeader = 1 ∧ t.isSendBody = 1) ∨ Idle t

theorem idle_serverCleared : Idle serverCleared where
  flags := ⟨rfl, rfl, rfl, rfl⟩
  recvBytes := rfl
  sendBytes := rfl
  rest := by
    show (List.replicate 1024 (0 : UInt8)).drop 1 = List.replicate 1023 0
    rw [List.drop_replicate]

theorem Fresh.idle {t : ServerTransc} (h : Fresh t) : Idle (afterClear t) := by
  unfold afterClear
  by_cases hc : t.isSendHeader = 1 ∧ t.isSendBody = 1
  · rw [if_pos hc]
    exact idle_serverCleared
  · rw [if_neg hc]
    exact h.resolve_left hc

/-! ## Records that the server cannot tell apart -/

/-- What the server always looks at. -/
structure SameCounters (t t' : ServerTransc) : Prop where
  recvHeader : t'.isRecvHeader = t.isRecvHeader
  recvBody : t'.isRecvBody = t.isRecvBody
  sendHeader : t'.isSendHeader = t.isSendHeader
  sendBody : t'.isSendBody = t.isSendBody
  recvBytes : t'.recvBytes = t.recvBytes
  sendBytes : t'.sendBytes = t.sendBytes
  rest : t'.writeBodyBuf.bytes.drop 1 = t.writeBodyBuf.bytes.drop 1

/-- How much of the body has been received. -/
def bodyKnown (t : ServerTransc) : Nat :=
  if t.isRecvBody = 1 then (t.length - 20).toNat else (t.recvBytes - 20).toNat

/-- Two records that wait for a header. -/
structure Waiting (t t' : ServerTransc) : Prop extends SameCounters t t' where
  noHeader : t.isRecvHeader = 0
  noBody : t.isRecvBody = 0
  notSent : t.isSendHeader = 0

/-- Two records with the same message, as far as it has been received. -/
structure UnderWay (t t' : ServerTransc) : Prop extends SameCounters t t' where
  hasHeader : t.isRecvHeader = 1
  length : t'.length = t.length
  hdr : t'.readHdrBuf = t.readHdrBuf
  hasBody : 20 < t.length
  whole : t.isSendHeader = 1 → t.isRecvBody = 1
  body : t'.readBodyBuf.bytes.take (bodyKnown t) = t.readBodyBuf.bytes.take (bodyKnown t)

/-- The server cannot tell them apart. -/
def Alike (t t' : ServerTransc) : Prop := Waiting t t' ∨ UnderWay t t'

theorem Alike.counters {t t' : ServerTransc} (h : Alike t t') : SameCounters t t' :=
  h.elim Waiting.toSameCounters UnderWay.toSameCounters

/-! ## Receiving -/

section Calls

variable {S : Type} {Q : S → Answer → S → Answer → Prop} {fd count count' : Int} {area : Area}
  {s s' : S}

theorem lockstep_sysRead (hcount : count' = count) (hQ : ∀ r, Q s r s' r) :
    lockstep Q (sysRead fd area count s) (sysRead fd area count' s') := by
  subst hcount
  unfold sysRead
  rw [lockstep_call_bind]
  exact ⟨rfl, fun r => lockstep_ite Iff.rfl (fun _ _ => hQ r) fun _ _ => True.intro⟩

theorem lockstep_sysWrite {buf buf' : Bytes} (hbuf : buf' = buf) (hcount : count' = count)
    (hQ : ∀ r, Q s r s' r) :
    lockstep Q (sysWrite fd area buf count s) (sysWrite fd area buf' count' s') := by
  subst hbuf hcount
  unfold sysWrite
  rw [lockstep_call_bind]
  exact ⟨rfl, fun r => lockstep_ite Iff.rfl (fun _ _ => hQ r) fun _ _ => True.intro⟩

end Calls

/-- Both functions return the same, and leave records that are alike. -/
def SameEnd {α : Type} (R : α → ServerTransc → ServerTransc → Prop) (s : ServerTransc) (a : α)
    (s' : ServerTransc) (a' : α) : Prop :=
  a = a' ∧ R a s s'

section Lockstep

variable {t t' : ServerTransc} {fd : Int}

/-- Where the header phase of the receiver leaves two records. -/
def HeaderEnds : Option Int → ServerTransc → ServerTransc → Prop
  | some _ => Waiting
  | none => UnderWay

/-- A header phase that has ended without a header. -/
theorem Waiting.moved (h : Waiting t t') (hdr hdr' : Buf 20) (len len' : Int)
    {bytes bytes' : Int} (hbytes : bytes' = bytes) :
    Waiting { t with readHdrBuf := hdr, length := len, recvBytes := bytes }
      { t' with readHdrBuf := hdr', length := len', recvBytes := bytes' } where
  recvHeader := h.recvHeader
  recvBody := h.recvBody
  sendHeader := h.sendHeader
  sendBody := h.sendBody
  recvBytes := hbytes
  sendBytes := h.sendBytes
  rest := h.rest
  noHeader := h.noHeader
  noBody := h.noBody
  notSent := h.notSent

/-- A header has been accepted. -/
theorem Waiting.accepted (h : Waiting t t') (hdr : Buf 20) {len len' bytes : Int}
    (hbytes : bytes = 20) (hsame : len' = len) (hlen : 20 < len) :
    UnderWay { t with readHdrBuf := hdr, length := len, recvBytes := bytes, isRecvHeader := 1 }
      { t' with readHdrBuf := hdr, length := len', recvBytes := bytes, isRecvHeader := 1 } where
  recvHeader := rfl
  recvBody := h.recvBody
  sendHeader := h.sendHeader
  sendBody := h.sendBody
  recvBytes := rfl
  sendBytes := h.sendBytes
  rest := h.rest
  hasHeader := rfl
  length := hsame
  hdr := rfl
  hasBody := hlen
  whole := by
    intro hsent
    exact absurd (h.notSent.symm.trans hsent) (by decide)
  body := by
    have hknown : bodyKnown
        { t with readHdrBuf := hdr, length := len, recvBytes := bytes, isRecvHeader := 1 } = 0 := by
      have hbody : ¬ t.isRecvBody = 1 := by
        rw [h.noBody]
        decide
      rw [bodyKnown, if_neg hbody, hbytes]
      rfl
    rw [hknown, List.take_zero, List.take_zero]

theorem msgLength_congr {u u' : Transc} (h : u.readHdrBuf = u'.readHdrBuf) :
    serverTranscGetMsgLength u = serverTranscGetMsgLength u' := by
  unfold serverTranscGetMsgLength
  rw [h]

theorem Waiting.lockstep_recvHeader (h : Waiting t t') :
    lockstep (SameEnd HeaderEnds) (onTransc (recvHeader serverTranscGetMsgLength fd) t)
      (onTransc (recvHeader serverTranscGetMsgLength fd) t') := by
  have hbytes := h.recvBytes
  -- of the length only this matters here
  have hlen : ∀ u u' : Transc, u.readHdrBuf = u'.readHdrBuf →
      serverTranscGetMsgLength u = serverTranscGetMsgLength u' := fun u u' => msgLength_congr
  generalize serverTranscGetMsgLength = msgLength at hlen ⊢
  unfold onTransc
  rw [lockstep_zoom]
  unfold recvHeader
  rw [lockstep_update_bind, lockstep_state_bind]
  apply lockstep_bind
  apply lockstep_sysRead (by rw [hbytes])
  intro r
  apply lockstep_ite Iff.rfl
  · intro _ _
    exact ⟨rfl, h.moved _ _ _ _ hbytes⟩
  intro _ _
  apply lockstep_ite Iff.rfl
  · intro _ _
    exact ⟨rfl, h.moved _ _ _ _ hbytes⟩
  intro _ _
  apply lockstep_bind
  apply lockstep_orFault
  rw [hbytes]
  cases hcopy : (Buf.zeros 20).memcpy t.recvBytes r.data 0 r.ret with
  | none => exact .inl ⟨rfl, rfl⟩
  | some b =>
      refine .inr ⟨b, b, rfl, rfl, ?_⟩
      rw [lockstep_update_bind, lockstep_state_bind]
      apply lockstep_ite Iff.rfl
      · intro hfull _
        have hlen := hlen
          { t.toTransc with readHdrBuf := b, recvBytes := t.recvBytes + r.ret }
          { t'.toTransc with readHdrBuf := b, recvBytes := t.recvBytes + r.ret } rfl
        rw [lockstep_update_bind, lockstep_state_bind]
        simp only [hlen]
        generalize toInt (msgLength _) = len
        apply lockstep_ite Iff.rfl
        · intro _ _
          exact ⟨rfl, h.moved _ _ _ _ rfl⟩
        intro hlong _
        apply lockstep_ite Iff.rfl
        · intro _ _
          have hpos : 0 < len - 20 := Int.not_le.1 hlong
          have hlong' : 20 < len := by omega
          exact ⟨rfl, h.accepted b hfull rfl hlong'⟩
        · intro _ _
          exact ⟨rfl, h.moved _ _ _ _ rfl⟩
      · intro _ _
        exact ⟨rfl, h.moved _ _ _ _ rfl⟩

end Lockstep

/-! ## Copies into records that are alike -/

/-- A copy leaves the array only where the other one does. -/
theorem memcpy_both {n : Nat} (b b' : Buf n) {src src' : Bytes} {d s k : Int}
    (hlen : src'.length = src.length)
    (hsrc : (src'.drop s.toNat).take k.toNat = (src.drop s.toNat).take k.toNat) :
    (b.memcpy d src s k = none ∧ b'.memcpy d src' s k = none) ∨
      ∃ c c' x, b.memcpy d src s k = some c ∧ b'.memcpy d src' s k = some c' ∧
        (0 ≤ d ∧ (x.length : Int) = k ∧ d + k ≤ n) ∧
        c.bytes = b.bytes.take d.toNat ++ x ++ b.bytes.drop (d + k).toNat ∧
        c'.bytes = b'.bytes.take d.toNat ++ x ++ b'.bytes.drop (d + k).toNat := by
  unfold Buf.memcpy
  by_cases hbounds : 0 ≤ k ∧ 0 ≤ d ∧ d + k ≤ n ∧ 0 ≤ s ∧ s + k ≤ src.length
  · have hbounds' : 0 ≤ k ∧ 0 ≤ d ∧ d + k ≤ n ∧ 0 ≤ s ∧ s + k ≤ src'.length := by
      rw [hlen]
      exact hbounds
    rw [dif_pos hbounds, dif_pos hbounds']
    refine .inr ⟨_, _, (src.drop s.toNat).take k.toNat, rfl, rfl, ⟨hbounds.2.1, ?_,
      hbounds.2.2.1⟩, rfl, ?_⟩
    · rw [List.length_take, List.length_drop]
      omega
    · simp only [hsrc]
  · have hbounds' : ¬ (0 ≤ k ∧ 0 ≤ d ∧ d + k ≤ n ∧ 0 ≤ s ∧ s + k ≤ src'.length) := by
      rw [hlen]
      exact hbounds
    rw [dif_neg hbounds, dif_neg hbounds']
    exact .inl ⟨rfl, rfl⟩

/-- Arrays with the same beginning have it after the same bytes are put
behind it. -/
theorem take_placed {b b' x : Bytes} {d : Nat} (hb : d ≤ b.length) (hb' : d ≤ b'.length)
    (h : b'.take d = b.take d) (tail tail' : Bytes) :
    (b'.take d ++ x ++ tail').take (d + x.length) =
      (b.take d ++ x ++ tail).take (d + x.length) := by
  have hfront : ∀ {b tail : Bytes}, d ≤ b.length →
      (b.take d ++ x ++ tail).take (d + x.length) = b.take d ++ x := by
    intro b tail hb
    have hlen : (b.take d ++ x).length = d + x.length := by
      rw [List.length_append, List.length_take, Nat.min_eq_left hb]
    rw [← hlen, List.take_left]
  rw [hfront hb, hfront hb', h]

section Lockstep

variable {t t' : ServerTransc} {fd : Int}

/-- A part of the body has arrived. -/
theorem UnderWay.received (h : UnderWay t t') {b b' : Buf 1024} {bytes bytes' rb rb' : Int}
    (hpart : ¬ t.isRecvBody = 1) (hbytes : bytes' = bytes) (hrb : rb' = rb)
    (hfull : rb = 1 → bytes = t.length)
    (hbody : b'.bytes.take (bytes - 20).toNat = b.bytes.take (bytes - 20).toNat) :
    UnderWay { t with readBodyBuf := b, recvBytes := bytes, isRecvBody := rb }
      { t' with readBodyBuf := b', recvBytes := bytes', isRecvBody := rb' } where
  recvHeader := h.recvHeader
  recvBody := hrb
  sendHeader := h.sendHeader
  sendBody := h.sendBody
  recvBytes := hbytes
  sendBytes := h.sendBytes
  rest := h.rest
  hasHeader := h.hasHeader
  length := h.length
  hdr := h.hdr
  hasBody := h.hasBody
  whole hsent := absurd (h.whole hsent) hpart
  body := by
    have hknown : bodyKnown { t with readBodyBuf := b, recvBytes := bytes, isRecvBody := rb } =
        (bytes - 20).toNat := by
      unfold bodyKnown
      by_cases hone : rb = 1
      · rw [if_pos hone, hfull hone]
      · rw [if_neg hone]
    rw [hknown]
    exact hbody

theorem UnderWay.lockstep_recvBody (h : UnderWay t t') :
    lockstep (SameEnd fun _ => UnderWay) (serverRecvBody fd t) (serverRecvBody fd t') := by
  have hbytes := h.recvBytes
  have hlength := h.length
  unfold serverRecvBody
  rw [lockstep_state_bind]
  apply lockstep_ite (by rw [h.recvHeader, h.recvBody])
  · intro hflags _
    have hrb : ¬ t.isRecvBody = 1 := by
      rw [hflags.2]
      decide
    apply lockstep_bind
    apply lockstep_sysRead (by rw [hbytes, hlength])
    intro r
    apply lockstep_ite Iff.rfl
    · exact fun _ _ => ⟨rfl, h⟩
    intro _ _
    apply lockstep_ite Iff.rfl
    · exact fun _ _ => ⟨rfl, h⟩
    intro _ _
    apply lockstep_bind
    apply lockstep_orFault
    rw [hbytes]
    rcases memcpy_both t.readBodyBuf t'.readBodyBuf (rfl : r.data.length = r.data.length)
      (rfl : (r.data.drop (0 : Int).toNat).take r.ret.toNat = _) with hnone | hsome
    · exact .inl hnone
    obtain ⟨c, c', x, hc, hc', ⟨hd, hx, hn⟩, hcbytes, hcbytes'⟩ := hsome
    refine .inr ⟨c, c', hc, hc', ?_⟩
    have hbody : c'.bytes.take (t.recvBytes + r.ret - 20).toNat =
        c.bytes.take (t.recvBytes + r.ret - 20).toNat := by
      have hend : (t.recvBytes + r.ret - 20).toNat = (t.recvBytes - 20).toNat + x.length := by
        omega
      have hknown := h.body
      rw [bodyKnown, if_neg hrb] at hknown
      rw [hcbytes, hcbytes', hend]
      apply take_placed _ _ hknown
      · rw [t.readBodyBuf.size]
        omega
      · rw [t'.readBodyBuf.size]
        omega
    rw [lockstep_update_bind, lockstep_state_bind]
    have hsum : t'.recvBytes + r.ret = t.recvBytes + r.ret := by rw [hbytes]
    apply lockstep_ite (by simp only [hbytes, hlength])
    · intro hfull _
      rw [lockstep_update_bind]
      exact ⟨rfl, h.received hrb hsum rfl (fun _ => hfull) hbody⟩
    · intro _ _
      exact ⟨rfl, h.received hrb hsum h.recvBody (fun hone => absurd hone hrb) hbody⟩
  · exact fun _ _ => ⟨rfl, h⟩

theorem Alike.lockstep_recvData (h : Alike t t') :
    lockstep (SameEnd fun _ => Alike) (serverRecvData fd t) (serverRecvData fd t') := by
  have hbody : ∀ {s s'}, UnderWay s s' →
      lockstep (SameEnd fun _ => Alike) (serverRecvBody fd s) (serverRecvBody fd s') := by
    intro s s' hs
    exact lockstep_post (fun _ _ _ _ hend => ⟨hend.1, .inr hend.2⟩) hs.lockstep_recvBody
  have hflags := h.counters
  unfold serverRecvData
  rw [lockstep_state_bind]
  apply lockstep_ite (by rw [hflags.recvHeader, hflags.recvBody])
  · intro hidle _
    rcases h with h | h
    · apply lockstep_bind
      refine lockstep_post ?_ h.lockstep_recvHeader
      intro s a s' a' hend
      obtain ⟨rfl, hend⟩ := hend
      cases a with
      | some rv => exact ⟨rfl, .inl hend⟩
      | none => exact hbody hend
    · exact absurd (h.hasHeader.symm.trans hidle.1) (by decide)
  · intro hbusy _
    apply lockstep_ite (by rw [hflags.recvHeader, hflags.recvBody])
    · exact fun _ _ => ⟨rfl, h⟩
    · intro _ _
      rcases h with h | h
      · exact absurd ⟨h.noHeader, h.noBody⟩ hbusy
      · exact hbody h

theorem Alike.lockstep_receive (h : Alike t t') :
    lockstep (SameEnd fun _ => Alike) (serverReceive fd t) (serverReceive fd t') := by
  unfold serverReceive
  apply lockstep_bind
  refine lockstep_post ?_ h.lockstep_recvData
  intro s a s' a' hend
  obtain ⟨rfl, hend⟩ := hend
  apply lockstep_ite Iff.rfl
  · intro _ _
    rw [lockstep_call_bind]
    exact ⟨rfl, fun _ => ⟨rfl, hend⟩⟩
  · exact fun _ _ => ⟨rfl, hend⟩

end Lockstep

/-! ## Sending -/

/-- Two records with the same message, received completely. -/
def Complete (t t' : ServerTransc) : Prop := UnderWay t t' ∧ t.isRecvBody = 1

section Lockstep

variable {t t' : ServerTransc} {fd : Int}

theorem Complete.known (h : Complete t t') :
    t'.readBodyBuf.bytes.take (t.length - 20).toNat =
      t.readBodyBuf.bytes.take (t.length - 20).toNat := by
  have hbody := h.1.body
  rwa [bodyKnown, if_pos h.2] at hbody

/-- What the senders do to a record: the arrays they write from, the counters
and their flags. -/
theorem Complete.sent (h : Complete t t') {whdr whdr' : Buf 20} {b b' : Buf 1024}
    {recv recv' send send' sh sh' sb sb' : Int} (hrest : b'.bytes.drop 1 = b.bytes.drop 1)
    (hrecv : recv' = recv) (hsend : send' = send) (hsh : sh' = sh) (hsb : sb' = sb) :
    Complete
      { t with
        writeHdrBuf := whdr, writeBodyBuf := b, recvBytes := recv, sendBytes := send,
        isSendHeader := sh, isSendBody := sb }
      { t' with
        writeHdrBuf := whdr', writeBodyBuf := b', recvBytes := recv', sendBytes := send',
        isSendHeader := sh', isSendBody := sb' } := by
  refine ⟨?_, h.2⟩
  constructor
  case toSameCounters =>
    exact ⟨h.1.recvHeader, h.1.recvBody, hsh, hsb, hrecv, hsend, hrest⟩
  case hasHeader => exact h.1.hasHeader
  case length => exact h.1.length
  case hdr => exact h.1.hdr
  case hasBody => exact h.1.hasBody
  case whole => exact fun _ => h.2
  case body =>
    have hknown := h.known
    rw [bodyKnown, if_pos h.2]
    exact hknown

/-- Where the function that builds `write_hdr_buf` leaves two records. -/
def HeaderReady (a : Option Int) (s s' : ServerTransc) : Prop :=
  Complete s s' ∧ (a = none → s'.writeHdrBuf = s.writeHdrBuf)

theorem Complete.lockstep_prepareHeader (h : Complete t t') :
    lockstep (SameEnd HeaderReady) (onTransc prepareHeader t) (onTransc prepareHeader t') := by
  have hsend := h.1.sendBytes
  have hrest := h.1.rest
  have hhdr := h.1.hdr
  have hsent : ∀ (b b' : Buf 20),
      Complete { t with writeHdrBuf := b } { t' with writeHdrBuf := b' } :=
    fun b b' => h.sent hrest h.1.recvBytes hsend h.1.sendHeader h.1.sendBody
  unfold onTransc
  rw [lockstep_zoom]
  unfold prepareHeader
  rw [lockstep_state_bind]
  apply lockstep_ite (by rw [hsend])
  · intro _ _
    rw [lockstep_update_bind, lockstep_state_bind]
    apply lockstep_ite (by rw [hsend])
    · intro _ _
      apply lockstep_bind
      apply lockstep_orFault_same (by rw [hhdr])
      intro b _
      rw [lockstep_update_bind]
      exact ⟨rfl, hsent b b, fun _ => rfl⟩
    · intro _ _
      apply lockstep_ite (by rw [hsend])
      · intro _ _
        apply lockstep_bind
        apply lockstep_orFault_same (by rw [hhdr, hsend])
        intro b _
        rw [lockstep_update_bind]
        exact ⟨rfl, hsent b b, fun _ => rfl⟩
      · intro _ _
        exact ⟨rfl, hsent _ _, fun hnone => (Option.some_ne_none _ hnone).elim⟩
  · intro _ _
    exact ⟨rfl, h, fun hnone => (Option.some_ne_none _ hnone).elim⟩

theorem Complete.lockstep_sendHeader (h : Complete t t') :
    lockstep (SameEnd fun _ => Complete) (onTransc (sendHeader fd) t)
      (onTransc (sendHeader fd) t') := by
  have hprepare := h.lockstep_prepareHeader
  unfold onTransc at hprepare ⊢
  rw [lockstep_zoom] at hprepare ⊢
  unfold sendHeader
  apply lockstep_bind
  refine lockstep_post ?_ hprepare
  intro s a s' a' hend
  obtain ⟨rfl, hs, hwrite⟩ := hend
  cases a with
  | some rv => exact ⟨rfl, hs⟩
  | none =>
      have hsend := hs.1.sendBytes
      have hrecv := hs.1.recvBytes
      dsimp only at hsend hrecv
      simp only
      unfold writeHeader
      rw [lockstep_state_bind]
      apply lockstep_bind
      apply lockstep_sysWrite
      · exact congrArg Buf.bytes (hwrite rfl)
      · rw [hsend]
      intro r
      apply lockstep_ite Iff.rfl
      · exact fun _ _ => ⟨rfl, hs⟩
      intro _ _
      rw [lockstep_update_bind, lockstep_state_bind]
      apply lockstep_ite (by simp only [hsend])
      · intro _ _
        rw [lockstep_update_bind]
        exact ⟨rfl, hs.sent hs.1.rest (congrArg (· - r.ret) hrecv) (congrArg (· + r.ret) hsend)
          rfl hs.1.sendBody⟩
      · intro _ _
        exact ⟨rfl, hs.sent hs.1.rest hrecv (congrArg (· + r.ret) hsend) hs.1.sendHeader
          hs.1.sendBody⟩

end Lockstep

/-! ## Sending the body -/

/-- Clearing at least the first byte makes the arrays equal. -/
theorem memset_congr {n : Nat} {b b' : Buf n} {k : Int} (hk : 0 < k)
    (h : b'.bytes.drop 1 = b.bytes.drop 1) : b'.memset k = b.memset k := by
  have hdrop : b'.bytes.drop k.toNat = b.bytes.drop k.toNat := by
    have hsplit : k.toNat = 1 + (k.toNat - 1) := by omega
    rw [hsplit, ← List.drop_drop, ← List.drop_drop, h]
  unfold Buf.memset
  split
  · simp only [hdrop]
  · rfl

/-- A copy depends only on what it copies. -/
theorem memcpy_congr {n : Nat} (b : Buf n) {src src' : Bytes} {d s k : Int}
    (hlen : src'.length = src.length)
    (hsrc : (src'.drop s.toNat).take k.toNat = (src.drop s.toNat).take k.toNat) :
    b.memcpy d src' s k = b.memcpy d src s k := by
  rcases memcpy_both b b hlen hsrc with ⟨hnone, hnone'⟩ | ⟨c, c', x, hc, hc', -, hbytes, hbytes'⟩
  · rw [hnone, hnone']
  · have hsame : c' = c := by
      obtain ⟨bytes, size⟩ := c
      obtain ⟨bytes', size'⟩ := c'
      obtain rfl : bytes' = bytes := hbytes'.trans hbytes.symm
      rfl
    rw [hc, hc', hsame]

theorem take_drop_of_take {l l' : Bytes} {n s k : Nat} (h : l'.take n = l.take n)
    (hle : s + k ≤ n) : (l'.drop s).take k = (l.drop s).take k := by
  have hshort : ∀ {l : Bytes}, (l.drop s).take k = ((l.take n).take (s + k)).drop s := by
    intro l
    rw [List.take_take, Nat.min_eq_left hle, List.take_drop]
  rw [hshort, hshort, h]

/-- Where the function that builds `write_body_buf` leaves two records. -/
def BodyReady (a : Option Int) (s s' : ServerTransc) : Prop :=
  Complete s s' ∧ (a = none → s'.writeBodyBuf = s.writeBodyBuf)

section Lockstep

variable {t t' : ServerTransc} {fd : Int}

theorem Complete.lockstep_prepareBody (h : Complete t t') :
    lockstep (SameEnd BodyReady) (prepareBody t) (prepareBody t') := by
  have hsend := h.1.sendBytes
  have hlength := h.1.length
  have hlong := h.1.hasBody
  have hsize : t'.readBodyBuf.bytes.length = t.readBodyBuf.bytes.length := by
    rw [t.readBodyBuf.size, t'.readBodyBuf.size]
  have hbuilt : ∀ b : Buf 1024,
      Complete { t with writeBodyBuf := b } { t' with writeBodyBuf := b } :=
    fun b => h.sent rfl h.1.recvBytes hsend h.1.sendHeader h.1.sendBody
  unfold prepareBody
  rw [lockstep_state_bind]
  apply lockstep_ite (by rw [hsend, hlength])
  · intro _ _
    apply lockstep_bind
    apply lockstep_orFault_same
    · rw [hlength]
      exact memset_congr (by omega) h.1.rest
    intro m _
    rw [lockstep_update_bind, lockstep_state_bind]
    apply lockstep_ite (by rw [hsend])
    · intro _ _
      apply lockstep_bind
      apply lockstep_orFault_same
      · rw [hlength]
        exact memcpy_congr m hsize (take_drop_of_take h.known (by simp))
      intro b _
      rw [lockstep_update_bind]
      exact ⟨rfl, hbuilt b, fun _ => rfl⟩
    · intro _ _
      apply lockstep_ite (by rw [hsend])
      · intro hmore _
        apply lockstep_bind
        apply lockstep_orFault_same
        · simp only [hlength, hsend]
          refine memcpy_congr m hsize (take_drop_of_take h.known ?_)
          dsimp only at hmore
          omega
        intro b _
        rw [lockstep_update_bind]
        exact ⟨rfl, hbuilt b, fun _ => rfl⟩
      · intro _ _
        exact ⟨rfl, hbuilt m, fun hnone => (Option.some_ne_none _ hnone).elim⟩
  · intro _ _
    exact ⟨rfl, h, fun hnone => (Option.some_ne_none _ hnone).elim⟩

theorem Complete.lockstep_sendBody (h : Complete t t') :
    lockstep (SameEnd fun _ => Complete) (serverSendBody fd t) (serverSendBody fd t') := by
  unfold serverSendBody
  rw [lockstep_state_bind]
  apply lockstep_ite (by rw [h.1.sendHeader, h.1.sendBody])
  · intro _ _
    apply lockstep_bind
    refine lockstep_post ?_ h.lockstep_prepareBody
    intro s a s' a' hend
    obtain ⟨rfl, hs, hwrite⟩ := hend
    cases a with
    | some rv => exact ⟨rfl, hs⟩
    | none =>
        have hsend := hs.1.sendBytes
        have hrecv := hs.1.recvBytes
        simp only
        unfold writeBody
        rw [lockstep_state_bind]
        apply lockstep_bind
        apply lockstep_sysWrite
        · exact congrArg Buf.bytes (hwrite rfl)
        · rw [hrecv]
        intro r
        apply lockstep_ite Iff.rfl
        · exact fun _ _ => ⟨rfl, hs⟩
        intro _ _
        rw [lockstep_update_bind, lockstep_state_bind]
        apply lockstep_ite (by simp only [hrecv])
        · intro _ _
          rw [lockstep_update_bind]
          exact ⟨rfl, hs.sent hs.1.rest (congrArg (· - r.ret) hrecv)
            (congrArg (· + r.ret) hsend) hs.1.sendHeader rfl⟩
        · intro _ _
          exact ⟨rfl, hs.sent hs.1.rest (congrArg (· - r.ret) hrecv)
            (congrArg (· + r.ret) hsend) hs.1.sendHeader hs.1.sendBody⟩
  · exact fun _ _ => ⟨rfl, h⟩

theorem Complete.lockstep_send (h : Complete t t') :
    lockstep (SameEnd fun _ => Complete) (serverSend fd t) (serverSend fd t') := by
  unfold serverSend serverSendData
  apply lockstep_bind
  refine lockstep_post (fun s a s' a' hend => ⟨rfl, hend.2⟩) (Q := SameEnd fun _ => Complete) ?_
  apply lockstep_ite Iff.rfl
  · exact fun _ _ => ⟨rfl, h⟩
  intro _ _
  rw [lockstep_state_bind]
  apply lockstep_ite (by rw [h.1.sendHeader, h.1.sendBody])
  · intro _ _
    apply lockstep_bind
    refine lockstep_post ?_ h.lockstep_sendHeader
    intro s a s' a' hend
    obtain ⟨rfl, hs⟩ := hend
    cases a with
    | some rv => exact ⟨rfl, hs⟩
    | none => exact hs.lockstep_sendBody
  · intro _ _
    apply lockstep_ite (by rw [h.1.sendHeader, h.1.sendBody])
    · exact fun _ _ => ⟨rfl, h⟩
    · exact fun _ _ => h.lockstep_sendBody

end Lockstep

/-! ## Whole runs from fresh contents -/

section Lockstep

variable {t t' : ServerTransc} {serverFd fd : Int}

theorem Idle.alike (h : Idle t) (h' : Idle t') : Alike t t' := by
  refine .inl ?_
  constructor
  case toSameCounters =>
    constructor
    case recvHeader => rw [h.flags.recvHeader, h'.flags.recvHeader]
    case recvBody => rw [h.flags.recvBody, h'.flags.recvBody]
    case sendHeader => rw [h.flags.sendHeader, h'.flags.sendHeader]
    case sendBody => rw [h.flags.sendBody, h'.flags.sendBody]
    case recvBytes => rw [h.recvBytes, h'.recvBytes]
    case sendBytes => rw [h.sendBytes, h'.sendBytes]
    case rest => rw [h.rest, h'.rest]
  case noHeader => exact h.flags.recvHeader
  case noBody => exact h.flags.recvBody
  case notSent => exact h.flags.sendHeader

/-- The test at the top of the loop keeps records alike. -/
theorem Alike.clear (h : Alike t t') : Alike (afterClear t) (afterClear t') := by
  have hflags := h.counters
  unfold afterClear
  rw [hflags.sendHeader, hflags.sendBody]
  split
  · exact idle_serverCleared.alike idle_serverCleared
  · exact h

/-- One phase of an event. -/
theorem Alike.lockstep_phase {c : ServerTransc → Prop} [DecidablePred c]
    {p : Prog ServerTransc SysCall Answer Unit} (h : Alike t t') (hc : c t ↔ c t')
    (hp : c t → lockstep (SameEnd fun _ => Alike) (p t) (p t')) :
    lockstep (SameEnd fun _ => Alike) (Prog.guarded c p t) (Prog.guarded c p t') :=
  lockstep_guarded hc (fun hct _ => hp hct) fun _ _ => ⟨rfl, h⟩

/-- One phase after the other. -/
theorem lockstep_then {p q : Prog ServerTransc SysCall Answer Unit}
    (hp : lockstep (SameEnd fun _ => Alike) (p t) (p t'))
    (hq : ∀ {s s'}, Alike s s' → lockstep (SameEnd fun _ => Alike) (q s) (q s')) :
    lockstep (SameEnd fun _ => Alike) ((p >>= fun _ => q) t) ((p >>= fun _ => q) t') := by
  apply lockstep_bind
  exact lockstep_post (fun _ _ _ _ hend => hq hend.2) hp

theorem Alike.lockstep_event (h : Alike t t') :
    lockstep (SameEnd fun _ => Alike) (serverEvent fd t) (serverEvent fd t') := by
  have hsend : ∀ {s s'}, Complete s s' →
      lockstep (SameEnd fun _ => Alike) (serverSend fd s) (serverSend fd s') := by
    intro s s' hs
    exact lockstep_post (fun _ _ _ _ hend => ⟨hend.1, .inr hend.2.1⟩) hs.lockstep_send
  have hrecv : ∀ {s s'}, Alike s s' → ∀ rh rb : Int,
      (s.isRecvHeader = rh ∧ s.isRecvBody = rb ↔ s'.isRecvHeader = rh ∧ s'.isRecvBody = rb) := by
    intro s s' hs rh rb
    rw [hs.counters.recvHeader, hs.counters.recvBody]
  unfold serverEvent
  apply lockstep_then (h.lockstep_phase (hrecv h 0 0) fun _ => h.lockstep_receive)
  intro t t' h
  apply lockstep_then (h.lockstep_phase (hrecv h 1 0) fun _ => h.lockstep_receive)
  intro t t' h
  apply lockstep_then
  · apply h.lockstep_phase (hrecv h 1 1)
    intro hflags
    rcases h with h | h
    · exact absurd (h.noHeader.symm.trans hflags.1) (by decide)
    · exact hsend ⟨h, hflags.2⟩
  intro t t' h
  apply h.lockstep_phase
  · rw [h.counters.sendHeader, h.counters.sendBody]
  intro hflags
  rcases h with h | h
  · exact absurd (h.notSent.symm.trans hflags.1) (by decide)
  · exact hsend ⟨h, h.whole hflags.1⟩

theorem Alike.lockstep_events (h : Alike t t') (es : List Int) :
    lockstep (SameEnd fun _ => Alike) (serverEvents serverFd fd es t)
      (serverEvents serverFd fd es t') := by
  induction es generalizing t t' with
  | nil => exact ⟨rfl, h⟩
  | cons e es ih =>
      unfold serverEvents
      exact lockstep_then (h.lockstep_phase Iff.rfl fun _ => h.lockstep_event) ih

theorem serverClear_eq (t : ServerTransc) :
    serverClear t = .done (afterClear t) () := by
  unfold serverClear Prog.guarded afterClear
  split
  · rfl
  · rfl

/-- The runs of one round. -/
theorem lockstep_round (h : Alike (afterClear t) (afterClear t')) :
    lockstep (SameEnd fun _ s s' => Alike (afterClear s) (afterClear s'))
      (serverRound serverFd fd t) (serverRound serverFd fd t') := by
  unfold serverRound
  rw [lockstep_call_bind]
  refine ⟨rfl, fun c => ?_⟩
  apply lockstep_ite Iff.rfl
  · exact fun _ _ => ⟨rfl, h⟩
  intro _ _
  apply lockstep_bind
  rw [serverClear_eq, serverClear_eq, lockstep_done, lockstep_call_bind]
  refine ⟨rfl, fun r => ?_⟩
  apply lockstep_ite Iff.rfl
  · exact fun _ _ => ⟨rfl, h.clear⟩
  intro _ _
  apply lockstep_ite Iff.rfl
  · exact fun _ _ => ⟨rfl, h.clear⟩
  intro _ _
  apply lockstep_bind
  refine lockstep_post ?_ (h.lockstep_events _)
  exact fun _ _ _ _ hend => ⟨rfl, hend.2.clear⟩

/-- Fresh contents lead to the same run. -/
theorem Fresh.same_run (h : Fresh t) (h' : Fresh t') (rs : List Answer) :
    serverRun serverFd fd t rs = serverRun serverFd fd t' rs := by
  have hstart : lockstep
      (SameEnd fun _ s s' => Alike (afterClear s) (afterClear s'))
      (Res.done t true : Res ServerTransc SysCall Answer Bool) (.done t' true) :=
    ⟨rfl, h.idle.alike h'.idle⟩
  refine log_of_lockstep ?_ hstart rs
  exact fun s a s' a' hend => ⟨hend.1, fun _ => lockstep_round hend.2⟩

end Lockstep

end ZeroCopyProxy.Ports.ServerStack
