import ZeroCopyProxy.Ports.JmpMessage
import ZeroCopyProxy.Ports.ProxyRelay
import ZeroCopyProxy.Ports.ServerLoop
import ZeroCopyProxy.Verified.Framing

/-!
# Where the proxy and the server cut the stream

Both receivers cut the stream by the length they decode from each header.
`headerCut` is that length as the header phase leaves it, for a header that
arrives in one piece.  The server reads the length field with the least
significant byte first, as the client writes it; the proxy is built with
`ENDIAN` 1 and reads it the other way round.

So the proxy cuts a stream of the server's frames at the same places exactly
if bytes 1 and 3 of every header are the same.  A frame of the client is
shorter than 65536 bytes, so for its frames this means a length that is a
multiple of 256.
-/

namespace ZeroCopyProxy.Ports.StreamFraming

open ZeroCopyProxy.Verified.Resumption
open ZeroCopyProxy.Verified.Framing
open ZeroCopyProxy.Ports.Posix
open ZeroCopyProxy.Ports.Frame
open ZeroCopyProxy.Ports.TranscHeader
open ZeroCopyProxy.Ports.ProxyRelay
open ZeroCopyProxy.Ports.ServerLoop
open ZeroCopyProxy.Ports.JmpMessage

/-! ## The two framings -/

/-- The length of the frame, if a receiver in its initial state accepts this
header. -/
def headerCut (m : Transc → UInt64) (hdr : Bytes) : Option Nat :=
  match recvHeader m 0 cleared with
  | .call _ _ k =>
    match k (.stored hdr) with
    | .done t none => some t.length.toNat
    | _ => none
  | _ => none

/-- The framing of `proxy_recv_data`. -/
def proxyCut : Bytes → Option Nat := headerCut fun t => transcGetMsgLength t endian

/-- The framing of `server_recv_data`. -/
def serverCut : Bytes → Option Nat := headerCut serverTranscGetMsgLength

/-- The kernel that delivers this header to the first call and answers no
other one. -/
def headerKernel (hdr : Bytes) (answered : Bool) (_ : Transc) (op : SysCall) (r : Answer)
    (answered' : Bool) : Prop :=
  answered = false ∧ answered' = true ∧ r = .stored hdr ∧ r.Fits op

/-- A receiver accepts what its byte order accepts, and reads its length. -/
theorem headerCut_eq {e : ByteOrder} {m : Transc → UInt64} (hm : Decodes e m) {hdr : Bytes}
    (hlen : hdr.length = 20) :
    headerCut m hdr = if Accepted e hdr then some (len24 e hdr) else none := by
  have hbytes : ∀ {b : Buf 20}, b.bytes = received (cleared.recvBytes).toNat
      (Answer.stored hdr).data → b.bytes = hdr := fun hb => hb.trans (received_zero hlen)
  have hret : (Answer.stored hdr).ret = 20 := congrArg Nat.cast hlen
  have hwp : wp (headerKernel hdr)
      (fun answered _ op => answered = false ∧ (Answer.stored hdr).Fits op)
      (fun _ t rv => match rv with
        | none => Accepted e hdr ∧ t.length = len24 e hdr
        | some _ => ¬ Accepted e hdr)
      (recvHeader m 0 cleared) false := by
    apply wp_recvHeader hm (fun _ _ _ _ _ hk => hk.2.2.2) (by decide) (by decide)
    · exact ⟨rfl, Int.le_of_eq hret, fun _ => rfl⟩
    · rintro r w' ⟨_, _, rfl, _⟩ hle
      omega
    · rintro r w' b len ⟨_, _, rfl, _⟩ _ _ hb hbad
      rw [hbytes hb, hret] at hbad
      exact hbad.resolve_left fun hne => hne rfl
    · rintro r w' b ⟨_, _, rfl, _⟩ _ _ hb hacc
      rw [hbytes hb] at hacc
      refine ⟨hacc, ?_⟩
      show (len24 e b.bytes : Int) = len24 e hdr
      rw [hbytes hb]
  unfold headerCut
  cases hn : recvHeader m 0 cleared with
  | done t rv => cases hn
  | fault t => cases hn
  | call t op k =>
      rw [hn] at hwp
      have hend := hwp.2 (.stored hdr) true ⟨rfl, rfl, rfl, hwp.1.2⟩
      show (match k (.stored hdr) with
        | .done t none => some t.length.toNat
        | _ => none) = _
      cases hk : k (.stored hdr) with
      | call t' op' k' =>
          rw [hk] at hend
          exact absurd hend.1.1 (by decide)
      | fault t' =>
          rw [hk] at hend
          exact hend.elim
      | done t' rv =>
          rw [hk] at hend
          cases rv with
          | some c => exact (if_neg hend).symm
          | none =>
              rw [if_pos hend.1]
              show some t'.length.toNat = _
              rw [hend.2, Int.toNat_natCast]

theorem proxyCut_eq {hdr : Bytes} (hlen : hdr.length = 20) :
    proxyCut hdr = if Accepted .big hdr then some (len24 .big hdr) else none :=
  headerCut_eq decodes_big hlen

theorem serverCut_eq {hdr : Bytes} (hlen : hdr.length = 20) :
    serverCut hdr = if Accepted .little hdr then some (len24 .little hdr) else none :=
  headerCut_eq decodes_server hlen

/-! ## Where they agree -/

/-- The proxy cuts the stream into these frames and into no others. -/
def ProxyCuts (s : Bytes) (fs : List Bytes) : Prop := ∀ gs, Cuts 20 proxyCut s gs ↔ gs = fs

theorem length_take_header {f : Bytes} (hf : 20 ≤ f.length) : (f.take 20).length = 20 := by
  rw [List.length_take]
  omega

theorem byteAt_take {f : Bytes} {i : Nat} (hf : 20 ≤ f.length) (hi : i < 20) :
    byteAt (f.take 20) i = byteAt f i := by
  conv_rhs => rw [← List.take_append_drop 20 f]
  exact (byteAt_append (by rw [length_take_header hf]; exact hi)).symm

/-- The two byte orders read the same length exactly if the two outer bytes
are the same. -/
theorem len24_eq_iff (bs : Bytes) :
    len24 .big bs = len24 .little bs ↔ byteAt bs 1 = byteAt bs 3 := by
  have h1 := (byteAt bs 1).toNat_lt
  have h2 := (byteAt bs 2).toNat_lt
  have h3 := (byteAt bs 3).toNat_lt
  simp only [len24, Nat.shiftLeft_eq, ← UInt8.toNat_inj]
  omega

/-- Both receivers read the same from a header the server accepts exactly if
its two outer length bytes are the same. -/
theorem proxyCut_agrees_iff {f : Bytes} (hf : 20 ≤ f.length)
    (hacc : Accepted .little (f.take 20)) :
    proxyCut (f.take 20) = serverCut (f.take 20) ↔ byteAt f 1 = byteAt f 3 := by
  have hlen := length_take_header hf
  rw [← byteAt_take hf (i := 1) (by decide), ← byteAt_take hf (i := 3) (by decide),
    ← len24_eq_iff, proxyCut_eq hlen, serverCut_eq hlen, if_pos hacc]
  constructor
  · intro heq
    split at heq
    · exact Option.some.inj heq
    · cases heq
  · intro heq
    rw [if_pos ⟨hacc.1, by rw [heq]; exact hacc.2⟩, heq]

/-- A frame of the server starts with a header it accepts. -/
theorem accepted_of_cut {f : Bytes} (hf : 20 ≤ f.length)
    (hcut : serverCut (f.take 20) = some f.length) : Accepted .little (f.take 20) := by
  rw [serverCut_eq (length_take_header hf)] at hcut
  split at hcut
  · assumption
  · cases hcut

/-- The proxy cuts the server's frames apart exactly if the two outer length
bytes of each are the same. -/
theorem proxyCuts_iff {s : Bytes} {fs : List Bytes} (h : Cuts 20 serverCut s fs) :
    ProxyCuts s fs ↔ ∀ f ∈ fs, byteAt f 1 = byteAt f 3 := by
  have hagree : Cuts 20 proxyCut s fs ↔ ∀ f ∈ fs, byteAt f 1 = byteAt f 3 := by
    rw [h.agree_iff]
    refine forall_congr' fun f => forall_congr' fun hf => ?_
    obtain ⟨hlen, hcut⟩ := h.frame hf
    exact proxyCut_agrees_iff hlen (accepted_of_cut hlen hcut)
  rw [← hagree]
  constructor
  · intro hcuts
    exact (hcuts fs).2 rfl
  · intro hcuts gs
    constructor
    · exact fun hgs => hgs.unique (by decide) hcuts
    · rintro rfl
      exact hcuts

/-! ## The client's messages -/

/-- A message with a payload that the client builds and sends. -/
def Built (f : Bytes) : Prop :=
  ∃ (msg m : Jmp) (version : UInt8) (p : Bytes) (code : UInt32), version ≠ 0 ∧ IsText p ∧
    p ≠ [] ∧ jmpSetMsg msg version (some (p ++ [0])) code = some (m, 1) ∧ f = jmpWire m

theorem Built.eq_frame {f : Bytes} (h : Built f) :
    ∃ (version : UInt8) (p : Bytes) (code : UInt32), version ≠ 0 ∧ IsText p ∧ p ≠ [] ∧
      f = jmpFrame version p code := by
  obtain ⟨msg, m, version, p, code, hv, hp, hne, hset, rfl⟩ := h
  obtain ⟨m', hset', _, _, hwire⟩ := jmpSetMsg_text msg version hp [] code
  obtain ⟨rfl, _⟩ := Prod.mk.inj (Option.some.inj (hset.symm.trans hset'))
  exact ⟨version, p, code, hv, hp, hne, hwire⟩

/-- The server cuts the client's messages apart. -/
theorem server_cuts_built {fs : List Bytes} (h : ∀ f ∈ fs, Built f) :
    Cuts 20 serverCut fs.flatten fs := by
  apply Cuts.flatten
  intro f hf
  obtain ⟨version, p, code, hv, hp, hne, rfl⟩ := (h f hf).eq_frame
  have hframe := isFrame_jmpFrame hv hp hne code
  have hlen := hframe.twenty_lt
  have htake := length_take_header (Nat.le_of_lt hlen)
  have hsplit := List.take_append_drop 20 (jmpFrame version p code)
  have hacc := hframe.accepted
  have hlength := hframe.length_eq
  rw [← hsplit, accepted_append .little (by omega)] at hacc
  rw [← hsplit, len24_append .little (by omega), hsplit] at hlength
  refine ⟨Nat.le_of_lt hlen, ?_⟩
  rw [serverCut_eq htake, if_pos hacc, hlength]

/-- The outer length bytes of a client's message are the same exactly if its
length is a multiple of 256. -/
theorem built_bytes_iff {f : Bytes} (h : Built f) :
    byteAt f 1 = byteAt f 3 ↔ f.length % 256 = 0 := by
  obtain ⟨version, p, code, _, hp, _, rfl⟩ := h.eq_frame
  have hsize := hp.size
  have h2 := (byteAt (jmpFrame version p code) 2).toNat_lt
  have hlen := len24_jmpFrame version hp code
  have hlength := length_jmpFrame version p code
  have h1 := (byteAt (jmpFrame version p code) 1).toNat_lt
  simp only [len24, Nat.shiftLeft_eq] at hlen
  have h3 : (byteAt (jmpFrame version p code) 3).toNat = 0 := by omega
  rw [← UInt8.toNat_inj, h3]
  omega

/-- **Proxy and server cut the stream at the same places exactly if the two
outer length bytes of every frame are the same**, which for the messages of
the client means that their lengths are multiples of 256. -/
theorem same_cuts_iff (s : Bytes) (fs : List Bytes) :
    (Cuts 20 serverCut s fs → (ProxyCuts s fs ↔ ∀ f ∈ fs, byteAt f 1 = byteAt f 3)) ∧
    ((∀ f ∈ fs, Built f) → Cuts 20 serverCut fs.flatten fs ∧
      (ProxyCuts fs.flatten fs ↔ ∀ f ∈ fs, f.length % 256 = 0)) := by
  refine ⟨fun h => proxyCuts_iff h, fun h => ⟨server_cuts_built h, ?_⟩⟩
  rw [proxyCuts_iff (server_cuts_built h)]
  exact forall_congr' fun f => forall_congr' fun hf => built_bytes_iff (h f hf)

/-- A text of 236 bytes makes a message of 256 bytes, and two of these are cut
apart by both. -/
theorem same_cuts_iff_agree :
    ProxyCuts (jmpFrame 1 (List.replicate 236 97) 1 ++ jmpFrame 1 (List.replicate 236 98) 1)
      [jmpFrame 1 (List.replicate 236 97) 1, jmpFrame 1 (List.replicate 236 98) 1] := by
  have hbuilt : ∀ {p : Bytes}, IsText p → p ≠ [] → Built (jmpFrame 1 p 1) := by
    intro p hp hne
    let msg : Jmp := ⟨jmpHeader 0 0 0, Buf.zeros 1024⟩
    obtain ⟨m, hset, _, _, hwire⟩ := jmpSetMsg_text msg 1 hp [] 1
    exact ⟨msg, m, 1, p, 1, by decide, hp, hne, hset, hwire.symm⟩
  have hlaw := same_cuts_iff []
    [jmpFrame 1 (List.replicate 236 97) 1, jmpFrame 1 (List.replicate 236 98) 1]
  have hcuts := (hlaw.2 (by
    simp only [List.mem_cons, List.not_mem_nil, or_false, forall_eq_or_imp, forall_eq]
    exact ⟨hbuilt (by decide +kernel) (by decide), hbuilt (by decide +kernel) (by decide)⟩)).2.2
    (by
      simp only [List.mem_cons, List.not_mem_nil, or_false, forall_eq_or_imp, forall_eq,
        length_jmpFrame, List.length_replicate]
      decide)
  simpa using hcuts

/-- The client's message "hi", 22 bytes long. -/
def hiMessage : Bytes := jmpFrame 1 [104, 105] 1

/-- The proxy takes it for the beginning of a message of 1441792 bytes. -/
theorem hi_cut_differently :
    ¬ ∀ (s : Bytes) (fs : List Bytes), Cuts 20 serverCut s fs → ProxyCuts s fs := by
  intro hlaw
  have hcut : serverCut (hiMessage.take 20) = some hiMessage.length := by decide +kernel
  have hcuts : Cuts 20 serverCut hiMessage [hiMessage] := .cons (by decide) hcut .nil
  have hbytes := (proxyCuts_iff hcuts).1 (hlaw _ _ hcuts) _ (List.mem_singleton_self _)
  exact absurd hbytes (by decide)

end ZeroCopyProxy.Ports.StreamFraming
