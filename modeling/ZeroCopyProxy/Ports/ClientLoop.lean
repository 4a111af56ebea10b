import ZeroCopyProxy.Ports.JmpMessage
import ZeroCopyProxy.Verified.Liberal

/-!
# The client's loop: `client_process_data`

One iteration reads a line, sends it as a message, and reads a response with
one `read` of `BUF_MAX_LEN` = 1024 bytes, however long the response is.  The
client does not look at the length field of what it received, so a response
that arrives in two parts is read in two iterations.

The iterations work on arrays of fixed size; an index outside its array and a
string without an end are undefined behaviour.  The law about the socket is
liberal: it holds as long as the client runs.
-/

namespace ZeroCopyProxy.Ports.ClientLoop

open ZeroCopyProxy.Verified.Resumption
open ZeroCopyProxy.Verified.Liberal
open ZeroCopyProxy.Ports.Posix
open ZeroCopyProxy.Ports.JmpMessage

/-! ## Strings in arrays -/

/-- The text of the C string that starts an array, if it ends inside. -/
def cString (bs : Bytes) : Option Bytes :=
  if (0 : UInt8) ∈ bs then some (bs.takeWhile (· ≠ 0)) else none

/-- `snprintf( dst, n, "%s", src)` for an array of `n` bytes. -/
def snprintfString {n : Nat} (dst : Buf n) (src : Bytes) : Option (Buf n) :=
  (cString src).bind fun text =>
    let shown := text.take (n - 1)
    dst.memcpy 0 (shown ++ [0]) 0 (shown.length + 1)

/-- `b[ i] = '\0'`. -/
def putNul {n : Nat} (b : Buf n) (i : Int) : Option (Buf n) := b.memcpy i [0] 0 1

/-! ## The calls and the memory of the client -/

/-- What the client asks of its environment: a line from the terminal, a
`write` and a `read` on its socket, and the line it shows for a response. -/
inductive ClientCall where
  | fgets (size : Nat)
  | write (fd : Int) (buf : Bytes) (count : Int)
  | read (fd : Int) (count : Int)
  | shows (text : Bytes) (bytes : Int)
  deriving DecidableEq

/-- The local variables of `client_process_data`.  `recv_msg` is the memory of
a message, whose data starts behind the header. -/
structure Client where
  msg : Buf 1024
  sendBuf : Buf 1024
  readBuf : Buf 1024
  sendMsg : Jmp
  recvMsg : Buf 1044
  isFinish : Bool

/-- The part of an iteration behind a `write` that sent something: one `read`
and what is shown of it. -/
def clientRecv (fd : Int) : Prog Client ClientCall Answer Bool := do
  let r ← Prog.call (.read fd 1024)
  if r.ret ≤ 0 then
    pure false
  else do
    let c ← Prog.state
    let b ← Prog.orFault (c.recvMsg.memcpy 0 r.data 0 r.ret)
    Prog.update fun c => { c with recvMsg := b }
    -- `jmp_print_msg` follows the data to its end
    let _ ← Prog.orFault (cString (b.bytes.drop 20))
    let text ← Prog.orFault (snprintfString c.readBuf (b.bytes.drop 20))
    let text ← Prog.orFault (putNul text r.ret)
    Prog.update fun c => { c with readBuf := text }
    let shown ← Prog.orFault (cString text.bytes)
    let _ ← Prog.call (.shows shown r.ret)
    pure true

/-- The part of an iteration behind `fgets`. -/
def clientSend (fd : Int) : Prog Client ClientCall Answer Bool := do
  let c ← Prog.state
  let line ← Prog.orFault (putNul c.msg (strlen c.msg.bytes - 1))
  let text ← Prog.orFault (snprintfString c.sendBuf line.bytes)
  let (m, _) ← Prog.orFault (jmpSetMsg c.sendMsg 1 (some text.bytes) 1)
  Prog.update fun c => { c with msg := line, sendBuf := text, sendMsg := m }
  let _ ← Prog.orFault (cString m.data.bytes)
  let r ← Prog.call (.write fd m.bytes (jmpGetMsgLength m))
  if r.ret ≤ 0 then
    pure false
  else
    clientRecv fd

/-- One iteration; the result says whether there is another one. -/
def clientRound (fd : Int) : Prog Client ClientCall Answer Bool := do
  Prog.update fun c => { c with msg := Buf.zeros 1024 }
  let r ← Prog.call (.fgets 1024)
  if r.ret < 0 then
    if r.errno = .eintr then do
      Prog.update fun c => { c with isFinish := true }
      pure false
    else
      clientSend fd
  else do
    let c ← Prog.state
    let line ← Prog.orFault (c.msg.memcpy 0 (r.data ++ [0]) 0 (r.data.length + 1))
    Prog.update fun c => { c with msg := line }
    clientSend fd

/-! ## A peer that echoes -/

/-- What a user types before the newline. -/
structure IsLine (p : Bytes) : Prop where
  noNul : (0 : UInt8) ∉ p
  noNewline : (10 : UInt8) ∉ p
  nonempty : p ≠ []
  size : p.length ≤ 1022

instance (p : Bytes) : Decidable (IsLine p) :=
  decidable_of_iff ((0 : UInt8) ∉ p ∧ (10 : UInt8) ∉ p ∧ p ≠ [] ∧ p.length ≤ 1022)
    ⟨fun h => ⟨h.1, h.2.1, h.2.2.1, h.2.2.2⟩,
      fun h => ⟨h.noNul, h.noNewline, h.nonempty, h.size⟩⟩

theorem IsLine.isText {p : Bytes} (h : IsLine p) : IsText p :=
  ⟨h.noNul, Nat.le_trans h.size (by decide)⟩

/-- The lines typed, the messages sent, which are the responses, the bytes of
them that were not read yet, what each `read` took, and how much less than it
could have taken. -/
structure Echo where
  lines : List Bytes
  responses : List Bytes
  pending : Bytes
  consumed : List Bytes
  short : List Nat

/-- Nothing has been typed. -/
def Echo.fresh : Echo := ⟨[], [], [], [], []⟩

/-- The terminal delivers a line, a `write` sends everything and is echoed,
and a `read` takes any part, but at least one byte, of what is there. -/
def echoDeliver (w : Echo) (op : ClientCall) (r : Answer) : Option Echo :=
  match op with
  | .fgets size =>
    if IsLine r.data.dropLast ∧ r.data = r.data.dropLast ++ [10] ∧ r.data.length < size ∧
        r.ret = r.data.length then
      some { w with lines := w.lines ++ [r.data.dropLast] }
    else none
  | .write _ buf count =>
    if r.ret = count then
      some
        { w with
          responses := w.responses ++ [buf.take count.toNat]
          pending := w.pending ++ buf.take count.toNat }
    else none
  | .read _ count =>
    if 1 ≤ r.ret ∧ r.ret ≤ count ∧ r.ret = r.data.length ∧ r.data <+: w.pending then
      some
        { w with
          pending := w.pending.drop r.data.length
          consumed := w.consumed ++ [r.data]
          short := w.short ++ [min count.toNat w.pending.length - r.data.length] }
    else none
  | .shows _ _ => some w

/-- `echoDeliver` as a relation. -/
def echoKernel (w : Echo) (op : ClientCall) (r : Answer) (w' : Echo) : Prop :=
  echoDeliver w op r = some w'

/-- A client with its peer. -/
abbrev ClientConfig : Type := Config Echo Client ClientCall Answer Bool

/-- The configurations of a client that starts with this memory. -/
def Runs (fd : Int) (s : Client) (c : ClientConfig) : Prop :=
  Reach (blind echoKernel) (fun _ : Unit => clientRound fd) id ⟨Echo.fresh, .done s true⟩ c

/-! ## Strings built by the client -/

theorem cString_text {p : Bytes} (hp : (0 : UInt8) ∉ p) (rest : Bytes) :
    cString (p ++ 0 :: rest) = some p := by
  have hmem : (0 : UInt8) ∈ p ++ 0 :: rest := List.mem_append_right p List.mem_cons_self
  rw [cString, if_pos hmem, takeWhile_text hp]

/-- `snprintf` copies what fits of a text and ends it. -/
theorem snprintfString_eq {n : Nat} (dst : Buf n) (hn : 0 < n) {p : Bytes}
    (hp : (0 : UInt8) ∉ p) (rest : Bytes) :
    ∃ b rest', snprintfString dst (p ++ 0 :: rest) = some b ∧
      b.bytes = p.take (n - 1) ++ 0 :: rest' := by
  have hlen : (p.take (n - 1)).length < n := by
    rw [List.length_take]
    omega
  obtain ⟨b, hb, hbytes⟩ := dst.memcpy_eq (p.take (n - 1) ++ [0]) (d := 0) (s := 0)
    (k := (p.take (n - 1)).length + 1) (by omega)
    (by rw [List.length_append, List.length_singleton]; omega)
  refine ⟨b, dst.bytes.drop (0 + ((p.take (n - 1)).length + 1)), ?_, ?_⟩
  · rw [snprintfString, cString_text hp, Option.bind_some]
    exact hb
  · rw [hbytes, List.take_zero, List.nil_append, List.drop_zero, List.take_of_length_le
      (by rw [List.length_append, List.length_singleton]), List.append_assoc]
    rfl

/-- A text that fits, copied as a string. -/
theorem snprintfString_text {n : Nat} (dst : Buf n) {p : Bytes} (hp : (0 : UInt8) ∉ p)
    (hn : p.length < n) (rest : Bytes) :
    ∃ b rest', snprintfString dst (p ++ 0 :: rest) = some b ∧ b.bytes = p ++ 0 :: rest' := by
  have htake : p.take (n - 1) = p := List.take_of_length_le (by omega)
  have hcopy := snprintfString_eq dst (Nat.zero_lt_of_lt hn) hp rest
  rw [htake] at hcopy
  exact hcopy

/-- A NUL inside the array. -/
theorem putNul_eq {n : Nat} (b : Buf n) {i : Nat} (hi : i < n) :
    ∃ c, putNul b i = some c ∧ c.bytes = b.bytes.take i ++ 0 :: b.bytes.drop (i + 1) := by
  obtain ⟨c, hc, hbytes⟩ := b.memcpy_eq [0] (d := i) (s := 0) (k := 1) (by omega)
    (Nat.le_refl 1)
  refine ⟨c, hc, ?_⟩
  rw [hbytes, List.drop_zero, List.append_assoc]
  rfl

/-- A NUL outside the array. -/
theorem putNul_none {n : Nat} (b : Buf n) {i : Int} (hi : i < 0 ∨ n ≤ i) :
    putNul b i = none := by
  rw [putNul, Buf.memcpy, dif_neg (by omega)]

/-- A text cut at its end by a NUL. -/
theorem putNul_text {n : Nat} (b : Buf n) {p : Bytes} {x : UInt8} {rest : Bytes}
    (hb : b.bytes = p ++ x :: rest) :
    ∃ c, putNul b p.length = some c ∧ c.bytes = p ++ 0 :: rest := by
  have hsize := b.size
  rw [hb, List.length_append, List.length_cons] at hsize
  obtain ⟨c, hc, hbytes⟩ := putNul_eq b (i := p.length) (by omega)
  refine ⟨c, hc, ?_⟩
  have hdrop : b.bytes.drop (p.length + 1) = rest := by
    rw [hb, ← List.drop_drop, List.drop_left]
    rfl
  rw [hbytes, hdrop, hb, List.take_left]

/-- What `fgets` stores: the bytes and a NUL. -/
theorem exists_stored {n : Nat} (msg : Buf n) {data : Bytes} (hlt : data.length < n) :
    ∃ b, msg.memcpy 0 (data ++ [0]) 0 (data.length + 1) = some b ∧
      b.bytes = data ++ 0 :: msg.bytes.drop (data.length + 1) := by
  obtain ⟨b, hb, hbytes⟩ := msg.memcpy_eq (data ++ [0]) (d := 0) (s := 0)
    (k := data.length + 1) (by omega) (by rw [List.length_append, List.length_singleton]; omega)
  refine ⟨b, hb, ?_⟩
  rw [hbytes, List.take_zero, List.nil_append, List.drop_zero, List.take_of_length_le
    (by rw [List.length_append, List.length_singleton]), Nat.zero_add, List.append_assoc]
  rfl

/-! ## The requests and the responses -/

/-- The message the client makes of a line. -/
def request (p : Bytes) : Bytes := jmpFrame 1 p 1

/-- A text in `msg` loses its last byte and becomes a message. -/
theorem exists_request (s : Client) {p : Bytes} {x : UInt8} {rest : Bytes}
    (hmsg : s.msg.bytes = p ++ x :: 0 :: rest) (hp : (0 : UInt8) ∉ p ++ [x]) :
    ∃ line text m, putNul s.msg (strlen s.msg.bytes - 1) = some line ∧
      snprintfString s.sendBuf line.bytes = some text ∧
      jmpSetMsg s.sendMsg 1 (some text.bytes) 1 = some (m, 1) ∧
      m.hdr = jmpHeader 1 p.length 1 ∧
      m.data.bytes = p ++ List.replicate (1024 - p.length) 0 ∧
      jmpWire m = request p ∧ p.length ≤ 1022 := by
  have hsize := s.msg.size
  rw [hmsg, List.length_append, List.length_cons, List.length_cons] at hsize
  have hpnul : (0 : UInt8) ∉ p := fun hmem => hp (List.mem_append_left _ hmem)
  have hstrlen : (strlen s.msg.bytes : Int) - 1 = p.length := by
    have hsplit : s.msg.bytes = (p ++ [x]) ++ 0 :: rest := by
      rw [hmsg, List.append_assoc]
      rfl
    rw [hsplit, strlen_append_nul hp, List.length_append, List.length_singleton]
    omega
  obtain ⟨line, hline, hlineBytes⟩ := putNul_text s.msg hmsg
  obtain ⟨text, rest', htext, htextBytes⟩ := snprintfString_text s.sendBuf hpnul (by omega)
    (0 :: rest)
  rw [← hlineBytes] at htext
  obtain ⟨m, hm, hhdr, hdata, hwire⟩ := jmpSetMsg_text s.sendMsg 1 ⟨hpnul, by omega⟩ rest' 1
  rw [← htextBytes] at hm
  rw [← hstrlen] at hline
  exact ⟨line, text, m, hline, htext, hm, hhdr, hdata, hwire, by omega⟩

/-- No `read` took less than it could have, and every response that was read
fits into one `read`: `BUF_MAX_LEN` less a header are 1004 bytes. -/
def Full (w : Echo) : Prop :=
  (∀ n ∈ w.short, n = 0) ∧ ∀ p ∈ w.lines.take w.consumed.length, p.length ≤ 1004

/-- The state of the socket when the requests for `sent` are on their way. -/
structure Tidy (w : Echo) (sent : List Bytes) : Prop where
  typed : sent <+: w.lines
  echoed : w.responses = sent.map request
  reads : w.consumed.length ≤ sent.length
  flow : w.consumed.flatten ++ w.pending = w.responses.flatten
  aligned : w.consumed <+: w.responses ↔ Full w

theorem Tidy.fresh : Tidy Echo.fresh [] where
  typed := List.nil_prefix
  echoed := rfl
  reads := Nat.le_refl 0
  flow := rfl
  aligned := iff_of_true List.nil_prefix ⟨by simp [Echo.fresh], by simp [Echo.fresh]⟩

/-- Typing another line. -/
theorem Tidy.fgets {w w' : Echo} {sent : List Bytes} (h : Tidy w sent) {size : Nat}
    {r : Answer} (hk : echoDeliver w (.fgets size) r = some w') :
    ∃ p, IsLine p ∧ r.data = p ++ [10] ∧ r.data.length < size ∧ 0 ≤ r.ret ∧
      w'.lines = w.lines ++ [p] ∧ w'.consumed = w.consumed ∧ Tidy w' sent := by
  simp only [echoDeliver] at hk
  split at hk
  · next hr =>
      obtain ⟨hline, hdata, hlt, hret⟩ := hr
      cases hk
      refine ⟨r.data.dropLast, hline, hdata, hlt, by omega, rfl, rfl, ?_⟩
      have htake : (w.lines ++ [r.data.dropLast]).take w.consumed.length =
          w.lines.take w.consumed.length :=
        List.take_append_of_le_length (Nat.le_trans h.reads h.typed.length_le)
      have hfull : Full { w with lines := w.lines ++ [r.data.dropLast] } ↔ Full w := by
        simp only [Full, htake]
      exact
        { typed := h.typed.trans (List.prefix_append _ _)
          echoed := h.echoed
          reads := h.reads
          flow := h.flow
          aligned := h.aligned.trans hfull.symm }
  · cases hk

/-- Sending a request, which the peer echoes. -/
theorem Tidy.write {w w' : Echo} {sent : List Bytes} (h : Tidy w sent) {p : Bytes}
    (hp : sent ++ [p] <+: w.lines) {fd : Int} {buf : Bytes} {count : Int} {r : Answer}
    (hbuf : buf.take count.toNat = request p) (hread : w.consumed.length = sent.length)
    (hk : echoDeliver w (.write fd buf count) r = some w') :
    Tidy w' (sent ++ [p]) ∧ w'.lines = w.lines ∧ w'.consumed = w.consumed := by
  simp only [echoDeliver] at hk
  split at hk
  · cases hk
    refine ⟨?_, rfl, rfl⟩
    have hprefix : w.consumed <+: w.responses ++ [request p] ↔ w.consumed <+: w.responses := by
      refine ⟨fun hc => ?_, fun hc => hc.trans (List.prefix_append _ _)⟩
      refine List.prefix_of_prefix_length_le hc (List.prefix_append _ _) ?_
      rw [h.echoed, List.length_map, hread]
    exact
      { typed := hp
        echoed := by rw [hbuf, h.echoed, List.map_append, List.map_singleton]
        reads := by
          rw [List.length_append, hread]
          omega
        flow := by
          rw [hbuf, ← List.append_assoc, h.flow, List.flatten_append, List.flatten_singleton]
        aligned := by
          rw [hbuf]
          exact hprefix.trans h.aligned }
  · cases hk

/-- Whole responses until now leave exactly the last one in the socket. -/
theorem Tidy.pending_eq {w : Echo} {sent : List Bytes} {p : Bytes} (h : Tidy w (sent ++ [p]))
    (hread : w.consumed.length = sent.length) (hc : w.consumed <+: w.responses) :
    w.consumed = sent.map request ∧ w.pending = request p := by
  have hecho := h.echoed
  rw [List.map_append, List.map_singleton] at hecho
  have hcons : w.consumed = sent.map request := by
    rw [hecho] at hc
    have hlen : w.consumed.length = (sent.map request).length := by
      rw [List.length_map, hread]
    exact (List.prefix_of_prefix_length_le hc (List.prefix_append _ _)
      (Nat.le_of_eq hlen)).eq_of_length hlen
  have hflow := h.flow
  rw [hecho, hcons, List.flatten_append, List.flatten_singleton] at hflow
  exact ⟨hcons, List.append_cancel_left hflow⟩

/-- A `read` of the last response takes it as a whole if the kernel hands
over all it can and the response fits. -/
theorem Tidy.whole_iff {w : Echo} {sent : List Bytes} {p : Bytes} (h : Tidy w (sent ++ [p]))
    (hread : w.consumed.length = sent.length) {data : Bytes} (hmax : data.length ≤ 1024)
    (hdata : data <+: w.pending) :
    w.consumed ++ [data] <+: w.responses ↔
      w.consumed <+: w.responses ∧ min 1024 w.pending.length - data.length = 0 ∧
        p.length ≤ 1004 := by
  have hsize : (request p).length = 20 + p.length := length_jmpFrame 1 p 1
  have hecho : w.responses = sent.map request ++ [request p] := by
    rw [h.echoed, List.map_append, List.map_singleton]
  constructor
  · intro hc
    have hbefore := (List.prefix_append w.consumed [data]).trans hc
    have heq : w.consumed ++ [data] = sent.map request ++ [request p] := by
      rw [← hecho]
      refine hc.eq_of_length ?_
      rw [hecho, List.length_append, List.length_append, List.length_map, hread,
        List.length_singleton, List.length_singleton]
    have hd : data = request p := List.singleton_inj.1 (List.append_inj' heq rfl).2
    refine ⟨hbefore, ?_⟩
    rw [(h.pending_eq hread hbefore).2, hd, hsize]
    rw [hd, hsize] at hmax
    omega
  · rintro ⟨hc, hshort, hp⟩
    obtain ⟨hcons, hpending⟩ := h.pending_eq hread hc
    rw [hpending] at hdata hshort
    have hle := hdata.length_le
    have hd : data = request p := hdata.eq_of_length (by omega)
    refine ⟨[], ?_⟩
    rw [List.append_nil, hecho, hcons, hd]

/-- One `read`. -/
theorem Tidy.read {w w' : Echo} {sent : List Bytes} {p : Bytes} (h : Tidy w (sent ++ [p]))
    (hread : w.consumed.length = sent.length) {fd : Int} {r : Answer}
    (hk : echoDeliver w (.read fd 1024) r = some w') :
    Tidy w' (sent ++ [p]) ∧ w'.lines = w.lines ∧
      w'.consumed.length = (sent ++ [p]).length := by
  simp only [echoDeliver] at hk
  split at hk
  · next hr =>
      obtain ⟨hpos, hmax, hret, hdata⟩ := hr
      cases hk
      have hlen : (w.consumed ++ [r.data]).length = (sent ++ [p]).length := by
        rw [List.length_append, List.length_append, hread, List.length_singleton,
          List.length_singleton]
      have hbefore : w.lines.take w.consumed.length = sent := by
        rw [hread]
        exact (List.prefix_iff_eq_take.1 ((List.prefix_append sent [p]).trans h.typed)).symm
      have hafter : w.lines.take (w.consumed ++ [r.data]).length = sent ++ [p] := by
        rw [hlen]
        exact (List.prefix_iff_eq_take.1 h.typed).symm
      refine ⟨⟨h.typed, h.echoed, Nat.le_of_eq hlen, ?_, ?_⟩, rfl, hlen⟩
      · obtain ⟨rest, hrest⟩ := hdata
        rw [← h.flow, ← hrest, List.drop_left, List.flatten_append, List.flatten_singleton,
          List.append_assoc]
      · show _ ↔ (∀ n ∈ w.short ++ _, n = 0) ∧ ∀ q ∈ w.lines.take _, q.length ≤ 1004
        rw [h.whole_iff hread (by omega) hdata, hafter, h.aligned, Full, hbefore]
        simp only [List.mem_append, List.mem_singleton, or_imp, forall_and, forall_eq]
        tauto
  · cases hk

/-! ## One iteration -/

/-- What holds of the socket at each call. -/
def Expects (w : Echo) (_ : Client) : ClientCall → Prop
  | .fgets _ | .shows _ _ => Tidy w w.lines ∧ w.consumed.length = w.lines.length
  | .write _ buf count => ∃ sent p, w.lines = sent ++ [p] ∧ Tidy w sent ∧
      w.consumed.length = sent.length ∧ buf.take count.toNat = request p
  | .read _ count => ∃ sent p, w.lines = sent ++ [p] ∧ Tidy w w.lines ∧
      w.consumed.length = sent.length ∧ count = 1024

/-- What holds where another iteration starts. -/
def Rests (w : Echo) (_ : Client) (again : Bool) : Prop :=
  again = true → Tidy w w.lines ∧ w.consumed.length = w.lines.length

theorem wlp_clientRecv (fd : Int) {s : Client} {w : Echo} {sent : List Bytes} {p : Bytes}
    (hlines : w.lines = sent ++ [p]) (h : Tidy w w.lines)
    (hread : w.consumed.length = sent.length) :
    wlp (blind echoKernel) Expects Rests (clientRecv fd s) w := by
  unfold clientRecv
  simp only [wlp_bind, wlp_prog_call, wlp_ite, wlp_pure, wlp_state, wlp_orFault, wlp_update]
  refine ⟨⟨sent, p, hlines, h, hread, rfl⟩, fun r w' hk => ⟨fun _ hagain => ?_, ?_⟩⟩
  · exact Bool.noConfusion hagain
  · intro hpos b hb text htext shown hshown nul hnul line hline
    rw [hlines] at h
    obtain ⟨h', hlines', hread'⟩ := h.read hread hk
    rw [← hlines, ← hlines'] at h' hread'
    exact ⟨⟨h', hread'⟩, fun r w'' hk' _ => by cases hk'; exact ⟨h', hread'⟩⟩

/-- A line in `msg` is sent as its request. -/
theorem wlp_clientSend (fd : Int) {s : Client} {w : Echo} {sent : List Bytes} {p : Bytes}
    {rest : Bytes} (hmsg : s.msg.bytes = p ++ 10 :: 0 :: rest) (hp : IsLine p)
    (hlines : w.lines = sent ++ [p]) (h : Tidy w sent)
    (hread : w.consumed.length = sent.length) :
    wlp (blind echoKernel) Expects Rests (clientSend fd s) w := by
  have hnul : (0 : UInt8) ∉ p ++ [10] := by
    simp only [List.mem_append, List.mem_singleton, not_or]
    exact ⟨hp.noNul, by decide⟩
  obtain ⟨line, text, m, hline, htext, hm, -, -, hwire, -⟩ := exists_request s hmsg hnul
  unfold clientSend
  simp only [wlp_bind, wlp_prog_call, wlp_ite, wlp_pure, wlp_state, wlp_orFault, wlp_update,
    hline, htext, hm, Option.some.injEq, forall_eq']
  intro shown hshown
  refine ⟨⟨sent, p, hlines, h, hread, hwire⟩, fun r w' hk => ⟨fun _ hagain => ?_, fun _ => ?_⟩⟩
  · exact Bool.noConfusion hagain
  · obtain ⟨h', hlines', hread'⟩ := h.write (hlines ▸ List.prefix_rfl) hwire hread hk
    rw [← hlines, ← hlines'] at h'
    exact wlp_clientRecv fd (hlines'.trans hlines) h' (hread' ▸ hread)

theorem wlp_clientRound (fd : Int) {s : Client} {w : Echo} (h : Tidy w w.lines)
    (hread : w.consumed.length = w.lines.length) :
    wlp (blind echoKernel) Expects Rests (clientRound fd s) w := by
  unfold clientRound
  simp only [wlp_bind, wlp_prog_call, wlp_ite, wlp_pure, wlp_state, wlp_orFault, wlp_update]
  refine ⟨⟨h, hread⟩, fun r w' hk => ?_⟩
  obtain ⟨p, hp, hdata, hlt, hret, hlines, hcons, h'⟩ := h.fgets hk
  refine ⟨fun hneg => by omega, fun _ line hline => ?_⟩
  obtain ⟨b, hb, hbytes⟩ := exists_stored (Buf.zeros 1024) hlt
  obtain rfl : b = line := Option.some.inj (hb.symm.trans hline)
  have hmsg : b.bytes = p ++ 10 :: 0 :: (Buf.zeros 1024).bytes.drop (r.data.length + 1) := by
    rw [hbytes, hdata, List.append_assoc]
    rfl
  exact wlp_clientSend fd hmsg hp hlines h' (hcons ▸ hread)

/-! ## Whole runs -/

/-- Every call leaves the socket tidy. -/
theorem exists_tidy (fd : Int) (s : Client) {c : ClientConfig} (hc : Runs fd s c) :
    ∃ sent, Tidy c.world sent := by
  refine wlp_world (P := Expects) (Q := Rests) (I := fun w => ∃ sent, Tidy w sent) ?_ ?_ hc
    (fun _ => ⟨Tidy.fresh, rfl⟩) ⟨[], Tidy.fresh⟩
  · intro w s op r w' hop hk
    cases op with
    | fgets size =>
        obtain ⟨p, -, -, -, -, -, -, h'⟩ := hop.1.fgets hk
        exact ⟨_, h'⟩
    | write fd buf count =>
        obtain ⟨sent, p, hlines, h, hread, hbuf⟩ := hop
        exact ⟨_, (h.write (hlines ▸ List.prefix_rfl) hbuf hread hk).1⟩
    | read fd count =>
        obtain ⟨sent, p, hlines, h, hread, rfl⟩ := hop
        rw [hlines] at h
        exact ⟨_, (h.read hread hk).1⟩
    | shows text bytes =>
        cases hk
        exact ⟨_, hop.1⟩
  · intro _ w s a ha h
    exact wlp_clientRound fd (h ha).1 (h ha).2

/-- **Requests and responses.**  In every run, each iteration takes exactly
its response from the socket as long as every response fits into one `read`
and no `read` takes less than it could; otherwise some iteration does not. -/
theorem responses_aligned_iff (fd : Int) (s : Client) {c : ClientConfig} (hc : Runs fd s c) :
    c.world.consumed <+: c.world.responses ↔ Full c.world := by
  obtain ⟨sent, h⟩ := exists_tidy fd s hc
  exact h.aligned

/-- A client before its first line. -/
def freshClient : Client where
  msg := Buf.zeros 1024
  sendBuf := Buf.zeros 1024
  readBuf := Buf.zeros 1024
  sendMsg := ⟨jmpHeader 0 0 0, Buf.zeros 1024⟩
  recvMsg := Buf.zeros 1044
  isFinish := false

/-- The line `hi`, typed, sent, and a `read` that takes `n` bytes of the
response. -/
def hiRound (n : Nat) : List (Act Unit Answer) :=
  [.event (), .answer (.stored [104, 105, 10]), .answer (.count 22),
    .answer (.stored ((request [104, 105]).take n))]

theorem responses_aligned_iff_hi :
    ∃ c, Runs 3 freshClient c ∧ c.world.consumed.length = 1 ∧
      (c.world.consumed <+: c.world.responses ↔ Full c.world) := by
  have hrun : ∃ c, Runs 3 freshClient c ∧ c.world.consumed.length = 1 :=
    exists_reach_of_exec (fun w (_ : Client) => echoDeliver w) id (hiRound 22)
      (fun c => c.world.consumed.length = 1) (by decide +kernel)
  obtain ⟨c, hc, hone⟩ := hrun
  exact ⟨c, hc, hone, responses_aligned_iff 3 freshClient hc⟩

/-- The response to `hi` has 22 bytes; a `read` that takes 5 of them leaves 17
for the next iteration. -/
theorem response_read_in_parts :
    ¬ ∀ (fd : Int) (s : Client) (c : ClientConfig), Runs fd s c →
      c.world.consumed <+: c.world.responses := by
  intro h
  have hrun : ∃ c, Runs 3 freshClient c ∧ ¬ c.world.consumed <+: c.world.responses :=
    exists_reach_of_exec (fun w (_ : Client) => echoDeliver w) id (hiRound 5)
      (fun c => ¬ c.world.consumed <+: c.world.responses) (by decide +kernel)
  obtain ⟨c, hc, hbad⟩ := hrun
  exact hbad (h 3 freshClient c hc)

end ZeroCopyProxy.Ports.ClientLoop
