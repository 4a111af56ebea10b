import ZeroCopyProxy.Ports.ClientLoop
import ZeroCopyProxy.Verified.Faults

/-!
# The client against any terminal and any peer

Here the terminal may deliver any bytes, the peer may answer with any bytes,
and the client may start with anything in its memory.  The world is the
history of its calls; what `recv_msg` holds follows from what it held at first
and from what was read since then (`memory`).

Each part of an iteration has one specification with one hypothesis for each
way it can end, faults included: `fwp_clientRecv`, `fwp_clientSend` and
`fwp_clientRound`.  A law about whole runs names what holds between two calls
and what a fault leaves (`SessionLaw`); `SessionLaw.reach` is the induction.
-/

namespace ZeroCopyProxy.Ports.ClientSession

open ZeroCopyProxy.Verified.Resumption
open ZeroCopyProxy.Verified.Faults
open ZeroCopyProxy.Ports.Posix
open ZeroCopyProxy.Ports.Frame
open ZeroCopyProxy.Ports.JmpMessage
open ZeroCopyProxy.Ports.ClientLoop

/-! ## Histories -/

/-- A call of the client with its answer. -/
abbrev ClientEvent : Type := ClientCall × Answer

/-- The answers that are possible: `fgets` fails, or stores at least one byte
and leaves room for the NUL; `write` and `read` move no more than they are
asked to. -/
def Possible : ClientCall → Answer → Prop
  | .fgets size, r => r.ret < 0 ∨ (1 ≤ r.data.length ∧ r.data.length < size)
  | .write _ _ count, r => r.ret ≤ count
  | .read _ count, r => r.ret ≤ count ∧ (0 ≤ r.ret → (r.data.length : Int) = r.ret)
  | .shows _ _, _ => True

instance (op : ClientCall) (r : Answer) : Decidable (Possible op r) :=
  match op with
  | .fgets size =>
      inferInstanceAs (Decidable (r.ret < 0 ∨ (1 ≤ r.data.length ∧ r.data.length < size)))
  | .write _ _ count => inferInstanceAs (Decidable (r.ret ≤ count))
  | .read _ count =>
      inferInstanceAs (Decidable (r.ret ≤ count ∧ (0 ≤ r.ret → (r.data.length : Int) = r.ret)))
  | .shows _ _ => .isTrue True.intro

/-- The history as a function on answers. -/
def sessionDeliver (log : List ClientEvent) (op : ClientCall) (r : Answer) :
    Option (List ClientEvent) :=
  if Possible op r then some (log ++ [(op, r)]) else none

/-- `sessionDeliver` as a relation. -/
def sessionKernel (log : List ClientEvent) (op : ClientCall) (r : Answer)
    (log' : List ClientEvent) : Prop :=
  sessionDeliver log op r = some log'

theorem sessionKernel_eq {log log' : List ClientEvent} {op : ClientCall} {r : Answer}
    (h : sessionKernel log op r log') : Possible op r ∧ log' = log ++ [(op, r)] := by
  unfold sessionKernel sessionDeliver at h
  split at h
  · next hp =>
      cases h
      exact ⟨hp, rfl⟩
  · cases h

/-- A client with its history. -/
abbrev SessionConfig : Type := Config (List ClientEvent) Client ClientCall Answer Bool

/-- The configurations of a client that starts with this memory. -/
def Session (fd : Int) (s : Client) (c : SessionConfig) : Prop :=
  Reach (blind sessionKernel) (fun _ : Unit => clientRound fd) id ⟨[], .done s true⟩ c

/-! ## What was read -/

/-- What a call has stored in `recv_msg`. -/
def receivedBy : ClientEvent → List Bytes
  | (.read _ _, r) => if 0 < r.ret then [r.data] else []
  | _ => []

/-- What the successful reads have stored, in order. -/
def received (log : List ClientEvent) : List Bytes := log.flatMap receivedBy

theorem received_snoc (log : List ClientEvent) (e : ClientEvent) :
    received (log ++ [e]) = received log ++ receivedBy e := by
  rw [received, received, List.flatMap_append, List.flatMap_singleton]

/-- A `read` that has stored something. -/
theorem received_read (w : List ClientEvent) (fd count : Int) {r : Answer} (hpos : 0 < r.ret) :
    received (w ++ [(.read fd count, r)]) = received w ++ [r.data] := by
  rw [received_snoc]
  exact congrArg (received w ++ ·) (if_pos hpos)

/-- The memory of `recv_msg` with these bytes stored at its beginning. -/
def overlay (m data : Bytes) : Bytes := data ++ m.drop data.length

/-- The memory of `recv_msg` after these reads. -/
def memory (m : Bytes) (reads : List Bytes) : Bytes := reads.foldl overlay m

theorem memory_snoc (m : Bytes) (reads : List Bytes) (data : Bytes) :
    memory m (reads ++ [data]) = overlay (memory m reads) data :=
  List.foldl_concat overlay m data reads

/-- The client goes on with an empty string in `msg`: the line begins with a
NUL, or there was none and it is not an interrupt. -/
def NoLine (r : Answer) : Prop :=
  if r.ret < 0 then r.errno ≠ .eintr else byteAt r.data 0 = 0

instance (r : Answer) : Decidable (NoLine r) := by
  unfold NoLine
  infer_instance

/-- A `read` that fills `BUF_MAX_LEN` bytes, or behind which no NUL ends the
data of `recv_msg`. -/
def Overruns (m data : Bytes) : Prop :=
  data.length = 1024 ∨ (0 : UInt8) ∉ (overlay m data).drop 20

instance (m data : Bytes) : Decidable (Overruns m data) :=
  inferInstanceAs (Decidable (_ ∨ _))

/-- The text shown for the response: the data of `recv_msg` up to its first
NUL, cut at the number of bytes read. -/
def shownText (m data : Bytes) : Bytes :=
  (((overlay m data).drop 20).takeWhile (· ≠ 0)).take data.length

/-! ## Strings -/

theorem exists_text {bs : Bytes} (h : (0 : UInt8) ∈ bs) :
    ∃ p rest, (0 : UInt8) ∉ p ∧ bs = p ++ 0 :: rest := by
  obtain ⟨p, rest, hbs, hp⟩ := List.eq_append_cons_of_mem h
  exact ⟨p, rest, hp, hbs⟩

theorem strlen_zeros (n : Nat) : strlen (Buf.zeros n).bytes = 0 := by
  cases n with
  | zero => rfl
  | succ n => exact (strlen_eq_zero_iff 0 (List.replicate n 0)).2 rfl

/-- A text with a NUL put into or behind it. -/
theorem takeWhile_cut {q : Bytes} (hq : (0 : UInt8) ∉ q) (i : Nat) (rest rest' : Bytes) :
    ((q ++ 0 :: rest).take i ++ 0 :: rest').takeWhile (· ≠ 0) = q.take i := by
  by_cases hi : i ≤ q.length
  · rw [List.take_append_of_le_length hi]
    exact takeWhile_text (fun hmem => hq (List.mem_of_mem_take hmem)) rest'
  · obtain ⟨k, rfl⟩ : ∃ k, i = q.length + (k + 1) := ⟨i - q.length - 1, by omega⟩
    rw [List.take_length_add_append, List.take_succ_cons, List.append_assoc, List.cons_append,
      takeWhile_text hq, List.take_of_length_le (by omega)]

/-- A text of at least one byte, which ends inside the array. -/
def HoldsLine (b : Buf 1024) : Prop :=
  ∃ p x rest, b.bytes = p ++ x :: 0 :: rest ∧ (0 : UInt8) ∉ p ++ [x]

/-- What `fgets` leaves in `msg`: an empty string if the line begins with a
NUL, and a text otherwise. -/
theorem exists_line (zeros : Buf 1024) {data : Bytes} (hone : 1 ≤ data.length)
    (hlt : data.length < 1024) :
    ∃ b, zeros.memcpy 0 (data ++ [0]) 0 (data.length + 1) = some b ∧
      ((byteAt data 0 = 0 ∧ strlen b.bytes = 0) ∨ (byteAt data 0 ≠ 0 ∧ HoldsLine b)) := by
  obtain ⟨b, hb, hmsg⟩ := exists_stored zeros hlt
  have hfirst : byteAt data 0 = byteAt b.bytes 0 := by
    rw [hmsg]
    exact (byteAt_append hone).symm
  have hnul : (0 : UInt8) ∈ b.bytes := by
    rw [hmsg]
    exact List.mem_append_right _ List.mem_cons_self
  obtain ⟨q, rest, hq, hsplit⟩ := exists_text hnul
  refine ⟨b, hb, ?_⟩
  rw [hfirst]
  rcases List.eq_nil_or_concat' q with rfl | ⟨p, x, rfl⟩
  · rw [hsplit]
    exact .inl ⟨rfl, strlen_append_nul hq rest⟩
  · refine .inr ⟨fun hzero => hq ?_, p, x, rest, ?_, hq⟩
    · rw [hsplit] at hzero
      cases p with
      | nil => exact List.mem_singleton.2 hzero.symm
      | cons y p =>
          obtain rfl : y = 0 := hzero
          exact List.mem_cons_self
    · rw [hsplit, List.append_assoc]
      rfl

/-! ## One iteration -/

section Rounds

variable {W : Type} {K : W → ClientCall → Answer → W → Prop}
  {P : W → Client → ClientCall → Prop} {Q : W → Client → Bool → Prop}
  {F : W → Client → Prop} {fd : Int} {s : Client} {w : W}

/-- The part behind a `write` that sent something. -/
theorem fwp_clientRecv (hfit : ∀ r w', K w (.read fd 1024) r w' → Possible (.read fd 1024) r)
    (hP : P w s (.read fd 1024))
    (hend : ∀ r w', K w (.read fd 1024) r w' → r.ret ≤ 0 → Q w' s false)
    (hfault : ∀ r w' s', K w (.read fd 1024) r w' → 0 < r.ret →
      Overruns s.recvMsg.bytes r.data → F w' s')
    (hshow : ∀ r w' s', K w (.read fd 1024) r w' → 0 < r.ret →
      ¬ Overruns s.recvMsg.bytes r.data →
      s'.recvMsg.bytes = overlay s.recvMsg.bytes r.data →
      P w' s' (.shows (shownText s.recvMsg.bytes r.data) r.ret) ∧
        ∀ r' w'', K w' (.shows (shownText s.recvMsg.bytes r.data) r.ret) r' w'' →
          Q w'' s' true) :
    fwp (blind K) P Q F (clientRecv fd s) w := by
  unfold clientRecv
  simp only [fwp_bind, fwp_prog_call, fwp_ite, fwp_pure, fwp_state, fwp_update]
  refine ⟨hP, fun r w' hk => ⟨hend r w' hk, fun hret => ?_⟩⟩
  have hpos : 0 < r.ret := by omega
  obtain ⟨hle, hdata⟩ := hfit r w' hk
  have hlen : (r.data.length : Int) = r.ret := hdata (by omega)
  obtain ⟨b, hb, hbytes⟩ := s.recvMsg.memcpy_eq r.data (d := 0) (s := 0) (k := r.data.length)
    (by omega) (by omega)
  rw [hlen] at hb
  have hover : b.bytes = overlay s.recvMsg.bytes r.data := by
    rw [hbytes, List.take_zero, List.nil_append, List.drop_zero, List.take_length, Nat.zero_add,
      overlay]
  refine (fwp_orFault_some hb s w').2 ?_
  by_cases hnul : (0 : UInt8) ∈ b.bytes.drop 20
  · obtain ⟨p, rest, hp, htext⟩ := exists_text hnul
    obtain ⟨buf, rest', hbuf, hbufBytes⟩ := snprintfString_eq s.readBuf (by decide) hp rest
    rw [← htext] at hbuf
    have hend : cString (b.bytes.drop 20) = some p := by
      rw [htext]
      exact cString_text hp rest
    refine (fwp_orFault_some hend _ w').2 ((fwp_orFault_some hbuf _ w').2 ?_)
    by_cases hfull : r.data.length < 1024
    · obtain ⟨cut, hcut, hcutBytes⟩ := putNul_eq buf hfull
      rw [hlen] at hcut
      have hshown : cString cut.bytes = some (shownText s.recvMsg.bytes r.data) := by
        have hq : (0 : UInt8) ∉ p.take 1023 := fun hmem => hp (List.mem_of_mem_take hmem)
        rw [hcutBytes, cString, if_pos (List.mem_append_right _ List.mem_cons_self),
          hbufBytes, takeWhile_cut hq, shownText, ← hover, htext, takeWhile_text hp,
          List.take_take, Nat.min_eq_left (by omega)]
      have hsafe : ¬ Overruns s.recvMsg.bytes r.data := by
        rintro (hbig | hno)
        · omega
        · rw [← hover] at hno
          exact hno hnul
      refine (fwp_orFault_some hcut _ w').2 ((fwp_orFault_some hshown _ w').2 ?_)
      exact hshow r w' _ hk hpos hsafe hover
    · have hbig : r.data.length = 1024 := by omega
      refine (fwp_orFault_none (putNul_none buf ?_) _ w').2 (hfault r w' _ hk hpos (.inl hbig))
      right
      omega
  · refine (fwp_orFault_none (if_neg hnul) _ w').2 (hfault r w' _ hk hpos (.inr ?_))
    rw [← hover]
    exact hnul

/-- An empty string in `msg`. -/
theorem fwp_clientSend_empty (hmsg : strlen s.msg.bytes = 0) (hF : F w s) :
    fwp (blind K) P Q F (clientSend fd s) w := by
  have hnone : putNul s.msg (strlen s.msg.bytes - 1) = none := by
    apply putNul_none
    left
    rw [hmsg]
    decide
  unfold clientSend
  simp only [fwp_bind, fwp_state]
  exact (fwp_orFault_none hnone s w).2 hF

/-- A text in `msg`, which loses its last byte, is written as a message. -/
theorem fwp_clientSend (hmsg : HoldsLine s.msg)
    (hwrite : ∀ s' buf count, s'.recvMsg = s.recvMsg → buf.length = 1044 → 20 ≤ count →
      count ≤ 1042 →
      P w s' (.write fd buf count) ∧
        ∀ r w', K w (.write fd buf count) r w' →
          (r.ret ≤ 0 → Q w' s' false) ∧
            (0 < r.ret → fwp (blind K) P Q F (clientRecv fd s') w')) :
    fwp (blind K) P Q F (clientSend fd s) w := by
  obtain ⟨p, x, rest, hmsg, hp⟩ := hmsg
  obtain ⟨line, text, m, hline, htext, hm, hhdr, hdata, -, hsize⟩ := exists_request s hmsg hp
  have hprint : ∃ shown, cString m.data.bytes = some shown := by
    refine ⟨_, if_pos ?_⟩
    rw [hdata, List.mem_append, List.mem_replicate]
    exact .inr ⟨by omega, rfl⟩
  obtain ⟨shown, hshown⟩ := hprint
  have hcount : jmpGetMsgLength m = (p.length + 20 : Nat) := by
    rw [jmpGetMsgLength, hhdr, jmpHeader, BitVec.toNat_ofNat]
    omega
  unfold clientSend
  simp only [fwp_bind, fwp_state, fwp_update, fwp_prog_call, fwp_ite, fwp_pure,
    fwp_orFault_some hline, fwp_orFault_some htext, fwp_orFault_some hm,
    fwp_orFault_some hshown, hcount]
  obtain ⟨hP, hrest⟩ := hwrite { s with msg := line, sendBuf := text, sendMsg := m } m.bytes
    (p.length + 20 : Nat) rfl m.length_bytes (by omega) (by omega)
  refine ⟨hP, fun r w' hk => ⟨(hrest r w' hk).1, fun hret => ?_⟩⟩
  exact (hrest r w' hk).2 (by omega)

/-- One iteration up to its `read`. -/
theorem fwp_clientRound (hfit : ∀ r w', K w (.fgets 1024) r w' → Possible (.fgets 1024) r)
    (hP : ∀ s', s'.recvMsg = s.recvMsg → P w s' (.fgets 1024))
    (hend : ∀ r w' s', K w (.fgets 1024) r w' → ¬ NoLine r → s'.recvMsg = s.recvMsg →
      Q w' s' false)
    (hfault : ∀ r w' s', K w (.fgets 1024) r w' → NoLine r → F w' s')
    (hwrite : ∀ r w' s' buf count, K w (.fgets 1024) r w' → ¬ NoLine r →
      s'.recvMsg = s.recvMsg → buf.length = 1044 → 20 ≤ count → count ≤ 1042 →
      P w' s' (.write fd buf count) ∧
        ∀ r' w'', K w' (.write fd buf count) r' w'' →
          (r'.ret ≤ 0 → Q w'' s' false) ∧
            (0 < r'.ret → fwp (blind K) P Q F (clientRecv fd s') w'')) :
    fwp (blind K) P Q F (clientRound fd s) w := by
  -- of the zeros only that they are an empty string is used
  have hzeros := strlen_zeros 1024
  unfold clientRound
  generalize Buf.zeros 1024 = zeros at hzeros ⊢
  simp only [fwp_bind, fwp_prog_call, fwp_ite, fwp_pure, fwp_state, fwp_update]
  refine ⟨hP _ rfl, fun r w' hk => ⟨fun hneg => ⟨fun hintr => ?_, fun hno => ?_⟩, fun hret => ?_⟩⟩
  · refine hend r w' _ hk ?_ rfl
    rw [NoLine, if_pos hneg]
    exact fun hne => hne hintr
  · -- `msg` is as `memset` left it
    have hnoLine : NoLine r := by
      rw [NoLine, if_pos hneg]
      exact hno
    exact fwp_clientSend_empty hzeros (hfault r w' _ hk hnoLine)
  · have hstored : r.ret < 0 ∨ (1 ≤ r.data.length ∧ r.data.length < 1024) := hfit r w' hk
    have hbounds := hstored.resolve_left hret
    have hcopy := exists_line zeros hbounds.1 hbounds.2
    generalize zeros.memcpy 0 (r.data ++ [0]) 0 (r.data.length + 1) = copied at hcopy ⊢
    obtain ⟨b, hb, hmsg⟩ := hcopy
    refine (fwp_orFault_some hb _ w').2 ?_
    rcases hmsg with ⟨hfirst, hempty⟩ | ⟨hfirst, hline⟩
    · have hnoLine : NoLine r := by
        rw [NoLine, if_neg hret]
        exact hfirst
      exact fwp_clientSend_empty hempty (hfault r w' _ hk hnoLine)
    · have hsome : ¬ NoLine r := by
        rw [NoLine, if_neg hret]
        exact hfirst
      exact fwp_clientSend hline fun s' buf count hrecv hlen hlow hhigh =>
        hwrite r w' s' buf count hk hsome hrecv hlen hlow hhigh

end Rounds

/-! ## Whole runs -/

/-- A call that stores nothing in `recv_msg` and shows nothing, and behind
which the client goes on or ends. -/
inductive Quiet (fd : Int) : ClientEvent → Prop
  | fgets {r : Answer} (hline : ¬ NoLine r) : Quiet fd (.fgets 1024, r)
  | write {buf : Bytes} {count : Int} {r : Answer} (hlen : buf.length = 1044)
      (hlow : 20 ≤ count) (hhigh : count ≤ 1042) : Quiet fd (.write fd buf count, r)
  | read {r : Answer} (hret : r.ret ≤ 0) : Quiet fd (.read fd 1024, r)

theorem Quiet.receivedBy {fd : Int} {e : ClientEvent} (h : Quiet fd e) : receivedBy e = [] := by
  cases h with
  | fgets hline => rfl
  | write hlen hlow hhigh => rfl
  | read hret => exact if_neg (by omega)

/-- A law about the client: `I` holds between two calls, `T` where a text is
shown, and `F` behind a fault. -/
structure SessionLaw (fd : Int) (I : List ClientEvent → Client → Prop)
    (T : List ClientEvent → Client → Bytes → Prop) (F : List ClientEvent → Prop) : Prop where
  frame : ∀ {w s s'}, I w s → s'.recvMsg = s.recvMsg → I w s'
  quiet : ∀ {w s e}, I w s → Quiet fd e → I (w ++ [e]) s
  line : ∀ {w s r}, I w s → NoLine r → F (w ++ [(.fgets 1024, r)])
  overrun : ∀ {w s r}, I w s → 0 < r.ret → Overruns s.recvMsg.bytes r.data →
    F (w ++ [(.read fd 1024, r)])
  read : ∀ {w s s' r}, I w s → 0 < r.ret → ¬ Overruns s.recvMsg.bytes r.data →
    s'.recvMsg.bytes = overlay s.recvMsg.bytes r.data →
    T (w ++ [(.read fd 1024, r)]) s' (shownText s.recvMsg.bytes r.data)
  shows : ∀ {w s text bytes r}, T w s text → I (w ++ [(.shows text bytes, r)]) s

/-- What a law says at a call.  A `write` takes its bytes from one message. -/
def Calls (I : List ClientEvent → Client → Prop)
    (T : List ClientEvent → Client → Bytes → Prop) (w : List ClientEvent) (s : Client) :
    ClientCall → Prop
  | .write _ buf count => I w s ∧ buf.length = 1044 ∧ 20 ≤ count ∧ count ≤ 1042
  | .shows text _ => T w s text
  | .fgets _ | .read _ _ => I w s

namespace SessionLaw

variable {fd : Int} {I : List ClientEvent → Client → Prop}
  {T : List ClientEvent → Client → Bytes → Prop} {F : List ClientEvent → Prop}

/-- Another iteration. -/
theorem round (law : SessionLaw fd I T F) {s : Client} {w : List ClientEvent} (h : I w s) :
    fwp (blind sessionKernel) (Calls I T) (fun w s (_ : Bool) => I w s) (fun w _ => F w)
      (clientRound fd s) w := by
  refine fwp_clientRound (fun r w' hk => (sessionKernel_eq hk).1) ?_ ?_ ?_ ?_
  · intro s' hs
    exact law.frame h hs
  · intro r w' s' hk hline hs
    obtain ⟨-, rfl⟩ := sessionKernel_eq hk
    exact law.frame (law.quiet h (.fgets hline)) hs
  · intro r w' s' hk hline
    obtain ⟨-, rfl⟩ := sessionKernel_eq hk
    exact law.line h hline
  · intro r w' s' buf count hk hline hs hlen hlow hhigh
    obtain ⟨-, rfl⟩ := sessionKernel_eq hk
    have hread : I (w ++ [(.fgets 1024, r)]) s' := law.frame (law.quiet h (.fgets hline)) hs
    refine ⟨⟨hread, hlen, hlow, hhigh⟩, fun r' w'' hk' => ?_⟩
    obtain ⟨-, rfl⟩ := sessionKernel_eq hk'
    have hsent := law.quiet (e := (.write fd buf count, r')) hread (.write hlen hlow hhigh)
    refine ⟨fun _ => hsent, fun _ => fwp_clientRecv (fun r w' hk => (sessionKernel_eq hk).1)
      hsent ?_ ?_ ?_⟩
    · intro r w' hk hret
      obtain ⟨-, rfl⟩ := sessionKernel_eq hk
      exact law.quiet hsent (.read hret)
    · intro r w' s'' hk hpos hover
      obtain ⟨-, rfl⟩ := sessionKernel_eq hk
      exact law.overrun hsent hpos hover
    · intro r w' s'' hk hpos hsafe hs''
      obtain ⟨-, rfl⟩ := sessionKernel_eq hk
      have hshow := law.read hsent hpos hsafe hs''
      refine ⟨hshow, fun r' w'' hk' => ?_⟩
      obtain ⟨-, rfl⟩ := sessionKernel_eq hk'
      exact law.shows hshow

/-- Whole runs. -/
theorem reach (law : SessionLaw fd I T F) {s : Client} (h : I [] s) {c : SessionConfig}
    (hc : Session fd s c) :
    fwp (blind sessionKernel) (Calls I T) (fun w s (_ : Bool) => I w s) (fun w _ => F w)
      c.node c.world :=
  fwp_reach (Q := fun w s (_ : Bool) => I w s) (fun _ _ _ _ _ hI => law.round hI) hc h

end SessionLaw

end ZeroCopyProxy.Ports.ClientSession
