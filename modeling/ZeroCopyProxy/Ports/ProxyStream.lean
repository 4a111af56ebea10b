import ZeroCopyProxy.Ports.ProxyRelay
import ZeroCopyProxy.Ports.Kernel

/-!
# What the proxy forwards

One direction of a connection, for any bytes a peer may send and any answers
to the receiving calls.  The only assumption is that a header `write` moves
all 20 bytes or nothing.

The phases now say what the bytes are.  Between two messages everything
consumed has been written and the pipe is empty (`Idle`); a header array with
the pipe behind it is what was consumed since (`Receiving`, `Received`); once
the header is gone the pipe alone is what is left (`Sending`).  A header that
came in pieces or was rejected leaves the direction `Stuck`: the counter
stays positive, so the next header read starts behind the first byte of a
cleared array and is rejected as well, for ever.
-/

namespace ZeroCopyProxy.Ports.ProxyStream

open ZeroCopyProxy.Verified.Resumption
open ZeroCopyProxy.Verified.PrefixCode
open ZeroCopyProxy.Ports.Posix
open ZeroCopyProxy.Ports.Kernel
open ZeroCopyProxy.Ports.Frame
open ZeroCopyProxy.Ports.TranscHeader
open ZeroCopyProxy.Ports.ProxyRelay

/-- Header writes move all 20 bytes or fail. -/
def WholeHeaderWrites (_ : Host) (op : SysCall) (r : Answer) : Prop :=
  match op with
  | .write _ .hdr _ _ => r.ret ≤ 0 ∨ r.ret = 20
  | _ => True

instance (w : Host) (op : SysCall) (r : Answer) :
    Decidable (WholeHeaderWrites w op r) :=
  match op with
  | .write _ .hdr _ _ => inferInstanceAs (Decidable (r.ret ≤ 0 ∨ r.ret = 20))
  | .write _ .body _ _ | .read .. | .spliceIn .. | .spliceOut .. | .close _ | .getsockopt _
  | .epollWait => .isTrue trivial

/-! ## Headers that end the forwarding -/

/-- A header read on `fd` that was short or brought a header to reject. -/
def Spoils (fd : Int) (ev : Event) : Prop :=
  match ev with
  | (.read f .hdr _, r) =>
      f = fd ∧ 0 < r.ret ∧ (r.ret < 20 ∨ ¬ Accepted .big r.moved)
  | _ => False

/-- A call that wrote something to `peer`. -/
def Emits (peer : Int) (ev : Event) : Prop :=
  match ev with
  | (.write f _ _ _, r) => f = peer ∧ 0 < r.ret
  | (.spliceOut _ f _, r) => f = peer ∧ 0 < r.ret
  | _ => False

/-- No header has been short or rejected so far. -/
def Clean (e : Ends) (w : Host) : Prop := ∀ ev ∈ w.log, ¬ Spoils e.fd ev

/-- After a short or rejected header nothing more was written. -/
def SilentAfter (e : Ends) (log : List Event) : Prop :=
  ∀ pre ev post, log = pre ++ ev :: post → Spoils e.fd ev →
    ∀ ev' ∈ post, ¬ Emits e.peer ev'

theorem Clean.after {e : Ends} {w : Host} (h : Clean e w) {op : SysCall} {r : Answer}
    (hev : ¬ Spoils e.fd (op, r)) : Clean e (w.after op r) := by
  intro ev hmem
  rw [Host.after_log, List.mem_append, List.mem_singleton] at hmem
  rcases hmem with hmem | rfl
  · exact h ev hmem
  · exact hev

theorem Clean.silent {e : Ends} {w : Host} (h : Clean e w) : SilentAfter e w.log := by
  intro pre ev post hlog hev
  exact absurd hev (h ev (by simp [hlog]))

/-- Where a call can stand in a log with one more entry. -/
theorem split_snoc {log pre post : List Event} {ev ev' : Event}
    (h : log ++ [ev] = pre ++ ev' :: post) :
    post = [] ∧ pre = log ∨ ∃ post', post = post' ++ [ev] ∧ log = pre ++ ev' :: post' := by
  rcases List.eq_nil_or_concat post with rfl | ⟨post', last, rfl⟩
  · exact .inl ⟨rfl, (List.append_inj' h rfl).1.symm⟩
  · rw [List.concat_eq_append, ← List.cons_append, ← List.append_assoc] at h
    obtain ⟨hpre, hlast⟩ := List.append_inj' h rfl
    rw [List.singleton_inj] at hlast
    exact .inr ⟨post', by rw [List.concat_eq_append, hlast], hpre⟩

/-- The first call that spoils is silent: nothing has been written after it. -/
theorem Clean.silent_snoc {e : Ends} {w : Host} (h : Clean e w) (ev : Event) :
    SilentAfter e (w.log ++ [ev]) := by
  intro pre ev' post hlog hsp ev'' hmem
  rcases split_snoc hlog with ⟨rfl, _⟩ | ⟨post', _, hpre⟩
  · cases hmem
  · exact absurd hsp (h ev' (by simp [hpre]))

theorem SilentAfter.snoc {e : Ends} {log : List Event} (h : SilentAfter e log)
    {ev : Event} (hev : ¬ Emits e.peer ev) : SilentAfter e (log ++ [ev]) := by
  intro pre ev' post hlog hsp ev'' hmem
  rcases split_snoc hlog with ⟨rfl, _⟩ | ⟨post', rfl, hpre⟩
  · cases hmem
  · rw [List.mem_append, List.mem_singleton] at hmem
    rcases hmem with hmem | rfl
    · exact h pre ev' post' hpre hsp ev'' hmem
    · exact hev

/-! ## The phases -/

/-- Everything consumed has been written, message by message. -/
structure Idle (e : Ends) (w : Host) : Prop where
  clean : Clean e w
  empty : w.piped e.pipe = []
  relayed : ∃ fs : List (Message .big),
    w.written e.peer = join fs ∧ w.consumed e.fd = join fs

/-- The header array and the pipe hold what was consumed and not written. -/
structure Held (e : Ends) (w : Host) (t : Transc) : Prop where
  clean : Clean e w
  unsent : t.sendBytes = 0
  received : t.recvBytes = 20 + (w.piped e.pipe).length
  relayed : ∃ fs : List (Message .big), w.written e.peer = join fs ∧
    w.consumed e.fd = join fs ++ (t.readHdrBuf.bytes ++ w.piped e.pipe)

/-- An accepted header has arrived, and a proper part of its body. -/
structure Receiving (e : Ends) (w : Host) (t : Transc) : Prop extends Held e w t where
  accepted : Accepted .big t.readHdrBuf.bytes
  length_eq : t.length = len24 .big t.readHdrBuf.bytes
  unfinished : t.recvBytes < t.length

/-- A whole message has arrived. -/
structure Received (e : Ends) (w : Host) (t : Transc) : Prop extends Held e w t where
  whole : IsFrame .big (t.readHdrBuf.bytes ++ w.piped e.pipe)

/-- The header is written; the rest of the message is in the pipe. -/
structure Sending (e : Ends) (w : Host) (t : Transc) : Prop where
  clean : Clean e w
  counted : t.recvBytes = (w.piped e.pipe).length
  unfinished : w.piped e.pipe ≠ []
  relayed : ∃ (fs : List (Message .big)) (f : Message .big) (x : Bytes),
    f.1 = x ++ w.piped e.pipe ∧ x ≠ [] ∧ w.written e.peer = join fs ++ x ∧
      w.consumed e.fd = join fs ++ f.1

/-- A header was short or rejected; nothing was written since. -/
structure Stuck (e : Ends) (w : Host) : Prop where
  silent : SilentAfter e w.log
  relayed : ∃ (fs : List (Message .big)) (ev : Event), ev ∈ w.log ∧ Spoils e.fd ev ∧
    w.written e.peer = join fs ∧ join fs ++ ev.2.moved <+: w.consumed e.fd

/-- A direction whose headers were all good is not stuck. -/
theorem Stuck.not_clean {e : Ends} {w : Host} (h : Stuck e w) : ¬ Clean e w := by
  obtain ⟨_, ev, hmem, hbad, _⟩ := h.relayed
  intro hclean
  exact hclean ev hmem hbad

/-- The phases of one direction by the bytes on its way. -/
def streamPhases (e : Ends) : Phases Host where
  hdr w t := t.Flags 0 0 0 0 ∧ t.sendBytes = 0 ∧
    (t.recvBytes = 0 ∧ Idle e w ∨ 0 < t.recvBytes ∧ t.recvBytes ≤ 20 ∧ Stuck e w)
  body w t := t.Flags 1 0 0 0 ∧ Receiving e w t
  sendHdr w t := t.Flags 1 1 0 0 ∧ Received e w t
  sendBody w t := t.Flags 1 1 1 0 ∧ Sending e w t
  sent w t := t.Flags 1 1 1 1 ∧ Idle e w

/-! ## What is visible in every phase -/

/-- The bytes a direction holds back, as its flags tell. -/
def held (t : Transc) (piped : Bytes) : Bytes :=
  if t.isSendHeader = 1 then piped
  else if t.isRecvHeader = 1 then t.readHdrBuf.bytes ++ piped
  else []

/-- What every phase guarantees: only whole consumed messages are written,
nothing after a bad header, and nothing is lost unless a header was bad. -/
structure Relayed (e : Ends) (w : Host) (t : Transc) : Prop where
  whole : ∃ fs : List (Message .big),
    w.written e.peer <+: join fs ∧ join fs <+: w.consumed e.fd
  silent : SilentAfter e w.log
  parsed : ∃ (fs : List (Message .big)) (x : Bytes), w.written e.peer = join fs ++ x ∧
    Partial (IsFrame .big) x ∧ (x = [] ↔ t.isSendHeader ≠ 1)
  exact : w.written e.peer ++ held t (w.piped e.pipe) = w.consumed e.fd ∨ Stuck e w

theorem relayed_of_idle {e : Ends} {w : Host} {t : Transc} (hrh : t.isRecvHeader = 0)
    (hsh : t.isSendHeader = 0) (h : Idle e w) : Relayed e w t := by
  obtain ⟨fs, hw, hc⟩ := h.relayed
  refine ⟨⟨fs, ?_, ?_⟩, h.clean.silent, ⟨fs, [], ?_, .nil, by simp [hsh]⟩, .inl ?_⟩
  · simp [hw]
  · simp [hc]
  · rw [hw, List.append_nil]
  · have hheld : held t (w.piped e.pipe) = [] := by simp [held, hrh, hsh]
    rw [hheld, hw, hc, List.append_nil]

theorem relayed_of_stuck {e : Ends} {w : Host} {t : Transc} (hsh : t.isSendHeader = 0)
    (h : Stuck e w) : Relayed e w t := by
  obtain ⟨fs, ev, _, _, hw, hc⟩ := h.relayed
  refine ⟨⟨fs, ?_, (List.prefix_append _ _).trans hc⟩, h.silent,
    ⟨fs, [], ?_, .nil, by simp [hsh]⟩, .inr h⟩
  · simp [hw]
  · rw [hw, List.append_nil]

theorem relayed_of_held {e : Ends} {w : Host} {t : Transc} (hrh : t.isRecvHeader = 1)
    (hsh : t.isSendHeader = 0) (h : Held e w t) : Relayed e w t := by
  obtain ⟨fs, hw, hc⟩ := h.relayed
  refine ⟨⟨fs, ?_, ?_⟩, h.clean.silent, ⟨fs, [], ?_, .nil, by simp [hsh]⟩, .inl ?_⟩
  · simp [hw]
  · rw [hc]
    exact List.prefix_append _ _
  · rw [hw, List.append_nil]
  · have hheld : held t (w.piped e.pipe) = t.readHdrBuf.bytes ++ w.piped e.pipe := by
      simp [held, hrh, hsh]
    rw [hheld, hw, hc]

theorem relayed_of_sending {e : Ends} {w : Host} {t : Transc} (hsh : t.isSendHeader = 1)
    (h : Sending e w t) : Relayed e w t := by
  obtain ⟨fs, f, x, hf, hx, hw, hc⟩ := h.relayed
  have hpart : Partial (IsFrame .big) x := by
    refine .inr ⟨w.piped e.pipe, h.unfinished, ?_⟩
    rw [← hf]
    exact f.2
  refine ⟨⟨fs ++ [f], ?_, ?_⟩, h.clean.silent,
    ⟨fs, x, hw, hpart, by simp [hsh, hx]⟩, .inl ?_⟩
  · rw [hw, join_append, join_cons, join_nil, List.append_nil, hf, ← List.append_assoc]
    exact List.prefix_append _ _
  · simp [hc]
  · have hheld : held t (w.piped e.pipe) = w.piped e.pipe := by simp [held, hsh]
    rw [hheld, hw, hc, hf, List.append_assoc]

theorem relayed_of_hdr {e : Ends} {w : Host} {t : Transc}
    (h : (streamPhases e).hdr w t) : Relayed e w t := by
  obtain ⟨hf, _, ⟨_, hidle⟩ | ⟨_, _, hstuck⟩⟩ := h
  · exact relayed_of_idle hf.recvHeader hf.sendHeader hidle
  · exact relayed_of_stuck hf.sendHeader hstuck

/-- Between two calls of `proxy_process_data`. -/
theorem relayed_of_inv {e : Ends} {w : Host} {t : Transc}
    (h : (streamPhases e).Inv w t) : Relayed e w t := by
  cases h with
  | hdr h => exact relayed_of_hdr h
  | body h => exact relayed_of_held h.1.recvHeader h.1.sendHeader h.2.toHeld
  | sendHdr h => exact relayed_of_held h.1.recvHeader h.1.sendHeader h.2.toHeld
  | sendBody h => exact relayed_of_sending h.1.sendHeader h.2

/-! ## Steps that leave a direction alone -/

/-- A step that moves no byte of this direction. -/
structure Untouched (e : Ends) (w w' : Host) : Prop where
  consumed : w'.consumed e.fd = w.consumed e.fd
  piped : w'.piped e.pipe = w.piped e.pipe
  written : w'.written e.peer = w.written e.peer
  log : ∃ ev, w'.log = w.log ++ [ev] ∧ ¬ Spoils e.fd ev ∧ ¬ Emits e.peer ev

theorem not_spoils_of_idle {fd : Int} {op : SysCall} {r : Answer} (hr : r.ret ≤ 0) :
    ¬ Spoils fd (op, r) := by
  intro h
  cases op with
  | read fd area n =>
      cases area with
      | hdr => exact absurd h.2.1 (by omega)
      | body => exact h
  | _ => exact h

theorem not_spoils_of_source {fd : Int} {op : SysCall} (h : source op ≠ some fd)
    (r : Answer) : ¬ Spoils fd (op, r) := by
  intro hbad
  cases op with
  | read f area n =>
      cases area with
      | hdr => exact h (congrArg some hbad.1)
      | body => exact hbad
  | _ => exact hbad

theorem not_emits_of_idle {peer : Int} {op : SysCall} {r : Answer} (hr : r.ret ≤ 0) :
    ¬ Emits peer (op, r) := by
  intro h
  cases op with
  | write fd area buf n => exact absurd h.2 (by omega)
  | spliceOut pipe fd n => exact absurd h.2 (by omega)
  | _ => exact h

/-- A call that fails or moves nothing. -/
theorem untouched_of_idle (e : Ends) (w : Host) (op : SysCall) {r : Answer}
    (hr : r.ret ≤ 0) : Untouched e w (w.after op r) := by
  obtain ⟨hc, hp, hw⟩ := w.after_idle r op hr
  exact ⟨by rw [hc], by rw [hp], by rw [hw], (op, r), w.after_log op r,
    not_spoils_of_idle hr, not_emits_of_idle hr⟩

/-- A call of the other direction. -/
theorem untouched_of_apart {e e' : Ends} (ha : e'.Apart e) (w : Host) {op : SysCall}
    (hop : e'.Addresses op) (r : Answer) : Untouched e w (w.after op r) := by
  obtain ⟨hc, hp, hw⟩ := w.after_apart ha hop r
  refine ⟨hc, hp, hw, (op, r), w.after_log op r, ?_, ?_⟩
  · intro h
    cases op with
    | read fd area n =>
        cases area with
        | hdr => exact ha.fd (hop.symm.trans h.1)
        | body => exact h
    | _ => exact h
  · intro h
    cases op with
    | write fd area buf n => exact ha.peer (hop.symm.trans h.1)
    | spliceOut pipe fd n => exact ha.peer (hop.2.symm.trans h.1)
    | _ => exact h

section Frame

variable {e : Ends} {w w' : Host} {t : Transc}

theorem Untouched.clean (h : Untouched e w w') (hc : Clean e w) : Clean e w' := by
  obtain ⟨ev, hlog, hsp, _⟩ := h.log
  intro ev' hmem
  rw [hlog, List.mem_append, List.mem_singleton] at hmem
  rcases hmem with hmem | rfl
  · exact hc ev' hmem
  · exact hsp

theorem Untouched.idle (h : Untouched e w w') (hi : Idle e w) : Idle e w' where
  clean := h.clean hi.clean
  empty := by rw [h.piped, hi.empty]
  relayed := by
    rw [h.written, h.consumed]
    exact hi.relayed

theorem Untouched.held (h : Untouched e w w') (hi : Held e w t) : Held e w' t where
  clean := h.clean hi.clean
  unsent := hi.unsent
  received := by rw [h.piped, hi.received]
  relayed := by
    rw [h.written, h.consumed, h.piped]
    exact hi.relayed

theorem Untouched.sending (h : Untouched e w w') (hi : Sending e w t) :
    Sending e w' t where
  clean := h.clean hi.clean
  counted := by rw [h.piped, hi.counted]
  unfinished := by
    rw [h.piped]
    exact hi.unfinished
  relayed := by
    rw [h.written, h.consumed, h.piped]
    exact hi.relayed

theorem Untouched.stuck (h : Untouched e w w') (hi : Stuck e w) : Stuck e w' where
  silent := by
    obtain ⟨ev, hlog, _, hem⟩ := h.log
    rw [hlog]
    exact hi.silent.snoc hem
  relayed := by
    obtain ⟨fs, bad, hmem, hbad, hw, hc⟩ := hi.relayed
    obtain ⟨ev, hlog, _, _⟩ := h.log
    refine ⟨fs, bad, ?_, hbad, ?_, ?_⟩
    · rw [hlog]
      exact List.mem_append_left _ hmem
    · rw [h.written, hw]
    · rw [h.consumed]
      exact hc

theorem Untouched.hdr (h : Untouched e w w') (hi : (streamPhases e).hdr w t) :
    (streamPhases e).hdr w' t :=
  ⟨hi.1, hi.2.1, hi.2.2.imp (And.imp_right h.idle)
    (And.imp_right (And.imp_right h.stuck))⟩

theorem Untouched.body (h : Untouched e w w') (hi : (streamPhases e).body w t) :
    (streamPhases e).body w' t :=
  ⟨hi.1, h.held hi.2.toHeld, hi.2.accepted, hi.2.length_eq, hi.2.unfinished⟩

theorem Untouched.sendHdr (h : Untouched e w w') (hi : (streamPhases e).sendHdr w t) :
    (streamPhases e).sendHdr w' t := by
  refine ⟨hi.1, h.held hi.2.toHeld, ?_⟩
  rw [h.piped]
  exact hi.2.whole

theorem Untouched.sendBody (h : Untouched e w w') (hi : (streamPhases e).sendBody w t) :
    (streamPhases e).sendBody w' t :=
  ⟨hi.1, h.sending hi.2⟩

/-- Steps that leave a direction alone keep it in its phase. -/
theorem Untouched.inv (h : Untouched e w w') (hi : (streamPhases e).Inv w t) :
    (streamPhases e).Inv w' t := by
  cases hi with
  | hdr hi => exact .hdr (h.hdr hi)
  | body hi => exact .body (h.body hi)
  | sendHdr hi => exact .sendHdr (h.sendHdr hi)
  | sendBody hi => exact .sendBody (h.sendBody hi)

end Frame

/-! ## The four functions -/

/-- A receiving call asks for a header where a message starts, or for the rest
of the message it is in. -/
def Asks (e : Ends) (w : Host) (op : SysCall) : Prop :=
  match op with
  | .read _ _ n =>
      (∃ fs : List (Message .big), w.consumed e.fd = join fs ∧ n = 20) ∨ Stuck e w
  | .spliceIn _ _ n => ∃ (fs : List (Message .big)) (x : Bytes),
      w.consumed e.fd = join fs ++ x ∧ 20 ≤ x.length ∧ Accepted .big x ∧
        x.length + n = len24 .big x
  | _ => True

/-- What is visible while the proxy waits in a call of this direction. -/
def CallRelayed (e : Ends) (w : Host) (t : Transc) (op : SysCall) : Prop :=
  Relayed e w t ∧ e.Addresses op ∧ Asks e w op

/-- What the next splice asks for is the rest of the message. -/
theorem Receiving.asks {e : Ends} {w : Host} {t : Transc} (h : Receiving e w t) (fd : Int)
    (pipe : Pipe) : Asks e w (.spliceIn fd pipe (t.length - t.recvBytes)) := by
  obtain ⟨fs, _, hc⟩ := h.relayed
  have hlt : 3 < t.readHdrBuf.bytes.length := by
    rw [t.readHdrBuf.size]
    decide
  have hrecv := h.received
  have hlen := h.length_eq
  refine ⟨fs, t.readHdrBuf.bytes ++ w.piped e.pipe, hc, ?_, ?_, ?_⟩
  · rw [List.length_append, t.readHdrBuf.size]
    omega
  · rw [accepted_append .big hlt]
    exact h.accepted
  · rw [len24_append .big hlt, List.length_append, t.readHdrBuf.size]
    omega

section Sound

variable {policy : Host → SysCall → Answer → Prop} {e : Ends} {w : Host} {t : Transc}

/-- A direction between two messages reads an accepted header. -/
theorem Idle.accept (h : Idle e w) (hs : t.sendBytes = 0) {r : Answer} {b : Buf 20}
    {n : Int} (hdata : r.moved = b.bytes) (hret : r.ret = 20)
    (hacc : Accepted .big b.bytes) :
    Receiving e (w.after (.read e.fd .hdr n) r)
      { t with readHdrBuf := b, length := len24 .big b.bytes, recvBytes := 20,
               isRecvHeader := 1 } where
  clean := by
    refine h.clean.after fun hsp => hsp.2.2.elim (fun hlt => ?_) fun hna => ?_
    · exact absurd hret (by omega)
    · rw [hdata] at hna
      exact hna hacc
  unsent := hs
  received := by
    rw [Host.after_read_piped, h.empty]
    rfl
  relayed := by
    obtain ⟨fs, hw, hc⟩ := h.relayed
    refine ⟨fs, hw, ?_⟩
    rw [Host.after_read_consumed, Host.after_read_piped, hc, h.empty, hdata,
      List.append_nil]
  accepted := hacc
  length_eq := rfl
  unfinished := by
    have hlt := hacc.2
    show (20 : Int) < (len24 .big b.bytes : Int)
    omega

/-- A direction between two messages reads a bad header. -/
theorem Idle.spoil (h : Idle e w) {r : Answer} {n : Int}
    (hsp : Spoils e.fd (.read e.fd .hdr n, r)) :
    Stuck e (w.after (.read e.fd .hdr n) r) where
  silent := by
    rw [Host.after_log]
    exact h.clean.silent_snoc _
  relayed := by
    obtain ⟨fs, hw, hc⟩ := h.relayed
    refine ⟨fs, _, ?_, hsp, hw, ?_⟩
    · rw [Host.after_log]
      exact List.mem_append_right _ (List.mem_singleton_self _)
    · simp [hc]

/-- A stuck direction may still consume, but it stays stuck. -/
theorem Stuck.read (h : Stuck e w) (r : Answer) (n : Int) :
    Stuck e (w.after (.read e.fd .hdr n) r) where
  silent := by
    rw [Host.after_log]
    exact h.silent.snoc fun hem => hem
  relayed := by
    obtain ⟨fs, bad, hmem, hbad, hw, hc⟩ := h.relayed
    refine ⟨fs, bad, ?_, hbad, hw, ?_⟩
    · rw [Host.after_log]
      exact List.mem_append_left _ hmem
    · rw [Host.after_read_consumed]
      exact hc.trans (List.prefix_append _ _)

theorem streamPhases_recvHeader (h : (streamPhases e).hdr w t) :
    wp (blind (hostKernel policy)) (CallRelayed e) (fun w' t' rv => match rv with
      | some c => c ≠ unknown ∧ (streamPhases e).hdr w' t'
      | none => (streamPhases e).body w' t')
      (recvHeader (fun t => transcGetMsgLength t endian) e.fd t) w := by
  have hrel := relayed_of_hdr h
  have hphase := h
  obtain ⟨hf, hs, hcase⟩ := h
  have h0 : 0 ≤ t.recvBytes := by
    rcases hcase with ⟨h0, _⟩ | ⟨h0, _⟩ <;> omega
  have h20 : t.recvBytes ≤ 20 := by
    rcases hcase with ⟨h0, _⟩ | ⟨_, h20, _⟩ <;> omega
  apply wp_recvHeader decodes_big (fun w _ => hostKernel_fits w) h0 h20
  · refine ⟨?_, rfl, ?_⟩
    · exact relayed_of_hdr (e := e) (t := { t with readHdrBuf := Buf.zeros 20 })
        ⟨⟨hf.1, hf.2, hf.3, hf.4⟩, hs, hcase⟩
    · rcases hcase with ⟨h0, hidle⟩ | ⟨_, _, hstuck⟩
      · obtain ⟨fs, _, hc⟩ := hidle.relayed
        exact .inl ⟨fs, hc, by omega⟩
      · exact .inr hstuck
  · rintro r w' ⟨_, _, rfl⟩ hret
    refine ⟨?_, (untouched_of_idle e w _ hret).hdr ⟨⟨hf.1, hf.2, hf.3, hf.4⟩, hs, hcase⟩⟩
    split
    · exact recvErrorCode_ne_unknown _
    · decide
  · rintro r w' b len ⟨⟨hfits, _⟩, _, rfl⟩ hpos hle hb hbad
    refine ⟨by decide, ⟨hf.1, hf.2, hf.3, hf.4⟩, hs, .inr ⟨?_, hle, ?_⟩⟩
    · show 0 < t.recvBytes + r.ret
      omega
    · rcases hcase with ⟨hr0, hidle⟩ | ⟨_, _, hstuck⟩
      · have hlen := hfits.2 (by omega)
        refine hidle.spoil ⟨rfl, hpos, ?_⟩
        rcases hbad with hne | hna
        · exact .inl (by omega)
        · by_cases hshort : r.ret < 20
          · exact .inl hshort
          · refine .inr ?_
            rw [hr0, Int.toNat_zero, received_zero (by omega)] at hb
            rwa [Answer.moved_eq hlen, ← hb]
      · exact hstuck.read r _
  · rintro r w' b ⟨⟨hfits, _⟩, _, rfl⟩ hpos hfull hb hacc
    have hr0 : t.recvBytes = 0 := by
      by_contra hne
      rw [hb] at hacc
      exact not_accepted_received (by omega) _ hacc
    have hlen := hfits.2 (by omega)
    have hidle : Idle e w := by
      rcases hcase with ⟨_, hidle⟩ | ⟨hpos, _⟩
      · exact hidle
      · omega
    refine ⟨⟨rfl, hf.2, hf.3, hf.4⟩, hidle.accept hs ?_ (by omega) hacc⟩
    rw [hb, hr0, Answer.moved_eq hlen, Int.toNat_zero, received_zero (by omega)]

/-- A direction takes in a part of the body. -/
theorem Held.receive (h : Held e w t) {r : Answer} {n : Int}
    (hlen : (r.moved.length : Int) = r.ret) {t' : Transc}
    (hhdr : t'.readHdrBuf = t.readHdrBuf) (hsend : t'.sendBytes = t.sendBytes)
    (hrecv : t'.recvBytes = t.recvBytes + r.ret) :
    Held e (w.after (.spliceIn e.fd e.pipe n) r) t' where
  clean := h.clean.after fun hsp => hsp
  unsent := by rw [hsend, h.unsent]
  received := by
    rw [Host.after_spliceIn_piped, List.length_append, hrecv, h.received]
    omega
  relayed := by
    obtain ⟨fs, hw, hc⟩ := h.relayed
    refine ⟨fs, hw, ?_⟩
    rw [Host.after_spliceIn_consumed, Host.after_spliceIn_piped, hc, hhdr]
    simp only [List.append_assoc]

/-- A body that has arrived completely makes a whole message. -/
theorem Held.isFrame (h : Held e w t) (hacc : Accepted .big t.readHdrBuf.bytes)
    (hfull : t.recvBytes = len24 .big t.readHdrBuf.bytes) :
    IsFrame .big (t.readHdrBuf.bytes ++ w.piped e.pipe) := by
  rw [isFrame_append_iff .big t.readHdrBuf.size]
  refine ⟨hacc, ?_⟩
  have hrecv := h.received
  omega

theorem streamPhases_recvBody (h : (streamPhases e).body w t) :
    wp (blind (hostKernel policy)) (CallRelayed e)
      (fun w' t' c => c ≠ unknown ∧
        ((streamPhases e).body w' t' ∨ (streamPhases e).sendHdr w' t'))
      (recvBody e.fd e.pipe t) w := by
  have hbody := h
  obtain ⟨hf, hr⟩ := h
  have hmoved : ∀ {r : Answer},
      r.Fits (.spliceIn e.fd e.pipe (t.length - t.recvBytes)) → 0 < r.ret →
      (r.moved.length : Int) = r.ret := by
    intro r hfits hpos
    have hlen := hfits.2 (by omega)
    rw [Answer.moved_eq hlen, hlen]
  apply wp_recvBody hf
  · exact ⟨relayed_of_held hf.recvHeader hf.sendHeader hr.toHeld, ⟨rfl, rfl⟩, hr.asks _ _⟩
  · rintro r w' ⟨_, _, rfl⟩ hret
    refine ⟨?_, .inl ((untouched_of_idle e w _ hret).body hbody)⟩
    split
    · exact recvErrorCode_ne_unknown _
    · decide
  · rintro r w' ⟨⟨hfits, _⟩, _, rfl⟩ hpos hne
    have hle : r.ret ≤ t.length - t.recvBytes := hfits.1
    refine ⟨by decide, .inl ⟨⟨hf.1, hf.2, hf.3, hf.4⟩, ?_, hr.accepted, hr.length_eq, ?_⟩⟩
    · exact hr.toHeld.receive (hmoved hfits hpos) rfl rfl rfl
    · show t.recvBytes + r.ret < t.length
      omega
  · rintro r w' ⟨⟨hfits, _⟩, _, rfl⟩ hpos hfull
    have hheld : Held e (w.after (.spliceIn e.fd e.pipe (t.length - t.recvBytes)) r)
        { t with recvBytes := t.recvBytes + r.ret, isRecvBody := 1 } :=
      hr.toHeld.receive (hmoved hfits hpos) rfl rfl rfl
    refine ⟨by decide, .inr ⟨⟨hf.1, rfl, hf.3, hf.4⟩, hheld, hheld.isFrame hr.accepted ?_⟩⟩
    exact hfull.trans hr.length_eq

/-- The header leaves in one piece. -/
theorem Received.send (h : Received e w t) {r : Answer} {n : Int} {b : Bytes}
    (hb : b = t.readHdrBuf.bytes) (hret : r.ret = 20) {t' : Transc}
    (hrecv : t'.recvBytes = t.recvBytes - r.ret) :
    Sending e (w.after (.write e.peer .hdr b n) r) t' where
  clean := h.clean.after fun hsp => hsp
  counted := by
    rw [Host.after_write_piped, hrecv, h.received, hret]
    omega
  unfinished := by
    have hlt := h.whole.twenty_lt
    rw [List.length_append, t.readHdrBuf.size] at hlt
    exact List.ne_nil_of_length_pos (by rw [Host.after_write_piped]; omega)
  relayed := by
    obtain ⟨fs, hw, hc⟩ := h.relayed
    have hhdr : t.readHdrBuf.bytes ≠ [] :=
      List.ne_nil_of_length_pos (by rw [t.readHdrBuf.size]; decide)
    refine ⟨fs, ⟨_, h.whole⟩, t.readHdrBuf.bytes, rfl, hhdr, ?_, hc⟩
    rw [Host.after_write_written, hw, hb, hret]
    congr 1
    exact List.take_of_length_le (by rw [t.readHdrBuf.size]; decide)

theorem streamPhases_sendHeader (hpolicy : ∀ w op r, policy w op r →
      WholeHeaderWrites w op r) (h : (streamPhases e).sendHdr w t) :
    wp (blind (hostKernel policy)) (CallRelayed e) (fun w' t' rv => match rv with
      | some c => c ≠ unknown ∧ (streamPhases e).sendHdr w' t'
      | none => (streamPhases e).sendHdr w' t' ∨ (streamPhases e).sendBody w' t')
      (sendHeader e.peer t) w := by
  obtain ⟨hf, hr⟩ := h
  apply wp_sendHeader_whole (fun w _ => hostKernel_fits w) hr.unsent
  · rintro b r w' ⟨_, hp, rfl⟩ hpos
    have hret : r.ret ≤ 0 ∨ r.ret = 20 := hpolicy _ _ _ hp
    omega
  · intro b _
    refine ⟨?_, rfl, True.intro⟩
    have hheld : Held e w { t with writeHdrBuf := b } :=
      ⟨hr.clean, hr.unsent, hr.received, hr.relayed⟩
    exact relayed_of_held hf.recvHeader hf.sendHeader hheld
  · rintro b r w' ⟨_, _, rfl⟩ hret
    refine ⟨sendErrorCode_ne_unknown _, (untouched_of_idle e w _ hret).sendHdr
      ⟨⟨hf.1, hf.2, hf.3, hf.4⟩, ⟨hr.clean, hr.unsent, hr.received, hr.relayed⟩, hr.whole⟩⟩
  · rintro b r w' hb ⟨_, _, rfl⟩ h20
    exact .inr ⟨⟨hf.1, hf.2, rfl, hf.4⟩, hr.send hb h20 rfl⟩

/-- A part of the body leaves. -/
theorem Sending.part (h : Sending e w t) {r : Answer} {n : Int} (h0 : 0 ≤ r.ret)
    (hle : r.ret ≤ (w.piped e.pipe).length) (hne : t.recvBytes - r.ret ≠ 0)
    {t' : Transc} (hrecv : t'.recvBytes = t.recvBytes - r.ret) :
    Sending e (w.after (.spliceOut e.pipe e.peer n) r) t' where
  clean := h.clean.after fun hsp => hsp
  counted := by
    have hcount := h.counted
    rw [Host.after_spliceOut_piped, List.length_drop, hrecv]
    omega
  unfinished := by
    have hcount := h.counted
    rw [Host.after_spliceOut_piped]
    exact List.ne_nil_of_length_pos (by rw [List.length_drop]; omega)
  relayed := by
    obtain ⟨fs, f, x, hf, hx, hw, hc⟩ := h.relayed
    have hne : x ++ (w.piped e.pipe).take r.ret.toNat ≠ [] := by
      intro hnil
      exact hx (List.append_eq_nil_iff.1 hnil).1
    refine ⟨fs, f, x ++ (w.piped e.pipe).take r.ret.toNat, ?_, hne, ?_, hc⟩
    · rw [Host.after_spliceOut_piped, hf, List.append_assoc, List.take_append_drop]
    · rw [Host.after_spliceOut_written, hw, List.append_assoc]

/-- The last part of the body leaves. -/
theorem Sending.finish (h : Sending e w t) {r : Answer} {n : Int}
    (hfull : t.recvBytes - r.ret = 0) :
    Idle e (w.after (.spliceOut e.pipe e.peer n) r) := by
  have hcount := h.counted
  have hall : (w.piped e.pipe).length ≤ r.ret.toNat := by omega
  refine ⟨h.clean.after fun hsp => hsp, ?_, ?_⟩
  · rw [Host.after_spliceOut_piped]
    exact List.drop_of_length_le hall
  · obtain ⟨fs, f, x, hf, _, hw, hc⟩ := h.relayed
    have hjoin : join (fs ++ [f]) = join fs ++ f.1 := by
      rw [join_append, join_cons, join_nil, List.append_nil]
    refine ⟨fs ++ [f], ?_, ?_⟩
    · rw [Host.after_spliceOut_written, hw, hjoin, List.take_of_length_le hall, hf,
        List.append_assoc]
    · rw [Host.after_spliceOut_consumed, hc, hjoin]

theorem streamPhases_sendBody (h : (streamPhases e).sendBody w t) :
    wp (blind (hostKernel policy)) (CallRelayed e)
      (fun w' t' c => c ≠ unknown ∧
        ((streamPhases e).sendBody w' t' ∨ (streamPhases e).sent w' t'))
      (sendBody e.pipe e.peer t) w := by
  have hphase := h
  obtain ⟨hf, hs⟩ := h
  apply wp_sendBody hf
  · exact ⟨relayed_of_sending hf.sendHeader hs, ⟨rfl, rfl⟩, True.intro⟩
  · rintro r w' ⟨_, _, rfl⟩ hret
    exact ⟨sendErrorCode_ne_unknown _,
      .inl ((untouched_of_idle e w _ (by omega)).sendBody hphase)⟩
  · rintro r w' ⟨⟨_, hle⟩, _, rfl⟩ h0 hne
    exact ⟨by decide, .inl ⟨⟨hf.1, hf.2, hf.3, hf.4⟩, hs.part h0 hle hne rfl⟩⟩
  · rintro r w' ⟨_, _, rfl⟩ _ hfull
    exact ⟨by decide, .inr ⟨⟨hf.1, hf.2, hf.3, rfl⟩, hs.finish hfull⟩⟩

/-- Under whole header writes each phase hands the message to the next. -/
theorem streamPhases_sound (hpolicy : ∀ w op r, policy w op r →
      WholeHeaderWrites w op r) (e : Ends) :
    (streamPhases e).Sound (blind (hostKernel policy)) (CallRelayed e) (· ≠ unknown) e.fd e.pipe
      e.peer where
  code_normal := by decide
  code_fdErr := by decide
  hdr_flags h := h.1
  body_flags h := h.1
  sendHdr_flags h := h.1
  sendBody_flags h := h.1
  sent_flags h := h.1
  recvHeader h := streamPhases_recvHeader h
  recvBody h := streamPhases_recvBody h
  sendHeader h := streamPhases_sendHeader hpolicy h
  sendBody h := streamPhases_sendBody h
  close := by
    intro w t c _ _ h
    refine ⟨⟨relayed_of_inv h, rfl, True.intro⟩, ?_⟩
    rintro r w' ⟨_, _, rfl⟩
    have hlink : Untouched e w (w.after (.close e.fd) r) :=
      ⟨rfl, rfl, rfl, _, Host.after_log _ _ _, fun hsp => hsp, fun hem => hem⟩
    exact hlink.inv h
  clear h := ⟨⟨rfl, rfl, rfl, rfl⟩, rfl, .inl ⟨rfl, h.2⟩⟩

end Sound

/-! ## Runs of a worker -/

/-- The ends of one direction of a worker. -/
def ends (d : WorkData) (dir : Dir) : Ends := ⟨d.source dir, d.pipe dir, d.peer dir⟩

theorem ends_apart (d : WorkData) {dir dir' : Dir} (h : dir ≠ dir') :
    (ends d dir).Apart (ends d dir') := by
  cases dir <;> cases dir'
  · exact absurd rfl h
  · exact ⟨d.fd_ne, d.pipe_ne, d.fd_ne.symm⟩
  · exact ⟨d.fd_ne.symm, d.pipe_ne.symm, d.fd_ne⟩
  · exact absurd rfl h

theorem idle_fresh (e : Ends) : Idle e Host.fresh where
  clean := by
    intro ev hmem
    cases hmem
  empty := rfl
  relayed := ⟨[], rfl, rfl⟩

/-- A direction of a worker that has just been set up. -/
theorem streamPhases_init (e : Ends) : (streamPhases e).Inv Host.fresh cleared :=
  .hdr ⟨⟨rfl, rfl, rfl, rfl⟩, rfl, .inl ⟨rfl, idle_fresh e⟩⟩

/-- The calls of a worker, and the states between them. -/
theorem streamPhases_reach {policy : Host → SysCall → Answer → Prop}
    (hpolicy : ∀ w op r, policy w op r → WholeHeaderWrites w op r) {d : WorkData}
    (h : ∀ dir, d.transc dir = cleared) {c : WorkerConfig Host}
    (hr : Reach (blind <| hostKernel policy) proxyConnEvent (fun _ => true)
      ⟨Host.fresh, .done d []⟩ c) :
    c.Shows
      (fun w d' op => ∃ dir, Waiting (fun dir => streamPhases (ends d dir))
        (fun dir => CallRelayed (ends d dir)) d dir w d' op)
      (fun w d' codes => (∀ c ∈ codes, c ≠ unknown) ∧
        Settled (fun dir => streamPhases (ends d dir)) d w d') := by
  have hinit : ∀ dir, (streamPhases (ends d dir)).Inv Host.fresh (d.transc dir) := by
    intro dir
    rw [h dir]
    exact streamPhases_init _
  have hother : ∀ {dir dir' w t op r w'} (t' : Transc), dir' ≠ dir →
      CallRelayed (ends d dir) w t op → hostKernel policy w op r w' →
      (streamPhases (ends d dir')).Inv w t' → (streamPhases (ends d dir')).Inv w' t' := by
    rintro dir dir' w t op r w' t' hne ⟨_, haddr, _⟩ ⟨_, _, rfl⟩ hi
    exact (untouched_of_apart (ends_apart d hne.symm) w haddr r).inv hi
  exact worker_reach (Φ := fun dir => streamPhases (ends d dir))
    (P := fun dir => CallRelayed (ends d dir))
    (fun dir => streamPhases_sound hpolicy (ends d dir)) hother hinit hr

/-- Whole runs: in both directions only whole consumed messages are written,
nothing after a bad header, and nothing is lost unless a header was bad. -/
theorem relayed_reach {policy : Host → SysCall → Answer → Prop}
    (hpolicy : ∀ w op r, policy w op r → WholeHeaderWrites w op r) {d : WorkData}
    (h : ∀ dir, d.transc dir = cleared) {c : WorkerConfig Host}
    (hr : Reach (blind <| hostKernel policy) proxyConnEvent (fun _ => true)
      ⟨Host.fresh, .done d []⟩ c) (dir : Dir) :
    Relayed (ends d dir) c.world (c.node.state.transc dir) ∧ c.node.faulted = false := by
  have hshows := streamPhases_reach hpolicy h hr
  obtain ⟨w, node⟩ := c
  cases node with
  | done s codes => exact ⟨relayed_of_inv (hshows.2.inv dir), rfl⟩
  | call s op k =>
      obtain ⟨dir', hw⟩ := hshows
      refine ⟨?_, rfl⟩
      by_cases hdir : dir = dir'
      · subst hdir
        exact hw.call.1
      · exact relayed_of_inv (hw.other dir hdir)
  | fault s => exact hshows.elim

/-- A call of a worker addresses the ends of one direction and asks for no more
than a message. -/
theorem call_reach {policy : Host → SysCall → Answer → Prop}
    (hpolicy : ∀ w op r, policy w op r → WholeHeaderWrites w op r) {d : WorkData}
    (h : ∀ dir, d.transc dir = cleared) {c : WorkerConfig Host}
    (hr : Reach (blind <| hostKernel policy) proxyConnEvent (fun _ => true)
      ⟨Host.fresh, .done d []⟩ c) {op : SysCall} (hop : c.node.waits = some op) :
    ∃ dir, (ends d dir).Addresses op ∧ Asks (ends d dir) c.world op := by
  obtain ⟨dir, hw⟩ := (streamPhases_reach hpolicy h hr).call hop
  exact ⟨dir, hw.call.2⟩

/-- A worker writes to its own two descriptors only. -/
theorem written_reach {policy : Host → SysCall → Answer → Prop}
    (hpolicy : ∀ w op r, policy w op r → WholeHeaderWrites w op r) {d : WorkData}
    (h : ∀ dir, d.transc dir = cleared) {c : WorkerConfig Host}
    (hr : Reach (blind <| hostKernel policy) proxyConnEvent (fun _ => true)
      ⟨Host.fresh, .done d []⟩ c) {fd : Int} (hfd : ∀ dir, fd ≠ d.peer dir) :
    c.world.written fd = [] := by
  induction hr with
  | refl => rfl
  | tail hr hs ih =>
      cases hs with
      | start e ha => exact ih
      | @answer _ _ _ op _ _ hk =>
          obtain ⟨_, _, rfl⟩ := hk
          obtain ⟨dir, haddr, _⟩ := call_reach hpolicy h hr rfl
          rw [Host.after_written, if_neg]
          · exact ih
          · intro hsink
            apply hfd dir
            cases op with
            | write f area buf n => exact (Option.some.inj hsink).symm.trans haddr
            | spliceOut pipe f n => exact (Option.some.inj hsink).symm.trans haddr.2
            | _ => cases hsink

/-- Malformed or truncated input is never forwarded: what is written is a
prefix of what was consumed and consists of messages that were consumed
whole, and after a short or rejected header nothing is written. -/
theorem malformed_never_forwarded {d : WorkData} (h : ∀ dir, d.transc dir = cleared)
    {c : WorkerConfig Host}
    (hr : Reach (blind <| hostKernel WholeHeaderWrites) proxyConnEvent (fun _ => true)
      ⟨Host.fresh, .done d []⟩ c) (dir : Dir) :
    c.world.written (d.peer dir) <+: c.world.consumed (d.source dir) ∧
      (∃ fs : List (Message .big), c.world.written (d.peer dir) <+: join fs ∧
        join fs <+: c.world.consumed (d.source dir)) ∧
      SilentAfter (ends d dir) c.world.log := by
  have hrel := (relayed_reach (fun _ _ _ hp => hp) h hr dir).1
  obtain ⟨fs, hw, hc⟩ := hrel.whole
  exact ⟨hw.trans hc, ⟨fs, hw, hc⟩, hrel.silent⟩

/-- A header announcing 22 bytes. -/
def sampleHeader : Bytes :=
  [1, 0, 0, 22, 0, 0, 0, 0, 0, 0, 0, 0, 0, 0, 0, 0, 0, 0, 0, 0]

/-- The message of 22 bytes with this header. -/
def sampleMessage : Message .big := ⟨sampleHeader ++ [7, 8], by decide⟩

/-- One message of 22 bytes is forwarded; seven bytes of the next header are
consumed and stay where they are. -/
theorem malformed_never_forwarded_short :
    ∃ c : WorkerConfig Host,
      c.world.written 4 <+: c.world.consumed 3 ∧
        SilentAfter (ends sampleWorker .ingoing) c.world.log ∧
        c.world.written 4 = sampleHeader ++ [7, 8] ∧
        c.world.consumed 3 = sampleHeader ++ [7, 8] ++ sampleHeader.take 7 := by
  have hrun : ∃ c : WorkerConfig Host, Reach (blind <| hostKernel WholeHeaderWrites)
      proxyConnEvent (fun _ => true) ⟨Host.fresh, .done sampleWorker []⟩ c ∧
      c.world.written 4 = sampleHeader ++ [7, 8] ∧
        c.world.consumed 3 = sampleHeader ++ [7, 8] ++ sampleHeader.take 7 :=
    exists_reach_of_exec (fun w _ => hostDeliver WholeHeaderWrites w) hostKernel_of_hostDeliver
      [.event 3, .answer (.stored sampleHeader), .answer (.stored [7, 8]),
        .answer (.count 20), .answer (.count 2), .event 3,
        .answer (.stored (sampleHeader.take 7)), .answer (.count 0), .event 3,
        .answer (.fail .eagain)]
      (fun c : WorkerConfig Host => c.world.written 4 = sampleHeader ++ [7, 8] ∧
        c.world.consumed 3 = sampleHeader ++ [7, 8] ++ sampleHeader.take 7) (by decide)
  obtain ⟨c, hc, hp⟩ := hrun
  have hmain := malformed_never_forwarded (d := sampleWorker)
    (fun dir => by cases dir <;> rfl) hc .ingoing
  exact ⟨c, hmain.1, hmain.2.2, hp⟩

end ZeroCopyProxy.Ports.ProxyStream
