import ZeroCopyProxy.Ports.ClientSession

/-!
# What the client shows

`jmp_set_msg` sends no NUL behind the text, and the client reads it into the
memory that the response before has left.  It ends the text at `recv_bytes`,
which counts the 20 bytes of the header, too.  So the memory behind the frame
decides where the text ends, and a short response is shown with the rest of a
longer one.
-/

namespace ZeroCopyProxy.Ports.ClientShows

open ZeroCopyProxy.Verified.Resumption
open ZeroCopyProxy.Ports.Posix
open ZeroCopyProxy.Ports.JmpMessage
open ZeroCopyProxy.Ports.ClientLoop
open ZeroCopyProxy.Ports.ClientSession

/-! ## Frames and texts -/

/-- A payload whose frame leaves room in `read_buf` for the NUL. -/
structure IsPayload (p : Bytes) : Prop where
  noNul : (0 : UInt8) ∉ p
  nonempty : 1 ≤ p.length
  size : p.length ≤ 1003

instance (p : Bytes) : Decidable (IsPayload p) :=
  decidable_of_iff ((0 : UInt8) ∉ p ∧ 1 ≤ p.length ∧ p.length ≤ 1003)
    ⟨fun h => ⟨h.1, h.2.1, h.2.2⟩, fun h => ⟨h.noNul, h.nonempty, h.size⟩⟩

theorem IsPayload.isText {p : Bytes} (h : IsPayload p) : IsText p :=
  ⟨h.noNul, Nat.le_trans h.size (by decide)⟩

/-- `data` is what is sent of a message that `jmp_set_msg` has made of `p`. -/
def Frames (p data : Bytes) : Prop :=
  ∃ msg version rest code m n,
    jmpSetMsg msg version (some (p ++ 0 :: rest)) code = some (m, n) ∧ data = jmpWire m

theorem Frames.eq_jmpFrame {p data : Bytes} (h : Frames p data) (hp : IsText p) :
    ∃ version code, data = jmpFrame version p code := by
  obtain ⟨msg, version, rest, code, m, n, hm, rfl⟩ := h
  obtain ⟨m', hm', -, -, hwire⟩ := jmpSetMsg_text msg version hp rest code
  obtain ⟨rfl, -⟩ := Prod.mk.inj (Option.some.inj (hm'.symm.trans hm))
  exact ⟨version, code, hwire⟩

theorem frames_jmpFrame (version : UInt8) {p : Bytes} (hp : IsText p) (code : UInt32) :
    Frames p (jmpFrame version p code) := by
  obtain ⟨m, hm, -, -, hwire⟩ :=
    jmpSetMsg_text ⟨jmpHeader 0 0 0, Buf.zeros 1024⟩ version hp [] code
  exact ⟨_, version, [], code, m, 1, hm, hwire.symm⟩

/-- The data behind a frame is its text and what stood there before. -/
theorem overlay_jmpFrame {m : Bytes} {version : UInt8} {p : Bytes} {code : UInt32}
    (hlen : 20 + p.length < m.length) :
    (overlay m (jmpFrame version p code)).drop 20 =
      p ++ byteAt m (20 + p.length) :: m.drop (20 + p.length + 1) := by
  have hbyte : m.drop (20 + p.length) =
      byteAt m (20 + p.length) :: m.drop (20 + p.length + 1) := by
    rw [byteAt, List.getD_eq_getElem?_getD, List.getElem?_eq_getElem hlen, Option.getD_some]
    exact List.drop_eq_getElem_cons hlen
  rw [overlay, length_jmpFrame, hbyte, jmpFrame, List.append_assoc]
  exact List.drop_left' (JmpHdr.length_bytes _)

/-- The text shown for a frame is its payload exactly if the byte behind it
was a NUL. -/
theorem shownText_jmpFrame {m : Bytes} (version : UInt8) {p : Bytes} (code : UInt32)
    (hp : (0 : UInt8) ∉ p) (hlen : 20 + p.length < m.length) :
    shownText m (jmpFrame version p code) = p ↔ byteAt m (20 + p.length) = 0 := by
  rw [shownText, overlay_jmpFrame hlen, length_jmpFrame]
  generalize byteAt m (20 + p.length) = x
  by_cases hx : x = 0
  · rw [hx, takeWhile_text hp, List.take_of_length_le (by omega)]
    exact iff_of_true rfl rfl
  · refine iff_of_false (fun h => ?_) hx
    have hall : ∀ y ∈ p, decide (y ≠ 0) = true := fun y hy =>
      decide_eq_true fun hzero => hp (hzero ▸ hy)
    have hlength := congrArg List.length h
    rw [List.takeWhile_append_of_pos hall, List.takeWhile_cons, decide_eq_true hx, if_pos rfl,
      List.length_take, List.length_append, List.length_cons] at hlength
    omega

/-- A frame behind which no NUL follows has none right behind it. -/
theorem not_overruns_jmpFrame {m : Bytes} {version : UInt8} {p : Bytes} {code : UInt32}
    (hp : p.length ≤ 1003) (hlen : 20 + p.length < m.length)
    (hbyte : byteAt m (20 + p.length) = 0) : ¬ Overruns m (jmpFrame version p code) := by
  rw [Overruns, length_jmpFrame, overlay_jmpFrame hlen, hbyte]
  rintro (hfull | hno)
  · omega
  · exact hno (List.mem_append_right p List.mem_cons_self)

/-! ## Responses and texts -/

/-- The text of a call that shows one. -/
def textOf : ClientCall → List Bytes
  | .shows text _ => [text]
  | _ => []

/-- The texts shown by these calls, in order. -/
def shown (calls : List ClientCall) : List Bytes := calls.flatMap textOf

/-- The texts the client has printed, the one it is about to print included. -/
def printed (c : SessionConfig) : List Bytes :=
  shown (c.world.map Prod.fst ++ c.node.waits.toList)

/-- For each response: its payload is shown exactly if the memory before it
had a NUL right behind the frame. -/
def Truthful (m : Bytes) (reads texts : List Bytes) : Prop :=
  ∀ i p data, IsPayload p → Frames p data → reads[i]? = some data →
    (texts[i]? = some p ↔ byteAt (memory m (reads.take i)) (20 + p.length) = 0)

/-- One more response and the text shown for it, if there is one. -/
theorem Truthful.snoc {m : Bytes} {reads texts : List Bytes} (h : Truthful m reads texts)
    (hlen : texts.length = reads.length) {data : Bytes} {text : Option Bytes}
    (hlast : ∀ p, IsPayload p → Frames p data →
      (text = some p ↔ byteAt (memory m reads) (20 + p.length) = 0)) :
    Truthful m (reads ++ [data]) (texts ++ text.toList) := by
  intro i p data' hp hframe hread
  rcases Nat.lt_trichotomy i reads.length with hi | rfl | hi
  · rw [List.getElem?_append_left hi] at hread
    rw [List.getElem?_append_left (by omega), List.take_append_of_le_length (by omega)]
    exact h i p data' hp hframe hread
  · rw [List.getElem?_concat_length] at hread
    obtain rfl := Option.some.inj hread
    have htext : (texts ++ text.toList)[reads.length]? = text := by
      rw [← hlen, List.getElem?_append_right (Nat.le_refl _), Nat.sub_self]
      cases text <;> rfl
    rw [htext, List.take_left]
    exact hlast p hp hframe
  · rw [List.getElem?_eq_none (by rw [List.length_append, List.length_singleton]; omega)] at hread
    cases hread

/-! ## Whole runs -/

/-- The texts shown in a history. -/
def shownIn (w : List ClientEvent) : List Bytes := shown (w.map Prod.fst)

theorem shownIn_snoc (w : List ClientEvent) (e : ClientEvent) :
    shownIn (w ++ [e]) = shownIn w ++ textOf e.1 := by
  rw [shownIn, List.map_append, shown, List.flatMap_append, List.map_singleton,
    List.flatMap_singleton]
  rfl

/-- The invariant; `next` is what the client is about to show. -/
structure Showing (m : Bytes) (w : List ClientEvent) (s : Client) (next : List Bytes) :
    Prop where
  memory : s.recvMsg.bytes = memory m (received w)
  level : (shownIn w ++ next).length = (received w).length
  truthful : Truthful m (received w) (shownIn w ++ next)

theorem Showing.fresh (s : Client) : Showing s.recvMsg.bytes [] s [] where
  memory := rfl
  level := rfl
  truthful := by
    intro i p data hp hframe hread
    cases hread

/-- A call that stores nothing in `recv_msg`. -/
theorem Showing.keep {m : Bytes} {w : List ClientEvent} {s : Client} {next : List Bytes}
    (h : Showing m w s next) {e : ClientEvent} (hread : receivedBy e = [])
    (hshown : textOf e.1 = next) : Showing m (w ++ [e]) s [] := by
  have hreceived : received (w ++ [e]) = received w := by
    rw [received_snoc, hread, List.append_nil]
  have htexts : shownIn (w ++ [e]) ++ [] = shownIn w ++ next := by
    rw [List.append_nil, shownIn_snoc, hshown]
  refine ⟨?_, ?_, ?_⟩
  · rw [hreceived]
    exact h.memory
  · rw [hreceived, htexts]
    exact h.level
  · rw [hreceived, htexts]
    exact h.truthful

theorem textOf_quiet {fd : Int} {e : ClientEvent} (h : Quiet fd e) : textOf e.1 = [] := by
  cases h with
  | fgets hline => rfl
  | write hlen hlow hhigh => rfl
  | read hret => rfl

/-- The last response, with the text shown for it or none behind a fault. -/
theorem Showing.read {m : Bytes} {w : List ClientEvent} {s : Client} (h : Showing m w s [])
    (fd count : Int) {r : Answer} (hpos : 0 < r.ret) (text : Option Bytes)
    (hlast : ∀ p, IsPayload p → Frames p r.data →
      (text = some p ↔ byteAt s.recvMsg.bytes (20 + p.length) = 0)) :
    Truthful m (received (w ++ [(.read fd count, r)]))
      (shownIn (w ++ [(.read fd count, r)]) ++ text.toList) := by
  have hlevel := h.level
  have htruthful := h.truthful
  rw [List.append_nil] at hlevel htruthful
  rw [h.memory] at hlast
  rw [shownIn_snoc, received_read _ _ _ hpos]
  show Truthful m (received w ++ [r.data]) (shownIn w ++ [] ++ text.toList)
  rw [List.append_nil]
  exact htruthful.snoc hlevel hlast

/-- The frame of a payload ends inside the memory of `recv_msg`. -/
theorem IsPayload.inside {p : Bytes} (hp : IsPayload p) (b : Buf 1044) :
    20 + p.length < b.bytes.length := by
  have hsize := hp.size
  rw [b.size]
  omega

/-- The text shown for a response. -/
theorem shownText_frame (b : Buf 1044) {p data : Bytes} (hp : IsPayload p)
    (hframe : Frames p data) :
    some (shownText b.bytes data) = some p ↔ byteAt b.bytes (20 + p.length) = 0 := by
  obtain ⟨version, code, rfl⟩ := hframe.eq_jmpFrame hp.isText
  rw [Option.some_inj]
  exact shownText_jmpFrame version code hp.noNul (hp.inside b)

/-- Where the client overruns, nothing is shown. -/
theorem overruns_frame (b : Buf 1044) {p data : Bytes} (hp : IsPayload p)
    (hframe : Frames p data) (hover : Overruns b.bytes data) :
    none = some p ↔ byteAt b.bytes (20 + p.length) = 0 := by
  obtain ⟨version, code, rfl⟩ := hframe.eq_jmpFrame hp.isText
  exact iff_of_false (Option.some_ne_none p).symm fun hbyte =>
    not_overruns_jmpFrame hp.size (hp.inside b) hbyte hover

theorem showsLaw (fd : Int) (m : Bytes) :
    SessionLaw fd (fun w s => Showing m w s []) (fun w s text => Showing m w s [text])
      (fun w => Truthful m (received w) (shownIn w)) where
  frame := fun h hs => ⟨by rw [hs, h.memory], h.level, h.truthful⟩
  quiet := fun h he => h.keep he.receivedBy (textOf_quiet he)
  line := fun {w s r} h _ => by
    have hkept := (h.keep (e := (.fgets 1024, r)) rfl rfl).truthful
    rwa [List.append_nil] at hkept
  overrun := fun {w s r} h hpos hover => by
    have hlast := h.read fd 1024 hpos none fun p hp hframe =>
      overruns_frame s.recvMsg hp hframe hover
    rwa [Option.toList_none, List.append_nil] at hlast
  read := fun {w s s' r} h hpos _ hs => by
    refine ⟨?_, ?_, h.read fd 1024 hpos (some _) fun p hp hframe =>
      shownText_frame s.recvMsg hp hframe⟩
    · rw [hs, received_read _ _ _ hpos, memory_snoc, h.memory]
    · have hlevel := h.level
      rw [List.append_nil] at hlevel
      rw [received_read _ _ _ hpos, shownIn_snoc, List.length_append, List.length_append,
        List.length_append, hlevel]
      rfl
  shows := fun h => h.keep rfl rfl

/-- **The texts shown.**  In every run from any memory, the text the client
prints for a response is its payload exactly if the byte of `recv_msg` behind
the frame was a NUL before the `read`. -/
theorem printed_payload_iff (fd : Int) (s : Client) {c : SessionConfig}
    (hc : Session fd s c) {i : Nat} {p data : Bytes} (hp : IsPayload p)
    (hframe : Frames p data) (hdata : (received c.world)[i]? = some data) :
    (printed c)[i]? = some p ↔
      byteAt (memory s.recvMsg.bytes ((received c.world).take i)) (20 + p.length) = 0 := by
  have hrun := (showsLaw fd s.recvMsg.bytes).reach (Showing.fresh s) hc
  obtain ⟨w, node⟩ := c
  have htruthful : Truthful s.recvMsg.bytes (received w) (printed ⟨w, node⟩) := by
    have hprinted : printed ⟨w, node⟩ = shownIn w ++ shown node.waits.toList :=
      List.flatMap_append
    rw [hprinted]
    cases node with
    | done s' a =>
        have hshowing : Showing s.recvMsg.bytes w s' [] := hrun
        exact hshowing.truthful
    | call s' op k =>
        obtain ⟨hop, -⟩ := hrun
        cases op with
        | fgets size => exact Showing.truthful hop
        | write fd buf count => exact hop.1.truthful
        | read fd count => exact Showing.truthful hop
        | shows text bytes => exact Showing.truthful hop
    | fault s' =>
        have hlast : Truthful s.recvMsg.bytes (received w) (shownIn w) := hrun
        rw [← List.append_nil (shownIn w)] at hlast
        exact hlast
  exact htruthful i p data hp hframe hdata

/-- One iteration of the client with this response. -/
def hiAnswered (response : Bytes) : List (Act Unit Answer) :=
  [.event (), .answer (.stored [104, 105, 10]), .answer (.count 22),
    .answer (.stored (jmpFrame 1 response 1))]

theorem printed_payload_iff_hi :
    ∃ c, Session 3 freshClient c ∧
      (received c.world)[0]? = some (jmpFrame 1 [104, 105] 1) ∧
      ((printed c)[0]? = some [104, 105] ↔
        byteAt (memory freshClient.recvMsg.bytes ((received c.world).take 0)) 22 = 0) := by
  have hrun : ∃ c, Session 3 freshClient c ∧
      (received c.world)[0]? = some (jmpFrame 1 [104, 105] 1) :=
    exists_reach_of_exec (fun w (_ : Client) => sessionDeliver w) id (hiAnswered [104, 105])
      (fun c => (received c.world)[0]? = some (jmpFrame 1 [104, 105] 1)) (by decide +kernel)
  obtain ⟨c, hc, hdata⟩ := hrun
  exact ⟨c, hc, hdata, printed_payload_iff 3 freshClient hc (by decide)
    (frames_jmpFrame 1 (by decide) 1) hdata⟩

/-- The response `hello` and then the response `hi`, which is shown as
`hillo`. -/
theorem response_shown_with_rest : ¬ ∀ (fd : Int) (s : Client) (c : SessionConfig) (i : Nat)
    (p data : Bytes), Session fd s c → IsPayload p → Frames p data →
      (received c.world)[i]? = some data → (printed c)[i]? = some p := by
  intro h
  have hrun : ∃ c, Session 3 freshClient c ∧
      (received c.world)[1]? = some (jmpFrame 1 [104, 105] 1) ∧
      (printed c)[1]? = some [104, 105, 108, 108, 111] :=
    exists_reach_of_exec (fun w (_ : Client) => sessionDeliver w) id
      (hiAnswered [104, 101, 108, 108, 111] ++ [.answer (.count 0)] ++ hiAnswered [104, 105])
      (fun c => (received c.world)[1]? = some (jmpFrame 1 [104, 105] 1) ∧
        (printed c)[1]? = some [104, 105, 108, 108, 111]) (by decide +kernel)
  obtain ⟨c, hc, hdata, hshown⟩ := hrun
  have hhi := h 3 freshClient c 1 [104, 105] _ hc (by decide)
    (frames_jmpFrame 1 (by decide) 1) hdata
  rw [hshown] at hhi
  exact absurd hhi (by decide)

end ZeroCopyProxy.Ports.ClientShows
