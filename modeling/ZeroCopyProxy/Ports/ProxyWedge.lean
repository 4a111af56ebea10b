import ZeroCopyProxy.Ports.ProxyCapacity

/-!
# Bodies that come in one byte at a time

A message is relayed in the end, from every state and however its bytes come
in, exactly if its body has no more bytes than a pipe has slots
(`never_wedged_iff`).  Of a longer body the first bytes may come in one at a
time (`exists_dripped`).  Then every slot is in use, and the direction stays
where it is for ever (`Dripped.reach`): receiving finds no room in the pipe,
and sending waits for the rest of the body.
-/

namespace ZeroCopyProxy.Ports.ProxyWedge

open ZeroCopyProxy.Verified.Resumption
open ZeroCopyProxy.Verified.PrefixCode
open ZeroCopyProxy.Ports.Posix
open ZeroCopyProxy.Ports.Kernel
open ZeroCopyProxy.Ports.Frame
open ZeroCopyProxy.Ports.TranscHeader
open ZeroCopyProxy.Ports.ProxyRelay
open ZeroCopyProxy.Ports.ProxyStream
open ZeroCopyProxy.Ports.ProxyDuplex
open ZeroCopyProxy.Ports.PipeSlots
open ZeroCopyProxy.Ports.ProxyCapacity

/-! ## In the middle of a message -/

section Middle

variable {room : Host → SysCall → Answer → Prop} {limit : Nat} {e : Ends} {w : Host}
  {t : Transc} {fs pre : List (Message .big)} {f : Message .big} {x : Bytes} {m : Nat}

/-- A part of a message is no whole one. -/
theorem partial_take (hm : m < f.1.length) : Partial (IsFrame .big) (f.1.take m) := by
  refine .inr ⟨f.1.drop m, List.ne_nil_of_length_pos (by rw [List.length_drop]; omega), ?_⟩
  rw [List.take_append_drop]
  exact f.2

theorem boundary_ne (fs : List (Message .big)) (hx : Partial (IsFrame .big) x) (hne : x ≠ []) :
    join fs ≠ join pre ++ x := by
  intro heq
  have hall : join fs ++ [] = join pre ++ x := by rw [List.append_nil, heq]
  exact hne ((isPrefixCode .big).join_unique hall .nil hx).2.symm

/-- In the middle of a message a direction is taking in its body. -/
theorem body_of_middle (h : (flowPhases room limit e).Inv w t)
    (hc : w.consumed e.fd = join pre ++ x) (hx : Partial (IsFrame .big) x) (hne : x ≠ []) :
    (flowPhases room limit e).body w t := by
  cases h with
  | hdr h =>
      obtain ⟨fs, -, hcons⟩ := h.2.relayed
      exact absurd (hcons.symm.trans hc) (boundary_ne fs hx hne)
  | body h => exact h
  | sendHdr h =>
      obtain ⟨fs, -, hcons⟩ := h.2.relayed
      refine absurd (Eq.trans ?_ (hcons.symm.trans hc))
        (boundary_ne (fs ++ [⟨_, h.2.whole⟩]) hx hne)
      rw [join_append, join_cons, join_nil, List.append_nil]
  | sendBody h =>
      obtain ⟨fs, u, -, -, -, -, hcons⟩ := h.2.relayed
      refine absurd (Eq.trans ?_ (hcons.symm.trans hc)) (boundary_ne (fs ++ [u]) hx hne)
      rw [join_append, join_cons, join_nil, List.append_nil]

/-- The pipe holds what was taken in behind the header. -/
theorem piped_of_middle (hr : Receiving e w t) (hc : w.consumed e.fd = join pre ++ x)
    (hx : Partial (IsFrame .big) x) : 20 + (w.piped e.pipe).length = x.length := by
  obtain ⟨fs, -, hcons⟩ := hr.relayed
  have hrecv := hr.received
  have hlength := hr.length_eq
  have hun := hr.unfinished
  have hpart : Partial (IsFrame .big) (t.readHdrBuf.bytes ++ w.piped e.pipe) :=
    partial_of_header t.readHdrBuf.size hr.accepted (by omega)
  have heq := ((isPrefixCode .big).join_unique (hcons.symm.trans hc) hpart hx).2
  rw [← heq, List.length_append, t.readHdrBuf.size]

end Middle

/-! ## One byte after the other -/

section Drip

variable {slots : Slots} {d d' : WorkData} {frames : Dir → List (Message .big)} {dir : Dir}
  {pre post : List (Message .big)} {f : Message .big} {w : Host} {codes : List Int}

/-- `k` bytes of the body of `f` have come in, and as many slots are in use. -/
structure Dripped (slots : Slots) (d : WorkData) (dir : Dir) (pre : List (Message .big))
    (f : Message .big) (k : Nat) (w : Host) : Prop where
  consumed : w.consumed (d.source dir) = join pre ++ f.1.take (20 + k)
  written : (join pre).length ≤ (w.written (d.peer dir)).length
  used : k ≤ slots.used (d.pipe dir) (transfers w (d.pipe dir))

/-- How much has come in within a message. -/
theorem length_consumed {m : Nat} (hcons : w.consumed (d.source dir) = join pre ++ f.1.take m)
    (hle : m ≤ f.1.length) : (w.consumed (d.source dir)).length = (join pre).length + m := by
  rw [hcons, List.length_append, List.length_take, Nat.min_eq_left hle]

/-- The next bytes of a message. -/
theorem takes_next {m n : Nat} (hframes : frames dir = pre ++ f :: post)
    (hcons : w.consumed (d.source dir) = join pre ++ f.1.take m) (hle : m + n ≤ f.1.length) :
    w.consumed (d.source dir) ++ (takes d frames dir w n).moved =
      join pre ++ f.1.take (m + n) := by
  have hlen := length_consumed hcons (by omega)
  have hmoved : (takes d frames dir w n).moved = (takes d frames dir w n).data :=
    Answer.moved_eq rfl
  have hdata : (takes d frames dir w n).data =
      ((join (frames dir)).drop (w.consumed (d.source dir)).length).take n := rfl
  have hmessage : (f.1 ++ join post).take (m + n) = f.1.take (m + n) :=
    List.take_append_of_le_length hle
  have htake : f.1.take (m + n) = f.1.take m ++ ((f.1 ++ join post).drop m).take n := by
    rw [← hmessage, List.take_add, List.take_append_of_le_length (by omega)]
  rw [hmoved, hdata, hlen, hcons, hframes, join_append, join_cons,
    List.drop_length_add_append, htake, List.append_assoc]

theorem takes_fit {m n : Nat} (hframes : frames dir = pre ++ f :: post)
    (hcons : w.consumed (d.source dir) = join pre ++ f.1.take m) (hle : m + n ≤ f.1.length) :
    Whole n (takes d frames dir w n) := by
  apply takes_whole
  have hlen := length_consumed hcons (by omega)
  rw [List.length_drop, hlen, hframes, join_append, join_cons, List.length_append,
    List.length_append]
  omega

/-- The first call of an event is answered, and the event ends without another
byte being moved. -/
theorem exists_event (h : ∀ dir, d.transc dir = cleared)
    (hr : Relays (Room slots) d frames ⟨w, .done d' codes⟩) {op : SysCall} {r : Answer}
    (hfirst : wp noKernel (fun _ _ op' => op' = op) (fun _ _ _ => False)
      (proxyConnEvent (d.source dir) d') w)
    (hcan : w.Can op r) (hrel : Relaying (Room slots) (arriving d frames) w op r) :
    ∃ w₁ d₁ codes₁, Relays (Room slots) d frames ⟨w₁, .done d₁ codes₁⟩ ∧
      w₁.consumed = (w.after op r).consumed ∧ w₁.written = (w.after op r).written ∧
        ∀ pipe, transfers w₁ pipe = transfers (w.after op r) pipe := by
  have hlaw := room_law slots
  have hstart : Relays (Room slots) d frames ⟨w, proxyConnEvent (d.source dir) d'⟩ :=
    hr.tail (.start _ rfl)
  generalize proxyConnEvent (d.source dir) d' = n at hfirst hstart
  cases n with
  | done s a => exact hfirst.elim
  | fault s => exact hfirst.elim
  | call s op' k =>
      obtain rfl : op' = op := hfirst.1
      have hanswered : Relays (Room slots) d frames ⟨w.after op' r, k r⟩ :=
        hstart.tail (.answer ⟨hcan, hrel, rfl⟩)
      obtain ⟨w₁, d₁, codes₁, hrest⟩ := exists_rest hlaw h hanswered
      exact ⟨w₁, d₁, codes₁,
        hanswered.trans (relaying_of_rest hlaw hrest (consumed_arrived hanswered)),
        resting_reach hrest⟩

/-- The messages in front are relayed, and the next header is taken in. -/
theorem exists_header (h : ∀ dir, d.transc dir = cleared) (hframes : frames dir = pre ++ f :: post)
    (hpre : ∀ g ∈ pre, g.1.length ≤ 20 + pipeSlots) :
    ∃ w d' codes, Relays (Room slots) d frames ⟨w, .done d' codes⟩ ∧
      Dripped slots d dir pre f 0 w := by
  have hlaw := room_law slots
  have htwenty := f.2.twenty_lt
  -- only these arrive at first
  let front := Function.update frames dir pre
  have hfront : front dir = pre := Function.update_self _ _ _
  have hnever : NeverWedged (Room slots) d front dir :=
    never_wedged_of_fits hlaw h fun g hg => hpre g (hfront ▸ hg)
  obtain ⟨w, d', codes, hrun, hfin⟩ := hnever _ .refl
  have hmore : ∀ fd, arriving d front fd <+: arriving d frames fd := by
    intro fd
    unfold arriving
    by_cases hdir : d.dirOf fd = dir
    · rw [hdir, hfront, hframes, join_append]
      exact List.prefix_append _ _
    · have hsame : front (d.dirOf fd) = frames (d.dirOf fd) := Function.update_of_ne hdir _ _
      simp only [hsame, List.prefix_rfl]
  have hr : Relays (Room slots) d frames ⟨w, .done d' codes⟩ := by
    refine hrun.mono fun _ _ _ _ _ hk => ⟨hk.1, ?_, hk.2.2⟩
    exact ⟨⟨hk.2.1.1.1.1, continues_mono hk.2.1.1.1.2 hmore⟩, hk.2.1.1.2⟩
  have hb : Between (Room slots) pipeSlots d frames w d' := relaying_wp hlaw h hr
  have hidle : Idle (ends d dir) w := idle_of_cleared (hfin.cleared ▸ hb.1.inv dir)
  obtain ⟨fs, hw, hc⟩ := hidle.relayed
  have hwritten : w.written (d.peer dir) = join pre := hfin.written.trans (by rw [hfront])
  have hcons : w.consumed (d.source dir) = join pre ++ f.1.take 0 := by
    rw [List.take_zero, List.append_nil, ← hwritten]
    exact hc.trans hw.symm
  have hwhole := takes_fit (n := 20) hframes hcons (by omega)
  have hfirst : wp noKernel (fun _ _ op => op = .read (d.source dir) .hdr 20)
      (fun _ _ _ => False) (proxyConnEvent (d.source dir) d') w := by
    refine wp_event hb dir ?_
    rw [hfin.cleared]
    exact forward_first_header (e := ends d dir) (source_nonneg d dir) rfl
  obtain ⟨w₁, d₁, codes₁, hr₁, hc₁, hw₁, -⟩ := exists_event h hr hfirst
    (r := takes d frames dir w 20) ⟨⟨Int.le_of_eq hwhole.ret, fun _ => rfl⟩, True.intro⟩
    ⟨⟨.inr hwhole.ret, takes_continues (hb.2.aligned.consumed dir) 20⟩, True.intro⟩
  refine ⟨w₁, d₁, codes₁, hr₁, ?_, ?_, Nat.zero_le _⟩
  · rw [hc₁, Host.after_read_consumed]
    exact takes_next hframes hcons (by omega)
  · rw [hw₁, Host.after_read_written, hwritten]

/-- Behind `k` bytes of a longer body the next one comes in alone. -/
theorem exists_next (h : ∀ dir, d.transc dir = cleared) (hframes : frames dir = pre ++ f :: post)
    {k : Nat} (hk : k < pipeSlots) (hbig : 20 + pipeSlots < f.1.length)
    (hr : Relays (Room slots) d frames ⟨w, .done d' codes⟩) (hd : Dripped slots d dir pre f k w) :
    ∃ w d' codes, Relays (Room slots) d frames ⟨w, .done d' codes⟩ ∧
      Dripped slots d dir pre f (k + 1) w := by
  have hlaw := room_law slots
  have hb : Between (Room slots) pipeSlots d frames w d' := relaying_wp hlaw h hr
  have hlen : (f.1.take (20 + k)).length = 20 + k := by
    rw [List.length_take]
    omega
  have hpart : Partial (IsFrame .big) (f.1.take (20 + k)) := partial_take (by omega)
  obtain ⟨⟨hf, hrecv⟩, -⟩ := body_of_middle (hb.1.inv dir) hd.consumed hpart
    (List.ne_nil_of_length_pos (by omega))
  have hpiped : 20 + (w.piped (d.pipe dir)).length = 20 + k :=
    (piped_of_middle hrecv hd.consumed hpart).trans hlen
  have hun := hrecv.unfinished
  have hwhole := takes_fit (m := 20 + k) (n := 1) hframes hd.consumed (by omega)
  have hmoved := hwhole.moved
  have hret : (takes d frames dir w 1).ret = 1 := hwhole.ret
  have hroom : Room slots w (.spliceIn (d.source dir) (d.pipe dir)
      ((d'.transc dir).length - (d'.transc dir).recvBytes)) (takes d frames dir w 1) :=
    room_of_few hb.2.levelled (by omega)
  obtain ⟨w₁, d₁, codes₁, hr₁, hc₁, hw₁, ht₁⟩ := exists_event h hr
    (wp_event hb dir (forward_first_body (e := ends d dir) (F := fun _ op => op =
      .spliceIn (d.source dir) (d.pipe dir) ((d'.transc dir).length - (d'.transc dir).recvBytes))
      (source_nonneg d dir) hf rfl))
    (r := takes d frames dir w 1) ⟨⟨by omega, fun _ => rfl⟩, True.intro⟩
    ⟨⟨.inr (by omega), takes_continues (hb.2.aligned.consumed dir) 1⟩, hroom⟩
  refine ⟨w₁, d₁, codes₁, hr₁, ?_, ?_, ?_⟩
  · rw [hc₁, Host.after_spliceIn_consumed]
    exact takes_next (m := 20 + k) hframes hd.consumed (by omega)
  · rw [hw₁, Host.after_spliceIn_written]
    exact hd.written
  · rw [ht₁, transfers_spliceIn (by omega)]
    have hne : (takes d frames dir w 1).moved ≠ [] := List.ne_nil_of_length_pos (by omega)
    exact Nat.lt_of_le_of_lt hd.used (slots.used_lt _ _ _ _ _ hne)

/-- As many bytes of a longer body as there are slots come in one at a time. -/
theorem exists_dripped (slots : Slots) (h : ∀ dir, d.transc dir = cleared)
    (hframes : frames dir = pre ++ f :: post) (hpre : ∀ g ∈ pre, g.1.length ≤ 20 + pipeSlots)
    (hbig : 20 + pipeSlots < f.1.length) {k : Nat} (hk : k ≤ pipeSlots) :
    ∃ w d' codes, Relays (Room slots) d frames ⟨w, .done d' codes⟩ ∧
      Dripped slots d dir pre f k w := by
  induction k with
  | zero => exact exists_header h hframes hpre
  | succ k ih =>
      obtain ⟨w, d', codes, hr, hd⟩ := ih (by omega)
      exact exists_next h hframes hk hbig hr hd

end Drip

/-! ## A full pipe -/

section Full

variable {slots : Slots} {d : WorkData} {frames : Dir → List (Message .big)} {dir : Dir}
  {pre post : List (Message .big)} {f : Message .big} {w : Host} {c c' : WorkerConfig Host}

/-- A step that leaves a direction and its pipe alone. -/
theorem Dripped.still {k : Nat} {w' : Host} (hd : Dripped slots d dir pre f k w)
    (hs : Still (ends d dir) w w') : Dripped slots d dir pre f k w' where
  consumed := (show w'.consumed (d.source dir) = _ from hs.consumed).trans hd.consumed
  written := by
    rw [show w'.written (d.peer dir) = w.written (d.peer dir) from hs.written]
    exact hd.written
  used := by
    rw [show transfers w' (d.pipe dir) = transfers w (d.pipe dir) from hs.transfers]
    exact hd.used

/-- A splice into a full pipe moves nothing. -/
theorem Dripped.full {fd n : Int} {r : Answer} (hd : Dripped slots d dir pre f pipeSlots w)
    (hfits : r.Fits (.spliceIn fd (d.pipe dir) n))
    (hroom : Room slots w (.spliceIn fd (d.pipe dir) n) r) : r.ret ≤ 0 := by
  by_contra hpos
  have hpos' : 0 < r.ret := by omega
  have hlen := hfits.2 (by omega)
  have hne : r.moved ≠ [] :=
    List.ne_nil_of_length_pos (by rw [Answer.moved_eq hlen]; omega)
  have hslots := (hroom hpos').2
  rw [transfers_spliceIn hpos'] at hslots
  have hmore := slots.used_lt (d.pipe dir) (transfers w (d.pipe dir)) fd n r hne
  have hused := hd.used
  omega

/-- A direction whose pipe was filled one byte at a time stays where it is. -/
theorem Dripped.reach (h : ∀ dir, d.transc dir = cleared) (hframes : frames dir = pre ++ f :: post)
    (hbig : 20 + pipeSlots < f.1.length) (hr : Relays (Room slots) d frames c)
    (hd : Dripped slots d dir pre f pipeSlots c.world)
    (hgo : Reach (blind <| hostKernel (Relaying (Room slots) (arriving d frames))) proxyConnEvent
      (fun _ => true) c c') : Dripped slots d dir pre f pipeSlots c'.world := by
  have hlaw := room_law slots
  have hpart : Partial (IsFrame .big) (f.1.take (20 + pipeSlots)) := partial_take hbig
  have hne : f.1.take (20 + pipeSlots) ≠ [] :=
    List.ne_nil_of_length_pos (by rw [List.length_take]; omega)
  induction hgo with
  | refl => exact hd
  | @tail c₁ c₂ hgo hs ih =>
      have hr₁ : Relays (Room slots) d frames c₁ := hr.trans hgo
      have hr₂ : Relays (Room slots) d frames c₂ := hr₁.tail hs
      cases hs with
      | start e ha => exact ih
      | @answer w w' s op k r hk =>
          obtain ⟨hcan, hrel, rfl⟩ := hk
          have hdrip : Dripped slots d dir pre f pipeSlots w := ih
          have hcont : Contained d frames w := contained_reach hlaw hr₁
          obtain ⟨dir', haddr, hask⟩ := call_reach relaying_writes h hr₁ rfl
          by_cases hidle : r.ret ≤ 0
          · exact hdrip.still (still_of_idle _ w op hidle)
          by_cases hdir : dir' = dir
          swap
          · exact hdrip.still (still_of_apart (ends_apart d hdir) w haddr r)
          subst hdir
          cases op with
          | read fd area n =>
              -- no header is due
              obtain ⟨fs, hcons, -⟩ := hask.resolve_right (not_stuck hcont.aligned _)
              exact absurd (hcons.symm.trans hdrip.consumed) (boundary_ne fs hpart hne)
          | spliceIn fd pipe n =>
              obtain ⟨rfl, rfl⟩ := haddr
              exact absurd (hdrip.full hcan.1 hrel.2) hidle
          | spliceOut pipe fd n =>
              -- nothing of this message may leave the pipe
              obtain ⟨rfl, rfl⟩ := haddr
              have hshort : ((w.after (.spliceOut (d.pipe dir') (d.peer dir') n) r).consumed
                  (d.source dir')).length < (join pre).length + f.1.length := by
                rw [Host.after_spliceOut_consumed, hdrip.consumed, List.length_append,
                  List.length_take]
                omega
              have hwritten : ((w.after (.spliceOut (d.pipe dir') (d.peer dir') n) r).written
                  (d.peer dir')).length ≤ (join pre).length :=
                written_short hlaw h hframes hr₂ hshort
              have hle : r.ret ≤ (w.piped (d.pipe dir')).length := hcan.2
              rw [Host.after_spliceOut_written, List.length_append, List.length_take] at hwritten
              have hold := hdrip.written
              omega
          | write fd area buf n =>
              refine ⟨hdrip.consumed, Nat.le_trans hdrip.written ?_, ?_⟩
              · exact (Host.written_grows w (.write fd area buf n) r (d.peer dir')).length_le
              · show _ ≤ slots.used _ (transfers (w.after (.write fd area buf n) r) _)
                rw [transfers_after]
                exact hdrip.used
          | close | getsockopt | epollWait =>
              refine ⟨hdrip.consumed, hdrip.written, ?_⟩
              show _ ≤ slots.used _ (transfers (w.after _ r) _)
              rw [transfers_after]
              exact hdrip.used

/-- A message that is longer wedges its direction. -/
theorem wedged_of_long (h : ∀ dir, d.transc dir = cleared)
    (hframes : frames dir = pre ++ f :: post) (hpre : ∀ g ∈ pre, g.1.length ≤ 20 + pipeSlots)
    (hbig : 20 + pipeSlots < f.1.length) : ¬ NeverWedged (Room slots) d frames dir := by
  intro hlaw
  obtain ⟨w, d', codes, hr, hd⟩ := exists_dripped slots h hframes hpre hbig (Nat.le_refl _)
  obtain ⟨w₁, d₁, codes₁, hgo, hfin⟩ := hlaw _ hr
  have hgo' := hgo.mono fun _ _ _ _ _ hk => relaying_of_flowing hk
  have hd₁ := hd.reach h hframes hbig hr hgo'
  have hshort := written_short (room_law slots) h hframes (hr.trans hgo') (by
    rw [length_consumed hd₁.consumed (by omega)]
    omega)
  have hwritten : (w₁.written (d.peer dir)).length ≤ (join pre).length := hshort
  have hall : (w₁.written (d.peer dir)).length =
      (join pre).length + (f.1.length + (join post).length) := by
    rw [hfin.written, hframes]
    simp
  omega

/-- The first message that is too long, if there is one. -/
theorem exists_first (fs : List (Message .big)) (hne : ¬ ∀ f ∈ fs, f.1.length ≤ 20 + pipeSlots) :
    ∃ pre f post, fs = pre ++ f :: post ∧ (∀ g ∈ pre, g.1.length ≤ 20 + pipeSlots) ∧
      20 + pipeSlots < f.1.length := by
  induction fs with
  | nil => exact absurd (fun f hf => absurd hf List.not_mem_nil) hne
  | cons f fs ih =>
      by_cases hf : f.1.length ≤ 20 + pipeSlots
      · obtain ⟨pre, g, post, rfl, hpre, hbig⟩ := ih fun hall =>
          hne (List.forall_mem_cons.2 ⟨hf, hall⟩)
        exact ⟨f :: pre, g, post, rfl, List.forall_mem_cons.2 ⟨hf, hpre⟩, hbig⟩
      · exact ⟨[], f, fs, rfl, fun g hg => absurd hg List.not_mem_nil, by omega⟩

/-- **A direction is never wedged exactly if no body has more bytes than a pipe
has slots.** -/
theorem never_wedged_iff (slots : Slots) (h : ∀ dir, d.transc dir = cleared)
    (frames : Dir → List (Message .big)) (dir : Dir) :
    NeverWedged (Room slots) d frames dir ↔ ∀ f ∈ frames dir, f.1.length ≤ 20 + pipeSlots := by
  constructor
  · intro hlaw
    by_contra hbig
    obtain ⟨pre, f, post, hframes, hpre, hf⟩ := exists_first (frames dir) hbig
    exact wedged_of_long h hframes hpre hf hlaw
  · exact never_wedged_of_fits (room_law slots) h

/-- One short message for the destination and none back. -/
theorem never_wedged_iff_short :
    NeverWedged (Room eachSplice) sampleWorker
      (fun dir => if dir = .ingoing then [sampleMessage] else []) .ingoing := by
  refine (never_wedged_iff eachSplice (fun dir => by cases dir <;> rfl) _ _).2 ?_
  intro f hf
  obtain rfl : f = sampleMessage := by simpa using hf
  decide

/-- A message of 37 bytes, with one byte more in its body than a pipe has
slots. -/
def longMessage : Message .big :=
  ⟨[1, 0, 0, 37, 0, 0, 0, 0, 0, 0, 0, 0, 0, 0, 0, 0, 0, 0, 0, 0] ++ List.replicate 17 7,
    by decide⟩

/-- It wedges the connection. -/
theorem long_message_wedges :
    ¬ ∀ (d : WorkData) (frames : Dir → List (Message .big)) (dir : Dir),
      (∀ dir, d.transc dir = cleared) → NeverWedged (Room eachSplice) d frames dir := by
  intro hlaw
  have hcleared : ∀ dir, sampleWorker.transc dir = cleared := by
    intro dir
    cases dir <;> rfl
  have hframes : [longMessage] = [] ++ longMessage :: [] := rfl
  exact wedged_of_long hcleared hframes (fun g hg => absurd hg List.not_mem_nil) (by decide)
    (hlaw sampleWorker (fun _ => [longMessage]) .ingoing hcleared)

end Full

end ZeroCopyProxy.Ports.ProxyWedge
