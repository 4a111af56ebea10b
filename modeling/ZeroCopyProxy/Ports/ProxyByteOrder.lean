import ZeroCopyProxy.Ports.ProxyCapacity
import ZeroCopyProxy.Ports.StreamFraming

/-!
# What the programs of `jmp.c` get through the proxy

The client and the server write the length of a message with the least
significant byte first, and the proxy reads it the other way round.  Their
messages are short, so a length that is no multiple of 256 reads as one of
more than a pipe holds (`misread_large`).  The proxy waits for the rest of
that message for ever, and what it waits for includes everything behind it.

So exactly the messages in front of the first such length get through
(`built_relayed`).  The proof replaces the stream by one the proxy
understands: the messages in front, and one large message that begins with
the bytes behind them (`relays_completed`).
-/

namespace ZeroCopyProxy.Ports.ProxyByteOrder

open ZeroCopyProxy.Verified.Resumption
open ZeroCopyProxy.Verified.Liberal
open ZeroCopyProxy.Verified.PrefixCode
open ZeroCopyProxy.Ports.Posix
open ZeroCopyProxy.Ports.Kernel
open ZeroCopyProxy.Ports.Frame
open ZeroCopyProxy.Ports.TranscHeader
open ZeroCopyProxy.Ports.ProxyRelay
open ZeroCopyProxy.Ports.ProxyStream
open ZeroCopyProxy.Ports.ProxyDuplex
open ZeroCopyProxy.Ports.PipeSlots
open ZeroCopyProxy.Ports.ProxyCapacity
open ZeroCopyProxy.Ports.JmpMessage
open ZeroCopyProxy.Ports.StreamFraming (Built)

/-! ## The law -/

/-- The messages in front of the first one whose length is no multiple of
256. -/
def readable (fs : List Bytes) : List Bytes := fs.takeWhile fun f => f.length % 256 = 0

/-- The runs of a worker to which these bytes arrive, over pipes that leave
room for the body that is being taken in. -/
abbrev CarriesOn (d : WorkData) (stream : Dir → Bytes) : WorkerConfig Host →
    WorkerConfig Host → Prop :=
  Reach (blind <| hostKernel (Relaying Spacious fun fd => stream (d.dirOf fd))) proxyConnEvent
    (fun _ => true)

/-- The configurations it passes through. -/
def Carries (d : WorkData) (stream : Dir → Bytes) (c : WorkerConfig Host) : Prop :=
  CarriesOn d stream ⟨Host.fresh, .done d []⟩ c

/-! ## The other byte order -/

section Misread

variable {f : Bytes}

/-- A message of the programs is short, and the length field holds its
length. -/
theorem built_frame (h : Built f) :
    IsFrame .little f ∧ f.length ≤ 1044 := by
  obtain ⟨version, p, code, hv, hp, hne, rfl⟩ := h.eq_frame
  have hsize := hp.size
  refine ⟨isFrame_jmpFrame hv hp hne code, ?_⟩
  rw [length_jmpFrame]
  omega

/-- The length the proxy reads. -/
theorem len24_big_built (h : Built f) :
    len24 .big f = (f.length % 256) * 65536 + f.length / 256 * 256 := by
  obtain ⟨hframe, hshort⟩ := built_frame h
  have h1 := (byteAt f 1).toNat_lt
  have h2 := (byteAt f 2).toNat_lt
  have hlen := hframe.length_eq
  simp only [len24, Nat.shiftLeft_eq] at hlen ⊢
  omega

/-- A multiple of 256 is read as it is. -/
theorem isFrame_big_of_built (h : Built f) (hmod : f.length % 256 = 0) : IsFrame .big f := by
  obtain ⟨hframe, _⟩ := built_frame h
  have hlt := hframe.twenty_lt
  have hbig := len24_big_built h
  exact ⟨⟨hframe.accepted.1, by omega⟩, by omega⟩

/-- Any other length is read as one that no pipe holds. -/
theorem misread_large (h : Built f) (hmod : f.length % 256 ≠ 0) :
    Accepted .big f ∧ 20 + pipeCapacity < len24 .big f := by
  obtain ⟨hframe, _⟩ := built_frame h
  have hlt := hframe.twenty_lt
  have hbig := len24_big_built h
  have hcap : pipeCapacity = 65536 := rfl
  exact ⟨⟨hframe.accepted.1, by omega⟩, by omega⟩

end Misread

/-! ## One large message in place of the rest -/

/-- The stream up to the length its first header announces, padded with zeros
where it is shorter. -/
def completed (x : Bytes) : Bytes :=
  x.take (len24 .big x) ++ List.replicate (len24 .big x - x.length) 0

section Completed

variable {x y : Bytes}

theorem length_completed (x : Bytes) : (completed x).length = len24 .big x := by
  rw [completed, List.length_append, List.length_take, List.length_replicate]
  omega

theorem isFrame_completed (hx : 20 ≤ x.length) (ha : Accepted .big x) :
    IsFrame .big (completed x) := by
  have hlt := ha.2
  have hhdr : (x.take 20).length = 20 := by
    rw [List.length_take]
    omega
  have htake : x.take 20 ++ (completed x).drop 20 = completed x := by
    rw [completed, List.drop_append_of_le_length (by rw [List.length_take]; omega),
      ← List.append_assoc]
    congr 1
    rw [← List.take_append_drop 20 (x.take (len24 .big x)), List.take_take,
      Nat.min_eq_left (by omega), List.drop_left' hhdr]
  have hlen : len24 .big (x.take 20) = len24 .big x := by
    conv_rhs => rw [← List.take_append_drop 20 x]
    exact (len24_append .big (by omega) _).symm
  have hacc : Accepted .big (x.take 20) := by
    rw [← accepted_append .big (by omega) (x.drop 20), List.take_append_drop]
    exact ha
  rw [← htake, isFrame_append_iff .big hhdr]
  refine ⟨hacc, ?_⟩
  rw [hlen, List.length_drop, length_completed]
  omega

/-- What is no longer than the announced length begins both. -/
theorem prefix_completed (hy : y <+: x) (hle : y.length ≤ len24 .big x) :
    y <+: completed x := by
  have hshort : y <+: x.take (len24 .big x) := List.prefix_take_iff.2 ⟨hy, hle⟩
  exact hshort.trans (List.prefix_append _ _)

end Completed

/-- Bytes the proxy takes for the beginning of a message that no pipe holds. -/
structure Large (x : Bytes) : Prop where
  header : 20 ≤ x.length
  accepted : Accepted .big x
  large : 20 + pipeCapacity < len24 .big x

/-- The message that stands for these bytes, if they have a header. -/
def standIn (x : Bytes) : List (Message .big) :=
  if h : 20 ≤ x.length ∧ Accepted .big x then [⟨completed x, isFrame_completed h.1 h.2⟩] else []

theorem standIn_nil : standIn [] = [] := rfl

theorem standIn_large {x : Bytes} (h : Large x) :
    standIn x = [⟨completed x, isFrame_completed h.header h.accepted⟩] :=
  dif_pos ⟨h.header, h.accepted⟩

/-- What is no longer than the messages begins them as it begins the stream. -/
theorem prefix_standIn {pre : List (Message .big)} {x y : Bytes} (hx : x = [] ∨ Large x)
    (hy : y <+: join pre ++ x) (hle : y.length ≤ (join (pre ++ standIn x)).length) :
    y <+: join (pre ++ standIn x) := by
  rcases hx with rfl | hx
  · rw [standIn_nil, List.append_nil]
    rwa [List.append_nil] at hy
  · rw [standIn_large hx, join_append, join_cons, join_nil, List.append_nil] at hle ⊢
    rcases List.prefix_or_prefix_of_prefix hy (List.prefix_append (join pre) x) with hp | hp
    · exact hp.trans (List.prefix_append _ _)
    · obtain ⟨z, rfl⟩ := hp
      rw [List.prefix_append_right_inj] at hy ⊢
      rw [List.length_append, List.length_append, length_completed] at hle
      exact prefix_completed hy (by omega)

/-- A receiving call takes in no more than the message it is in. -/
theorem taken_within {e : Ends} {w : Host} {frames : List (Message .big)} {op : SysCall}
    {r : Answer} (hc : w.consumed e.fd <+: join frames)
    (hlt : (w.consumed e.fd).length < (join frames).length) (hstuck : ¬ Stuck e w)
    (hask : Asks e w op) (hsource : source op = some e.fd) (hfits : r.Fits op) :
    (w.consumed e.fd ++ r.moved).length ≤ (join frames).length := by
  rw [List.length_append]
  by_cases hpos : r.ret ≤ 0
  · rw [Answer.moved_nil hpos]
    exact Nat.le_of_lt hlt
  have hmoved : r.moved.length ≤ r.ret.toNat := List.length_take_le _ _
  cases op with
  | read fd area n =>
      obtain ⟨fs, hcons, rfl⟩ := hask.resolve_right hstuck
      rw [hcons] at hc hlt ⊢
      obtain ⟨us, rfl⟩ := (isPrefixCode .big).first_words hc
      have hret : r.ret ≤ 20 := hfits.1
      cases us with
      | nil =>
          rw [List.append_nil] at hlt
          exact absurd hlt (Nat.lt_irrefl _)
      | cons u rest =>
          have htwenty := u.2.twenty_lt
          rw [join_append, join_cons, List.length_append, List.length_append]
          omega
  | spliceIn fd pipe n =>
      obtain ⟨fs, y, hcons, hy, _, hn⟩ := hask
      rw [hcons] at hc ⊢
      obtain ⟨u, rest, rfl, hu⟩ :=
        (isPrefixCode .big).next_word hc (List.ne_nil_of_length_pos (by omega))
      have hret : r.ret ≤ n := hfits.1
      have htwenty := u.2.twenty_lt
      have hlen : len24 .big y = u.1.length := by
        rw [u.2.length_eq]
        rcases hu with ⟨z, hz⟩ | ⟨z, hz⟩
        · rw [← hz, len24_append .big (by omega)]
        · rw [← hz, len24_append .big (by omega)]
      rw [join_append, join_cons]
      simp only [List.length_append]
      rcases hu with hp | hp
      · have hle := hp.length_le
        omega
      · have hle := hp.length_le
        omega
  | _ => cases hsource

/-! ## Going on from any state -/

/-- A stream that arrives on one descriptor only. -/
def only (fd : Int) (s : Bytes) (f : Int) : Bytes := if f = fd then s else []

theorem relaying_mono {stream stream' : Int → Bytes} {w : Host} {op : SysCall} {r : Answer}
    (h : Relaying Spacious stream w op r) (hle : ∀ fd, stream fd <+: stream' fd) :
    Relaying Spacious stream' w op r :=
  ⟨⟨h.1.1, continues_mono h.1.2 hle⟩, h.2⟩

section Continue

variable {d d' : WorkData} {frames : Dir → List (Message .big)} {w : Host}

/-- An event on a descriptor is about the direction that comes from there. -/
theorem event_addresses (hb : Between Spacious pageSize d frames w d') (dir : Dir) :
    wlp (blind (hostKernel (Flowing Spacious (arriving d frames))))
      (fun _ _ op => (ends d dir).Addresses op) (fun _ _ _ => True)
      (proxyConnEvent (d.source dir) d') w := by
  refine wlp_of_wp (wp_kernel_mono (fun _ _ _ _ _ hk => relaying_of_flowing hk)
    (wp_assuming levelled_step ?_ hb.2.levelled))
  refine wp_kernel_mono (K := blind (hostKernel (Accounted Spacious (arriving d frames))))
    (fun _ _ _ _ _ hk => ⟨hk.1.1, ⟨hk.1.2.1, hk.2⟩, hk.1.2.2⟩) (wp_event hb dir ?_)
  exact wp_mono (fun _ _ _ hp => hp.2.1) (fun _ _ _ _ => True.intro)
    (Phases.wp_forward (flowPhases_sound spacious_law (fun _ _ _ hp => hp)
      (arriving_source d frames dir)) (hb.1.inv dir))

/-- Messages that fit, of which no more than these has been taken in, can be
written while nothing else arrives. -/
theorem exists_written {dir : Dir} {pre : List (Message .big)}
    (hfits : ∀ f ∈ pre, f.1.length ≤ 20 + pageSize) (hb : Between Spacious pageSize d frames w d')
    (hc : w.consumed (d.source dir) <+: join pre) {codes : List Int} :
    ∃ w₁ d₁ codes₁, Reach (blind <| hostKernel (Relaying Spacious (only (d.source dir) (join pre))))
      proxyConnEvent (fun _ => true) ⟨w, .done d' codes⟩ ⟨w₁, .done d₁ codes₁⟩ ∧
        w₁.written (d.peer dir) = join pre := by
  let frames' := Function.update frames dir pre
  have hframes : frames' dir = pre := Function.update_self _ _ _
  have hb' : Between Spacious pageSize d frames' w d' := by
    refine ⟨hb.1, ⟨⟨fun dir' => ?_, hb.2.aligned.headers⟩, hb.2.sized, hb.2.levelled⟩⟩
    by_cases hdir : dir' = dir
    · subst hdir
      rw [hframes]
      exact hc
    · rw [show frames' dir' = frames dir' from Function.update_of_ne hdir _ _]
      exact hb.2.aligned.consumed dir'
  let policy : Host → SysCall → Answer → Prop := fun w op r =>
    Flowing Spacious (arriving d frames') w op r ∧ (ends d dir).Addresses op
  have hevent : ∀ {w d'}, Between Spacious pageSize d frames' w d' → ¬ Finished d frames' dir w d' →
      wp (blind (hostKernel policy))
        (fun w s op => During Spacious pageSize d frames' w s op ∧ (ends d dir).Addresses op)
        (fun w' d'' (_ : List Int) => Between Spacious pageSize d frames' w' d'' ∧
          moved (ends d dir) w < moved (ends d dir) w')
        (proxyConnEvent (d.source dir) d') w := by
    intro w d' hb hun
    have hmoves := event_moves spacious_law (fun f hf => hfits f (hframes ▸ hf)) hb hun
    exact wp_mono (fun _ _ _ hp => hp) (fun _ _ _ hq => hq.1)
      (wp_kernel_mono (fun _ _ _ _ _ hk => ⟨hk.1, hk.2.1.1, hk.2.2⟩)
        (wp_and_wlp hmoves (event_addresses hb dir)))
  have hlive : ∀ w s op, During Spacious pageSize d frames' w s op ∧ (ends d dir).Addresses op →
      ∃ r w', blind (hostKernel policy) w s op r w' := by
    rintro w s op ⟨hduring, haddr⟩
    obtain ⟨r, w', hk⟩ := flowing_answers spacious_law hduring
    exact ⟨r, w', hk.1, ⟨hk.2.1, haddr⟩, hk.2.2⟩
  have hall : ∃ w₁ d₁ codes₁, Reach (blind (hostKernel policy)) proxyConnEvent (fun _ => true)
      ⟨w, .done d' codes⟩ ⟨w₁, .done d₁ codes₁⟩ ∧ Finished d frames' dir w₁ d₁ :=
    exists_run_progress (I := fun w d' _ => Between Spacious pageSize d frames' w d')
      (G := fun w d' _ => Finished d frames' dir w d') (moved (ends d dir)) _ (d.source dir)
      (fun hb => moved_le hb) (fun _ => rfl) (fun hb hun => hevent hb hun) hlive hb'
  obtain ⟨w₁, d₁, codes₁, hrun, hfin⟩ := hall
  refine ⟨w₁, d₁, codes₁, hrun.mono ?_, by rw [hfin.written, hframes]⟩
  rintro w s op r w' ⟨hcan, ⟨hflow, haddr⟩, rfl⟩
  refine ⟨hcan, ⟨⟨hflow.1.1.1, ?_⟩, hflow.1.2⟩, rfl⟩
  have hcont := hflow.1.1.2
  unfold Continues at hcont ⊢
  split
  · next fd hfd =>
      obtain rfl : fd = d.source dir := haddr.source hfd
      rw [hfd] at hcont
      rwa [only, if_pos rfl, ← hframes, ← arriving_source]
  · exact True.intro

/-- The header and the body a direction holds are of one message. -/
theorem one_message {e : Ends} {w : Host} {t : Transc}
    (h : (flowPhases Spacious pageSize e).Inv w t) :
    ∃ (fs : List (Message .big)) (y z : Bytes), join fs <+: w.written e.peer ∧
      w.consumed e.fd = join fs ++ y ∧ (y = [] ∨ IsFrame .big (y ++ z)) := by
  cases h with
  | hdr h =>
      obtain ⟨fs, hw, hc⟩ := h.2.relayed
      exact ⟨fs, [], [], ⟨[], by rw [List.append_nil, hw]⟩, by rw [hc, List.append_nil],
        .inl rfl⟩
  | body h =>
      obtain ⟨⟨-, h⟩, -⟩ := h
      obtain ⟨fs, hw, hc⟩ := h.relayed
      have hun := h.unfinished
      have hrecv := h.received
      have hlength := h.length_eq
      have hpart : Partial (IsFrame .big) (t.readHdrBuf.bytes ++ w.piped e.pipe) :=
        partial_of_header t.readHdrBuf.size h.accepted (by omega)
      rcases hpart with hnil | ⟨z, -, hz⟩
      · exact ⟨fs, _, [], ⟨[], by rw [List.append_nil, hw]⟩, hc, .inl hnil⟩
      · exact ⟨fs, _, z, ⟨[], by rw [List.append_nil, hw]⟩, hc, .inr hz⟩
  | sendHdr h =>
      obtain ⟨fs, hw, hc⟩ := h.2.relayed
      refine ⟨fs, _, [], ⟨[], by rw [List.append_nil, hw]⟩, hc, .inr ?_⟩
      rw [List.append_nil]
      exact h.2.whole
  | sendBody h =>
      obtain ⟨fs, f, y, _, _, hw, hc⟩ := h.2.relayed
      refine ⟨fs, f.1, [], ⟨y, hw.symm⟩, hc, .inr ?_⟩
      rw [List.append_nil]
      exact f.2

/-- Only a direction that has written the messages in front takes in what is
behind them. -/
theorem written_of_ahead {e : Ends} {w : Host} {t : Transc}
    (h : (flowPhases Spacious pageSize e).Inv w t) {pre : List (Message .big)} (hw : w.written e.peer <+: join pre)
    (hc : join pre <+: w.consumed e.fd) :
    w.consumed e.fd <+: join pre ∨ w.written e.peer = join pre := by
  obtain ⟨fs, y, z, hbehind, hcons, hy⟩ := one_message h
  obtain ⟨us, rfl⟩ := (isPrefixCode .big).first_words (hbehind.trans hw)
  rw [join_append] at hw hc ⊢
  cases us with
  | nil =>
      rw [join_nil, List.append_nil] at hw ⊢
      exact .inr (hw.eq_of_length (Nat.le_antisymm hw.length_le hbehind.length_le))
  | cons u us =>
      rw [hcons, List.prefix_append_right_inj, join_cons] at hc
      have hu : u.1 <+: y := (List.prefix_append _ _).trans hc
      rcases hy with rfl | hy
      · exact absurd (List.prefix_nil.1 hu) ((isPrefixCode .big).ne_nil u.2)
      · have heq : u.1 = y ++ z :=
          IsPrefixCode.eq_of_prefix (isPrefixCode .big) u.2 hy (hu.trans (List.prefix_append _ _))
        refine .inl ?_
        rw [hcons, List.prefix_append_right_inj, join_cons, heq, List.append_assoc]
        exact List.prefix_append _ _

end Continue

/-! ## Runs -/

section Runs

variable {d : WorkData} {pre : Dir → List (Message .big)} {x : Dir → Bytes}

/-- In front of a large message the proxy stays a pipe and a header ahead of
what it has written. -/
theorem consumed_short (h : ∀ dir, d.transc dir = cleared) {dir : Dir} (hx : Large (x dir))
    {c : WorkerConfig Host} (hr : Relays Spacious d (fun dir => pre dir ++ standIn (x dir)) c) :
    (c.world.consumed (d.source dir)).length <
      (join (pre dir ++ standIn (x dir))).length := by
  have hcont := contained_reach spacious_law hr
  have hwritten := written_le spacious_law h (congrArg (pre dir ++ ·) (standIn_large hx))
    (by rw [length_completed]; exact hx.large) hr
  have hexact := ((relayed_reach relaying_writes h hr dir).1.exact).resolve_right
    (not_stuck hcont.aligned dir)
  have hall : (c.world.written (d.peer dir)).length +
      (held (c.node.state.transc dir) (c.world.piped (d.pipe dir))).length =
      (c.world.consumed (d.source dir)).length := by
    rw [← List.length_append]
    exact congrArg List.length hexact
  have hheld := held_le (c.node.state.transc dir) (c.world.piped (d.pipe dir))
  have hsized := hcont.sized (d.pipe dir)
  have hlarge := hx.large
  rw [standIn_large hx, join_append, join_cons, join_nil, List.append_nil, List.length_append,
    length_completed]
  omega

/-- The proxy cannot tell such a stream from one of whole messages. -/
theorem relays_completed (h : ∀ dir, d.transc dir = cleared)
    (hx : ∀ dir, x dir = [] ∨ Large (x dir)) {c : WorkerConfig Host}
    (hr : Carries d (fun dir => join (pre dir) ++ x dir) c) :
    Relays Spacious d (fun dir => pre dir ++ standIn (x dir)) c := by
  induction hr with
  | refl => exact .refl
  | @tail c₁ c₂ _ hs ih =>
      cases hs with
      | start e ha => exact ih.tail (.start e ha)
      | @answer w w' s op k r hk =>
          obtain ⟨hcan, ⟨⟨hprog, hcont⟩, hroom⟩, rfl⟩ := hk
          refine ih.tail (.answer ⟨hcan, ⟨⟨hprog, ?_⟩, hroom⟩, rfl⟩)
          have hwithin : Contained d _ w := contained_reach spacious_law ih
          obtain ⟨dir, haddr, hask⟩ := call_reach relaying_writes h ih rfl
          have hwhole : ∀ fd, source op = some fd → fd = d.source dir := by
            intro fd hfd
            cases op with
            | read => exact (Option.some.inj hfd).symm.trans haddr
            | spliceIn => exact (Option.some.inj hfd).symm.trans haddr.1
            | _ => cases hfd
          unfold Continues at hcont ⊢
          split
          · next fd hfd =>
              obtain rfl := hwhole fd hfd
              have hstream : w.consumed (d.source dir) ++ r.moved <+:
                  join (pre dir) ++ x dir := by
                rw [hfd] at hcont
                simpa only [WorkData.dirOf_source] using hcont
              rw [arriving_source]
              apply prefix_standIn (hx dir) hstream
              rcases hx dir with hnil | hlarge
              · rw [hnil, List.append_nil] at hstream
                rw [hnil, standIn_nil, List.append_nil]
                exact hstream.length_le
              · exact taken_within (e := ends d dir) (hwithin.aligned.consumed dir)
                  (consumed_short h hlarge ih) (not_stuck hwithin.aligned dir) hask hfd hcan.1
          · exact True.intro

/-- Only the messages in front are written. -/
theorem written_front (h : ∀ dir, d.transc dir = cleared)
    (hx : ∀ dir, x dir = [] ∨ Large (x dir)) {c : WorkerConfig Host}
    (hr : Carries d (fun dir => join (pre dir) ++ x dir) c) (dir : Dir) :
    c.world.written (d.peer dir) <+: join (pre dir) := by
  have hrel := relays_completed h hx hr
  have hcont := contained_reach spacious_law hrel
  obtain ⟨fs, hw, hc⟩ := (relayed_reach relaying_writes h hrel dir).1.whole
  have hall : c.world.written (d.peer dir) <+: join (pre dir ++ standIn (x dir)) :=
    (hw.trans hc).trans (hcont.aligned.consumed dir)
  rcases hx dir with hnil | hlarge
  · rwa [hnil, standIn_nil, List.append_nil] at hall
  · have hle := written_le spacious_law h (congrArg (pre dir ++ ·) (standIn_large hlarge))
      (by rw [length_completed]; exact hlarge.large) hrel
    rw [join_append] at hall
    exact List.prefix_of_prefix_length_le hall (List.prefix_append _ _) hle

/-- What was taken in arrived. -/
theorem consumed_carried {stream : Dir → Bytes} {c : WorkerConfig Host}
    (hr : Carries d stream c) (fd : Int) : c.world.consumed fd <+: stream (d.dirOf fd) :=
  consumed_arrived hr fd

/-- They can always be written, whatever comes behind them: as soon as they
have arrived, some run goes on until they are. -/
theorem exists_front (h : ∀ dir, d.transc dir = cleared)
    (hx : ∀ dir, x dir = [] ∨ Large (x dir)) {c : WorkerConfig Host}
    (hr : Carries d (fun dir => join (pre dir) ++ x dir) c) (dir : Dir)
    (hfits : ∀ f ∈ pre dir, f.1.length ≤ 20 + pageSize) {stream : Int → Bytes}
    (hcons : ∀ f, c.world.consumed f <+: stream f)
    (hstream : join (pre dir) <+: stream (d.source dir)) :
    ∃ w d' codes, Reach (blind <| hostKernel (Relaying Spacious stream)) proxyConnEvent
      (fun _ => true) c ⟨w, .done d' codes⟩ ∧ w.written (d.peer dir) = join (pre dir) := by
  obtain ⟨w₁, d₁, codes₁, hr₁⟩ := exists_rest spacious_law h (relays_completed h hx hr)
  have hr' : Carries d (fun dir => join (pre dir) ++ x dir) ⟨w₁, .done d₁ codes₁⟩ :=
    hr.trans (relaying_of_rest spacious_law hr₁ (consumed_carried hr))
  have hb : Between Spacious pageSize d (fun dir => pre dir ++ standIn (x dir)) w₁ d₁ :=
    relaying_wp spacious_law h (relays_completed h hx hr')
  have hw : w₁.written (d.peer dir) <+: join (pre dir) := written_front h hx hr' dir
  have hfirst : Reach (blind <| hostKernel (Relaying Spacious stream)) proxyConnEvent
      (fun _ => true) c ⟨w₁, .done d₁ codes₁⟩ := relaying_of_rest spacious_law hr₁ hcons
  have hc : w₁.consumed (d.source dir) <+: join (pre dir) ++ x dir := by
    have hall := consumed_carried hr' (d.source dir)
    rwa [WorkData.dirOf_source] at hall
  have hahead : w₁.consumed (d.source dir) <+: join (pre dir) ∨
      w₁.written (d.peer dir) = join (pre dir) := by
    rcases List.prefix_or_prefix_of_prefix hc (List.prefix_append _ _) with hp | hp
    · exact .inl hp
    · exact written_of_ahead (hb.1.inv dir) hw hp
  rcases hahead with hp | hdone
  · obtain ⟨w₂, d₂, codes₂, hr₂, hdone⟩ := exists_written hfits hb hp
    refine ⟨w₂, d₂, codes₂, hfirst.trans (hr₂.mono fun _ _ _ _ _ hk => ?_), hdone⟩
    refine ⟨hk.1, relaying_mono hk.2.1 fun f => ?_, hk.2.2⟩
    unfold only
    split
    · next hf =>
        rw [hf]
        exact hstream
    · exact List.nil_prefix
  · exact ⟨w₁, d₁, codes₁, hfirst, hdone⟩

end Runs

/-! ## The messages of the programs -/

/-- The messages in front are messages for the proxy as well, and what comes
behind them begins a large one. -/
theorem exists_front_messages {fs : List Bytes} (h : ∀ f ∈ fs, Built f) :
    ∃ (pre : List (Message .big)) (x : Bytes), fs.flatten = join pre ++ x ∧
      join pre = (readable fs).flatten ∧ (∀ f ∈ pre, f.1.length ≤ 20 + pageSize) ∧
      (x = [] ∨ Large x) := by
  induction fs with
  | nil => exact ⟨[], [], rfl, rfl, fun f hf => (List.not_mem_nil hf).elim, .inl rfl⟩
  | cons f fs ih =>
      have hf := h f List.mem_cons_self
      by_cases hmod : f.length % 256 = 0
      · obtain ⟨pre, x, hstream, hpre, hfits, hx⟩ :=
          ih fun g hg => h g (List.mem_cons_of_mem f hg)
        refine ⟨⟨f, isFrame_big_of_built hf hmod⟩ :: pre, x, ?_, ?_, fun g hg => ?_, hx⟩
        · rw [List.flatten_cons, hstream, join_cons, List.append_assoc]
        · rw [join_cons, hpre, readable, readable, List.takeWhile_cons,
            if_pos (decide_eq_true hmod), List.flatten_cons]
        · rcases List.mem_cons.1 hg with rfl | hg
          · have hshort := (built_frame hf).2
            show f.length ≤ 20 + 4096
            omega
          · exact hfits g hg
      · obtain ⟨hacc, hlarge⟩ := misread_large hf hmod
        have htwenty := (built_frame hf).1.twenty_lt
        refine ⟨[], f ++ fs.flatten, rfl, ?_, fun g hg => (List.not_mem_nil hg).elim, .inr ?_⟩
        · rw [readable, List.takeWhile_cons, if_neg (by simpa using hmod)]
          rfl
        · refine ⟨?_, (accepted_append .big (by omega) _).2 hacc, ?_⟩
          · rw [List.length_append]
            omega
          · rwa [len24_append .big (by omega)]

/-- **Exactly the messages in front of the first one whose length is no
multiple of 256 get through the proxy.**  For any messages of the programs in
both directions, any pieces that leave headers whole and a slot of the pipe
free for the rest of a body, and any interleaving of events, no other byte of
them is ever written, and from every state of a run these can all be. -/
theorem built_relayed {d : WorkData} (h : ∀ dir, d.transc dir = cleared)
    {frames : Dir → List Bytes} (hbuilt : ∀ dir, ∀ f ∈ frames dir, Built f)
    {c : WorkerConfig Host} (hr : Carries d (fun dir => (frames dir).flatten) c) (dir : Dir) :
    c.world.written (d.peer dir) <+: (readable (frames dir)).flatten ∧
    ∃ c', CarriesOn d (fun dir => (frames dir).flatten) c c' ∧
      c'.world.written (d.peer dir) = (readable (frames dir)).flatten := by
  choose pre x hstream hpre hfits hx using fun dir => exists_front_messages (hbuilt dir)
  have hall : (fun dir => (frames dir).flatten) = fun dir => join (pre dir) ++ x dir :=
    funext hstream
  rw [hall] at hr ⊢
  rw [← hpre dir]
  refine ⟨written_front h hx hr dir, ?_⟩
  obtain ⟨w, d', codes, hrun, hdone⟩ := exists_front h hx hr dir (hfits dir) (consumed_carried hr)
    (by rw [WorkData.dirOf_source]; exact List.prefix_append _ _)
  exact ⟨_, hrun, hdone⟩

/-- The frame of a text is a message of the programs. -/
theorem built_jmpFrame {version : UInt8} (hv : version ≠ 0) {p : Bytes} (hp : IsText p)
    (hne : p ≠ []) (code : UInt32) : Built (jmpFrame version p code) := by
  let msg : Jmp := ⟨jmpHeader 0 0 0, Buf.zeros 1024⟩
  obtain ⟨m, hset, _, _, hwire⟩ := jmpSetMsg_text msg version hp [] code
  exact ⟨msg, m, version, p, code, hv, hp, hne, hset, hwire.symm⟩

/-- A text of 236 letters and the text "hi". -/
def sampleTexts : List Bytes := [jmpFrame 1 (List.replicate 236 97) 1, jmpFrame 1 [104, 105] 1]

/-- They arrive at the source of a worker, and nothing at its destination. -/
def sampleFrames (dir : Dir) : List Bytes := if dir = .ingoing then sampleTexts else []

theorem built_sample : ∀ f ∈ sampleTexts, Built f := by
  intro f hf
  simp only [sampleTexts, List.mem_cons, List.not_mem_nil, or_false] at hf
  rcases hf with rfl | rfl
  · exact built_jmpFrame (by decide) (by decide +kernel) (by decide) 1
  · exact built_jmpFrame (by decide) (by decide) (by decide) 1

theorem built_frames (dir : Dir) : ∀ f ∈ sampleFrames dir, Built f := by
  cases dir with
  | ingoing => exact built_sample
  | outgoing => exact fun f hf => (List.not_mem_nil hf).elim

theorem readable_sample :
    (readable sampleTexts).flatten = jmpFrame 1 (List.replicate 236 97) 1 := by
  have hlong : (jmpFrame 1 (List.replicate 236 97) 1).length % 256 = 0 := by
    rw [length_jmpFrame, List.length_replicate]
  rw [readable, sampleTexts, List.takeWhile_cons, if_pos (decide_eq_true hlong),
    List.takeWhile_cons, if_neg (by decide), List.flatten_singleton]

/-- Only the first gets through, and it can when a part of it has been taken
in. -/
theorem built_relayed_sample :
    ∃ c, c.world.consumed 3 = (jmpFrame 1 (List.replicate 236 97) 1).take 120 ∧
      c.world.written 4 <+: jmpFrame 1 (List.replicate 236 97) 1 ∧
      ∃ c', CarriesOn sampleWorker (fun dir => (sampleFrames dir).flatten) c c' ∧
        c'.world.written 4 = jmpFrame 1 (List.replicate 236 97) 1 := by
  have hreadable : (readable (sampleFrames .ingoing)).flatten =
      jmpFrame 1 (List.replicate 236 97) 1 := readable_sample
  have hrun : ∃ c : WorkerConfig Host,
      Carries sampleWorker (fun dir => (sampleFrames dir).flatten) c ∧
      c.world.consumed 3 = (jmpFrame 1 (List.replicate 236 97) 1).take 120 :=
    exists_reach_of_exec
      (fun w _ => hostDeliver
        (Relaying Spacious fun fd => (sampleFrames (sampleWorker.dirOf fd)).flatten) w)
      hostKernel_of_hostDeliver
      [.event 3, .answer (.stored ((jmpFrame 1 (List.replicate 236 97) 1).take 20)),
        .answer (.stored (List.replicate 100 97))]
      (fun c : WorkerConfig Host =>
        c.world.consumed 3 = (jmpFrame 1 (List.replicate 236 97) 1).take 120)
      (by decide +kernel)
  obtain ⟨c, hr, hpart⟩ := hrun
  have hlaw := built_relayed (d := sampleWorker) (fun dir => by cases dir <;> rfl) built_frames hr
    .ingoing
  rw [hreadable] at hlaw
  exact ⟨c, hpart, hlaw⟩

end ZeroCopyProxy.Ports.ProxyByteOrder
