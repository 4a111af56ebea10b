import ZeroCopyProxy.Ports.ProxyDuplex
import Mathlib.Algebra.BigOperators.Group.List.Basic
import Mathlib.Data.List.Induction

/-!
# The slots of a pipe

A pipe made by `pipe(2)` has 16 slots, each of them a page, 65536 bytes in
all.  Every splice into it begins a new slot, so a pipe that was given its
bytes one at a time is full with 16 of them.  How many slots a splice takes,
and when one is given back, depends on how the bytes came in; a pipe decides
it by what has gone through it (`Slots`).

`Room` is the law of such a pipe.  Under it a body of up to 16 bytes always
finds room.  A longer one may not; `Spacious` is the law for the runs in which
a body of up to a page does, on pipes that give every splice one slot
(`eachSplice`).  `PipeLaw` is what the two have in common.
-/

namespace ZeroCopyProxy.Ports.PipeSlots

open ZeroCopyProxy.Ports.Posix
open ZeroCopyProxy.Ports.Kernel

/-- What a pipe made by `pipe(2)` holds. -/
def pipeCapacity : Nat := 65536

/-- The slots it has. -/
def pipeSlots : Nat := 16

/-- What a slot holds. -/
def pageSize : Nat := 4096

/-! ## What has gone through a pipe -/

/-- The call put bytes into the pipe or took some out. -/
def through (pipe : Pipe) : Event → Bool
  | (.spliceIn _ p _, r) | (.spliceOut p _ _, r) => decide (p = pipe ∧ 0 < r.ret)
  | _ => false

theorem through_spliceIn {pipe p : Pipe} {fd n : Int} {r : Answer} :
    through pipe (.spliceIn fd p n, r) = true ↔ p = pipe ∧ 0 < r.ret := decide_eq_true_iff

theorem through_spliceOut {pipe p : Pipe} {fd n : Int} {r : Answer} :
    through pipe (.spliceOut p fd n, r) = true ↔ p = pipe ∧ 0 < r.ret := decide_eq_true_iff

/-- What has gone through a pipe so far. -/
def transfers (w : Host) (pipe : Pipe) : List Event := w.log.filter (through pipe)

/-- The bytes in a pipe behind one more transfer. -/
def fill (n : Nat) : Event → Nat
  | (.spliceIn _ _ _, r) => n + r.moved.length
  | (.spliceOut _ _ _, r) => n - r.ret.toNat
  | _ => n

/-- The bytes in a pipe behind these transfers. -/
def level (h : List Event) : Nat := h.foldl fill 0

@[simp] theorem level_append (h : List Event) (ev : Event) :
    level (h ++ [ev]) = fill (level h) ev := List.foldl_append

/-- The transfers of every pipe leave in it what is there. -/
def Levelled (w : Host) : Prop := ∀ pipe, level (transfers w pipe) = (w.piped pipe).length

section Transfers

variable {e e' : Ends} {w : Host} {op : SysCall} {r : Answer} {pipe : Pipe}

theorem transfers_after (w : Host) (op : SysCall) (r : Answer) (pipe : Pipe) :
    transfers (w.after op r) pipe =
      if through pipe (op, r) then transfers w pipe ++ [(op, r)] else transfers w pipe := by
  rw [transfers, Host.after_log, List.filter_append]
  by_cases h : through pipe (op, r)
  · rw [if_pos h, List.filter_cons_of_pos h, List.filter_nil]
    rfl
  · rw [if_neg h, List.filter_cons_of_neg h, List.filter_nil, List.append_nil]
    rfl

/-- A call that moves nothing is no transfer. -/
theorem transfers_idle (hr : r.ret ≤ 0) :
    transfers (w.after op r) pipe = transfers w pipe := by
  rw [transfers_after, if_neg]
  cases op <;> simp [through, Int.not_lt.2 hr]

/-- Nor is a call of other ends. -/
theorem transfers_apart (ha : e'.Apart e) (hop : e'.Addresses op) :
    transfers (w.after op r) e.pipe = transfers w e.pipe := by
  rw [transfers_after, if_neg]
  intro h
  cases op with
  | spliceIn fd p n => exact ha.pipe (hop.2.symm.trans (through_spliceIn.1 h).1)
  | spliceOut p fd n => exact ha.pipe (hop.1.symm.trans (through_spliceOut.1 h).1)
  | _ => cases h

theorem transfers_spliceIn {fd : Int} {n : Int} (hr : 0 < r.ret) :
    transfers (w.after (.spliceIn fd pipe n) r) pipe =
      transfers w pipe ++ [(.spliceIn fd pipe n, r)] := by
  rw [transfers_after, if_pos (through_spliceIn.2 ⟨rfl, hr⟩)]

theorem levelled_fresh : Levelled Host.fresh := fun _ => rfl

/-- The transfers account for every byte. -/
theorem Levelled.after (h : Levelled w) (op : SysCall) (r : Answer) :
    Levelled (w.after op r) := by
  intro pipe
  by_cases hr : r.ret ≤ 0
  · rw [transfers_idle hr, (w.after_idle r op hr).2.1]
    exact h pipe
  · have hpos : 0 < r.ret := by omega
    rw [transfers_after]
    cases op with
    | spliceIn fd p n =>
        by_cases hp : p = pipe
        · subst hp
          rw [if_pos (through_spliceIn.2 ⟨rfl, hpos⟩), level_append, fill, h p,
            Host.after_spliceIn_piped, List.length_append]
        · rw [if_neg fun ht => hp (through_spliceIn.1 ht).1, h pipe]
          exact congrArg List.length (Function.update_of_ne (Ne.symm hp) _ _).symm
    | spliceOut p fd n =>
        by_cases hp : p = pipe
        · subst hp
          rw [if_pos (through_spliceOut.2 ⟨rfl, hpos⟩), level_append, fill, h p,
            Host.after_spliceOut_piped, List.length_drop]
        · rw [if_neg fun ht => hp (through_spliceOut.1 ht).1, h pipe]
          exact congrArg List.length (Function.update_of_ne (Ne.symm hp) _ _).symm
    | _ => exact h pipe

end Transfers

/-! ## The slots in use -/

/-- How many slots of a pipe are in use behind what has gone through it: no
empty one, and a splice into the pipe begins a new one. -/
structure Slots where
  used : Pipe → List Event → Nat
  used_le : ∀ pipe h, used pipe h ≤ level h
  used_lt : ∀ pipe h fd n (r : Answer), r.moved ≠ [] →
    used pipe h < used pipe (h ++ [(.spliceIn fd pipe n, r)])

/-- A pipe takes in no more than it has room for; a splice into a full pipe
moves nothing. -/
def Room (slots : Slots) (w : Host) (op : SysCall) (r : Answer) : Prop :=
  match op with
  | .spliceIn _ pipe _ => 0 < r.ret →
      (w.piped pipe).length + r.moved.length ≤ pipeCapacity ∧
        slots.used pipe (transfers (w.after op r) pipe) ≤ pipeSlots
  | _ => True

instance (slots : Slots) (w : Host) (op : SysCall) (r : Answer) : Decidable (Room slots w op r) :=
  match op with
  | .spliceIn fd pipe n => inferInstanceAs (Decidable (0 < r.ret →
      (w.piped pipe).length + r.moved.length ≤ pipeCapacity ∧
        slots.used pipe (transfers (w.after (.spliceIn fd pipe n) r) pipe) ≤ pipeSlots))
  | .read .. | .write .. | .spliceOut .. | .close _ | .getsockopt _ | .epollWait =>
      .isTrue trivial

/-! ## One slot for every splice -/

/-- The bytes left in the slots when `k` are taken from those in front. -/
def drain : Nat → List Nat → List Nat
  | _, [] => []
  | k, s :: slots => if s ≤ k then drain (k - s) slots else (s - k) :: slots

theorem sum_drain (k : Nat) (slots : List Nat) : (drain k slots).sum = slots.sum - k := by
  induction slots generalizing k with
  | nil => simp [drain]
  | cons s slots ih =>
      unfold drain
      split
      · rw [ih, List.sum_cons]
        omega
      · rw [List.sum_cons, List.sum_cons]
        omega

theorem drain_pos {slots : List Nat} (h : ∀ s ∈ slots, 0 < s) (k : Nat) :
    ∀ s ∈ drain k slots, 0 < s := by
  induction slots generalizing k with
  | nil => exact h
  | cons s slots ih =>
      have htail : ∀ s ∈ slots, 0 < s := fun s hs => h s (List.mem_cons_of_mem _ hs)
      unfold drain
      split
      · exact ih htail _
      · intro s' hs'
        rcases List.mem_cons.1 hs' with rfl | hs'
        · omega
        · exact htail s' hs'

/-- The bytes in the slots behind one more transfer. -/
def refill (slots : List Nat) : Event → List Nat
  | (.spliceIn _ _ _, r) => if r.moved = [] then slots else slots ++ [r.moved.length]
  | (.spliceOut _ _ _, r) => drain r.ret.toNat slots
  | _ => slots

/-- The bytes in the slots in use, the oldest in front. -/
def filled (h : List Event) : List Nat := h.foldl refill []

theorem filled_append (h : List Event) (ev : Event) :
    filled (h ++ [ev]) = refill (filled h) ev := List.foldl_append

theorem sum_filled (h : List Event) : (filled h).sum = level h := by
  induction h using List.reverseRecOn with
  | nil => rfl
  | append_singleton h ev ih =>
      rw [filled_append, level_append, ← ih]
      obtain ⟨op, r⟩ := ev
      cases op with
      | spliceIn fd pipe n =>
          simp only [refill, fill]
          split
          · next hnil => rw [hnil, List.length_nil, Nat.add_zero]
          · rw [List.sum_append, List.sum_singleton]
      | spliceOut pipe fd n => exact sum_drain _ _
      | _ => rfl

theorem filled_pos (h : List Event) : ∀ s ∈ filled h, 0 < s := by
  induction h using List.reverseRecOn with
  | nil => exact fun s hs => absurd hs (List.not_mem_nil)
  | append_singleton h ev ih =>
      rw [filled_append]
      obtain ⟨op, r⟩ := ev
      cases op with
      | spliceIn fd pipe n =>
          simp only [refill]
          split
          · exact ih
          · next hne =>
              rw [List.forall_mem_append, List.forall_mem_singleton]
              exact ⟨ih, List.length_pos_of_ne_nil hne⟩
      | spliceOut pipe fd n => exact drain_pos ih _
      | _ => exact ih

theorem length_filled_spliceIn {h : List Event} {fd n : Int} {pipe : Pipe} {r : Answer}
    (hr : r.moved ≠ []) :
    (filled (h ++ [(.spliceIn fd pipe n, r)])).length = (filled h).length + 1 := by
  rw [filled_append, refill, if_neg hr, List.length_append, List.length_singleton]

/-- Every splice takes one slot, which is given back when it is empty. -/
def eachSplice : Slots where
  used _ h := (filled h).length
  used_le _ h := by
    rw [← sum_filled]
    exact List.length_le_sum_of_one_le _ (filled_pos h)
  used_lt _ h fd n r hr := by
    rw [length_filled_spliceIn hr]
    exact Nat.lt_succ_self _

/-- A splice that leaves a part of a body of at most a page behind leaves a
slot free for it. -/
def LeavesFree (w : Host) (op : SysCall) (r : Answer) : Prop :=
  match op with
  | .spliceIn _ pipe n => 0 < r.ret → r.ret < n → (w.piped pipe).length + n ≤ pageSize →
      eachSplice.used pipe (transfers (w.after op r) pipe) < pipeSlots
  | _ => True

instance (w : Host) (op : SysCall) (r : Answer) : Decidable (LeavesFree w op r) :=
  match op with
  | .spliceIn fd pipe n => inferInstanceAs (Decidable (0 < r.ret → r.ret < n →
      (w.piped pipe).length + n ≤ pageSize →
        eachSplice.used pipe (transfers (w.after (.spliceIn fd pipe n) r) pipe) < pipeSlots))
  | .read .. | .write .. | .spliceOut .. | .close _ | .getsockopt _ | .epollWait =>
      .isTrue trivial

/-- Every splice takes one slot, and none the last one from a body it leaves
unfinished. -/
def Spacious (w : Host) (op : SysCall) (r : Answer) : Prop :=
  Room eachSplice w op r ∧ LeavesFree w op r

instance (w : Host) (op : SysCall) (r : Answer) : Decidable (Spacious w op r) :=
  inferInstanceAs (Decidable (_ ∧ _))

/-! ## What both laws have in common -/

/-- The answer moves everything that was asked for. -/
structure Whole (n : Int) (r : Answer) : Prop where
  ret : r.ret = n
  data : (r.data.length : Int) = n

theorem Whole.moved {n : Int} {r : Answer} (h : Whole n r) : (r.moved.length : Int) = n := by
  rw [Answer.moved_eq (h.data.trans h.ret.symm)]
  exact h.data

/-- The pipe has room for all that a splice into it asks for. -/
def HasRoom (room : Host → SysCall → Answer → Prop) (w : Host) (fd : Int) (pipe : Pipe)
    (n : Int) : Prop := ∀ r, Whole n r → room w (.spliceIn fd pipe n) r

/-- A law for splices into pipes that depends on the pipe alone, under which a
pipe holds no more than it can and a body of at most `limit` bytes finds room
as a whole: before the first splice, and for the rest of it behind each one. -/
structure PipeLaw (room : Host → SysCall → Answer → Prop) (limit : Nat) : Prop where
  other : ∀ {w op r}, (∀ fd pipe n, op ≠ .spliceIn fd pipe n) → room w op r
  idle : ∀ {w op r}, r.ret ≤ 0 → room w op r
  bytes : ∀ {w fd pipe n r}, room w (.spliceIn fd pipe n) r → 0 < r.ret →
    (w.piped pipe).length + r.moved.length ≤ pipeCapacity
  same : ∀ {w w' fd pipe n r}, w'.piped pipe = w.piped pipe →
    transfers w' pipe = transfers w pipe → room w (.spliceIn fd pipe n) r →
    room w' (.spliceIn fd pipe n) r
  first : ∀ {w fd pipe} {n : Int}, Levelled w → w.piped pipe = [] → n ≤ limit →
    HasRoom room w fd pipe n
  rest : ∀ {w fd pipe n r}, Levelled w → room w (.spliceIn fd pipe n) r → 0 < r.ret →
    (r.moved.length : Int) = r.ret → r.ret < n → (w.piped pipe).length + n ≤ limit →
    HasRoom room (w.after (.spliceIn fd pipe n) r) fd pipe (n - r.ret)

section Room

variable {slots : Slots} {w : Host} {fd : Int} {pipe : Pipe} {n : Int} {r : Answer}

/-- There is room for as many bytes as there are slots. -/
theorem room_of_few (hlev : Levelled w)
    (hfew : (w.piped pipe).length + r.moved.length ≤ pipeSlots) :
    Room slots w (.spliceIn fd pipe n) r := by
  refine fun _ => ⟨Nat.le_trans hfew (by decide), Nat.le_trans (slots.used_le _ _) ?_⟩
  rw [hlev.after _ _ pipe, Host.after_spliceIn_piped, List.length_append]
  exact hfew

theorem room_same {w' : Host} (hpiped : w'.piped pipe = w.piped pipe)
    (htrans : transfers w' pipe = transfers w pipe) (h : Room slots w (.spliceIn fd pipe n) r) :
    Room slots w' (.spliceIn fd pipe n) r := by
  intro hpos
  obtain ⟨hcap, hslots⟩ := h hpos
  rw [transfers_spliceIn hpos] at hslots ⊢
  rw [hpiped, htrans]
  exact ⟨hcap, hslots⟩

/-- On any pipe a body with no more bytes than the pipe has slots finds
room. -/
theorem room_law (slots : Slots) : PipeLaw (Room slots) pipeSlots where
  other {w op r} hop := by
    cases op with
    | spliceIn fd pipe n => exact absurd rfl (hop fd pipe n)
    | _ => exact True.intro
  idle {w op r} hr := by
    cases op with
    | spliceIn fd pipe n => exact fun hpos => absurd hpos (Int.not_lt.2 hr)
    | _ => exact True.intro
  bytes h hpos := (h hpos).1
  same := room_same
  first hlev hnil hn r hr := by
    refine room_of_few hlev ?_
    have hmoved := hr.moved
    rw [hnil, List.length_nil]
    omega
  rest {w fd pipe n r} hlev _ _ hmoved _ hfew r' hr' := by
    refine room_of_few (hlev.after _ _) ?_
    have hmoved' := hr'.moved
    rw [Host.after_spliceIn_piped, List.length_append]
    omega

/-- A body of at most a page finds room in one slot. -/
theorem spacious_of_free (hcap : (w.piped pipe).length + n ≤ pageSize)
    (hfree : eachSplice.used pipe (transfers w pipe) < pipeSlots) (hr : Whole n r) :
    Spacious w (.spliceIn fd pipe n) r := by
  have hmoved := hr.moved
  refine ⟨fun hpos => ⟨?_, ?_⟩, fun _ hlt => absurd hr.ret (Int.ne_of_lt hlt)⟩
  · have hpage : pageSize ≤ pipeCapacity := by decide
    omega
  · have hne : r.moved ≠ [] := by
      apply List.ne_nil_of_length_pos
      have hret := hr.ret
      omega
    rw [transfers_spliceIn hpos]
    exact Nat.le_trans (Nat.le_of_eq (length_filled_spliceIn hne)) hfree

theorem spacious_law : PipeLaw Spacious pageSize where
  other {w op r} hop := by
    cases op with
    | spliceIn fd pipe n => exact absurd rfl (hop fd pipe n)
    | _ => exact ⟨True.intro, True.intro⟩
  idle {w op r} hr := by
    cases op with
    | spliceIn fd pipe n =>
        exact ⟨fun hpos => absurd hpos (Int.not_lt.2 hr), fun hpos => absurd hpos (Int.not_lt.2 hr)⟩
    | _ => exact ⟨True.intro, True.intro⟩
  bytes h hpos := (h.1 hpos).1
  same {w w' fd pipe n r} hpiped htrans h := by
    refine ⟨room_same hpiped htrans h.1, fun hpos hlt hcap => ?_⟩
    have hfree := h.2 hpos hlt (by rwa [← hpiped])
    rw [transfers_spliceIn hpos] at hfree ⊢
    rw [htrans]
    exact hfree
  first {w fd pipe n} hlev hnil hn r hr := by
    refine spacious_of_free ?_ ?_ hr
    · rw [hnil]
      simpa using hn
    · have hnone : level (transfers w pipe) = 0 := by rw [hlev, hnil, List.length_nil]
      have hle := eachSplice.used_le pipe (transfers w pipe)
      exact Nat.lt_of_le_of_lt hle (by rw [hnone]; decide)
  rest {w fd pipe n r} _ h hpos hmoved hlt hfits r' hr' := by
    refine spacious_of_free ?_ (h.2 hpos hlt hfits) hr'
    rw [Host.after_spliceIn_piped, List.length_append]
    omega

end Room

end ZeroCopyProxy.Ports.PipeSlots
