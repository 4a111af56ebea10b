import ZeroCopyProxy.Ports.FdList
import ZeroCopyProxy.Ports.WorkList

/-!
# Where `dlist_int` goes wrong

A deletion does not remember whether its search found a node: it counts one
node less and returns `NORMAL` either way.  The search itself passes over the
`tail` sentinel, whose value is 0, so that a 0 which is not in the list is
found there; unlinking the sentinel dereferences its `next`, which is NULL.

`dlist_int_destroy` deletes the node its cursor stands on and then reads that
node's `next`.
-/

namespace ZeroCopyProxy.Ports.FdListMisses

open ZeroCopyProxy.Verified.LinkedHeap
open ZeroCopyProxy.Verified.HeapRun
open ZeroCopyProxy.Verified.DoubleList
open ZeroCopyProxy.Ports.Posix
open ZeroCopyProxy.Ports.ProxyConn (JpoolWorkData blank notExist)
open ZeroCopyProxy.Ports.FdList

/-! ## Destroying a list -/

section Destroy

variable {s : Store} {n : Addr × Int} {ns : List (Addr × Int)}

/-- The loop deletes the first node and then looks for the next one in it. -/
theorem destroy_cons (h : Holds s (n :: ns)) (turns : Nat) :
    ∃ e, dlistIntDestroy turns s = .error e ∧ (2 ≤ turns → e = .dangling n.1) := by
  have hhead : s.nodes.cells.get s.list.head = some ⟨0, none, some n.1⟩ := ring_head h.ring
  have hnt : some n.1 ≠ some s.list.tail := by
    intro heq
    exact tail_notMem h.ring (by simp [addrs, Option.some.inj heq])
  have hloop : dlistIntDestroy turns s = destroyLoop turns (some s.list.head) s := by
    unfold dlistIntDestroy
    rw [bind_ok (run_state s), bind_ok (load_node hhead), if_pos hnt]
  have hfound : isNode (some n.1) (some n.1) s = .ok (true, s) := by
    rw [isNode, run_pure, decide_eq_true rfl]
  have hbefore : ∀ c ∈ ([] : List (Addr × Int)),
      isNode (some n.1) (some c.1) s = .ok (false, s) := by simp
  have h' : Holds s ([] ++ n :: ns) := h
  obtain ⟨s', hdel, _, _, _, hfreed⟩ := delNode_ok h' hbefore hfound
  rw [hloop]
  cases turns with
  | zero => exact ⟨_, rfl, by omega⟩
  | succ turns =>
      have hfirst : destroyLoop (turns + 1) (some s.list.head) s =
          destroyLoop turns (some n.1) s' := by
        rw [destroyLoop, bind_ok (nextOf_ok hhead), if_neg (by simp)]
        exact bind_ok hdel
      rw [hfirst]
      cases turns with
      | zero => exact ⟨_, rfl, by omega⟩
      | succ turns =>
          have hnext : nextOf (some n.1) s' = .error (.dangling n.1) := by
            unfold nextOf
            exact bind_error (onNodes_error (Mem.load_freed hfreed))
          exact ⟨.dangling n.1, by rw [destroyLoop, bind_error hnext], fun _ => rfl⟩

/-- What destroying a list should do: every node is freed once, and the list
is empty. -/
def Destroys (s : Store) (ns : List (Addr × Int)) : Prop :=
  ∃ turns s', dlistIntDestroy turns s = .ok ((), s') ∧ Holds s' [] ∧
    ∃ freed, s'.nodes.freed = s.nodes.freed ++ freed ∧ freed.Perm (addrs ns)

/-- `dlist_int_destroy` does this for the empty list alone. -/
theorem destroys_iff (s : Store) (ns : List (Addr × Int)) (h : Holds s ns) :
    Destroys s ns ↔ ns = [] := by
  constructor
  · rintro ⟨turns, s', hrun, _⟩
    cases ns with
    | nil => rfl
    | cons n ns =>
        obtain ⟨e, herr, _⟩ := destroy_cons h turns
        rw [herr] at hrun
        cases hrun
  · rintro rfl
    have hhead : s.nodes.cells.get s.list.head = some ⟨0, none, some s.list.tail⟩ :=
      ring_head h.ring
    refine ⟨0, s, ?_, h, [], by rw [List.append_nil], List.Perm.nil⟩
    unfold dlistIntDestroy
    rw [bind_ok (run_state s), bind_ok (load_node hhead), if_neg (by simp), run_pure]

/-- A list without nodes. -/
def vacant : Store where
  list := ⟨0, 100, 101⟩
  nodes := ⟨⟨[(100, ⟨0, none, some 101⟩), (101, ⟨0, some 100, none⟩)]⟩, []⟩

theorem destroys_vacant : Destroys vacant [] :=
  (destroys_iff vacant [] ⟨⟨rfl, rfl, True.intro⟩, rfl⟩).2 rfl

/-- A list of one node. -/
def single : Store where
  list := ⟨1, 100, 101⟩
  nodes := ⟨⟨[(100, ⟨0, none, some 7⟩), (7, ⟨42, some 100, some 101⟩),
    (101, ⟨0, some 7, none⟩)]⟩, []⟩

theorem holds_single : Holds single [(7, 42)] :=
  ⟨⟨rfl, rfl, rfl, True.intro⟩, rfl⟩

theorem destroy_single : Holds single [(7, 42)] ∧ ¬ Destroys single [(7, 42)] ∧
    dlistIntDestroy 2 single = .error (.dangling 7) := by
  refine ⟨holds_single, ?_, by decide⟩
  rintro ⟨turns, s', hrun, _⟩
  obtain ⟨e, herr, _⟩ := destroy_cons holds_single turns
  rw [herr] at hrun
  cases hrun

end Destroy

/-! ## Searching for what is not there -/

section Miss

variable {s : Store} {a : Addr} {d : Int} {ns : List (Addr × Int)}
  {test : Option Addr → Run Store Bool}

/-- A deletion that finds nothing counts one node less all the same. -/
theorem delNode_miss (h : Holds s ns) (hall : ∀ c ∈ ns, test (some c.1) s = .ok (false, s))
    (htail : test (some s.list.tail) s = .ok (false, s)) :
    dlistIntDelNode test s =
      .ok (normal, { s with list := { s.list with length := s.list.length - 1 } }) := by
  obtain ⟨k, hk⟩ := search_tail h remove (pure ()) hall
  have hsearch : search test remove (pure ()) s = .ok ((), s) := by
    rw [hk, scan_next (by simp) htail (nextOf_ok (ring_tail h.ring)), scan_stop, run_pure]
  rw [delNode_eq h, bind_ok hsearch, bind_ok (setLength_ok _ _), run_pure]

/-- A deletion that finds the sentinel dereferences NULL. -/
theorem delNode_tail (h : Holds s ns) (hall : ∀ c ∈ ns, test (some c.1) s = .ok (false, s))
    (htail : test (some s.list.tail) s = .ok (true, s)) :
    dlistIntDelNode test s = .error .null := by
  obtain ⟨old, vold, hold, hvold, hot⟩ := exists_back h.ring
  have hget := ring_tail h.ring
  rw [hold] at hget
  obtain ⟨k, hk⟩ := search_tail h remove (pure ()) hall
  let cells := s.nodes.cells.set old { vold with next := none }
  have hget' : cells.get s.list.tail = some ⟨0, some old, none⟩ := by
    rw [Heap.get_set_ne _ (Ne.symm hot)]
    exact hget
  have hunlink : unlink (some s.list.tail) s.nodes = .error .null := by
    unfold unlink
    rw [bind_ok (Mem.load_ok hget), bind_ok (Mem.modify_ok hvold _),
      bind_ok (Mem.load_ok hget'), Mem.modify_null]
  have hsearch : search test remove (pure ()) s = .error .null := by
    rw [hk, scan_hit (by simp) htail]
    exact bind_error (onNodes_error hunlink)
  rw [delNode_eq h, bind_error hsearch]

/-- What a deletion of something that is not there should do. -/
def Refuses (p : Run Store Int) (s : Store) : Prop := ∃ rv, p s = .ok (rv, s) ∧ rv < normal

/-- Whatever the sentinel passes for, it does not. -/
theorem not_refuses (h : Holds s ns) (hall : ∀ c ∈ ns, test (some c.1) s = .ok (false, s))
    {b : Bool} (htail : test (some s.list.tail) s = .ok (b, s)) :
    ¬ Refuses (dlistIntDelNode test) s := by
  rintro ⟨rv, hrun, hneg⟩
  cases b with
  | true =>
      rw [delNode_tail h hall htail] at hrun
      cases hrun
  | false =>
      rw [delNode_miss h hall htail] at hrun
      have hrv : normal = rv := congrArg Prod.fst (Except.ok.inj hrun)
      rw [← hrv] at hneg
      exact absurd hneg (by decide)

theorem hasData_tail (h : Holds s ns) (d : Int) :
    hasData d (some s.list.tail) s = .ok (decide (0 = d), s) :=
  hasData_ok d (ring_tail h.ring)

theorem hasData_absent (h : Holds s ns) (hd : d ∉ ns.map Prod.snd) :
    ∀ c ∈ ns, hasData d (some c.1) s = .ok (false, s) := by
  intro c hc
  have hne : c.2 ≠ d := by
    rintro rfl
    exact hd (List.mem_map_of_mem hc)
  rw [hasData_node h d hc, decide_eq_false hne]

theorem isNode_absent (ha : a ∉ ns.map Prod.fst) :
    ∀ c ∈ ns, isNode (some a) (some c.1) s = .ok (false, s) := by
  intro c hc
  have hne : some c.1 ≠ some a := by
    intro heq
    exact ha (Option.some.inj heq ▸ List.mem_map_of_mem hc)
  rw [isNode, run_pure, decide_eq_false hne]

/-- The lookup of a value that is not there finds the sentinel if it is 0. -/
theorem findNodeByData_absent (h : Holds s ns) (hd : d ∉ ns.map Prod.snd) :
    dlistIntFindNodeByData d s =
      .ok (if d = 0 then some s.list.tail else none, s) := by
  obtain ⟨k, hk⟩ := search_tail h (fun index => pure index) (pure none) (hasData_absent h hd)
  have htail := hasData_tail h d
  rw [findNodeByData_eq h, hk]
  by_cases hzero : d = 0
  · rw [decide_eq_true hzero.symm] at htail
    rw [scan_hit (by simp) htail, run_pure, if_pos hzero]
  · rw [decide_eq_false (Ne.symm hzero)] at htail
    rw [scan_next (by simp) htail (nextOf_ok (ring_tail h.ring)), scan_stop, run_pure,
      if_neg hzero]

end Miss

/-! ## The lists of the proxy -/

/-- `proxy->fd_list` and `proxy->work_list` -/
structure Lists where
  fdList : Store
  workList : WorkList.Store

def onFds {α : Type} (p : Run Store α) : Run Lists α :=
  Run.zoom Lists.fdList (fun s t => { s with fdList := t }) p

def onWorks {α : Type} (p : Run WorkList.Store α) : Run Lists α :=
  Run.zoom Lists.workList (fun s t => { s with workList := t }) p

/-- `proxy_delete_src_info` on the lists themselves.  `temp` is its local work
data, of which it sets two fields, and `delNodeByData` the deletion from
`work_list`. -/
def proxyDeleteSrcInfo (delNodeByData : Option Addr → Run WorkList.Store Int) (temp : Addr)
    (garbage : JpoolWorkData) (dstFd srcFd : Int) : Run Lists Int := do
  let rv ← onFds (dlistIntDelNodeByData srcFd)
  if rv < normal then
    pure rv
  else do
    onWorks (WorkList.onRecords (Mem.place temp
      { garbage with srcFd := srcFd, dstFd := dstFd }))
    let work ← onWorks (WorkList.dlistPtrFindNodeDataByData (some temp))
    if work ≠ none then do
      let d ← onWorks (WorkList.onRecords (Mem.load work))
      if d.srcFd = srcFd then do
        let _ ← onWorks (delNodeByData work)
        pure normal
      else
        pure notExist
    else
      pure notExist

/-- Both lists are what they were. -/
def Unchanged (s s' : Lists) : Prop :=
  s'.fdList = s.fdList ∧ s'.workList.list = s.workList.list ∧
    s'.workList.nodes = s.workList.nodes

/-- A program that leaves `fd_list` alone. -/
def KeepsFds {α : Type} (p : Run Lists α) : Prop :=
  ∀ s r s', p s = .ok (r, s') → s'.fdList = s.fdList

section Keeps

variable {α β : Type} {p q : Run Lists α}

theorem keeps_pure (a : α) : KeepsFds (pure a : Run Lists α) := by
  intro s r s' hrun
  obtain ⟨_, rfl⟩ := Prod.mk.inj (Except.ok.inj hrun)
  rfl

theorem keeps_onWorks (p : Run WorkList.Store α) : KeepsFds (onWorks p) := by
  intro s r s' hrun
  unfold onWorks Run.zoom at hrun
  cases hp : p s.workList with
  | error e =>
      rw [hp] at hrun
      cases hrun
  | ok res =>
      rw [hp] at hrun
      obtain ⟨_, rfl⟩ := Prod.mk.inj (Except.ok.inj hrun)
      rfl

theorem keeps_bind {f : α → Run Lists β} (hp : KeepsFds p) (hf : ∀ a, KeepsFds (f a)) :
    KeepsFds (p >>= f) := by
  intro s r s' hrun
  cases hps : p s with
  | error e =>
      rw [bind_error hps] at hrun
      cases hrun
  | ok res =>
      rw [bind_ok hps] at hrun
      exact (hf res.1 res.2 r s' hrun).trans (hp s res.1 res.2 hps)

theorem keeps_ite {c : Prop} [Decidable c] (hp : KeepsFds p) (hq : KeepsFds q) :
    KeepsFds (if c then p else q) := by
  split
  · exact hp
  · exact hq

end Keeps

/-- What an unregistered descriptor should lead to. -/
def RefusesBoth (p : Run Lists Int) (s : Lists) : Prop :=
  ∃ rv s', p s = .ok (rv, s') ∧ rv < normal ∧ Unchanged s s'

section Unregistered

variable {s : Lists} {ns : List (Addr × Int)} {srcFd : Int}

/-- The descriptor is not in `fd_list`, and the list is changed or the deletion
faults before `work_list` is looked at. -/
theorem not_refusesBoth (h : Holds s.fdList ns) (hfd : srcFd ∉ ns.map Prod.snd)
    (delNodeByData : Option Addr → Run WorkList.Store Int) (temp : Addr)
    (garbage : JpoolWorkData) (dstFd : Int) :
    ¬ RefusesBoth (proxyDeleteSrcInfo delNodeByData temp garbage dstFd srcFd) s := by
  rintro ⟨rv, s', hrun, _, hsame, _⟩
  have hall := hasData_absent h hfd
  have htail := hasData_tail h srcFd
  unfold proxyDeleteSrcInfo at hrun
  by_cases hzero : srcFd = 0
  · rw [decide_eq_true hzero.symm] at htail
    have hdel : onFds (dlistIntDelNodeByData srcFd) s = .error .null :=
      zoom_error (delNode_tail h hall htail)
    rw [bind_error hdel] at hrun
    cases hrun
  · rw [decide_eq_false (Ne.symm hzero)] at htail
    let less : Store :=
      { s.fdList with list := { s.fdList.list with length := s.fdList.list.length - 1 } }
    have hdel : onFds (dlistIntDelNodeByData srcFd) s = .ok (normal, { s with fdList := less }) :=
      zoom_ok (delNode_miss h hall htail)
    rw [bind_ok hdel, if_neg (by decide)] at hrun
    have hkeep : s'.fdList = less := by
      refine keeps_bind (keeps_onWorks _) (fun _ => keeps_bind (keeps_onWorks _) fun work => ?_)
        _ _ _ hrun
      refine keeps_ite (keeps_bind (keeps_onWorks _) fun d => ?_) (keeps_pure _)
      exact keeps_ite (keeps_bind (keeps_onWorks _) fun _ => keeps_pure _) (keeps_pure _)
    have hlen := congrArg (fun t : Store => t.list.length) (hkeep.symm.trans hsame)
    simp only [less] at hlen
    omega

end Unregistered

/-- **A miss changes `dlist_int` or faults.**  No deletion of what is not there
refuses, so neither does the one of an unregistered descriptor; the lookup
alone is right, for every value but 0. -/
theorem dlistInt_miss (s : Store) (ns : List (Addr × Int)) (h : Holds s ns) :
    (∀ d, d ∉ ns.map Prod.snd → ¬ Refuses (dlistIntDelNodeByData d) s ∧
      (dlistIntFindNodeByData d s = .ok (none, s) ↔ d ≠ 0)) ∧
    (∀ a, a ∉ ns.map Prod.fst → ¬ Refuses (dlistIntDelNodeByNode (some a)) s) ∧
    ∀ (lists : Lists) (delNodeByData : Option Addr → Run WorkList.Store Int) (temp : Addr)
      (garbage : JpoolWorkData) (dstFd srcFd : Int), lists.fdList = s → srcFd ∉ ns.map Prod.snd →
      ¬ RefusesBoth (proxyDeleteSrcInfo delNodeByData temp garbage dstFd srcFd) lists := by
  refine ⟨fun d hd => ⟨?_, ?_⟩, fun a ha => ?_, ?_⟩
  · exact not_refuses h (hasData_absent h hd) (hasData_tail h d)
  · rw [findNodeByData_absent h hd]
    by_cases hzero : d = 0 <;> simp [hzero]
  · exact not_refuses h (isNode_absent ha) (run_pure _ s)
  · rintro lists delNodeByData temp garbage dstFd srcFd rfl hfd
    exact not_refusesBoth h hfd delNodeByData temp garbage dstFd

theorem dlistInt_miss_single : ¬ Refuses (dlistIntDelNodeByData 5) single ∧
    dlistIntFindNodeByData 5 single = .ok (none, single) ∧
    ¬ Refuses (dlistIntDelNodeByNode (some 9)) single := by
  obtain ⟨hdata, hnode, _⟩ := dlistInt_miss single [(7, 42)] holds_single
  exact ⟨(hdata 5 (by decide)).1, (hdata 5 (by decide)).2.2 (by decide), hnode 9 (by decide)⟩

/-- A value that is not there, and the 0 of the sentinel. -/
theorem delNode_single :
    dlistIntDelNodeByData 5 single = .ok (normal, { single with list := ⟨0, 100, 101⟩ }) ∧
    ¬ Refuses (dlistIntDelNodeByData 5) single ∧
    dlistIntDelNodeByData 0 single = .error .null ∧
    dlistIntFindNodeByData 0 single = .ok (some 101, single) := by
  refine ⟨by decide, ?_, by decide, by decide⟩
  exact not_refuses holds_single (hasData_absent holds_single (by decide))
    (hasData_tail holds_single 5)

end ZeroCopyProxy.Ports.FdListMisses
