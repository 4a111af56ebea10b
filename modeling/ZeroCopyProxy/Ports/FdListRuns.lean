import ZeroCopyProxy.Ports.FdList
import ZeroCopyProxy.Verified.Transitions

/-!
# `dlist_int` and the list it stands for

The reference is a list of pairs, a node with its value, on which the three
operations append, erase the first pair with a value and erase the pair of a
node.  A run interleaves them in any order; what an operation asks of its
caller is that a deletion names something that is there, and of `malloc` that
it returns an address where nothing is allocated.

Every reachable memory `Holds` the reference, so no operation faults and the
lookups answer from it.
-/

namespace ZeroCopyProxy.Ports.FdListRuns

open ZeroCopyProxy.Verified.LinkedHeap
open ZeroCopyProxy.Verified.HeapRun
open ZeroCopyProxy.Verified.DoubleList
open ZeroCopyProxy.Verified.Transitions
open ZeroCopyProxy.Ports.Posix
open ZeroCopyProxy.Ports.FdList

/-- A call on the list; `fresh` is the node `malloc` returns. -/
inductive Op where
  | addNode (fresh : Addr) (data : Int)
  | delNodeByData (data : Int)
  | delNodeByNode (target : Addr)
  deriving DecidableEq

/-- The call as the source makes it. -/
def Op.run : Op → Run Store Int
  | .addNode fresh data => dlistIntAddNode (some fresh) data
  | .delNodeByData data => dlistIntDelNodeByData data
  | .delNodeByNode target => dlistIntDelNodeByNode (some target)

/-- The nodes of the list, with their values. -/
abbrev Ref : Type := List (Addr × Int)

/-- The call on the reference. -/
def Op.apply : Op → Ref → Ref
  | .addNode fresh data, ref => ref ++ [(fresh, data)]
  | .delNodeByData data, ref => ref.eraseP fun n => n.2 = data
  | .delNodeByNode target, ref => ref.eraseP fun n => n.1 = target

/-- What a call relies on. -/
def Op.Legal (c : Store × Ref) : Op → Prop
  | .addNode fresh _ => c.1.nodes.cells.get fresh = none
  | .delNodeByData data => data ∈ c.2.map Prod.snd
  | .delNodeByNode target => target ∈ c.2.map Prod.fst

instance (c : Store × Ref) (op : Op) : Decidable (op.Legal c) :=
  match op with
  | .addNode fresh _ => inferInstanceAs (Decidable (c.1.nodes.cells.get fresh = none))
  | .delNodeByData data => inferInstanceAs (Decidable (data ∈ c.2.map Prod.snd))
  | .delNodeByNode target => inferInstanceAs (Decidable (target ∈ c.2.map Prod.fst))

/-- A call on the list and on its reference; a call that faults has no step. -/
def step (c : Store × Ref) (op : Op) : Option (Store × Ref) :=
  match op.run c.1 with
  | .ok (_, s) => some (s, op.apply c.2)
  | .error _ => none

/-- What can be seen of the list agrees with the reference. -/
structure Refines (s : Store) (ref : Ref) : Prop where
  /-- from `head` to `tail` along `next`, and back along `prev` -/
  forward : Visits Node.next s.nodes.cells (some s.list.head)
    (s.list.head :: ref.map Prod.fst) (some s.list.tail)
  backward : Visits Node.prev s.nodes.cells (some s.list.tail)
    (s.list.tail :: (ref.map Prod.fst).reverse) (some s.list.head)
  data : ∀ n ∈ ref, ∃ v, s.nodes.cells.get n.1 = some v ∧ v.data = n.2
  length : s.list.length = ref.length
  findFirst : ∀ n, ref.head? = some n → dlistIntFindFirstNodeData s = .ok (n.2, s)
  findLast : ∀ n, ref.getLast? = some n → dlistIntFindLastNodeData s = .ok (n.2, s)
  find : ∀ d ∈ ref.map Prod.snd, dlistIntFindNodeByData d s =
    .ok ((ref.find? fun n => n.2 = d).map Prod.fst, s)

section Invariant

variable {s : Store} {ref : Ref} {op : Op}

/-- A legal call neither faults nor fails, and the reference follows it. -/
theorem run_ok (h : Holds s ref) (hl : op.Legal (s, ref)) :
    ∃ s', op.run s = .ok (normal, s') ∧ Holds s' (op.apply ref) := by
  cases op with
  | addNode fresh data =>
      obtain ⟨s', hrun, hs', _⟩ := addNode_ok h hl data
      exact ⟨s', hrun, hs'⟩
  | delNodeByData data =>
      obtain ⟨m, hm, hdata⟩ := List.mem_map.1 hl
      obtain ⟨n, ns₁, ns₂, hbefore, hn, rfl, herase⟩ :=
        List.exists_of_eraseP (p := fun n : Addr × Int => n.2 = data) hm (decide_eq_true hdata)
      have hskip : ∀ c ∈ ns₁, hasData data (some c.1) s = .ok (false, s) := by
        intro c hc
        rw [hasData_node h data (List.mem_append_left _ hc)]
        exact congrArg _ (congrArg (·, s) (by simpa using hbefore c hc))
      have hhit : hasData data (some n.1) s = .ok (true, s) := by
        rw [hasData_node h data (by simp), hn]
      obtain ⟨s', hrun, hs', _⟩ := delNode_ok h hskip hhit
      refine ⟨s', hrun, ?_⟩
      rw [Op.apply, herase]
      exact hs'
  | delNodeByNode target =>
      obtain ⟨m, hm, htarget⟩ := List.mem_map.1 hl
      obtain ⟨n, ns₁, ns₂, hbefore, hn, rfl, herase⟩ :=
        List.exists_of_eraseP (p := fun n : Addr × Int => n.1 = target) hm
          (decide_eq_true htarget)
      obtain rfl : n.1 = target := of_decide_eq_true hn
      have hskip : ∀ c ∈ ns₁, isNode (some n.1) (some c.1) s = .ok (false, s) := by
        intro c hc
        have hne : some c.1 ≠ some n.1 := by simpa using hbefore c hc
        rw [isNode, run_pure, decide_eq_false hne]
      have hhit : isNode (some n.1) (some n.1) s = .ok (true, s) := by
        rw [isNode, run_pure, decide_eq_true rfl]
      obtain ⟨s', hrun, hs', _⟩ := delNode_ok h hskip hhit
      refine ⟨s', hrun, ?_⟩
      rw [Op.apply, herase]
      exact hs'

theorem holds_step {c c' : Store × Ref} (h : Holds c.1 c.2) (hl : op.Legal c)
    (hs : step c op = some c') : Holds c'.1 c'.2 := by
  obtain ⟨s', hrun, hs'⟩ := run_ok h hl
  simp only [step, hrun, Option.some.injEq] at hs
  subst hs
  exact hs'

theorem refines_of_holds (h : Holds s ref) : Refines s ref where
  forward := (ring_visits h.ring).1
  backward := (ring_visits h.ring).2
  data := fun _ hn => seg_get (ring_seg h.ring) hn
  length := h.length
  findFirst := by
    intro n hn
    obtain ⟨ns, rfl⟩ := List.head?_eq_some_iff.1 hn
    exact findFirstNodeData_ok h
  findLast := by
    intro n hn
    obtain ⟨ns, rfl⟩ := List.getLast?_eq_some_iff.1 hn
    exact findLastNodeData_ok h
  find := by
    intro d hd
    obtain ⟨m, hm, hdata⟩ := List.mem_map.1 hd
    have hsome : (ref.find? fun n => n.2 = d).isSome :=
      List.find?_isSome.2 ⟨m, hm, decide_eq_true hdata⟩
    obtain ⟨n, hfind⟩ := Option.isSome_iff_exists.1 hsome
    obtain ⟨hn, ns₁, ns₂, rfl, hbefore⟩ := List.find?_eq_some_iff_append.1 hfind
    obtain rfl : n.2 = d := of_decide_eq_true hn
    rw [hfind]
    exact findNodeByData_ok h fun c hc => by simpa using hbefore c hc

end Invariant

/-- **`dlist_int` refines a list of integers.** -/
theorem dlistInt_refines (s : Store) (hne : s.list.head ≠ s.list.tail)
    (hhead : (s.nodes.cells.get s.list.head).isSome)
    (htail : (s.nodes.cells.get s.list.tail).isSome) :
    ∃ s₀, dlistIntInit s = .ok ((), s₀) ∧
      ∀ s' ref, Reach step (fun c op => op.Legal c) (s₀, []) (s', ref) →
        Refines s' ref ∧
          ∀ op : Op, op.Legal (s', ref) → ∃ s'', op.run s' = .ok (normal, s'') := by
  obtain ⟨v, hv⟩ := Option.isSome_iff_exists.1 hhead
  obtain ⟨w, hw⟩ := Option.isSome_iff_exists.1 htail
  obtain ⟨s₀, hinit, hs₀, _⟩ := init_ok hne hv hw
  refine ⟨s₀, hinit, fun s' ref hr => ?_⟩
  have hholds : Holds s' ref :=
    reach_invariant (I := fun c => Holds c.1 c.2)
      (fun _ hc hl hs => holds_step hc hl hs) hr hs₀
  refine ⟨refines_of_holds hholds, fun op hl => ?_⟩
  obtain ⟨s'', hrun, _⟩ := run_ok hholds hl
  exact ⟨s'', hrun⟩

/-- Memory with room for the sentinels and for nothing else. -/
def raw : Store where
  list := ⟨7, 100, 101⟩
  nodes := ⟨⟨[(100, ⟨3, some 5, none⟩), (101, ⟨4, none, some 6⟩)]⟩, []⟩

theorem dlistInt_refines_raw : ∃ s₀, dlistIntInit raw = .ok ((), s₀) ∧
    ∀ s' ref, Reach step (fun c op => op.Legal c) (s₀, []) (s', ref) →
      Refines s' ref ∧
        ∀ op : Op, op.Legal (s', ref) → ∃ s'', op.run s' = .ok (normal, s'') :=
  dlistInt_refines raw (by decide) (by decide) (by decide)

end ZeroCopyProxy.Ports.FdListRuns
