import ZeroCopyProxy.Ports.WorkList
import ZeroCopyProxy.Verified.Transitions

/-!
# Building and searching the work list

Work data is added from records of the caller, who goes on writing and freeing
his own records in between; the list holds copies.  The reference of a run is
the list of the entries with the work data each was added with.

Every reachable memory `Holds` its reference, and each of the lookups is a
`find?` on it.
-/

namespace ZeroCopyProxy.Ports.WorkListRuns

open ZeroCopyProxy.Verified.LinkedHeap
open ZeroCopyProxy.Verified.HeapRun
open ZeroCopyProxy.Verified.DoubleList
open ZeroCopyProxy.Verified.Transitions
open ZeroCopyProxy.Ports.Posix
open ZeroCopyProxy.Ports.ProxyConn
open ZeroCopyProxy.Ports.WorkList

/-- A call on the list, whose `malloc`s return `fresh` and `block`, or
something its caller does to a record of his own. -/
inductive Op where
  | addNode (fresh block data : Addr)
  | fill (record : Addr) (work : JpoolWorkData)
  | drop (record : Addr)

def Op.run : Op → Run Store Int
  | .addNode fresh block data => dlistPtrAddNode (some fresh) (some block) (some data)
  | .fill record work => do
    onRecords (Mem.place record work)
    pure normal
  | .drop record => do
    onRecords (Mem.free (some record))
    pure normal

/-- An addition makes an entry with the work data as it is then. -/
def Op.apply (s : Store) (es : List Entry) : Op → List Entry
  | .addNode fresh block data =>
    match s.records.cells.get data with
    | some work => es ++ [⟨fresh, block, work⟩]
    | none => es
  | .fill _ _ => es
  | .drop _ => es

/-- `malloc` returns fresh addresses, what is added is a record, and the caller
keeps off the records of the list. -/
def Op.Legal (c : Store × List Entry) : Op → Prop
  | .addNode fresh block data => c.1.nodes.cells.get fresh = none ∧
      c.1.records.cells.get block = none ∧ (c.1.records.cells.get data).isSome
  | .fill record _ => record ∉ c.2.map Entry.record
  | .drop record => record ∉ c.2.map Entry.record ∧ (c.1.records.cells.get record).isSome

/-- A call on the list and on its reference; a call that faults has no step. -/
def step (c : Store × List Entry) (op : Op) : Option (Store × List Entry) :=
  match op.run c.1 with
  | .ok (_, s) => some (s, op.apply c.1 c.2)
  | .error _ => none

/-- What can be seen of the list agrees with the reference. -/
structure Built (s : Store) (es : List Entry) : Prop where
  /-- from `head` to `tail` along `next`, and back along `prev` -/
  forward : Visits Node.next s.nodes.cells (some s.list.head)
    (s.list.head :: es.map Entry.node) (some s.list.tail)
  backward : Visits Node.prev s.nodes.cells (some s.list.tail)
    (s.list.tail :: (es.map Entry.node).reverse) (some s.list.head)
  copies : ∀ e ∈ es, (∃ v, s.nodes.cells.get e.node = some v ∧ v.data = some e.record) ∧
    s.records.cells.get e.record = some e.work
  own : (es.map Entry.record).Nodup
  length : s.list.length = es.length
  findFirst : dlistPtrFindFirstNodeData s = .ok (es.head?.map Entry.record, s)
  findLast : dlistPtrFindLastNodeData s = .ok (es.getLast?.map Entry.record, s)
  findLastNode : dlistPtrFindLastNode s = .ok (es.getLast?.map Entry.node, s)
  findNode : ∀ target, dlistPtrFindNodeByNode target s =
    .ok (if target ∈ es.map (fun e => some e.node) then target else none, s)
  findNodeData : ∀ target, dlistPtrFindNodeDataByNode target s =
    .ok ((es.find? fun e => some e.node = target).map Entry.record, s)
  /-- the first entry with the key's `src_fd` -/
  findData : ∀ key w, s.records.cells.get key = some w →
    dlistPtrFindNodeDataByData (some key) s =
      .ok ((es.find? fun e => w.srcFd = e.work.srcFd).map Entry.record, s)
  /-- the same entry, where all have the key's `dst_fd` -/
  findByData : ∀ key w, s.records.cells.get key = some w →
    (∀ e ∈ es, e.work.dstFd = w.dstFd) →
    dlistPtrFindNodeByData (some key) s =
      .ok ((es.find? fun e => w.srcFd = e.work.srcFd).map Entry.node, s)

section Invariant

variable {s : Store} {es : List Entry} {op : Op}

/-- The entries do not depend on the other records. -/
theorem holds_records {m : Mem JpoolWorkData} (h : Holds s es)
    (hm : ∀ r ∈ es.map Entry.record, m.cells.get r = s.records.cells.get r) :
    Holds { s with records := m } es where
  ring := h.ring
  records := fun e he => (hm _ (List.mem_map_of_mem he)).trans (h.records e he)
  distinct := h.distinct
  length := h.length

/-- A legal call neither faults nor fails, and the reference follows it. -/
theorem run_ok (h : Holds s es) (hl : op.Legal (s, es)) :
    ∃ s', op.run s = .ok (normal, s') ∧ Holds s' (op.apply s es) := by
  cases op with
  | addNode fresh block data =>
      obtain ⟨hfresh, hblock, hdata⟩ := hl
      obtain ⟨w, hw⟩ := Option.isSome_iff_exists.1 hdata
      obtain ⟨s', hrun, hs'⟩ := addNode_ok h hfresh hblock hw
      have happly : Op.apply s es (.addNode fresh block data) = es ++ [⟨fresh, block, w⟩] := by
        simp only [Op.apply]
        rw [show s.records.cells.get data = some w from hw]
      exact ⟨s', hrun, happly ▸ hs'⟩
  | fill record work =>
      refine ⟨_, rfl, holds_records h fun r hr => Heap.get_set_ne _ ?_ _⟩
      rintro rfl
      exact hl hr
  | drop record =>
      obtain ⟨hout, halloc⟩ := hl
      obtain ⟨w, hw⟩ := Option.isSome_iff_exists.1 halloc
      have hfree : onRecords (Mem.free (some record)) s =
          .ok ((), { s with
            records := ⟨s.records.cells.free record, s.records.freed ++ [record]⟩ }) :=
        onRecords_ok (Mem.free_ok hw)
      refine ⟨_, bind_ok hfree, holds_records h fun r hr => Heap.get_free_ne _ ?_⟩
      rintro rfl
      exact hout hr

theorem holds_step {c c' : Store × List Entry} (h : Holds c.1 c.2) (hl : op.Legal c)
    (hs : step c op = some c') : Holds c'.1 c'.2 := by
  obtain ⟨s', hrun, hs'⟩ := run_ok h hl
  simp only [step, hrun, Option.some.injEq] at hs
  subst hs
  exact hs'

/-- Looking for a node finds that node, if it is there. -/
theorem find_node (es : List Entry) (target : Option Addr) :
    (es.find? fun e => some e.node = target).map Entry.node =
      if target ∈ es.map (fun e => some e.node) then target else none := by
  induction es with
  | nil => simp
  | cons e es ih =>
      by_cases he : some e.node = target
      · simp [he]
      · have hne : ¬ target = some e.node := fun heq => he heq.symm
        simp only [List.find?_cons, he, decide_false, ih, List.map_cons, List.mem_cons, hne,
          false_or]

theorem built_of_holds (h : Holds s es) : Built s es where
  forward := addrs_cell es ▸ (ring_visits h.ring).1
  backward := addrs_cell es ▸ (ring_visits h.ring).2
  copies := fun e he => ⟨holds_mem h he, h.records e he⟩
  own := h.distinct
  length := h.length
  findFirst := findFirstNodeData_ok h
  findLast := findLastNodeData_ok h
  findLastNode := findLastNode_ok h
  findNode := fun target => by rw [findNodeByNode_ok h, find_node]
  findNodeData := findNodeDataByNode_ok h
  findData := fun _ _ hw => findNodeDataByData_ok h hw
  findByData := by
    intro key w hw hdst
    refine find_ok h _ _ (fun e he => ?_) fun _ _ => rfl
    have hfds : (e.work.srcFd = w.srcFd ∧ e.work.dstFd = w.dstFd) ↔ w.srcFd = e.work.srcFd := by
      rw [eq_comm, and_iff_left (hdst e he)]
    rw [sameFds_mem h hw he, decide_eq_decide.2 hfds]

end Invariant

/-- **Building and searching the work list.** -/
theorem workList_built (s : Store) (hne : s.list.head ≠ s.list.tail)
    (hhead : (s.nodes.cells.get s.list.head).isSome)
    (htail : (s.nodes.cells.get s.list.tail).isSome) :
    ∃ s₀, dlistPtrInit s = .ok ((), s₀) ∧
      ∀ s' es, Reach step (fun c op => op.Legal c) (s₀, []) (s', es) →
        Built s' es ∧ ∀ op : Op, op.Legal (s', es) → ∃ s'', op.run s' = .ok (normal, s'') := by
  obtain ⟨v, hv⟩ := Option.isSome_iff_exists.1 hhead
  obtain ⟨u, hu⟩ := Option.isSome_iff_exists.1 htail
  obtain ⟨s₀, hinit, hs₀, _⟩ := init_ok hne hv hu
  refine ⟨s₀, hinit, fun s' es hr => ?_⟩
  have hholds : Holds s' es :=
    reach_invariant (I := fun c => Holds c.1 c.2)
      (fun _ hc hl hs => holds_step hc hl hs) hr hs₀
  refine ⟨built_of_holds hholds, fun op hl => ?_⟩
  obtain ⟨s'', hrun, _⟩ := run_ok hholds hl
  exact ⟨s'', hrun⟩

/-- Memory with room for the sentinels and a record of the caller. -/
def raw : Store where
  list := ⟨7, 100, 101⟩
  nodes := ⟨⟨[(100, ⟨none, some 5, none⟩), (101, ⟨some 3, none, some 6⟩)]⟩, []⟩
  records := ⟨⟨[(50, blank)]⟩, []⟩

theorem workList_built_raw : ∃ s₀, dlistPtrInit raw = .ok ((), s₀) ∧
    ∀ s' es, Reach step (fun c op => op.Legal c) (s₀, []) (s', es) →
      Built s' es ∧ ∀ op : Op, op.Legal (s', es) → ∃ s'', op.run s' = .ok (normal, s'') :=
  workList_built raw (by decide) (by decide) (by decide)

end ZeroCopyProxy.Ports.WorkListRuns
