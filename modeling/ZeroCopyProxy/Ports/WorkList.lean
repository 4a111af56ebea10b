import ZeroCopyProxy.Verified.DoubleList
import ZeroCopyProxy.Ports.ProxyConn

/-!
# The list of work data: `dlist_ptr`

A node of this list points to a record of its own, a copy of the work data
that was added.  The records live in a second heap.  Every loop stops at the
`tail` sentinel, and the functions differ in what they compare: addresses, the
`src_fd` of the record, or its first eight bytes; the deletion compares the
first eight bytes of two nodes, which hold their `prev`.

`Holds s es` is the invariant: the nodes of the entries `es` stand between the
sentinels, each points to the record of its entry, and `length` counts them.
-/

namespace ZeroCopyProxy.Ports.WorkList

open ZeroCopyProxy.Verified.LinkedHeap
open ZeroCopyProxy.Verified.HeapRun
open ZeroCopyProxy.Verified.DoubleList
open ZeroCopyProxy.Ports.Posix
open ZeroCopyProxy.Ports.ProxyConn

/-! ## The list and its memory -/

/-- `struct node_ptr_s`: `data` points to a record.  In memory `prev` comes
first. -/
abbrev NodePtr : Type := Node (Option Addr)

/-- `struct dlist_ptr_s`, with the addresses of the two nodes in it. -/
structure DlistPtr where
  length : Int
  head : Addr
  tail : Addr

/-- A list object, the memory of the nodes and that of the work data. -/
structure Store where
  list : DlistPtr
  nodes : Mem NodePtr
  records : Mem JpoolWorkData

/-- `OBJECT_ERR` of `common_l.h`. -/
def objectErr : Int := -1

/-- An access to a node. -/
def onNodes {α : Type} (p : Run (Mem NodePtr) α) : Run Store α :=
  Run.zoom Store.nodes (fun s m => { s with nodes := m }) p

/-- An access to a record. -/
def onRecords {α : Type} (p : Run (Mem JpoolWorkData) α) : Run Store α :=
  Run.zoom Store.records (fun s m => { s with records := m }) p

/-- `list->length = f( list->length)` -/
def setLength (f : Int → Int) : Run Store Unit :=
  Run.update fun s => { s with list := { s.list with length := f s.list.length } }

/-! ## Nodes -/

/-- `memcpy` of a whole record to a block fresh from `malloc`. -/
def copyRecord (block : Option Addr) (work : JpoolWorkData) : Run Store Unit :=
  match block with
  | none => Run.fault .null
  | some b => onRecords (Mem.place b work)

/-- `node_ptr_create`; `fresh` and `block` are what `malloc` returns. -/
def nodePtrCreate (fresh block data : Option Addr) : Run Store (Option Addr) :=
  match fresh with
  | none => pure none
  | some a => do
    onNodes (Mem.place a { data := none, prev := none, next := none })
    if data = none then
      pure none
    else do
      onNodes (Mem.modify (some a) fun v => { v with data := block })
      let work ← onRecords (Mem.load data)
      copyRecord block work
      onNodes (Mem.modify (some a) fun v => { v with prev := none })
      onNodes (Mem.modify (some a) fun v => { v with next := none })
      pure (some a)

/-- `node_ptr_destroy` -/
def nodePtrDestroy (node : Option Addr) : Run Store Unit :=
  if node ≠ none then do
    onNodes (Mem.modify node fun v => { v with prev := none })
    onNodes (Mem.modify node fun v => { v with next := none })
    let v ← onNodes (Mem.load node)
    onRecords (Mem.free v.data)
    onNodes (Mem.free node)
  else
    pure ()

/-! ## The functions -/

/-- `dlist_ptr_init`; what the memory held before is lost. -/
def dlistPtrInit : Run Store Unit := do
  let s ← Run.state
  setLength fun _ => 0
  onNodes (Mem.modify (some s.list.head) fun _ => ⟨none, none, none⟩)
  onNodes (Mem.modify (some s.list.tail) fun _ => ⟨none, none, none⟩)
  onNodes (Mem.modify (some s.list.head) fun v => { v with prev := none })
  onNodes (Mem.modify (some s.list.head) fun v => { v with next := some s.list.tail })
  onNodes (Mem.modify (some s.list.tail) fun v => { v with prev := some s.list.head })
  onNodes (Mem.modify (some s.list.tail) fun v => { v with next := none })
  setLength fun _ => 0

/-- `dlist_ptr_add_node` -/
def dlistPtrAddNode (fresh block data : Option Addr) : Run Store Int := do
  let new ← nodePtrCreate fresh block data
  if new = none then
    pure objectErr
  else do
    let s ← Run.state
    let head ← onNodes (Mem.load (some s.list.head))
    if head.next = some s.list.tail then do
      onNodes (Mem.modify new fun v => { v with next := some s.list.tail })
      onNodes (Mem.modify new fun v => { v with prev := some s.list.head })
      onNodes (Mem.modify (some s.list.head) fun v => { v with next := new })
      onNodes (Mem.modify (some s.list.tail) fun v => { v with prev := new })
      setLength (· + 1)
      pure normal
    else do
      let tail ← onNodes (Mem.load (some s.list.tail))
      if tail.prev ≠ none then do
        let old := tail.prev
        onNodes (Mem.modify new fun v => { v with prev := old })
        onNodes (Mem.modify new fun v => { v with next := some s.list.tail })
        onNodes (Mem.modify old fun v => { v with next := new })
        onNodes (Mem.modify (some s.list.tail) fun v => { v with prev := new })
        setLength (· + 1)
        pure normal
      else
        pure unknown

/-- `index_node->next` -/
def nextOf (index : Option Addr) : Run Store (Option Addr) := do
  let v ← onNodes (Mem.load index)
  pure v.next

/-- `index_node->data` -/
def dataOf (index : Option Addr) : Run Store (Option Addr) := do
  let v ← onNodes (Mem.load index)
  pure v.data

/-- `index_node == target` -/
def isNode (target index : Option Addr) : Run Store Bool := pure (index = target)

/-- `memcmp( index_node, target, sizeof( target))` is not zero: the first
eight bytes of the nodes differ, which hold `prev`. -/
def differs (target index : Option Addr) : Run Store Bool := do
  let v ← onNodes (Mem.load index)
  let w ← onNodes (Mem.load target)
  pure (v.prev ≠ w.prev)

/-- The record of the node has this `src_fd`. -/
def hasSrcFd (srcFd : Int) (index : Option Addr) : Run Store Bool := do
  let data ← dataOf index
  let work ← onRecords (Mem.load data)
  pure (srcFd = work.srcFd)

/-- `memcmp( index_node->data, data, sizeof( data)) == 0`: the first eight
bytes of the records agree, which hold `src_fd` and `dst_fd`. -/
def sameFds (key : Option Addr) (index : Option Addr) : Run Store Bool := do
  let data ← dataOf index
  let work ← onRecords (Mem.load data)
  let work' ← onRecords (Mem.load key)
  pure (work.srcFd = work'.srcFd ∧ work.dstFd = work'.dstFd)

/-- The loop of every function: from `head->next` to `tail`.  A search of more
turns than there are cells has come back to one and never ends. -/
def search {γ : Type} (test : Option Addr → Run Store Bool)
    (hit : Option Addr → Run Store γ) (miss : Run Store γ) : Run Store γ := do
  let s ← Run.state
  let head ← onNodes (Mem.load (some s.list.head))
  scan (some s.list.tail) nextOf test hit miss s.nodes.cells.cells.length head.next

/-- What happens to the node that is found: unlinked, destroyed and no longer
counted. -/
def remove (index : Option Addr) : Run Store Int := do
  onNodes (unlink index)
  nodePtrDestroy index
  setLength (· - 1)
  pure normal

/-- `dlist_ptr_del_node_by_node` -/
def dlistPtrDelNodeByNode (target : Option Addr) : Run Store Int := do
  let s ← Run.state
  let head ← onNodes (Mem.load (some s.list.head))
  if head.next = none then do
    setLength fun _ => 0
    pure notExist
  else
    search (differs target) remove (pure objectErr)

/-- The loop of `dlist_ptr_final`, which walks the list it deletes from. -/
def finalLoop : Nat → Option Addr → Run Store Unit
  | 0, _ => Run.fault .spins
  | turns + 1, index => do
    let index ← nextOf index
    if index = none then
      pure ()
    else do
      let _ ← dlistPtrDelNodeByNode index
      finalLoop turns index

/-- `dlist_ptr_final` -/
def dlistPtrFinal (turns : Nat) : Run Store Unit := do
  let s ← Run.state
  if 0 < s.list.length then do
    let head ← onNodes (Mem.load (some s.list.head))
    if head.next ≠ some s.list.tail then
      if head.next ≠ none then finalLoop turns (some s.list.head) else pure ()
    else
      pure ()
  else
    pure ()

/-- The lookups, which differ in their test and in what they return of the
node that is found. -/
def dlistPtrFind (test : Option Addr → Run Store Bool)
    (found : Option Addr → Run Store (Option Addr)) : Run Store (Option Addr) := do
  let s ← Run.state
  let head ← onNodes (Mem.load (some s.list.head))
  if head.next = none then
    pure none
  else
    search test found (pure none)

/-- `dlist_ptr_find_node_by_node` -/
def dlistPtrFindNodeByNode (target : Option Addr) : Run Store (Option Addr) :=
  dlistPtrFind (isNode target) pure

/-- `dlist_ptr_find_node_data_by_node` -/
def dlistPtrFindNodeDataByNode (target : Option Addr) : Run Store (Option Addr) :=
  dlistPtrFind (isNode target) dataOf

/-- `dlist_ptr_find_node_data_by_data`, which reads the key first. -/
def dlistPtrFindNodeDataByData (data : Option Addr) : Run Store (Option Addr) := do
  let work ← onRecords (Mem.load data)
  dlistPtrFind (hasSrcFd work.srcFd) dataOf

/-- `dlist_ptr_find_node_by_data` -/
def dlistPtrFindNodeByData (data : Option Addr) : Run Store (Option Addr) :=
  dlistPtrFind (sameFds data) pure

/-- `dlist_ptr_find_first_node_data` -/
def dlistPtrFindFirstNodeData : Run Store (Option Addr) := do
  let s ← Run.state
  let head ← onNodes (Mem.load (some s.list.head))
  if head.next ≠ some s.list.tail then dataOf head.next else pure none

/-- `dlist_ptr_find_last_node_data` -/
def dlistPtrFindLastNodeData : Run Store (Option Addr) := do
  let s ← Run.state
  let tail ← onNodes (Mem.load (some s.list.tail))
  if tail.prev ≠ some s.list.head then dataOf tail.prev else pure none

/-- `dlist_ptr_find_last_node` -/
def dlistPtrFindLastNode : Run Store (Option Addr) := do
  let s ← Run.state
  let tail ← onNodes (Mem.load (some s.list.tail))
  pure (if tail.prev ≠ some s.list.head then tail.prev else none)

/-! ## Lists in memory -/

/-- A node with its record. -/
structure Entry where
  node : Addr
  record : Addr
  work : JpoolWorkData

/-- What the node of an entry holds. -/
def Entry.cell (e : Entry) : Addr × Option Addr := (e.node, some e.record)

/-- The list object `s.list` has the entries `es`. -/
structure Holds (s : Store) (es : List Entry) : Prop where
  ring : Ring s.nodes.cells (s.list.head, none) (es.map Entry.cell) (s.list.tail, none)
  records : ∀ e ∈ es, s.records.cells.get e.record = some e.work
  distinct : (es.map Entry.record).Nodup
  length : s.list.length = es.length

section Steps

variable {s : Store} {α : Type} {a : Addr} {v : NodePtr} {w : JpoolWorkData}
  {es es₁ es₂ : List Entry} {e : Entry}

theorem onNodes_ok {p : Run (Mem NodePtr) α} {r : α} {m : Mem NodePtr}
    (h : p s.nodes = .ok (r, m)) : onNodes p s = .ok (r, { s with nodes := m }) :=
  zoom_ok h

theorem onRecords_ok {p : Run (Mem JpoolWorkData) α} {r : α} {m : Mem JpoolWorkData}
    (h : p s.records = .ok (r, m)) : onRecords p s = .ok (r, { s with records := m }) :=
  zoom_ok h

theorem setLength_ok (f : Int → Int) (s : Store) :
    setLength f s = .ok ((), { s with list := { s.list with length := f s.list.length } }) := rfl

theorem load_node (h : s.nodes.cells.get a = some v) :
    onNodes (Mem.load (some a)) s = .ok (v, s) :=
  onNodes_ok (Mem.load_ok h)

theorem load_record (h : s.records.cells.get a = some w) :
    onRecords (Mem.load (some a)) s = .ok (w, s) :=
  onRecords_ok (Mem.load_ok h)

theorem nextOf_ok (h : s.nodes.cells.get a = some v) : nextOf (some a) s = .ok (v.next, s) := by
  unfold nextOf
  rw [bind_ok (load_node h), run_pure]

theorem dataOf_ok (h : s.nodes.cells.get a = some v) : dataOf (some a) s = .ok (v.data, s) := by
  unfold dataOf
  rw [bind_ok (load_node h), run_pure]

theorem differs_ok {b : Addr} {u : NodePtr} (hv : s.nodes.cells.get a = some v)
    (hu : s.nodes.cells.get b = some u) :
    differs (some b) (some a) s = .ok (decide (v.prev ≠ u.prev), s) := by
  unfold differs
  rw [bind_ok (load_node hv), bind_ok (load_node hu), run_pure]

theorem holds_head (h : Holds s es) : s.nodes.cells.get s.list.head =
    some ⟨none, none, first (some s.list.tail) (es.map Entry.cell)⟩ :=
  ring_head h.ring

theorem holds_tail (h : Holds s es) : s.nodes.cells.get s.list.tail =
    some ⟨none, last (some s.list.head) (es.map Entry.cell), none⟩ :=
  ring_tail h.ring

theorem holds_node (h : Holds s (es₁ ++ e :: es₂)) : s.nodes.cells.get e.node =
    some ⟨some e.record, last (some s.list.head) (es₁.map Entry.cell),
      first (some s.list.tail) (es₂.map Entry.cell)⟩ := by
  have hring := h.ring
  rw [List.map_append, List.map_cons] at hring
  exact ring_node hring

/-- What the node of an entry holds, wherever it stands. -/
theorem holds_mem (h : Holds s es) (he : e ∈ es) :
    ∃ v, s.nodes.cells.get e.node = some v ∧ v.data = some e.record := by
  obtain ⟨es₁, es₂, rfl⟩ := List.append_of_mem he
  exact ⟨_, holds_node h, rfl⟩

/-- The pointer behind `head` is never NULL. -/
theorem first_ne_none (q : Addr) (ns : List (Addr × Option Addr)) :
    first (some q) ns ≠ none := by
  cases ns <;> simp

theorem addrs_cell (es : List Entry) : addrs (es.map Entry.cell) = es.map Entry.node := by
  rw [addrs, List.map_map]
  rfl

/-- The bare loop of a search. -/
theorem search_eq {γ : Type} (h : Holds s es) (test : Option Addr → Run Store Bool)
    (hit : Option Addr → Run Store γ) (miss : Run Store γ) :
    search test hit miss s =
      scan (some s.list.tail) nextOf test hit miss s.nodes.cells.cells.length
        (first (some s.list.tail) (es.map Entry.cell)) s := by
  unfold search
  rw [bind_ok (run_state s), bind_ok (load_node (holds_head h))]

/-- The nodes stand before the end of the search. -/
theorem node_ne_stop (h : Holds s es) :
    ∀ a ∈ addrs (es.map Entry.cell), some a ≠ some s.list.tail := by
  intro a ha heq
  exact tail_notMem h.ring (Option.some.inj heq ▸ ha)

/-- A search that succeeds at the first node that passes the test. -/
theorem search_hit {γ : Type} (h : Holds s (es₁ ++ e :: es₂))
    {test : Option Addr → Run Store Bool} (hit : Option Addr → Run Store γ)
    (miss : Run Store γ) (hbefore : ∀ c ∈ es₁, test (some c.node) s = .ok (false, s))
    (he : test (some e.node) s = .ok (true, s)) :
    search test hit miss s = hit (some e.node) s := by
  have hring := h.ring
  have hstop := node_ne_stop h
  rw [search_eq h]
  rw [List.map_append, List.map_cons] at hring hstop ⊢
  refine scan_ring_hit (fun _ _ => nextOf_ok) hring hstop (fun c hc => ?_) he le_rfl
  obtain ⟨e', he', rfl⟩ := List.mem_map.1 hc
  exact hbefore e' he'

/-- A search that no node passes. -/
theorem search_miss {γ : Type} (h : Holds s es) {test : Option Addr → Run Store Bool}
    (hit : Option Addr → Run Store γ) (miss : Run Store γ)
    (hall : ∀ c ∈ es, test (some c.node) s = .ok (false, s)) :
    search test hit miss s = miss s := by
  have htest : ∀ c ∈ es.map Entry.cell, test (some c.1) s = .ok (false, s) := by
    intro c hc
    obtain ⟨e', he', rfl⟩ := List.mem_map.1 hc
    exact hall e' he'
  obtain ⟨k, hk⟩ := scan_ring_miss (fun _ _ => nextOf_ok) h.ring (node_ne_stop h) htest le_rfl
  rw [search_eq h, hk, scan_stop]

end Steps

/-! ## Appending -/

/-- The store with one node written. -/
def Store.write (s : Store) (a : Addr) (v : NodePtr) : Store :=
  { s with nodes := { s.nodes with cells := s.nodes.cells.set a v } }

section Append

variable {s : Store} {a b c : Addr} {v : NodePtr} {w : JpoolWorkData} {es : List Entry}

@[simp] theorem write_list (s : Store) (a : Addr) (v : NodePtr) : (s.write a v).list = s.list :=
  rfl

@[simp] theorem write_get (s : Store) (a : Addr) (v : NodePtr) (x : Addr) :
    (s.write a v).nodes.cells.get x = if x = a then some v else s.nodes.cells.get x :=
  Heap.get_set _ a x v

theorem modify_node (h : s.nodes.cells.get a = some v) (f : NodePtr → NodePtr) :
    onNodes (Mem.modify (some a) f) s = .ok ((), s.write a (f v)) :=
  onNodes_ok (Mem.modify_ok h f)

/-- A new node with its record, not yet linked. -/
structure Created (s : Store) (a b : Addr) (w : JpoolWorkData) (s' : Store) : Prop where
  list : s'.list = s.list
  get : ∀ x, s'.nodes.cells.get x =
    if x = a then some ⟨some b, none, none⟩ else s.nodes.cells.get x
  record : ∀ x, s'.records.cells.get x = if x = b then some w else s.records.cells.get x

theorem nodePtrCreate_ok (a b : Addr) (hw : s.records.cells.get c = some w) :
    ∃ s' : Store, nodePtrCreate (some a) (some b) (some c) s = .ok (some a, s') ∧
      Created s a b w s' := by
  let s₁ := s.write a ⟨none, none, none⟩
  let s₂ := s₁.write a ⟨some b, none, none⟩
  let s₃ : Store := { s₂ with records := { s.records with cells := s.records.cells.set b w } }
  let s₄ := s₃.write a ⟨some b, none, none⟩
  let s₅ := s₄.write a ⟨some b, none, none⟩
  have hplace : onNodes (Mem.place a { data := none, prev := none, next := none }) s =
      .ok ((), s₁) := rfl
  have h₁ : s₁.nodes.cells.get a = some ⟨none, none, none⟩ := by simp [s₁]
  have hload : onRecords (Mem.load (some c)) s₂ = .ok (w, s₂) := load_record hw
  have hcopy : copyRecord (some b) w s₂ = .ok ((), s₃) := rfl
  have h₃ : s₃.nodes.cells.get a = some ⟨some b, none, none⟩ := Heap.get_set_self _ _ _
  have h₄ : s₄.nodes.cells.get a = some ⟨some b, none, none⟩ := by simp [s₄]
  refine ⟨s₅, ?_, rfl, fun x => ?_, fun x => Heap.get_set _ _ _ _⟩
  · rw [nodePtrCreate, bind_ok hplace, if_neg (by simp), bind_ok (modify_node h₁ _), bind_ok hload,
      bind_ok hcopy, bind_ok (modify_node h₃ _), bind_ok (modify_node h₄ _), run_pure]
  · have hbase : s₃.nodes.cells.get x =
        if x = a then some ⟨some b, none, none⟩ else s₁.nodes.cells.get x :=
      Heap.get_set _ _ _ _
    rw [write_get, write_get, hbase, write_get]
    grind

/-- The links and the record of a new last node behind `old`. -/
structure Appended (s : Store) (a b : Addr) (w : JpoolWorkData) (old : Addr) (v : NodePtr)
    (s' : Store) : Prop where
  list : s'.list = { s.list with length := s.list.length + 1 }
  get : ∀ x, s'.nodes.cells.get x =
    if x = a then some ⟨some b, some old, some s.list.tail⟩
    else if x = s.list.tail then some ⟨none, some a, none⟩
    else if x = old then some { v with next := some a } else s.nodes.cells.get x
  record : ∀ x, s'.records.cells.get x = if x = b then some w else s.records.cells.get x

/-- Appending to an empty list. -/
theorem addNode_nil (h : Holds s []) (ha : s.nodes.cells.get a = none)
    (hw : s.records.cells.get c = some w) (b : Addr) :
    ∃ s' : Store, dlistPtrAddNode (some a) (some b) (some c) s = .ok (normal, s') ∧
      Appended s a b w s.list.head ⟨none, none, some s.list.tail⟩ s' := by
  obtain ⟨hah, _, hat⟩ := fresh_notMem h.ring ha
  have hht : s.list.head ≠ s.list.tail := head_ne_tail h.ring
  have hhead := holds_head h
  have htail := holds_tail h
  simp only [List.map_nil, first_nil, last_nil] at hah hat hhead htail
  obtain ⟨s₁, hcreate, hlist, hget, hrecord⟩ := nodePtrCreate_ok a b hw
  let s₂ := s₁.write a ⟨some b, none, some s.list.tail⟩
  let s₃ := s₂.write a ⟨some b, some s.list.head, some s.list.tail⟩
  let s₄ := s₃.write s.list.head ⟨none, none, some a⟩
  let s₅ := s₄.write s.list.tail ⟨none, some a, none⟩
  have hh₁ : s₁.nodes.cells.get s.list.head = some ⟨none, none, some s.list.tail⟩ := by
    rw [hget, if_neg (Ne.symm hah), hhead]
  have h₁ : s₁.nodes.cells.get a = some ⟨some b, none, none⟩ := by rw [hget, if_pos rfl]
  have h₂ : s₂.nodes.cells.get a = some ⟨some b, none, some s.list.tail⟩ := by simp [s₂]
  have h₃ : s₃.nodes.cells.get s.list.head = some ⟨none, none, some s.list.tail⟩ := by
    simp [s₃, s₂, Ne.symm hah, hh₁]
  have h₄ : s₄.nodes.cells.get s.list.tail = some ⟨none, some s.list.head, none⟩ := by
    simp [s₄, s₃, s₂, Ne.symm hat, Ne.symm hht, hget, htail]
  have hlist₅ : s₅.list = s.list := hlist
  refine ⟨{ s₅ with list := { s₅.list with length := s₅.list.length + 1 } }, ?_,
    by rw [hlist₅], ?_, hrecord⟩
  · unfold dlistPtrAddNode
    rw [bind_ok hcreate, if_neg (by simp), bind_ok (run_state s₁), hlist,
      bind_ok (load_node hh₁), if_pos rfl, bind_ok (modify_node h₁ _),
      bind_ok (modify_node h₂ _), bind_ok (modify_node h₃ _), bind_ok (modify_node h₄ _),
      bind_ok (setLength_ok _ _), run_pure]
  · intro x
    simp only [s₅, s₄, s₃, s₂, write_get, hget]
    grind

/-- Appending to a list whose last node is `old`. -/
theorem addNode_cons {old : Addr} {vold : NodePtr} (h : Holds s es) (hne : es ≠ [])
    (ha : s.nodes.cells.get a = none) (hw : s.records.cells.get c = some w) (b : Addr)
    (hold : last (some s.list.head) (es.map Entry.cell) = some old)
    (hvold : s.nodes.cells.get old = some vold) (hot : old ≠ s.list.tail) :
    ∃ s' : Store, dlistPtrAddNode (some a) (some b) (some c) s = .ok (normal, s') ∧
      Appended s a b w old vold s' := by
  obtain ⟨hah, _, hat⟩ := fresh_notMem h.ring ha
  have hao : a ≠ old := by
    rintro rfl
    exact absurd (hvold.symm.trans ha) (by simp)
  have hhead := holds_head h
  have htail := holds_tail h
  rw [hold] at htail
  simp only at hah hat
  have hnt : first (some s.list.tail) (es.map Entry.cell) ≠ some s.list.tail := by
    obtain ⟨e, es, rfl⟩ := List.exists_cons_of_ne_nil hne
    exact node_ne_stop h e.node (by simp [addrs, Entry.cell])
  obtain ⟨s₁, hcreate, hlist, hget, hrecord⟩ := nodePtrCreate_ok a b hw
  let s₂ := s₁.write a ⟨some b, some old, none⟩
  let s₃ := s₂.write a ⟨some b, some old, some s.list.tail⟩
  let s₄ := s₃.write old { vold with next := some a }
  let s₅ := s₄.write s.list.tail ⟨none, some a, none⟩
  have hh₁ : s₁.nodes.cells.get s.list.head =
      some ⟨none, none, first (some s.list.tail) (es.map Entry.cell)⟩ := by
    rw [hget, if_neg (Ne.symm hah), hhead]
  have ht₁ : s₁.nodes.cells.get s.list.tail = some ⟨none, some old, none⟩ := by
    rw [hget, if_neg (Ne.symm hat), htail]
  have h₁ : s₁.nodes.cells.get a = some ⟨some b, none, none⟩ := by rw [hget, if_pos rfl]
  have h₂ : s₂.nodes.cells.get a = some ⟨some b, some old, none⟩ := by simp [s₂]
  have h₃ : s₃.nodes.cells.get old = some vold := by
    simp [s₃, s₂, Ne.symm hao, hget, hvold]
  have h₄ : s₄.nodes.cells.get s.list.tail = some ⟨none, some old, none⟩ := by
    simp [s₄, s₃, s₂, Ne.symm hat, Ne.symm hot, ht₁]
  have hlist₅ : s₅.list = s.list := hlist
  refine ⟨{ s₅ with list := { s₅.list with length := s₅.list.length + 1 } }, ?_,
    by rw [hlist₅], ?_, hrecord⟩
  · unfold dlistPtrAddNode
    rw [bind_ok hcreate, if_neg (by simp), bind_ok (run_state s₁), hlist,
      bind_ok (load_node hh₁), if_neg hnt, bind_ok (load_node ht₁), if_pos (by simp),
      bind_ok (modify_node h₁ _), bind_ok (modify_node h₂ _), bind_ok (modify_node h₃ _),
      bind_ok (modify_node h₄ _), bind_ok (setLength_ok _ _), run_pure]
  · intro x
    simp only [s₅, s₄, s₃, s₂, write_get, hget]
    grind

/-- **Appending.**  A fresh node with a copy of the record becomes the last
one; no other record changes. -/
theorem addNode_ok (h : Holds s es) (ha : s.nodes.cells.get a = none)
    (hb : s.records.cells.get b = none) (hw : s.records.cells.get c = some w) :
    ∃ s', dlistPtrAddNode (some a) (some b) (some c) s = .ok (normal, s') ∧
      Holds s' (es ++ [⟨a, b, w⟩]) := by
  obtain ⟨_, _, hat⟩ := fresh_notMem h.ring ha
  obtain ⟨old, vold, hold, hvold, hot⟩ := exists_back h.ring
  have hao : old ≠ a := by
    rintro rfl
    exact absurd (hvold.symm.trans ha) (by simp)
  have hrun : ∃ s', dlistPtrAddNode (some a) (some b) (some c) s = .ok (normal, s') ∧
      Appended s a b w old vold s' := by
    by_cases hne : es = []
    · subst hne
      obtain rfl : s.list.head = old := Option.some.inj hold
      obtain rfl := Option.some.inj ((holds_head h).symm.trans hvold)
      exact addNode_nil h ha hw b
    · exact addNode_cons h hne ha hw b hold hvold hot
  obtain ⟨s', hrun, hlist, hget, hrecord⟩ := hrun
  have hother : ∀ e ∈ es, e.record ≠ b := by
    rintro e he rfl
    exact absurd ((h.records e he).symm.trans hb) (by simp)
  refine ⟨s', hrun, ?_, fun e he => ?_, ?_, ?_⟩
  · rw [hlist, List.map_append]
    refine ring_snoc h.ring ha hold ?_ ?_ ?_ ?_
    · rw [hget, if_pos rfl]
    · intro v hv
      obtain rfl := Option.some.inj (hvold.symm.trans hv)
      rw [hget, if_neg hao, if_neg hot, if_pos rfl]
    · intro v hv
      obtain rfl := Option.some.inj ((holds_tail h).symm.trans hv)
      rw [hget, if_neg hat.symm, if_pos rfl]
    · intro x hxa hxo hxt
      rw [hget, if_neg hxa, if_neg hxt, if_neg hxo]
  · rw [hrecord]
    rcases List.mem_append.1 he with he | he
    · rw [if_neg (hother e he)]
      exact h.records e he
    · obtain rfl := List.mem_singleton.1 he
      rw [if_pos rfl]
  · rw [List.map_append, List.nodup_append]
    refine ⟨h.distinct, List.nodup_singleton b, fun r hr r' hr' heq => ?_⟩
    obtain ⟨e, he, rfl⟩ := List.mem_map.1 hr
    exact hother e he (heq.trans (List.mem_singleton.1 hr'))
  · rw [hlist]
    simp [h.length]

end Append

/-! ## Deleting -/

section Delete

variable {s : Store} {a b : Addr} {v : NodePtr} {w : JpoolWorkData} {e : Entry}
  {es es₁ es₂ : List Entry}

theorem nodePtrDestroy_ok (h : s.nodes.cells.get a = some v) (hv : v.data = some b)
    (hb : s.records.cells.get b = some w) :
    ∃ h', nodePtrDestroy (some a) s = .ok ((),
        { s with
          nodes := ⟨h', s.nodes.freed ++ [a]⟩
          records := ⟨s.records.cells.free b, s.records.freed ++ [b]⟩ }) ∧
      ∀ x, h'.get x = if x = a then none else s.nodes.cells.get x := by
  let s₁ := s.write a { v with prev := none }
  let s₂ := s₁.write a ⟨some b, none, none⟩
  let s₃ : Store := { s₂ with records := ⟨s.records.cells.free b, s.records.freed ++ [b]⟩ }
  have h₁ : s₁.nodes.cells.get a = some ⟨some b, none, v.next⟩ := by simp [s₁, hv]
  have h₂ : s₂.nodes.cells.get a = some ⟨some b, none, none⟩ := by simp [s₂]
  have hfree : onRecords (Mem.free (some b)) s₂ = .ok ((), s₃) := onRecords_ok (Mem.free_ok hb)
  refine ⟨s₂.nodes.cells.free a, ?_, fun x => ?_⟩
  · unfold nodePtrDestroy
    rw [if_pos (by simp), bind_ok (modify_node h _), bind_ok (modify_node h₁ _),
      bind_ok (load_node h₂), bind_ok hfree]
    exact onNodes_ok (s := s₃) (Mem.free_ok h₂)
  · rw [Heap.get_free, write_get, write_get]
    grind

/-- What a deletion leaves: the node and its record are freed, the list has
closed up and is one shorter. -/
structure Removed (s : Store) (e : Entry) (s' : Store) : Prop where
  head : s'.list.head = s.list.head
  tail : s'.list.tail = s.list.tail
  nodes : s'.nodes.freed = s.nodes.freed ++ [e.node]
  records : s'.records.freed = s.records.freed ++ [e.record]

/-- The node that is found leaves the list. -/
theorem remove_ok (h : Holds s (es₁ ++ e :: es₂)) :
    ∃ s', remove (some e.node) s = .ok (normal, s') ∧ Holds s' (es₁ ++ es₂) ∧
      Removed s e s' := by
  have hring := h.ring
  rw [List.map_append, List.map_cons] at hring
  have hcell : e.cell.1 = e.node := rfl
  have happ := node_apart hring
  obtain ⟨h₁, hunlink, hring₁, hframe⟩ := unlink_ok hring
  rw [hcell] at happ hunlink
  have hnode : h₁.get e.node = some ⟨some e.record, last (some s.list.head) (es₁.map Entry.cell),
      first (some s.list.tail) (es₂.map Entry.cell)⟩ := by
    rw [hframe _ happ]
    exact holds_node h
  have hrecord := h.records e (by simp)
  obtain ⟨h', hdestroy, hget⟩ :=
    nodePtrDestroy_ok (s := { s with nodes := ⟨h₁, s.nodes.freed⟩ }) hnode rfl hrecord
  let s' : Store :=
    { list := { s.list with length := s.list.length - 1 }
      nodes := ⟨h', s.nodes.freed ++ [e.node]⟩
      records := ⟨s.records.cells.free e.record, s.records.freed ++ [e.record]⟩ }
  refine ⟨s', ?_, ⟨?_, fun c hc => ?_, ?_, ?_⟩, rfl, rfl, rfl, rfl⟩
  · unfold remove
    rw [bind_ok (onNodes_ok hunlink), bind_ok hdestroy, bind_ok (setLength_ok _ _), run_pure]
  · rw [List.map_append]
    refine ring_congr hring₁ fun x hx => ?_
    rw [hget, if_neg]
    rintro rfl
    exact happ hx
  · -- the other entries have records of their own
    have hdistinct := h.distinct
    have hne : c.record ≠ e.record := by
      rw [List.map_append, List.map_cons, List.nodup_append] at hdistinct
      obtain ⟨_, hright, hdisj⟩ := hdistinct
      rcases List.mem_append.1 hc with hc | hc
      · exact hdisj _ (List.mem_map_of_mem hc) _ List.mem_cons_self
      · intro heq
        exact (List.nodup_cons.1 hright).1 (heq ▸ List.mem_map_of_mem hc)
    exact (Heap.get_free_ne _ hne).trans (h.records c (by simp at hc ⊢; tauto))
  · have hsub : (es₁ ++ es₂).Sublist (es₁ ++ e :: es₂) :=
      List.Sublist.append_left (List.sublist_cons_self e es₂) es₁
    exact h.distinct.sublist (hsub.map Entry.record)
  · have hlen := h.length
    show s.list.length - 1 = _
    simp only [List.length_append, List.length_cons] at hlen ⊢
    omega

theorem delNodeByNode_eq (h : Holds s es) (target : Option Addr) :
    dlistPtrDelNodeByNode target s =
      search (differs target) remove (pure objectErr) s := by
  unfold dlistPtrDelNodeByNode
  rw [bind_ok (run_state s), bind_ok (load_node (holds_head h)), if_neg (first_ne_none _ _)]

/-- **Deleting.**  The first node whose `prev` is not the one of the target is
removed. -/
theorem delNodeByNode_hit {u : NodePtr} (h : Holds s (es₁ ++ e :: es₂))
    (hu : s.nodes.cells.get a = some u)
    (hbefore : ∀ c ∈ es₁, ∃ v, s.nodes.cells.get c.node = some v ∧ v.prev = u.prev)
    (he : last (some s.list.head) (es₁.map Entry.cell) ≠ u.prev) :
    ∃ s', dlistPtrDelNodeByNode (some a) s = .ok (normal, s') ∧ Holds s' (es₁ ++ es₂) ∧
      Removed s e s' := by
  have hskip : ∀ c ∈ es₁, differs (some a) (some c.node) s = .ok (false, s) := by
    intro c hc
    obtain ⟨v, hv, hprev⟩ := hbefore c hc
    rw [differs_ok hv hu, hprev, decide_eq_false (by simp)]
  have hhit : differs (some a) (some e.node) s = .ok (true, s) := by
    rw [differs_ok (holds_node h) hu, decide_eq_true he]
  rw [delNodeByNode_eq h, search_hit h remove _ hskip hhit]
  exact remove_ok h

/-- If no node of the list has another `prev` than the target, nothing
happens. -/
theorem delNodeByNode_miss {u : NodePtr} (h : Holds s es) (hu : s.nodes.cells.get a = some u)
    (hall : ∀ c ∈ es, ∃ v, s.nodes.cells.get c.node = some v ∧ v.prev = u.prev) :
    dlistPtrDelNodeByNode (some a) s = .ok (objectErr, s) := by
  have hskip : ∀ c ∈ es, differs (some a) (some c.node) s = .ok (false, s) := by
    intro c hc
    obtain ⟨v, hv, hprev⟩ := hall c hc
    rw [differs_ok hv hu, hprev, decide_eq_false (by simp)]
  rw [delNodeByNode_eq h, search_miss h remove _ hskip, run_pure]

end Delete

/-! ## Setting up and looking -/

section Look

variable {s : Store} {v u : NodePtr} {w : JpoolWorkData} {e : Entry} {es : List Entry}
  {test : Option Addr → Run Store Bool} {found : Option Addr → Run Store (Option Addr)}

/-- `dlist_ptr_init` makes an empty list of any memory with two sentinels. -/
theorem init_ok (hne : s.list.head ≠ s.list.tail) (hv : s.nodes.cells.get s.list.head = some v)
    (hu : s.nodes.cells.get s.list.tail = some u) :
    ∃ s', dlistPtrInit s = .ok ((), s') ∧ Holds s' [] ∧ s'.records = s.records := by
  let s₀ : Store := { s with list := { s.list with length := 0 } }
  let s₁ := s₀.write s.list.head ⟨none, none, none⟩
  let s₂ := s₁.write s.list.tail ⟨none, none, none⟩
  let s₃ := s₂.write s.list.head ⟨none, none, none⟩
  let s₄ := s₃.write s.list.head ⟨none, none, some s.list.tail⟩
  let s₅ := s₄.write s.list.tail ⟨none, some s.list.head, none⟩
  let s₆ := s₅.write s.list.tail ⟨none, some s.list.head, none⟩
  have h₁ : s₁.nodes.cells.get s.list.tail = some u := by simp [s₁, s₀, Ne.symm hne, hu]
  have h₂ : s₂.nodes.cells.get s.list.head = some ⟨none, none, none⟩ := by
    simp [s₂, s₁, hne]
  have h₃ : s₃.nodes.cells.get s.list.head = some ⟨none, none, none⟩ := by simp [s₃]
  have h₄ : s₄.nodes.cells.get s.list.tail = some ⟨none, none, none⟩ := by
    simp [s₄, s₃, s₂, Ne.symm hne]
  have h₅ : s₅.nodes.cells.get s.list.tail = some ⟨none, some s.list.head, none⟩ := by
    simp [s₅]
  refine ⟨s₆, ?_, ⟨⟨?_, ?_, True.intro⟩, by simp, List.nodup_nil, rfl⟩, rfl⟩
  · unfold dlistPtrInit
    rw [bind_ok (run_state s), bind_ok (setLength_ok _ s), bind_ok (modify_node (s := s₀) hv _),
      bind_ok (modify_node h₁ _), bind_ok (modify_node h₂ _), bind_ok (modify_node h₃ _),
      bind_ok (modify_node h₄ _), bind_ok (modify_node h₅ _), setLength_ok]
    rfl
  · show s₆.nodes.cells.get s.list.head = some ⟨none, none, some s.list.tail⟩
    simp [s₆, s₅, s₄, hne]
  · show s₆.nodes.cells.get s.list.tail = some ⟨none, some s.list.head, none⟩
    simp [s₆]

theorem dataOf_mem (h : Holds s es) (he : e ∈ es) :
    dataOf (some e.node) s = .ok (some e.record, s) := by
  obtain ⟨v, hv, hdata⟩ := holds_mem h he
  rw [← hdata]
  exact dataOf_ok hv

theorem hasSrcFd_mem (h : Holds s es) (fd : Int) (he : e ∈ es) :
    hasSrcFd fd (some e.node) s = .ok (decide (fd = e.work.srcFd), s) := by
  unfold hasSrcFd
  rw [bind_ok (dataOf_mem h he), bind_ok (load_record (h.records e he)), run_pure]

theorem sameFds_mem {key : Addr} (h : Holds s es) (hw : s.records.cells.get key = some w)
    (he : e ∈ es) : sameFds (some key) (some e.node) s =
      .ok (decide (e.work.srcFd = w.srcFd ∧ e.work.dstFd = w.dstFd), s) := by
  unfold sameFds
  rw [bind_ok (dataOf_mem h he), bind_ok (load_record (h.records e he)),
    bind_ok (load_record hw), run_pure]

/-- **Looking.**  A lookup answers from the first entry that passes its test. -/
theorem find_ok (h : Holds s es) (p : Entry → Bool) (g : Entry → Addr)
    (htest : ∀ e ∈ es, test (some e.node) s = .ok (p e, s))
    (hfound : ∀ e ∈ es, found (some e.node) s = .ok (some (g e), s)) :
    dlistPtrFind test found s = .ok ((es.find? p).map g, s) := by
  have hloop : dlistPtrFind test found s = search test found (pure none) s := by
    unfold dlistPtrFind
    rw [bind_ok (run_state s), bind_ok (load_node (holds_head h)), if_neg (first_ne_none _ _)]
  rw [hloop]
  cases hfind : es.find? p with
  | none =>
      have hnot := List.find?_eq_none.1 hfind
      have hall : ∀ c ∈ es, test (some c.node) s = .ok (false, s) := by
        intro c hc
        rw [htest c hc, Bool.eq_false_iff.2 (hnot c hc)]
      rw [search_miss h found _ hall, run_pure]
      rfl
  | some e =>
      obtain ⟨he, es₁, es₂, rfl, hbefore⟩ := List.find?_eq_some_iff_append.1 hfind
      have hskip : ∀ c ∈ es₁, test (some c.node) s = .ok (false, s) := by
        intro c hc
        have hc' : p c = false := by simpa using hbefore c hc
        rw [htest c (List.mem_append_left _ hc), hc']
      have hhit : test (some e.node) s = .ok (true, s) := by
        rw [htest e (by simp), he]
      rw [search_hit h found _ hskip hhit, hfound e (by simp)]
      rfl

theorem findNodeByNode_ok (h : Holds s es) (target : Option Addr) :
    dlistPtrFindNodeByNode target s =
      .ok ((es.find? fun e => some e.node = target).map Entry.node, s) :=
  find_ok h _ _ (fun _ _ => rfl) fun _ _ => rfl

theorem findNodeDataByNode_ok (h : Holds s es) (target : Option Addr) :
    dlistPtrFindNodeDataByNode target s =
      .ok ((es.find? fun e => some e.node = target).map Entry.record, s) :=
  find_ok h _ _ (fun _ _ => rfl) fun _ he => dataOf_mem h he

theorem findNodeDataByData_ok {key : Addr} (h : Holds s es)
    (hw : s.records.cells.get key = some w) :
    dlistPtrFindNodeDataByData (some key) s =
      .ok ((es.find? fun e => w.srcFd = e.work.srcFd).map Entry.record, s) := by
  unfold dlistPtrFindNodeDataByData
  rw [bind_ok (load_record hw)]
  exact find_ok h _ _ (fun _ he => hasSrcFd_mem h w.srcFd he) fun _ he => dataOf_mem h he

theorem findFirstNodeData_ok (h : Holds s es) :
    dlistPtrFindFirstNodeData s = .ok (es.head?.map Entry.record, s) := by
  unfold dlistPtrFindFirstNodeData
  rw [bind_ok (run_state s), bind_ok (load_node (holds_head h))]
  cases es with
  | nil => rw [if_neg (by simp), run_pure]; rfl
  | cons e es =>
      have hne : first (some s.list.tail) ((e :: es).map Entry.cell) ≠ some s.list.tail :=
        node_ne_stop h e.node (by simp [addrs, Entry.cell])
      rw [if_pos hne]
      exact dataOf_mem h List.mem_cons_self

/-- `tail->prev` is the last node, or `head` if there is none. -/
theorem last_cell (s : Store) (es : List Entry) :
    last (some s.list.head) (es.map Entry.cell) =
      some ((es.getLast?.map Entry.node).getD s.list.head) := by
  rcases List.eq_nil_or_concat es with rfl | ⟨es, e, rfl⟩
  · rfl
  · simp [Entry.cell]

theorem findLastNode_ok (h : Holds s es) :
    dlistPtrFindLastNode s = .ok (es.getLast?.map Entry.node, s) := by
  unfold dlistPtrFindLastNode
  rw [bind_ok (run_state s), bind_ok (load_node (holds_tail h)), run_pure, last_cell]
  rcases List.eq_nil_or_concat es with rfl | ⟨es, e, rfl⟩
  · simp
  · have hne : e.node ≠ s.list.head := by
      intro heq
      exact head_notMem h.ring (by simp [addrs, Entry.cell, ← heq])
    simp [hne]

theorem findLastNodeData_ok (h : Holds s es) :
    dlistPtrFindLastNodeData s = .ok (es.getLast?.map Entry.record, s) := by
  unfold dlistPtrFindLastNodeData
  rw [bind_ok (run_state s), bind_ok (load_node (holds_tail h)), last_cell]
  rcases List.eq_nil_or_concat es with rfl | ⟨es, e, rfl⟩
  · simp
  · have hne : e.node ≠ s.list.head := by
      intro heq
      exact head_notMem h.ring (by simp [addrs, Entry.cell, ← heq])
    have hdata := dataOf_mem h (e := e) (by simp)
    simpa [hne] using hdata

end Look

end ZeroCopyProxy.Ports.WorkList
