import ZeroCopyProxy.Verified.DoubleList
import ZeroCopyProxy.Ports.ProxyConn

/-!
# The list of descriptors: `dlist_int`

The list object holds its two sentinels, so their addresses are part of it;
the nodes come from `malloc`, whose answer is an argument of the function that
calls it.  All functions search alike: from `head->next` on, over the `tail`
sentinel and until NULL.

`Holds s ns` is the invariant: the nodes `ns` stand between the sentinels,
linked both ways, the sentinels hold the zero of `dlist_int_init`, and
`length` counts the nodes.  Below the definitions stands one equation for each
function on such a list.
-/

namespace ZeroCopyProxy.Ports.FdList

open ZeroCopyProxy.Verified.LinkedHeap
open ZeroCopyProxy.Verified.HeapRun
open ZeroCopyProxy.Verified.DoubleList
open ZeroCopyProxy.Ports.Posix
open ZeroCopyProxy.Ports.ProxyConn

/-! ## The list and its memory -/

/-- `struct node_int_s` -/
abbrev NodeInt : Type := Node Int

/-- `struct dlist_int_s`, with the addresses of the two nodes in it. -/
structure DlistInt where
  length : Int
  head : Addr
  tail : Addr
  deriving DecidableEq

/-- A list object and the memory of the nodes. -/
structure Store where
  list : DlistInt
  nodes : Mem NodeInt
  deriving DecidableEq

/-- `OBJECT_ERR` of `common_l.h`. -/
def objectErr : Int := -1

/-- An access to a node. -/
def onNodes {α : Type} (p : Run (Mem NodeInt) α) : Run Store α :=
  Run.zoom Store.nodes (fun s m => { s with nodes := m }) p

/-- `list->length = f( list->length)` -/
def setLength (f : Int → Int) : Run Store Unit :=
  Run.update fun s => { s with list := { s.list with length := f s.list.length } }

/-! ## The functions -/

/-- `node_int_create`; `fresh` is what `malloc` returns. -/
def nodeIntCreate (fresh : Option Addr) (data : Int) : Run Store (Option Addr) :=
  match fresh with
  | none => pure none
  | some a => do
    onNodes (Mem.place a { data := data, prev := none, next := none })
    pure (some a)

/-- `node_int_destroy` -/
def nodeIntDestroy (node : Option Addr) : Run Store Unit :=
  if node ≠ none then do
    onNodes (Mem.modify node fun v => { v with prev := none })
    onNodes (Mem.modify node fun v => { v with next := none })
    onNodes (Mem.free node)
  else
    pure ()

/-- `dlist_int_init`; what the memory held before is lost. -/
def dlistIntInit : Run Store Unit := do
  let s ← Run.state
  setLength fun _ => 0
  onNodes (Mem.modify (some s.list.head) fun _ => ⟨0, none, none⟩)
  onNodes (Mem.modify (some s.list.tail) fun _ => ⟨0, none, none⟩)
  onNodes (Mem.modify (some s.list.head) fun v => { v with prev := none })
  onNodes (Mem.modify (some s.list.head) fun v => { v with next := some s.list.tail })
  onNodes (Mem.modify (some s.list.tail) fun v => { v with prev := some s.list.head })
  onNodes (Mem.modify (some s.list.tail) fun v => { v with next := none })
  setLength fun _ => 0

/-- `dlist_int_add_node` -/
def dlistIntAddNode (fresh : Option Addr) (data : Int) : Run Store Int := do
  let new ← nodeIntCreate fresh data
  if new = none then
    pure objectErr
  else do
    let s ← Run.state
    let head ← onNodes (Mem.load (some s.list.head))
    if head.next = some s.list.tail then do
      onNodes (Mem.modify (some s.list.head) fun v => { v with next := new })
      onNodes (Mem.modify new fun v => { v with next := some s.list.tail })
      onNodes (Mem.modify new fun v => { v with prev := some s.list.head })
      onNodes (Mem.modify (some s.list.tail) fun v => { v with prev := new })
      setLength (· + 1)
      pure normal
    else do
      let tail ← onNodes (Mem.load (some s.list.tail))
      if tail.prev ≠ none then do
        let old := tail.prev
        onNodes (Mem.modify old fun v => { v with next := new })
        onNodes (Mem.modify new fun v => { v with prev := old })
        onNodes (Mem.modify (some s.list.tail) fun v => { v with prev := new })
        onNodes (Mem.modify new fun v => { v with next := some s.list.tail })
        setLength (· + 1)
        pure normal
      else
        pure unknown

/-- `index_node->next` -/
def nextOf (index : Option Addr) : Run Store (Option Addr) := do
  let v ← onNodes (Mem.load index)
  pure v.next

/-- `index_node == target` -/
def isNode (target index : Option Addr) : Run Store Bool := pure (index = target)

/-- `index_node->data == data` -/
def hasData (data : Int) (index : Option Addr) : Run Store Bool := do
  let v ← onNodes (Mem.load index)
  pure (v.data = data)

/-- The loop of every function: from `head->next` to NULL.  A search of more
turns than there are cells has come back to one and never ends. -/
def search {γ : Type} (test : Option Addr → Run Store Bool)
    (hit : Option Addr → Run Store γ) (miss : Run Store γ) : Run Store γ := do
  let s ← Run.state
  let head ← onNodes (Mem.load (some s.list.head))
  scan none nextOf test hit miss s.nodes.cells.cells.length head.next

/-- What happens to the node that is found: unlinked and destroyed. -/
def remove (index : Option Addr) : Run Store Unit := do
  onNodes (unlink index)
  nodeIntDestroy index

/-- The two deletions, which only differ in the test of their loop. -/
def dlistIntDelNode (test : Option Addr → Run Store Bool) : Run Store Int := do
  let s ← Run.state
  let head ← onNodes (Mem.load (some s.list.head))
  if head.next = none then do
    setLength fun _ => 0
    pure notExist
  else do
    search test remove (pure ())
    setLength (· - 1)
    pure normal

/-- `dlist_int_del_node_by_node` -/
def dlistIntDelNodeByNode (target : Option Addr) : Run Store Int :=
  dlistIntDelNode (isNode target)

/-- `dlist_int_del_node_by_data` -/
def dlistIntDelNodeByData (data : Int) : Run Store Int :=
  dlistIntDelNode (hasData data)

/-- `dlist_int_find_node_by_data` -/
def dlistIntFindNodeByData (data : Int) : Run Store (Option Addr) := do
  let s ← Run.state
  let head ← onNodes (Mem.load (some s.list.head))
  if head.next = none then do
    setLength fun _ => 0
    pure none
  else
    search (hasData data) (fun index => pure index) (pure none)

/-- `dlist_int_find_first_node_data` -/
def dlistIntFindFirstNodeData : Run Store Int := do
  let s ← Run.state
  let head ← onNodes (Mem.load (some s.list.head))
  if head.next ≠ none then do
    let v ← onNodes (Mem.load head.next)
    pure v.data
  else
    pure head.data

/-- `dlist_int_find_last_node_data` -/
def dlistIntFindLastNodeData : Run Store Int := do
  let s ← Run.state
  let tail ← onNodes (Mem.load (some s.list.tail))
  if tail.prev ≠ none then do
    let v ← onNodes (Mem.load tail.prev)
    pure v.data
  else
    pure tail.data

/-- The loop of `dlist_int_destroy`, which deletes the node it stands on. -/
def destroyLoop : Nat → Option Addr → Run Store Unit
  | 0, _ => Run.fault .spins
  | turns + 1, index => do
    let index ← nextOf index
    if index = none then
      pure ()
    else do
      let _ ← dlistIntDelNodeByNode index
      destroyLoop turns index

/-- `dlist_int_destroy` -/
def dlistIntDestroy (turns : Nat) : Run Store Unit := do
  let s ← Run.state
  let head ← onNodes (Mem.load (some s.list.head))
  if head.next ≠ some s.list.tail then
    destroyLoop turns (some s.list.head)
  else
    pure ()

/-! ## Lists in memory -/

/-- The list object `s.list` has the nodes `ns`. -/
structure Holds (s : Store) (ns : List (Addr × Int)) : Prop where
  ring : Ring s.nodes.cells (s.list.head, 0) ns (s.list.tail, 0)
  length : s.list.length = ns.length

section Steps

variable {s : Store} {m : Mem NodeInt} {α : Type} {a : Addr} {v : NodeInt}
  {ns ns₁ ns₂ : List (Addr × Int)} {n : Addr × Int}

theorem onNodes_ok {p : Run (Mem NodeInt) α} {r : α} (h : p s.nodes = .ok (r, m)) :
    onNodes p s = .ok (r, { s with nodes := m }) :=
  zoom_ok h

theorem onNodes_error {p : Run (Mem NodeInt) α} {e : Fault} (h : p s.nodes = .error e) :
    onNodes p s = .error e :=
  zoom_error h

theorem setLength_ok (f : Int → Int) (s : Store) :
    setLength f s = .ok ((), { s with list := { s.list with length := f s.list.length } }) := rfl

theorem load_node (h : s.nodes.cells.get a = some v) :
    onNodes (Mem.load (some a)) s = .ok (v, s) :=
  onNodes_ok (Mem.load_ok h)

theorem nextOf_ok (h : s.nodes.cells.get a = some v) : nextOf (some a) s = .ok (v.next, s) := by
  unfold nextOf
  rw [bind_ok (load_node h), run_pure]

theorem hasData_ok (d : Int) (h : s.nodes.cells.get a = some v) :
    hasData d (some a) s = .ok (decide (v.data = d), s) := by
  unfold hasData
  rw [bind_ok (load_node h), run_pure]

/-- The bare loop of a search. -/
theorem search_eq {γ : Type} (h : Holds s ns) (test : Option Addr → Run Store Bool)
    (hit : Option Addr → Run Store γ) (miss : Run Store γ) :
    search test hit miss s =
      scan none nextOf test hit miss s.nodes.cells.cells.length
        (first (some s.list.tail) ns) s := by
  unfold search
  rw [bind_ok (run_state s), bind_ok (load_node (ring_head h.ring))]

/-- A search that succeeds at the first node that passes the test. -/
theorem search_hit {γ : Type} (h : Holds s (ns₁ ++ n :: ns₂))
    {test : Option Addr → Run Store Bool} (hit : Option Addr → Run Store γ)
    (miss : Run Store γ) (hbefore : ∀ c ∈ ns₁, test (some c.1) s = .ok (false, s))
    (hn : test (some n.1) s = .ok (true, s)) :
    search test hit miss s = hit (some n.1) s := by
  rw [search_eq h]
  exact scan_ring_hit (fun _ _ => nextOf_ok) h.ring (by simp) hbefore hn le_rfl

/-- A search that no node passes goes on at the sentinel. -/
theorem search_tail {γ : Type} (h : Holds s ns) {test : Option Addr → Run Store Bool}
    (hit : Option Addr → Run Store γ) (miss : Run Store γ)
    (hall : ∀ c ∈ ns, test (some c.1) s = .ok (false, s)) :
    ∃ k, search test hit miss s =
      scan none nextOf test hit miss (k + 1) (some s.list.tail) s := by
  rw [search_eq h]
  exact scan_ring_miss (fun _ _ => nextOf_ok) h.ring (by simp) hall le_rfl

end Steps

/-! ## Appending -/

/-- The store with one cell written. -/
def Store.write (s : Store) (a : Addr) (v : NodeInt) : Store :=
  { s with nodes := { s.nodes with cells := s.nodes.cells.set a v } }

section Append

variable {s : Store} {a b : Addr} {v : NodeInt} {ns : List (Addr × Int)} {d : Int}

@[simp] theorem write_list (s : Store) (a : Addr) (v : NodeInt) : (s.write a v).list = s.list :=
  rfl

@[simp] theorem write_freed (s : Store) (a : Addr) (v : NodeInt) :
    (s.write a v).nodes.freed = s.nodes.freed := rfl

@[simp] theorem write_get (s : Store) (a : Addr) (v : NodeInt) (b : Addr) :
    (s.write a v).nodes.cells.get b = if b = a then some v else s.nodes.cells.get b :=
  Heap.get_set _ a b v

theorem modify_node (h : s.nodes.cells.get a = some v) (f : NodeInt → NodeInt) :
    onNodes (Mem.modify (some a) f) s = .ok ((), s.write a (f v)) :=
  onNodes_ok (Mem.modify_ok h f)

/-- The links of a new last node behind `old`. -/
structure Appended (s : Store) (a : Addr) (d : Int) (old : Addr) (v : NodeInt) (s' : Store) :
    Prop where
  list : s'.list = { s.list with length := s.list.length + 1 }
  freed : s'.nodes.freed = s.nodes.freed
  get : ∀ b, s'.nodes.cells.get b =
    if b = a then some ⟨d, some old, some s.list.tail⟩
    else if b = s.list.tail then some ⟨0, some a, none⟩
    else if b = old then some { v with next := some a } else s.nodes.cells.get b

/-- Appending to an empty list. -/
theorem addNode_nil (h : Holds s []) (ha : s.nodes.cells.get a = none) (d : Int) :
    ∃ s' : Store, dlistIntAddNode (some a) d s = .ok (normal, s') ∧
      Appended s a d s.list.head ⟨0, none, some s.list.tail⟩ s' := by
  obtain ⟨hah, _, hat⟩ := fresh_notMem h.ring ha
  have hht : s.list.head ≠ s.list.tail := head_ne_tail h.ring
  have hhead : s.nodes.cells.get s.list.head = some ⟨0, none, some s.list.tail⟩ :=
    ring_head h.ring
  have htail : s.nodes.cells.get s.list.tail = some ⟨0, some s.list.head, none⟩ :=
    ring_tail h.ring
  simp only at hah hat
  let s₁ := s.write a ⟨d, none, none⟩
  let s₂ := s₁.write s.list.head ⟨0, none, some a⟩
  let s₃ := s₂.write a ⟨d, none, some s.list.tail⟩
  let s₄ := s₃.write a ⟨d, some s.list.head, some s.list.tail⟩
  let s₅ := s₄.write s.list.tail ⟨0, some a, none⟩
  have h₁ : s₁.nodes.cells.get s.list.head = some ⟨0, none, some s.list.tail⟩ := by
    simp [s₁, Ne.symm hah, hhead]
  have h₂ : s₂.nodes.cells.get a = some ⟨d, none, none⟩ := by simp [s₂, s₁, hah]
  have h₃ : s₃.nodes.cells.get a = some ⟨d, none, some s.list.tail⟩ := by simp [s₃]
  have h₄ : s₄.nodes.cells.get s.list.tail = some ⟨0, some s.list.head, none⟩ := by
    simp [s₄, s₃, s₂, s₁, Ne.symm hat, Ne.symm hht, htail]
  have hcreate : nodeIntCreate (some a) d s = .ok (some a, s₁) := rfl
  have hlist : s₁.list = s.list := rfl
  refine ⟨{ s₅ with list := { s.list with length := s.list.length + 1 } }, ?_, rfl, rfl, ?_⟩
  · unfold dlistIntAddNode
    rw [bind_ok hcreate, if_neg (by simp), bind_ok (run_state s₁), hlist, bind_ok (load_node h₁),
      if_pos rfl, bind_ok (modify_node h₁ _), bind_ok (modify_node h₂ _),
      bind_ok (modify_node h₃ _), bind_ok (modify_node h₄ _), bind_ok (setLength_ok _ _), run_pure]
    rfl
  · intro b
    simp only [s₅, s₄, s₃, s₂, s₁, write_get]
    grind

/-- Appending to a list whose last node is `old`. -/
theorem addNode_cons {old : Addr} {vold : NodeInt} (h : Holds s ns) (hne : ns ≠ [])
    (ha : s.nodes.cells.get a = none) (d : Int)
    (hold : last (some s.list.head) ns = some old)
    (hvold : s.nodes.cells.get old = some vold) (hot : old ≠ s.list.tail) :
    ∃ s' : Store, dlistIntAddNode (some a) d s = .ok (normal, s') ∧
      Appended s a d old vold s' := by
  obtain ⟨hah, _, hat⟩ := fresh_notMem h.ring ha
  have hhead := ring_head h.ring
  have htail := ring_tail h.ring
  rw [hold] at htail
  simp only at hah hat hhead htail
  have hao : a ≠ old := by
    rintro rfl
    exact absurd (hvold.symm.trans ha) (by simp)
  obtain ⟨n, ms, rfl⟩ := List.exists_cons_of_ne_nil hne
  have hnt : some n.1 ≠ some s.list.tail := by
    intro heq
    exact tail_notMem h.ring (by simp [addrs, Option.some.inj heq])
  let s₁ := s.write a ⟨d, none, none⟩
  let s₂ := s₁.write old { vold with next := some a }
  let s₃ := s₂.write a ⟨d, some old, none⟩
  let s₄ := s₃.write s.list.tail ⟨0, some a, none⟩
  let s₅ := s₄.write a ⟨d, some old, some s.list.tail⟩
  have hh₁ : s₁.nodes.cells.get s.list.head = some ⟨0, none, some n.1⟩ := by
    simp [s₁, Ne.symm hah, hhead]
  have ht₁ : s₁.nodes.cells.get s.list.tail = some ⟨0, some old, none⟩ := by
    simp [s₁, Ne.symm hat, htail]
  have h₁ : s₁.nodes.cells.get old = some vold := by simp [s₁, Ne.symm hao, hvold]
  have h₂ : s₂.nodes.cells.get a = some ⟨d, none, none⟩ := by simp [s₂, s₁, hao]
  have h₃ : s₃.nodes.cells.get s.list.tail = some ⟨0, some old, none⟩ := by
    simp [s₃, s₂, s₁, Ne.symm hat, Ne.symm hot, htail]
  have h₄ : s₄.nodes.cells.get a = some ⟨d, some old, none⟩ := by simp [s₄, s₃, hat]
  have hcreate : nodeIntCreate (some a) d s = .ok (some a, s₁) := rfl
  have hlist : s₁.list = s.list := rfl
  refine ⟨{ s₅ with list := { s.list with length := s.list.length + 1 } }, ?_, rfl, rfl, ?_⟩
  · unfold dlistIntAddNode
    rw [bind_ok hcreate, if_neg (by simp), bind_ok (run_state s₁), hlist, bind_ok (load_node hh₁),
      if_neg hnt, bind_ok (load_node ht₁), if_pos (by simp), bind_ok (modify_node h₁ _),
      bind_ok (modify_node h₂ _), bind_ok (modify_node h₃ _), bind_ok (modify_node h₄ _),
      bind_ok (setLength_ok _ _), run_pure]
    rfl
  · intro b
    simp only [s₅, s₄, s₃, s₂, s₁, write_get]
    grind

/-- **Appending.**  A fresh node becomes the last one. -/
theorem addNode_ok (h : Holds s ns) (ha : s.nodes.cells.get a = none) (d : Int) :
    ∃ s', dlistIntAddNode (some a) d s = .ok (normal, s') ∧ Holds s' (ns ++ [(a, d)]) ∧
      s'.nodes.freed = s.nodes.freed := by
  obtain ⟨_, _, hat⟩ := fresh_notMem h.ring ha
  obtain ⟨old, vold, hold, hvold, hot⟩ := exists_back h.ring
  have hao : old ≠ a := by
    rintro rfl
    exact absurd (hvold.symm.trans ha) (by simp)
  have hrun : ∃ s', dlistIntAddNode (some a) d s = .ok (normal, s') ∧
      Appended s a d old vold s' := by
    by_cases hne : ns = []
    · subst hne
      obtain rfl : s.list.head = old := Option.some.inj hold
      have hhead := ring_head h.ring
      obtain rfl := Option.some.inj (hhead.symm.trans hvold)
      exact addNode_nil h ha d
    · exact addNode_cons h hne ha d hold hvold hot
  obtain ⟨s', hrun, happ⟩ := hrun
  have htail := ring_tail h.ring
  refine ⟨s', hrun, ⟨?_, ?_⟩, happ.freed⟩
  · rw [happ.list]
    refine ring_snoc h.ring ha hold ?_ ?_ ?_ ?_
    · rw [happ.get, if_pos rfl]
    · intro v hv
      obtain rfl := Option.some.inj (hvold.symm.trans hv)
      rw [happ.get, if_neg hao, if_neg hot, if_pos rfl]
    · intro v hv
      obtain rfl := Option.some.inj (htail.symm.trans hv)
      rw [happ.get, if_neg hat.symm, if_pos rfl]
    · intro b hba hbo hbt
      rw [happ.get, if_neg hba, if_neg hbt, if_neg hbo]
  · rw [happ.list]
    simp [h.length]

end Append

/-! ## Deleting -/

section Delete

variable {s : Store} {a : Addr} {v : NodeInt} {n : Addr × Int} {ns ns₁ ns₂ : List (Addr × Int)}
  {test : Option Addr → Run Store Bool}

theorem nodeIntDestroy_ok (h : s.nodes.cells.get a = some v) :
    ∃ h', nodeIntDestroy (some a) s =
        .ok ((), { s with nodes := ⟨h', s.nodes.freed ++ [a]⟩ }) ∧
      ∀ b, h'.get b = if b = a then none else s.nodes.cells.get b := by
  let s₁ := s.write a { v with prev := none }
  let s₂ := s₁.write a { data := v.data, prev := none, next := none }
  have h₁ : s₁.nodes.cells.get a = some { v with prev := none } := by simp [s₁]
  have h₂ : s₂.nodes.cells.get a = some ⟨v.data, none, none⟩ := by simp [s₂]
  refine ⟨s₂.nodes.cells.free a, ?_, fun b => ?_⟩
  · unfold nodeIntDestroy
    rw [if_pos (by simp), bind_ok (modify_node h _), bind_ok (modify_node h₁ _)]
    exact onNodes_ok (Mem.free_ok h₂)
  · rw [Heap.get_free, write_get, write_get]
    grind

/-- The node that is found leaves the list and is freed; the others close up
and no cell outside the list has changed. -/
theorem remove_ok (h : Holds s (ns₁ ++ n :: ns₂)) :
    ∃ h', remove (some n.1) s = .ok ((), { s with nodes := ⟨h', s.nodes.freed ++ [n.1]⟩ }) ∧
      Ring h' (s.list.head, 0) (ns₁ ++ ns₂) (s.list.tail, 0) ∧ h'.get n.1 = none ∧
      ∀ a, a ∉ s.list.head :: (addrs (ns₁ ++ n :: ns₂) ++ [s.list.tail]) →
        h'.get a = s.nodes.cells.get a := by
  obtain ⟨h₁, hunlink, hring, hframe⟩ := unlink_ok h.ring
  have happ := node_apart h.ring
  have hn : h₁.get n.1 = some ⟨n.2, last (some s.list.head) ns₁, first (some s.list.tail) ns₂⟩ := by
    rw [hframe _ happ]
    exact ring_node h.ring
  obtain ⟨h', hdestroy, hget⟩ :=
    nodeIntDestroy_ok (s := { s with nodes := ⟨h₁, s.nodes.freed⟩ }) hn
  refine ⟨h', ?_, ?_, ?_, fun a ha => ?_⟩
  · unfold remove
    rw [bind_ok (onNodes_ok hunlink), hdestroy]
  · refine ring_congr hring fun a ha => ?_
    rw [hget, if_neg]
    rintro rfl
    exact happ ha
  · rw [hget, if_pos rfl]
  · have hne : a ≠ n.1 := by
      rintro rfl
      exact ha (by simp [addrs])
    have hout : a ∉ s.list.head :: (addrs (ns₁ ++ ns₂) ++ [s.list.tail]) := fun hin =>
      ha (by simp [addrs] at hin ⊢; tauto)
    rw [hget, if_neg hne]
    exact hframe a hout

/-- A deletion finds the loop of its search. -/
theorem delNode_eq (h : Holds s ns) (test : Option Addr → Run Store Bool) :
    dlistIntDelNode test s =
      (do
        search test remove (pure ())
        setLength (· - 1)
        pure normal : Run Store Int) s := by
  have hhead := ring_head h.ring
  have hne : first (some s.list.tail) ns ≠ none := by cases ns <;> simp
  unfold dlistIntDelNode
  rw [bind_ok (run_state s), bind_ok (load_node hhead), if_neg hne]

/-- **Deleting.**  The first node that passes the test is removed. -/
theorem delNode_ok (h : Holds s (ns₁ ++ n :: ns₂))
    (hbefore : ∀ c ∈ ns₁, test (some c.1) s = .ok (false, s))
    (hn : test (some n.1) s = .ok (true, s)) :
    ∃ s', dlistIntDelNode test s = .ok (normal, s') ∧ Holds s' (ns₁ ++ ns₂) ∧
      s'.list = { s.list with length := s.list.length - 1 } ∧
      s'.nodes.freed = s.nodes.freed ++ [n.1] ∧ s'.nodes.cells.get n.1 = none := by
  obtain ⟨h', hrun, hring, hfree, _⟩ := remove_ok h
  have hsearch : search test remove (pure ()) s =
      .ok ((), { s with nodes := ⟨h', s.nodes.freed ++ [n.1]⟩ }) := by
    rw [search_hit h remove (pure ()) hbefore hn, hrun]
  have hlen := h.length
  refine ⟨⟨{ s.list with length := s.list.length - 1 }, ⟨h', s.nodes.freed ++ [n.1]⟩⟩, ?_,
    ⟨hring, ?_⟩, rfl, rfl, hfree⟩
  · rw [delNode_eq h, bind_ok hsearch, bind_ok (setLength_ok _ _), run_pure]
  · simp only [List.length_append, List.length_cons] at hlen ⊢
    omega

end Delete

/-! ## Setting up and looking -/

section Look

variable {s : Store} {v w : NodeInt} {n : Addr × Int} {ns ns₁ ns₂ : List (Addr × Int)}

/-- `dlist_int_init` makes an empty list of any memory with two sentinels. -/
theorem init_ok (hne : s.list.head ≠ s.list.tail) (hv : s.nodes.cells.get s.list.head = some v)
    (hw : s.nodes.cells.get s.list.tail = some w) :
    ∃ s', dlistIntInit s = .ok ((), s') ∧ Holds s' [] ∧
      s'.list.head = s.list.head ∧ s'.list.tail = s.list.tail := by
  let s₀ : Store := { s with list := { s.list with length := 0 } }
  let s₁ := s₀.write s.list.head ⟨0, none, none⟩
  let s₂ := s₁.write s.list.tail ⟨0, none, none⟩
  let s₃ := s₂.write s.list.head ⟨0, none, none⟩
  let s₄ := s₃.write s.list.head ⟨0, none, some s.list.tail⟩
  let s₅ := s₄.write s.list.tail ⟨0, some s.list.head, none⟩
  let s₆ := s₅.write s.list.tail ⟨0, some s.list.head, none⟩
  have h₁ : s₁.nodes.cells.get s.list.tail = some w := by simp [s₁, s₀, Ne.symm hne, hw]
  have h₂ : s₂.nodes.cells.get s.list.head = some ⟨0, none, none⟩ := by simp [s₂, s₁, hne]
  have h₃ : s₃.nodes.cells.get s.list.head = some ⟨0, none, none⟩ := by simp [s₃]
  have h₄ : s₄.nodes.cells.get s.list.tail = some ⟨0, none, none⟩ := by
    simp [s₄, s₃, s₂, Ne.symm hne]
  have h₅ : s₅.nodes.cells.get s.list.tail = some ⟨0, some s.list.head, none⟩ := by simp [s₅]
  refine ⟨s₆, ?_, ⟨⟨?_, ?_, True.intro⟩, rfl⟩, rfl, rfl⟩
  · unfold dlistIntInit
    rw [bind_ok (run_state s), bind_ok (setLength_ok _ s), bind_ok (modify_node (s := s₀) hv _),
      bind_ok (modify_node h₁ _), bind_ok (modify_node h₂ _), bind_ok (modify_node h₃ _),
      bind_ok (modify_node h₄ _), bind_ok (modify_node h₅ _), setLength_ok]
    rfl
  · show s₆.nodes.cells.get s.list.head = some ⟨0, none, some s.list.tail⟩
    simp [s₆, s₅, s₄, hne]
  · show s₆.nodes.cells.get s.list.tail = some ⟨0, some s.list.head, none⟩
    simp [s₆]

/-- The search for a value is the loop. -/
theorem findNodeByData_eq (h : Holds s ns) (d : Int) :
    dlistIntFindNodeByData d s =
      search (hasData d) (fun index => pure index) (pure none) s := by
  have hhead := ring_head h.ring
  have hne : first (some s.list.tail) ns ≠ none := by cases ns <;> simp
  unfold dlistIntFindNodeByData
  rw [bind_ok (run_state s), bind_ok (load_node hhead), if_neg hne]

theorem hasData_node (h : Holds s ns) (d : Int) {c : Addr × Int} (hc : c ∈ ns) :
    hasData d (some c.1) s = .ok (decide (c.2 = d), s) := by
  obtain ⟨v, hv, hdata⟩ := seg_get (ring_seg h.ring) hc
  rw [← hdata]
  exact hasData_ok d hv

/-- A present value is found in the first node that holds it. -/
theorem findNodeByData_ok (h : Holds s (ns₁ ++ n :: ns₂)) (hbefore : ∀ c ∈ ns₁, c.2 ≠ n.2) :
    dlistIntFindNodeByData n.2 s = .ok (some n.1, s) := by
  have hn : hasData n.2 (some n.1) s = .ok (true, s) := by
    rw [hasData_node h n.2 (by simp), decide_eq_true rfl]
  have hskip : ∀ c ∈ ns₁, hasData n.2 (some c.1) s = .ok (false, s) := by
    intro c hc
    rw [hasData_node h n.2 (List.mem_append_left _ hc), decide_eq_false (hbefore c hc)]
  rw [findNodeByData_eq h, search_hit h _ _ hskip hn, run_pure]

theorem findFirstNodeData_ok (h : Holds s (n :: ns)) :
    dlistIntFindFirstNodeData s = .ok (n.2, s) := by
  have hhead : s.nodes.cells.get s.list.head = some ⟨0, none, some n.1⟩ := ring_head h.ring
  have hn : s.nodes.cells.get n.1 =
      some ⟨n.2, some s.list.head, first (some s.list.tail) ns⟩ := (ring_seg h.ring).1
  unfold dlistIntFindFirstNodeData
  rw [bind_ok (run_state s), bind_ok (load_node hhead), if_pos (by simp),
    bind_ok (load_node hn), run_pure]

theorem findLastNodeData_ok (h : Holds s (ns ++ [n])) :
    dlistIntFindLastNodeData s = .ok (n.2, s) := by
  have htail : s.nodes.cells.get s.list.tail = some ⟨0, some n.1, none⟩ := by
    have hget := ring_tail h.ring
    rwa [last_append, last_cons, last_nil] at hget
  have hn := ring_node h.ring
  unfold dlistIntFindLastNodeData
  rw [bind_ok (run_state s), bind_ok (load_node htail), if_pos (by simp),
    bind_ok (load_node hn), run_pure]

end Look

end ZeroCopyProxy.Ports.FdList
