import ZeroCopyProxy.Verified.HeapRun

/-!
# Doubly linked lists in a heap

`Seg h p ns q` says that the cells `ns`, given with their addresses and their
data, stand in the heap one behind the other and point at each other in both
directions; the first one's `prev` is `p` and the last one's `next` is `q`.
`Ring` is a whole list between two sentinels.

Everything that changes such a list exchanges the cells between two of its
nodes for others (`seg_splice`): removing a node and appending one are
instances.  `scan_skip` takes a search past cells that do not match.
-/

namespace ZeroCopyProxy.Verified.DoubleList

open ZeroCopyProxy.Verified.LinkedHeap
open ZeroCopyProxy.Verified.HeapRun

/-- A cell with its two links. -/
structure Node (β : Type) where
  data : β
  prev : Option Addr
  next : Option Addr
  deriving DecidableEq

variable {β : Type}

/-- A pointer to the first of the cells, or `q` if there is none. -/
def first (q : Option Addr) : List (Addr × β) → Option Addr
  | [] => q
  | n :: _ => some n.1

/-- A pointer to the last of the cells, or `p` if there is none. -/
def last (p : Option Addr) : List (Addr × β) → Option Addr
  | [] => p
  | n :: ns => last (some n.1) ns

/-- The addresses of the cells. -/
abbrev addrs (ns : List (Addr × β)) : List Addr := ns.map Prod.fst

@[simp] theorem first_nil (q : Option Addr) : first q ([] : List (Addr × β)) = q := rfl

@[simp] theorem first_cons (q : Option Addr) (n : Addr × β) (ns : List (Addr × β)) :
    first q (n :: ns) = some n.1 := rfl

@[simp] theorem last_nil (p : Option Addr) : last p ([] : List (Addr × β)) = p := rfl

@[simp] theorem last_cons (p : Option Addr) (n : Addr × β) (ns : List (Addr × β)) :
    last p (n :: ns) = last (some n.1) ns := rfl

@[simp] theorem first_append (q : Option Addr) (ns ms : List (Addr × β)) :
    first q (ns ++ ms) = first (first q ms) ns := by
  cases ns <;> rfl

@[simp] theorem last_append (p : Option Addr) (ns ms : List (Addr × β)) :
    last p (ns ++ ms) = last (last p ns) ms := by
  induction ns generalizing p with
  | nil => rfl
  | cons n ns ih => exact ih (some n.1)

/-- The cells `ns` in a row between the pointers `p` and `q`. -/
def Seg (h : Heap (Node β)) : Option Addr → List (Addr × β) → Option Addr → Prop
  | _, [], _ => True
  | p, n :: ns, q => h.get n.1 = some ⟨n.2, p, first q ns⟩ ∧ Seg h (some n.1) ns q

section Segments

variable {h h' : Heap (Node β)} {p q : Option Addr} {ns ms mid mid' : List (Addr × β)}
  {x y : Addr × β}

@[simp] theorem seg_nil (h : Heap (Node β)) (p q : Option Addr) : Seg h p [] q := True.intro

theorem seg_cons : Seg h p (x :: ns) q ↔
    h.get x.1 = some ⟨x.2, p, first q ns⟩ ∧ Seg h (some x.1) ns q := Iff.rfl

theorem seg_append : Seg h p (ns ++ ms) q ↔
    Seg h p ns (first q ms) ∧ Seg h (last p ns) ms q := by
  induction ns generalizing p with
  | nil => simp
  | cons n ns ih =>
      simp only [List.cons_append, seg_cons, ih, first_append, last_cons, and_assoc]

/-- A segment only depends on its own cells. -/
theorem seg_congr (hc : ∀ a ∈ addrs ns, h'.get a = h.get a) (hs : Seg h p ns q) :
    Seg h' p ns q := by
  induction ns generalizing p with
  | nil => exact True.intro
  | cons n ns ih =>
      have hhead : h.get n.1 = some ⟨n.2, p, first q ns⟩ := hs.1
      refine ⟨?_, ih (fun a ha => hc a (List.mem_cons_of_mem _ ha)) hs.2⟩
      rw [hc n.1 List.mem_cons_self]
      exact hhead

/-- What stands in a cell of a segment. -/
theorem seg_mid (hs : Seg h p (ns ++ x :: ms) q) :
    h.get x.1 = some ⟨x.2, last p ns, first q ms⟩ :=
  (seg_append.1 hs).2.1

/-- Every cell of a segment is allocated and holds its data. -/
theorem seg_get (hs : Seg h p ns q) (hx : x ∈ ns) :
    ∃ v, h.get x.1 = some v ∧ v.data = x.2 := by
  obtain ⟨xs, ys, rfl⟩ := List.append_of_mem hx
  exact ⟨_, seg_mid hs, rfl⟩

/-- **Splicing.**  The cells between two nodes are exchanged for others: the
two nodes point at the new ones, and nothing else of the list has changed. -/
theorem seg_splice (hs : Seg h p (ns ++ x :: (mid ++ y :: ms)) q)
    (hx : ∀ v, h.get x.1 = some v →
      h'.get x.1 = some { v with next := first (some y.1) mid' })
    (hy : ∀ v, h.get y.1 = some v →
      h'.get y.1 = some { v with prev := last (some x.1) mid' })
    (hmid : Seg h' (some x.1) mid' (some y.1))
    (hframe : ∀ a ∈ addrs ns ++ addrs ms, h'.get a = h.get a) :
    Seg h' p (ns ++ x :: (mid' ++ y :: ms)) q := by
  simp only [seg_append, seg_cons, first_append, first_cons] at hs ⊢
  obtain ⟨hns, hgetx, hold, hgety, hms⟩ := hs
  have hbefore : Seg h' p ns (some x.1) :=
    seg_congr (fun a ha => hframe a (List.mem_append_left _ ha)) hns
  have hbehind : Seg h' (some y.1) ms q :=
    seg_congr (fun a ha => hframe a (List.mem_append_right _ ha)) hms
  exact ⟨hbefore, hx _ hgetx, hmid, hy _ hgety, hbehind⟩

/-- Following `next` visits the cells in order. -/
theorem links_of_seg (hs : Seg h p ns none) :
    Links Node.next h (first none ns) (addrs ns) := by
  induction ns generalizing p with
  | nil => rfl
  | cons n ns ih => exact ⟨rfl, _, hs.1, ih hs.2⟩

/-- The cells of a list that ends with NULL are distinct. -/
theorem seg_nodup (hs : Seg h p ns none) : (addrs ns).Nodup :=
  links_nodup (links_of_seg hs)

end Segments

/-! ## Lists between two sentinels -/

/-- Following a link from `p` visits the cells `as` and arrives at `q`. -/
def Visits (link : Node β → Option Addr) (h : Heap (Node β)) :
    Option Addr → List Addr → Option Addr → Prop
  | p, [], q => p = q
  | p, a :: as, q => p = some a ∧ ∃ v, h.get a = some v ∧ Visits link h (link v) as q

/-- A list: its nodes stand between two sentinels, whose outer links are NULL. -/
def Ring (h : Heap (Node β)) (head : Addr × β) (ns : List (Addr × β)) (tail : Addr × β) :
    Prop :=
  Seg h none (head :: (ns ++ [tail])) none

section Rings

variable {h h' : Heap (Node β)} {head tail n : Addr × β} {ns ns₁ ns₂ : List (Addr × β)}

theorem ring_head (hr : Ring h head ns tail) :
    h.get head.1 = some ⟨head.2, none, first (some tail.1) ns⟩ := by
  have hget := hr.1
  rwa [first_append] at hget

theorem ring_tail (hr : Ring h head ns tail) :
    h.get tail.1 = some ⟨tail.2, last (some head.1) ns, none⟩ :=
  (seg_append.1 hr.2).2.1

theorem ring_seg (hr : Ring h head ns tail) : Seg h (some head.1) ns (some tail.1) :=
  (seg_append.1 hr.2).1

theorem ring_node (hr : Ring h head (ns₁ ++ n :: ns₂) tail) :
    h.get n.1 = some ⟨n.2, last (some head.1) ns₁, first (some tail.1) ns₂⟩ :=
  seg_mid (ring_seg hr)

theorem ring_nodup (hr : Ring h head ns tail) :
    (head.1 :: (addrs ns ++ [tail.1])).Nodup := by
  have hnodup := seg_nodup hr
  simpa only [addrs, List.map_cons, List.map_append, List.map_nil] using hnodup

theorem head_ne_tail (hr : Ring h head ns tail) : head.1 ≠ tail.1 := by
  have hnot := (List.nodup_cons.1 (ring_nodup hr)).1
  exact fun heq => hnot (by simp [heq])

theorem head_notMem (hr : Ring h head ns tail) : head.1 ∉ addrs ns := fun hmem =>
  (List.nodup_cons.1 (ring_nodup hr)).1 (List.mem_append_left _ hmem)

theorem tail_notMem (hr : Ring h head ns tail) : tail.1 ∉ addrs ns := by
  have hnodup := (List.nodup_cons.1 (ring_nodup hr)).2
  intro hmem
  exact (List.nodup_append.1 hnodup).2.2 _ hmem _ (List.mem_singleton_self _) rfl

theorem nodes_nodup (hr : Ring h head ns tail) : (addrs ns).Nodup :=
  (List.nodup_append.1 (List.nodup_cons.1 (ring_nodup hr)).2).1

/-- The heap has room for the nodes and the sentinels. -/
theorem ring_length (hr : Ring h head ns tail) : ns.length + 2 ≤ h.cells.length := by
  have hle := links_length_le (links_of_seg hr)
  simp only [addrs, List.map_cons, List.map_append, List.map_nil, List.length_cons,
    List.length_append, List.length_map, List.length_nil] at hle
  omega

/-- A cell that is not allocated is none of the list. -/
theorem fresh_notMem (hr : Ring h head ns tail) {a : Addr} (ha : h.get a = none) :
    a ≠ head.1 ∧ a ∉ addrs ns ∧ a ≠ tail.1 := by
  refine ⟨?_, ?_, ?_⟩
  · rintro rfl
    exact absurd ((ring_head hr).symm.trans ha) (by simp)
  · intro hmem
    obtain ⟨x, hx, rfl⟩ := List.mem_map.1 hmem
    obtain ⟨v, hv, _⟩ := seg_get (ring_seg hr) hx
    exact absurd (hv.symm.trans ha) (by simp)
  · rintro rfl
    exact absurd ((ring_tail hr).symm.trans ha) (by simp)

/-- A node is none of the other cells of its list. -/
theorem node_apart (hr : Ring h head (ns₁ ++ n :: ns₂) tail) :
    n.1 ∉ head.1 :: (addrs (ns₁ ++ ns₂) ++ [tail.1]) := by
  have hnodup := ring_nodup hr
  simp only [addrs, List.map_append, List.map_cons] at hnodup ⊢
  grind

/-- A list only depends on its own cells. -/
theorem ring_congr (hr : Ring h head ns tail)
    (hc : ∀ a ∈ head.1 :: (addrs ns ++ [tail.1]), h'.get a = h.get a) :
    Ring h' head ns tail := by
  refine seg_congr (fun a ha => hc a ?_) hr
  simpa only [addrs, List.map_cons, List.map_append, List.map_nil] using ha

/-- Following `next` from one sentinel to the other visits the nodes in order. -/
theorem visits_next {p : Option Addr} {q : Addr} (hs : Seg h p ns (some q)) :
    Visits Node.next h (first (some q) ns) (addrs ns) (some q) := by
  induction ns generalizing p with
  | nil => rfl
  | cons n ns ih => exact ⟨rfl, _, hs.1, ih hs.2⟩

theorem visits_append {link : Node β → Option Addr} {p q r : Option Addr} {as bs : List Addr}
    (ha : Visits link h p as q) (hb : Visits link h q bs r) : Visits link h p (as ++ bs) r := by
  induction as generalizing p with
  | nil =>
      rw [show p = q from ha]
      exact hb
  | cons a as ih =>
      obtain ⟨hp, v, hv, hrest⟩ := ha
      exact ⟨hp, v, hv, ih hrest⟩

/-- Following `prev` visits them in the opposite order. -/
theorem visits_prev {p : Addr} {q : Option Addr} (hs : Seg h (some p) ns q) :
    Visits Node.prev h (last (some p) ns) (addrs ns).reverse (some p) := by
  induction ns generalizing p with
  | nil => rfl
  | cons n ns ih =>
      have hhead : Visits Node.prev h (some n.1) [n.1] (some p) := ⟨rfl, _, hs.1, rfl⟩
      rw [last_cons, addrs, List.map_cons, List.reverse_cons]
      exact visits_append (ih hs.2) hhead

/-- Both walks through a list, each from its sentinel to the other. -/
theorem ring_visits (hr : Ring h head ns tail) :
    Visits Node.next h (some head.1) (head.1 :: addrs ns) (some tail.1) ∧
      Visits Node.prev h (some tail.1) (tail.1 :: (addrs ns).reverse) (some head.1) :=
  ⟨⟨rfl, _, ring_head hr, visits_next (ring_seg hr)⟩,
    ⟨rfl, _, ring_tail hr, visits_prev (ring_seg hr)⟩⟩

end Rings

/-! ## Changing a list -/

section Change

variable {m : Mem (Node β)} {h h' : Heap (Node β)} {head tail n x y : Addr × β}
  {ns ns₁ ns₂ mid mid' pre post : List (Addr × β)}

/-- The neighbours of a part of a list, sentinels included. -/
theorem exists_neighbours (head tail : Addr × β) (ns₁ ns₂ : List (Addr × β)) :
    ∃ pre x y post, head :: ns₁ = pre ++ [x] ∧ ns₂ ++ [tail] = y :: post := by
  have hfront : ∃ pre x, head :: ns₁ = pre ++ [x] :=
    ⟨_, _, (List.dropLast_concat_getLast (List.cons_ne_nil head ns₁)).symm⟩
  have hback : ∃ y post, ns₂ ++ [tail] = y :: post := List.exists_cons_of_ne_nil (by simp)
  obtain ⟨pre, x, hpre⟩ := hfront
  obtain ⟨y, post, hpost⟩ := hback
  exact ⟨pre, x, y, post, hpre, hpost⟩

theorem last_of_neighbour (hpre : head :: ns₁ = pre ++ [x]) :
    last (some head.1) ns₁ = some x.1 := by
  have hlast := congrArg (last none) hpre
  rwa [last_cons, last_append] at hlast

theorem first_of_neighbour (hpost : ns₂ ++ [tail] = y :: post) :
    first (some tail.1) ns₂ = some y.1 := by
  have hfirst := congrArg (first none) hpost
  rwa [first_append] at hfirst

theorem ring_iff (hpre : head :: ns₁ = pre ++ [x]) (hpost : ns₂ ++ [tail] = y :: post) :
    Ring h head (ns₁ ++ mid ++ ns₂) tail ↔ Seg h none (pre ++ x :: (mid ++ y :: post)) none := by
  have heq : head :: (ns₁ ++ mid ++ ns₂ ++ [tail]) = pre ++ x :: (mid ++ y :: post) := by
    rw [List.append_assoc, List.append_assoc, ← List.cons_append, hpre, hpost]
    simp
  rw [Ring, heq]

/-- The neighbours and what lies beyond them are apart from each other and
from the part. -/
theorem neighbours_apart (hpre : head :: ns₁ = pre ++ [x]) (hpost : ns₂ ++ [tail] = y :: post)
    (hr : Ring h head (ns₁ ++ mid ++ ns₂) tail) :
    x.1 ≠ y.1 ∧ x.1 ∉ addrs mid ∧ y.1 ∉ addrs mid ∧
      ∀ a ∈ addrs pre ++ addrs post, a ≠ x.1 ∧ a ≠ y.1 ∧ a ∉ addrs mid := by
  have hnodup := seg_nodup ((ring_iff hpre hpost).1 hr)
  simp only [addrs, List.map_append, List.map_cons] at hnodup ⊢
  grind

/-- `seg_splice` for a whole list. -/
theorem ring_splice (hpre : head :: ns₁ = pre ++ [x]) (hpost : ns₂ ++ [tail] = y :: post)
    (hr : Ring h head (ns₁ ++ mid ++ ns₂) tail)
    (hx : ∀ v, h.get x.1 = some v →
      h'.get x.1 = some { v with next := first (some y.1) mid' })
    (hy : ∀ v, h.get y.1 = some v →
      h'.get y.1 = some { v with prev := last (some x.1) mid' })
    (hmid : Seg h' (some x.1) mid' (some y.1))
    (hframe : ∀ a ∈ addrs pre ++ addrs post, h'.get a = h.get a) :
    Ring h' head (ns₁ ++ mid' ++ ns₂) tail :=
  (ring_iff hpre hpost).2 (seg_splice ((ring_iff hpre hpost).1 hr) hx hy hmid hframe)

/-- `index->prev->next = index->next; index->next->prev = index->prev;` -/
def unlink (index : Option Addr) : Run (Mem (Node β)) Unit := do
  let v ← Mem.load index
  Mem.modify v.prev fun w => { w with next := v.next }
  let v ← Mem.load index
  Mem.modify v.next fun w => { w with prev := v.prev }

/-- Unlinking a node: the others close up, and no other cell has changed. -/
theorem unlink_ok (hr : Ring m.cells head (ns₁ ++ n :: ns₂) tail) :
    ∃ h', unlink (some n.1) m = .ok ((), ⟨h', m.freed⟩) ∧ Ring h' head (ns₁ ++ ns₂) tail ∧
      ∀ a, a ∉ head.1 :: (addrs (ns₁ ++ ns₂) ++ [tail.1]) → h'.get a = m.cells.get a := by
  obtain ⟨pre, x, y, post, hpre, hpost⟩ := exists_neighbours head tail ns₁ ns₂
  have hlast := last_of_neighbour hpre
  have hfirst := first_of_neighbour hpost
  have hr' : Ring m.cells head (ns₁ ++ [n] ++ ns₂) tail := by simpa using hr
  obtain ⟨hxy, hxn, hyn, hapart⟩ := neighbours_apart hpre hpost hr'
  have hseg := (ring_iff hpre hpost).1 hr'
  obtain ⟨vx, hvx, _⟩ : ∃ v, m.cells.get x.1 = some v ∧ v.data = x.2 :=
    seg_get hseg (by simp)
  obtain ⟨vy, hvy, _⟩ : ∃ v, m.cells.get y.1 = some v ∧ v.data = y.2 :=
    seg_get hseg (by simp)
  have hn := ring_node hr
  rw [hlast, hfirst] at hn
  have hnx : n.1 ≠ x.1 := fun heq => hxn (by simp [addrs, heq])
  let h₁ := m.cells.set x.1 { vx with next := some y.1 }
  have hn₁ : h₁.get n.1 = some ⟨n.2, some x.1, some y.1⟩ := by
    rw [Heap.get_set_ne _ hnx]
    exact hn
  have hvy₁ : h₁.get y.1 = some vy := by
    rw [Heap.get_set_ne _ hxy.symm]
    exact hvy
  let h₂ := h₁.set y.1 { vy with prev := some x.1 }
  have hrun : unlink (some n.1) m = .ok ((), ⟨h₂, m.freed⟩) := by
    unfold unlink
    rw [bind_ok (Mem.load_ok hn), bind_ok (Mem.modify_ok hvx _), bind_ok (Mem.load_ok hn₁),
      Mem.modify_ok hvy₁]
  have hgetx : ∀ v, m.cells.get x.1 = some v → h₂.get x.1 = some { v with next := some y.1 } := by
    intro v hv
    obtain rfl : vx = v := Option.some.inj (hvx.symm.trans hv)
    rw [Heap.get_set_ne _ hxy, Heap.get_set_self]
  have hgety : ∀ v, m.cells.get y.1 = some v → h₂.get y.1 = some { v with prev := some x.1 } := by
    intro v hv
    obtain rfl : vy = v := Option.some.inj (hvy.symm.trans hv)
    rw [Heap.get_set_self]
  have hrest : ∀ a, a ≠ x.1 → a ≠ y.1 → h₂.get a = m.cells.get a := by
    intro a hax hay
    rw [Heap.get_set_ne _ hay, Heap.get_set_ne _ hax]
  have hring : Ring h₂ head (ns₁ ++ [] ++ ns₂) tail :=
    ring_splice hpre hpost hr' hgetx hgety True.intro fun a ha =>
      hrest a (hapart a ha).1 (hapart a ha).2.1
  rw [List.append_nil] at hring
  refine ⟨h₂, hrun, hring, fun a ha => ?_⟩
  have happ : head.1 :: (addrs (ns₁ ++ ns₂) ++ [tail.1]) =
      addrs (pre ++ [x]) ++ addrs (y :: post) := by
    rw [← hpre, ← hpost]
    simp [addrs]
  rw [happ] at ha
  apply hrest a
  · rintro rfl
    exact ha (by simp [addrs])
  · rintro rfl
    exact ha (by simp [addrs])

/-- The node before `tail`, which may be `head`. -/
theorem exists_back (hr : Ring h head ns tail) :
    ∃ old v, last (some head.1) ns = some old ∧ h.get old = some v ∧ old ≠ tail.1 := by
  obtain ⟨pre, x, y, post, hpre, hpost⟩ := exists_neighbours head tail ns []
  obtain ⟨rfl, rfl⟩ : tail = y ∧ [] = post := List.cons.inj hpost
  have hr' : Ring h head (ns ++ [] ++ []) tail := by simpa using hr
  obtain ⟨v, hv, _⟩ : ∃ v, h.get x.1 = some v ∧ v.data = x.2 :=
    seg_get ((ring_iff hpre hpost).1 hr') (by simp)
  exact ⟨x.1, v, last_of_neighbour hpre, hv, (neighbours_apart hpre hpost hr').1⟩

/-- A new node between the last one and `tail`. -/
theorem ring_snoc {a old : Addr} {d : β} (hr : Ring h head ns tail) (ha : h.get a = none)
    (hold : last (some head.1) ns = some old)
    (hnew : h'.get a = some ⟨d, some old, some tail.1⟩)
    (hx : ∀ v, h.get old = some v → h'.get old = some { v with next := some a })
    (hy : ∀ v, h.get tail.1 = some v → h'.get tail.1 = some { v with prev := some a })
    (hframe : ∀ b, b ≠ a → b ≠ old → b ≠ tail.1 → h'.get b = h.get b) :
    Ring h' head (ns ++ [(a, d)]) tail := by
  obtain ⟨pre, x, y, post, hpre, hpost⟩ := exists_neighbours head tail ns []
  obtain ⟨rfl, rfl⟩ : tail = y ∧ [] = post := List.cons.inj hpost
  obtain rfl : x.1 = old := Option.some.inj ((last_of_neighbour hpre).symm.trans hold)
  have hr' : Ring h head (ns ++ [] ++ []) tail := by simpa using hr
  obtain ⟨_, _, _, hapart⟩ := neighbours_apart hpre hpost hr'
  have hseg := (ring_iff hpre hpost).1 hr'
  have hrest : ∀ b ∈ addrs pre ++ addrs ([] : List (Addr × β)), h'.get b = h.get b := by
    intro b hb
    obtain ⟨hbx, hby, _⟩ := hapart b hb
    refine hframe b ?_ hbx hby
    rintro rfl
    obtain ⟨c, hc, rfl⟩ := List.mem_map.1 (by simpa [addrs] using hb : b ∈ addrs pre)
    obtain ⟨v, hv, _⟩ := seg_get hseg (List.mem_append_left _ hc)
    exact absurd (hv.symm.trans ha) (by simp)
  have hring : Ring h' head (ns ++ [(a, d)] ++ []) tail :=
    ring_splice hpre hpost hr' hx hy ⟨hnew, True.intro⟩ hrest
  rwa [List.append_nil] at hring

end Change

/-! ## Searching a list -/

section Search

variable {σ γ : Type} {stop : Option Addr} {next : Option Addr → Run σ (Option Addr)}
  {test : Option Addr → Run σ Bool} {hit : Option Addr → Run σ γ} {miss : Run σ γ}
  {s : σ} {h : Heap (Node β)} {p q : Option Addr} {ns ns₁ ns₂ : List (Addr × β)}
  {head tail n : Addr × β} {turns : Nat}

/-- A search passes the nodes on which its test fails. -/
theorem scan_skip (hnext : ∀ a v, h.get a = some v → next (some a) s = .ok (v.next, s))
    (hs : Seg h p ns q) (hstop : ∀ a ∈ addrs ns, some a ≠ stop)
    (htest : ∀ n ∈ ns, test (some n.1) s = .ok (false, s)) (hturns : ns.length ≤ turns) :
    scan stop next test hit miss turns (first q ns) s =
      scan stop next test hit miss (turns - ns.length) q s := by
  induction ns generalizing p turns with
  | nil => rfl
  | cons n ns ih =>
      obtain ⟨k, rfl⟩ : ∃ k, turns = k + 1 := ⟨turns - 1, by simp at hturns; omega⟩
      have hlen : k + 1 - (n :: ns).length = k - ns.length := by simp
      rw [first_cons, scan_next (hstop _ List.mem_cons_self) (htest n List.mem_cons_self)
        (hnext _ _ hs.1), hlen]
      exact ih hs.2 (fun a ha => hstop a (List.mem_cons_of_mem _ ha))
        (fun c hc => htest c (List.mem_cons_of_mem _ hc)) (by simpa using hturns)

/-- A search stops at the first node on which its test succeeds. -/
theorem scan_ring_hit (hnext : ∀ a v, h.get a = some v → next (some a) s = .ok (v.next, s))
    (hr : Ring h head (ns₁ ++ n :: ns₂) tail)
    (hstop : ∀ a ∈ addrs (ns₁ ++ n :: ns₂), some a ≠ stop)
    (htest : ∀ c ∈ ns₁, test (some c.1) s = .ok (false, s))
    (hn : test (some n.1) s = .ok (true, s)) (hturns : h.cells.length ≤ turns) :
    scan stop next test hit miss turns (first (some tail.1) (ns₁ ++ n :: ns₂)) s =
      hit (some n.1) s := by
  have hlen := ring_length hr
  rw [List.length_append, List.length_cons] at hlen
  have hbefore : Seg h (some head.1) ns₁ (some n.1) := (seg_append.1 (ring_seg hr)).1
  have hstop₁ : ∀ a ∈ addrs ns₁, some a ≠ stop := by
    intro a ha
    apply hstop a
    rw [addrs, List.map_append]
    exact List.mem_append_left _ ha
  rw [first_append, first_cons, scan_skip hnext hbefore hstop₁ htest (by omega)]
  obtain ⟨k, hk⟩ : ∃ k, turns - ns₁.length = k + 1 := ⟨turns - ns₁.length - 1, by omega⟩
  rw [hk]
  exact scan_hit (hstop n.1 (by simp [addrs])) hn

/-- A search that finds nothing arrives at `tail`. -/
theorem scan_ring_miss (hnext : ∀ a v, h.get a = some v → next (some a) s = .ok (v.next, s))
    (hr : Ring h head ns tail) (hstop : ∀ a ∈ addrs ns, some a ≠ stop)
    (htest : ∀ c ∈ ns, test (some c.1) s = .ok (false, s)) (hturns : h.cells.length ≤ turns) :
    ∃ k, scan stop next test hit miss turns (first (some tail.1) ns) s =
      scan stop next test hit miss (k + 1) (some tail.1) s := by
  have hlen := ring_length hr
  refine ⟨turns - ns.length - 1, ?_⟩
  rw [scan_skip hnext (ring_seg hr) hstop htest (by omega)]
  congr 1
  omega

end Search

end ZeroCopyProxy.Verified.DoubleList
