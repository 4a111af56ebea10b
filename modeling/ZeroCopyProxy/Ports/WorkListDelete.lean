import ZeroCopyProxy.Ports.WorkList

/-!
# Deleting from the work list

`dlist_ptr_del_node_by_node` compares the `prev` pointers of two nodes and
removes the first node whose `prev` is another one than the target's.  No node
differs from itself, so the node that is removed is never the target.

`dlist_ptr_final` empties the list all the same.  Its first round has the
first node as target and removes the second, if there is one; from then on the
cursor stands on the first node, the target is what follows it, and the first
node is removed.
-/

namespace ZeroCopyProxy.Ports.WorkListDelete

open ZeroCopyProxy.Verified.LinkedHeap
open ZeroCopyProxy.Verified.HeapRun
open ZeroCopyProxy.Verified.DoubleList
open ZeroCopyProxy.Ports.Posix
open ZeroCopyProxy.Ports.WorkList

section Rounds

variable {s : Store} {a : Addr} {u : NodePtr} {e f : Entry} {es : List Entry}

theorem head_ne_node (h : Holds s es) (he : e ∈ es) : s.list.head ≠ e.node := by
  intro heq
  apply head_notMem h.ring
  rw [addrs_cell]
  exact heq ▸ List.mem_map_of_mem he

/-- Behind a node there is no `head`. -/
theorem last_ne_head {es₁ es₂ : List Entry} (h : Holds s (es₁ ++ es₂)) (hne : es₁ ≠ []) :
    last (some s.list.head) (es₁.map Entry.cell) ≠ some s.list.head := by
  rcases List.eq_nil_or_concat es₁ with rfl | ⟨es, e, rfl⟩
  · exact absurd rfl hne
  · have he : e ∈ es.concat e ++ es₂ := by simp
    have hnode := head_ne_node h he
    rw [last_cell, List.concat_eq_append, List.getLast?_concat]
    exact fun heq => hnode (Option.some.inj heq).symm

/-- A target that does not stand behind `head` costs the first node. -/
theorem del_first (h : Holds s (e :: es)) (hu : s.nodes.cells.get a = some u)
    (hprev : u.prev ≠ some s.list.head) :
    ∃ s', dlistPtrDelNodeByNode (some a) s = .ok (normal, s') ∧ Holds s' es ∧
      Removed s e s' := by
  have h' : Holds s ([] ++ e :: es) := h
  exact delNodeByNode_hit h' hu (by simp) (Ne.symm hprev)

/-- A target that stands behind `head` costs the second node. -/
theorem del_second (h : Holds s (e :: f :: es)) (hu : s.nodes.cells.get a = some u)
    (hprev : u.prev = some s.list.head) :
    ∃ s', dlistPtrDelNodeByNode (some a) s = .ok (normal, s') ∧ Holds s' (e :: es) ∧
      Removed s f s' := by
  have h₁ : Holds s ([] ++ e :: f :: es) := h
  have h₂ : Holds s ([e] ++ f :: es) := h
  have hbefore : ∀ c ∈ [e], ∃ v, s.nodes.cells.get c.node = some v ∧ v.prev = u.prev := by
    intro c hc
    obtain rfl := List.mem_singleton.1 hc
    exact ⟨_, holds_node h₁, hprev.symm⟩
  refine delNodeByNode_hit h₂ hu hbefore ?_
  rw [hprev]
  exact fun heq => head_ne_node h List.mem_cons_self (Option.some.inj heq).symm

/-- And nothing, if there is no second one. -/
theorem del_none (h : Holds s [e]) (hu : s.nodes.cells.get a = some u)
    (hprev : u.prev = some s.list.head) :
    dlistPtrDelNodeByNode (some a) s = .ok (objectErr, s) := by
  have h' : Holds s ([] ++ e :: []) := h
  refine delNodeByNode_miss h hu fun c hc => ?_
  obtain rfl := List.mem_singleton.1 hc
  exact ⟨_, holds_node h', hprev.symm⟩

end Rounds

/-! ## Emptying the list -/

/-- What is freed on the way from `s` to `s'`: these entries, each once. -/
structure Freed (s : Store) (es : List Entry) (s' : Store) : Prop where
  head : s'.list.head = s.list.head
  tail : s'.list.tail = s.list.tail
  nodes : ∃ order, s'.nodes.freed = s.nodes.freed ++ order ∧ order.Perm (es.map Entry.node)
  records : ∃ order, s'.records.freed = s.records.freed ++ order ∧
    order.Perm (es.map Entry.record)

section Final

variable {s s' s'' : Store} {e : Entry} {es : List Entry} {turns : Nat}

theorem Freed.refl (s : Store) : Freed s [] s where
  head := rfl
  tail := rfl
  nodes := ⟨[], by rw [List.append_nil], .nil⟩
  records := ⟨[], by rw [List.append_nil], .nil⟩

theorem Freed.cons (hr : Removed s e s') (hf : Freed s' es s'') : Freed s (e :: es) s'' where
  head := hf.head.trans hr.head
  tail := hf.tail.trans hr.tail
  nodes := by
    obtain ⟨order, hfreed, hperm⟩ := hf.nodes
    refine ⟨e.node :: order, ?_, hperm.cons _⟩
    rw [hfreed, hr.nodes, List.append_assoc, List.singleton_append]
  records := by
    obtain ⟨order, hfreed, hperm⟩ := hf.records
    refine ⟨e.record :: order, ?_, hperm.cons _⟩
    rw [hfreed, hr.records, List.append_assoc, List.singleton_append]

theorem Freed.perm {es' : List Entry} (hf : Freed s es s') (hp : es.Perm es') :
    Freed s es' s' where
  head := hf.head
  tail := hf.tail
  nodes := by
    obtain ⟨order, hfreed, hperm⟩ := hf.nodes
    exact ⟨order, hfreed, hperm.trans (hp.map _)⟩
  records := by
    obtain ⟨order, hfreed, hperm⟩ := hf.records
    exact ⟨order, hfreed, hperm.trans (hp.map _)⟩

/-- A cursor on the first node: every round removes the node it leaves. -/
theorem finalLoop_first (h : Holds s (e :: es)) (hturns : es.length + 2 ≤ turns) :
    ∃ s', finalLoop turns (some e.node) s = .ok ((), s') ∧ Holds s' [] ∧
      Freed s (e :: es) s' := by
  induction es generalizing s e turns with
  | nil =>
      obtain ⟨k, rfl⟩ : ∃ k, turns = k + 2 := ⟨turns - 2, by simp at hturns; omega⟩
      have h' : Holds s ([] ++ e :: []) := h
      have htail := holds_tail h
      have h₂ : Holds s ([e] ++ []) := h
      have hne := last_ne_head h₂ (List.cons_ne_nil e [])
      obtain ⟨s', hdel, hs', hremoved⟩ := del_first h htail hne
      have hend : finalLoop (k + 1) (some s.list.tail) s' = .ok ((), s') := by
        have htail' := holds_tail hs'
        rw [hremoved.tail] at htail'
        rw [finalLoop, bind_ok (nextOf_ok htail'), if_pos rfl, run_pure]
      refine ⟨s', ?_, hs', .cons hremoved (.refl s')⟩
      rw [finalLoop, bind_ok (nextOf_ok (holds_node h')), if_neg (by simp)]
      exact (bind_ok hdel).trans hend
  | cons f es ih =>
      obtain ⟨k, rfl⟩ : ∃ k, turns = k + 1 := ⟨turns - 1, by simp at hturns; omega⟩
      have h₁ : Holds s ([] ++ e :: f :: es) := h
      have h₂ : Holds s ([e] ++ f :: es) := h
      have hne := last_ne_head h₂ (List.cons_ne_nil e [])
      obtain ⟨s', hdel, hs', hremoved⟩ := del_first h (holds_node h₂) hne
      have hk : es.length + 2 ≤ k := by simpa using hturns
      obtain ⟨s'', hloop, hs'', hfreed⟩ := ih hs' hk
      refine ⟨s'', ?_, hs'', .cons hremoved hfreed⟩
      rw [finalLoop, bind_ok (nextOf_ok (holds_node h₁)), if_neg (by simp)]
      exact (bind_ok hdel).trans hloop

/-- The whole loop, which starts at `head`. -/
theorem finalLoop_head (h : Holds s (e :: es)) (hturns : es.length + 3 ≤ turns) :
    ∃ s', finalLoop turns (some s.list.head) s = .ok ((), s') ∧ Holds s' [] ∧
      Freed s (e :: es) s' := by
  obtain ⟨k, rfl⟩ : ∃ k, turns = k + 1 := ⟨turns - 1, by omega⟩
  have hround : ∀ {rv : Int} {t : Store},
      dlistPtrDelNodeByNode (some e.node) s = .ok (rv, t) →
      finalLoop (k + 1) (some s.list.head) s = finalLoop k (some e.node) t := by
    intro rv t hdel
    rw [finalLoop, bind_ok (nextOf_ok (holds_head h)), if_neg (by simp)]
    exact bind_ok hdel
  have he : Holds s ([] ++ e :: es) := h
  have hnode := holds_node he
  cases es with
  | nil =>
      have hk : ([] : List Entry).length + 2 ≤ k := by simpa using hturns
      obtain ⟨s', hloop, hs', hfreed⟩ := finalLoop_first h hk
      exact ⟨s', by rw [hround (del_none h hnode rfl), hloop], hs', hfreed⟩
  | cons f es =>
      obtain ⟨t, hdel, ht, hremoved⟩ := del_second h hnode rfl
      have hk : es.length + 2 ≤ k := by
        rw [List.length_cons] at hturns
        omega
      obtain ⟨s', hloop, hs', hfreed⟩ := finalLoop_first ht hk
      refine ⟨s', by rw [hround hdel, hloop], hs', ?_⟩
      exact (Freed.cons hremoved hfreed).perm (.swap e f es)

end Final

/-- **`dlist_ptr_final` empties every list safely.**  With a turn for each node
and two more it ends without a fault, and every node and every record is freed
once. -/
theorem dlistPtrFinal_empties (s : Store) (es : List Entry) (h : Holds s es) (turns : Nat)
    (hturns : es.length + 2 ≤ turns) :
    ∃ s', dlistPtrFinal turns s = .ok ((), s') ∧ Freed s es s' ∧ s'.list.length = 0 ∧
      s'.nodes.cells.get s.list.head = some ⟨none, none, some s.list.tail⟩ ∧
      s'.nodes.cells.get s.list.tail = some ⟨none, some s.list.head, none⟩ := by
  have hempty : ∀ {s'}, Holds s' [] → Freed s es s' → s'.list.length = 0 ∧
      s'.nodes.cells.get s.list.head = some ⟨none, none, some s.list.tail⟩ ∧
      s'.nodes.cells.get s.list.tail = some ⟨none, some s.list.head, none⟩ := by
    intro s' hs' hfreed
    have hhead := holds_head hs'
    have htail := holds_tail hs'
    rw [hfreed.head, hfreed.tail] at hhead htail
    exact ⟨hs'.length, hhead, htail⟩
  have hlen := h.length
  cases es with
  | nil =>
      have hnot : ¬ 0 < s.list.length := by simp [hlen]
      refine ⟨s, ?_, .refl s, hempty h (.refl s)⟩
      unfold dlistPtrFinal
      rw [bind_ok (run_state s), if_neg hnot, run_pure]
  | cons e es =>
      have hpos : 0 < s.list.length := by
        rw [hlen]
        simp
      have hne : first (some s.list.tail) ((e :: es).map Entry.cell) ≠ some s.list.tail :=
        node_ne_stop h e.node (by simp [addrs, Entry.cell])
      obtain ⟨s', hloop, hs', hfreed⟩ := finalLoop_head h hturns
      refine ⟨s', ?_, hfreed, hempty hs' hfreed⟩
      unfold dlistPtrFinal
      rw [bind_ok (run_state s), if_pos hpos, bind_ok (load_node (holds_head h)), if_pos hne,
        if_pos (first_ne_none _ _), hloop]

/-- Three nodes with their records. -/
def three : Store where
  list := ⟨3, 100, 101⟩
  nodes := ⟨⟨[(100, ⟨none, none, some 1⟩), (1, ⟨some 11, some 100, some 2⟩),
    (2, ⟨some 12, some 1, some 3⟩), (3, ⟨some 13, some 2, some 101⟩),
    (101, ⟨none, some 3, none⟩)]⟩, []⟩
  records := ⟨⟨[(11, ProxyConn.blank), (12, ProxyConn.blank), (13, ProxyConn.blank)]⟩, []⟩

/-- Their entries. -/
def threeEntries : List Entry :=
  [⟨1, 11, ProxyConn.blank⟩, ⟨2, 12, ProxyConn.blank⟩, ⟨3, 13, ProxyConn.blank⟩]

theorem holds_three : Holds three threeEntries where
  ring := ⟨rfl, rfl, rfl, rfl, rfl, True.intro⟩
  records := by
    intro e he
    simp only [threeEntries, List.mem_cons, List.not_mem_nil, or_false] at he
    rcases he with rfl | rfl | rfl <;> rfl
  distinct := by decide
  length := rfl

theorem dlistPtrFinal_empties_three :
    ∃ s', dlistPtrFinal 5 three = .ok ((), s') ∧ Freed three threeEntries s' ∧
      s'.list.length = 0 ∧
      s'.nodes.cells.get three.list.head = some ⟨none, none, some three.list.tail⟩ ∧
      s'.nodes.cells.get three.list.tail = some ⟨none, some three.list.head, none⟩ :=
  dlistPtrFinal_empties three threeEntries holds_three 5 (by decide)

/-! ## Deleting a given node -/

/-- What deleting a node should do: a node of the list leaves it, alone and for
good, and any other node changes nothing. -/
def DeletesIt (s : Store) (es : List Entry) (a : Addr) : Prop :=
  (∀ es₁ e es₂, es = es₁ ++ e :: es₂ → e.node = a →
    ∃ s', dlistPtrDelNodeByNode (some a) s = .ok (normal, s') ∧ Holds s' (es₁ ++ es₂) ∧
      Removed s e s') ∧
  (a ∉ es.map Entry.node → dlistPtrDelNodeByNode (some a) s = .ok (objectErr, s))

section Given

variable {s : Store} {a : Addr} {u : NodePtr} {e : Entry} {es es₁ es₂ : List Entry}

/-- Where the deletion removes another node, it does not remove this one. -/
theorem removed_ne {s' s'' : Store} {f : Entry} (he : Removed s e s') (hf : Removed s f s'')
    (hne : e.node ≠ f.node) : s' ≠ s'' := by
  rintro rfl
  have hsame := he.nodes.symm.trans hf.nodes
  exact hne (List.cons.inj (List.append_cancel_left hsame)).1

theorem node_ne_of_mem (h : Holds s (e :: es)) {f : Entry} (hf : f ∈ es) : e.node ≠ f.node := by
  have hnodup := nodes_nodup h.ring
  rw [addrs_cell, List.map_cons] at hnodup
  intro heq
  exact (List.nodup_cons.1 hnodup).1 (heq ▸ List.mem_map_of_mem hf)

/-- A node of the list is never the one that is removed. -/
theorem not_deletesIt (h : Holds s es) (ha : a ∈ es.map Entry.node) : ¬ DeletesIt s es a := by
  rintro ⟨hmember, _⟩
  obtain ⟨e, he, rfl⟩ := List.mem_map.1 ha
  obtain ⟨es₁, es₂, rfl⟩ := List.append_of_mem he
  obtain ⟨s', hrun, _, hremoved⟩ := hmember es₁ e es₂ rfl rfl
  have hnode := holds_node h
  cases es₁ with
  | nil =>
      cases es₂ with
      | nil =>
          rw [del_none h hnode rfl] at hrun
          cases hrun
      | cons f es₂ =>
          obtain ⟨t, hdel, _, hother⟩ := del_second h hnode rfl
          rw [hdel] at hrun
          have heq : t = s' := congrArg Prod.snd (Except.ok.inj hrun)
          exact removed_ne hother hremoved (Ne.symm (node_ne_of_mem h List.mem_cons_self)) heq
  | cons f es₁ =>
      have hne := last_ne_head h (List.cons_ne_nil f es₁)
      obtain ⟨t, hdel, _, hother⟩ := del_first h hnode hne
      rw [hdel] at hrun
      have heq : t = s' := congrArg Prod.snd (Except.ok.inj hrun)
      exact removed_ne hother hremoved (node_ne_of_mem h (by simp)) heq

end Given

/-- `dlist_ptr_del_node_by_node` does this for no node of the list, and for
another node only where the list is empty or its one node has the same
`prev`. -/
theorem deletesIt_iff (s : Store) (es : List Entry) (h : Holds s es) (a : Addr) (u : NodePtr)
    (hu : s.nodes.cells.get a = some u) :
    DeletesIt s es a ↔ a ∉ es.map Entry.node ∧
      (es = [] ∨ (∃ e, es = [e]) ∧ u.prev = some s.list.head) := by
  constructor
  · intro hdel
    have ha : a ∉ es.map Entry.node := fun ha => not_deletesIt h ha hdel
    have hrun := hdel.2 ha
    refine ⟨ha, ?_⟩
    cases es with
    | nil => exact .inl rfl
    | cons e es =>
        by_cases hprev : u.prev = some s.list.head
        · cases es with
          | nil => exact .inr ⟨⟨e, rfl⟩, hprev⟩
          | cons f es =>
              obtain ⟨t, hother, _⟩ := del_second h hu hprev
              rw [hother] at hrun
              cases hrun
        · obtain ⟨t, hother, _⟩ := del_first h hu hprev
          rw [hother] at hrun
          cases hrun
  · rintro ⟨ha, hcase⟩
    refine ⟨fun es₁ e es₂ heq hea => ?_, fun _ => ?_⟩
    · exact absurd (by rw [heq, ← hea]; simp) ha
    · rcases hcase with rfl | ⟨⟨e, rfl⟩, hprev⟩
      · exact delNodeByNode_miss h hu (by simp)
      · exact del_none h hu hprev

theorem deletesIt_three : ¬ DeletesIt three threeEntries 2 ∧
    (dlistPtrDelNodeByNode (some 2) three).toOption.map (fun r => r.2.nodes.freed) = some [1] := by
  refine ⟨not_deletesIt holds_three (by decide), by decide⟩

/-- One node, and beside the list another one that was given the same
`prev`. -/
def lone : Store where
  list := ⟨1, 100, 101⟩
  nodes := ⟨⟨[(100, ⟨none, none, some 1⟩), (1, ⟨some 11, some 100, some 101⟩),
    (2, ⟨some 12, some 100, some 101⟩), (101, ⟨none, some 1, none⟩)]⟩, []⟩
  records := ⟨⟨[(11, ProxyConn.blank), (12, ProxyConn.blank)]⟩, []⟩

/-- Its entry. -/
def loneEntry : Entry := ⟨1, 11, ProxyConn.blank⟩

theorem holds_lone : Holds lone [loneEntry] where
  ring := ⟨rfl, rfl, rfl, True.intro⟩
  records := by
    intro e he
    obtain rfl := List.mem_singleton.1 he
    rfl
  distinct := by decide
  length := rfl

theorem deletesIt_iff_three_lone :
    (DeletesIt three threeEntries 2 ↔ 2 ∉ threeEntries.map Entry.node ∧
      (threeEntries = [] ∨ (∃ e, threeEntries = [e]) ∧ some 1 = some three.list.head)) ∧
    DeletesIt lone [loneEntry] 2 := by
  constructor
  · exact deletesIt_iff three threeEntries holds_three 2 ⟨some 12, some 1, some 3⟩ rfl
  · refine (deletesIt_iff lone [loneEntry] holds_lone 2 ⟨some 12, some 100, some 101⟩ rfl).2 ?_
    exact ⟨by decide, .inr ⟨⟨loneEntry, rfl⟩, rfl⟩⟩

end ZeroCopyProxy.Ports.WorkListDelete
