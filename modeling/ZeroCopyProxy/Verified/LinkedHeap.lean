import Mathlib.Data.List.Basic
import Mathlib.Data.List.Nodup
import Mathlib.Data.List.Perm.Subperm

/-!
# Linked lists in a heap

A heap is the list of the cells that are allocated, with their addresses; a
cell that is not there was never allocated or has been freed, and reading it
is undefined behaviour (`none`).

`Links next h p as` says that following `next` from the pointer `p` visits
the cells `as` and ends with NULL.  The cells of such a list are distinct
(`links_nodup`) and determined by its first pointer (`links_unique`); adding a
cell behind the last one (`links_snoc`), taking the first one off and changing
cells elsewhere (`links_congr`) are what a queue does with it, and `freeAll`
is the loop that frees a whole list.
-/

namespace ZeroCopyProxy.Verified.LinkedHeap

/-- An address; NULL is the `none` of `Option Addr`. -/
abbrev Addr : Type := Nat

/-- The allocated cells. -/
structure Heap (α : Type) where
  cells : List (Addr × α)
  deriving DecidableEq

namespace Heap

variable {α : Type}

def empty : Heap α := ⟨[]⟩

/-- Reading a cell. -/
def get (h : Heap α) (a : Addr) : Option α := h.cells.lookup a

/-- `free`. -/
def free (h : Heap α) (a : Addr) : Heap α := ⟨h.cells.filter fun c => c.1 ≠ a⟩

/-- Writing a cell, allocated before or not. -/
def set (h : Heap α) (a : Addr) (v : α) : Heap α := ⟨(a, v) :: (h.free a).cells⟩

@[simp] theorem get_empty (a : Addr) : (empty : Heap α).get a = none := rfl

theorem get_cons (c : Addr × α) (cs : List (Addr × α)) (b : Addr) :
    (⟨c :: cs⟩ : Heap α).get b = if b = c.1 then some c.2 else (⟨cs⟩ : Heap α).get b := by
  obtain ⟨a, v⟩ := c
  by_cases hb : b = a
  · simp [get, hb]
  · have hbeq : (b == a) = false := beq_eq_false_iff_ne.2 hb
    simp [get, List.lookup_cons, hb, hbeq]

theorem get_free (h : Heap α) (a b : Addr) :
    (h.free a).get b = if b = a then none else h.get b := by
  obtain ⟨cs⟩ := h
  induction cs with
  | nil => simp [free, get]
  | cons c cs ih =>
      rw [get_cons]
      by_cases hc : c.1 = a
      · have hfree : (⟨c :: cs⟩ : Heap α).free a = (⟨cs⟩ : Heap α).free a := by
          simp [free, hc]
        rw [hfree, ih, hc]
        by_cases hb : b = a <;> simp [hb]
      · have hfree : (⟨c :: cs⟩ : Heap α).free a =
            ⟨c :: ((⟨cs⟩ : Heap α).free a).cells⟩ := by
          simp [free, hc]
        rw [hfree, get_cons, ih]
        by_cases hb : b = c.1
        · have hne : ¬ b = a := by rw [hb]; exact hc
          simp [hb, hc]
        · simp [hb]

@[simp] theorem get_free_self (h : Heap α) (a : Addr) : (h.free a).get a = none := by
  simp [get_free]

theorem get_free_ne (h : Heap α) {a b : Addr} (hne : b ≠ a) :
    (h.free a).get b = h.get b := by
  simp [get_free, hne]

theorem get_set (h : Heap α) (a b : Addr) (v : α) :
    (h.set a v).get b = if b = a then some v else h.get b := by
  rw [set, get_cons]
  by_cases hb : b = a
  · simp [hb]
  · rw [if_neg hb, if_neg hb]
    exact get_free_ne h hb

@[simp] theorem get_set_self (h : Heap α) (a : Addr) (v : α) :
    (h.set a v).get a = some v := by
  simp [get_set]

theorem get_set_ne (h : Heap α) {a b : Addr} (hne : b ≠ a) (v : α) :
    (h.set a v).get b = h.get b := by
  simp [get_set, hne]

theorem mem_of_get {h : Heap α} {a : Addr} {v : α} (hv : h.get a = some v) :
    a ∈ h.cells.map Prod.fst := by
  obtain ⟨cs⟩ := h
  induction cs with
  | nil => cases hv
  | cons c cs ih =>
      rw [get_cons] at hv
      by_cases hc : a = c.1
      · simp [hc]
      · rw [if_neg hc] at hv
        exact List.mem_cons_of_mem _ (ih hv)

end Heap

section Chain

variable {α : Type} {next : α → Option Addr} {h h' : Heap α}

/-- Following `next` from `p` visits the cells `as` and ends with NULL. -/
def Links (next : α → Option Addr) (h : Heap α) : Option Addr → List Addr → Prop
  | p, [] => p = none
  | p, a :: as => p = some a ∧ ∃ v, h.get a = some v ∧ Links next h (next v) as

/-- Every cell of a list is allocated. -/
theorem links_get {p : Option Addr} {as : List Addr} (hl : Links next h p as) {a : Addr}
    (ha : a ∈ as) : ∃ v, h.get a = some v := by
  induction as generalizing p with
  | nil => cases ha
  | cons b as ih =>
      obtain ⟨_, v, hv, hrest⟩ := hl
      rcases List.mem_cons.1 ha with rfl | ha
      · exact ⟨v, hv⟩
      · exact ih hrest ha

/-- The first pointer determines the list. -/
theorem links_unique {p : Option Addr} {as bs : List Addr} (ha : Links next h p as)
    (hb : Links next h p bs) : as = bs := by
  induction as generalizing p bs with
  | nil =>
      cases bs with
      | nil => rfl
      | cons b bs => exact absurd (ha.symm.trans hb.1) (by simp)
  | cons a as ih =>
      obtain ⟨hp, v, hv, hrest⟩ := ha
      cases bs with
      | nil => exact absurd (hp.symm.trans hb) (by simp)
      | cons b bs =>
          obtain ⟨hp', v', hv', hrest'⟩ := hb
          obtain rfl : a = b := Option.some.inj (hp.symm.trans hp')
          obtain rfl : v = v' := Option.some.inj (hv.symm.trans hv')
          rw [ih hrest hrest']

/-- The rest of a list from one of its cells on. -/
theorem links_drop {p : Option Addr} {as bs : List Addr} {a : Addr}
    (hl : Links next h p (as ++ a :: bs)) : Links next h (some a) (a :: bs) := by
  induction as generalizing p with
  | nil => exact ⟨rfl, hl.2⟩
  | cons c as ih =>
      obtain ⟨_, v, _, hrest⟩ := hl
      exact ih hrest

/-- No cell is visited twice. -/
theorem links_nodup {p : Option Addr} {as : List Addr} (hl : Links next h p as) :
    as.Nodup := by
  induction as generalizing p with
  | nil => exact List.nodup_nil
  | cons a as ih =>
      have hrest : ∃ v, h.get a = some v ∧ Links next h (next v) as := hl.2
      obtain ⟨v, _, htail⟩ := hrest
      refine List.nodup_cons.2 ⟨fun ha => ?_, ih htail⟩
      -- a list that came back to `a` would be a proper part of itself
      obtain ⟨xs, ys, rfl⟩ := List.append_of_mem ha
      have hall : Links next h (some a) (a :: (xs ++ a :: ys)) := ⟨rfl, hl.2⟩
      have hend : Links next h (some a) (a :: ys) := links_drop (List.cons_append ▸ hl)
      have hlen := congrArg List.length (links_unique hend hall)
      simp only [List.length_cons, List.length_append] at hlen
      omega

/-- A list only depends on its own cells. -/
theorem links_congr {p : Option Addr} {as : List Addr}
    (hc : ∀ a ∈ as, h'.get a = h.get a) (hl : Links next h p as) : Links next h' p as := by
  induction as generalizing p with
  | nil => exact hl
  | cons a as ih =>
      obtain ⟨hp, v, hv, hrest⟩ := hl
      refine ⟨hp, v, ?_, ih (fun b hb => hc b (List.mem_cons_of_mem _ hb)) hrest⟩
      rw [hc a List.mem_cons_self]
      exact hv

/-- The last cell of a list points to NULL. -/
theorem links_last {p : Option Addr} {as : List Addr} {l : Addr}
    (hl : Links next h p (as ++ [l])) : ∃ v, h.get l = some v ∧ next v = none := by
  obtain ⟨_, v, hv, hrest⟩ := links_drop hl
  exact ⟨v, hv, hrest⟩

/-- Linking a new cell behind the last one. -/
theorem links_snoc {p : Option Addr} {as : List Addr} {l b : Addr} {v w : α}
    (hl : Links next h p (as ++ [l])) (hb : b ∉ as ++ [l]) (hw : h.get b = some w)
    (hnil : next w = none) (hv : next v = some b) :
    Links next (h.set l v) p (as ++ [l, b]) := by
  have hbl : b ≠ l := fun heq => hb (by simp [heq])
  have hend : Links next (h.set l v) (some l) [l, b] := by
    refine ⟨rfl, v, Heap.get_set_self h l v, hv, w, ?_, hnil⟩
    rw [Heap.get_set_ne h hbl]
    exact hw
  have hnodup := links_nodup hl
  clear hb hw
  induction as generalizing p with
  | nil =>
      obtain ⟨hp, _⟩ := hl
      rw [hp]
      exact hend
  | cons a as ih =>
      obtain ⟨hp, u, hu, hrest⟩ := hl
      have hne : a ≠ l := by
        intro heq
        have ha := (List.nodup_cons.1 hnodup).1
        exact ha (by simp [heq])
      refine ⟨hp, u, ?_, ih hrest (List.nodup_cons.1 hnodup).2⟩
      rw [Heap.get_set_ne h hne]
      exact hu

/-- A heap has room for the lists in it. -/
theorem links_length_le {p : Option Addr} {as : List Addr} (hl : Links next h p as) :
    as.length ≤ h.cells.length := by
  have hsub : as ⊆ h.cells.map Prod.fst := fun a ha =>
    Heap.mem_of_get (links_get hl ha).choose_spec
  have hle := (List.subperm_of_subset (links_nodup hl) hsub).length_le
  rwa [List.length_map] at hle

/-- The loop that frees the cells of a list one after the other; `none` when
it reads a cell that is not allocated, or when its turns do not suffice. -/
def freeAll (next : α → Option Addr) : Nat → Heap α → Option Addr → Option (Heap α)
  | _, h, none => some h
  | 0, _, some _ => none
  | n + 1, h, some a =>
    match h.get a with
    | none => none
    | some v => freeAll next n (h.free a) (next v)

/-- The loop frees exactly the cells of the list. -/
theorem freeAll_links {p : Option Addr} {as : List Addr} {n : Nat}
    (hl : Links next h p as) (hn : as.length ≤ n) :
    ∃ h', freeAll next n h p = some h' ∧
      ∀ b, h'.get b = if b ∈ as then none else h.get b := by
  induction as generalizing p n h with
  | nil =>
      rw [show p = none from hl]
      exact ⟨h, by cases n <;> rfl, fun b => by simp⟩
  | cons a as ih =>
      have hnodup := links_nodup hl
      obtain ⟨rfl, v, hv, hrest⟩ := hl
      obtain ⟨m, rfl⟩ : ∃ m, n = m + 1 :=
        ⟨n - 1, by simp only [List.length_cons] at hn; omega⟩
      have hrest' : Links next (h.free a) (next v) as := by
        refine links_congr (fun b hb => Heap.get_free_ne h ?_) hrest
        rintro rfl
        exact (List.nodup_cons.1 hnodup).1 hb
      obtain ⟨h', hfree, hget⟩ := ih hrest' (by simpa using hn)
      refine ⟨h', by simp only [freeAll, hv, hfree], fun b => ?_⟩
      rw [hget, Heap.get_free]
      by_cases hb : b = a <;> by_cases hm : b ∈ as <;> simp [hb, hm]

/-- What is left after the loop was there before it. -/
theorem freeAll_get {p : Option Addr} {n : Nat} (hf : freeAll next n h p = some h') {b : Addr}
    {v : α} (hv : h'.get b = some v) : h.get b = some v := by
  induction n generalizing h p with
  | zero =>
      cases p with
      | none =>
          cases hf
          exact hv
      | some a => cases hf
  | succ n ih =>
      cases p with
      | none =>
          cases hf
          exact hv
      | some a =>
          simp only [freeAll] at hf
          split at hf
          · cases hf
          · have hleft := ih hf
            rw [Heap.get_free] at hleft
            split at hleft
            · cases hleft
            · exact hleft

end Chain

end ZeroCopyProxy.Verified.LinkedHeap
