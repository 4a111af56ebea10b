import Mathlib.Algebra.Order.Ring.Int
import Mathlib.Algebra.BigOperators.Group.List.Basic
import Mathlib.Data.List.Induction

/-!
# Transfers in pieces

A transfer of `n` units that is made in several pieces is a list of positive
numbers with sum `n`.  `next ks d` is the piece that follows when `d` units
have been moved; it is defined exactly where a piece begins, so a kernel that
moves `next ks d` follows the list and nothing else.
-/

namespace ZeroCopyProxy.Verified.Chunks

/-- A way to move `n` units in pieces. -/
structure Splits (n : Nat) (ks : List Nat) : Prop where
  pos : ∀ k ∈ ks, 0 < k
  sum : ks.sum = n

instance (n : Nat) (ks : List Nat) : Decidable (Splits n ks) :=
  decidable_of_iff ((∀ k ∈ ks, 0 < k) ∧ ks.sum = n)
    ⟨fun h => ⟨h.1, h.2⟩, fun h => ⟨h.pos, h.sum⟩⟩

/-- The piece that follows when `d` units have been moved. -/
def next : List Nat → Nat → Option Nat
  | [], _ => none
  | k :: ks, d => if d = 0 then some k else if k ≤ d then next ks (d - k) else none

/-- Behind the first pieces comes the next one. -/
theorem next_sum {pre post : List Nat} {k : Nat} (hpos : ∀ j ∈ pre, 0 < j) :
    next (pre ++ k :: post) pre.sum = some k := by
  induction pre with
  | nil => rfl
  | cons j pre ih =>
      have hj : 0 < j := hpos j List.mem_cons_self
      have hne : ¬ j + pre.sum = 0 := by omega
      have hle : j ≤ j + pre.sum := by omega
      rw [List.cons_append, List.sum_cons, next, if_neg hne, if_pos hle,
        Nat.add_sub_cancel_left]
      exact ih fun i hi => hpos i (List.mem_cons_of_mem j hi)

/-- Every piece that follows stands behind the pieces before it. -/
theorem split_of_next {ks : List Nat} {d k : Nat} (h : next ks d = some k) :
    ∃ pre post, ks = pre ++ k :: post ∧ d = pre.sum := by
  induction ks generalizing d with
  | nil => cases h
  | cons j ks ih =>
      rw [next] at h
      by_cases hd : d = 0
      · rw [if_pos hd] at h
        cases h
        exact ⟨[], ks, rfl, hd⟩
      · rw [if_neg hd] at h
        by_cases hj : j ≤ d
        · rw [if_pos hj] at h
          obtain ⟨pre, post, hks, hsum⟩ := ih h
          refine ⟨j :: pre, post, ?_, ?_⟩
          · rw [hks, List.cons_append]
          · rw [List.sum_cons, ← hsum]
            omega
        · rw [if_neg hj] at h
          cases h

section Splits

variable {n : Nat} {ks : List Nat}

/-- A piece stays inside the transfer. -/
theorem Splits.next_le (h : Splits n ks) {d k : Nat} (hk : next ks d = some k) :
    0 < k ∧ d + k ≤ n := by
  obtain ⟨pre, post, rfl, rfl⟩ := split_of_next hk
  have hpos := h.pos k (by simp)
  have hsum := h.sum
  rw [List.sum_append, List.sum_cons] at hsum
  omega

/-- The piece behind the first ones. -/
theorem Splits.next_of_split (h : Splits n ks) {pre post : List Nat} {k : Nat}
    (hsplit : ks = pre ++ k :: post) : next ks pre.sum = some k := by
  rw [hsplit]
  exact next_sum fun j hj => h.pos j (by simp [hsplit, hj])

/-- A piece stays inside the transfer, wherever it stands. -/
theorem Splits.piece_le (h : Splits n ks) {pre post : List Nat} {k : Nat}
    (hsplit : ks = pre ++ k :: post) : 0 < k ∧ pre.sum + k ≤ n :=
  h.next_le (h.next_of_split hsplit)

/-- Behind some pieces something was moved. -/
theorem Splits.sum_pos (h : Splits n ks) {pre post : List Nat}
    (hsplit : ks = pre ++ post) (hne : pre ≠ []) : 0 < pre.sum := by
  cases pre with
  | nil => exact absurd rfl hne
  | cons j pre =>
      have hj := h.pos j (by simp [hsplit])
      rw [List.sum_cons]
      omega

/-- A transfer of something ends with a last piece. -/
theorem Splits.exists_last (h : Splits n ks) (hn : 0 < n) :
    ∃ pre k, ks = pre ++ [k] ∧ pre.sum + k = n := by
  have hne : ks ≠ [] := by
    rintro rfl
    exact absurd h.sum (by simp only [List.sum_nil]; omega)
  have hsplit := List.dropLast_append_getLast hne
  refine ⟨ks.dropLast, ks.getLast hne, hsplit.symm, ?_⟩
  have hsum := h.sum
  rw [← hsplit, List.sum_append, List.sum_singleton] at hsum
  exact hsum

/-- A transfer in one piece. -/
theorem Splits.next_single {d k : Nat} (hk : next [n] d = some k) : d = 0 ∧ k = n := by
  rw [next] at hk
  by_cases hd : d = 0
  · rw [if_pos hd] at hk
    exact ⟨hd, (Option.some.inj hk).symm⟩
  · rw [if_neg hd] at hk
    split at hk <;> cases hk

/-- A transfer in more than one piece has only smaller pieces. -/
theorem Splits.lt_of_ne_single (h : Splits n ks) (hne : ks ≠ [n]) {k : Nat}
    (hk : k ∈ ks) : k < n := by
  obtain ⟨pre, post, rfl⟩ := List.append_of_mem hk
  have hsum := h.sum
  rw [List.sum_append, List.sum_cons] at hsum
  by_contra hge
  have hzero : pre.sum = 0 ∧ post.sum = 0 ∧ k = n := by omega
  have hempty : ∀ l : List Nat, (∀ j ∈ l, 0 < j) → l.sum = 0 → l = [] := by
    intro l hl hs
    cases l with
    | nil => rfl
    | cons j l =>
        have hj := hl j List.mem_cons_self
        rw [List.sum_cons] at hs
        omega
  apply hne
  rw [hempty pre (fun j hj => h.pos j (by simp [hj])) hzero.1,
    hempty post (fun j hj => h.pos j (by simp [hj])) hzero.2.1, hzero.2.2,
    List.nil_append]

end Splits

/-- Induction along a transfer: what holds at the start and is carried over
every piece holds behind every beginning of the list. -/
theorem along {ks : List Nat} (hpos : ∀ k ∈ ks, 0 < k) {motive : Nat → Prop}
    (hzero : motive 0)
    (hstep : ∀ {d k : Nat}, next ks d = some k → motive d → motive (d + k))
    {pre post : List Nat} (h : ks = pre ++ post) : motive pre.sum := by
  induction pre using List.reverseRecOn generalizing post with
  | nil => exact hzero
  | append_singleton pre k ih =>
      rw [List.append_assoc, List.singleton_append] at h
      have hpre : ∀ j ∈ pre, 0 < j := fun j hj => hpos j (by simp [h, hj])
      rw [List.sum_append, List.sum_singleton]
      refine hstep ?_ (ih h)
      rw [h]
      exact next_sum hpre

end ZeroCopyProxy.Verified.Chunks
