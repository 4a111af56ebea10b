import Mathlib.Algebra.BigOperators.Group.Finset.Piecewise
import Mathlib.Algebra.Order.BigOperators.Group.Finset
import Mathlib.Data.Fintype.Card
import Mathlib.Logic.Function.Basic

/-!
# Counting threads by their place

A counter that threads increment on entering some part of their program and
decrement on leaving it should be the number of the threads inside.  `count p
f` is that number for threads at the places `f`; moving one thread changes it
by what the move crosses.  `total w f` is the same with a weight for each
place, which measures how much the threads have left to do.
-/

namespace ZeroCopyProxy.Verified.Counting

variable {ι β : Type} [Fintype ι] [DecidableEq ι] (p : β → Bool) (f : ι → β)

/-- How many threads are at a place that satisfies `p`. -/
def count : Nat := (Finset.univ.filter fun i => p (f i) = true).card

variable {p f} {i : ι} {b : β}

omit [DecidableEq ι] in
/-- A thread outside leaves room for one more inside. -/
theorem count_lt (hi : p (f i) = false) : count p f < Fintype.card ι := by
  refine Finset.card_lt_card (Finset.filter_ssubset.2 ⟨i, Finset.mem_univ i, ?_⟩)
  simp [hi]

omit [DecidableEq ι] in
/-- A smaller part holds no more threads. -/
theorem count_mono {q : β → Bool} (hpq : ∀ b, p b = true → q b = true) :
    count p f ≤ count q f :=
  Finset.card_le_card fun i hi => by
    rw [Finset.mem_filter] at hi ⊢
    exact ⟨hi.1, hpq _ hi.2⟩

omit [DecidableEq ι] in
theorem count_pos (hi : p (f i) = true) : 0 < count p f :=
  Finset.card_pos.2 ⟨i, by simp [hi]⟩

omit [DecidableEq ι] in
theorem count_eq_zero : count p f = 0 ↔ ∀ i, p (f i) = false := by
  simp [count, Finset.card_eq_zero, Finset.filter_eq_empty_iff]

/-- A thread comes in. -/
theorem count_enter (hi : p (f i) = false) (hb : p b = true) :
    count p (Function.update f i b) = count p f + 1 := by
  have hset : (Finset.univ.filter fun j => p (Function.update f i b j) = true) =
      insert i (Finset.univ.filter fun j => p (f j) = true) := by
    ext j
    by_cases hj : j = i
    · subst hj
      simp [hb]
    · simp [hj]
  rw [count, hset, Finset.card_insert_of_notMem (by simp [hi]), count]

/-- A thread goes out. -/
theorem count_exit (hi : p (f i) = true) (hb : p b = false) :
    count p (Function.update f i b) + 1 = count p f := by
  have h := count_enter (f := Function.update f i b) (i := i) (b := f i)
    (by simpa using hb) hi
  rw [Function.update_idem, Function.update_eq_self] at h
  exact h.symm

/-- A thread moves on one side. -/
theorem count_move (hi : p b = p (f i)) : count p (Function.update f i b) = count p f := by
  have hset : (Finset.univ.filter fun j => p (Function.update f i b j) = true) =
      Finset.univ.filter fun j => p (f j) = true := by
    ext j
    by_cases hj : j = i
    · subst hj
      simp [hi]
    · simp [hj]
  rw [count, hset, count]

/-- The weights of the places where the threads are. -/
def total (w : β → Nat) (f : ι → β) : Nat := ∑ i, w (f i)

/-- One thread moves. -/
theorem total_update (w : β → Nat) (f : ι → β) (i : ι) (b : β) :
    total w (Function.update f i b) + w (f i) = total w f + w b := by
  have hmoved : ∀ j, w (Function.update f i b j) =
      Function.update (fun j => w (f j)) i (w b) j := by
    intro j
    by_cases hj : j = i
    · subst hj
      simp
    · simp [hj]
  have hrest := Finset.sum_erase_add Finset.univ (fun j => w (f j)) (Finset.mem_univ i)
  rw [total, Finset.sum_congr rfl fun j _ => hmoved j,
    Finset.sum_update_of_mem (Finset.mem_univ i), Finset.sdiff_singleton_eq_erase, total, ← hrest]
  omega

omit [DecidableEq ι] in
/-- Every thread gets a little more to do. -/
theorem total_le {w : β → Nat} {f g : ι → β} {n : Nat} (h : ∀ i, w (g i) ≤ w (f i) + n) :
    total w g ≤ total w f + Fintype.card ι * n := by
  calc total w g ≤ ∑ i, (w (f i) + n) := Finset.sum_le_sum fun i _ => h i
    _ = total w f + Fintype.card ι * n := by
      rw [Finset.sum_add_distrib, Finset.sum_const, Finset.card_univ, Nat.nsmul_eq_mul]
      rfl

/-! ## Places in two parts -/

section Pairs

variable {γ : Type}

omit [Fintype ι]

/-- A thread moves, and its other part changes. -/
theorem update_pair (f : ι → β) (g : ι → γ) (i : ι) (b : β) (c : γ) :
    (fun j => (Function.update f i b j, Function.update g i c j)) =
      Function.update (fun j => (f j, g j)) i (b, c) := by
  funext j
  by_cases hj : j = i
  · subst hj
    simp
  · simp [hj]

/-- A thread moves, and its other part stays. -/
theorem update_fst (f : ι → β) (g : ι → γ) (i : ι) (b : β) :
    (fun j => (Function.update f i b j, g j)) =
      Function.update (fun j => (f j, g j)) i (b, g i) := by
  rw [← update_pair, Function.update_eq_self]

/-- A thread stays, and its other part changes. -/
theorem update_snd (f : ι → β) (g : ι → γ) (i : ι) (c : γ) :
    (fun j => (f j, Function.update g i c j)) =
      Function.update (fun j => (f j, g j)) i (f i, c) := by
  rw [← update_pair, Function.update_eq_self]

end Pairs

end ZeroCopyProxy.Verified.Counting
