import Mathlib.Data.List.Basic

/-!
# What happened in a history

A history is the list of the things that have happened, the last one at its
end.  A law about the order of two of them is a law about one entry and what
stands before it: `Occurs p` says that `p` holds of some entry and its past.
A history grows by one entry at a time (`occurs_snoc`), and what has occurred
stays so.
-/

namespace ZeroCopyProxy.Verified.History

variable {ε : Type} {p : List ε → ε → Prop} {l : List ε} {e : ε}

/-- `p` holds of some entry and the entries before it. -/
def Occurs (p : List ε → ε → Prop) (l : List ε) : Prop :=
  ∃ i : Fin l.length, p (l.take i) (l.get i)

instance [∀ l e, Decidable (p l e)] : Decidable (Occurs p l) :=
  inferInstanceAs (Decidable (∃ i : Fin l.length, p (l.take i) (l.get i)))

theorem not_occurs_nil : ¬ Occurs p [] := by
  intro h
  obtain ⟨i, -⟩ := h
  exact Fin.elim0 i

/-- An entry of a longer history, with the same past. -/
theorem Occurs.append (h : Occurs p l) (l' : List ε) : Occurs p (l ++ l') := by
  obtain ⟨i, hp⟩ := h
  have hi : i.val < (l ++ l').length := by
    rw [List.length_append]
    exact Nat.lt_add_right _ i.isLt
  have htake : (l ++ l').take i.val = l.take i.val :=
    List.take_append_of_le_length (Nat.le_of_lt i.isLt)
  have hget : (l ++ l').get ⟨i.val, hi⟩ = l.get i := by
    simp only [List.get_eq_getElem]
    exact List.getElem_append_left i.isLt
  refine ⟨⟨i.val, hi⟩, ?_⟩
  show p ((l ++ l').take i.val) ((l ++ l').get ⟨i.val, hi⟩)
  rw [htake, hget]
  exact hp

/-- The last entry, or one of those before. -/
theorem occurs_snoc : Occurs p (l ++ [e]) ↔ Occurs p l ∨ p l e := by
  have hlen : (l ++ [e]).length = l.length + 1 := List.length_append
  have hlast : (l ++ [e]).get ⟨l.length, by omega⟩ = e := by
    simp only [List.get_eq_getElem, List.getElem_concat_length]
  constructor
  · intro h
    obtain ⟨i, hp⟩ := h
    by_cases hi : i.val < l.length
    · have htake : (l ++ [e]).take i.val = l.take i.val :=
        List.take_append_of_le_length (Nat.le_of_lt hi)
      have hget : (l ++ [e]).get i = l.get ⟨i.val, hi⟩ := by
        simp only [List.get_eq_getElem]
        exact List.getElem_append_left hi
      rw [htake, hget] at hp
      exact .inl ⟨⟨i.val, hi⟩, hp⟩
    · have hval : i.val = l.length := by omega
      have hend : i = ⟨l.length, by omega⟩ := Fin.ext hval
      rw [hend, hlast, List.take_left] at hp
      exact .inr hp
  · intro h
    rcases h with h | hp
    · exact h.append [e]
    · refine ⟨⟨l.length, by omega⟩, ?_⟩
      show p ((l ++ [e]).take l.length) ((l ++ [e]).get ⟨l.length, by omega⟩)
      rw [hlast, List.take_left]
      exact hp

end ZeroCopyProxy.Verified.History
