import ZeroCopyProxy.Verified.Resumption

/-!
# Preconditions with a condition on faults

`wp` rules a fault out and `wlp` says nothing about it.  A law that is an
equivalence, such as "the thread faults exactly if this has happened", needs a
postcondition of its own for a fault: `fwp` has one.  A partial operation then
splits a proof in two, and both halves count.
-/

namespace ZeroCopyProxy.Verified.Faults

open ZeroCopyProxy.Verified.Resumption

variable {S Op Ans α β W : Type}

/-- Whatever the kernel answers, the thread issues only calls that satisfy
`P`, ends only where `Q` holds, and faults only where `F` holds. -/
def fwp (K : W → S → Op → Ans → W → Prop) (P : W → S → Op → Prop) (Q : W → S → α → Prop)
    (F : W → S → Prop) : Res S Op Ans α → W → Prop
  | .done s a, w => Q w s a
  | .call s op k, w => P w s op ∧ ∀ r w', K w s op r w' → fwp K P Q F (k r) w'
  | .fault s, w => F w s

section Rules

variable {K : W → S → Op → Ans → W → Prop} {P : W → S → Op → Prop}
  {Q : W → S → α → Prop} {F : W → S → Prop}

/-- Sequencing; a fault of the first part is a fault of the whole. -/
theorem fwp_res_bind {Q : W → S → β → Prop} (r : Res S Op Ans α)
    (f : S → α → Res S Op Ans β) (w : W) :
    fwp K P Q F (r.bind f) w ↔ fwp K P (fun w' s' a => fwp K P Q F (f s' a) w') F r w := by
  induction r generalizing w with
  | done s a => exact Iff.rfl
  | call s op k ih =>
      exact and_congr Iff.rfl (forall_congr' fun r => forall_congr' fun w' =>
        imp_congr Iff.rfl (ih r w'))
  | fault s => exact Iff.rfl

@[simp] theorem fwp_bind {Q : W → S → β → Prop} (p : Prog S Op Ans α)
    (f : α → Prog S Op Ans β) (s : S) (w : W) :
    fwp K P Q F ((p >>= f) s) w ↔
      fwp K P (fun w' s' a => fwp K P Q F (f a s') w') F (p s) w :=
  fwp_res_bind (p s) (fun s' a => f a s') w

@[simp] theorem fwp_pure (a : α) (s : S) (w : W) :
    fwp K P Q F ((pure a : Prog S Op Ans α) s) w ↔ Q w s a := Iff.rfl

@[simp] theorem fwp_state {Q : W → S → S → Prop} (s : S) (w : W) :
    fwp K P Q F ((Prog.state : Prog S Op Ans S) s) w ↔ Q w s s := Iff.rfl

@[simp] theorem fwp_update {Q : W → S → Unit → Prop} (f : S → S) (s : S) (w : W) :
    fwp K P Q F ((Prog.update f : Prog S Op Ans Unit) s) w ↔ Q w (f s) () := Iff.rfl

@[simp] theorem fwp_prog_call {Q : W → S → Ans → Prop} (op : Op) (s : S) (w : W) :
    fwp K P Q F ((Prog.call op : Prog S Op Ans Ans) s) w ↔
      P w s op ∧ ∀ r w', K w s op r w' → Q w' s r := Iff.rfl

/-- A partial operation inside its domain. -/
theorem fwp_orFault_some {o : Option α} {a : α} (ho : o = some a) (s : S) (w : W) :
    fwp K P Q F ((Prog.orFault o : Prog S Op Ans α) s) w ↔ Q w s a := by
  rw [ho]
  exact Iff.rfl

/-- A partial operation outside its domain. -/
theorem fwp_orFault_none {o : Option α} (ho : o = none) (s : S) (w : W) :
    fwp K P Q F ((Prog.orFault o : Prog S Op Ans α) s) w ↔ F w s := by
  rw [ho]
  exact Iff.rfl

@[simp] theorem fwp_ite (c : Prop) [Decidable c] (p q : Prog S Op Ans α) (s : S)
    (w : W) :
    fwp K P Q F ((if c then p else q) s) w ↔
      (c → fwp K P Q F (p s) w) ∧ (¬ c → fwp K P Q F (q s) w) := by
  by_cases hc : c <;> simp [hc]

end Rules

section Run

variable {E : Type} {K : W → S → Op → Ans → W → Prop} {body : E → Prog S Op Ans α}
  {again : α → Bool} {P : W → S → Op → Prop} {Q : W → S → α → Prop} {F : W → S → Prop}

/-- Whole runs. -/
theorem fwp_reach (hbody : ∀ e w s a, again a = true → Q w s a → fwp K P Q F (body e s) w)
    {c c' : Config W S Op Ans α} (hr : Reach K body again c c')
    (h : fwp K P Q F c.node c.world) : fwp K P Q F c'.node c'.world := by
  induction hr with
  | refl => exact h
  | tail _ hs ih =>
      cases hs with
      | start e ha => exact hbody e _ _ _ ha ih
      | answer hk => exact ih.2 _ _ hk

end Run

end ZeroCopyProxy.Verified.Faults
