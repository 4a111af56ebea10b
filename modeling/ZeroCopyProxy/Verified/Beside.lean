import ZeroCopyProxy.Verified.Resumption

/-!
# A program beside others

The world of a program is changed by others between its own steps.  `Step` is
a step of such a system as the program sees it: one of its own, or one that
changes the world and leaves the program where it is.

What a program does is usually proved of that program alone, against a peer
that is described by the answers it gives.  `own_reach` puts such a proof to
use: as long as every answer the system gives is one that the described peer
may give, the program runs in the system as it runs against that peer.  The
answer may be judged with everything known of the run so far, the run of the
program alone included, which is how the parts of a system may rely on each
other.
-/

namespace ZeroCopyProxy.Verified.Beside

open ZeroCopyProxy.Verified.Resumption

variable {C W S Op Ans α E V M : Type}

/-- One step of a system as a program in it sees it. -/
inductive Step (K : W → Op → Ans → W → Prop) (env : W → W → Prop) (body : E → Prog S Op Ans α)
    (again : α → Bool) : Config W S Op Ans α → Config W S Op Ans α → Prop
  | own {c c' : Config W S Op Ans α} (h : Resumption.Step (blind K) body again c c') :
      Step K env body again c c'
  | env {w w' : W} {n : Res S Op Ans α} (h : env w w') : Step K env body again ⟨w, n⟩ ⟨w', n⟩

/-- The configurations a program passes through in such a system. -/
def Reach (K : W → Op → Ans → W → Prop) (env : W → W → Prop) (body : E → Prog S Op Ans α)
    (again : α → Bool) : Config W S Op Ans α → Config W S Op Ans α → Prop :=
  Relation.ReflTransGen (Step K env body again)

/-- An invariant may be proved with what is known of the states reached. -/
theorem reach_invariant {step : C → C → Prop} {I : C → Prop} {c₀ c : C}
    (hstep : ∀ {c c'}, Relation.ReflTransGen step c₀ c → I c → step c c' → I c')
    (hr : Relation.ReflTransGen step c₀ c) (h : I c₀) : I c := by
  induction hr with
  | refl => exact h
  | tail hr hs ih => exact hstep hr ih hs

section Run

variable {K : W → Op → Ans → W → Prop} {env : W → W → Prop} {body : E → Prog S Op Ans α}
  {again : α → Bool}

/-- One step, where the answers to the program are answers of another kernel
`K'`, whose world `v` is related to that of the system. -/
theorem own_step {K' : V → Op → Ans → V → Prop} {R : W → V → Prop} {v₀ v : V}
    {n₀ : Res S Op Ans α} {c c' : Config W S Op Ans α}
    (hown : ∀ {s op k r w'}, c.node = .call s op k → K c.world op r w' →
      ∃ v', K' v op r v' ∧ R w' v')
    (henv : ∀ {w w' v}, R w v → env w w' → R w' v)
    (hrun : Resumption.Reach (blind K') body again ⟨v₀, n₀⟩ ⟨v, c.node⟩) (h : R c.world v)
    (hs : Step K env body again c c') :
    ∃ v', Resumption.Reach (blind K') body again ⟨v₀, n₀⟩ ⟨v', c'.node⟩ ∧ R c'.world v' := by
  cases hs with
  | own hs =>
      cases hs with
      | start e ha => exact ⟨v, hrun.tail (.start e ha), h⟩
      | answer hk =>
          obtain ⟨v', hk', h'⟩ := hown rfl hk
          exact ⟨v', hrun.tail (.answer hk'), h'⟩
  | env he => exact ⟨v, hrun, henv h he⟩

/-- **One program of a system.**  If the answers to it are answers of another
kernel, and the others keep the worlds related, then it runs in the system as
it runs under that kernel. -/
theorem own_reach {step : C → C → Prop} (view : C → Config W S Op Ans α)
    (hview : ∀ {c c'}, step c c' → Step K env body again (view c) (view c'))
    {K' : V → Op → Ans → V → Prop} {v₀ : V} {c₀ c : C} (R : W → V → Prop)
    (hown : ∀ {c s op k r w' v}, Relation.ReflTransGen step c₀ c →
      Resumption.Reach (blind K') body again ⟨v₀, (view c₀).node⟩ ⟨v, (view c).node⟩ →
      R (view c).world v → (view c).node = .call s op k → K (view c).world op r w' →
        ∃ v', K' v op r v' ∧ R w' v')
    (henv : ∀ {w w' v}, R w v → env w w' → R w' v)
    (hr : Relation.ReflTransGen step c₀ c) (h : R (view c₀).world v₀) :
    ∃ v, Resumption.Reach (blind K') body again ⟨v₀, (view c₀).node⟩ ⟨v, (view c).node⟩ ∧
      R (view c).world v := by
  induction hr with
  | refl => exact ⟨v₀, .refl, h⟩
  | tail hr hs ih =>
      obtain ⟨v, hrun, hv⟩ := ih
      exact own_step (hown hr hrun hv) henv hrun hv (hview hs)

/-- What the answers and the others keep of the world. -/
theorem world_reach {I : W → Prop} (hown : ∀ w op r w', I w → K w op r w' → I w')
    (henv : ∀ w w', I w → env w w' → I w') {c₀ c : Config W S Op Ans α}
    (hr : Reach K env body again c₀ c) (h : I c₀.world) : I c.world := by
  refine reach_invariant (I := fun c => I c.world) (fun _ hi hs => ?_) hr h
  cases hs with
  | own hs =>
      cases hs with
      | start e ha => exact hi
      | answer hk => exact hown _ _ _ _ hi hk
  | env he => exact henv _ _ hi he

/-- A run in which the program takes no step. -/
theorem reach_of_env {w w' : W} {n : Res S Op Ans α} (hr : Relation.ReflTransGen env w w') :
    Reach K env body again ⟨w, n⟩ ⟨w', n⟩ := by
  induction hr with
  | refl => exact .refl
  | tail _ he ih => exact ih.tail (.env he)

end Run

/-! ## Runs on given actions -/

section Exec

variable (give : W → Op → Ans → Option W) (move : M → W → Option W) (body : E → Prog S Op Ans α)
  (again : α → Bool)

/-- A list of actions of the program and of the others, where the world takes
them. -/
def exec : List (Act E Ans ⊕ M) → Config W S Op Ans α → Option (Config W S Op Ans α)
  | [], c => some c
  | .inl a :: as, c => (c.act (fun w _ => give w) body again a).bind (exec as)
  | .inr m :: as, c => (move m c.world).bind fun w => exec as ⟨w, c.node⟩

variable {give move body again}

/-- A run on given actions that ends where `p` holds. -/
theorem exists_reach_of_exec {env : W → W → Prop}
    (henv : ∀ {m w w'}, move m w = some w' → env w w') (as : List (Act E Ans ⊕ M))
    {c : Config W S Op Ans α} (p : Config W S Op Ans α → Prop) [DecidablePred p]
    (h : (exec give move body again as c).any (fun c' => decide (p c')) = true) :
    ∃ c', Reach (fun w op r w' => give w op r = some w') env body again c c' ∧ p c' := by
  rw [Option.any_eq_true] at h
  obtain ⟨c', hc, hp⟩ := h
  refine ⟨c', ?_, of_decide_eq_true hp⟩
  clear hp
  induction as generalizing c with
  | nil =>
      cases hc
      exact .refl
  | cons a as ih =>
      cases a with
      | inl a =>
          simp only [exec, Option.bind_eq_some_iff] at hc
          obtain ⟨c₁, h₁, h₂⟩ := hc
          exact .head (.own (step_of_act id h₁)) (ih h₂)
      | inr m =>
          simp only [exec, Option.bind_eq_some_iff] at hc
          obtain ⟨w, h₁, h₂⟩ := hc
          exact .head (.env (henv h₁)) (ih h₂)

end Exec

end ZeroCopyProxy.Verified.Beside
