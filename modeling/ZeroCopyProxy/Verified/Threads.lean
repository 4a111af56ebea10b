import ZeroCopyProxy.Verified.Resumption
import Mathlib.Logic.Function.Basic

/-!
# Threads over a shared world

A pool runs any number of threads.  A step is an event or an answer for one
thread, or a step of the environment; the kernel sees the whole pool, so that
a condition on when a thread may take a step is part of the kernel.

Thread-modular reasoning rests on `thread_reach`: where each thread has a view
of the world that only its own answers change, a run of the pool is, seen
through that view, a run of the thread alone.  Everything proved of one thread
then holds of every thread of the pool, and what is left to prove about the
pool is how the views fit together.
-/

namespace ZeroCopyProxy.Verified.Threads

open ZeroCopyProxy.Verified.Resumption

/-- Threads with the world they share. -/
structure Pool (ι W S Op Ans α : Type) where
  world : W
  node : ι → Res S Op Ans α

variable {ι W V S Op Ans α E : Type} [DecidableEq ι]

/-- One thread, with what it sees of the world. -/
def Pool.thread (view : ι → W → V) (i : ι) (c : Pool ι W S Op Ans α) :
    Config V S Op Ans α :=
  ⟨view i c.world, c.node i⟩

/-- One step of a pool: some thread begins an event or gets the answer to its
call, or the environment changes the world. -/
inductive Pool.Step (K : Pool ι W S Op Ans α → ι → Op → Ans → W → Prop)
    (N : W → W → Prop) (body : E → Prog S Op Ans α) (again : α → Bool) :
    Pool ι W S Op Ans α → Pool ι W S Op Ans α → Prop
  | start {c : Pool ι W S Op Ans α} {s : S} {a : α} (i : ι) (e : E)
      (hn : c.node i = .done s a) (ha : again a = true) :
      Step K N body again c ⟨c.world, Function.update c.node i (body e s)⟩
  | answer {c : Pool ι W S Op Ans α} {s : S} {op : Op} {k : Ans → Res S Op Ans α}
      {r : Ans} {w' : W} (i : ι) (hn : c.node i = .call s op k) (hk : K c i op r w') :
      Step K N body again c ⟨w', Function.update c.node i (k r)⟩
  | outside {c : Pool ι W S Op Ans α} {w' : W} (hw : N c.world w') :
      Step K N body again c ⟨w', c.node⟩

/-- The states a pool passes through. -/
def Pool.Reach (K : Pool ι W S Op Ans α → ι → Op → Ans → W → Prop) (N : W → W → Prop)
    (body : E → Prog S Op Ans α) (again : α → Bool) :
    Pool ι W S Op Ans α → Pool ι W S Op Ans α → Prop :=
  Relation.ReflTransGen (Pool.Step K N body again)

section Run

variable {K : Pool ι W S Op Ans α → ι → Op → Ans → W → Prop} {N : W → W → Prop}
  {body : E → Prog S Op Ans α} {again : α → Bool} {c₀ c : Pool ι W S Op Ans α}

/-- A step of the pool is a step of the thread, or does not concern it. -/
theorem thread_step (view : ι → W → V) {K₁ : ι → V → Op → Ans → V → Prop}
    (hK : ∀ c i op r w', K c i op r w' → K₁ i (view i c.world) op r (view i w') ∧
      ∀ j, j ≠ i → view j w' = view j c.world)
    (hN : ∀ w w', N w w' → ∀ i, view i w' = view i w)
    {c' : Pool ι W S Op Ans α} (h : Pool.Step K N body again c c') (i : ι) :
    c'.thread view i = c.thread view i ∨
      Step (blind (K₁ i)) body again (c.thread view i) (c'.thread view i) := by
  cases h with
  | start j e hn ha =>
      by_cases hij : i = j
      · subst hij
        refine .inr ?_
        simp only [Pool.thread, Function.update_self, hn]
        exact .start e ha
      · refine .inl ?_
        simp only [Pool.thread, Function.update_of_ne hij]
  | answer j hn hk =>
      obtain ⟨hown, hothers⟩ := hK _ _ _ _ _ hk
      by_cases hij : i = j
      · subst hij
        refine .inr ?_
        simp only [Pool.thread, Function.update_self, hn]
        exact .answer hown
      · refine .inl ?_
        simp only [Pool.thread, Function.update_of_ne hij, hothers i hij]
  | outside hw =>
      refine .inl ?_
      simp only [Pool.thread, hN _ _ hw i]

/-- **Threads run alone.**  Seen through the view of one thread, a run of the
pool is a run of that thread. -/
theorem thread_reach (view : ι → W → V) {K₁ : ι → V → Op → Ans → V → Prop}
    (hK : ∀ c i op r w', K c i op r w' → K₁ i (view i c.world) op r (view i w') ∧
      ∀ j, j ≠ i → view j w' = view j c.world)
    (hN : ∀ w w', N w w' → ∀ i, view i w' = view i w)
    (hr : Pool.Reach K N body again c₀ c) (i : ι) :
    Reach (blind (K₁ i)) body again (c₀.thread view i) (c.thread view i) := by
  induction hr with
  | refl => exact .refl
  | tail _ hs ih =>
      rcases thread_step view hK hN hs i with heq | hstep
      · rw [heq]
        exact ih
      · exact ih.tail hstep

/-- An invariant may be proved with what is known of the states reached. -/
theorem reach_invariant {I : Pool ι W S Op Ans α → Prop}
    (hstep : ∀ {c c'}, Pool.Reach K N body again c₀ c → I c →
      Pool.Step K N body again c c' → I c')
    (hr : Pool.Reach K N body again c₀ c) (h : I c₀) : I c := by
  induction hr with
  | refl => exact h
  | tail hr hs ih => exact hstep hr ih hs

end Run

/-! ## Running a pool on given actions -/

/-- What happens next in a pool. -/
inductive PoolAct (ι E Ans M : Type) where
  | event (i : ι) (e : E)
  | answer (i : ι) (r : Ans)
  | outside (m : M)

section Exec

variable {M : Type} (deliver : Pool ι W S Op Ans α → ι → Op → Ans → Option W)
  (outside : M → W → Option W) (body : E → Prog S Op Ans α) (again : α → Bool)

/-- One action, where the world takes it. -/
def Pool.act (c : Pool ι W S Op Ans α) : PoolAct ι E Ans M →
    Option (Pool ι W S Op Ans α)
  | .event i e =>
    match c.node i with
    | .done s a =>
      if again a then some ⟨c.world, Function.update c.node i (body e s)⟩ else none
    | _ => none
  | .answer i r =>
    match c.node i with
    | .call _ op k =>
      (deliver c i op r).map fun w' => ⟨w', Function.update c.node i (k r)⟩
    | _ => none
  | .outside m => (outside m c.world).map fun w' => ⟨w', c.node⟩

/-- A list of actions. -/
def Pool.exec : List (PoolAct ι E Ans M) → Pool ι W S Op Ans α →
    Option (Pool ι W S Op Ans α)
  | [], c => some c
  | a :: as, c => (c.act deliver outside body again a).bind (Pool.exec as)

variable {deliver} {outside} {body} {again}
  {K : Pool ι W S Op Ans α → ι → Op → Ans → W → Prop} {N : W → W → Prop}

theorem step_of_act (hK : ∀ c i op r w', deliver c i op r = some w' → K c i op r w')
    (hN : ∀ m w w', outside m w = some w' → N w w') {a : PoolAct ι E Ans M}
    {c c' : Pool ι W S Op Ans α} (h : c.act deliver outside body again a = some c') :
    Pool.Step K N body again c c' := by
  cases a with
  | event i e =>
      simp only [Pool.act] at h
      split at h
      · next s b hn =>
          split at h
          · next ha =>
              cases h
              exact .start i e hn ha
          · cases h
      · cases h
  | answer i r =>
      simp only [Pool.act] at h
      split at h
      · next s op k hn =>
          rw [Option.map_eq_some_iff] at h
          obtain ⟨w', hw, rfl⟩ := h
          exact .answer i hn (hK _ _ _ _ _ hw)
      · cases h
  | outside m =>
      simp only [Pool.act, Option.map_eq_some_iff] at h
      obtain ⟨w', hw, rfl⟩ := h
      exact .outside (hN _ _ _ hw)

/-- A list of actions that the world takes is a run of the pool. -/
theorem reach_of_exec (hK : ∀ c i op r w', deliver c i op r = some w' → K c i op r w')
    (hN : ∀ m w w', outside m w = some w' → N w w') {as : List (PoolAct ι E Ans M)}
    {c c' : Pool ι W S Op Ans α} (h : c.exec deliver outside body again as = some c') :
    Pool.Reach K N body again c c' := by
  induction as generalizing c with
  | nil =>
      cases h
      exact .refl
  | cons a as ih =>
      simp only [Pool.exec, Option.bind_eq_some_iff] at h
      obtain ⟨c₁, h₁, h₂⟩ := h
      exact .head (step_of_act hK hN h₁) (ih h₂)

/-- A run of the pool on given actions that ends where `p` holds. -/
theorem exists_reach_of_exec
    (deliver : Pool ι W S Op Ans α → ι → Op → Ans → Option W)
    (outside : M → W → Option W)
    (hK : ∀ c i op r w', deliver c i op r = some w' → K c i op r w')
    (hN : ∀ m w w', outside m w = some w' → N w w') (as : List (PoolAct ι E Ans M))
    {c : Pool ι W S Op Ans α} (p : Pool ι W S Op Ans α → Prop) [DecidablePred p]
    (h : (c.exec deliver outside body again as).any (fun c' => decide (p c')) = true) :
    ∃ c', Pool.Reach K N body again c c' ∧ p c' := by
  rw [Option.any_eq_true] at h
  obtain ⟨c', hc, hp⟩ := h
  exact ⟨c', reach_of_exec hK hN hc, of_decide_eq_true hp⟩

end Exec

end ZeroCopyProxy.Verified.Threads
