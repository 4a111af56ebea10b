import ZeroCopyProxy.Verified.Beside

/-!
# Two programs over one world

A pair runs two different programs, such as the two ends of a connection.  A
step of the pair is a step of one of them, so a run of the pair is any
interleaving of their steps.

Each of the two is a program beside the other one (`Beside`).  `left_reach` is
the law of the left one: it runs in the pair as it runs against any peer that
may give it the same answers.
-/

namespace ZeroCopyProxy.Verified.Pairs

open ZeroCopyProxy.Verified.Resumption
open ZeroCopyProxy.Verified.Beside (reach_invariant)

/-- A program with the answers it may get in a world. -/
structure Party (W S Op Ans α E : Type) where
  kernel : W → Op → Ans → W → Prop
  body : E → Prog S Op Ans α
  again : α → Bool

variable {W S T Op Cp Ans Bns α β E F V : Type}

/-- Two running programs and the world they share. -/
structure Pair (W S Op Ans α T Cp Bns β : Type) where
  world : W
  left : Res S Op Ans α
  right : Res T Cp Bns β

/-- One step of a pair is a step of one of the two. -/
inductive Pair.Step (L : Party W S Op Ans α E) (R : Party W T Cp Bns β F) :
    Pair W S Op Ans α T Cp Bns β → Pair W S Op Ans α T Cp Bns β → Prop
  | left {w w' : W} {l l' : Res S Op Ans α} {r : Res T Cp Bns β}
      (h : Resumption.Step (blind L.kernel) L.body L.again ⟨w, l⟩ ⟨w', l'⟩) :
      Step L R ⟨w, l, r⟩ ⟨w', l', r⟩
  | right {w w' : W} {l : Res S Op Ans α} {r r' : Res T Cp Bns β}
      (h : Resumption.Step (blind R.kernel) R.body R.again ⟨w, r⟩ ⟨w', r'⟩) :
      Step L R ⟨w, l, r⟩ ⟨w', l, r'⟩

/-- The states a pair passes through. -/
def Pair.Reach (L : Party W S Op Ans α E) (R : Party W T Cp Bns β F) :
    Pair W S Op Ans α T Cp Bns β → Pair W S Op Ans α T Cp Bns β → Prop :=
  Relation.ReflTransGen (Pair.Step L R)

section Run

variable {L : Party W S Op Ans α E} {R : Party W T Cp Bns β F}
  {c₀ c c' : Pair W S Op Ans α T Cp Bns β}

/-- What every answer keeps of the world. -/
theorem world_reach {I : W → Prop} (hL : ∀ w op r w', I w → L.kernel w op r w' → I w')
    (hR : ∀ w op r w', I w → R.kernel w op r w' → I w') (hr : Pair.Reach L R c₀ c)
    (h : I c₀.world) : I c.world := by
  refine reach_invariant (I := fun c => I c.world) (fun _ hi hs => ?_) hr h
  cases hs with
  | left hs =>
      cases hs with
      | start e ha => exact hi
      | answer hk => exact hL _ _ _ _ hi hk
  | right hs =>
      cases hs with
      | start e ha => exact hi
      | answer hk => exact hR _ _ _ _ hi hk

/-- A step of a pair as the left program sees it. -/
theorem left_seen (h : Pair.Step L R c c') :
    Beside.Step L.kernel (fun w w' => w = w' ∨ ∃ op r, R.kernel w op r w') L.body L.again
      ⟨c.world, c.left⟩ ⟨c'.world, c'.left⟩ := by
  cases h with
  | left h => exact .own h
  | right h =>
      cases h with
      | start e ha => exact .env (.inl rfl)
      | answer hk => exact .env (.inr ⟨_, _, hk⟩)

/-- **One side of a pair.**  If the answers to the left program are answers of
another kernel `K`, whose world `v` is related to that of the pair, and the
answers to the right program keep this relation, then the left program runs in
the pair as it runs under `K`. -/
theorem left_reach {K : V → Op → Ans → V → Prop} {v₀ : V} (A : W → V → Prop)
    (hleft : ∀ {c : Pair W S Op Ans α T Cp Bns β} {s op k r w' v}, Pair.Reach L R c₀ c →
      Resumption.Reach (blind K) L.body L.again ⟨v₀, c₀.left⟩ ⟨v, c.left⟩ → A c.world v →
      c.left = .call s op k → L.kernel c.world op r w' → ∃ v', K v op r v' ∧ A w' v')
    (hright : ∀ {w op r w' v}, A w v → R.kernel w op r w' → A w' v)
    (hr : Pair.Reach L R c₀ c) (h : A c₀.world v₀) :
    ∃ v, Resumption.Reach (blind K) L.body L.again ⟨v₀, c₀.left⟩ ⟨v, c.left⟩ ∧
      A c.world v := by
  refine Beside.own_reach
    (fun c : Pair W S Op Ans α T Cp Bns β => (⟨c.world, c.left⟩ : Config W S Op Ans α))
    left_seen A hleft ?_ hr h
  rintro w w' v hv (rfl | ⟨op, r, hk⟩)
  · exact hv
  · exact hright hv hk

/-- Parties that may get more answers have more runs. -/
theorem Pair.Reach.mono {K : W → Op → Ans → W → Prop} {K' : W → Cp → Bns → W → Prop}
    (hL : ∀ w op r w', L.kernel w op r w' → K w op r w')
    (hR : ∀ w op r w', R.kernel w op r w' → K' w op r w') (hr : Pair.Reach L R c₀ c) :
    Pair.Reach ⟨K, L.body, L.again⟩ ⟨K', R.body, R.again⟩ c₀ c := by
  induction hr with
  | refl => exact .refl
  | tail _ hs ih =>
      cases hs with
      | left hs =>
          cases hs with
          | start e ha => exact ih.tail (.left (.start e ha))
          | answer hk => exact ih.tail (.left (.answer (hL _ _ _ _ hk)))
      | right hs =>
          cases hs with
          | start e ha => exact ih.tail (.right (.start e ha))
          | answer hk => exact ih.tail (.right (.answer (hR _ _ _ _ hk)))

end Run

/-! ## Runs that exist -/

section Exist

variable {L : Party W S Op Ans α E} {R : Party W T Cp Bns β F}

/-- A run of the left side, during which the right one stands still. -/
theorem reach_of_left {w w' : W} {l l' : Res S Op Ans α} {r : Res T Cp Bns β}
    (hr : Resumption.Reach (blind L.kernel) L.body L.again ⟨w, l⟩ ⟨w', l'⟩) :
    Pair.Reach L R ⟨w, l, r⟩ ⟨w', l', r⟩ := by
  have hall : ∀ c : Config W S Op Ans α,
      Resumption.Reach (blind L.kernel) L.body L.again ⟨w, l⟩ c →
      Pair.Reach L R ⟨w, l, r⟩ ⟨c.world, c.node, r⟩ := by
    intro c hc
    induction hc with
    | refl => exact .refl
    | tail _ hs ih => exact ih.tail (.left hs)
  exact hall ⟨w', l'⟩ hr

/-- A run of the right side, during which the left one stands still. -/
theorem reach_of_right {w w' : W} {l : Res S Op Ans α} {r r' : Res T Cp Bns β}
    (hr : Resumption.Reach (blind R.kernel) R.body R.again ⟨w, r⟩ ⟨w', r'⟩) :
    Pair.Reach L R ⟨w, l, r⟩ ⟨w', l, r'⟩ := by
  have hall : ∀ c : Config W T Cp Bns β,
      Resumption.Reach (blind R.kernel) R.body R.again ⟨w, r⟩ c →
      Pair.Reach L R ⟨w, l, r⟩ ⟨c.world, l, c.node⟩ := by
    intro c hc
    induction hc with
    | refl => exact .refl
    | tail _ hs ih => exact ih.tail (.right hs)
  exact hall ⟨w', r'⟩ hr

/-- The next action of a pair. -/
abbrev PairAct (E Ans F Bns : Type) : Type := Act E Ans ⊕ Act F Bns

variable (giveL : W → Op → Ans → Option W) (giveR : W → Cp → Bns → Option W)
  (bodyL : E → Prog S Op Ans α) (bodyR : F → Prog T Cp Bns β) (againL : α → Bool)
  (againR : β → Bool)

/-- One action, where the world takes it. -/
def Pair.act (c : Pair W S Op Ans α T Cp Bns β) :
    PairAct E Ans F Bns → Option (Pair W S Op Ans α T Cp Bns β)
  | .inl a => ((⟨c.world, c.left⟩ : Config W S Op Ans α).act (fun w _ => giveL w) bodyL
      againL a).map fun d => ⟨d.world, d.node, c.right⟩
  | .inr a => ((⟨c.world, c.right⟩ : Config W T Cp Bns β).act (fun w _ => giveR w) bodyR
      againR a).map fun d => ⟨d.world, c.left, d.node⟩

/-- A list of actions. -/
def Pair.exec : List (PairAct E Ans F Bns) → Pair W S Op Ans α T Cp Bns β →
    Option (Pair W S Op Ans α T Cp Bns β)
  | [], c => some c
  | a :: as, c => (c.act giveL giveR bodyL bodyR againL againR a).bind (Pair.exec as)

variable {giveL giveR bodyL bodyR againL againR}

/-- The party that gets the answers of a function. -/
def partyOf (give : W → Op → Ans → Option W) (body : E → Prog S Op Ans α)
    (again : α → Bool) : Party W S Op Ans α E :=
  ⟨fun w op r w' => give w op r = some w', body, again⟩

theorem step_of_act {c c' : Pair W S Op Ans α T Cp Bns β} {a : PairAct E Ans F Bns}
    (h : c.act giveL giveR bodyL bodyR againL againR a = some c') :
    Pair.Step (partyOf giveL bodyL againL) (partyOf giveR bodyR againR) c c' := by
  cases a with
  | inl a =>
      obtain ⟨d, hd, rfl⟩ := Option.map_eq_some_iff.1 h
      exact .left (Resumption.step_of_act id hd)
  | inr a =>
      obtain ⟨d, hd, rfl⟩ := Option.map_eq_some_iff.1 h
      exact .right (Resumption.step_of_act id hd)

/-- A run of a pair on given actions that ends where `p` holds. -/
theorem exists_reach_of_exec (as : List (PairAct E Ans F Bns))
    {c : Pair W S Op Ans α T Cp Bns β} (p : Pair W S Op Ans α T Cp Bns β → Prop)
    [DecidablePred p]
    (h : (Pair.exec giveL giveR bodyL bodyR againL againR as c).any
      (fun c' => decide (p c')) = true) :
    ∃ c', Pair.Reach (partyOf giveL bodyL againL) (partyOf giveR bodyR againR) c c' ∧
      p c' := by
  rw [Option.any_eq_true] at h
  obtain ⟨c', hc, hp⟩ := h
  refine ⟨c', ?_, of_decide_eq_true hp⟩
  induction as generalizing c with
  | nil =>
      cases hc
      exact .refl
  | cons a as ih =>
      simp only [Pair.exec, Option.bind_eq_some_iff] at hc
      obtain ⟨c₁, h₁, h₂⟩ := hc
      exact .head (step_of_act h₁) (ih h₂)

end Exist

end ZeroCopyProxy.Verified.Pairs
