import ZeroCopyProxy.Verified.Stages

/-!
# A program inside a larger one

The loop of a larger program runs a smaller one again and again.  The state of
the smaller one is a part `put s` of its own, the calls `f op` are some of its
own, and between two runs of the smaller one it makes others.

Where the two kernels agree on the calls they share, the smaller program runs
inside the larger one only as it does alone (`wp_inside`), and whatever it can
do alone it can do inside (`reach_inside`).
-/

namespace ZeroCopyProxy.Verified.Inside

open ZeroCopyProxy.Verified.Resumption
open ZeroCopyProxy.Verified.Stages
open ZeroCopyProxy.Verified.Transitions (unconditional)

variable {S T Op Op' Ans α β E V W : Type} {k : W → S → Op → Ans → W → Prop}
  {body : E → Prog S Op Ans α} {again : α → Bool} (put : S → T) (f : Op → Op')

/-- Sequencing twice. -/
theorem bind_assoc {γ : Type} (n : Res S Op Ans α) (g : S → α → Res S Op Ans β)
    (h : S → β → Res S Op Ans γ) : (n.bind g).bind h = n.bind fun s a => (g s a).bind h := by
  induction n with
  | done s a => rfl
  | call s op rest ih => exact congrArg (Res.call s op) (funext ih)
  | fault s => rfl

/-- Every configuration of the smaller program inside the larger one is one of
its own runs. -/
theorem wp_inside {K : V → T → Op' → Ans → V → Prop} (R : V → W → Prop)
    {c₀ : Config W S Op Ans α}
    (hK : ∀ {v v' w s op r rest}, Reach k body again c₀ ⟨w, .call s op rest⟩ → R v w →
      K v (put s) (f op) r v' → ∃ w', k w s op r w' ∧ R v' w')
    (hsafe : ∀ {c}, Reach k body again c₀ c → c.node.faulted = false)
    {n : Res S Op Ans α} {v : V} {w : W} (h : R v w) (hr : Reach k body again c₀ ⟨w, n⟩) :
    wp K
      (fun v t op' => ∃ w s op rest, t = put s ∧ op' = f op ∧ R v w ∧
        Reach k body again c₀ ⟨w, .call s op rest⟩)
      (fun v t a => ∃ w s, t = put s ∧ R v w ∧ Reach k body again c₀ ⟨w, .done s a⟩)
      ((n.lift put).hoist f) v := by
  induction n generalizing v w with
  | done s a => exact ⟨w, s, rfl, h, hr⟩
  | call s op rest ih =>
      refine ⟨⟨w, s, op, rest, rfl, rfl, h, hr⟩, fun r v' hk => ?_⟩
      obtain ⟨w', hk', h'⟩ := hK hr h hk
      exact ih r h' (hr.tail (.answer hk'))
  | fault s => exact Bool.noConfusion (hsafe hr)

section Stages

variable {deliver : V → T → Op' → Ans → Option V} {stage : β → Prog T Op' Ans β}
  {goes : β → Bool} (next : T → α → Res T Op' Ans β) (R : V → W → Prop)

/-- A run of the smaller program is one of the larger program, if that can
begin every run of the smaller one where it continues as `next` behind the
last. -/
theorem reach_inside
    (hanswer : ∀ {v w w' s op r}, R v w → k w s op r w' →
      ∃ v', deliver v (put s) (f op) r = some v' ∧ R v' w')
    (hstart : ∀ {v w s a} (e : E), R v w → again a = true → ∃ v',
      Transitions.Reach (stageStep deliver stage goes) unconditional ⟨v, next (put s) a⟩
        ⟨v', (((body e s).lift put).hoist f).bind next⟩ ∧ R v' w)
    {c c' : Config W S Op Ans α} (hr : Reach k body again c c') {v : V} (h : R v c.world) :
    ∃ v', Transitions.Reach (stageStep deliver stage goes) unconditional
      ⟨v, ((c.node.lift put).hoist f).bind next⟩
      ⟨v', ((c'.node.lift put).hoist f).bind next⟩ ∧ R v' c'.world := by
  induction hr with
  | refl => exact ⟨v, .refl, h⟩
  | tail _ hs ih =>
      obtain ⟨v₁, hr₁, h₁⟩ := ih
      cases hs with
      | start e ha =>
          obtain ⟨v', hr', h'⟩ := hstart e h₁ ha
          exact ⟨v', hr₁.trans hr', h'⟩
      | @answer w w' s op rest r hk =>
          obtain ⟨v', hv', h'⟩ := hanswer h₁ hk
          refine ⟨v', hr₁.tail ⟨some r, True.intro, ?_⟩, h'⟩
          exact Option.map_eq_some_iff.2 ⟨v', hv', rfl⟩

end Stages

end ZeroCopyProxy.Verified.Inside
