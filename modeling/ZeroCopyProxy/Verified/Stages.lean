import ZeroCopyProxy.Verified.Liberal
import ZeroCopyProxy.Verified.Transitions

/-!
# Threads that run in stages

A resumption tree is finite, so a thread with a loop of its own is cut into
programs, each of which ends with the name of the one that follows.  Together
with a kernel that is a function on answers this is a machine in the sense of
`Transitions`: the action is the next answer, or none between two stages.
-/

namespace ZeroCopyProxy.Verified.Stages

open ZeroCopyProxy.Verified.Resumption
open ZeroCopyProxy.Verified.Liberal
open ZeroCopyProxy.Verified.Transitions

variable {S Op Ans α W : Type} {deliver : W → S → Op → Ans → Option W}
  {body : α → Prog S Op Ans α} {again : α → Bool}

/-- The kernel that answers as `deliver` allows. -/
def delivers (deliver : W → S → Op → Ans → Option W) (w : W) (s : S) (op : Op) (r : Ans)
    (w' : W) : Prop :=
  deliver w s op r = some w'

/-- One step: the stage that follows begins, or a call is answered. -/
def stageStep (deliver : W → S → Op → Ans → Option W) (body : α → Prog S Op Ans α)
    (again : α → Bool) (c : Config W S Op Ans α) (r : Option Ans) :
    Option (Config W S Op Ans α) :=
  match c.node, r with
  | .done s a, none => if again a then some ⟨c.world, body a s⟩ else none
  | .call s op k, some r => (deliver c.world s op r).map fun w => ⟨w, k r⟩
  | _, _ => none

/-- What a step can be. -/
theorem stageStep_cases {c c' : Config W S Op Ans α} {r : Option Ans}
    (h : stageStep deliver body again c r = some c') :
    (∃ s a, c.node = .done s a ∧ again a = true ∧ c' = ⟨c.world, body a s⟩) ∨
      ∃ s op k a w, c.node = .call s op k ∧ deliver c.world s op a = some w ∧
        c' = ⟨w, k a⟩ := by
  obtain ⟨w, node⟩ := c
  cases node with
  | done s a =>
      cases r with
      | none =>
          simp only [stageStep] at h
          split at h
          · next ha =>
              cases h
              exact .inl ⟨s, a, rfl, ha, rfl⟩
          · cases h
      | some r => cases h
  | call s op k =>
      cases r with
      | none => cases h
      | some r =>
          obtain ⟨w', hw, rfl⟩ := Option.map_eq_some_iff.1 h
          exact .inr ⟨s, op, k, r, w', rfl, hw, rfl⟩
  | fault s => cases h

/-- Whole runs: what every stage hands to the next is visible in every
configuration reached. -/
theorem wlp_stages {P : W → S → Op → Prop} {Q : W → S → α → Prop}
    (hbody : ∀ w s a, again a = true → Q w s a →
      wlp (delivers deliver) P Q (body a s) w)
    {c c' : Config W S Op Ans α}
    (hr : Reach (stageStep deliver body again) unconditional c c')
    (h : wlp (delivers deliver) P Q c.node c.world) :
    wlp (delivers deliver) P Q c'.node c'.world := by
  refine reach_invariant (I := fun c => wlp (delivers deliver) P Q c.node c.world)
    (fun _ hi _ hs => ?_) hr h
  rcases stageStep_cases hs with ⟨s, a, hn, ha, rfl⟩ | ⟨s, op, k, a, w, hn, hw, rfl⟩
  · rw [hn] at hi
    exact hbody _ s a ha hi
  · rw [hn] at hi
    exact hi.2 a w hw

/-- The same of threads that do not fault. -/
theorem wp_stages {P : W → S → Op → Prop} {Q : W → S → α → Prop}
    (hbody : ∀ w s a, again a = true → Q w s a → wp (delivers deliver) P Q (body a s) w)
    {c c' : Config W S Op Ans α}
    (hr : Reach (stageStep deliver body again) unconditional c c')
    (h : wp (delivers deliver) P Q c.node c.world) :
    wp (delivers deliver) P Q c'.node c'.world := by
  refine reach_invariant (I := fun c => wp (delivers deliver) P Q c.node c.world)
    (fun _ hi _ hs => ?_) hr h
  rcases stageStep_cases hs with ⟨s, a, hn, ha, rfl⟩ | ⟨s, op, k, a, w, hn, hw, rfl⟩
  · rw [hn] at hi
    exact hbody _ s a ha hi
  · rw [hn] at hi
    exact hi.2 a w hw

/-- A stage that a part `K₁` of the kernel always answers can be run to its
end. -/
theorem exists_stage_run {K₁ : W → S → Op → Ans → W → Prop} {P : W → S → Op → Prop}
    {Q : W → S → α → Prop} {n : Res S Op Ans α} {w : W} (h : wp K₁ P Q n w)
    (hK : ∀ w s op r w', K₁ w s op r w' → deliver w s op r = some w')
    (hlive : ∀ w s op, P w s op → ∃ r w', K₁ w s op r w') :
    ∃ w' s a, Reach (stageStep deliver body again) unconditional ⟨w, n⟩ ⟨w', .done s a⟩ ∧
      Q w' s a := by
  induction n generalizing w with
  | done s a => exact ⟨w, s, a, .refl, h⟩
  | fault s => exact h.elim
  | call s op k ih =>
      obtain ⟨r, w₁, hk⟩ := hlive w s op h.1
      obtain ⟨w', s', a, hr, hq⟩ := ih r (h.2 r w₁ hk)
      have hstep : stageStep deliver body again ⟨w, .call s op k⟩ (some r) = some ⟨w₁, k r⟩ :=
        Option.map_eq_some_iff.2 ⟨w₁, hK _ _ _ _ _ hk, rfl⟩
      exact ⟨w', s', a, .head ⟨some r, True.intro, hstep⟩ hr, hq⟩

end ZeroCopyProxy.Verified.Stages
