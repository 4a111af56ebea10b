import Mathlib.Logic.Relation

/-!
# Step functions and their runs

A machine is a function `step : S → A → Option S`: the action says what
happens next and resolves every choice, and `none` means that it cannot
happen there.  A law about every run, or about every run whose steps all meet
a condition, is a law about `Reach`; a law about one run says what holds
`Throughout` its states or `Along` its steps.

`reach_invariant` and `throughout_iff_along` are the two inductions.  The first
hands the reachability of the state to the step, so that invariants may be
proved one after the other; the second turns a property of states into the
exact condition on the steps.
-/

namespace ZeroCopyProxy.Verified.Transitions

variable {S T A B : Type} {step : S → A → Option S} {C D : S → A → Prop}

/-- Some action that meets the condition takes `s` to `s'`. -/
def Step (step : S → A → Option S) (C : S → A → Prop) (s s' : S) : Prop :=
  ∃ a, C s a ∧ step s a = some s'

/-- The states of the runs whose steps all meet the condition. -/
def Reach (step : S → A → Option S) (C : S → A → Prop) : S → S → Prop :=
  Relation.ReflTransGen (Step step C)

/-- No condition on the steps. -/
abbrev unconditional : S → A → Prop := fun _ _ => True

/-- An invariant may be proved with what is known of the states reached. -/
theorem reach_invariant {s₀ s : S} {I : S → Prop}
    (hI : ∀ {s a s'}, Reach step C s₀ s → I s → C s a → step s a = some s' → I s')
    (hr : Reach step C s₀ s) (h₀ : I s₀) : I s := by
  induction hr with
  | refl => exact h₀
  | tail hr hs ih =>
      obtain ⟨a, hc, hs⟩ := hs
      exact hI hr ih hc hs

/-- A weaker condition has more runs. -/
theorem Reach.mono (hCD : ∀ s a, C s a → D s a) {s s' : S} (hr : Reach step C s s') :
    Reach step D s s' := by
  induction hr with
  | refl => exact .refl
  | tail _ hs ih =>
      obtain ⟨a, hc, hs⟩ := hs
      exact ih.tail ⟨a, hCD _ a hc, hs⟩

/-- A machine that another one drives: every step of the larger machine is a
step of the smaller one or leaves it alone. -/
theorem Reach.project {stepT : T → B → Option T} {CT : T → B → Prop} (view : S → T)
    (hview : ∀ {s a s'}, C s a → step s a = some s' →
      view s' = view s ∨ Step stepT CT (view s) (view s'))
    {s s' : S} (hr : Reach step C s s') : Reach stepT CT (view s) (view s') := by
  induction hr with
  | refl => exact .refl
  | tail _ hs ih =>
      obtain ⟨a, hc, hs⟩ := hs
      rcases hview hc hs with heq | hstep
      · rw [heq]
        exact ih
      · exact ih.tail hstep

/-- Where some step always brings the goal nearer, some run reaches it. -/
theorem exists_reach_progress {I G : S → Prop} (μ : S → Nat)
    (hμ : ∀ s, I s → ¬ G s → ∃ a s', C s a ∧ step s a = some s' ∧ I s' ∧ μ s' < μ s)
    {s : S} (h : I s) : ∃ s', Reach step C s s' ∧ I s' ∧ G s' := by
  by_cases hg : G s
  · exact ⟨s, .refl, h, hg⟩
  · obtain ⟨a, s₁, hc, hs, h₁, hlt⟩ := hμ s h hg
    obtain ⟨s', hr, hI, hG⟩ := exists_reach_progress μ hμ h₁
    exact ⟨s', .head ⟨a, hc, hs⟩ hr, hI, hG⟩
termination_by μ s

/-! ## Runs along a list of actions -/

/-- The state after a list of actions, each of which meets the condition. -/
def exec (step : S → A → Option S) (C : S → A → Prop) [∀ s a, Decidable (C s a)] (s : S) :
    List A → Option S
  | [] => some s
  | a :: as => if C s a then (step s a).bind fun s' => exec step C s' as else none

theorem reach_of_exec [∀ s a, Decidable (C s a)] {as : List A} {s s' : S}
    (h : exec step C s as = some s') : Reach step C s s' := by
  induction as generalizing s with
  | nil =>
      cases h
      exact .refl
  | cons a as ih =>
      simp only [exec] at h
      split at h
      · next hc =>
          obtain ⟨s₁, hs, h⟩ := Option.bind_eq_some_iff.1 h
          exact .head ⟨a, hc, hs⟩ (ih h)
      · cases h

/-- Where every step brings `μ` down, a run takes no more than `μ` steps. -/
theorem length_le_of_exec [∀ s a, Decidable (C s a)] {I : S → Prop} (μ : S → Nat)
    (hμ : ∀ {s a s'}, I s → C s a → step s a = some s' → I s' ∧ μ s' < μ s) {as : List A}
    {s s' : S} (h : I s) (he : exec step C s as = some s') : as.length ≤ μ s := by
  induction as generalizing s with
  | nil => exact Nat.zero_le _
  | cons a as ih =>
      simp only [exec] at he
      split at he
      · next hc =>
          obtain ⟨s₁, hs, he⟩ := Option.bind_eq_some_iff.1 he
          obtain ⟨h₁, hlt⟩ := hμ h hc hs
          have hle := ih h₁ he
          rw [List.length_cons]
          omega
      · cases he

/-- A run along given actions that ends where `p` holds. -/
theorem exists_reach_of_exec (step : S → A → Option S) (C : S → A → Prop)
    [∀ s a, Decidable (C s a)] (s : S) (as : List A) (p : S → Prop) [DecidablePred p]
    (h : (exec step C s as).any (fun s' => decide (p s')) = true) :
    ∃ s', Reach step C s s' ∧ p s' := by
  rw [Option.any_eq_true] at h
  obtain ⟨s', hs, hp⟩ := h
  exact ⟨s', reach_of_exec hs, of_decide_eq_true hp⟩

/-- Every step of the run along these actions satisfies `P`. -/
def Along (step : S → A → Option S) (P : S → A → Prop) (s : S) : List A → Prop
  | [] => True
  | a :: as => ∀ s' ∈ step s a, P s a ∧ Along step P s' as

/-- `I` holds in every state of the run along these actions. -/
def Throughout (step : S → A → Option S) (I : S → Prop) (s : S) : List A → Prop
  | [] => I s
  | a :: as => I s ∧ ∀ s' ∈ step s a, Throughout step I s' as

theorem Throughout.first {I : S → Prop} {s : S} {as : List A} (h : Throughout step I s as) :
    I s := by
  cases as with
  | nil => exact h
  | cons a as => exact h.1

/-- What holds in every state of a run holds in its last one. -/
theorem Throughout.last [∀ s a, Decidable (C s a)] {I : S → Prop} {as : List A} {s s' : S}
    (h : Throughout step I s as) (hs : exec step C s as = some s') : I s' := by
  induction as generalizing s with
  | nil =>
      cases hs
      exact h
  | cons a as ih =>
      simp only [exec] at hs
      split at hs
      · obtain ⟨s₁, ha, hs⟩ := Option.bind_eq_some_iff.1 hs
        exact ih (h.2 s₁ ha) hs
      · cases hs

/-- Where a step keeps `I` exactly if it satisfies `P`, the runs in which `I`
holds all along are those all of whose steps satisfy `P`. -/
theorem throughout_iff_along {I J : S → Prop} {P : S → A → Prop}
    (hJ : ∀ {s a s'}, J s → step s a = some s' → J s')
    (hP : ∀ {s a s'}, J s → I s → step s a = some s' → (I s' ↔ P s a)) {s : S} (hj : J s)
    (hi : I s) (as : List A) : Throughout step I s as ↔ Along step P s as := by
  induction as generalizing s with
  | nil => exact iff_true_intro hi
  | cons a as ih =>
      constructor
      · rintro ⟨-, hrest⟩ s' hs
        have hi' : I s' := (hrest s' hs).first
        exact ⟨(hP hj hi hs).1 hi', (ih (hJ hj hs) hi').1 (hrest s' hs)⟩
      · intro hsteps
        refine ⟨hi, fun s' hs => ?_⟩
        obtain ⟨hp, hrest⟩ := hsteps s' hs
        exact (ih (hJ hj hs) ((hP hj hi hs).2 hp)).2 hrest

/-! ## Runs with a record -/

section Record

variable {R : Type} {note : S → A → List R}

/-- The machine with a record of what its steps have noted. -/
def recorded (step : S → A → Option S) (note : S → A → List R) (s : S × List R) (a : A) :
    Option (S × List R) :=
  (step s.1 a).map fun s' => (s', s.2 ++ note s.1 a)

theorem of_recorded {s s' : S × List R} {a : A} (h : recorded step note s a = some s') :
    step s.1 a = some s'.1 ∧ s'.2 = s.2 ++ note s.1 a := by
  obtain ⟨t, ht, rfl⟩ := Option.map_eq_some_iff.1 h
  exact ⟨ht, rfl⟩

/-- A run with a record is a run. -/
theorem Reach.forget {s s' : S × List R}
    (hr : Reach (recorded step note) (fun s a => C s.1 a) s s') : Reach step C s.1 s'.1 :=
  hr.project Prod.fst fun hc hs => .inr ⟨_, hc, (of_recorded hs).1⟩

end Record

end ZeroCopyProxy.Verified.Transitions
