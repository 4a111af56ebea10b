import ZeroCopyProxy.Verified.Resumption

/-!
# Liberal preconditions

What a thread does as long as it has not run into undefined behaviour: `wlp`
is `wp` with nothing asked of a fault.  It is the calculus for laws about the
calls a program makes when its memory safety is another matter.  After a
partial operation one only knows which value it had, if it had one.

A faulted thread stops, so what its calls have done to the world stays;
`wlp_world` gives a property of the world in every configuration, faulted ones
included.
-/

namespace ZeroCopyProxy.Verified.Liberal

open ZeroCopyProxy.Verified.Resumption

variable {S Op Ans α β W : Type}

/-- As long as the thread does not fault, it issues only calls that satisfy
`P` and ends only where `Q` holds, whatever the kernel answers. -/
def wlp (K : W → S → Op → Ans → W → Prop) (P : W → S → Op → Prop)
    (Q : W → S → α → Prop) : Res S Op Ans α → W → Prop
  | .done s a, w => Q w s a
  | .call s op k, w => P w s op ∧ ∀ r w', K w s op r w' → wlp K P Q (k r) w'
  | .fault _, _ => True

section Rules

variable {K : W → S → Op → Ans → W → Prop} {P : W → S → Op → Prop}
  {Q : W → S → α → Prop}

@[simp] theorem wlp_done (s : S) (a : α) (w : W) :
    wlp K P Q (.done s a) w ↔ Q w s a := Iff.rfl

@[simp] theorem wlp_call (s : S) (op : Op) (k : Ans → Res S Op Ans α) (w : W) :
    wlp K P Q (.call s op k) w ↔
      P w s op ∧ ∀ r w', K w s op r w' → wlp K P Q (k r) w' := Iff.rfl

/-- Sequencing. -/
theorem wlp_res_bind {Q : W → S → β → Prop} (r : Res S Op Ans α)
    (f : S → α → Res S Op Ans β) (w : W) :
    wlp K P Q (r.bind f) w ↔ wlp K P (fun w' s' a => wlp K P Q (f s' a) w') r w := by
  induction r generalizing w with
  | done s a => exact Iff.rfl
  | fault s => exact Iff.rfl
  | call s op k ih =>
      simp only [Res.bind, wlp_call]
      exact and_congr Iff.rfl (forall_congr' fun r => forall_congr' fun w' =>
        imp_congr Iff.rfl (ih r w'))

@[simp] theorem wlp_bind {Q : W → S → β → Prop} (p : Prog S Op Ans α)
    (f : α → Prog S Op Ans β) (s : S) (w : W) :
    wlp K P Q ((p >>= f) s) w ↔
      wlp K P (fun w' s' a => wlp K P Q (f a s') w') (p s) w :=
  wlp_res_bind (p s) (fun s' a => f a s') w

@[simp] theorem wlp_pure (a : α) (s : S) (w : W) :
    wlp K P Q ((pure a : Prog S Op Ans α) s) w ↔ Q w s a := Iff.rfl

@[simp] theorem wlp_state {Q : W → S → S → Prop} (s : S) (w : W) :
    wlp K P Q ((Prog.state : Prog S Op Ans S) s) w ↔ Q w s s := Iff.rfl

@[simp] theorem wlp_update {Q : W → S → Unit → Prop} (f : S → S) (s : S) (w : W) :
    wlp K P Q ((Prog.update f : Prog S Op Ans Unit) s) w ↔ Q w (f s) () := Iff.rfl

@[simp] theorem wlp_prog_call {Q : W → S → Ans → Prop} (op : Op) (s : S) (w : W) :
    wlp K P Q ((Prog.call op : Prog S Op Ans Ans) s) w ↔
      P w s op ∧ ∀ r w', K w s op r w' → Q w' s r := Iff.rfl

/-- The value of a partial operation, if it has one. -/
@[simp] theorem wlp_orFault (o : Option α) (s : S) (w : W) :
    wlp K P Q ((Prog.orFault o : Prog S Op Ans α) s) w ↔ ∀ a, o = some a → Q w s a := by
  cases o with
  | none => exact ⟨fun _ a ha => (Option.some_ne_none a ha.symm).elim, fun _ => True.intro⟩
  | some a => exact ⟨fun h b hb => Option.some.inj hb ▸ h, fun h => h a rfl⟩

@[simp] theorem wlp_ite (c : Prop) [Decidable c] (p q : Prog S Op Ans α) (s : S)
    (w : W) :
    wlp K P Q ((if c then p else q) s) w ↔
      (c → wlp K P Q (p s) w) ∧ (¬ c → wlp K P Q (q s) w) := by
  by_cases hc : c <;> simp [hc]

@[simp] theorem wlp_guarded {Q : W → S → Unit → Prop} (c : S → Prop) [DecidablePred c]
    (p : Prog S Op Ans Unit) (s : S) (w : W) :
    wlp K P Q (Prog.guarded c p s) w ↔ (c s → wlp K P Q (p s) w) ∧ (¬ c s → Q w s ()) := by
  by_cases hc : c s <;> simp [Prog.guarded, hc]

/-- A specification that rules out faults is one that does not. -/
theorem wlp_of_wp {r : Res S Op Ans α} {w : W} (h : wp K P Q r w) : wlp K P Q r w := by
  induction r generalizing w with
  | done s a => exact h
  | call s op k ih => exact ⟨h.1, fun r w' hk => ih r (h.2 r w' hk)⟩
  | fault s => exact True.intro

/-- Consequence for the postcondition. -/
theorem wlp_post {Q' : W → S → α → Prop} (hQ : ∀ w s a, Q w s a → Q' w s a)
    {r : Res S Op Ans α} {w : W} (h : wlp K P Q r w) : wlp K P Q' r w := by
  induction r generalizing w with
  | done s a => exact hQ w s a h
  | call s op k ih => exact ⟨h.1, fun r w' hk => ih r (h.2 r w' hk)⟩
  | fault s => exact True.intro

/-- Nothing asked is nothing to prove. -/
theorem wlp_of_forall (hP : ∀ w s op, P w s op) (hQ : ∀ w s a, Q w s a) (r : Res S Op Ans α)
    (w : W) : wlp K P Q r w := by
  induction r generalizing w with
  | done s a => exact hQ w s a
  | call s op k ih => exact ⟨hP w s op, fun r w' _ => ih r w'⟩
  | fault s => exact True.intro

/-- What every answer keeps and what suffices at every call and at the end. -/
theorem wlp_of_kept {I : W → Prop} (hI : ∀ w s op r w', I w → K w s op r w' → I w')
    (hP : ∀ w s op, I w → P w s op) (hQ : ∀ w s a, I w → Q w s a) (r : Res S Op Ans α)
    {w : W} (h : I w) : wlp K P Q r w := by
  induction r generalizing w with
  | done s a => exact hQ w s a h
  | call s op k ih => exact ⟨hP w s op h, fun r w' hk => ih r (hI w s op r w' h hk)⟩
  | fault s => exact True.intro

/-- What every answer to an allowed call keeps, and what holds at the start,
holds at every call and at the end. -/
theorem wlp_invariant {I : W → Prop}
    (hI : ∀ w s op r w', P w s op → K w s op r w' → I w → I w') {r : Res S Op Ans α} {w : W}
    (h : wlp K P Q r w) (hw : I w) :
    wlp K (fun w' s op => P w' s op ∧ I w') (fun w' s a => Q w' s a ∧ I w') r w := by
  induction r generalizing w with
  | done s a => exact ⟨h, hw⟩
  | call s op k ih =>
      refine ⟨⟨h.1, hw⟩, fun r w' hk => ?_⟩
      exact ih r (h.2 r w' hk) (hI w s op r w' h.1 hk hw)
  | fault s => exact True.intro

/-- Consequence for the calls. -/
theorem wlp_calls {P' : W → S → Op → Prop} (hP : ∀ w s op, P w s op → P' w s op)
    {r : Res S Op Ans α} {w : W} (h : wlp K P Q r w) : wlp K P' Q r w := by
  induction r generalizing w with
  | done s a => exact h
  | call s op k ih => exact ⟨hP w s op h.1, fun r w' hk => ih r (h.2 r w' hk)⟩
  | fault s => exact True.intro

/-- What is known of a run with and without the help of its safety. -/
theorem wp_and_wlp {P' : W → S → Op → Prop} {Q' : W → S → α → Prop} {r : Res S Op Ans α}
    {w : W} (h : wp K P Q r w) (h' : wlp K P' Q' r w) :
    wp K (fun w s op => P w s op ∧ P' w s op) (fun w s a => Q w s a ∧ Q' w s a) r w := by
  induction r generalizing w with
  | done s a => exact ⟨h, h'⟩
  | call s op k ih =>
      exact ⟨⟨h.1, h'.1⟩, fun r w' hk => ih r (h.2 r w' hk) (h'.2 r w' hk)⟩
  | fault s => exact h.elim

/-- A program on a part of the state, seen on the whole state. -/
@[simp] theorem wlp_zoom {T : Type} {K : W → T → Op → Ans → W → Prop} {P : W → T → Op → Prop}
    {Q : W → T → α → Prop} (get : T → S) (put : T → S → T) (p : Prog S Op Ans α) (t : T)
    (w : W) :
    wlp K P Q (Prog.zoom get put p t) w ↔
      wlp (fun w' s' => K w' (put t s')) (fun w' s' op => P w' (put t s') op)
        (fun w' s' a => Q w' (put t s') a) (p (get t)) w := by
  unfold Prog.zoom
  generalize p (get t) = r
  induction r generalizing w with
  | done s a => exact Iff.rfl
  | fault s => exact Iff.rfl
  | call s op k ih =>
      simp only [Res.lift, wlp_call]
      exact and_congr Iff.rfl (forall_congr' fun r => forall_congr' fun w' =>
        imp_congr Iff.rfl (ih r w'))

/-- A program with its calls renamed, seen with its own calls. -/
@[simp] theorem wlp_hoist {Op' : Type} {K : W → S → Op' → Ans → W → Prop}
    {P : W → S → Op' → Prop} (f : Op → Op') (p : Prog S Op Ans α) (s : S) (w : W) :
    wlp K P Q (Prog.hoist f p s) w ↔
      wlp (fun w' s' op => K w' s' (f op)) (fun w' s' op => P w' s' (f op)) Q (p s) w := by
  unfold Prog.hoist
  generalize p s = r
  induction r generalizing w with
  | done s a => exact Iff.rfl
  | fault s => exact Iff.rfl
  | call s op k ih =>
      simp only [Res.hoist, wlp_call]
      exact and_congr Iff.rfl (forall_congr' fun r => forall_congr' fun w' =>
        imp_congr Iff.rfl (ih r w'))

end Rules

/-! ## Programs that keep something -/

section Keeps

variable {K : W → S → Op → Ans → W → Prop} {P : W → S → Op → Prop} {I : W → S → Prop}

/-- Started where `I` holds, the program ends where `I` holds. -/
def Keeps (K : W → S → Op → Ans → W → Prop) (P : W → S → Op → Prop) (I : W → S → Prop)
    (p : Prog S Op Ans α) : Prop :=
  ∀ w s, I w s → wlp K P (fun w' s' _ => I w' s') (p s) w

theorem Keeps.bind {p : Prog S Op Ans α} {f : α → Prog S Op Ans β} (hp : Keeps K P I p)
    (hf : ∀ a, Keeps K P I (f a)) : Keeps K P I (p >>= f) := by
  intro w s h
  rw [wlp_bind]
  exact wlp_post (fun w' s' a h' => hf a w' s' h') (hp w s h)

theorem keeps_pure (a : α) : Keeps K P I (pure a : Prog S Op Ans α) := fun _ _ h => h

theorem keeps_state_bind {f : S → Prog S Op Ans α} (hf : ∀ s, Keeps K P I (f s)) :
    Keeps K P I (Prog.state >>= f) :=
  fun w s h => hf s w s h

theorem keeps_update_bind {g : S → S} {f : Unit → Prog S Op Ans α}
    (hg : ∀ w s, I w s → I w (g s)) (hf : Keeps K P I (f ())) :
    Keeps K P I (Prog.update g >>= f) :=
  fun w s h => hf w (g s) (hg w s h)

theorem keeps_orFault_bind {o : Option α} {f : α → Prog S Op Ans β}
    (hf : ∀ a, Keeps K P I (f a)) : Keeps K P I (Prog.orFault o >>= f) := by
  intro w s h
  rw [wlp_bind, wlp_orFault]
  exact fun a _ => hf a w s h

theorem keeps_ite {c : Prop} [Decidable c] {p q : Prog S Op Ans α} (hp : Keeps K P I p)
    (hq : Keeps K P I q) : Keeps K P I (if c then p else q) := by
  split
  · exact hp
  · exact hq

theorem keeps_call {op : Op} (hP : ∀ w s, I w s → P w s op)
    (hI : ∀ w s r w', I w s → K w s op r w' → I w' s) :
    Keeps K P I (Prog.call op : Prog S Op Ans Ans) :=
  fun w s h => ⟨hP w s h, fun r w' hk => hI w s r w' h hk⟩

end Keeps

section Run

variable {E : Type} {K : W → S → Op → Ans → W → Prop} {body : E → Prog S Op Ans α}
  {again : α → Bool} {P : W → S → Op → Prop} {Q : W → S → α → Prop}

/-- Whole runs. -/
theorem wlp_reach (hbody : ∀ e w s a, again a = true → Q w s a → wlp K P Q (body e s) w)
    {c c' : Config W S Op Ans α} (hr : Reach K body again c c')
    (h : wlp K P Q c.node c.world) : wlp K P Q c'.node c'.world := by
  induction hr with
  | refl => exact h
  | tail _ hs ih =>
      cases hs with
      | start e ha => exact hbody e _ _ _ ha ih
      | answer hk => exact ih.2 _ _ hk

/-- A specification in a world of its own, which begins anew with every event,
describes what is left to run in every configuration reached. -/
theorem wlp_ghost {G : Type} {L : G → S → Op → Ans → G → Prop} {P : G → S → Op → Prop}
    {Q : G → S → α → Prop} {c c' : Config W S Op Ans α}
    (hanswer : ∀ {w s op r w'}, K w s op r w' → ∀ g, ∃ g', L g s op r g')
    (hstart : ∀ {w s a}, Reach K body again c ⟨w, .done s a⟩ → again a = true →
      ∀ e, ∃ g, wlp L P Q (body e s) g)
    (hr : Reach K body again c c') (h : ∃ g, wlp L P Q c.node g) :
    ∃ g, wlp L P Q c'.node g := by
  induction hr with
  | refl => exact h
  | tail hr hs ih =>
      cases hs with
      | start e ha => exact hstart hr ha e
      | answer hk =>
          obtain ⟨g, hg⟩ := ih
          obtain ⟨g', hg'⟩ := hanswer hk g
          exact ⟨g', hg.2 _ _ hg'⟩

/-- What every answer to an allowed call establishes holds in every
configuration reached. -/
theorem wlp_world {I : W → Prop} (hI : ∀ w s op r w', P w s op → K w s op r w' → I w')
    (hbody : ∀ e w s a, again a = true → Q w s a → wlp K P Q (body e s) w)
    {c c' : Config W S Op Ans α} (hr : Reach K body again c c')
    (h : wlp K P Q c.node c.world) (h₀ : I c.world) : I c'.world := by
  induction hr with
  | refl => exact h₀
  | tail hr hs ih =>
      cases hs with
      | start e ha => exact ih
      | answer hk => exact hI _ _ _ _ _ (wlp_reach hbody hr h).1 hk

end Run

end ZeroCopyProxy.Verified.Liberal
