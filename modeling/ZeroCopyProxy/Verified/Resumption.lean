import Mathlib.Logic.Relation

/-!
# Programs that stop at every call to their environment

A thread of a C program runs alone between two system calls: what another
thread or the kernel can see of it is the memory it owns at each call, the
call, and what it does with the answer.  `Res` is exactly that view, a tree
with one node for each call; the node keeps the thread's own state, so that
an invariant may speak about the middle of a function and not only about
its ends.  Undefined behaviour is a third kind of node, `fault`.

`Prog` is the state monad over these trees.  Source functions are written in
it with `do`; `zoom` runs a function on a part of the state, as C does when
it passes a pointer to a member of a structure.

`wp` is the weakest precondition against a kernel `K : W → S → Op → Ans → W →
Prop`: `P` holds at every call the program issues, `Q` holds where it ends,
and it never faults, whatever the kernel answers.  The kernel may look at the
state of the thread that calls, so a condition on the steps of a run is a
kernel as well.  The rules `wp_bind`,
`wp_mono` and `wp_kernel_mono` are the whole calculus; everything about one
function is stated once as a `wp` lemma and used through them.
-/

namespace ZeroCopyProxy.Verified.Resumption

/-- What is left of a running thread: finished with a value, stopped at a
call, or faulted.  Every node carries the thread's own state there. -/
inductive Res (S Op Ans α : Type) where
  | done (s : S) (a : α)
  | call (s : S) (op : Op) (k : Ans → Res S Op Ans α)
  | fault (s : S)

variable {S T Op Ans α β W : Type}

/-- The thread's own state at this node. -/
def Res.state : Res S Op Ans α → S
  | .done s _ => s
  | .call s _ _ => s
  | .fault s => s

/-- The call the thread waits in. -/
def Res.waits : Res S Op Ans α → Option Op
  | .call _ op _ => some op
  | _ => none

/-- The thread has run into undefined behaviour. -/
def Res.faulted : Res S Op Ans α → Bool
  | .fault _ => true
  | _ => false

/-- Continue with `f` where the thread ends. -/
def Res.bind : Res S Op Ans α → (S → α → Res S Op Ans β) → Res S Op Ans β
  | .done s a, f => f s a
  | .call s op k, f => .call s op fun r => (k r).bind f
  | .fault s, _ => .fault s

/-- The same thread seen as part of a larger one, whose state at a node with
state `s` is `put s`. -/
def Res.lift (put : S → T) : Res S Op Ans α → Res T Op Ans α
  | .done s a => .done (put s) a
  | .call s op k => .call (put s) op fun r => (k r).lift put
  | .fault s => .fault (put s)

/-- The same thread with its calls renamed. -/
def Res.hoist {Op' : Type} (f : Op → Op') : Res S Op Ans α → Res S Op' Ans α
  | .done s a => .done s a
  | .call s op k => .call s (f op) fun r => (k r).hoist f
  | .fault s => .fault s

theorem Res.lift_lift {U : Type} (put : S → T) (put' : T → U) (r : Res S Op Ans α) :
    (r.lift put).lift put' = r.lift fun s => put' (put s) := by
  induction r with
  | done s a => rfl
  | call s op k ih => exact congrArg (Res.call _ op) (funext ih)
  | fault s => rfl

theorem Res.hoist_lift {Op' : Type} (f : Op → Op') (put : S → T) (r : Res S Op Ans α) :
    (r.lift put).hoist f = (r.hoist f).lift put := by
  induction r with
  | done s a => rfl
  | call s op k ih => exact congrArg (Res.call _ (f op)) (funext ih)
  | fault s => rfl

/-- A program: from the thread's state to what it does. -/
def Prog (S Op Ans α : Type) : Type := S → Res S Op Ans α

namespace Prog

instance : Monad (Prog S Op Ans) where
  pure a := fun s => .done s a
  bind p f := fun s => (p s).bind fun s' a => f a s'

/-- The current state of the thread. -/
def state : Prog S Op Ans S := fun s => .done s s

/-- Assign to the thread's state. -/
def update (f : S → S) : Prog S Op Ans Unit := fun s => .done (f s) ()

/-- Issue a call and wait for the answer. -/
def call (op : Op) : Prog S Op Ans Ans := fun s => .call s op fun r => .done s r

/-- Undefined behaviour. -/
def fault : Prog S Op Ans α := fun s => .fault s

/-- The value of a partial operation, undefined behaviour outside its domain. -/
def orFault : Option α → Prog S Op Ans α
  | some a => pure a
  | none => fault

/-- Run a program if the state allows it. -/
def guarded (c : S → Prop) [DecidablePred c] (p : Prog S Op Ans Unit) :
    Prog S Op Ans Unit :=
  fun s => if c s then p s else .done s ()

/-- A program with its calls renamed. -/
def hoist {Op' : Type} (f : Op → Op') (p : Prog S Op Ans α) : Prog S Op' Ans α :=
  fun s => (p s).hoist f

/-- Run a program on the part `get s` of the state. -/
def zoom (get : T → S) (put : T → S → T) (p : Prog S Op Ans α) :
    Prog T Op Ans α :=
  fun t => (p (get t)).lift (put t)

end Prog

/-! ## Weakest preconditions -/

/-- A kernel that does not look at the thread. -/
abbrev blind (K : W → Op → Ans → W → Prop) : W → S → Op → Ans → W → Prop :=
  fun w _ => K w

/-- Whatever the kernel `K` answers, `r` issues only calls that satisfy `P`,
ends only where `Q` holds, and never faults. -/
def wp (K : W → S → Op → Ans → W → Prop) (P : W → S → Op → Prop)
    (Q : W → S → α → Prop) : Res S Op Ans α → W → Prop
  | .done s a, w => Q w s a
  | .call s op k, w => P w s op ∧ ∀ r w', K w s op r w' → wp K P Q (k r) w'
  | .fault _, _ => False

section Rules

variable {K : W → S → Op → Ans → W → Prop} {P : W → S → Op → Prop}
  {Q : W → S → α → Prop}

@[simp] theorem wp_done (s : S) (a : α) (w : W) :
    wp K P Q (.done s a) w ↔ Q w s a := Iff.rfl

@[simp] theorem wp_call (s : S) (op : Op) (k : Ans → Res S Op Ans α) (w : W) :
    wp K P Q (.call s op k) w ↔
      P w s op ∧ ∀ r w', K w s op r w' → wp K P Q (k r) w' := Iff.rfl

@[simp] theorem wp_fault (s : S) (w : W) :
    wp K P Q (.fault s : Res S Op Ans α) w ↔ False := Iff.rfl

/-- Sequencing: the postcondition of the first part is the precondition of
the rest. -/
theorem wp_res_bind {Q : W → S → β → Prop} (r : Res S Op Ans α)
    (f : S → α → Res S Op Ans β) (w : W) :
    wp K P Q (r.bind f) w ↔ wp K P (fun w' s' a => wp K P Q (f s' a) w') r w := by
  induction r generalizing w with
  | done s a => exact Iff.rfl
  | fault s => exact Iff.rfl
  | call s op k ih =>
      simp only [Res.bind, wp_call]
      exact and_congr Iff.rfl (forall_congr' fun r => forall_congr' fun w' =>
        imp_congr Iff.rfl (ih r w'))

@[simp] theorem wp_bind {Q : W → S → β → Prop} (p : Prog S Op Ans α)
    (f : α → Prog S Op Ans β) (s : S) (w : W) :
    wp K P Q ((p >>= f) s) w ↔
      wp K P (fun w' s' a => wp K P Q (f a s') w') (p s) w :=
  wp_res_bind (p s) (fun s' a => f a s') w

@[simp] theorem wp_pure (a : α) (s : S) (w : W) :
    wp K P Q ((pure a : Prog S Op Ans α) s) w ↔ Q w s a := Iff.rfl

@[simp] theorem wp_state {Q : W → S → S → Prop} (s : S) (w : W) :
    wp K P Q ((Prog.state : Prog S Op Ans S) s) w ↔ Q w s s := Iff.rfl

@[simp] theorem wp_update {Q : W → S → Unit → Prop} (f : S → S) (s : S) (w : W) :
    wp K P Q ((Prog.update f : Prog S Op Ans Unit) s) w ↔ Q w (f s) () := Iff.rfl

@[simp] theorem wp_prog_call {Q : W → S → Ans → Prop} (op : Op) (s : S) (w : W) :
    wp K P Q ((Prog.call op : Prog S Op Ans Ans) s) w ↔
      P w s op ∧ ∀ r w', K w s op r w' → Q w' s r := Iff.rfl

@[simp] theorem wp_prog_fault (s : S) (w : W) :
    wp K P Q ((Prog.fault : Prog S Op Ans α) s) w ↔ False := Iff.rfl

/-- A partial operation must be inside its domain. -/
@[simp] theorem wp_orFault (o : Option α) (s : S) (w : W) :
    wp K P Q ((Prog.orFault o : Prog S Op Ans α) s) w ↔
      ∃ a, o = some a ∧ Q w s a := by
  cases o <;> simp [Prog.orFault]

@[simp] theorem wp_ite (c : Prop) [Decidable c] (p q : Prog S Op Ans α) (s : S)
    (w : W) :
    wp K P Q ((if c then p else q) s) w ↔
      (c → wp K P Q (p s) w) ∧ (¬ c → wp K P Q (q s) w) := by
  by_cases hc : c <;> simp [hc]

@[simp] theorem wp_guarded {Q : W → S → Unit → Prop} (c : S → Prop) [DecidablePred c]
    (p : Prog S Op Ans Unit) (s : S) (w : W) :
    wp K P Q (Prog.guarded c p s) w ↔ (c s → wp K P Q (p s) w) ∧ (¬ c s → Q w s ()) := by
  by_cases hc : c s <;> simp [Prog.guarded, hc]

/-- What a guarded program keeps when it runs it also keeps when it does not. -/
theorem wp_guarded_inv {I : W → S → Prop} {c : S → Prop} [DecidablePred c]
    {p : Prog S Op Ans Unit} {s : S} {w : W} (h : I w s)
    (hp : c s → wp K P (fun w' s' _ => I w' s') (p s) w) :
    wp K P (fun w' s' _ => I w' s') (Prog.guarded c p s) w :=
  (wp_guarded c p s w).2 ⟨hp, fun _ => h⟩

/-- Consequence: weaken what is asked of the calls and of the end. -/
theorem wp_mono {P' : W → S → Op → Prop} {Q' : W → S → α → Prop}
    (hP : ∀ w s op, P w s op → P' w s op)
    (hQ : ∀ w s a, Q w s a → Q' w s a) {r : Res S Op Ans α} {w : W}
    (h : wp K P Q r w) : wp K P' Q' r w := by
  induction r generalizing w with
  | done s a => exact hQ w s a h
  | fault s => exact h
  | call s op k ih => exact ⟨hP w s op h.1, fun r w' hk => ih r (h.2 r w' hk)⟩

/-- Consequence for the postcondition alone. -/
theorem wp_post {Q' : W → S → α → Prop} (hQ : ∀ w s a, Q w s a → Q' w s a)
    {r : Res S Op Ans α} {w : W} (h : wp K P Q r w) : wp K P Q' r w :=
  wp_mono (fun _ _ _ hp => hp) hQ h

/-- A kernel with fewer answers meets every specification of one with more. -/
theorem wp_kernel_mono {K' : W → S → Op → Ans → W → Prop}
    (hK : ∀ w s op r w', K' w s op r w' → K w s op r w') {r : Res S Op Ans α} {w : W}
    (h : wp K P Q r w) : wp K' P Q r w := by
  induction r generalizing w with
  | done s a => exact h
  | fault s => exact h
  | call s op k ih => exact ⟨h.1, fun r w' hk => ih r (h.2 r w' (hK _ _ _ _ _ hk))⟩

/-- A program on a part of the state, seen on the whole state. -/
theorem wp_lift {K : W → T → Op → Ans → W → Prop} {P : W → T → Op → Prop}
    {Q : W → T → α → Prop} (put : S → T) (r : Res S Op Ans α) (w : W) :
    wp K P Q (r.lift put) w ↔
      wp (fun w' s' => K w' (put s')) (fun w' s' op => P w' (put s') op)
        (fun w' s' a => Q w' (put s') a) r w := by
  induction r generalizing w with
  | done s a => exact Iff.rfl
  | fault s => exact Iff.rfl
  | call s op k ih =>
      simp only [Res.lift, wp_call]
      exact and_congr Iff.rfl (forall_congr' fun r => forall_congr' fun w' =>
        imp_congr Iff.rfl (ih r w'))

@[simp] theorem wp_zoom {K : W → T → Op → Ans → W → Prop} {P : W → T → Op → Prop}
    {Q : W → T → α → Prop} (get : T → S) (put : T → S → T) (p : Prog S Op Ans α) (t : T)
    (w : W) :
    wp K P Q (Prog.zoom get put p t) w ↔
      wp (fun w' s' => K w' (put t s')) (fun w' s' op => P w' (put t s') op)
        (fun w' s' a => Q w' (put t s') a) (p (get t)) w :=
  wp_lift (put t) (p (get t)) w

/-- What every answer to an allowed call keeps, and what holds at the start,
holds at every call and at the end. -/
theorem wp_invariant {I : W → Prop}
    (hI : ∀ w s op r w', P w s op → K w s op r w' → I w → I w')
    {r : Res S Op Ans α} {w : W} (h : wp K P Q r w) (hw : I w) :
    wp K (fun w' s op => P w' s op ∧ I w') (fun w' s a => Q w' s a ∧ I w') r w := by
  induction r generalizing w with
  | done s a => exact ⟨h, hw⟩
  | fault s => exact h
  | call s op k ih =>
      refine ⟨⟨h.1, hw⟩, fun r w' hk => ?_⟩
      exact ih r (h.2 r w' hk) (hI w s op r w' h.1 hk hw)

/-- What every answer keeps may be assumed of the answers. -/
theorem wp_assuming {I : W → Prop} (hI : ∀ w s op r w', K w s op r w' → I w → I w')
    {r : Res S Op Ans α} {w : W}
    (h : wp (fun w s op r w' => K w s op r w' ∧ I w) P Q r w) (hw : I w) : wp K P Q r w := by
  induction r generalizing w with
  | done s a => exact h
  | fault s => exact h
  | call s op k ih =>
      exact ⟨h.1, fun r w' hk => ih r (h.2 r w' ⟨hk, hw⟩) (hI w s op r w' hk hw)⟩

/-- What every answer to the first call establishes, and every answer keeps,
holds at the end.  That there is a first call, and which one it may be, is a
specification against the kernel that never answers. -/
theorem wp_first {I : W → Prop} {F : W → S → Op → Prop}
    (hI : ∀ w s op r w', K w s op r w' → I w → I w') {n : Res S Op Ans α} {w : W}
    (hcalls : wp (fun _ _ _ _ _ => False) F (fun _ _ _ => False) n w)
    (hfirst : ∀ s op r w', F w s op → K w s op r w' → I w') (h : wp K P Q n w) :
    wp K P (fun w' s a => Q w' s a ∧ I w') n w := by
  cases n with
  | done s a => exact hcalls.elim
  | fault s => exact h.elim
  | call s op k =>
      refine ⟨h.1, fun r w' hk => ?_⟩
      have hrest := wp_invariant (fun w s op r w' _ hk => hI w s op r w' hk) (h.2 r w' hk)
        (hfirst s op r w' hcalls.1 hk)
      exact wp_mono (fun w s op hp => hp.1) (fun w s a hq => hq) hrest

end Rules

/-! ## One thread serving events -/

/-- A thread with the world it runs in. -/
structure Config (W S Op Ans α : Type) where
  world : W
  node : Res S Op Ans α

/-- One step of a thread that runs `body e` for every event `e`, as long as
`again` allows a next round after what the last one returned. -/
inductive Step {E : Type} (K : W → S → Op → Ans → W → Prop)
    (body : E → Prog S Op Ans α) (again : α → Bool) :
    Config W S Op Ans α → Config W S Op Ans α → Prop
  | start {w : W} {s : S} {a : α} (e : E) (ha : again a = true) :
      Step K body again ⟨w, .done s a⟩ ⟨w, body e s⟩
  | answer {w w' : W} {s : S} {op : Op} {k : Ans → Res S Op Ans α} {r : Ans}
      (hk : K w s op r w') : Step K body again ⟨w, .call s op k⟩ ⟨w', k r⟩

/-- The configurations a thread passes through. -/
def Reach {E : Type} (K : W → S → Op → Ans → W → Prop) (body : E → Prog S Op Ans α)
    (again : α → Bool) :
    Config W S Op Ans α → Config W S Op Ans α → Prop :=
  Relation.ReflTransGen (Step K body again)

/-- A configuration at which the thread's invariants are visible: `P` at the
call it waits in, `Q` between two events, and no fault. -/
def Config.Shows (P : W → S → Op → Prop) (Q : W → S → α → Prop)
    (c : Config W S Op Ans α) : Prop :=
  match c.node with
  | .done s a => Q c.world s a
  | .call s op _ => P c.world s op
  | .fault _ => False

theorem Config.Shows.call {P : W → S → Op → Prop} {Q : W → S → α → Prop}
    {c : Config W S Op Ans α} (h : c.Shows P Q) {op : Op} (hop : c.node.waits = some op) :
    P c.world c.node.state op := by
  obtain ⟨w, r⟩ := c
  cases r with
  | done s a => cases hop
  | call s op' k =>
      cases hop
      exact h
  | fault s => cases hop

theorem Config.Shows.mono {P P' : W → S → Op → Prop} {Q Q' : W → S → α → Prop}
    {c : Config W S Op Ans α} (h : c.Shows P Q)
    (hP : ∀ w s op, P w s op → P' w s op) (hQ : ∀ w s a, Q w s a → Q' w s a) :
    c.Shows P' Q' := by
  obtain ⟨w, r⟩ := c
  cases r with
  | done s a => exact hQ w s a h
  | call s op k => exact hP w s op h
  | fault s => exact h

theorem shows_of_wp {K : W → S → Op → Ans → W → Prop} {P : W → S → Op → Prop}
    {Q : W → S → α → Prop} {c : Config W S Op Ans α}
    (h : wp K P Q c.node c.world) : c.Shows P Q := by
  obtain ⟨w, r⟩ := c
  cases r with
  | done s a => exact h
  | call s op k => exact h.1
  | fault s => exact h

section Run

variable {E : Type} {K : W → S → Op → Ans → W → Prop} {body : E → Prog S Op Ans α}
  {again : α → Bool} {P : W → S → Op → Prop} {Q : W → S → α → Prop}

/-- One step keeps the specification of what is left to run, if every event
re-establishes it. -/
theorem wp_step (hbody : ∀ e w s a, again a = true → Q w s a →
      wp K P Q (body e s) w)
    {c c' : Config W S Op Ans α} (hs : Step K body again c c')
    (h : wp K P Q c.node c.world) : wp K P Q c'.node c'.world := by
  cases hs with
  | start e ha => exact hbody e _ _ _ ha h
  | answer hk => exact h.2 _ _ hk

/-- Whole runs: an invariant that every event re-establishes is visible in
every configuration reached. -/
theorem wp_reach (hbody : ∀ e w s a, again a = true → Q w s a →
      wp K P Q (body e s) w)
    {c c' : Config W S Op Ans α} (hr : Reach K body again c c')
    (h : wp K P Q c.node c.world) : wp K P Q c'.node c'.world := by
  induction hr with
  | refl => exact h
  | tail _ hs ih => exact wp_step hbody hs ih

/-- A kernel with more answers has more runs. -/
theorem Reach.mono {K' : W → S → Op → Ans → W → Prop}
    (hK : ∀ w s op r w', K w s op r w' → K' w s op r w') {c c' : Config W S Op Ans α}
    (hr : Reach K body again c c') : Reach K' body again c c' := by
  induction hr with
  | refl => exact .refl
  | tail _ hs ih =>
      cases hs with
      | start e ha => exact ih.tail (.start e ha)
      | answer hk => exact ih.tail (.answer (hK _ _ _ _ _ hk))

/-- A kernel whose answers another kernel can give as well: the thread runs
there in the same way, and the worlds stay related. -/
theorem Reach.simulate {V : Type} {L : V → S → Op → Ans → V → Prop} {R : W → V → Prop}
    (hK : ∀ {w s op r w' v}, R w v → K w s op r w' → ∃ v', L v s op r v' ∧ R w' v')
    {c c' : Config W S Op Ans α} (hr : Reach K body again c c') {v : V} (h : R c.world v) :
    ∃ v', Reach L body again ⟨v, c.node⟩ ⟨v', c'.node⟩ ∧ R c'.world v' := by
  induction hr with
  | refl => exact ⟨v, .refl, h⟩
  | tail _ hs ih =>
      obtain ⟨v₁, hr₁, h₁⟩ := ih
      cases hs with
      | start e ha => exact ⟨v₁, hr₁.tail (.start e ha), h₁⟩
      | answer hk =>
          obtain ⟨v', hk', h'⟩ := hK h₁ hk
          exact ⟨v', hr₁.tail (.answer hk'), h'⟩

/-- A property of the world that every answer keeps holds in every
configuration reached. -/
theorem world_reach {I : W → Prop} (hI : ∀ w s op r w', I w → K w s op r w' → I w')
    {c c' : Config W S Op Ans α} (hr : Reach K body again c c')
    (h : I c.world) : I c'.world := by
  induction hr with
  | refl => exact h
  | tail _ hs ih =>
      cases hs with
      | start e ha => exact ih
      | answer hk => exact hI _ _ _ _ _ ih hk

/-- What every answer keeps may be assumed of the answers of a run. -/
theorem Reach.assuming {I : W → Prop} (hI : ∀ w s op r w', I w → K w s op r w' → I w')
    {c c' : Config W S Op Ans α} (hr : Reach K body again c c') (h : I c.world) :
    Reach (fun w s op r w' => K w s op r w' ∧ I w) body again c c' := by
  induction hr with
  | refl => exact .refl
  | tail hr hs ih =>
      cases hs with
      | start e ha => exact ih.tail (.start e ha)
      | answer hk => exact ih.tail (.answer ⟨hk, world_reach hI hr h⟩)

end Run

/-! ## Runs that exist -/

section Exist

variable {E : Type} {K K₁ : W → S → Op → Ans → W → Prop} {body : E → Prog S Op Ans α}
  {again : α → Bool} {P : W → S → Op → Prop} {Q : W → S → α → Prop}

/-- A specification against a part `K₁` of the kernel that has an answer to
every call it allows, those in `G` excepted, describes a run: it ends where
`Q` holds, or waits in a call of `G`. -/
theorem exists_run_until {G : W → S → Op → Prop} {n : Res S Op Ans α} {w : W}
    (h : wp K₁ P Q n w) (hK : ∀ w s op r w', K₁ w s op r w' → K w s op r w')
    (hlive : ∀ w s op, P w s op → G w s op ∨ ∃ r w', K₁ w s op r w') :
    ∃ c : Config W S Op Ans α, Reach K body again ⟨w, n⟩ c ∧
      ((∃ op, c.node.waits = some op ∧ G c.world c.node.state op) ∨
        ∃ s a, c.node = .done s a ∧ Q c.world s a) := by
  induction n generalizing w with
  | done s a => exact ⟨_, .refl, .inr ⟨s, a, rfl, h⟩⟩
  | fault s => exact h.elim
  | call s op k ih =>
      rcases hlive w s op h.1 with hG | ⟨r, w', hk⟩
      · exact ⟨_, .refl, .inl ⟨op, rfl, hG⟩⟩
      · obtain ⟨c, hc, hres⟩ := ih r (h.2 r w' hk)
        exact ⟨c, .head (.answer (hK _ _ _ _ _ hk)) hc, hres⟩

/-- The same without exceptions. -/
theorem exists_run {n : Res S Op Ans α} {w : W} (h : wp K₁ P Q n w)
    (hK : ∀ w s op r w', K₁ w s op r w' → K w s op r w')
    (hlive : ∀ w s op, P w s op → ∃ r w', K₁ w s op r w') :
    ∃ w' s a, Reach K body again ⟨w, n⟩ ⟨w', .done s a⟩ ∧ Q w' s a := by
  obtain ⟨⟨w', n'⟩, hc, ⟨_, _, hF⟩ | ⟨s, a, hn, hq⟩⟩ :=
    exists_run_until (G := fun _ _ _ => False) h hK fun w s op hp => .inr (hlive w s op hp)
  · exact hF.elim
  · subst hn
    exact ⟨w', s, a, hc, hq⟩

/-- **Progress.**  If an event that starts where `I` holds and the goal is not
reached makes a bounded measure grow, some run reaches the goal. -/
theorem exists_run_progress {I G : W → S → α → Prop} (μ : W → Nat) (bound : Nat) (e : E)
    (hbound : ∀ {w s a}, I w s a → μ w ≤ bound)
    (hagain : ∀ {w s a}, I w s a → again a = true)
    (hevent : ∀ {w s a}, I w s a → ¬ G w s a →
      wp K P (fun w' s' a' => I w' s' a' ∧ μ w < μ w') (body e s) w)
    (hlive : ∀ w s op, P w s op → ∃ r w', K w s op r w') {w : W} {s : S} {a : α}
    (h : I w s a) :
    ∃ w' s' a', Reach K body again ⟨w, .done s a⟩ ⟨w', .done s' a'⟩ ∧ G w' s' a' := by
  induction hn : bound - μ w using Nat.strongRecOn generalizing w s a with
  | ind n ih =>
      by_cases hg : G w s a
      · exact ⟨w, s, a, .refl, hg⟩
      · have hrun : ∃ w₁ s₁ a₁, Reach K body again ⟨w, body e s⟩ ⟨w₁, .done s₁ a₁⟩ ∧
            I w₁ s₁ a₁ ∧ μ w < μ w₁ :=
          exists_run (hevent h hg) (fun _ _ _ _ _ hk => hk) hlive
        obtain ⟨w₁, s₁, a₁, hr₁, h₁, hgrow⟩ := hrun
        have hle := hbound h₁
        obtain ⟨w', s', a', hr, hg'⟩ := ih (bound - μ w₁) (by omega) h₁ rfl
        exact ⟨w', s', a', .head (.start e (hagain h)) (hr₁.trans hr), hg'⟩

/-- A node that no specification covers, not even one that allows every call
and every end, is a fault. -/
theorem faulted_of_not_wp {n : Res S Op Ans α} {w : W}
    (h : ¬ wp (fun (_ : W) _ _ _ _ => False) (fun _ _ _ => True) (fun _ _ _ => True) n w) :
    n.faulted = true := by
  cases n with
  | done s a => exact absurd True.intro h
  | call s op k => exact absurd ⟨True.intro, fun _ _ hF => hF.elim⟩ h
  | fault s => rfl

end Exist

/-! ## Running a thread on given answers -/

/-- What happens next to a thread: an event, or the answer to its call. -/
inductive Act (E Ans : Type) where
  | event (e : E)
  | answer (r : Ans)

section Exec

variable {E : Type} (deliver : W → S → Op → Ans → Option W)
  (body : E → Prog S Op Ans α) (again : α → Bool)

/-- One action, where the world takes it: `deliver` says whether an answer is
one the kernel may give, and what it leaves. -/
def Config.act : Act E Ans → Config W S Op Ans α → Option (Config W S Op Ans α)
  | .event e, ⟨w, .done s a⟩ => if again a then some ⟨w, body e s⟩ else none
  | .answer r, ⟨w, .call s op k⟩ => (deliver w s op r).map fun w' => ⟨w', k r⟩
  | _, _ => none

/-- A list of actions. -/
def Config.exec : List (Act E Ans) → Config W S Op Ans α →
    Option (Config W S Op Ans α)
  | [], c => some c
  | a :: as, c => (c.act deliver body again a).bind (Config.exec as)

variable {deliver} {body} {again} {K : W → S → Op → Ans → W → Prop}

theorem step_of_act (hK : ∀ {w s op r w'}, deliver w s op r = some w' → K w s op r w')
    {a : Act E Ans} {c c' : Config W S Op Ans α}
    (h : c.act deliver body again a = some c') : Step K body again c c' := by
  obtain ⟨w, n⟩ := c
  cases a with
  | event e =>
      cases n with
      | done s a =>
          simp only [Config.act] at h
          split at h
          · next ha =>
              cases h
              exact .start e ha
          · cases h
      | call s op k => cases h
      | fault s => cases h
  | answer r =>
      cases n with
      | done s a => cases h
      | call s op k =>
          simp only [Config.act, Option.map_eq_some_iff] at h
          obtain ⟨w', hw, rfl⟩ := h
          exact .answer (hK hw)
      | fault s => cases h

/-- A list of actions that the world takes is a run. -/
theorem reach_of_exec (hK : ∀ {w s op r w'}, deliver w s op r = some w' → K w s op r w')
    {as : List (Act E Ans)} {c c' : Config W S Op Ans α}
    (h : c.exec deliver body again as = some c') : Reach K body again c c' := by
  induction as generalizing c with
  | nil =>
      cases h
      exact .refl
  | cons a as ih =>
      simp only [Config.exec, Option.bind_eq_some_iff] at h
      obtain ⟨c₁, h₁, h₂⟩ := h
      exact .head (step_of_act hK h₁) (ih h₂)

/-- A run on given answers that ends where `p` holds. -/
theorem exists_reach_of_exec (deliver : W → S → Op → Ans → Option W)
    (hK : ∀ {w s op r w'}, deliver w s op r = some w' → K w s op r w')
    (as : List (Act E Ans)) {c : Config W S Op Ans α}
    (p : Config W S Op Ans α → Prop) [DecidablePred p]
    (h : (c.exec deliver body again as).any (fun c' => decide (p c')) = true) :
    ∃ c', Reach K body again c c' ∧ p c' := by
  rw [Option.any_eq_true] at h
  obtain ⟨c', hc, hp⟩ := h
  exact ⟨c', reach_of_exec hK hc, of_decide_eq_true hp⟩

end Exec

end ZeroCopyProxy.Verified.Resumption
