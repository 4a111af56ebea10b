import ZeroCopyProxy.Verified.Liberal

/-!
# Two runs on the same answers

A thread that serves its loop on a given list of answers leaves a log: each
call with its answer, and the call it waits in at the end.  `lockstep` relates
two threads that issue the same calls whatever the answers are; threads in
lockstep leave the same logs (`log_of_lockstep`), so a program that takes
related states to related states cannot tell them apart.

To show that two logs differ, one runs both threads against the kernel that
plays the list: `log_all` bounds what a log can contain, and `log_of_wp` says
what it is, where no fault comes in between.
-/

namespace ZeroCopyProxy.Verified.TwoRuns

open ZeroCopyProxy.Verified.Resumption
open ZeroCopyProxy.Verified.Liberal

variable {S Op Ans α β : Type}

/-! ## Lockstep -/

/-- The threads issue the same calls whatever the answers are, fault together,
and end together where `Q` holds. -/
def lockstep (Q : S → α → S → α → Prop) : Res S Op Ans α → Res S Op Ans α → Prop
  | .done s a, .done s' a' => Q s a s' a'
  | .call _ op k, .call _ op' k' => op = op' ∧ ∀ r, lockstep Q (k r) (k' r)
  | .fault _, .fault _ => True
  | _, _ => False

section Rules

variable {Q : S → α → S → α → Prop}

/-- Consequence. -/
theorem lockstep_post {Q' : S → α → S → α → Prop} (hQ : ∀ s a s' a', Q s a s' a' → Q' s a s' a')
    {r r' : Res S Op Ans α} (h : lockstep Q r r') : lockstep Q' r r' := by
  induction r generalizing r' with
  | done s a =>
      cases r' with
      | done s' a' => exact hQ s a s' a' h
      | call | fault => exact h.elim
  | call s op k ih =>
      cases r' with
      | call s' op' k' => exact ⟨h.1, fun r => ih r (h.2 r)⟩
      | done | fault => exact h.elim
  | fault s =>
      cases r' with
      | fault s' => exact True.intro
      | done | call => exact h.elim

/-- Sequencing. -/
theorem lockstep_bind {Q : S → β → S → β → Prop} {p p' : Prog S Op Ans α}
    {f f' : α → Prog S Op Ans β} {s s' : S}
    (h : lockstep (fun s a s' a' => lockstep Q (f a s) (f' a' s')) (p s) (p' s')) :
    lockstep Q ((p >>= f) s) ((p' >>= f') s') := by
  show lockstep Q ((p s).bind fun s a => f a s) ((p' s').bind fun s a => f' a s)
  revert h
  generalize p s = r
  generalize p' s' = r'
  intro h
  induction r generalizing r' with
  | done s a =>
      cases r' with
      | done s' a' => exact h
      | call | fault => exact h.elim
  | call s op k ih =>
      cases r' with
      | call s' op' k' => exact ⟨h.1, fun r => ih r (k' r) (h.2 r)⟩
      | done | fault => exact h.elim
  | fault s =>
      cases r' with
      | fault s' => exact True.intro
      | done | call => exact h.elim

theorem lockstep_done (a a' : α) (s s' : S) :
    lockstep Q (.done s a : Res S Op Ans α) (.done s' a') ↔ Q s a s' a' := Iff.rfl

/-! In front of a rest. -/

section Before

variable {Q : S → β → S → β → Prop}

theorem lockstep_state_bind (f f' : S → Prog S Op Ans β) (s s' : S) :
    lockstep Q ((Prog.state >>= f) s) ((Prog.state >>= f') s') ↔
      lockstep Q (f s s) (f' s' s') := Iff.rfl

theorem lockstep_update_bind (g g' : S → S) (f f' : Unit → Prog S Op Ans β) (s s' : S) :
    lockstep Q ((Prog.update g >>= f) s) ((Prog.update g' >>= f') s') ↔
      lockstep Q (f () (g s)) (f' () (g' s')) := Iff.rfl

theorem lockstep_call_bind (op op' : Op) (f f' : Ans → Prog S Op Ans β) (s s' : S) :
    lockstep Q ((Prog.call op >>= f) s) ((Prog.call op' >>= f') s') ↔
      op = op' ∧ ∀ r, lockstep Q (f r s) (f' r s') := Iff.rfl

end Before

/-- Both conditions decide the same way. -/
theorem lockstep_ite {c c' : Prop} [Decidable c] [Decidable c'] {p q p' q' : Prog S Op Ans α}
    {s s' : S} (hc : c ↔ c') (hp : c → c' → lockstep Q (p s) (p' s'))
    (hq : ¬ c → ¬ c' → lockstep Q (q s) (q' s')) :
    lockstep Q ((if c then p else q) s) ((if c' then p' else q') s') := by
  by_cases h : c
  · rw [if_pos h, if_pos (hc.1 h)]
    exact hp h (hc.1 h)
  · rw [if_neg h, if_neg fun h' => h (hc.2 h')]
    exact hq h fun h' => h (hc.2 h')

theorem lockstep_guarded {Q : S → Unit → S → Unit → Prop} {c : S → Prop} [DecidablePred c]
    {p : Prog S Op Ans Unit} {s s' : S} (hc : c s ↔ c s')
    (hp : c s → c s' → lockstep Q (p s) (p s')) (hq : ¬ c s → ¬ c s' → Q s () s' ()) :
    lockstep Q (Prog.guarded c p s) (Prog.guarded c p s') := by
  unfold Prog.guarded
  by_cases h : c s
  · rw [if_pos h, if_pos (hc.1 h)]
    exact hp h (hc.1 h)
  · rw [if_neg h, if_neg fun h' => h (hc.2 h')]
    exact hq h fun h' => h (hc.2 h')

/-- Partial operations that are defined together. -/
theorem lockstep_orFault {o o' : Option α} {s s' : S}
    (h : (o = none ∧ o' = none) ∨ ∃ a a', o = some a ∧ o' = some a' ∧ Q s a s' a') :
    lockstep Q ((Prog.orFault o : Prog S Op Ans α) s)
      ((Prog.orFault o' : Prog S Op Ans α) s') := by
  rcases h with ⟨rfl, rfl⟩ | ⟨a, a', rfl, rfl, hq⟩
  · exact True.intro
  · exact hq

/-- The same partial operation. -/
theorem lockstep_orFault_same {o o' : Option α} {s s' : S} (ho : o' = o)
    (h : ∀ a, o = some a → Q s a s' a) :
    lockstep Q ((Prog.orFault o : Prog S Op Ans α) s)
      ((Prog.orFault o' : Prog S Op Ans α) s') := by
  subst ho
  cases o' with
  | none => exact True.intro
  | some a => exact h a rfl

/-- A program on a part of the state, seen on the whole state. -/
theorem lockstep_zoom {T : Type} {Q : T → α → T → α → Prop} (get : T → S) (put : T → S → T)
    (p : Prog S Op Ans α) (t t' : T) :
    lockstep Q (Prog.zoom get put p t) (Prog.zoom get put p t') ↔
      lockstep (fun s a s' a' => Q (put t s) a (put t' s') a') (p (get t)) (p (get t')) := by
  unfold Prog.zoom
  generalize p (get t) = r
  generalize p (get t') = r'
  induction r generalizing r' with
  | done s a =>
      cases r' with
      | done | call | fault => exact Iff.rfl
  | call s op k ih =>
      cases r' with
      | call s' op' k' => exact and_congr_right fun _ => forall_congr' fun r => ih r (k' r)
      | done | fault => exact Iff.rfl
  | fault s =>
      cases r' with
      | done | call | fault => exact Iff.rfl

end Rules

/-! ## Logs -/

section Log

variable (body : Prog S Op Ans α) (again : α → Bool)

/-- A thread between two rounds goes on to the next one. -/
def resume : Res S Op Ans α → Res S Op Ans α
  | .done s a => if again a then body s else .done s a
  | .call s op k => .call s op k
  | .fault s => .fault s

/-- What a thread does on these answers: its calls with their answers, and the
call it waits in when there are no more. -/
def log : Res S Op Ans α → List Ans → List (Op × Option Ans)
  | n, [] =>
    match resume body again n with
    | .call _ op _ => [(op, none)]
    | _ => []
  | n, r :: rs =>
    match resume body again n with
    | .call _ op k => (op, some r) :: log (k r) rs
    | _ => []

variable {body} {again}

theorem log_fault (s : S) (rs : List Ans) : log body again (.fault s) rs = [] := by
  cases rs <;> rfl

/-- The next round. -/
theorem log_again {s : S} {a : α} (ha : again a = true) (hcalls : (body s).waits ≠ none)
    (rs : List Ans) : log body again (.done s a) rs = log body again (body s) rs := by
  have hresume : resume body again (.done s a) = resume body again (body s) := by
    rw [resume, if_pos ha]
    cases hb : body s with
    | call s' op k => rfl
    | fault s' => rfl
    | done s' a' =>
        rw [hb] at hcalls
        exact absurd rfl hcalls
  cases rs with
  | nil => rw [log, log, hresume]
  | cons r rs => rw [log, log, hresume]

/-- A shorter list of answers leaves the beginning of the log. -/
theorem log_prefix {n : Res S Op Ans α} {rs₁ rs₂ : List Ans} {r : Ans} {op : Op}
    {es₁ es₂ : List (Op × Option Ans)}
    (h : log body again n (rs₁ ++ r :: rs₂) = es₁ ++ (op, some r) :: es₂)
    (hlen : es₁.length = rs₁.length) : log body again n rs₁ = es₁ ++ [(op, none)] := by
  induction rs₁ generalizing n es₁ with
  | nil =>
      obtain rfl : es₁ = [] := List.eq_nil_of_length_eq_zero hlen
      simp only [List.nil_append, log] at h ⊢
      cases hn : resume body again n with
      | call s op' k =>
          simp only [hn] at h ⊢
          obtain ⟨he, -⟩ := List.cons.inj h
          rw [(Prod.mk.inj he).1]
      | done | fault =>
          simp only [hn] at h
          cases h
  | cons r₁ rs₁ ih =>
      cases es₁ with
      | nil => cases hlen
      | cons e es₁ =>
          simp only [List.cons_append, log] at h ⊢
          cases hn : resume body again n with
          | call s op' k =>
              simp only [hn] at h ⊢
              obtain ⟨he, hrest⟩ := List.cons.inj h
              rw [ih hrest (Nat.succ.inj hlen), he]
          | done | fault =>
              simp only [hn] at h
              cases h

/-- Threads in lockstep leave the same logs. -/
theorem log_of_lockstep {Q : S → α → S → α → Prop}
    (hQ : ∀ s a s' a', Q s a s' a' →
      a = a' ∧ (again a = true → lockstep Q (body s) (body s')))
    {n n' : Res S Op Ans α} (h : lockstep Q n n') (rs : List Ans) :
    log body again n rs = log body again n' rs := by
  have hresume : ∀ {n n'}, lockstep Q n n' →
      lockstep Q (resume body again n) (resume body again n') := by
    intro n n' h
    cases n with
    | done s a =>
        cases n' with
        | done s' a' =>
            obtain ⟨rfl, hbody⟩ := hQ s a s' a' h
            by_cases ha : again a = true
            · rw [resume, resume, if_pos ha, if_pos ha]
              exact hbody ha
            · rw [resume, resume, if_neg ha, if_neg ha]
              exact h
        | call | fault => exact h.elim
    | call s op k =>
        cases n' with
        | call => exact h
        | done | fault => exact h.elim
    | fault s =>
        cases n' with
        | fault => exact h
        | done | call => exact h.elim
  induction rs generalizing n n' with
  | nil =>
      have h' := hresume h
      rw [log, log]
      revert h'
      cases resume body again n <;> cases resume body again n' <;> intro h'
      case call.call => rw [h'.1]
      all_goals first | rfl | exact h'.elim
  | cons r rs ih =>
      have h' := hresume h
      rw [log, log]
      revert h'
      cases resume body again n <;> cases resume body again n' <;> intro h'
      case call.call => simp only [h'.1, ih (h'.2 r)]
      all_goals first | rfl | exact h'.elim

/-- The kernel that plays a list of answers. -/
def plays (w : List Ans) (_ : S) (_ : Op) (r : Ans) (w' : List Ans) : Prop := w = r :: w'

/-- There is no answer any more. -/
theorem plays_nil {s : S} {op : Op} {r : Ans} {w : List Ans} : ¬ plays [] s op r w := by
  intro h
  cases h

/-- Whatever is in a log, faulted or not. -/
theorem log_all {E : Op × Option Ans → Prop} {n : Res S Op Ans α} {rs : List Ans}
    (h : wlp plays (fun w _ op => E (op, w.head?))
      (fun w s a => ∀ e ∈ log body again (.done s a) w, E e) n rs) :
    ∀ e ∈ log body again n rs, E e := by
  induction n generalizing rs with
  | done s a => exact h
  | fault s =>
      rw [log_fault]
      exact fun e he => absurd he List.not_mem_nil
  | call s op k ih =>
      cases rs with
      | nil => exact List.forall_mem_singleton.2 h.1
      | cons r rs => exact List.forall_mem_cons.2 ⟨h.1, ih r (h.2 r rs rfl)⟩

/-- The kernel that plays a list of answers, where they fit, and keeps the
log. -/
def records (fits : Op → Ans → Prop) (w : List Ans × List (Op × Option Ans)) (_ : S) (op : Op)
    (r : Ans) (w' : List Ans × List (Op × Option Ans)) : Prop :=
  w.1 = r :: w'.1 ∧ w'.2 = w.2 ++ [(op, some r)] ∧ fits op r

/-- The next answer fits; after the last one the log, with this call in it,
satisfies `G`. -/
def Fitting (fits : Op → Ans → Prop) (G : List (Op × Option Ans) → Prop)
    (w : List Ans × List (Op × Option Ans)) (_ : S) (op : Op) : Prop :=
  match w.1 with
  | [] => G (w.2 ++ [(op, none)])
  | r :: _ => fits op r

theorem records_nil {fits : Op → Ans → Prop} {r : Ans} {es : List (Op × Option Ans)} {s : S}
    {op : Op} {w' : List Ans × List (Op × Option Ans)} : ¬ records fits ([], es) s op r w' := by
  intro h
  cases h.1

/-- The kernel gives the next answer. -/
theorem records_cons {fits : Op → Ans → Prop} {r r' : Ans} {rs : List Ans}
    {es : List (Op × Option Ans)} {s : S} {op : Op} {w' : List Ans × List (Op × Option Ans)}
    (h : records fits (r :: rs, es) s op r' w') :
    r' = r ∧ w' = (rs, es ++ [(op, some r)]) ∧ fits op r := by
  obtain ⟨rs', es'⟩ := w'
  obtain ⟨hrest, hes, hfits⟩ := h
  obtain ⟨rfl, rfl⟩ := List.cons.inj hrest
  exact ⟨rfl, Prod.ext rfl hes, hfits⟩

/-- What a log is, where every answer fits. -/
theorem log_of_wp {fits : Op → Ans → Prop} {G : List (Op × Option Ans) → Prop}
    {n : Res S Op Ans α} {rs : List Ans} {es : List (Op × Option Ans)}
    (h : wp (records fits) (Fitting fits G) (fun w s a => G (w.2 ++ log body again (.done s a) w.1))
      n (rs, es)) : G (es ++ log body again n rs) := by
  induction n generalizing rs es with
  | done s a => exact h
  | fault s => exact h.elim
  | call s op k ih =>
      cases rs with
      | nil => exact h.1
      | cons r rs =>
          have hrest := ih r (h.2 r (rs, es ++ [(op, some r)]) ⟨rfl, rfl, h.1⟩)
          rw [List.append_assoc] at hrest
          exact hrest

end Log

end ZeroCopyProxy.Verified.TwoRuns
