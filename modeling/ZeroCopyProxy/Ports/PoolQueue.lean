import ZeroCopyProxy.Ports.ThreadPool

/-!
# The thread pool loses, repeats and reorders nothing

While the pool is not stopped, its works are a linked list from `work_first`
to `work_last`, and every other work is held by exactly one thread: the one
that has allocated and not yet queued it, or the worker that has taken and not
yet freed it.  `Shape` is this ownership of the cells together with the order
of the works; four operations on it, `Shape.take`, `Shape.release`,
`Shape.create` and `Shape.append`, are all that the steps of the pool do.
-/

namespace ZeroCopyProxy.Ports.PoolQueue

open ZeroCopyProxy.Verified.LinkedHeap
open ZeroCopyProxy.Verified.Transitions
open ZeroCopyProxy.Ports.ThreadPool

variable {F A : Type} {num : UInt64} {κ : Type} [DecidableEq κ]

/-! ## Who holds a work -/

/-- A thread of the pool. -/
inductive Owner (num : UInt64) (κ : Type) where
  | worker (i : Worker num)
  | client (k : κ)
  deriving DecidableEq

/-- The work a worker holds. -/
def heldBy : WorkerPc → Option Addr
  | .took work => work
  | .running work => some work
  | _ => none

/-- The work a thread is about to add. -/
def heldIn : ClientPc → Option Addr
  | .adding work => some work
  | _ => none

/-- The work each thread holds. -/
def holds (worker : Worker num → WorkerPc) (client : κ → ClientPc) :
    Owner num κ → Option Addr
  | .worker i => heldBy (worker i)
  | .client k => heldIn (client k)

omit [DecidableEq κ] in
theorem holds_of_worker {worker : Worker num → WorkerPc} {client : κ → ClientPc}
    {i : Worker num} {pc : WorkerPc} (hi : worker i = pc) {work : Addr}
    (hpc : heldBy pc = some work) : holds worker client (.worker i) = some work := by
  rw [← hpc, ← hi]
  rfl

omit [DecidableEq κ] in
theorem holds_of_client {worker : Worker num → WorkerPc} {client : κ → ClientPc} {k : κ}
    {pc : ClientPc} (hk : client k = pc) {work : Addr} (hpc : heldIn pc = some work) :
    holds worker client (.client k) = some work := by
  rw [← hpc, ← hk]
  rfl

theorem holds_worker (worker : Worker num → WorkerPc) (client : κ → ClientPc)
    (i : Worker num) (pc : WorkerPc) :
    holds (Function.update worker i pc) client =
      Function.update (holds worker client) (.worker i) (heldBy pc) := by
  funext o
  cases o with
  | worker j =>
      by_cases hj : j = i
      · subst hj
        simp [holds]
      · have hne : Owner.worker (κ := κ) j ≠ .worker i := fun h => hj (Owner.worker.inj h)
        simp [holds, hj, hne]
  | client k =>
      simp [holds]

theorem holds_client (worker : Worker num → WorkerPc) (client : κ → ClientPc) (k : κ)
    (pc : ClientPc) :
    holds worker (Function.update client k pc) =
      Function.update (holds worker client) (.client k) (heldIn pc) := by
  funext o
  cases o with
  | worker i =>
      simp [holds]
  | client j =>
      by_cases hj : j = k
      · subst hj
        simp [holds]
      · have hne : (.client j : Owner num κ) ≠ .client k := fun h => hj (Owner.client.inj h)
        simp [holds, hj, hne]

section Update

variable {f : Owner num κ → Option Addr} {o : Owner num κ} {v : Option Addr}

/-- A work held after an update is the new one of that thread or an old one of
another. -/
theorem of_update {o' : Owner num κ} {a : Addr} (h : Function.update f o v o' = some a) :
    (o' = o ∧ v = some a) ∨ (o' ≠ o ∧ f o' = some a) := by
  by_cases ho : o' = o
  · rw [ho, Function.update_self] at h
    exact .inl ⟨ho, h⟩
  · rw [Function.update_of_ne ho] at h
    exact .inr ⟨ho, h⟩

/-- What holds of every held work, after one thread's work has changed. -/
theorem forall_update {P : Owner num κ → Addr → Prop} (h : ∀ o a, f o = some a → P o a)
    (hv : ∀ a, v = some a → P o a) :
    ∀ o' a, Function.update f o v o' = some a → P o' a := by
  intro o' a ha
  obtain ⟨rfl, hva⟩ | ⟨_, hf⟩ := of_update ha
  · exact hv a hva
  · exact h o' a hf

/-- The same of the works that the threads using the pool hold. -/
theorem forall_client_update {P : Addr → Prop} {k : κ}
    (h : ∀ k a, f (.client k) = some a → P a) (hv : ∀ a, v = some a → P a) :
    ∀ k' a, Function.update f (.client k) v (.client k') = some a → P a := by
  intro k' a ha
  obtain ⟨_, hva⟩ | ⟨_, hf⟩ := of_update ha
  · exact hv a hva
  · exact h k' a hf

/-- No two threads hold the same work. -/
def Excl (f : Owner num κ → Option Addr) : Prop :=
  ∀ o o' a, f o = some a → f o' = some a → o = o'

theorem excl_update (h : Excl f) (hv : ∀ a, v = some a → ∀ o', f o' = some a → o' = o) :
    Excl (Function.update f o v) := by
  intro o₁ o₂ a h₁ h₂
  obtain ⟨ho₁, hv₁⟩ | ⟨_, hf₁⟩ := of_update h₁
  · obtain ⟨ho₂, _⟩ | ⟨_, hf₂⟩ := of_update h₂
    · rw [ho₁, ho₂]
    · rw [ho₁, hv a hv₁ o₂ hf₂]
  · obtain ⟨ho₂, hv₂⟩ | ⟨_, hf₂⟩ := of_update h₂
    · rw [ho₂, hv a hv₂ o₁ hf₁]
    · exact h o₁ o₂ a hf₁ hf₂

/-- A work its holder has put down is held by nobody. -/
theorem Excl.ne_update (h : Excl f) {a : Addr} (ha : f o = some a) :
    ∀ o' a', Function.update f o none o' = some a' → a' ≠ a := by
  rintro o' a' ha' rfl
  obtain ⟨_, hnone⟩ | ⟨ho, hf⟩ := of_update ha'
  · cases hnone
  · exact ho (h o' o a' hf ha)

end Update

/-! ## Every work has its place -/

/-- The works are the list `ws` in the queue and one cell for each thread that
holds one; taken and queued works together are the works added, in order. -/
structure Shape (works : Heap (JpoolWork F A)) (first last : Option Addr)
    (f : Owner num κ → Option Addr) (taken added : List (F × A)) (ws : List Addr) :
    Prop where
  links : Links JpoolWork.next works first ws
  last_eq : last = ws.getLast?
  held : ∀ o a, f o = some a → ∃ node, works.get a = some node
  fresh : ∀ k a, f (.client k) = some a →
    ∃ node, works.get a = some node ∧ node.next = none
  excl : Excl f
  apart : ∀ o a, f o = some a → a ∉ ws
  order : taken ++ ws.filterMap (State.job works) = added

theorem job_congr {works works' : Heap (JpoolWork F A)} {a : Addr}
    (h : works'.get a = works.get a) : State.job works' a = State.job works a := by
  rw [State.job, State.job, h]

namespace Shape

variable {works : Heap (JpoolWork F A)} {first last : Option Addr}
  {f : Owner num κ → Option Addr} {taken added : List (F × A)} {ws : List Addr}

omit [DecidableEq κ] in
/-- A work that a thread holds has not been freed. -/
theorem held_ne_none (h : Shape works first last f taken added ws) {o : Owner num κ}
    {work : Addr} (ho : f o = some work) : works.get work ≠ none := by
  obtain ⟨v, hv⟩ := h.held o work ho
  rw [hv]
  exact Option.some_ne_none v

omit [DecidableEq κ] in
/-- The first work of the queue has not been freed. -/
theorem first_ne_none (h : Shape works first last f taken added ws) {work : Addr}
    (hfirst : first = some work) : works.get work ≠ none := by
  have hlinks := h.links
  cases ws with
  | nil => exact absurd (hfirst.symm.trans hlinks) (by simp)
  | cons a ws' =>
      obtain ⟨ha, v, hv, _⟩ := hlinks
      obtain rfl := Option.some.inj (hfirst.symm.trans ha)
      rw [hv]
      exact Option.some_ne_none v

omit [DecidableEq κ] in
/-- A queue that is not empty has a last work, which has not been freed. -/
theorem exists_last (h : Shape works first last f taken added ws) {work : Addr}
    (hfirst : first = some work) : ∃ l, last = some l ∧ works.get l ≠ none := by
  have hne : ws ≠ [] := by
    rintro rfl
    exact absurd (hfirst.symm.trans h.links) (by simp)
  obtain ⟨v, hv⟩ := links_get h.links (List.getLast_mem hne)
  refine ⟨ws.getLast hne, ?_, ?_⟩
  · rw [h.last_eq, List.getLast?_eq_some_getLast hne]
  · rw [hv]
    exact Option.some_ne_none v

/-- A worker takes the first work. -/
theorem take (h : Shape works first last f taken added ws) (i : Worker num) {work : Addr}
    {node : JpoolWork F A} (hfirst : first = some work) (hnode : works.get work = some node) :
    ∃ ws', ws = work :: ws' ∧
      Shape works node.next (if node.next = none then none else last)
        (Function.update f (.worker i) (some work))
        (taken ++ [(node.func, node.arg)]) added ws' := by
  obtain ⟨ws', rfl⟩ : ∃ ws', ws = work :: ws' := by
    have hlinks := h.links
    cases ws with
    | nil => exact absurd (hfirst.symm.trans hlinks) (by simp)
    | cons a ws' =>
        obtain rfl := Option.some.inj (hfirst.symm.trans hlinks.1)
        exact ⟨ws', rfl⟩
  obtain ⟨_, v, hv, hrest⟩ := h.links
  obtain rfl := Option.some.inj (hnode.symm.trans hv)
  have hwork : work ∉ ws' := (List.nodup_cons.1 (links_nodup h.links)).1
  refine ⟨ws', rfl, ?_⟩
  constructor
  case links => exact hrest
  case last_eq =>
    cases ws' with
    | nil =>
        rw [show node.next = none from hrest]
        rfl
    | cons b ws'' =>
        rw [show node.next = some b from hrest.1, if_neg (by simp), h.last_eq]
        rfl
  case held => exact forall_update h.held (by rintro a ⟨⟩; exact ⟨node, hnode⟩)
  case fresh =>
    intro k a ha
    rw [Function.update_of_ne (by simp)] at ha
    exact h.fresh k a ha
  case excl =>
    refine excl_update h.excl ?_
    rintro a ⟨⟩ o' ho'
    exact absurd List.mem_cons_self (h.apart o' work ho')
  case apart =>
    refine forall_update (fun o a ha hmem => ?_) (by rintro a ⟨⟩; exact hwork)
    exact h.apart o a ha (List.mem_cons_of_mem _ hmem)
  case order =>
    have horder := h.order
    have hjob : State.job works work = some (node.func, node.arg) := by
      simp [State.job, hnode]
    rw [List.filterMap_cons_some hjob] at horder
    rw [List.append_assoc]
    exact horder

/-- A worker frees the work it holds. -/
theorem release (h : Shape works first last f taken added ws) {i : Worker num}
    {work : Addr} (hi : f (.worker i) = some work) :
    Shape (works.free work) first last (Function.update f (.worker i) none) taken added
      ws := by
  have hother : ∀ o a, Function.update f (.worker i) none o = some a →
      (works.free work).get a = works.get a :=
    fun o a ha => Heap.get_free_ne works (h.excl.ne_update hi o a ha)
  have hqueued : ∀ a ∈ ws, (works.free work).get a = works.get a := by
    intro a ha
    apply Heap.get_free_ne
    rintro rfl
    exact h.apart _ a hi ha
  constructor
  case links => exact links_congr hqueued h.links
  case last_eq => exact h.last_eq
  case held =>
    intro o a ha
    rw [hother o a ha]
    exact forall_update h.held (by rintro a ⟨⟩) o a ha
  case fresh =>
    intro k a ha
    rw [hother _ a ha]
    rw [Function.update_of_ne (by simp)] at ha
    exact h.fresh k a ha
  case excl => exact excl_update h.excl (by rintro a ⟨⟩)
  case apart => exact forall_update h.apart (by rintro a ⟨⟩)
  case order =>
    rw [List.filterMap_congr fun a ha => job_congr (hqueued a ha)]
    exact h.order

/-- A thread that holds nothing allocates a work. -/
theorem create (h : Shape works first last f taken added ws) (k : κ) {work : Addr}
    {node : JpoolWork F A} (hfresh : works.get work = none) (hnil : node.next = none) :
    Shape (works.set work node) first last
      (Function.update f (.client k) (some work)) taken added ws := by
  have hold : ∀ o a, f o = some a → a ≠ work := by
    rintro o a ha rfl
    obtain ⟨v, hv⟩ := h.held o a ha
    exact absurd (hv.symm.trans hfresh) (by simp)
  have hqueued : ∀ a ∈ ws, a ≠ work := by
    rintro a ha rfl
    obtain ⟨v, hv⟩ := links_get h.links ha
    exact absurd (hv.symm.trans hfresh) (by simp)
  have hsame : ∀ a ∈ ws, (works.set work node).get a = works.get a :=
    fun a ha => Heap.get_set_ne works (hqueued a ha) node
  constructor
  case links => exact links_congr hsame h.links
  case last_eq => exact h.last_eq
  case held =>
    refine forall_update (fun o a ha => ?_) (by rintro a ⟨⟩; exact ⟨node, by simp⟩)
    rw [Heap.get_set_ne works (hold o a ha)]
    exact h.held o a ha
  case fresh =>
    refine forall_client_update (fun k' a ha => ?_) (by rintro a ⟨⟩; exact ⟨node, by simp, hnil⟩)
    rw [Heap.get_set_ne works (hold _ a ha)]
    exact h.fresh k' a ha
  case excl =>
    refine excl_update h.excl ?_
    rintro a ⟨⟩ o' ho'
    exact absurd rfl (hold o' work ho')
  case apart =>
    refine forall_update h.apart ?_
    rintro a ⟨⟩ hmem
    exact hqueued work hmem rfl
  case order =>
    rw [List.filterMap_congr fun a ha => job_congr (hsame a ha)]
    exact h.order

/-- A thread puts its work into the empty queue. -/
theorem append_first (h : Shape works first last f taken added ws) {k : κ} {work : Addr}
    (hk : f (.client k) = some work) (hfirst : first = none) :
    Shape works (some work) (some work) (Function.update f (.client k) none) taken
      (added ++ (State.job works work).toList) [work] := by
  obtain rfl : ws = [] := by
    have hlinks := h.links
    cases ws with
    | nil => rfl
    | cons a ws' => exact absurd (hfirst.symm.trans hlinks.1) (by simp)
  obtain ⟨node, hnode, hnil⟩ := h.fresh k work hk
  constructor
  case links => exact ⟨rfl, node, hnode, hnil⟩
  case last_eq => rfl
  case held => exact forall_update h.held (by rintro a ⟨⟩)
  case fresh => exact forall_client_update h.fresh (by rintro a ⟨⟩)
  case excl => exact excl_update h.excl (by rintro a ⟨⟩)
  case apart =>
    intro o a ha hmem
    rw [List.mem_singleton] at hmem
    exact h.excl.ne_update hk o a ha hmem
  case order =>
    have horder := h.order
    rw [List.filterMap_nil, List.append_nil] at horder
    rw [horder]
    simp [State.job, hnode]

/-- A thread puts its work behind the last one. -/
theorem append_last (h : Shape works first last f taken added ws) {k : κ}
    {work l : Addr} {node : JpoolWork F A} (hk : f (.client k) = some work)
    (hlast : last = some l) (hnode : works.get l = some node) :
    Shape (works.set l { node with next := some work }) first (some work)
      (Function.update f (.client k) none) taken
      (added ++ (State.job works work).toList) (ws ++ [work]) := by
  obtain ⟨init, rfl⟩ : ∃ init, ws = init ++ [l] := by
    have hend := h.last_eq
    rw [hlast] at hend
    exact List.getLast?_eq_some_iff.1 hend.symm
  obtain ⟨v, hv, hnil⟩ := h.fresh k work hk
  have hwork : work ∉ init ++ [l] := h.apart _ work hk
  have hl : ∀ o a, f o = some a → a ≠ l := by
    rintro o a ha rfl
    exact h.apart o a ha (by simp)
  have hsame : ∀ a, State.job (works.set l { node with next := some work }) a =
      State.job works a := by
    intro a
    by_cases ha : a = l
    · subst ha
      simp [State.job, hnode]
    · exact job_congr (Heap.get_set_ne works ha _)
  constructor
  case links =>
    rw [List.append_assoc]
    exact links_snoc h.links hwork hv hnil rfl
  case last_eq => simp
  case held =>
    refine forall_update (fun o a ha => ?_) (by rintro a ⟨⟩)
    rw [Heap.get_set_ne works (hl o a ha)]
    exact h.held o a ha
  case fresh =>
    refine forall_client_update (fun k' a ha => ?_) (by rintro a ⟨⟩)
    rw [Heap.get_set_ne works (hl _ a ha)]
    exact h.fresh k' a ha
  case excl => exact excl_update h.excl (by rintro a ⟨⟩)
  case apart =>
    intro o a ha hmem
    rcases List.mem_append.1 hmem with hmem | hmem
    · exact forall_update h.apart (by rintro a ⟨⟩) o a ha hmem
    · rw [List.mem_singleton] at hmem
      exact h.excl.ne_update hk o a ha hmem
  case order =>
    have hjobs : (init ++ [l] ++ [work]).filterMap
        (State.job (works.set l { node with next := some work })) =
        (init ++ [l] ++ [work]).filterMap (State.job works) :=
      List.filterMap_congr fun a _ => hsame a
    have hjob : State.job works work = some (v.func, v.arg) := by simp [State.job, hv]
    rw [hjobs, List.filterMap_append, ← List.append_assoc, h.order, hjob]
    simp [hjob]

end Shape

/-! ## The steps of the pool -/

/-- What holds of a pool that is not stopped. -/
structure Sound (s : State num κ F A) : Prop where
  noFault : s.fault = false
  taken : ∀ i, s.worker i ≠ .took none
  shape : ∃ ws, Shape s.works s.jpool.workFirst s.jpool.workLast
    (holds s.worker s.client) (s.hist.taken.map Prod.snd) s.hist.added ws

omit [DecidableEq κ] in
theorem sound_start : Sound (start num κ F A) where
  noFault := rfl
  taken _ := by simp [start]
  shape := by
    have hnone : ∀ (o : Owner num κ) (a : Addr),
        holds (start num κ F A).worker (start num κ F A).client o ≠ some a := by
      intro o a
      cases o <;> simp [holds, start, heldBy, heldIn]
    refine ⟨[], rfl, rfl, ?_, ?_, ?_, ?_, rfl⟩
    · exact fun o a ha => absurd ha (hnone o a)
    · exact fun k a ha => absurd ha (hnone _ a)
    · exact fun o o' a ha => absurd ha (hnone o a)
    · exact fun o a ha => absurd ha (hnone o a)

omit [DecidableEq κ] in
/-- A worker that moves on has not been given NULL. -/
theorem taken_update {worker : Worker num → WorkerPc} (h : ∀ j, worker j ≠ .took none)
    (i : Worker num) {pc : WorkerPc} (hpc : pc ≠ .took none) (j : Worker num) :
    Function.update worker i pc j ≠ .took none := by
  by_cases hj : j = i
  · subst hj
    rw [Function.update_self]
    exact hpc
  · rw [Function.update_of_ne hj]
    exact h j

/-- A worker that moves on without changing what it holds. -/
theorem Sound.moveWorker {s s' : State num κ F A} (h : Sound s) {i : Worker num}
    {pc : WorkerPc} (hworker : s'.worker = Function.update s.worker i pc)
    (hclient : s'.client = s.client) (hworks : s'.works = s.works)
    (hfirst : s'.jpool.workFirst = s.jpool.workFirst)
    (hlast : s'.jpool.workLast = s.jpool.workLast) (hfault : s'.fault = s.fault)
    (htaken : s'.hist.taken = s.hist.taken) (hadded : s'.hist.added = s.hist.added)
    (hholds : heldBy pc = heldBy (s.worker i)) (hpc : pc ≠ .took none) : Sound s' where
  noFault := by rw [hfault, h.noFault]
  taken := by
    rw [hworker]
    exact taken_update h.taken i hpc
  shape := by
    have hsame : holds s'.worker s'.client = holds s.worker s.client := by
      have hself : heldBy (s.worker i) = holds s.worker s.client (.worker i) := rfl
      rw [hworker, hclient, holds_worker, hholds, hself, Function.update_eq_self]
    rw [hsame, hworks, hfirst, hlast, htaken, hadded]
    exact h.shape

/-- A thread that uses the pool and moves on without changing what it holds. -/
theorem Sound.moveClient {s s' : State num κ F A} (h : Sound s) {k : κ} {pc : ClientPc}
    (hclient : s'.client = Function.update s.client k pc) (hworker : s'.worker = s.worker)
    (hmem : s'.mem = s.mem) (hfault : s'.fault = s.fault)
    (htaken : s'.hist.taken = s.hist.taken) (hadded : s'.hist.added = s.hist.added)
    (hholds : heldIn pc = heldIn (s.client k)) : Sound s' where
  noFault := by rw [hfault, h.noFault]
  taken j := by
    rw [hworker]
    exact h.taken j
  shape := by
    have hsame : holds s'.worker s'.client = holds s.worker s.client := by
      have hself : heldIn (s.client k) = holds s.worker s.client (.client k) := rfl
      rw [hworker, hclient, holds_client, hholds, hself, Function.update_eq_self]
    rw [hsame, State.works, State.jpool, hmem, htaken, hadded]
    exact h.shape

/-- The queue pointers after the first work is gone. -/
theorem jpoolUnlink_fields (jpool : Jpool) (next : Option Addr) :
    (jpoolUnlink jpool next).workFirst = next ∧
      (jpoolUnlink jpool next).workLast = if next = none then none else jpool.workLast := by
  unfold jpoolUnlink
  by_cases hnext : next = none
  · simp [hnext]
  · simp [hnext]

/-- One step that leaves the pool running. -/
theorem sound_step {s s' : State num κ F A} {a : Act num κ F A} (h : Sound s)
    (he : s.Effect a s') (hstop : s'.jpool.stop = false) : Sound s' := by
  obtain ⟨ws, hws⟩ := h.shape
  cases he with
  | waits | refuses | testsAgain => exact h
  | leaves hi hstopped => exact absurd (hstopped.symm.trans hstop) (by simp)
  | takes hi hrun hfirst hnode =>
      next i work node =>
      obtain ⟨ws', rfl, hws'⟩ := hws.take i hfirst hnode
      obtain ⟨hf, hl⟩ := jpoolUnlink_fields s.jpool node.next
      have hjob : State.job s.works work = some (node.func, node.arg) := by
        simp [State.job, hnode]
      constructor
      case noFault => exact h.noFault
      case taken => exact taken_update h.taken i (by simp)
      case shape =>
        refine ⟨ws', ?_⟩
        simp only [State.take, State.works, State.jpool, hf, hl, holds_worker, heldBy]
        simpa [hjob] using hws'
  | takesDangling hi hrun hfirst hnode => exact absurd hnode (hws.first_ne_none hfirst)
  | runs hi hnode =>
      exact h.moveWorker rfl rfl rfl rfl rfl rfl rfl rfl (by rw [hi]; rfl) (by simp)
  | runsNull hi => exact absurd hi (h.taken _)
  | runsDangling hi hnode => exact absurd hnode (hws.held_ne_none (holds_of_worker hi rfl))
  | destroysWork hi hnode =>
      next i work node =>
      have hheld : holds s.worker s.client (.worker i) = some work := holds_of_worker hi rfl
      constructor
      case noFault => exact h.noFault
      case taken => exact taken_update h.taken i (by simp)
      case shape =>
        refine ⟨ws, ?_⟩
        show Shape _ _ _ (holds (Function.update s.worker i .finishing) s.client) _ _ ws
        rw [holds_worker]
        exact hws.release hheld
  | destroysDangling hi hnode =>
      exact absurd hnode (hws.held_ne_none (holds_of_worker hi rfl))
  | finishes hi =>
      exact h.moveWorker rfl rfl rfl rfl rfl rfl rfl rfl (by rw [hi]; rfl) (by simp)
  | creates hk hfresh =>
      next k func arg work =>
      refine ⟨h.noFault, h.taken, ws, ?_⟩
      show Shape _ _ _ (holds s.worker (Function.update s.client k (.adding work))) _ _ ws
      rw [holds_client]
      exact hws.create k hfresh rfl
  | enqueuesFirst hk hfirst =>
      next k work =>
      have hheld : holds s.worker s.client (.client k) = some work := holds_of_client hk rfl
      refine ⟨h.noFault, h.taken, [work], ?_⟩
      show Shape _ _ _ (holds s.worker (Function.update s.client k .idle)) _ _ _
      rw [holds_client]
      exact hws.append_first hheld hfirst
  | enqueuesLast hk hfirst hlast hnode =>
      next k work first last node =>
      have hheld : holds s.worker s.client (.client k) = some work := holds_of_client hk rfl
      refine ⟨h.noFault, h.taken, ws ++ [work], ?_⟩
      show Shape _ _ _ (holds s.worker (Function.update s.client k .idle)) _ _ _
      rw [holds_client]
      exact hws.append_last hheld hlast hnode
  | enqueuesDangling hk hfirst hlast =>
      obtain ⟨l, hl, hnode⟩ := hws.exists_last hfirst
      exact absurd (hlast l hl) hnode
  | waitsFor hk => exact h.moveClient rfl rfl rfl rfl rfl rfl (by rw [hk]; rfl)
  | returns hk => exact h.moveClient rfl rfl rfl rfl rfl rfl (by rw [hk]; rfl)
  | drained hk => exact h.moveClient rfl rfl rfl rfl rfl rfl (by rw [hk]; rfl)
  | destroys hk hfree => exact absurd hstop (by simp)
  | destroysQueueDangling hk hfree =>
      obtain ⟨works, hworks, _⟩ := freeAll_links hws.links (links_length_le hws.links)
      exact absurd (hfree.symm.trans hworks) (by simp)
  | frees hk => exact h.moveClient rfl rfl rfl rfl rfl rfl (by rw [hk]; rfl)

/-- A pool that is not stopped was never stopped. -/
theorem running_of_effect {s s' : State num κ F A} {a : Act num κ F A} (he : s.Effect a s')
    (hstop : s'.jpool.stop = false) : s.jpool.stop = false := by
  cases he with
  | takes hi hrun hfirst hnode => exact hrun
  | destroys hk hfree => exact absurd hstop (by simp)
  | _ => exact hstop

/-- Whole runs. -/
theorem sound_reach {C : State num κ F A → Act num κ F A → Prop} {s : State num κ F A}
    (hr : Reach State.step C (start num κ F A) s) (hstop : s.jpool.stop = false) :
    Sound s := by
  refine reach_invariant (I := fun s => s.jpool.stop = false → Sound s) ?_ hr
    (fun _ => sound_start) hstop
  intro s a s' _ ih _ hs hstop'
  obtain ⟨_, he⟩ := State.effect_of_step hs
  exact sound_step (ih (running_of_effect he hstop')) he hstop'

omit [DecidableEq κ] in
theorem job_set {works : Heap (JpoolWork F A)} {a : Addr} {node : JpoolWork F A} (x : Addr) :
    State.job (works.set a node) x =
      if x = a then some (node.func, node.arg) else State.job works x := by
  rw [State.job, Heap.get_set]
  by_cases hx : x = a
  · rw [if_pos hx, if_pos hx]
    rfl
  · rw [if_neg hx, if_neg hx]
    rfl

omit [DecidableEq κ] in
/-- Linking a work to the next one leaves its job. -/
theorem job_set_next {works : Heap (JpoolWork F A)} {a : Addr} {node : JpoolWork F A}
    (hnode : works.get a = some node) (next : Option Addr) (x : Addr) :
    State.job (works.set a { node with next := next }) x = State.job works x := by
  rw [job_set]
  by_cases hx : x = a
  · rw [if_pos hx, hx, State.job, hnode]
    rfl
  · rw [if_neg hx]

/-- A job found in a cell was there before the step, or has just been added. -/
theorem job_of_effect {s s' : State num κ F A} {a : Act num κ F A} (he : s.Effect a s')
    {x : Addr} {fa : F × A} (hx : State.job s'.works x = some fa) :
    State.job s.works x = some fa ∨
      (s.works.get x = none ∧ ∃ k, a = .addWork k (some fa.1) fa.2 x) := by
  cases he with
  | @creates k func arg work hk hfresh =>
      rw [State.works, job_set] at hx
      by_cases hxw : x = work
      · rw [if_pos hxw] at hx
        cases hx
        exact .inr ⟨hxw ▸ hfresh, k, by rw [hxw]⟩
      · rw [if_neg hxw] at hx
        exact .inl hx
  | enqueuesLast hk hfirst hlast hnode =>
      rw [State.works, job_set_next hnode] at hx
      exact .inl hx
  | @destroysWork i work node hi hnode =>
      rw [State.works, State.job, Heap.get_free] at hx
      by_cases hxw : x = work
      · rw [if_pos hxw] at hx
        cases hx
      · rw [if_neg hxw] at hx
        exact .inl hx
  | destroys hk hfree =>
      obtain ⟨node, hnode, hfa⟩ := Option.map_eq_some_iff.1 hx
      exact .inl (Option.map_eq_some_iff.2 ⟨node, freeAll_get hfree hnode, hfa⟩)
  | _ => exact .inl hx

/-- A work that a worker holds keeps its job. -/
theorem job_held {s s' : State num κ F A} {a : Act num κ F A} (h : Sound s)
    (he : s.Effect a s') (hstop : s'.jpool.stop = false) {i : Worker num} {x : Addr}
    (hi : heldBy (s.worker i) = some x) (hi' : heldBy (s'.worker i) = some x) :
    State.job s'.works x = State.job s.works x := by
  obtain ⟨ws, hws⟩ := h.shape
  have hheld : holds s.worker s.client (.worker i) = some x := hi
  cases he with
  | creates hk hfresh =>
      obtain ⟨node, hnode⟩ := hws.held _ x hheld
      rw [State.works, job_set, if_neg]
      rintro rfl
      exact absurd (hfresh.symm.trans hnode) (by simp)
  | enqueuesLast hk hfirst hlast hnode => exact job_set_next hnode _ x
  | @destroysWork j work node hj hnode =>
      by_cases hxw : x = work
      · have hji : Owner.worker j = Owner.worker i :=
          hws.excl _ _ x (hxw ▸ holds_of_worker hj rfl) hheld
        cases hji
        simp [State.setWorker, heldBy] at hi'
      · exact job_congr (Heap.get_free_ne _ hxw)
  | destroys => exact absurd hstop (by simp)
  | _ => rfl

/-- A worker runs its work until it destroys it. -/
theorem running_kept {s s' : State num κ F A} {a : Act num κ F A} (he : s.Effect a s')
    {i : Worker num} {x : Addr} (hi : s.worker i = .running x) (ha : a ≠ .destroyWork i) :
    s'.worker i = .running x := by
  have hother : ∀ {j : Worker num} {pc pc' : WorkerPc}, s.worker j = pc' → pc' ≠ .running x →
      Function.update s.worker j pc i = .running x := by
    intro j pc pc' hj hpc
    have hij : i ≠ j := by
      rintro rfl
      exact hpc (hj.symm.trans hi)
    rw [Function.update_of_ne hij, hi]
  cases he with
  | leaves hj | takes hj | runs hj | runsNull hj | finishes hj => exact hother hj (by simp)
  | @destroysWork j work node hj =>
      have hij : i ≠ j := by
        rintro rfl
        exact ha rfl
      exact (Function.update_of_ne hij _ _).trans hi
  | _ => exact hi

/-- **The pool loses, repeats and reorders nothing.**  While it is not
stopped, following `next` from `work_first` visits the works `ws`; the works
taken so far and these are the works added, in the order of their additions;
no work is held by two threads, nor held and queued; the two queue pointers
fit the list; no worker got NULL; and nothing undefined has happened. -/
theorem pool_keeps_order {s : State num κ F A}
    (hr : Reach State.step unconditional (start num κ F A) s) (hstop : s.jpool.stop = false) :
    ∃ ws, Links JpoolWork.next s.works s.jpool.workFirst ws ∧
      s.hist.taken.map Prod.snd ++ ws.filterMap (State.job s.works) = s.hist.added ∧
      (∀ o o' work, holds s.worker s.client o = some work →
        holds s.worker s.client o' = some work → o = o') ∧
      (∀ o work, holds s.worker s.client o = some work → work ∉ ws) ∧
      (s.jpool.workFirst = none ↔ ws = []) ∧
      (∀ init last, ws = init ++ [last] → s.jpool.workLast = some last ∧
        ∃ node, s.works.get last = some node ∧ node.next = none) ∧
      (∀ i, s.worker i ≠ .took none) ∧ s.fault = false := by
  have h := sound_reach hr hstop
  obtain ⟨ws, hws⟩ := h.shape
  refine ⟨ws, hws.links, hws.order, hws.excl, hws.apart, ⟨fun hnil => ?_, fun hnil => ?_⟩, ?_,
    h.taken, h.noFault⟩
  · have hlinks := hws.links
    rw [hnil] at hlinks
    cases ws with
    | nil => rfl
    | cons a ws => exact absurd hlinks.1 (by simp)
  · have hlinks := hws.links
    rw [hnil] at hlinks
    exact hlinks
  · rintro init last rfl
    exact ⟨by rw [hws.last_eq]; simp, links_last hws.links⟩

/-- Two works added and one taken, with two workers. -/
theorem pool_keeps_order_pair :
    ∃ s : State 2 Unit Nat Nat,
      (s.hist.added = [(1, 5), (2, 6)] ∧ s.hist.taken.map Prod.snd = [(1, 5)]) ∧
      ∃ ws, Links JpoolWork.next s.works s.jpool.workFirst ws ∧
        s.hist.taken.map Prod.snd ++ ws.filterMap (State.job s.works) = s.hist.added := by
  obtain ⟨s, hr, hs⟩ := exists_reach_of_exec State.step unconditional (start 2 Unit Nat Nat)
    [.addWork () (some 1) 5 0, .enqueue (), .addWork () (some 2) 6 1, .enqueue (), .enter 0]
    (fun s => s.jpool.stop = false ∧ s.hist.added = [(1, 5), (2, 6)] ∧
      s.hist.taken.map Prod.snd = [(1, 5)]) (by decide +kernel)
  obtain ⟨hstop, hlog⟩ := hs
  obtain ⟨ws, hlinks, horder, _⟩ := pool_keeps_order hr hstop
  exact ⟨s, hlog, ws, hlinks, horder⟩

end ZeroCopyProxy.Ports.PoolQueue
