import ZeroCopyProxy.Verified.LinkedHeap

/-!
# Programs over a heap that may fault

`Run σ α` is a program over the state `σ` that ends with a value or with a
fault: NULL was dereferenced, a cell was touched that is not allocated (never
was, or has been freed), or a loop was given too few turns.  `Mem α` is a heap
that remembers what was freed, in order.

A source function is proved by rewriting with one equation for each of its
calls (`bind_ok`), so everything about a function is an equation
`f s = .ok (r, s')`.
-/

namespace ZeroCopyProxy.Verified.HeapRun

open ZeroCopyProxy.Verified.LinkedHeap

/-- How a program goes wrong. -/
inductive Fault where
  /-- NULL is dereferenced. -/
  | null
  /-- A cell is read, written or freed that is not allocated. -/
  | dangling (a : Addr)
  /-- The turns given to a loop do not suffice. -/
  | spins
  deriving DecidableEq

/-- A program: what it returns and leaves behind, or how it goes wrong. -/
def Run (σ α : Type) : Type := σ → Except Fault (α × σ)

variable {σ τ α β γ : Type}

/-- Continue where a program ended. -/
def Run.andThen (r : Except Fault (α × σ)) (f : α → Run σ β) : Except Fault (β × σ) :=
  match r with
  | .ok (a, s) => f a s
  | .error e => .error e

instance : Monad (Run σ) where
  pure a := fun s => .ok (a, s)
  bind p f := fun s => Run.andThen (p s) f

namespace Run

/-- The current state. -/
def state : Run σ σ := fun s => .ok (s, s)

/-- Assign to the state. -/
def update (f : σ → σ) : Run σ Unit := fun s => .ok ((), f s)

/-- Undefined behaviour. -/
def fault (e : Fault) : Run σ α := fun _ => .error e

/-- Run a program on the part `get s` of the state. -/
def zoom (get : σ → τ) (put : σ → τ → σ) (p : Run τ α) : Run σ α := fun s =>
  match p (get s) with
  | .ok (a, t) => .ok (a, put s t)
  | .error e => .error e

end Run

section Rules

variable {s s' : σ} {t : τ} {a : α} {e : Fault} {p : Run σ α} {f : α → Run σ β}

@[simp] theorem run_pure (a : α) (s : σ) : (pure a : Run σ α) s = .ok (a, s) := rfl

@[simp] theorem run_state (s : σ) : (Run.state : Run σ σ) s = .ok (s, s) := rfl

@[simp] theorem run_update (f : σ → σ) (s : σ) : Run.update f s = .ok ((), f s) := rfl

@[simp] theorem run_fault (e : Fault) (s : σ) : (Run.fault e : Run σ α) s = .error e := rfl

theorem run_bind (p : Run σ α) (f : α → Run σ β) (s : σ) :
    (p >>= f) s = Run.andThen (p s) f := rfl

@[simp] theorem andThen_ok (a : α) (s : σ) (f : α → Run σ β) :
    Run.andThen (.ok (a, s)) f = f a s := rfl

@[simp] theorem andThen_error (e : Fault) (f : α → Run σ β) :
    Run.andThen (.error e : Except Fault (α × σ)) f = .error e := rfl

theorem bind_ok (h : p s = .ok (a, s')) : (p >>= f) s = f a s' := by
  rw [run_bind, h, andThen_ok]

theorem bind_error (h : p s = .error e) : (p >>= f) s = .error e := by
  rw [run_bind, h, andThen_error]

@[simp] theorem run_ite (c : Prop) [Decidable c] (p q : Run σ α) (s : σ) :
    (if c then p else q) s = if c then p s else q s := by
  split <;> rfl

theorem zoom_ok {get : σ → τ} {put : σ → τ → σ} {p : Run τ α} (h : p (get s) = .ok (a, t)) :
    Run.zoom get put p s = .ok (a, put s t) := by
  simp only [Run.zoom, h]

theorem zoom_error {get : σ → τ} {put : σ → τ → σ} {p : Run τ α}
    (h : p (get s) = .error e) : Run.zoom get put p s = .error e := by
  simp only [Run.zoom, h]

end Rules

/-! ## Memory -/

/-- A heap, and what was freed in it so far. -/
structure Mem (α : Type) where
  cells : Heap α
  freed : List Addr
  deriving DecidableEq

namespace Mem

/-- `*p` -/
def load (p : Option Addr) : Run (Mem α) α := fun m =>
  match p with
  | none => .error .null
  | some a =>
    match m.cells.get a with
    | none => .error (.dangling a)
    | some v => .ok (v, m)

/-- `*p = f( *p)` -/
def modify (p : Option Addr) (f : α → α) : Run (Mem α) Unit := fun m =>
  match p with
  | none => .error .null
  | some a =>
    match m.cells.get a with
    | none => .error (.dangling a)
    | some v => .ok ((), { m with cells := m.cells.set a (f v) })

/-- `free`, which takes NULL as well. -/
def free (p : Option Addr) : Run (Mem α) Unit := fun m =>
  match p with
  | none => .ok ((), m)
  | some a =>
    match m.cells.get a with
    | none => .error (.dangling a)
    | some _ => .ok ((), ⟨m.cells.free a, m.freed ++ [a]⟩)

/-- A cell from `malloc`, filled. -/
def place (a : Addr) (v : α) : Run (Mem α) Unit := fun m =>
  .ok ((), { m with cells := m.cells.set a v })

section Access

variable {m : Mem α} {a : Addr} {v : α}

theorem load_ok (h : m.cells.get a = some v) : load (some a) m = .ok (v, m) := by
  simp only [load, h]

theorem load_freed (h : m.cells.get a = none) :
    load (some a) m = .error (.dangling a) := by
  simp only [load, h]

theorem modify_ok (h : m.cells.get a = some v) (f : α → α) :
    modify (some a) f m = .ok ((), { m with cells := m.cells.set a (f v) }) := by
  simp only [modify, h]

@[simp] theorem modify_null (f : α → α) (m : Mem α) : modify none f m = .error .null := rfl

theorem free_ok (h : m.cells.get a = some v) :
    free (some a) m = .ok ((), ⟨m.cells.free a, m.freed ++ [a]⟩) := by
  simp only [free, h]

@[simp] theorem run_place (a : Addr) (v : α) (m : Mem α) :
    place a v m = .ok ((), { m with cells := m.cells.set a v }) := rfl

end Access

end Mem

/-! ## Searching -/

/-- `while( index != stop){ if( test){ hit} index = index->next;} miss`, for a
body that leaves the loop where the test succeeds. -/
def scan (stop : Option Addr) (next : Option Addr → Run σ (Option Addr))
    (test : Option Addr → Run σ Bool) (hit : Option Addr → Run σ γ) (miss : Run σ γ) :
    Nat → Option Addr → Run σ γ
  | 0, index => if index = stop then miss else Run.fault .spins
  | turns + 1, index =>
    if index = stop then
      miss
    else do
      let found ← test index
      if found then
        hit index
      else do
        let index ← next index
        scan stop next test hit miss turns index

section Scan

variable {stop : Option Addr} {next : Option Addr → Run σ (Option Addr)}
  {test : Option Addr → Run σ Bool} {hit : Option Addr → Run σ γ} {miss : Run σ γ}
  {turns : Nat} {index : Option Addr} {s : σ}

theorem scan_stop : scan stop next test hit miss turns stop s = miss s := by
  cases turns <;> simp [scan]

theorem scan_hit (hne : index ≠ stop) (ht : test index s = .ok (true, s)) :
    scan stop next test hit miss (turns + 1) index s = hit index s := by
  rw [scan, if_neg hne, bind_ok ht, if_pos rfl]

theorem scan_next {index' : Option Addr} (hne : index ≠ stop)
    (ht : test index s = .ok (false, s)) (hn : next index s = .ok (index', s)) :
    scan stop next test hit miss (turns + 1) index s =
      scan stop next test hit miss turns index' s := by
  rw [scan, if_neg hne, bind_ok ht, if_neg Bool.false_ne_true, bind_ok hn]

end Scan

end ZeroCopyProxy.Verified.HeapRun
