import Mathlib.Data.List.Basic

/-!
# Cutting a stream into frames

A receiver that knows nothing of a stream but its bytes reads a header of `n`
bytes, learns from it how long the frame is, and finds the next header behind
that frame.  `Cuts n cut s fs` says that a stream is cut into these frames in
this way, with nothing left over.

A stream is cut in at most one way (`Cuts.unique`).  Two receivers cut it at
the same places exactly if they read the same length from the header of every
one of its frames (`Cuts.agree_iff`): behind the first header on which they
differ they no longer look for headers at the same places.
-/

namespace ZeroCopyProxy.Verified.Framing

variable {α : Type}

/-- The stream is cut into frames by headers of `n` bytes, of which `cut`
reads the length of the frame. -/
inductive Cuts (n : Nat) (cut : List α → Option Nat) : List α → List (List α) → Prop
  | nil : Cuts n cut [] []
  | cons {f rest : List α} {fs : List (List α)} (hlen : n ≤ f.length)
      (hcut : cut (f.take n) = some f.length) (h : Cuts n cut rest fs) :
      Cuts n cut (f ++ rest) (f :: fs)

variable {n : Nat} {cut cut' : List α → Option Nat} {s : List α} {fs gs : List (List α)}

/-- A frame is as long as its header says. -/
theorem Cuts.frame (h : Cuts n cut s fs) {f : List α} (hf : f ∈ fs) :
    n ≤ f.length ∧ cut (f.take n) = some f.length := by
  induction h with
  | nil => cases hf
  | cons hlen hcut _ ih =>
      rcases List.mem_cons.1 hf with rfl | hf
      · exact ⟨hlen, hcut⟩
      · exact ih hf

/-- Frames in a row are cut apart. -/
theorem Cuts.flatten (h : ∀ f ∈ fs, n ≤ f.length ∧ cut (f.take n) = some f.length) :
    Cuts n cut fs.flatten fs := by
  induction fs with
  | nil => exact .nil
  | cons f fs ih =>
      obtain ⟨hlen, hcut⟩ := h f List.mem_cons_self
      exact .cons hlen hcut (ih fun g hg => h g (List.mem_cons_of_mem f hg))

/-- The stream is its frames in a row. -/
theorem Cuts.stream (h : Cuts n cut s fs) : s = fs.flatten := by
  induction h with
  | nil => rfl
  | cons _ _ _ ih => rw [List.flatten_cons, ← ih]

/-- A stream is cut in one way only, if every frame has some bytes. -/
theorem Cuts.unique (hn : 0 < n) (hf : Cuts n cut s fs) (hg : Cuts n cut s gs) : fs = gs := by
  induction hf generalizing gs with
  | nil =>
      cases gs with
      | nil => rfl
      | cons g gs =>
          have hlen := (hg.frame List.mem_cons_self).1
          have hnil := congrArg List.length hg.stream
          simp only [List.length_nil, List.flatten_cons, List.length_append] at hnil
          omega
  | @cons f rest fs hlen hcut _ ih =>
      cases gs with
      | nil =>
          have hnil := congrArg List.length hg.stream
          simp only [List.length_append, List.flatten_nil, List.length_nil] at hnil
          omega
      | cons g gs =>
          obtain ⟨hlen', hcut'⟩ := hg.frame List.mem_cons_self
          have hs := hg.stream
          rw [List.flatten_cons] at hs
          -- both frames start with the same header
          have hhdr : f.take n = g.take n := by
            have htake := congrArg (List.take n) hs
            rwa [List.take_append_of_le_length hlen,
              List.take_append_of_le_length hlen'] at htake
          have hsame : f.length = g.length := by
            rw [hhdr] at hcut
            exact Option.some.inj (hcut.symm.trans hcut')
          obtain ⟨rfl, hrest⟩ := List.append_inj hs hsame
          rw [ih (hrest ▸ Cuts.flatten fun x hx => hg.frame (List.mem_cons_of_mem f hx))]

/-- **Two receivers cut a stream at the same places exactly if they agree on
the header of each of its frames.** -/
theorem Cuts.agree_iff (h : Cuts n cut s fs) :
    Cuts n cut' s fs ↔ ∀ f ∈ fs, cut' (f.take n) = cut (f.take n) := by
  constructor
  · intro h' f hf
    rw [(h.frame hf).2, (h'.frame hf).2]
  · intro hagree
    induction h with
    | nil => exact .nil
    | @cons f rest fs hlen hcut _ ih =>
        refine .cons hlen ?_ (ih fun g hg => hagree g (List.mem_cons_of_mem f hg))
        rw [hagree f List.mem_cons_self, hcut]

end ZeroCopyProxy.Verified.Framing
