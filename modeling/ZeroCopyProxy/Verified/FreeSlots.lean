import Mathlib.Data.List.Basic

/-!
# Tables that give out their lowest free slot

A table of numbered slots, as a kernel keeps it for the descriptors of a
process.  `fill` puts a new entry into the lowest free slot, whose number is
`lowest`, and `free` empties a slot.  Nothing is said about how many slots
there are.
-/

namespace ZeroCopyProxy.Verified.FreeSlots

variable {β : Type}

/-- A table, from slot 0 on.  Slots behind its end are free. -/
abbrev Slots (β : Type) : Type := List (Option β)

namespace Slots

/-- The entry of a slot. -/
def get (t : Slots β) (n : Nat) : Option β := (t[n]?).join

/-- The lowest free slot. -/
def lowest : Slots β → Nat
  | [] => 0
  | none :: _ => 0
  | some _ :: t => lowest t + 1

/-- A new entry in the lowest free slot. -/
def fill (b : β) : Slots β → Slots β
  | [] => [some b]
  | none :: t => some b :: t
  | some a :: t => some a :: fill b t

/-- A slot emptied. -/
def free (t : Slots β) (n : Nat) : Slots β := t.set n none

@[simp] theorem get_nil (n : Nat) : get ([] : Slots β) n = none := rfl

@[simp] theorem get_zero (o : Option β) (t : Slots β) : get (o :: t) 0 = o := rfl

@[simp] theorem get_succ (o : Option β) (t : Slots β) (n : Nat) :
    get (o :: t) (n + 1) = get t n := rfl

/-- The lowest free slot is free. -/
theorem get_lowest (t : Slots β) : get t (lowest t) = none := by
  induction t with
  | nil => rfl
  | cons o t ih =>
      cases o with
      | none => rfl
      | some a => exact ih

theorem get_fill (t : Slots β) (b : β) (n : Nat) :
    get (fill b t) n = if n = lowest t then some b else get t n := by
  induction t generalizing n with
  | nil =>
      cases n with
      | zero => rfl
      | succ n => rfl
  | cons o t ih =>
      cases o with
      | none =>
          cases n with
          | zero => rfl
          | succ n => rfl
      | some a =>
          cases n with
          | zero => rfl
          | succ n =>
              rw [fill, get_succ, get_succ, lowest, ih]
              simp only [Nat.add_right_cancel_iff]

theorem get_free (t : Slots β) (m n : Nat) :
    get (free t m) n = if n = m then none else get t n := by
  by_cases hn : n = m
  · subst hn
    rw [if_pos rfl, get, free, List.getElem?_set_self']
    cases t[n]? <;> rfl
  · rw [if_neg hn, get, get, free, List.getElem?_set_ne (Ne.symm hn)]

/-- How many slots have an entry. -/
def used (t : Slots β) : Nat := t.countP Option.isSome

theorem used_fill (t : Slots β) (b : β) : used (fill b t) = used t + 1 := by
  induction t with
  | nil => rfl
  | cons o t ih =>
      cases o with
      | none => simp [fill, used]
      | some a =>
          rw [used] at ih
          simp [fill, used, ih]

/-- An emptied slot is one less. -/
theorem used_free {t : Slots β} {n : Nat} {b : β} (h : get t n = some b) :
    used (free t n) + 1 = used t := by
  induction t generalizing n with
  | nil => cases h
  | cons o t ih =>
      cases n with
      | zero =>
          rw [get_zero] at h
          subst h
          simp [free, used]
      | succ n =>
          have hrest : used (free t n) + 1 = used t := ih h
          rw [used, used, free] at hrest
          cases o <;> simp [free, used] <;> omega

section Kinds

variable [DecidableEq β]

/-- How many slots have this entry. -/
def usedBy (b : β) (t : Slots β) : Nat := t.count (some b)

theorem usedBy_fill (t : Slots β) (a b : β) :
    usedBy b (fill a t) = usedBy b t + if a = b then 1 else 0 := by
  induction t with
  | nil => simp [fill, usedBy, List.count_cons]
  | cons o t ih =>
      cases o with
      | none => simp [fill, usedBy, List.count_cons]
      | some c =>
          rw [usedBy] at ih
          simp only [fill, usedBy, List.count_cons, ih]
          omega

/-- The entry of an emptied slot is one less, any other is not. -/
theorem usedBy_free {t : Slots β} {n : Nat} {a : β} (h : get t n = some a) (b : β) :
    usedBy b (free t n) + (if a = b then 1 else 0) = usedBy b t := by
  induction t generalizing n with
  | nil => cases h
  | cons o t ih =>
      cases n with
      | zero =>
          rw [get_zero] at h
          subst h
          simp [free, usedBy, List.count_cons]
      | succ n =>
          have hrest : usedBy b (free t n) + (if a = b then 1 else 0) = usedBy b t := ih h
          rw [usedBy, usedBy, free] at hrest
          simp only [free, usedBy, List.set_cons_succ, List.count_cons]
          omega

end Kinds

/-- The slots below the lowest free one are used. -/
theorem lowest_le_used (t : Slots β) : lowest t ≤ used t := by
  induction t with
  | nil => exact Nat.le_refl 0
  | cons o t ih =>
      cases o with
      | none => exact Nat.zero_le _
      | some a =>
          rw [used] at ih
          simpa [lowest, used] using ih

theorem used_le_length (t : Slots β) : used t ≤ t.length := List.countP_le_length

/-- A new entry makes the table longer only where it is full. -/
theorem length_fill (t : Slots β) (b : β) :
    (fill b t).length = max t.length (lowest t + 1) := by
  induction t with
  | nil => rfl
  | cons o t ih =>
      cases o with
      | none => simp [fill, lowest]
      | some a =>
          simp only [fill, lowest, List.length_cons, ih]
          omega

theorem length_free (t : Slots β) (n : Nat) : (free t n).length = t.length :=
  List.length_set

end Slots

end ZeroCopyProxy.Verified.FreeSlots
