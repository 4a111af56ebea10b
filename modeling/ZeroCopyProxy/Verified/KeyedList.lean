import Mathlib.Data.List.Perm.Subperm

/-!
# Lists whose users delete by key

Users share a list.  Each has put an entry with a key at its end and takes an
entry out once, the first one that has its key.  If two users have the same
key, one may take out what the other put in, so that a user cannot tell what
has become of its entry.

The list always has enough entries for the keys still to be taken out:
`owed <+~ l`.  This alone keeps the last entry where it is as long as the user
who put it there has not deleted (`getLast?_erase_owed`, `ne_last_of_find`).
-/

namespace ZeroCopyProxy.Verified.KeyedList

open List

variable {κ ι : Type} [DecidableEq κ] [DecidableEq ι]

/-! ## Lists of keys -/

/-- A key is taken out. -/
theorem subperm_erase {k : κ} {owed l : List κ} (h : k :: owed <+~ l) : owed <+~ l.erase k := by
  have herase := h.erase k
  rwa [erase_cons_head] at herase

omit [DecidableEq κ] in
/-- Where two keys are to be taken out, one of them the last, the other one
stands before it. -/
theorem mem_init_of_owed {k k' : κ} {init : List κ} (h : [k, k'] <+~ init ++ [k']) : k ∈ init := by
  have hinit : [k] ++ [k'] <+~ init ++ [k'] := h
  rwa [subperm_append_right, singleton_subperm_iff] at hinit

/-- Another user's deletion leaves the last entry, whatever its key. -/
theorem getLast?_erase_owed {k k' : κ} {l : List κ} (hl : l.getLast? = some k')
    (h : [k, k'] <+~ l) : (l.erase k).getLast? = some k' := by
  obtain ⟨init, rfl⟩ := getLast?_eq_some_iff.1 hl
  rw [erase_append_left _ (mem_init_of_owed h)]
  exact getLast?_concat

/-! ## Lists of entries with keys -/

section Entries

variable {key : ι → κ} {l : List ι}

omit [DecidableEq κ] [DecidableEq ι] in
/-- Two users' keys are among the keys of all users. -/
theorem pair_subperm {i j : ι} {users : List ι} (hi : i ∈ users) (hj : j ∈ users) (hij : i ≠ j) :
    [key i, key j] <+~ users.map key := by
  have hpair : [i, j] <+~ users := by
    refine subperm_of_subset (by simpa using hij) ?_
    intro x hx
    rcases mem_cons.1 hx with rfl | hx
    · exact hi
    · exact mem_singleton.1 hx ▸ hj
  obtain ⟨l', hperm, hsub⟩ := hpair
  exact ⟨l'.map key, hperm.map key, hsub.map key⟩

omit [DecidableEq κ] in
/-- A user leaves. -/
theorem perm_map_erase {i : ι} {users : List ι} (hi : i ∈ users) :
    users.map key ~ key i :: (users.erase i).map key :=
  (perm_cons_erase hi).map key

omit [DecidableEq ι] in
/-- What a search finds is not the last entry, if its key and that of the last
entry are both to be taken out. -/
theorem ne_last_of_find {k : κ} {x v : ι} (hl : l.getLast? = some v) (hnodup : l.Nodup)
    (h : [k, key v] <+~ l.map key) (hx : l.find? (fun i => key i = k) = some x) : x ≠ v := by
  obtain ⟨init, rfl⟩ := getLast?_eq_some_iff.1 hl
  rw [map_append, map_singleton] at h
  obtain ⟨y, hy, hkey⟩ := mem_map.1 (mem_init_of_owed h)
  have hfound : (init.find? (fun i => key i = k)).isSome = true :=
    find?_isSome.2 ⟨y, hy, decide_eq_true hkey⟩
  rw [find?_append, Option.or_of_isSome hfound] at hx
  rintro rfl
  exact (nodup_append.1 hnodup).2.2 x (mem_of_find?_eq_some hx) x (mem_singleton_self x) rfl

omit [DecidableEq κ] in
/-- An entry is taken out, and its key with it. -/
theorem subperm_erase_entry {owed : List κ} {x : ι} (hx : x ∈ l)
    (h : key x :: owed <+~ l.map key) : owed <+~ (l.erase x).map key := by
  have hcons : key x :: owed <+~ key x :: (l.erase x).map key :=
    h.trans (perm_map_erase hx).subperm
  exact (subperm_cons _).1 hcons

end Entries

end ZeroCopyProxy.Verified.KeyedList
