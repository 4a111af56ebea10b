import ZeroCopyProxy.Verified.PrefixCode

/-!
# A stream that several hands write

When several writers share one stream, every symbol of it has an author.
`part i s` is what the author `i` contributed to `s`, and `weave fs` is the
stream in which every word was written without interruption by one author.

A stream is free of interleaved words if it is a beginning of such a weave;
`exists_weave_of_prefix` says what such a beginning looks like: whole words,
then a proper beginning of one more, all of it by one author.
-/

namespace ZeroCopyProxy.Verified.Interleaving

open ZeroCopyProxy.Verified.PrefixCode

variable {ι α : Type}

/-- What one author writes. -/
def sign (i : ι) (p : List α) : List (ι × α) := p.map (Prod.mk i)

/-- What the author `i` contributed. -/
def part [DecidableEq ι] (i : ι) (s : List (ι × α)) : List α :=
  (s.filter fun b => b.1 = i).map Prod.snd

/-- Words written one after the other, each by one author. -/
def weave {C : List α → Prop} (fs : List (ι × Word C)) : List (ι × α) :=
  (fs.map fun f => sign f.1 f.2.1).flatten

section Sign

@[simp] theorem sign_nil (i : ι) : sign i ([] : List α) = [] := rfl

@[simp] theorem sign_append (i : ι) (p q : List α) :
    sign i (p ++ q) = sign i p ++ sign i q := List.map_append

/-- Without the authors the symbols remain. -/
@[simp] theorem map_snd_sign (i : ι) (p : List α) : (sign i p).map Prod.snd = p := by
  rw [sign, List.map_map]
  exact List.map_id p

theorem sign_mono {i : ι} {p q : List α} (h : p <+: q) : sign i p <+: sign i q := by
  obtain ⟨x, rfl⟩ := h
  rw [sign_append]
  exact List.prefix_append _ _

/-- The author of what comes last. -/
theorem sign_author {i j : ι} {p q : List α} {s t : List (ι × α)} (hp : p ≠ [])
    (hq : q ≠ []) (h : s ++ sign i p = t ++ sign j q) : i = j := by
  have hlast := congrArg List.getLast? h
  have hps : sign i p ≠ [] := fun hnil => hp (List.map_eq_nil_iff.1 hnil)
  have hqs : sign j q ≠ [] := fun hnil => hq (List.map_eq_nil_iff.1 hnil)
  rw [List.getLast?_append_of_ne_nil _ hps, List.getLast?_append_of_ne_nil _ hqs, sign,
    sign, List.getLast?_map, List.getLast?_map, List.getLast?_eq_some_getLast hp,
    List.getLast?_eq_some_getLast hq] at hlast
  exact congrArg Prod.fst (Option.some.inj hlast)

end Sign

section Part

variable [DecidableEq ι]

@[simp] theorem part_append (i : ι) (s t : List (ι × α)) :
    part i (s ++ t) = part i s ++ part i t := by
  simp [part]

theorem part_cons_self (i : ι) (a : α) (s : List (ι × α)) :
    part i ((i, a) :: s) = a :: part i s := by
  simp [part]

theorem part_cons_ne {i j : ι} (h : j ≠ i) (a : α) (s : List (ι × α)) :
    part i ((j, a) :: s) = part i s := by
  simp [part, h]

theorem part_mono {s t : List (ι × α)} (h : s <+: t) (i : ι) : part i s <+: part i t := by
  obtain ⟨x, rfl⟩ := h
  rw [part_append]
  exact List.prefix_append _ _

@[simp] theorem part_sign_self (i : ι) (p : List α) : part i (sign i p) = p := by
  induction p with
  | nil => rfl
  | cons a p ih =>
      show part i ((i, a) :: sign i p) = a :: p
      rw [part_cons_self, ih]

theorem part_sign_ne {i j : ι} (h : j ≠ i) (p : List α) : part i (sign j p) = [] := by
  induction p with
  | nil => rfl
  | cons a p ih =>
      show part i ((j, a) :: sign j p) = []
      rw [part_cons_ne h, ih]

end Part

section Weave

variable {C : List α → Prop}

@[simp] theorem weave_nil : weave ([] : List (ι × Word C)) = [] := rfl

@[simp] theorem weave_cons (f : ι × Word C) (fs : List (ι × Word C)) :
    weave (f :: fs) = sign f.1 f.2.1 ++ weave fs := rfl

@[simp] theorem weave_append (fs gs : List (ι × Word C)) :
    weave (fs ++ gs) = weave fs ++ weave gs := by
  simp [weave]

/-- Words of one author. -/
theorem weave_sign (i : ι) (ws : List (Word C)) : weave (sign i ws) = sign i (join ws) := by
  induction ws with
  | nil => rfl
  | cons w ws ih =>
      show sign i w.1 ++ weave (sign i ws) = sign i (join (w :: ws))
      rw [ih, join_cons, sign_append]

/-- Every author contributed whole words. -/
theorem part_weave [DecidableEq ι] (i : ι) (fs : List (ι × Word C)) :
    part i (weave fs) = join (part i fs) := by
  induction fs with
  | nil => rfl
  | cons f fs ih =>
      obtain ⟨j, w⟩ := f
      rw [weave_cons, part_append, ih]
      by_cases h : j = i
      · subst h
        rw [part_sign_self, part_cons_self, join_cons]
      · rw [part_sign_ne h, part_cons_ne h, List.nil_append]

/-- A proper beginning of a weave stops inside a word, or before one. -/
theorem exists_weave_of_prefix {s : List (ι × α)} {fs : List (ι × Word C)}
    (h : s <+: weave fs) (hne : s ≠ weave fs) :
    ∃ (pre : List (ι × Word C)) (i : ι) (w : Word C) (post : List (ι × Word C))
      (x y : List α), fs = pre ++ (i, w) :: post ∧ s = weave pre ++ sign i x ∧
        w.1 = x ++ y ∧ y ≠ [] := by
  induction fs generalizing s with
  | nil => exact absurd (List.prefix_nil.1 h) hne
  | cons f fs ih =>
      obtain ⟨i, w⟩ := f
      by_cases hout : sign i w.1 <+: s
      · obtain ⟨t, rfl⟩ := hout
        rw [weave_cons, List.prefix_append_right_inj] at h
        have hrest : t ≠ weave fs := by
          rintro rfl
          exact hne rfl
        obtain ⟨pre, j, v, post, x, y, hfs, hs, hv, hy⟩ := ih h hrest
        refine ⟨(i, w) :: pre, j, v, post, x, y, ?_, ?_, hv, hy⟩
        · rw [hfs, List.cons_append]
        · rw [hs, weave_cons, List.append_assoc]
      · have hin : s <+: sign i w.1 :=
          (List.prefix_or_prefix_of_prefix h (List.prefix_append _ _)).resolve_right hout
        obtain ⟨t, ht⟩ := hin
        have hx := congrArg (List.map Prod.snd) ht
        rw [List.map_append, map_snd_sign] at hx
        refine ⟨[], i, w, fs, s.map Prod.snd, t.map Prod.snd, rfl, ?_, hx.symm, ?_⟩
        · have hall : ∀ b ∈ s, b.1 = i := by
            intro b hb
            have hmem : b ∈ sign i w.1 := by
              rw [← ht]
              exact List.mem_append_left _ hb
            obtain ⟨a, _, rfl⟩ := List.mem_map.1 hmem
            rfl
          rw [weave_nil, List.nil_append, sign, List.map_map]
          exact (List.map_id s).symm.trans
            (List.map_congr_left fun b hb => Prod.ext (hall b hb) rfl)
        · intro hnil
          apply hout
          rw [List.map_eq_nil_iff] at hnil
          rw [hnil, List.append_nil] at ht
          simp [ht]

/-- A beginning of a weave is a weave and an unfinished word of one author. -/
theorem parsed_of_prefix (k : ι) {s : List (ι × α)} {fs : List (ι × Word C)}
    (h : s <+: weave fs) :
    ∃ (gs : List (ι × Word C)) (i : ι) (x : List α),
      s = weave gs ++ sign i x ∧ Partial C x := by
  by_cases hall : s = weave fs
  · refine ⟨fs, k, [], ?_, .nil⟩
    rw [hall, sign_nil, List.append_nil]
  · obtain ⟨pre, i, w, _, x, y, _, hs, hw, hy⟩ := exists_weave_of_prefix h hall
    refine ⟨pre, i, x, hs, .inr ⟨y, hy, ?_⟩⟩
    rw [← hw]
    exact w.2

/-- A weave and an unfinished word of one author are a beginning of a weave. -/
theorem exists_weave_of_partial (fs : List (ι × Word C)) (i : ι) {x : List α}
    (hx : Partial C x) : ∃ gs : List (ι × Word C), weave fs ++ sign i x <+: weave gs := by
  rcases hx with rfl | ⟨y, _, hy⟩
  · exact ⟨fs, by simp⟩
  · refine ⟨fs ++ [(i, ⟨x ++ y, hy⟩)], ?_⟩
    rw [weave_append, weave_cons, weave_nil, List.append_nil, List.prefix_append_right_inj]
    exact sign_mono (List.prefix_append x y)

/-- Where the next symbol of a weave is by the author `i`, a beginning of it
stops inside a word of `i`, or before one. -/
theorem exists_weave_of_author {s : List (ι × α)} {fs : List (ι × Word C)} {i : ι}
    (h : s <+: weave fs) (hi : ((weave fs)[s.length]?).map Prod.fst = some i) :
    ∃ (pre : List (ι × Word C)) (w : Word C) (post : List (ι × Word C)) (x y : List α),
      fs = pre ++ (i, w) :: post ∧ s = weave pre ++ sign i x ∧ w.1 = x ++ y ∧ y ≠ [] := by
  have hne : s ≠ weave fs := by
    rintro rfl
    rw [List.getElem?_eq_none (Nat.le_refl _)] at hi
    cases hi
  obtain ⟨pre, j, w, post, x, y, rfl, rfl, hw, hy⟩ := exists_weave_of_prefix h hne
  obtain ⟨a, y, rfl⟩ := List.exists_cons_of_ne_nil hy
  have hstream : weave (pre ++ (j, w) :: post) =
      (weave pre ++ sign j x) ++ (j, a) :: (sign j y ++ weave post) := by
    rw [weave_append, weave_cons, hw, sign_append, List.append_assoc, List.append_assoc]
    rfl
  rw [hstream, List.getElem?_append_right (Nat.le_refl _), Nat.sub_self] at hi
  have hij : j = i := Option.some.inj hi
  subst hij
  exact ⟨pre, w, post, x, a :: y, rfl, rfl, hw, hy⟩

/-- Inside a word the weave goes on with the rest of the word. -/
theorem weave_continue {pre post : List (ι × Word C)} {i : ι} {w : Word C}
    {x y m : List α} (hw : w.1 = x ++ y)
    (h : (weave pre ++ sign i x).map Prod.snd ++ m <+:
      (weave (pre ++ (i, w) :: post)).map Prod.snd)
    (hm : m.length ≤ y.length) :
    m <+: y ∧ weave pre ++ sign i x ++ sign i m <+: weave (pre ++ (i, w) :: post) := by
  rw [weave_append, weave_cons, List.map_append, List.map_append, List.map_append,
    map_snd_sign, map_snd_sign, hw, List.append_assoc, List.append_assoc,
    List.prefix_append_right_inj, List.prefix_append_right_inj] at h
  have hmy : m <+: y := List.prefix_of_prefix_length_le h (List.prefix_append _ _) hm
  refine ⟨hmy, ?_⟩
  rw [weave_append, weave_cons, hw, sign_append, List.append_assoc, List.append_assoc,
    List.prefix_append_right_inj, List.prefix_append_right_inj]
  exact (sign_mono hmy).trans (List.prefix_append _ _)

/-- A weave goes on with a symbol of the author who is next. -/
theorem author_of_prefix {s : List (ι × α)} {fs : List (ι × Word C)} {i : ι} {m : List α}
    (hm : m ≠ []) (h : s ++ sign i m <+: weave fs) :
    ((weave fs)[s.length]?).map Prod.fst = some i := by
  obtain ⟨t, ht⟩ := h
  obtain ⟨a, m, rfl⟩ := List.exists_cons_of_ne_nil hm
  rw [← ht, List.append_assoc, List.getElem?_append_right (Nat.le_refl _), Nat.sub_self]
  rfl

/-- **Words in order.**  A beginning of a weave to which every author
contributed a beginning of his own stream is a beginning of a weave of the
words of these streams, those of each author in their order. -/
theorem exists_weave_of_parts [DecidableEq ι] (hC : IsPrefixCode C)
    {s : List (ι × α)} {fs : List (ι × Word C)} {words : ι → List (Word C)}
    (h : s <+: weave fs) (hpart : ∀ j, part j s <+: join (words j)) :
    ∃ gs : List (ι × Word C), s <+: weave gs ∧ ∀ j, part j gs <+: words j := by
  have hwords : ∀ {gs : List (ι × Word C)} {x : List (ι × α)},
      s = weave gs ++ x → ∀ j, part j gs <+: words j := by
    intro gs x hs j
    have hj := hpart j
    rw [hs, part_append, part_weave] at hj
    exact hC.first_words ((List.prefix_append _ _).trans hj)
  by_cases hall : s = weave fs
  · exact ⟨fs, h, hwords (hall.trans (List.append_nil _).symm)⟩
  obtain ⟨pre, i, w, _, x, y, _, hs, hw, hy⟩ := exists_weave_of_prefix h hall
  by_cases hnil : x = []
  · exact ⟨pre, by simp [hs, hnil], hwords hs⟩
  -- the unfinished word is the next one of its author
  have hx : Partial C x := .inr ⟨y, hy, hw ▸ w.2⟩
  have hi := hpart i
  rw [hs, part_append, part_weave, part_sign_self] at hi
  obtain ⟨u, rest, hu, hnext | ⟨z, hz⟩⟩ := hC.next_word hi hnil
  · refine ⟨pre ++ [(i, u)], ?_, fun j => ?_⟩
    · rw [hs, weave_append, weave_cons, weave_nil, List.append_nil,
        List.prefix_append_right_inj]
      exact sign_mono hnext
    · rw [part_append]
      by_cases hji : j = i
      · subst hji
        rw [hu, part_cons_self]
        exact ⟨rest, by simp [part]⟩
      · rw [part_cons_ne (Ne.symm hji)]
        simpa [part] using hwords hs j
  · exact (hC.not_word_prefix u.2 hx hz.symm).elim

end Weave

end ZeroCopyProxy.Verified.Interleaving
