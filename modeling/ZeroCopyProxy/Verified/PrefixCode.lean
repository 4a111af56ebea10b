import Mathlib.Data.List.Basic

/-!
# Streams cut into words of a prefix code

A message format whose messages carry their own length is a prefix code: no
message is a proper prefix of another.  That is all a relay needs in order to
cut a stream.  The central fact is `join_unique`: a stream splits in at most
one way into whole words and a beginning of a word, so that two parties that
agree on the bytes agree on the messages.

Nothing here depends on what the symbols are or how long a word may be.
-/

namespace ZeroCopyProxy.Verified.PrefixCode

variable {α : Type}

/-- No word is empty, and no word begins another. -/
structure IsPrefixCode (C : List α → Prop) : Prop where
  ne_nil : ∀ {w}, C w → w ≠ []
  eq_of_prefix : ∀ {v w}, C v → C w → v <+: w → v = w

/-- A word of the code. -/
abbrev Word (C : List α → Prop) : Type := {w : List α // C w}

/-- The stream that carries these words one after the other. -/
def join {C : List α → Prop} (ws : List (Word C)) : List α :=
  (ws.map Subtype.val).flatten

/-- A proper beginning of a word, the empty one included. -/
def Partial (C : List α → Prop) (p : List α) : Prop :=
  p = [] ∨ ∃ x, x ≠ [] ∧ C (p ++ x)

variable {C : List α → Prop}

@[simp] theorem join_nil : join ([] : List (Word C)) = [] := rfl

@[simp] theorem join_cons (w : Word C) (ws : List (Word C)) :
    join (w :: ws) = w.1 ++ join ws := rfl

@[simp] theorem join_append (vs ws : List (Word C)) :
    join (vs ++ ws) = join vs ++ join ws := by
  simp [join]

/-- The empty stream is an unfinished word. -/
theorem Partial.nil : Partial C [] := .inl rfl

/-- A word that begins a stream and another word of the same stream are the
same word. -/
theorem IsPrefixCode.eq_of_append (hC : IsPrefixCode C) {v w a b : List α}
    (hv : C v) (hw : C w) (h : v ++ a = w ++ b) : v = w := by
  have hvs : v <+: w ++ b := ⟨a, h⟩
  rcases List.prefix_or_prefix_of_prefix hvs (List.prefix_append w b) with hp | hp
  · exact hC.eq_of_prefix hv hw hp
  · exact (hC.eq_of_prefix hw hv hp).symm

/-- No word begins an unfinished word. -/
theorem IsPrefixCode.not_word_prefix (hC : IsPrefixCode C) {w p a : List α}
    (hw : C w) (hp : Partial C p) (h : p = w ++ a) : False := by
  rcases hp with rfl | ⟨x, hx, hpx⟩
  · have hnil : w = [] := by
      have hlen := congrArg List.length h
      simp only [List.length_nil, List.length_append] at hlen
      exact List.eq_nil_of_length_eq_zero (by omega)
    exact hC.ne_nil hw hnil
  · have heq : w = p ++ x :=
      hC.eq_of_append (a := a ++ x) (b := []) hw hpx (by simp [h])
    have hlen := congrArg List.length heq
    rw [h] at hlen
    simp only [List.length_append] at hlen
    exact hx (List.eq_nil_of_length_eq_zero (by omega))

/-- **Unique parsing.**  A stream is in at most one way a sequence of words
followed by an unfinished one. -/
theorem IsPrefixCode.join_unique (hC : IsPrefixCode C) {vs ws : List (Word C)}
    {p q : List α} (h : join vs ++ p = join ws ++ q)
    (hp : Partial C p) (hq : Partial C q) : vs = ws ∧ p = q := by
  induction vs generalizing ws with
  | nil =>
      cases ws with
      | nil => exact ⟨rfl, by simpa using h⟩
      | cons w ws =>
          have hpw : p = w.1 ++ (join ws ++ q) := by simpa using h
          exact (hC.not_word_prefix w.2 hp hpw).elim
  | cons v vs ih =>
      cases ws with
      | nil =>
          have hqv : q = v.1 ++ (join vs ++ p) := by simpa using h.symm
          exact (hC.not_word_prefix v.2 hq hqv).elim
      | cons w ws =>
          simp only [join_cons, List.append_assoc] at h
          have hvw : v = w := Subtype.ext (hC.eq_of_append v.2 w.2 h)
          subst hvw
          obtain ⟨hvs, hpq⟩ := ih (List.append_cancel_left h)
          exact ⟨by rw [hvs], hpq⟩

/-- Whole words at the front of a stream of words and an unfinished one are its
first words. -/
theorem IsPrefixCode.join_split (hC : IsPrefixCode C) {vs ws : List (Word C)}
    {p q : List α} (h : join vs ++ p = join ws ++ q) (hq : Partial C q) :
    ∃ us, ws = vs ++ us ∧ p = join us ++ q := by
  induction vs generalizing ws with
  | nil => exact ⟨ws, rfl, h⟩
  | cons v vs ih =>
      cases ws with
      | nil =>
          have hqv : q = v.1 ++ (join vs ++ p) := by simpa using h.symm
          exact (hC.not_word_prefix v.2 hq hqv).elim
      | cons w ws =>
          simp only [join_cons, List.append_assoc] at h
          have hvw : v = w := Subtype.ext (hC.eq_of_append v.2 w.2 h)
          subst hvw
          obtain ⟨us, hws, hp⟩ := ih (List.append_cancel_left h)
          exact ⟨us, by rw [hws, List.cons_append], hp⟩

/-- Whole words at the front of a stream of words are its first words. -/
theorem IsPrefixCode.first_words (hC : IsPrefixCode C)
    {vs ws : List (Word C)} (h : join vs <+: join ws) : vs <+: ws := by
  induction vs generalizing ws with
  | nil => exact List.nil_prefix
  | cons v vs ih =>
      obtain ⟨t, ht⟩ := h
      cases ws with
      | nil =>
          have hv : v.1 = [] := by simp at ht; exact ht.1
          exact (hC.ne_nil v.2 hv).elim
      | cons w ws =>
          simp only [join_cons, List.append_assoc] at ht
          have hvw : v = w := Subtype.ext (hC.eq_of_append v.2 w.2 ht)
          subst hvw
          exact (List.prefix_cons_inj v).mpr (ih ⟨t, List.append_cancel_left ht⟩)

/-- What follows whole words in a stream of words begins with, or is the
beginning of, the next word. -/
theorem IsPrefixCode.next_word (hC : IsPrefixCode C) {vs ws : List (Word C)}
    {p : List α} (h : join vs ++ p <+: join ws) (hp : p ≠ []) :
    ∃ u rest, ws = vs ++ u :: rest ∧ (p <+: u.1 ∨ u.1 <+: p) := by
  obtain ⟨us, rfl⟩ :=
    hC.first_words ((List.prefix_append _ _).trans h)
  have hus : p <+: join us := by
    simpa [List.prefix_append_right_inj] using h
  cases us with
  | nil => exact (hp (by simpa using hus)).elim
  | cons u rest =>
      exact ⟨u, rest, rfl, List.prefix_or_prefix_of_prefix hus
        (List.prefix_append u.1 (join rest))⟩

/-- Whole words that are more than the first words of a stream contain the
next one. -/
theorem IsPrefixCode.next_length (hC : IsPrefixCode C) {us vs ws : List (Word C)}
    {u : Word C} (h : join us <+: join (vs ++ u :: ws))
    (hlt : (join vs).length < (join us).length) :
    (join vs).length + u.1.length ≤ (join us).length := by
  have hus : us <+: (vs ++ [u]) ++ ws := by
    rw [List.append_assoc]
    exact hC.first_words h
  rcases List.prefix_or_prefix_of_prefix hus (List.prefix_append (vs ++ [u]) ws) with hp | hp
  · rcases List.prefix_concat_iff.1 hp with rfl | hp
    · simp
    · obtain ⟨rest, rfl⟩ := hp
      rw [join_append, List.length_append] at hlt
      omega
  · obtain ⟨rest, rfl⟩ := hp
    simp

end ZeroCopyProxy.Verified.PrefixCode
