import Mathlib

/-!
# Lexicographic order and the prefix relation

A list comes before each of its proper extensions, and two lists neither of which extends the
other are ordered by the first position where they differ: the order in which a preorder walk
meets the strings of a trie.
-/

namespace RoutePlatform.BitString

open List

universe u

variable {α : Type u}

section

variable {xs ys zs : List α}

theorem getElem?_of_isPrefix (h : xs <+: ys) {k : ℕ} (hk : k<xs.length) : ys[k]? = xs[k]? := by
  obtain ⟨t,rfl⟩ := h
  rw [List.getElem?_append_left hk]

theorem lt_length_of_getElem? {k : ℕ} {a : α} (h : xs[k]? = some a) : k<xs.length := by
  rw [List.getElem?_eq_some_iff] at h
  exact h.1

theorem eq_of_prefix_length (h : xs <+: ys) (hl : ys.length≤xs.length) : xs=ys :=
  h.eq_of_length (le_antisymm h.length_le hl)

theorem concat_isPrefix {a : α} (h : xs <+: ys) (ha : ys[xs.length]? = some a) :
    xs++[a] <+: ys := by
  obtain ⟨t,rfl⟩ := h
  cases t with
  | nil => simp at ha
  | cons b t =>
    have hb : b=a := by simpa using ha
    exact ⟨t,by simp [hb]⟩


end

section

variable [LinearOrder α] {xs ys zs : List α}

theorem le_of_isPrefix (h : xs <+: ys) : xs≤ys := by
  obtain ⟨t,rfl⟩ := h
  induction xs with
  | nil => exact not_lt.mp (not_lt_nil _)
  | cons a xs ih => exact cons_le_cons a ih

theorem lt_of_isPrefix (h : xs <+: ys) (hl : xs.length<ys.length) : xs<ys := by
  refine lt_of_le_of_ne (le_of_isPrefix h) ?_
  rintro rfl
  exact lt_irrefl _ hl

theorem lt_of_getElem? {a b : α} {c : List α} (hx : c <+: xs) (hy : c <+: ys)
    (ha : xs[c.length]? = some a) (hb : ys[c.length]? = some b) (hab : a<b) : xs<ys := by
  obtain ⟨s,rfl⟩ := concat_isPrefix hx ha
  obtain ⟨t,rfl⟩ := concat_isPrefix hy hb
  simp only [append_assoc,singleton_append]
  exact List.Lex.append_left _ (List.Lex.rel hab) c

/-- A smaller list is a proper prefix or loses at the first difference. -/
theorem lt_cases (h : xs<ys) : (xs <+: ys ∧ xs.length<ys.length) ∨
    ∃ c a b, c <+: xs ∧ c <+: ys ∧ xs[c.length]? = some a ∧ ys[c.length]? = some b ∧ a<b := by
  induction xs generalizing ys with
  | nil =>
    cases ys with
    | nil => exact absurd h (lt_irrefl _)
    | cons b ys => exact .inl ⟨List.nil_prefix,by simp⟩
  | cons a xs ih =>
    cases ys with
    | nil => exact absurd h (not_lt_nil _)
    | cons b ys =>
      rcases cons_lt_cons_iff.mp h with hab|⟨rfl,hlt⟩
      · exact .inr ⟨[],a,b, nil_prefix, nil_prefix,rfl,rfl,hab⟩
      rcases ih hlt with ⟨hp,hl⟩|⟨c,x,y,hx,hy,hcx,hcy,hxy⟩
      · exact .inl ⟨cons_prefix_cons.mpr ⟨rfl,hp⟩,by simpa using hl⟩
      exact .inr ⟨a::c,x,y,cons_prefix_cons.mpr ⟨rfl,hx⟩,
        cons_prefix_cons.mpr ⟨rfl,hy⟩,by simpa using hcx,by simpa using hcy,hxy⟩

theorem lt_of_lt_of_not_isPrefix (h : xs<ys) (hn : ¬xs <+: ys) (hz : xs <+: zs) : zs<ys := by
  rcases lt_cases h with ⟨hp,-⟩|⟨c,a,b,hx,hy,ha,hb,hab⟩
  · exact absurd hp hn
  have hza : zs[c.length]? = some a := by rw [getElem?_of_isPrefix hz (lt_length_of_getElem? ha),ha]
  exact lt_of_getElem? (hx.trans hz) hy hza hb hab

end

end RoutePlatform.BitString
