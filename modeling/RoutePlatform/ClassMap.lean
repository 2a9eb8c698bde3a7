import Mathlib

/-!
# Maps from classes to items

Items are compared by an equivalence. A map that answers every item with the
stored item of its class is described by the set of stored items; storing and
removing change both together.
-/

namespace RoutePlatform.ClassMap

universe u

variable {α : Type u}

structure Equivalent (sim : α→α→Bool) : Prop where
  refl : ∀ x, sim x x=true
  symm : ∀ {x y}, sim x y=true → sim y x=true
  trans : ∀ {x y z}, sim x y=true → sim y z=true → sim x z=true

variable (sim : α→α→Bool)

/-- Store an item for its class. -/
def put (m : α→Option α) (new : α) : α→Option α := fun x => if sim new x then some new else m x

/-- Forget the class of an item. -/
def remove (m : α→Option α) (data : α) : α→Option α := fun x => if sim data x then none else m x

/-- The map answers with the items of the set. -/
def Holds (S : α → Prop) (m : α → Option α) : Prop := ∀ x y, m x=some y ↔ S y ∧ sim y x=true

variable {sim} {S S' : α→Prop} {m : α→Option α}

theorem holds_empty : Holds sim (fun _ => False) fun _ => none :=
  fun _ _ => iff_of_false (by simp) fun h => h.1

section

variable (h : Holds sim S m)
include h

theorem Holds.congr (hS : ∀ y, S' y ↔ S y) : Holds sim S' m := by
  intro x y
  rw [h x y,hS y]

theorem Holds.eq_none_iff (x : α) : m x=none ↔ ∀ y, S y → sim y x=false := by
  constructor
  · intro hnone y hy
    by_contra hs
    have hsome := (h x y).mpr ⟨hy,Bool.eq_true_of_not_eq_false hs⟩
    rw [hnone] at hsome
    cases hsome
  · intro hnone
    cases hm : m x with
    | none => rfl
    | some y =>
      obtain ⟨hy,hs⟩ := (h x y).mp hm
      rw [hnone y hy] at hs
      cases hs

/-- An item is stored for a class that has none. -/
theorem Holds.put (hsim : Equivalent sim) {new : α} (hnew : ∀ y, S y → sim y new=false)
    (hS : ∀ y, S' y ↔ y=new ∨ S y) : Holds sim S' (put sim m new) := by
  intro x y
  rw [ClassMap.put,hS y]
  by_cases hx : sim new x=true
  · rw [if_pos hx]
    constructor
    · intro he
      cases he
      exact ⟨.inl rfl,hx⟩
    · rintro ⟨rfl|hy,hs⟩
      · rfl
      have hbad := hsim.trans hs (hsim.symm hx)
      rw [hnew y hy] at hbad
      cases hbad
  rw [if_neg hx,h x y]
  constructor
  · rintro ⟨hy,hs⟩
    exact ⟨.inr hy,hs⟩
  · rintro ⟨rfl|hy,hs⟩
    · exact absurd hs hx
    · exact ⟨hy,hs⟩

theorem Holds.remove (hsim : Equivalent sim) {data : α} (hS : ∀ y, S' y ↔ S y ∧ sim y data=false) :
    Holds sim S' (remove sim m data) := by
  intro x y
  rw [ClassMap.remove,hS y]
  by_cases hx : sim data x=true
  · rw [if_pos hx]
    refine iff_of_false (by simp) ?_
    rintro ⟨⟨-,hne⟩,hs⟩
    rw [hsim.trans hs (hsim.symm hx)] at hne
    cases hne
  rw [if_neg hx,h x y]
  constructor
  · rintro ⟨hy,hs⟩
    refine ⟨⟨hy,?_⟩,hs⟩
    by_contra hne
    exact hx (hsim.trans (hsim.symm (Bool.eq_true_of_not_eq_false hne)) hs)
  · rintro ⟨⟨hy,-⟩,hs⟩
    exact ⟨hy,hs⟩

end

end RoutePlatform.ClassMap
