import Mathlib

/-!
# Ordered maps

A map as the list of its entries in the order of their keys, each key once. What is known
about a map is what a lookup finds: the lemmas say so for every operation.
-/

namespace RoutePlatform.OrderedMaps

open List Option

variable {κ α : Type} [LinearOrder κ]

structure OrderedMap (κ α : Type) [LinearOrder κ] where
  entries : List (κ × α)
  /-- They are in the order of their keys, each once. -/
  sorted : entries.Pairwise fun a b => a.1<b.1

variable (m : OrderedMap κ α)

namespace OrderedMap

def empty : OrderedMap κ α := ⟨[],List.Pairwise.nil⟩

/-- What is found under a key. -/
def lookup (m : OrderedMap κ α) (k : κ) : Option α := (m.entries.find? fun e => e.1=k).map Prod.snd

/-- Put an entry, in place of the one under its key. -/
def insert (m : OrderedMap κ α) (k : κ) (a : α) : OrderedMap κ α where
  entries := m.entries.filter (fun e => e.1<k)++(k,a)::m.entries.filter fun e => k<e.1
  sorted := by
    have hlow : ∀ e∈m.entries.filter fun e => e.1<k, e.1<k := fun e he =>
      of_decide_eq_true (mem_filter.mp he).2
    have hhigh : ∀ e∈m.entries.filter fun e => k<e.1, k<e.1 := fun e he =>
      of_decide_eq_true (mem_filter.mp he).2
    rw [pairwise_append,pairwise_cons]
    refine ⟨m.sorted.filter _,⟨hhigh,m.sorted.filter _⟩,fun e he f hf => ?_⟩
    rcases mem_cons.mp hf with rfl|hf
    · exact hlow e he
    · exact (hlow e he).trans (hhigh f hf)

/-- Remove the entry under a key. -/
def erase (m : OrderedMap κ α) (k : κ) : OrderedMap κ α where
  entries := m.entries.filter fun e => e.1≠k
  sorted := m.sorted.filter _

theorem mem_entries_iff {k : κ} {a : α} : (k,a)∈m.entries ↔ m.lookup k=some a := by
  rw [lookup,map_eq_some_iff]
  constructor
  · intro hmem
    refine ⟨(k,a),?_,rfl⟩
    obtain ⟨front,back,hsplit⟩ := append_of_mem hmem
    have hsrt := m.sorted
    rw [hsplit,pairwise_append] at hsrt
    rw [hsplit,List.find?_append,or_eq_some_iff]
    refine Or.inr ⟨List.find?_eq_none.mpr fun e he h => ?_,List.find?_cons_of_pos (by simp)⟩
    have hlt := hsrt.2.2 e he (k,a) mem_cons_self
    rw [of_decide_eq_true h] at hlt
    exact lt_irrefl _ hlt
  · rintro ⟨⟨k',a'⟩,hfnd,rfl⟩
    have hkey := List.find?_some hfnd
    have hkey : k'=k := of_decide_eq_true hkey
    rw [←hkey]
    exact mem_of_find?_eq_some hfnd

theorem lookup_insert (k k' : κ) (a : α) :
    (m.insert k a).lookup k'=if k'=k then some a else m.lookup k' := by
  apply Option.ext
  intro b
  rw [←mem_entries_iff]
  change (k',b)∈m.entries.filter (fun e => e.1<k)++(k,a)::m.entries.filter (fun e => k<e.1) ↔ _
  rw [mem_append,mem_cons,mem_filter,mem_filter,decide_eq_true_iff,decide_eq_true_iff]
  by_cases hkey : k'=k
  · rw [if_pos hkey]
    constructor
    · rintro (⟨-,hlt⟩|heq|⟨-,hlt⟩)
      · exact absurd hlt (by rw [hkey]; exact lt_irrefl _)
      · rw [(Prod.mk.inj heq).2]
      · exact absurd hlt (by rw [hkey]; exact lt_irrefl _)
    · intro h
      rw [hkey,some.inj h]
      exact Or.inr (Or.inl rfl)
  rw [if_neg hkey,←mem_entries_iff]
  constructor
  · rintro (⟨hmem,-⟩|heq|⟨hmem,-⟩)
    · exact hmem
    · exact (hkey (Prod.mk.inj heq).1).elim
    · exact hmem
  · intro hmem
    rcases lt_or_gt_of_ne hkey with hlt|hgt
    · exact Or.inl ⟨hmem,hlt⟩
    · exact Or.inr (Or.inr ⟨hmem,hgt⟩)

theorem lookup_erase (k k' : κ) : (m.erase k).lookup k'=if k'=k then none else m.lookup k' := by
  apply Option.ext
  intro b
  rw [←mem_entries_iff]
  change (k',b)∈m.entries.filter (fun e => e.1≠k) ↔ _
  rw [mem_filter,decide_eq_true_iff,mem_entries_iff]
  by_cases hkey : k'=k
  · rw [if_pos hkey]
    exact ⟨fun h => (h.2 hkey).elim,nofun⟩
  rw [if_neg hkey]
  exact and_iff_left hkey

end OrderedMap

end RoutePlatform.OrderedMaps
