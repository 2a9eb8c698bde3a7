import Mathlib

/-!
# A store of heap cells addressed by pointers

A store maps finitely many pointers to live cells. Allocation always takes a pointer that was
never handed out before, so a dangling pointer reads as absent. Writes go through `modify`, which
cannot revive a freed cell.
-/

namespace RoutePlatform.PointerStore

open Finset
universe u

/-- A finite heap. Every pointer at or above `next` is still unallocated. -/
structure Store (α : Type u) where
  cells : ℕ→Option α
  next : ℕ
  fresh : ∀ i, next ≤ i → cells i=none

namespace Store

variable {α : Type u} (s : Store α) (i j : ℕ) (a : α) (f : α→α)

/-- The store with no allocated cell. -/
def empty : Store α := ⟨fun _ => none,0,fun _ _ => rfl⟩

/-- Dereference a pointer; a freed or unallocated cell reads as absent. -/
def read : Option α := s.cells i

/-- Allocate a cell at the frontier pointer `s.next`. -/
def alloc : Store α where
  cells := fun j => if j=s.next then some a else s.cells j
  next := s.next+1
  fresh := fun j hj => by
    rw [if_neg (by omega)]
    exact s.fresh j (by omega)

/-- Update a live cell in place; a dead one stays dead. -/
def modify : Store α where
  cells := fun j => if j=i then (s.cells i).map f else s.cells j
  next := s.next
  fresh := fun j hj => by
    by_cases h : j=i
    · rw [if_pos h,←h,s.fresh j hj]
      rfl
    rw [if_neg h]
    exact s.fresh j hj

def free : Store α where
  cells := fun j => if j=i then none else s.cells j
  next := s.next
  fresh := fun j hj => by
    by_cases h : j=i
    · rw [if_pos h]
    rw [if_neg h]
    exact s.fresh j hj

def live : Finset ℕ := (Finset.range s.next).filter fun i => (s.cells i).isSome

def size : ℕ := s.live.card

theorem read_alloc : (s.alloc a).read j=if j=s.next then some a else s.read j := rfl

theorem read_modify : (s.modify i f).read j=if j=i then (s.read i).map f else s.read j := rfl

theorem read_free : (s.free i).read j=if j=i then none else s.read j := rfl

theorem ext {s t : Store α} (hnext : s.next=t.next) (hread : ∀ i, s.read i=t.read i) : s=t := by
  obtain ⟨cs,ns,hs⟩ := s
  obtain ⟨ct,nt,ht⟩ := t
  have hcells : cs=ct := funext hread
  subst hcells
  cases hnext
  rfl

theorem modify_comm : (s.modify i f).modify j f=(s.modify j f).modify i f := by
  by_cases hij : i=j
  · rw [hij]
  refine ext rfl fun k => ?_
  rw [read_modify,read_modify,read_modify,read_modify,read_modify,read_modify,if_neg hij,
    if_neg (Ne.symm hij)]
  by_cases hkj : k=j
  · rw [if_pos hkj,if_neg (fun h => hij (h.symm.trans hkj)),if_pos hkj]
  · rw [if_neg hkj,if_neg hkj]

theorem modify_modify_cancel {g : α → α} (h : ∀ a, s.read i=some a → g (f a)=a) :
    (s.modify i f).modify i g=s := by
  refine ext rfl fun k => ?_
  rw [read_modify,read_modify,if_pos rfl,read_modify]
  by_cases hk : k=i
  · rw [if_pos hk,hk]
    cases hr : s.read i with
    | none => rfl
    | some a => exact congrArg some (h a hr)
  · rw [if_neg hk,if_neg hk]

variable {s i j}

theorem lt_next {c : α} (h : s.read i=some c) : i<s.next := by
  by_contra hn
  have hf := s.fresh i (by omega)
  rw [read,hf] at h
  cases h

@[simp] theorem read_next : s.read s.next=none := s.fresh s.next le_rfl

theorem mem_live : i∈s.live ↔ ∃ c, s.read i=some c := by
  simp only [live,mem_filter,mem_range,Option.isSome_iff_exists]
  constructor
  · exact fun h => h.2
  · rintro ⟨c,hc⟩
    exact ⟨lt_next hc,c,hc⟩

theorem live_congr {s t : Store α} (h : ∀ i, (s.read i).isSome=(t.read i).isSome) :
    s.live=t.live := by
  ext i
  rw [mem_live,mem_live,←Option.isSome_iff_exists,←Option.isSome_iff_exists,h]

variable (s i j)

theorem live_alloc : (s.alloc a).live=insert s.next s.live := by
  ext j
  rw [mem_insert,mem_live,mem_live,read_alloc]
  by_cases h : j=s.next
  · simp [h]
  · simp [h]

theorem live_modify : (s.modify i f).live=s.live := by
  apply live_congr
  intro j
  rw [read_modify]
  by_cases h : j=i
  · rw [if_pos h,h,Option.isSome_map]
  · rw [if_neg h]

theorem live_free : (s.free i).live=s.live.erase i := by
  ext j
  rw [mem_erase,mem_live,mem_live,read_free]
  by_cases h : j=i
  · simp [h]
  · simp [h]

@[simp] theorem size_alloc : (s.alloc a).size=s.size+1 := by
  have hn : s.next ∉ s.live := by
    rw [mem_live]
    rintro ⟨c,hc⟩
    exact absurd (lt_next hc) (lt_irrefl _)
  rw [size,size,live_alloc,card_insert_of_notMem hn]

@[simp] theorem size_modify : (s.modify i f).size=s.size := by rw [size,size,live_modify]

variable {s i}

theorem size_free {c : α} (h : s.read i=some c) : (s.free i).size+1=s.size := by
  rw [size,size,live_free]
  exact card_erase_add_one (mem_live.mpr ⟨c,h⟩)

theorem ncard_eq_size {p : ℕ → Prop} (h : ∀ i, p i ↔ ∃ c, s.read i=some c) :
    {i | p i}.ncard=s.size := by
  have he : {i | p i}=(s.live : Set ℕ) := by
    ext i
    rw [Set.mem_ofPred_eq,mem_coe,mem_live,h]
  rw [he,Set.ncard_coe_finset,size]

end Store

end RoutePlatform.PointerStore
