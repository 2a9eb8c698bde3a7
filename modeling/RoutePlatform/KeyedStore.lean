import Mathlib

/-!
# Entries in the order of their keys

A store of entries that each carry their own key, with at most one entry for
a key. The entries are kept in the order of the keys, which is the order in
which a walk meets them.
-/

namespace RoutePlatform.KeyedStore

open List

variable {α κ : Type*} [LinearOrder κ] {key : α→κ}

/-- Insertion in order; an entry with the same key is replaced. -/
def insertEntry (key : α→κ) (a : α) : List α→List α
  | [] => [a]
  | b::rest =>
    if key a<key b then a::b::rest
    else if key a=key b then a::rest
    else b::insertEntry key a rest

/-- Entries in strict order of their keys. -/
@[ext] structure Store (α : Type*) {κ : Type*} [LinearOrder κ] (key : α→κ) where
  entries : List α
  sorted : entries.Pairwise fun a b => key a<key b

theorem mem_insertEntry (a x : α) (l : List α) : x∈insertEntry key a l → x=a ∨ x∈l := by
  induction l with
  | nil => exact fun h => .inl (mem_singleton.mp h)
  | cons b rest ih =>
    rw [insertEntry]
    split
    · exact mem_cons.mp
    split
    · exact fun h => (mem_cons.mp h).imp_right (mem_cons_of_mem b)
    intro h
    rcases mem_cons.mp h with hx|hx
    · exact .inr (mem_cons.mpr (.inl hx))
    · exact (ih hx).imp_right (mem_cons_of_mem b)

theorem pairwise_insertEntry (a : α) (l : List α) (hl : l.Pairwise fun x y => key x<key y) :
    (insertEntry key a l).Pairwise fun x y => key x<key y := by
  induction l with
  | nil => exact pairwise_singleton _ a
  | cons b rest ih =>
    obtain ⟨hb,hrs⟩ := pairwise_cons.mp hl
    rw [insertEntry]
    split
    · rename_i hlt
      refine pairwise_cons.mpr ⟨fun x hx => ?_,hl⟩
      rcases mem_cons.mp hx with hx|hx
      · rw [hx]
        exact hlt
      · exact hlt.trans (hb x hx)
    rename_i hge
    split
    · rename_i heq
      refine pairwise_cons.mpr ⟨fun x hx => ?_,hrs⟩
      rw [heq]
      exact hb x hx
    rename_i hne
    refine pairwise_cons.mpr ⟨fun x hx => ?_,ih hrs⟩
    rcases mem_insertEntry a x rest hx with hx|hx
    · rw [hx]
      exact lt_of_le_of_ne (not_lt.mp hge) (Ne.symm hne)
    · exact hb x hx

theorem eq_of_key {l : List α} (hl : l.Pairwise fun x y => key x<key y) {a b : α}
    (ha : a∈l) (hb : b∈l) (hkey : key a=key b) : a=b := by
  induction l with
  | nil => cases ha
  | cons c rest ih =>
    obtain ⟨hc,hrs⟩ := pairwise_cons.mp hl
    rcases mem_cons.mp ha with ha|ha
    · rcases mem_cons.mp hb with hb|hb
      · rw [ha,hb]
      have hlt := hc b hb
      rw [←hkey,ha] at hlt
      exact absurd hlt (lt_irrefl _)
    rcases mem_cons.mp hb with hb|hb
    · have hlt := hc a ha
      rw [hkey,hb] at hlt
      exact absurd hlt (lt_irrefl _)
    · exact ih hrs ha hb

theorem find?_insertEntry (a : α) (k : κ) (l : List α) (hl : l.Pairwise fun x y => key x<key y) :
    (insertEntry key a l).find? (fun x => key x=k) =
      if key a=k then some a else l.find? fun x => key x=k := by
  induction l with
  | nil =>
    rw [insertEntry,find?_cons]
    by_cases hk : key a=k
    · rw [if_pos hk,decide_eq_true hk]
    · rw [if_neg hk,decide_eq_false hk]
  | cons b rest ih =>
    obtain ⟨hb,hrs⟩ := pairwise_cons.mp hl
    rw [insertEntry]
    by_cases hk : key a=k
    · rw [if_pos hk]
      split
      · rw [find?_cons,decide_eq_true hk]
      split
      · rw [find?_cons,decide_eq_true hk]
      rename_i hne
      have hbk : key b≠k := fun h => hne (hk.trans h.symm)
      rw [find?_cons,decide_eq_false hbk,ih hrs,if_pos hk]
    rw [if_neg hk]
    split
    · rw [find?_cons,decide_eq_false hk]
    split
    · rename_i heq
      have hbk : key b≠k := fun h => hk (heq.trans h)
      rw [find?_cons,decide_eq_false hk,find?_cons,decide_eq_false hbk]
    · rw [find?_cons,find?_cons,ih hrs,if_neg hk]

namespace Store

variable (s : Store α key)

def empty : Store α key := ⟨[],List.Pairwise.nil⟩

def isEmpty : Bool := s.entries.isEmpty

def lookup (k : κ) : Option α := s.entries.find? fun a => key a=k

/-- Put an entry in the place of the one with its key. -/
def insert (a : α) : Store α key :=
  ⟨insertEntry key a s.entries,pairwise_insertEntry a s.entries s.sorted⟩

/-- Take the entry of a key out. -/
def erase (k : κ) : Store α key := ⟨s.entries.filter fun a => key a≠k,s.sorted.filter _⟩

variable {s}

theorem lookup_eq_some_iff {k : κ} {a : α} : s.lookup k=some a ↔ a∈s.entries ∧ key a=k := by
  constructor
  · intro h
    have hk := find?_some (p := fun a => decide (key a=k)) h
    exact ⟨mem_of_find?_eq_some h,of_decide_eq_true hk⟩
  · intro ⟨ha,hk⟩
    cases hfind : s.lookup k with
    | none => exact absurd (decide_eq_true hk) (find?_eq_none.mp hfind a ha)
    | some b =>
      have hb := of_decide_eq_true (find?_some (p := fun a => decide (key a=k)) hfind)
      rw [eq_of_key s.sorted (mem_of_find?_eq_some hfind) ha (hb.trans hk.symm)]

theorem lookup_insert (a : α) (k : κ) :
    (s.insert a).lookup k=if key a=k then some a else s.lookup k :=
  find?_insertEntry a k s.entries s.sorted

@[simp] theorem lookup_insert_self (a : α) : (s.insert a).lookup (key a)=some a := by
  rw [lookup_insert,if_pos rfl]

theorem isEmpty_iff : s.isEmpty=true ↔ s.entries=[] := List.isEmpty_iff

theorem isEmpty_insert (a : α) : (s.insert a).isEmpty=false := by
  rw [Bool.eq_false_iff]
  intro h
  have hself := lookup_insert_self (s := s) a
  rw [lookup_eq_some_iff,isEmpty_iff.mp h] at hself
  exact absurd hself.1 not_mem_nil

end Store

end RoutePlatform.KeyedStore
