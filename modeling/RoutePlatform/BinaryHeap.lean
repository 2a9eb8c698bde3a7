import Mathlib

/-!
# Binary heaps laid out in an array

An array is a function on positions of which the first `n` count. While a sift runs, the order is
violated at one position only, and two invariants describe the violation: towards the root for a
sift up, towards the leaves for a sift down.
-/

namespace RoutePlatform.BinaryHeap

open Function

universe u v

variable {α : Type u} {τ : Type v} [LinearOrder τ] (key : α→τ) (h : ℕ → α)

/-- The parent of a position; the root is its own parent. -/
def parent (i : ℕ) : ℕ := (i-1)/2

/-- No element comes before its parent. -/
def HeapOrder (h : ℕ → α) (n : ℕ) : Prop := ∀ i, 0 < i → i<n → key (h (parent i))≤key (h i)

/-- The element at `k` may come before its parent. -/
structure UpOrder (h : ℕ→α) (n k : ℕ) : Prop where
  order : ∀ i, 0 < i → i<n → i≠k → key (h (parent i))≤key (h i)
  /-- The children of `k` are in order with the parent of `k`. -/
  grand : ∀ i, 0 < i → i<n → parent i=k → 0<k → key (h (parent k))≤key (h i)

/-- The element at `k` may come after its children. -/
structure DownOrder (h : ℕ→α) (n k : ℕ) : Prop where
  /-- All elements but the children of `k` are in order. -/
  order : ∀ i, 0 < i → i<n → parent i≠k → key (h (parent i))≤key (h i)
  /-- The children of `k` are in order with the parent of `k`. -/
  grand : ∀ i, 0 < i → i<n → parent i=k → 0<k → key (h (parent k))≤key (h i)

/-- The array with two positions exchanged. -/
def exchange (h : ℕ→α) (i j : ℕ) : ℕ→α := fun x => h (Equiv.swap i j x)

theorem exchange_left (i j : ℕ) : exchange h i j i=h j := by
  rw [exchange,Equiv.swap_apply_left]

theorem exchange_right (i j : ℕ) : exchange h i j j=h i := by
  rw [exchange,Equiv.swap_apply_right]

theorem exchange_of_ne {i j x : ℕ} (hi : x≠i) (hj : x≠j) : exchange h i j x=h x := by
  rw [exchange,Equiv.swap_apply_of_ne_of_ne hi hj]

theorem update_update_eq_exchange {h : ℕ → α} {i j : ℕ} (hij : i≠j) (a : α) :
    update (update h i (h j)) j a=exchange (update h i a) i j := by
  funext x
  by_cases hj : x=j
  · subst hj
    rw [update_self,exchange_right,update_self]
  rw [update_of_ne hj]
  by_cases hi : x=i
  · subst hi
    rw [update_self,exchange_left,update_of_ne (Ne.symm hij)]
  · rw [update_of_ne hi,exchange_of_ne _ hi hj,update_of_ne hi]

theorem parent_lt {i : ℕ} (hi : 0 < i) : parent i < i := by
  unfold parent
  omega

variable {key} {h : ℕ→α} {n k : ℕ}

theorem HeapOrder.root_le (ho : HeapOrder key h n) (i : ℕ) (hi : i<n) : key (h 0)≤key (h i) := by
  induction i using Nat.strong_induction_on with
  | h i ih =>
    by_cases hz : i=0
    · rw [hz]
    have hpos := pos_of_ne_zero hz
    have hlt := parent_lt hpos
    exact (ih (parent i) hlt (hlt.trans hi)).trans (ho i hpos hi)

theorem HeapOrder.append (ho : HeapOrder key h n) (a : α) : UpOrder key (update h n a) (n+1) n where
  order := by
    intro i hpos hi hne
    have hlt := parent_lt hpos
    rw [update_of_ne hne,update_of_ne (by omega)]
    exact ho i hpos (by omega)
  grand := by
    intro i hpos hi hpar _
    have hlt := parent_lt hpos
    omega

theorem UpOrder.finish (ho : UpOrder key h n k)
    (hk : 0<k → key (h (parent k))≤key (h k)) : HeapOrder key h n := by
  intro i hpos hi
  by_cases hik : i=k
  · rw [hik]
    exact hk (hik ▸ hpos)
  · exact ho.order i hpos hi hik

theorem UpOrder.move (ho : UpOrder key h n k) (hk : 0<k) (hn : k<n)
    (hlt : key (h k)<key (h (parent k))) :
    UpOrder key (exchange h k (parent k)) n (parent k) := by
  have hp := parent_lt hk
  constructor
  · intro i hpos hi hne
    by_cases hik : i=k
    · rw [hik,exchange_left,exchange_right]
      exact hlt.le
    rw [exchange_of_ne h hik hne]
    by_cases hpk : parent i=k
    · rw [hpk,exchange_left]
      exact ho.grand i hpos hi hpk hk
    by_cases hpp : parent i=parent k
    · rw [hpp,exchange_right]
      have hsib := ho.order i hpos hi hik
      rw [hpp] at hsib
      exact hlt.le.trans hsib
    rw [exchange_of_ne h hpk hpp]
    exact ho.order i hpos hi hik
  · intro i hpos hi hpar hpk
    have hpp := parent_lt hpk
    rw [exchange_of_ne h (by omega) hpp.ne]
    have hroot := ho.order (parent k) hpk (by omega) hp.ne
    by_cases hik : i=k
    · rw [hik,exchange_left]
      exact hroot
    have hip : i≠parent k := by
      have hpi := parent_lt hpos
      omega
    rw [exchange_of_ne h hik hip]
    have hsib := ho.order i hpos hi hik
    rw [hpar] at hsib
    exact hroot.trans hsib

theorem DownOrder.finish (ho : DownOrder key h n k)
    (hk : ∀ i, 0 < i → i<n → parent i=k → key (h k)≤key (h i)) : HeapOrder key h n := by
  intro i hpos hi
  by_cases hpk : parent i=k
  · rw [hpk]
    exact hk i hpos hi hpk
  · exact ho.order i hpos hi hpk

/-- One round of a sift down, towards the child that comes first. -/
theorem DownOrder.move {c : ℕ} (ho : DownOrder key h n k) (hc : 0<c) (hn : c<n)
    (hpar : parent c=k) (hfst : ∀ i, 0 < i → i<n → parent i=k → key (h c)≤key (h i))
    (hle : key (h c)≤key (h k)) : DownOrder key (exchange h k c) n c := by
  have hkc := hpar ▸ parent_lt hc
  constructor
  · intro i hpos hi hne
    have hpi := parent_lt hpos
    by_cases hic : i=c
    · rw [hic,hpar,exchange_left,exchange_right]
      exact hle
    by_cases hik : i=k
    · subst hik
      have hkeep : exchange h i c (parent i)=h (parent i) := exchange_of_ne h (by omega) (by omega)
      rw [exchange_left,hkeep]
      exact ho.grand c hc hn hpar hpos
    rw [exchange_of_ne h hik hic]
    by_cases hpk : parent i=k
    · rw [hpk,exchange_left]
      exact hfst i hpos hi hpk
    rw [exchange_of_ne h hpk hne]
    exact ho.order i hpos hi hpk
  · intro i hpos hi hpi _
    have hci := parent_lt hpos
    have hkeep : exchange h k c i=h i := exchange_of_ne h (by omega) (by omega)
    rw [hpar,exchange_left,hkeep,←hpi]
    exact ho.order i hpos hi (by omega)

section

variable (ho : HeapOrder key h n)
include ho

/-- An element before the replaced one can only be out of order towards the root. -/
theorem HeapOrder.replace_up {a : α} (hk : 0<k) (hn : k<n) (hlt : key a<key (h (parent k))) :
    UpOrder key (update h k a) n k where
  order := by
    intro i hpos hi hne
    rw [update_of_ne hne]
    by_cases hpk : parent i=k
    · rw [hpk,update_self]
      have h1 := ho k hk hn
      have h2 := ho i hpos hi
      rw [hpk] at h2
      exact hlt.le.trans (h1.trans h2)
    rw [update_of_ne hpk]
    exact ho i hpos hi
  grand := by
    intro i hpos hi hpar _
    have hpi := parent_lt hpos
    have hpk := parent_lt hk
    rw [update_of_ne (by omega),update_of_ne (by omega)]
    have h1 := ho k hk hn
    have h2 := ho i hpos hi
    rw [hpar] at h2
    exact h1.trans h2

/-- An element in order with that parent can only be out of order towards the leaves. -/
theorem HeapOrder.replace_down {a : α} (hle : 0<k → k<n → key (h (parent k))≤key a) :
    DownOrder key (update h k a) n k where
  order := by
    intro i hpos hi hne
    rw [update_of_ne hne]
    by_cases hik : i=k
    · rw [hik,update_self]
      exact hle (hik ▸ hpos) (hik ▸ hi)
    rw [update_of_ne hik]
    exact ho i hpos hi
  grand := by
    intro i hpos hi hpar hk
    have hpi := parent_lt hpos
    have hpk := parent_lt hk
    rw [update_of_ne (by omega),update_of_ne (by omega)]
    have h1 := ho k hk (by omega)
    have h2 := ho i hpos hi
    rw [hpar] at h2
    exact h1.trans h2

theorem HeapOrder.mono {m : ℕ} (hm : m≤n) : HeapOrder key h m :=
  fun i hpos hi => ho i hpos (hi.trans_le hm)

end

end RoutePlatform.BinaryHeap
