import Mathlib

/-!
# Binary search in a sorted table

The table is seen through comparisons only: `cmp i` says how the key that is
looked for stands to the entry at index `i`. The search keeps the entries
before `lo` below the key and those from `hi` on above it.
-/

namespace RoutePlatform.SlotSearch

variable {cmp : ℕ→Ordering} {n : ℕ}

/-- A search answers the index of the key, or where it belongs. -/
inductive SearchResult where
  | found (i : ℕ)
  /-- No entry has the key; it belongs before the entry at this index. -/
  | absent (n : ℕ)
deriving DecidableEq, Repr

/-- The search loop over the half-open range from `lo` to `hi`. -/
def searchLoop (cmp : ℕ→Ordering) : ℕ→ℕ→ℕ→SearchResult
  | 0, lo, _ => .absent lo
  | fuel+1, lo, hi =>
    if lo<hi then
      let m := (lo+(hi-1))/2
      match cmp m with
      | .eq => .found m
      | .lt => searchLoop cmp fuel lo m
      | .gt => searchLoop cmp fuel (m+1) hi
    else .absent lo

/-- Search among the first `n` entries. -/
def search (cmp : ℕ→Ordering) (n : ℕ) : SearchResult := searchLoop cmp n 0 n

/-- Behind an entry that is not below the key all are above it. -/
def Increasing (cmp : ℕ → Ordering) (n : ℕ) : Prop := ∀ i j, i<j → j<n → cmp i ≠ .gt → cmp j=.lt

/-- The answer of a search is right. -/
def SearchResult.Correct (cmp : ℕ→Ordering) (n : ℕ) : SearchResult→Prop
  | .found i => i<n ∧ cmp i=.eq
  | .absent k => k≤n ∧ (∀ i, i<k → cmp i=.gt) ∧ ∀ i, k ≤ i → i<n → cmp i=.lt

theorem searchLoop_correct (hinc : Increasing cmp n) :
    ∀ fuel lo hi, hi-lo≤fuel → lo≤hi → hi≤n → (∀ i, i<lo → cmp i=.gt) →
      (∀ i, hi ≤ i → i<n → cmp i=.lt) → (searchLoop cmp fuel lo hi).Correct cmp n := by
  intro fuel
  induction fuel with
  | zero =>
    intro lo hi hfuel hle hhi hbelow habove
    have heq : lo=hi := by omega
    exact ⟨heq ▸ hhi,hbelow,fun i hi' hn => habove i (heq ▸ hi') hn⟩
  | succ fuel ih =>
    intro lo hi hfuel hle hhi hbelow habove
    rw [searchLoop]
    by_cases hlt : lo<hi
    · rw [if_pos hlt]
      have hm : lo≤(lo+(hi-1))/2 ∧ (lo+(hi-1))/2<hi := by omega
      dsimp only
      generalize (lo+(hi-1))/2=m at hm ⊢
      cases hc : cmp m with
      | eq => exact ⟨by omega,hc⟩
      | lt =>
        refine ih lo m (by omega) hm.1 (by omega) hbelow fun i hmi hn => ?_
        obtain rfl|hlt' := eq_or_lt_of_le hmi
        · exact hc
        · exact hinc m i hlt' hn (by rw [hc]; decide)
      | gt =>
        refine ih (m+1) hi (by omega) (by omega) hhi (fun i him => ?_) habove
        by_contra hne
        have hlt' : i≠m := fun h => hne (h ▸ hc)
        have hm' := hinc i m (by omega) (by omega) hne
        rw [hc] at hm'
        cases hm'
    · rw [if_neg hlt]
      have heq : lo=hi := by omega
      exact ⟨heq ▸ hhi,hbelow,fun i hi' hn => habove i (heq ▸ hi') hn⟩

theorem search_correct (hinc : Increasing cmp n) : (search cmp n).Correct cmp n :=
  searchLoop_correct hinc n 0 n (by omega) (by omega) (by omega) (fun _ h => absurd h (by omega))
    fun i h hn => absurd hn (by omega)

theorem search_eq_found {cmp : ℕ → Ordering} {n i : ℕ} (hinc : Increasing cmp n) (hi : i<n)
    (heq : cmp i=.eq) : search cmp n=.found i := by
  have hcorrect := search_correct hinc
  cases hs : search cmp n with
  | found j =>
    rw [hs] at hcorrect
    obtain ⟨hj,hcj⟩ := hcorrect
    obtain hlt|rfl|hlt := lt_trichotomy i j
    · have h := hinc i j hlt hj (by rw [heq]; decide)
      rw [hcj] at h
      cases h
    · rfl
    have h := hinc j i hlt hi (by rw [hcj]; decide)
    rw [heq] at h
    cases h
  | absent k =>
    rw [hs] at hcorrect
    obtain ⟨-,hbelow,habove⟩ := hcorrect
    by_cases hk : i<k
    · have h := hbelow i hk
      rw [heq] at h
      cases h
    have h := habove i (by omega) hi
    rw [heq] at h
    cases h

end RoutePlatform.SlotSearch
