import Mathlib

/-!
# Elections of two offices by rank

A set of candidates elects a deputy and a chief by rank. Those who claim to be chief are no
candidates for deputy; those who claim to be deputy come before the others; the chief is the best
of those who claim it, or else the deputy. An elector whose office changes repeats the election.
-/

namespace RoutePlatform.RankedElection

universe u v

variable {ι : Type u} {κ : Type v} [LinearOrder κ]

/-- The outcome is the candidate of the highest rank, or nobody if there is no
candidate. -/
def IsBest (rank : ι→κ) (S : Set ι) : Option ι→Prop
  | none => S = ∅
  | some m => m∈S ∧ ∀ n∈S, rank n≤rank m

section

variable {rank : ι→κ} {S : Set ι} {o o' : Option ι} {m : ι}

theorem IsBest.mem (h : IsBest rank S o) (hm : o=some m) : m∈S := by
  rw [hm] at h
  exact h.1

theorem IsBest.exists_of_nonempty (h : IsBest rank S o) (hS : S.Nonempty) : ∃ m, o=some m := by
  cases o with
  | none => exact absurd h hS.ne_empty
  | some m => exact ⟨m,rfl⟩

theorem IsBest.unique (h : IsBest rank S o) (h' : IsBest rank S o')
    (hinj : Set.InjOn rank S) : o=o' := by
  cases o with
  | none =>
    cases o' with
    | none => rfl
    | some m' =>
      have hS : S = ∅ := h
      exact absurd h'.1 (hS ▸ Set.notMem_empty m')
  | some m =>
    cases o' with
    | none =>
      have hS : S = ∅ := h'
      exact absurd h.1 (hS ▸ Set.notMem_empty m)
    | some m' =>
      have hle := h.2 m' h'.1
      have hge := h'.2 m h.1
      exact congrArg some (hinj h.1 h'.1 (le_antisymm hge hle))

theorem IsBest.subset {T : Set ι} (h : IsBest rank S (some m)) (hT : T ⊆ S) (hm : m∈T) :
    IsBest rank T (some m) := ⟨hm,fun n hn => h.2 n (hT hn)⟩

end

/-- The candidates that do not claim to be chief. -/
def notChief (E : Set ι) (chief : ι → Prop) : Set ι := {n∈E | ¬chief n}

/-- The candidates that claim to be deputy and not to be chief. -/
def deputies (E : Set ι) (chief deputy : ι → Prop) : Set ι := {n∈E | ¬chief n ∧ deputy n}

/-- The candidates that claim to be chief. -/
def chiefs (E : Set ι) (chief : ι → Prop) : Set ι := {n∈E | chief n}

/-- One round: `d` is the chief and `b` the deputy that are elected. -/
structure Round (rank : ι→κ) (E : Set ι) (chief deputy : ι→Prop) (d b : Option ι) : Prop where
  /-- The best of those who claim to be deputy is elected. -/
  claimed : (deputies E chief deputy).Nonempty→IsBest rank (deputies E chief deputy) b
  /-- If nobody does, the best of all but the chiefs is elected. -/
  unclaimed : deputies E chief deputy = ∅ → IsBest rank (notChief E chief) b
  /-- The best of those who claim to be chief is elected. -/
  best : (chiefs E chief).Nonempty→IsBest rank (chiefs E chief) d
  vacant : chiefs E chief = ∅ → d=b

section

variable {rank : ι→κ} {E : Set ι} {chief deputy : ι→Prop} {d b d' b' : Option ι} {m x : ι}

theorem mem_notChief : m∈notChief E chief ↔ m∈E ∧ ¬chief m := Iff.rfl

theorem mem_deputies : m∈deputies E chief deputy ↔ m∈E ∧ ¬chief m ∧ deputy m := Iff.rfl

theorem mem_chiefs : m∈chiefs E chief ↔ m∈E ∧ chief m := Iff.rfl

section

variable (h : Round rank E chief deputy d b)
include h

theorem Round.deputy_mem (hb : b=some m) : m∈E ∧ ¬chief m := by
  rcases (deputies E chief deputy).eq_empty_or_nonempty with hemp|hne
  · exact (h.unclaimed hemp).mem hb
  obtain ⟨hE,hnot,_⟩ := (h.claimed hne).mem hb
  exact ⟨hE,hnot⟩

theorem Round.chief_mem (hd : d=some m) : m∈E := by
  rcases (chiefs E chief).eq_empty_or_nonempty with hemp|hne
  · exact (h.deputy_mem ((h.vacant hemp).symm.trans hd)).1
  · exact ((h.best hne).mem hd).1

theorem Round.chiefs_empty (hd : d=some m) (hb : b=some m) : chiefs E chief = ∅ := by
  rw [←Set.not_nonempty_iff_eq_empty]
  intro hne
  exact (h.deputy_mem hb).2 ((h.best hne).mem hd).2

theorem Round.chief_of_chief (hx : x∈E) (hc : chief x) : ∃ m, d=some m ∧ chief m := by
  have hne : (chiefs E chief).Nonempty := ⟨x,hx,hc⟩
  obtain ⟨m,hm⟩ := (h.best hne).exists_of_nonempty hne
  exact ⟨m,hm,((h.best hne).mem hm).2⟩

theorem Round.unique (h' : Round rank E chief deputy d' b')
    (hinj : Set.InjOn rank E) : d=d' ∧ b=b' := by
  have hb : b=b' := by
    rcases (deputies E chief deputy).eq_empty_or_nonempty with hemp|hne
    · exact (h.unclaimed hemp).unique (h'.unclaimed hemp)
        (hinj.mono fun n hn => (mem_notChief.mp hn).1)
    exact (h.claimed hne).unique (h'.claimed hne) (hinj.mono fun n hn => (mem_deputies.mp hn).1)
  refine ⟨?_,hb⟩
  rcases (chiefs E chief).eq_empty_or_nonempty with hemp|hne
  · rw [h.vacant hemp,h'.vacant hemp,hb]
  · exact (h.best hne).unique (h'.best hne) (hinj.mono fun n hn => (mem_chiefs.mp hn).1)

theorem Round.chief_of_only (hm : m∈E) (honly : ∀ n∈E, chief n ↔ n=m) : d=some m := by
  obtain ⟨k,hk,hc⟩ := h.chief_of_chief hm ((honly m hm).mpr rfl)
  rw [hk,(honly k (h.chief_mem hk)).mp hc]

theorem Round.deputy_of_only (hm : m∈E) (honly : ∀ n∈E, (¬chief n ∧ deputy n) ↔ n=m) :
    b=some m := by
  have hne : (deputies E chief deputy).Nonempty := ⟨m,hm,(honly m hm).mpr rfl⟩
  obtain ⟨k,hk⟩ := (h.claimed hne).exists_of_nonempty hne
  obtain ⟨hE,hc⟩ := (h.claimed hne).mem hk
  rw [hk,(honly k hE).mp hc]

theorem Round.chief_of_nobody (hnobody : ∀ n∈E, ¬chief n) : d=b :=
  h.vacant (Set.eq_empty_of_forall_notMem fun n hn => hnobody n hn.1 hn.2)

end

/-- The claims after the elector `x` took over the outcome `o`. -/
def claim (x : ι) (p : ι → Prop) (o : Option ι) (n : ι) : Prop := (n=x ∧ o=some x) ∨ (n≠x ∧ p n)

theorem claim_self (x : ι) (p : ι → Prop) (o : Option ι) : claim x p o x ↔ o=some x := by
  simp [claim]

theorem claim_of_ne (p : ι → Prop) (o : Option ι) (h : m≠x) : claim x p o m ↔ p m := by
  simp [claim,h]

theorem claim_eq {p : ι → Prop} {o : Option ι} (h : p x ↔ o=some x) : claim x p o=p := by
  funext n
  by_cases hn : n=x
  · subst hn
    exact propext ((claim_self n p o).trans h.symm)
  · exact propext (claim_of_ne p o hn)

theorem claim_only (x : ι) (honly : ∀ n∈E, chief n ↔ n=m) :
    ∀ n∈E, claim x chief (some m) n ↔ n=m := by
  intro n hn
  by_cases hx : n=x
  · rw [hx,claim_self,Option.some.injEq,eq_comm]
  · rw [claim_of_ne _ _ hx,honly n hn]

theorem claim_nobody (x : ι) (hnobody : ∀ n∈E, ¬chief n) :
    ∀ n∈E, claim x chief (some m) n ↔ n=m ∧ m=x := by
  intro n hn
  by_cases hx : n=x
  · rw [hx,claim_self,Option.some.injEq,and_iff_right_of_imp Eq.symm]
  · rw [claim_of_ne _ _ hx]
    exact ⟨fun hc => absurd hc (hnobody n hn),fun he => absurd (he.1.trans he.2) hx⟩

variable (h1 : Round rank E chief deputy d b)
  (h2 : Round rank E (claim x chief d) (claim x deputy b) d' b')

include h1 h2

/-- The elector is not elected to both offices in the second round. -/
theorem Round.second_not_both (hinj : Set.InjOn rank E) : ¬(d'=some x ∧ b'=some x) := by
  rintro ⟨hd,hb⟩
  obtain ⟨hxE,hxnot⟩ := h2.deputy_mem hb
  have hdx : d≠some x := fun hc => hxnot ((claim_self x chief d).mpr hc)
  have hemp2 := h2.chiefs_empty hd hb
  -- nobody else claims to be chief, and the elector itself would have been elected
  have hchief : ∀ n∈E, ¬chief n := by
    intro n hn hc
    obtain ⟨m,hm,hcm⟩ := h1.chief_of_chief hn hc
    have hmx : m≠x := fun hmx => hdx (hmx ▸ hm)
    have hmem : m∈chiefs E (claim x chief d) := ⟨h1.chief_mem hm,(claim_of_ne chief d hmx).mpr hcm⟩
    rw [hemp2] at hmem
    exact hmem
  have hemp1 : chiefs E chief = ∅ := Set.eq_empty_of_forall_notMem fun n hn => hchief n hn.1 hn.2
  have hdb := h1.vacant hemp1
  have hbx := hdb ▸ hdx
  -- the elector does not claim to be deputy, so nobody does
  have hdeputies2 : deputies E (claim x chief d) (claim x deputy b) = ∅ := by
    rw [←Set.not_nonempty_iff_eq_empty]
    intro hne
    have hx := (h2.claimed hne).mem hb
    exact hbx ((claim_self x deputy b).mp hx.2.2)
  have hdeputy : ∀ n∈E, n≠x → ¬deputy n := by
    intro n hn hnx hc
    have hmem : n∈deputies E (claim x chief d) (claim x deputy b) := by
      refine ⟨hn,?_,(claim_of_ne deputy b hnx).mpr hc⟩
      exact fun hcn => hchief n hn ((claim_of_ne chief d hnx).mp hcn)
    rw [hdeputies2] at hmem
    exact hmem
  have hall1 : notChief E chief=E := by
    ext n
    exact ⟨fun hn => hn.1,fun hn => ⟨hn,hchief n hn⟩⟩
  have hall2 : notChief E (claim x chief d)=E := by
    ext n
    refine ⟨fun hn => hn.1,fun hn => ⟨hn,fun hc => ?_⟩⟩
    have hmem : n∈chiefs E (claim x chief d) := ⟨hn,hc⟩
    rw [hemp2] at hmem
    exact hmem
  have hbest : IsBest rank E (some x) := by
    rw [←hall2,←hb]
    exact h2.unclaimed hdeputies2
  rcases (deputies E chief deputy).eq_empty_or_nonempty with hemp|hne
  · have hb1 := h1.unclaimed hemp
    rw [hall1] at hb1
    exact hbx (hb1.unique hbest hinj)
  obtain ⟨n,hn⟩ := hne
  have hnx : n=x := by
    by_contra hnx
    exact hdeputy n hn.1 hnx hn.2.2
  subst hnx
  have hx := hbest.subset (fun k hk => hk.1) hn
  exact hbx ((h1.claimed ⟨n,hn⟩).unique hx (hinj.mono fun k hk => hk.1))

/-- Claims that are the outcome of two rounds had claimed that of the first. -/
theorem Round.second_eq_first (hinj : Set.InjOn rank E) (hd : chief x ↔ d'=some x)
    (hb : deputy x ↔ b'=some x) : d'=d ∧ b'=b := by
  have hchief : chief x ↔ d=some x := by
    constructor
    · intro hc
      have hxE := h2.chief_mem (hd.mp hc)
      by_contra hne
      obtain ⟨m,hm,hcm⟩ := h1.chief_of_chief hxE hc
      have hmx : m≠x := fun hmx => hne (hmx ▸ hm)
      have hmem : m∈chiefs E (claim x chief d) :=
        ⟨h1.chief_mem hm,(claim_of_ne chief d hmx).mpr hcm⟩
      have hx := (h2.best ⟨m,hmem⟩).mem (hd.mp hc)
      exact hne ((claim_self x chief d).mp hx.2)
    · intro hdx
      by_contra hc
      have hxE := h1.chief_mem hdx
      have hx : x∈chiefs E (claim x chief d) := ⟨hxE,(claim_self x chief d).mpr hdx⟩
      obtain ⟨m,hm⟩ := (h2.best ⟨x,hx⟩).exists_of_nonempty ⟨x,hx⟩
      have hmem := (h2.best ⟨x,hx⟩).mem hm
      by_cases hmx : m=x
      · exact hc (hd.mpr (hmx ▸ hm))
      have hne : (chiefs E chief).Nonempty := ⟨m,hmem.1,(claim_of_ne chief d hmx).mp hmem.2⟩
      exact hc ((h1.best hne).mem hdx).2
  rw [claim_eq hchief] at h2
  have hdeputy : deputy x ↔ b=some x := by
    constructor
    · intro hc
      obtain ⟨hxE,hxnot⟩ := h2.deputy_mem (hb.mp hc)
      by_contra hne
      have hx : x∈deputies E chief deputy := ⟨hxE,hxnot,hc⟩
      obtain ⟨m,hm⟩ := (h1.claimed ⟨x,hx⟩).exists_of_nonempty ⟨x,hx⟩
      have hmem := (h1.claimed ⟨x,hx⟩).mem hm
      have hmx : m≠x := fun hmx => hne (hmx ▸ hm)
      have hmem2 : m∈deputies E chief (claim x deputy b) :=
        ⟨hmem.1,hmem.2.1,(claim_of_ne deputy b hmx).mpr hmem.2.2⟩
      have hx2 := (h2.claimed ⟨m,hmem2⟩).mem (hb.mp hc)
      exact hne ((claim_self x deputy b).mp hx2.2.2)
    · intro hbx
      by_contra hc
      obtain ⟨hxE,hxnot⟩ := h1.deputy_mem hbx
      have hx : x∈deputies E chief (claim x deputy b) := ⟨hxE,hxnot,(claim_self x deputy b).mpr hbx⟩
      obtain ⟨m,hm⟩ := (h2.claimed ⟨x,hx⟩).exists_of_nonempty ⟨x,hx⟩
      have hmem := (h2.claimed ⟨x,hx⟩).mem hm
      by_cases hmx : m=x
      · exact hc (hb.mpr (hmx ▸ hm))
      have hne : (deputies E chief deputy).Nonempty :=
        ⟨m,hmem.1,hmem.2.1,(claim_of_ne deputy b hmx).mp hmem.2.2⟩
      exact hc ((h1.claimed hne).mem hbx).2.2
  rw [claim_eq hdeputy] at h2
  exact h2.unique h1 hinj

end

end RoutePlatform.RankedElection
