import RoutePlatform.MultipathUpdate

/-!
# Repeated next hops in a multipath chain

A candidate is compared with the path picked before it only. In the sorted list
that is enough among the candidates, but the best path stands outside the order:
another path with its next hop is picked when smaller ones come between.
-/

namespace RoutePlatform.MultipathOperations

open LinkedNodes List

variable {l : List ℕ} {a b : BitVec n} {n : ℕ}

def DistinctNexthops (path : ℕ→Path) (l : List ℕ) : Prop :=
  l.Pairwise fun x y => bgpInfoNexthopCmp (path x) (path y) ≠ .eq

/-- The first paths of the runs of one next hop into which a list falls behind `prev`. -/
def runHeads (path : ℕ→Path) : ℕ→List ℕ→List ℕ
  | _, [] => []
  | prev, x::rest =>
    if bgpInfoNexthopCmp (path prev) (path x)=.eq then runHeads path prev rest
    else x::runHeads path x rest

/-- Without the best path, one of the first paths has its next hop. -/
def Repeats (path : ℕ→Path) (newBest room : ℕ) (l : List ℕ) : Prop :=
  ∃ y∈((runHeads path newBest (l.filter (· ≠ newBest))).take room).tail,
    bgpInfoNexthopCmp (path newBest) (path y)=.eq

theorem addrCmp_eq_lt : addrCmp a b=.lt ↔ a.toNat<b.toNat :=
  Nat.compare_eq_lt

theorem addrCmp_eq_eq : addrCmp a b=.eq ↔ a.toNat=b.toNat :=
  Nat.compare_eq_eq

theorem mpNexthopCmp_trans {ae1 ae2 ae3 : AttrExtra} (hlen : ae1.mpNexthopLen=ae2.mpNexthopLen)
    (h1 : mpNexthopCmp ae1 ae2=.lt) (h2 : mpNexthopCmp ae2 ae3=.lt) :
    mpNexthopCmp ae1 ae3=.lt := by
  rw [mpNexthopCmp,hlen] at h1
  rw [mpNexthopCmp] at h2
  rw [mpNexthopCmp,hlen]
  split_ifs at h1 h2 ⊢
  all_goals
    simp only [Ordering.then_eq_lt,addrCmp_eq_lt,addrCmp_eq_eq] at h1 h2 ⊢
    omega

theorem bgpInfoNexthopCmp_trans {p q r : Path} (h1 : bgpInfoNexthopCmp p q=.lt)
    (h2 : bgpInfoNexthopCmp q r=.lt) : bgpInfoNexthopCmp p r=.lt := by
  rw [bgpInfoNexthopCmp,Ordering.then_eq_lt,addrCmp_eq_lt,addrCmp_eq_eq] at h1 h2 ⊢
  rcases h1 with h1|⟨he1,h1⟩
  · exact .inl (by rcases h2 with h2 | ⟨he2,-⟩ <;> omega)
  rcases h2 with h2|⟨he2,h2⟩
  · exact .inl (by omega)
  refine .inr ⟨he1.trans he2,?_⟩
  cases hp : p.extra with
  | none => rw [hp] at h1; cases h1
  | some ae1 =>
    cases hq : q.extra with
    | none => rw [hp,hq] at h1; cases h1
    | some ae2 =>
      cases hr : r.extra with
      | none => rw [hq,hr] at h2; cases h2
      | some ae3 =>
        simp only [hp,hq,hr] at h1 h2 ⊢
        split at h1
        · next hlen =>
          split at h2
          · next hlen' =>
            rw [if_pos (hlen.trans hlen')]
            exact mpNexthopCmp_trans hlen h1 h2
          · cases h2
        · cases h1

section

variable {path : ℕ→Path} {newBest maxpaths : ℕ}

theorem select_eq_runHeads (prev count : ℕ) (l : List ℕ) :
    select path newBest maxpaths prev count l =
      (runHeads path prev (l.filter (· ≠ newBest))).take (maxpaths-count) := by
  induction l generalizing prev count with
  | nil => rw [select,filter_nil,runHeads,take_nil]
  | cons x rest ih =>
    rcases lt_or_ge count maxpaths with hroom|hfull
    · by_cases hbest : x=newBest
      · rw [select,if_neg fun h => h.2.1 hbest,ih,filter_cons_of_neg (by simpa using hbest)]
      rw [filter_cons_of_pos (by simpa using hbest),runHeads,select]
      by_cases hsame : bgpInfoNexthopCmp (path prev) (path x)=.eq
      · rw [if_neg fun h => h.2.2 hsame,if_pos hsame,ih]
      obtain ⟨room,hr⟩ := Nat.exists_eq_succ_of_ne_zero (Nat.sub_ne_zero_of_lt hroom)
      rw [if_pos ⟨hroom,hbest,hsame⟩,if_neg hsame,ih,hr,take_succ_cons,
        show maxpaths-(count+1)=room by omega]
    · rw [select_of_full hfull,Nat.sub_eq_zero_of_le hfull,take_zero]

/-- Behind a path of a sorted list its run is followed by larger ones. -/
theorem lt_of_mem_runHeads {x : ℕ} (hl : Sorted path (x::l)) :
    ∀ y∈runHeads path x l, bgpInfoNexthopCmp (path x) (path y)=.lt := by
  induction l generalizing x with
  | nil => exact fun y hy => absurd hy not_mem_nil
  | cons z rest ih =>
    obtain ⟨hx,hrs⟩ := pairwise_cons.mp hl
    have hle := nexthop_le (hx z mem_cons_self)
    rw [runHeads]
    split
    · exact ih (pairwise_cons.mpr ⟨fun y hy => hx y (mem_cons_of_mem z hy),
        (pairwise_cons.mp hrs).2⟩)
    next hne =>
    have hlt : bgpInfoNexthopCmp (path x) (path z)=.lt := by
      cases hc : bgpInfoNexthopCmp (path x) (path z) with
      | lt => rfl
      | eq => exact absurd hc hne
      | gt => exact absurd hc hle
    intro y hy
    rcases mem_cons.mp hy with rfl|hy
    · exact hlt
    · exact bgpInfoNexthopCmp_trans hlt (ih hrs y hy)

theorem distinct_runHeads (hl : Sorted path l) (prev : ℕ) :
    DistinctNexthops path (runHeads path prev l) := by
  induction l generalizing prev with
  | nil => exact .nil
  | cons x rest ih =>
    have hrs := (pairwise_cons.mp hl).2
    rw [runHeads]
    split
    · exact ih hrs prev
    refine pairwise_cons.mpr ⟨fun y hy he => ?_,ih hrs x⟩
    rw [lt_of_mem_runHeads hl y hy] at he
    cases he

theorem head_runHeads {prev y : ℕ} {ys : List ℕ} (h : runHeads path prev l=y::ys) :
    bgpInfoNexthopCmp (path prev) (path y) ≠ .eq := by
  induction l with
  | nil => cases h
  | cons x rest ih =>
    rw [runHeads] at h
    split at h
    · exact ih h
    next hne =>
    rw [←(cons.inj h).1]
    exact hne

theorem distinct_select_iff (hl : Sorted path l) :
    DistinctNexthops path (newBest::select path newBest maxpaths newBest 1 l) ↔
      ¬Repeats path newBest (maxpaths-1) l := by
  have hsrt : Sorted path (l.filter (· ≠ newBest)) := hl.sublist filter_sublist
  rw [select_eq_runHeads,DistinctNexthops,pairwise_cons,Repeats]
  have hpair := (distinct_runHeads hsrt newBest).sublist (take_sublist (maxpaths-1) _)
  rw [and_iff_left hpair]
  push Not
  generalize maxpaths-1=room
  refine ⟨fun h y hy => h y (mem_of_mem_tail hy),fun h y hy => ?_⟩
  cases hheads : runHeads path newBest (l.filter (· ≠ newBest)) with
  | nil => rw [hheads,take_nil] at hy; cases hy
  | cons z zs =>
    rw [hheads] at h hy
    cases room with
    | zero => cases hy
    | succ room =>
      rw [take_succ_cons] at h hy
      rcases mem_cons.mp hy with rfl|hy
      · exact head_runHeads hheads
      · exact h y hy

end

/-- After an update the next hops differ iff the list does not repeat that of the best path. -/
theorem bgpInfoMpathUpdate_distinct_iff (path : ℕ→Path) (cfg : MaxpathsCfg) (newBest : ℕ)
    {mem : Paths} {old : Option ℕ} {chain l : List ℕ} {fuel : ℕ} (h : Multipath mem old chain)
    (hl : Sorted path l) (hfuel : l.length+chain.length<fuel) :
    ∃ mem', bgpInfoMpathUpdate path cfg fuel mem newBest old l=some mem' ∧
      ∃ new, Multipath mem' (some newBest) new ∧
        LinkedNodes.chain mem' new.length (bgpInfoMpathNext mem' newBest)=some new ∧
        (DistinctNexthops path (newBest::new) ↔
          ¬Repeats path newBest (maxpathsFor cfg (path newBest)-1) l) := by
  obtain ⟨mem',hmem',hnew,-⟩ := bgpInfoMpathUpdate_spec path cfg newBest h (.inr hl) hfuel
  exact ⟨mem',hmem',_,hnew,hnew.chain_next,distinct_select_iff hl⟩

theorem bgpInfoMpathUpdate_distinct_iff_paired : ∃ mem',
    bgpInfoMpathUpdate pairedPaths ⟨3,3⟩ 3 freshPaths 1 none [1,2]=some mem' := by
  obtain ⟨mem',hmem',-⟩ := bgpInfoMpathUpdate_distinct_iff pairedPaths ⟨3,3⟩ 1
    multipath_fresh (.cons (by decide) (pairwise_singleton _ _))
    (show [1,2].length+[].length<3 by decide)
  exact ⟨mem',hmem'⟩

/-- Of three candidates the second is best, and the third has its next hop. -/
theorem bgpInfoMpathUpdate_repeats : Sorted pairedPaths [1,2,3] ∧ ∃ mem',
    bgpInfoMpathUpdate pairedPaths ⟨3,3⟩ 4 freshPaths 2 none [1,2,3]=some mem' ∧
      Multipath mem' (some 2) [1,3] ∧ ¬DistinctNexthops pairedPaths [2,1,3] := by
  have hsorted : Sorted pairedPaths [1,2,3] := by
    refine .cons ?_ (.cons ?_ (pairwise_singleton _ _))
    · decide
    · decide
  obtain ⟨mem',hmem',hnew,-⟩ := bgpInfoMpathUpdate_spec pairedPaths ⟨3,3⟩ 2
    multipath_fresh (.inr hsorted) (show [1,2,3].length+[].length<4 by decide)
  refine ⟨hsorted,mem',hmem',hnew,fun h => ?_⟩
  exact (pairwise_cons.mp h).1 3 (by decide) (by decide)

end RoutePlatform.MultipathOperations
