import Mathlib

/-!
# Iteration over next hops

`ALL_NEXTHOPS_RO` walks a chain of next hops and, after each of them, the next hops it was
resolved to, with three variables.
-/

namespace RoutePlatform.NexthopIteration

open List

/-- What the loop reads of `struct nexthop`. -/
structure Nexthop where
  flags : BitVec 8
  next : Option ℕ
  resolved : Option ℕ

/-- `NEXTHOP_FLAG_RECURSIVE` is set. -/
def Nexthop.recursive (hop : Nexthop) : Bool := hop.flags &&& (1 <<< 2)≠0

/-- The variables of the loop. -/
structure Iterator where
  nexthop : Option ℕ
  tnexthop : Option ℕ
  recursing : Bool

def start (head : Option ℕ) : Iterator := ⟨head,head,false⟩

variable (mem : ℕ→Option Nexthop)

/-- The step of `ALL_NEXTHOPS_RO` from the next hop at `p`, `none` where it reads through a
pointer to nothing. -/
def advance (p : ℕ) (it : Iterator) : Option Iterator := do
  let hop ← mem p
  if hop.recursive then some ⟨hop.resolved,it.tnexthop,true⟩
  else match hop.next with
    | some n => some ⟨some n,if it.recursing then it.tnexthop else some n,it.recursing⟩
    | none =>
      let top ← it.tnexthop.bind mem
      some ⟨top.next,top.next,false⟩

/-- The loop: the next hops its body sees, each with `recursing`. -/
def allNexthopsRo : ℕ→Iterator→Option (List (ℕ × Bool))
  | 0,_ => none
  | fuel+1,it =>
    match it.nexthop with
    | none => some []
    | some p => do
      let it' ← advance mem p it
      let rest ← allNexthopsRo fuel it'
      return (p,it.recursing)::rest

/-- A list in memory that ends in a null pointer. -/
def Linked : Option ℕ→List ℕ→Prop
  | p,[] => p=none
  | p,q::rest => p=some q ∧ ∃ hop, mem q=some hop ∧ Linked hop.next rest

/-- The resolved list of a next hop: not empty and without recursive ones if it is
recursive. -/
def Resolves (hop : Nexthop) (rs : List ℕ) : Prop :=
  if hop.recursive then rs≠[] ∧ Linked mem hop.resolved rs ∧
    ∀ q∈rs, ∀ hop', mem q=some hop' → hop'.recursive=false
  else rs=[]

/-- A chain of top-level next hops, each with its resolved ones. -/
structure Chain (head : Option ℕ) (tops : List (ℕ × List ℕ)) : Prop where
  linked : Linked mem head (tops.map Prod.fst)
  resolves : ∀ t∈tops, ∀ hop, mem t.1=some hop → Resolves mem hop t.2
  distinct : (tops.flatMap fun t => t.1::t.2).Nodup

/-- Every top-level next hop, each immediately followed by its resolved ones. -/
def visits (tops : List (ℕ × List ℕ)) : List (ℕ × Bool) :=
  tops.flatMap fun t => (t.1,false)::t.2.map (·,true)

variable {mem}

/-- A resolved list is walked to its end, and the walk goes on after the top-level next hop. -/
theorem allNexthopsRo_resolved {top : Nexthop} {t : ℕ} (ht : mem t=some top) (fuel : ℕ)
    {rs : List ℕ} {p : Option ℕ} (hne : rs≠[]) (hl : Linked mem p rs)
    (hflat : ∀ q∈rs, ∀ hop, mem q=some hop → hop.recursive=false) :
    allNexthopsRo mem (fuel+rs.length) ⟨p,some t,true⟩=
      (allNexthopsRo mem fuel ⟨top.next,top.next,false⟩).map (rs.map (·,true)++·) := by
  induction rs generalizing p with
  | nil => exact absurd rfl hne
  | cons q rest ih =>
    obtain ⟨rfl,hop,hq,hrs⟩ := hl
    have hplain := hflat q mem_cons_self hop hq
    rw [length_cons,←Nat.add_assoc,allNexthopsRo]
    cases rest with
    | nil =>
      have hnext : hop.next=none := hrs
      simp [advance,hq,hplain,hnext,ht,Option.map_eq_bind]
    | cons q' rest =>
      have hnext : hop.next=some q' := hrs.1
      have ih := ih (cons_ne_nil _ _) hrs fun x hx => hflat x (mem_cons_of_mem _ hx)
      rw [hnext,length_cons] at ih
      simp [advance,hq,hplain,hnext,ih,Option.map_eq_bind,Option.bind_assoc]

/-- The walk of a chain from one of its top-level next hops on. -/
theorem allNexthopsRo_tops {tops : List (ℕ × List ℕ)} {p : Option ℕ}
    (hl : Linked mem p (tops.map Prod.fst))
    (hres : ∀ t∈tops, ∀ hop, mem t.1=some hop → Resolves mem hop t.2) (fuel : ℕ) :
    allNexthopsRo mem (fuel+1+(visits tops).length) (start p)=some (visits tops) := by
  induction tops generalizing p with
  | nil =>
    have hp : p=none := hl
    rw [hp]
    rfl
  | cons t tops ih =>
    obtain ⟨rfl,top,ht,hrs⟩ := hl
    have ih := ih hrs fun x hx => hres x (mem_cons_of_mem _ hx)
    have hvisits : visits (t::tops)=(t.1,false)::(t.2.map (·,true)++visits tops) := rfl
    have hfuel : fuel+1+(visits (t::tops)).length=fuel+1+(visits tops).length+t.2.length+1 := by
      rw [hvisits,length_cons,length_append,length_map]
      omega
    have hr := hres t mem_cons_self top ht
    rw [Resolves] at hr
    rw [hfuel,hvisits,allNexthopsRo]
    split_ifs at hr with hrec
    · have hwalk := allNexthopsRo_resolved ht (fuel+1+(visits tops).length) hr.1 hr.2.1 hr.2.2
      rw [start] at ih
      simp [start,advance,ht,hrec,hwalk,ih]
    rw [start] at ih
    rw [hr]
    cases hnext : top.next with
    | none =>
      rw [hnext] at ih
      simp [start,advance,ht,hrec,hnext,ih]
    | some n =>
      rw [hnext] at ih
      simp [start,advance,ht,hrec,hnext,ih]

/-- The loop ends after it has visited every next hop of the chain once, in order. -/
theorem allNexthopsRo_visits {head : Option ℕ} {tops : List (ℕ × List ℕ)}
    (h : Chain mem head tops) :
    (∀ fuel, (visits tops).length<fuel →
      allNexthopsRo mem fuel (start head)=some (visits tops)) ∧
      ((visits tops).map Prod.fst).Nodup := by
  constructor
  · intro fuel hfuel
    obtain ⟨n,rfl⟩ := Nat.exists_eq_add_of_lt hfuel
    have hwalk := allNexthopsRo_tops h.linked h.resolves n
    rwa [show n+1+(visits tops).length=(visits tops).length+n+1 by omega] at hwalk
  have hfst : (visits tops).map Prod.fst=tops.flatMap fun t => t.1::t.2 := by
    rw [visits,map_flatMap]
    congr 1
    funext t
    simp [Function.comp_def]
  rw [hfst]
  exact h.distinct

/-- A chain that ends in a recursive next hop. -/
def sampleChain (p : ℕ) : Option Nexthop :=
  [⟨0,some 1,none⟩,⟨4,none,some 2⟩,⟨0,some 3,none⟩,⟨0,none,none⟩][p]?

theorem sampleChain_chain : Chain sampleChain (some 0) [(0,[]),(1,[2,3])] := by
  refine ⟨⟨rfl,_,rfl,rfl,_,rfl,rfl⟩,fun t ht hop hhop => ?_,by decide⟩
  simp only [mem_cons,not_mem_nil,or_false] at ht
  rcases ht with rfl|rfl <;> cases hhop
  · rfl
  · refine ⟨by decide,⟨rfl,_,rfl,rfl,_,rfl,rfl⟩,fun q hq hop' hhop' => ?_⟩
    simp only [mem_cons,not_mem_nil,or_false] at hq
    rcases hq with rfl|rfl <;> cases hhop' <;> rfl

theorem allNexthopsRo_visits_sample : allNexthopsRo sampleChain 5 (start (some 0))=
    some [(0,false),(1,false),(2,true),(3,true)] :=
  (allNexthopsRo_visits sampleChain_chain).1 5 (by decide)

end RoutePlatform.NexthopIteration
