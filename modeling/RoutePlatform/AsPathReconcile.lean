import RoutePlatform.AsPathRoundTrip
import RoutePlatform.AsPathSynthesis

/-!
# Normal forms and counts of AS paths

Normalisation keeps the numbers of hops and may be repeated. The loop that takes
the first hops of a path for `aspath_reconcile_as4` takes as many as it is asked
for.
-/

namespace RoutePlatform.AsPathReconcile

open AsPathOperations AsPathSynthesis AsPathParsing AsPathRoundTrip List

variable (seg : Assegment) (rest path : Aspath) {f : PlainSegment→ℕ} (last : AsT) (xs ys : Aspath)
  (as : List AsT)

/-- The AS numbers of a path. -/
def asnTotal (path : Aspath) : ℕ := (path.map Assegment.length).sum

theorem asnTotal_cons : asnTotal (seg::rest)=seg.length+asnTotal rest := sum_cons

theorem asnTotal_append : asnTotal (xs++ys)=asnTotal xs+asnTotal ys := by
  rw [asnTotal,map_append,sum_append]
  rfl

theorem runsFit_of_asnTotal : ∀ n, n+asnTotal path<65536 → RunsFit n path := by
  induction path with
  | nil => exact fun _ _ => trivial
  | cons seg rest ih =>
    intro n hn
    rw [asnTotal_cons] at hn
    rw [RunsFit]
    split
    · exact ⟨by omega,ih _ (by omega)⟩
    · exact ih _ (by omega)

section

variable {path : Aspath}

/-- A quantity of segments that adds up and does not depend on the order in a set. -/
structure Additive (f : PlainSegment→ℕ) : Prop where
  join : ∀ as bs, f (.asSequence,as++bs)=f (.asSequence,as)+f (.asSequence,bs)
  sort : ∀ seg, f (plainSort seg)=f seg

theorem plainLoop_sum (hf : Additive f) (rest : List PlainSegment) :
    ∀ pin, ((plainLoop pin rest).map f).sum=f pin+(rest.map f).sum := by
  induction rest with
  | nil => exact fun _ => rfl
  | cons seg rest ih =>
    intro pin
    rw [plainLoop,map_cons,sum_cons]
    by_cases hjoin : pin.1=seg.1 ∧ pin.1=.asSequence
    · obtain ⟨type,as⟩ := pin
      obtain ⟨type',bs⟩ := seg
      obtain ⟨hsame,hseq⟩ := hjoin
      subst hsame hseq
      rw [if_pos ⟨rfl,rfl⟩,ih,hf.join,add_assoc]
    · rw [if_neg hjoin,map_cons,sum_cons,ih,hf.sort]

theorem normalise_sum (hf : Additive f) (hfit : RunsFit 0 path) :
    ((assegmentNormalise path).map fun seg => f (plain seg)).sum =
      (path.map fun seg => f (plain seg)).sum := by
  cases path with
  | nil => rfl
  | cons seg rest =>
    have hruns := runsFit_first hfit
    have hloop := plainLoop_sum hf (rest.map plain) (plain (sortSet seg))
    rw [←plain_normaliseLoop rest _ hruns,plain_sortSet,hf.sort,map_map,map_map] at hloop
    exact hloop

/-- The number of hops of a segment. -/
def hopsOf (seg : PlainSegment) : ℕ :=
  if seg.1=.asSequence then seg.2.length else if seg.1=.asSet then 1 else 0

/-- The number of confederation hops of a segment. -/
def confedsOf (seg : PlainSegment) : ℕ :=
  if seg.1=.asConfedSequence then seg.2.length else if seg.1=.asConfedSet then 1 else 0

theorem plainSort_sequence {seg : PlainSegment} (h : seg.1 ≠ .asSet) (h' : seg.1 ≠ .asConfedSet) :
    plainSort seg=seg := by
  rw [plainSort,if_neg (not_or.mpr ⟨h,h'⟩)]

theorem type_plainSort (seg : PlainSegment) : (plainSort seg).1=seg.1 := by
  unfold plainSort
  split <;> rfl

theorem additive_hops : Additive hopsOf where
  join := fun _ _ => length_append
  sort := by
    intro seg
    unfold hopsOf
    rw [type_plainSort]
    by_cases hseq : seg.1=.asSequence
    · rw [if_pos hseq,if_pos hseq,plainSort_sequence] <;> rw [hseq] <;> decide
    · rw [if_neg hseq,if_neg hseq]

theorem additive_confeds : Additive confedsOf where
  join := fun _ _ => rfl
  sort := by
    intro seg
    unfold confedsOf
    rw [type_plainSort]
    by_cases hseq : seg.1=.asConfedSequence
    · rw [if_pos hseq,if_pos hseq,plainSort_sequence] <;> rw [hseq] <;> decide
    · rw [if_neg hseq,if_neg hseq]

theorem countHops_normalise (hfit : RunsFit 0 path) :
    aspathCountHops (assegmentNormalise path)=aspathCountHops path :=
  normalise_sum additive_hops hfit

theorem countConfeds_normalise (hfit : RunsFit 0 path) :
    aspathCountConfeds (assegmentNormalise path)=aspathCountConfeds path :=
  normalise_sum additive_confeds hfit

end

section

theorem weedOutDupes_pairwise (h : List.Pairwise (· ≤ ·) (last::as)) :
    List.Pairwise (· < ·) (weedOutDupes last as) ∧ ∀ a, a∈weedOutDupes last as ↔ a∈last::as := by
  induction as generalizing last with
  | nil => exact ⟨pairwise_singleton _ _,fun _ => Iff.rfl⟩
  | cons b as ih =>
    obtain ⟨hlast,hrs⟩ := pairwise_cons.mp h
    rw [weedOutDupes]
    by_cases hsame : last=b
    · obtain ⟨hpair,hmem⟩ := ih last (by rw [hsame]; exact hrs)
      rw [if_pos hsame]
      refine ⟨hpair,fun a => ?_⟩
      rw [hmem,hsame,mem_cons,mem_cons,mem_cons]
      tauto
    obtain ⟨hpair,hmem⟩ := ih b hrs
    rw [if_neg hsame]
    refine ⟨pairwise_cons.mpr ⟨fun a ha => ?_,hpair⟩,fun a => ?_⟩
    · have hb : last<b := BitVec.lt_of_le_ne (hlast b mem_cons_self) hsame
      rcases mem_cons.mp ((hmem a).mp ha) with rfl|ha
      · exact hb
      · exact Std.lt_of_lt_of_le hb ((pairwise_cons.mp hrs).1 a ha)
    · rw [mem_cons,hmem,mem_cons (l := b::as)]

theorem weedOutDupes_of_pairwise (h : List.Pairwise (· < ·) (last::as)) :
    weedOutDupes last as=last::as := by
  induction as generalizing last with
  | nil => rfl
  | cons b as ih =>
    obtain ⟨hlast,hrs⟩ := pairwise_cons.mp h
    rw [weedOutDupes,if_neg (BitVec.ne_of_lt (hlast b mem_cons_self)),ih b hrs]

theorem sortAsns_spec : List.Pairwise (· < ·) (sortAsns as) ∧
    ∀ a, a∈sortAsns as ↔ a∈as := by
  have hsrt := pairwise_insertionSort (α := AsT) (· ≤ ·) as
  have hmem (a : AsT) : a∈as.insertionSort (· ≤ ·) ↔ a∈as := mem_insertionSort (· ≤ ·)
  unfold sortAsns
  cases hs : as.insertionSort (· ≤ ·) with
  | nil =>
    rw [hs] at hmem
    exact ⟨List.Pairwise.nil,hmem⟩
  | cons b rest =>
    rw [hs] at hsrt hmem
    obtain ⟨hpair,hsame⟩ := weedOutDupes_pairwise b rest hsrt
    exact ⟨hpair,fun a => (hsame a).trans (hmem a)⟩

theorem sortAsns_of_pairwise {as : List AsT} (h : List.Pairwise (· < ·) as) : sortAsns as=as := by
  have hsort : as.insertionSort (· ≤ ·)=as := List.Pairwise.insertionSort_eq (h.imp BitVec.le_of_lt)
  unfold sortAsns
  rw [hsort]
  cases as with
  | nil => rfl
  | cons a rest => exact weedOutDupes_of_pairwise a rest h

theorem sortSet_sortSet : sortSet (sortSet seg)=sortSet seg := by
  by_cases hset : seg.type=.asSet ∨ seg.type=.asConfedSet
  · apply Assegment.ext
    · rw [type_sortSet]
    have has : (sortSet seg).as=sortAsns seg.as := by rw [sortSet,if_pos hset]
    have hagain : (sortSet (sortSet seg)).as=sortAsns (sortSet seg).as := by
      have hset' := hset
      rw [←type_sortSet seg] at hset'
      rw [sortSet,if_pos hset']
    rw [hagain,has,sortAsns_of_pairwise (sortAsns_spec seg.as).1]
  have hsame : sortSet seg=seg := by rw [sortSet,if_neg hset]
  rw [hsame,hsame]

theorem head_normaliseLoop : ∀ pin, ∃ first more,
    normaliseLoop pin rest=first::more ∧ first.type=pin.type := by
  induction rest with
  | nil => exact fun pin => ⟨pin,[],rfl,rfl⟩
  | cons seg rest ih =>
    intro pin
    rw [normaliseLoop]
    split
    · exact ih (assegmentAppendAsns pin seg.as)
    · exact ⟨pin,_,rfl,rfl⟩

/-- A path in normal form stays as it is. -/
theorem normalise_normaliseLoop : ∀ pin, sortSet pin=pin →
    assegmentNormalise (normaliseLoop pin rest)=normaliseLoop pin rest := by
  induction rest with
  | nil =>
    intro pin hsrt
    rw [normaliseLoop,assegmentNormalise,hsrt,normaliseLoop]
  | cons seg rest ih =>
    intro pin hsrt
    rw [normaliseLoop]
    split
    · rename_i hpack
      exact ih _ (sortSet_of_sequence hpack.2)
    rename_i hpack
    have hrs := ih (sortSet seg) (sortSet_sortSet seg)
    obtain ⟨first,more,hloop,hty⟩ := head_normaliseLoop rest (sortSet seg)
    have hapart : ¬TypesPackable pin first := by
      intro hjoin
      refine hpack ⟨?_,hjoin.2⟩
      rw [hjoin.1,hty,type_sortSet]
    rw [hloop] at hrs ⊢
    rw [assegmentNormalise] at hrs
    rw [assegmentNormalise,hsrt,normaliseLoop,if_neg hapart,hrs]

theorem normalise_normalise :
    assegmentNormalise (assegmentNormalise path)=assegmentNormalise path := by
  cases path with
  | nil => rfl
  | cons seg rest => exact normalise_normaliseLoop rest _ (sortSet_sortSet seg)

end

section

variable {path : Aspath}

theorem isConfed_iff :
    Assegment.isConfed seg=true ↔ seg.type=.asConfedSet ∨ seg.type=.asConfedSequence := by
  unfold Assegment.isConfed
  rw [Bool.or_eq_true,decide_eq_true_eq,decide_eq_true_eq]

theorem countHops_append : aspathCountHops (xs++ys)=aspathCountHops xs+aspathCountHops ys := by
  unfold aspathCountHops
  rw [map_append,sum_append]

theorem countConfeds_append :
    aspathCountConfeds (xs++ys)=aspathCountConfeds xs+aspathCountConfeds ys := by
  unfold aspathCountConfeds
  rw [map_append,sum_append]

theorem countHops_cons :
    aspathCountHops (seg::rest)=hopsOf (plain seg)+aspathCountHops rest := sum_cons

theorem countConfeds_cons :
    aspathCountConfeds (seg::rest)=confedsOf (plain seg)+aspathCountConfeds rest :=
  sum_cons

end

section

def allHops (path : Aspath) : ℕ := aspathCountHops path+aspathCountConfeds path

theorem allHops_append : allHops (xs++ys)=allHops xs+allHops ys := by
  unfold allHops
  rw [countHops_append,countConfeds_append]
  omega

theorem allHops_cons :
    allHops (seg::rest)=hopsOf (plain seg)+confedsOf (plain seg)+allHops rest := by
  unfold allHops
  rw [countHops_cons,countConfeds_cons]
  omega

theorem allHops_normalise {path : Aspath} (hfit : RunsFit 0 path) :
    allHops (assegmentNormalise path)=allHops path := by
  unfold allHops
  rw [countHops_normalise hfit,countConfeds_normalise hfit]

theorem assegmentNew_self {n : ℕ} (hn : seg.length≤n) :
    assegmentNew seg.type (seg.as.take n)=seg := by
  have htake := take_of_length_le hn
  rw [htake]
  exact Assegment.ext rfl (assegmentNew_of_lt seg.fits)

theorem length_assegmentNew_take (type : SegmentType) (seg : Assegment) (n : ℕ) :
    (assegmentNew type (seg.as.take n)).length=min n seg.length := by
  have hfits := seg.fits
  have has : (assegmentNew type (seg.as.take n)).as=seg.as.take n :=
    assegmentNew_of_lt (by rw [length_take]; omega)
  rw [Assegment.length,has,length_take]
  rfl

/-- The loop takes the hops it is asked for if there are so many, and only AS numbers of the path.
-/
theorem reconcileLoop_counts : ∀ hops : ℤ,
    min hops (allHops path)≤allHops (reconcileLoop hops path) ∧
      asnTotal (reconcileLoop hops path)≤asnTotal path := by
  induction path with
  | nil => exact fun hops => ⟨min_le_right _ _,le_rfl⟩
  | cons seg rest ih =>
    intro hops
    rw [reconcileLoop]
    split
    · have htake (n : ℕ) := length_assegmentNew_take seg.type seg n
      have hset := assegmentNew_self seg (le_refl seg.length)
      cases hty : seg.type with
      | asSet =>
        obtain ⟨hcnt,htotal⟩ := ih (hops-1)
        rw [hty] at hset
        rw [hset,allHops_cons,allHops_cons,asnTotal_cons,asnTotal_cons]
        have hone : hopsOf (plain seg)=1 := by
          unfold hopsOf plain
          rw [hty]
          rfl
        omega
      | asConfedSet =>
        obtain ⟨hcnt,htotal⟩ := ih (hops-1)
        rw [hty] at hset
        rw [hset,allHops_cons,allHops_cons,asnTotal_cons,asnTotal_cons]
        have hone : confedsOf (plain seg)=1 := by
          unfold confedsOf plain
          rw [hty]
          rfl
        omega
      | asConfedSequence =>
        dsimp only
        have hall : seg.length≤(min (seg.length : ℤ)
            (if hops<seg.length then (seg.length : ℤ) else hops)).toNat := by
          split <;> omega
        have hself := assegmentNew_self seg hall
        rw [hty] at hself
        have hcnt : confedsOf (plain seg)=seg.length := by
          unfold confedsOf plain
          rw [hty]
          rfl
        rw [hself,allHops_cons,allHops_cons,asnTotal_cons,asnTotal_cons,hcnt]
        split
        · obtain ⟨-,htotal⟩ := ih ((seg.length : ℤ)-seg.length)
          omega
        obtain ⟨hrs,htotal⟩ := ih (hops-seg.length)
        omega
      | asSequence =>
        obtain ⟨hrs,htotal⟩ := ih (hops-seg.length)
        have hlen := htake (min (seg.length : ℤ) hops).toNat
        rw [hty] at hlen
        have hplain : hopsOf (plain (assegmentNew .asSequence
            (seg.as.take (min (seg.length : ℤ) hops).toNat))) =
              (assegmentNew .asSequence (seg.as.take (min (seg.length : ℤ) hops).toNat)).length := rfl
        have hconfed : confedsOf (plain (assegmentNew .asSequence
            (seg.as.take (min (seg.length : ℤ) hops).toNat)))=0 := rfl
        have hown : hopsOf (plain seg)=seg.length ∧ confedsOf (plain seg)=0 := by
          unfold hopsOf confedsOf plain
          rw [hty]
          exact ⟨rfl,rfl⟩
        rw [allHops_cons,allHops_cons,asnTotal_cons,asnTotal_cons,hplain,hconfed,hlen,hown.1,hown.2]
        omega
    · refine ⟨?_,Nat.zero_le _⟩
      omega

end

section

theorem mem_sortSet (a : AsT) : a∈(sortSet seg).as ↔ a∈seg.as := by
  unfold sortSet
  split
  · exact (sortAsns_spec seg.as).2 a
  · exact Iff.rfl

end

end RoutePlatform.AsPathReconcile
