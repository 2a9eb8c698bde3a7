import RoutePlatform.AsPathCanonical

/-!
# The functions that build AS paths

`aspath_prepend`, `aspath_filter_exclude`, `aspath_add_seq_n`, `aspath_add_confed_seq`,
`aspath_delete_confed_seq` and `aspath_aggregate` of `bgpd/bgp_aspath.c`, and when their path is
in normal form. Invalid memory accesses have no result.
-/

namespace RoutePlatform.AsPathBuilders

open AsPathOperations AsPathEncoding AsPathSynthesis AsPathParsing AsPathRoundTrip AsPathReconcile
  AsPathAggregate AsPathCanonical List Option
open BestPathOperations (aspathCmp aspathCmp_iff)

variable {path : Aspath} {type : SegmentType} {seg : Assegment} {asno : AsT} {num : ℕ}
  {as1 : Aspath} {xs ys : Aspath} {as2 : Aspath}

/-- `aspath_prepend` with `aspath_merge`. -/
def aspathPrepend (as1 as2 : Aspath) : Option Aspath :=
  match as2, as1.getLast? with
  | [], _ => some as1
  | seg2::rest, none => some (seg2::rest)
  | seg2::rest, some seg1 =>
    -- aspath_delete_confed_seq frees the segment whose type is compared next
    if seg1.type=.asSequence ∧ seg2.type=.asConfedSequence then none
    else if seg1.type≠seg2.type then some (as1++seg2::rest)
    else if seg1.type=.asSequence then
      some (as1.dropLast++assegmentAppendAsns seg1 seg2.as::rest)
    else some (as1++seg2::rest)

local instance : LawfulBEq AsT := inferInstance

/-- The numbers of a segment that are not excluded. -/
def remaining (excludeList : Aspath) (seg : Assegment) : List AsT :=
  seg.as.filter fun a => a ∉ asnsOf excludeList

def aspathFilterExclude (source excludeList : Aspath) : Aspath :=
  (source.filter fun seg => remaining excludeList seg≠[]).map fun seg =>
    assegmentNew seg.type (remaining excludeList seg)

/-- `assegment_prepend_asns`; the count is an `int`. -/
def assegmentPrependAsns (seg : Assegment) (asnum : AsT) (num : ℕ) : Option Assegment :=
  if num=0 then some seg
  else if 2^31≤num then none
  else if num ≥ asSegmentMax then some seg
  else some (assegmentNew seg.type (List.replicate num asnum++seg.as))

/-- A new segment; the loop writes behind a count that is cut to `u_short`. -/
def newAsns (type : SegmentType) (asno : AsT) (num : ℕ) : Option Assegment :=
  if num<65536 then some (assegmentNew type (List.replicate num asno)) else none

def aspathAddAsns (path : Aspath) (asno : AsT) (type : SegmentType) (num : ℕ) : Option Aspath :=
  match path with
  | [] => (newAsns type asno num).map fun seg => [seg]
  | seg::rest =>
    if seg.type=type then (assegmentPrependAsns seg asno num).map fun seg => seg::rest
    else (newAsns type asno num).map fun new => if seg.length=0 then new::rest else new::seg::rest

def aspathAddSeqN (path : Aspath) (asno : AsT) (num : ℕ) : Option Aspath :=
  aspathAddAsns path asno .asSequence num

def aspathAddConfedSeq (path : Aspath) (asno : AsT) : Option Aspath :=
  aspathAddAsns path asno .asConfedSequence 1

theorem normalised_iff : Normalised path ↔
    (∀ seg∈path, 0<seg.length) ∧ Unpacked path ∧ ∀ seg∈path, sortSet seg=seg := by
  refine ⟨fun h => ⟨h.pos,unpacked_of_normal h.normal,h.normal.sorted⟩,fun h => ⟨h.1,?_⟩⟩
  rw [AsPathMerging.Normal,normalise_of_unpacked h.2.1]
  exact (map_congr_left h.2.2).trans (map_id' path)

theorem sortSet_iff : sortSet seg=seg ↔
    (seg.type=.asSet ∨ seg.type=.asConfedSet → seg.as.Pairwise (· < ·)) := by
  constructor
  · intro h hset
    have has := congrArg Assegment.as h
    rw [sortSet,if_pos hset] at has
    exact has ▸ (sortAsns_spec seg.as).1
  · intro h
    by_cases hset : seg.type=.asSet ∨ seg.type=.asConfedSet
    · rw [sortSet,if_pos hset]
      exact Assegment.ext rfl (sortAsns_of_pairwise (h hset))
    · rw [sortSet,if_neg hset]

theorem unpacked_iff_types : Unpacked path ↔
    (path.map Assegment.type).IsChain fun s t => ¬(s=t ∧ s=.asSequence) :=
  (isChain_map (R := fun s t : SegmentType => ¬(s=t ∧ s=.asSequence)) Assegment.type).symm

theorem normalised_join {init rest : Aspath} {x y m : Assegment} (hx : m.type=x.type)
    (hy : m.type=y.type) (hsrt : sortSet m=m) (h1 : Normalised (init++[x]))
    (h2 : Normalised (y::rest)) : Normalised (init++m::rest) ↔ 0 < m.length := by
  obtain ⟨hpos,hunpacked,hsets⟩ := normalised_iff.mp h1
  obtain ⟨hpos',hunpacked',hsets'⟩ := normalised_iff.mp h2
  rw [normalised_iff,forall_mem_append,forall_mem_append,forall_mem_cons,forall_mem_cons]
  refine ⟨fun h => h.1.2.1,fun hm => ⟨⟨(forall_mem_append.mp hpos).1,hm,
    (forall_mem_cons.mp hpos').2⟩,?_,(forall_mem_append.mp hsets).1,hsrt,
    (forall_mem_cons.mp hsets').2⟩⟩
  rw [unpacked_iff_types,map_append,map_cons] at hunpacked ⊢
  rw [unpacked_iff_types,map_cons,←hy] at hunpacked'
  rw [map_nil,←hx] at hunpacked
  exact isChain_split.mpr ⟨hunpacked,hunpacked'⟩

theorem normalised_append (hxs : Normalised xs) (hys : Normalised ys) :
    Normalised (xs++ys) ↔ ∀ x∈xs.getLast?, ∀ y∈ys.head?, ¬TypesPackable x y := by
  obtain ⟨hpos,hunpacked,hsets⟩ := normalised_iff.mp hxs
  obtain ⟨hpos',hunpacked',hsets'⟩ := normalised_iff.mp hys
  rw [normalised_iff,Unpacked,isChain_append,forall_mem_append,forall_mem_append]
  exact ⟨fun h => h.2.1.2.2,fun h => ⟨⟨hpos,hpos'⟩,⟨hunpacked,hunpacked',h⟩,hsets,hsets'⟩⟩

theorem normalised_suffix (h : Normalised (xs++ys)) : Normalised ys := by
  obtain ⟨hpos,hunpacked,hsets⟩ := normalised_iff.mp h
  exact normalised_iff.mpr ⟨fun seg hseg => hpos seg (mem_append_right _ hseg),
    (isChain_append.mp hunpacked).2.1,fun seg hseg => hsets seg (mem_append_right _ hseg)⟩

/-- The paths of `aspath_prepend` meet in sequences with too many AS numbers. -/
def Collides (as1 as2 : Aspath) : Prop :=
  ∃ seg1∈as1.getLast?, ∃ seg2∈as2.head?, seg1.type=.asSequence ∧
    (seg2.type=.asConfedSequence ∨ seg2.type=.asSequence ∧ seg1.length+seg2.length=65536)

theorem aspathPrepend_iff (h1 : Normalised as1) (h2 : Normalised as2) :
    (∃ r, aspathPrepend as1 as2=some r ∧ Normalised r) ↔ ¬Collides as1 as2 := by
  cases as2 with
  | nil =>
    refine iff_of_true ⟨as1,rfl,h1⟩ ?_
    rintro ⟨seg1,-,seg2,hseg2,-⟩
    cases hseg2
  | cons seg2 rest =>
    rcases eq_nil_or_concat as1 with rfl|⟨init,seg1,rfl⟩
    · refine iff_of_true ⟨seg2::rest,rfl,h2⟩ ?_
      rintro ⟨seg1,hseg1,-⟩
      cases hseg1
    rw [concat_eq_append] at h1 ⊢
    have hcollides : Collides (init++[seg1]) (seg2::rest) ↔ seg1.type=.asSequence ∧
        (seg2.type=.asConfedSequence ∨ seg2.type=.asSequence ∧ seg1.length+seg2.length=65536) := by
      simp [Collides]
    have happend : Normalised ((init++[seg1])++seg2::rest) ↔ ¬TypesPackable seg1 seg2 := by
      rw [normalised_append h1 h2]
      simp
    rw [hcollides]
    simp only [aspathPrepend,getLast?_concat,dropLast_concat]
    by_cases hconfed : seg1.type=.asSequence ∧ seg2.type=.asConfedSequence
    · rw [if_pos hconfed]
      refine iff_of_false ?_ (not_not.mpr ⟨hconfed.1,.inl hconfed.2⟩)
      rintro ⟨r,hr,-⟩
      cases hr
    rw [if_neg hconfed]
    by_cases hty : seg1.type=seg2.type
    · rw [if_neg (not_not.mpr hty)]
      by_cases hseq : seg1.type=.asSequence
      · -- the two sequences are joined
        have hlen := length_assegmentNew seg1.type (seg1.as++seg2.as)
        rw [length_append] at hlen
        have hpos1 := h1.pos seg1 (by simp)
        have hjoined := normalised_join (x := seg1) (y := seg2) (m := assegmentAppendAsns seg1 seg2.as)
          rfl hty (sortSet_of_sequence hseq) h1 h2
        have hsum1 := seg1.fits
        have hsum2 := seg2.fits
        rw [if_pos hseq]
        constructor
        · rintro ⟨r,hr,hnormal⟩ hbad
          rw [←some.inj hr,hjoined,assegmentAppendAsns,hlen] at hnormal
          rcases hbad.2 with hc|hc
          · exact hconfed ⟨hseq,hc⟩
          have hsum : seg1.as.length+seg2.as.length=65536 := hc.2
          omega
        · intro hgood
          refine ⟨_,rfl,hjoined.mpr ?_⟩
          have hsum : seg1.as.length+seg2.as.length≠65536 := fun h =>
            hgood ⟨hseq,.inr ⟨hty.symm.trans hseq,h⟩⟩
          rw [Assegment.length] at hpos1
          rw [assegmentAppendAsns,hlen]
          omega
      · rw [if_neg hseq]
        refine iff_of_true ⟨_,rfl,happend.mpr fun h => hseq h.2⟩ fun h => hseq h.1
    · rw [if_pos hty]
      refine iff_of_true ⟨_,rfl,happend.mpr fun h => hty h.1⟩ fun h => ?_
      rcases h.2 with hc|hc
      · exact hconfed ⟨h.1,hc⟩
      · exact hty (h.1.trans hc.1.symm)

/-- The segments that keep a number. -/
def keeping (source excludeList : Aspath) : Aspath :=
  source.filter fun seg => remaining excludeList seg≠[]

theorem aspathFilterExclude_iff {source excludeList : Aspath} (h : Normalised source) :
    Normalised (aspathFilterExclude source excludeList) ↔ Unpacked (keeping source excludeList) := by
  have hnew (seg : Assegment) : (assegmentNew seg.type (remaining excludeList seg)).as =
      remaining excludeList seg := by
    apply assegmentNew_of_lt
    exact (length_filter_le _ _).trans_lt seg.fits
  have htypes : (aspathFilterExclude source excludeList).map Assegment.type =
      (keeping source excludeList).map Assegment.type := by
    rw [aspathFilterExclude,List.map_map]
    rfl
  rw [normalised_iff,unpacked_iff_types,htypes,←unpacked_iff_types]
  refine ⟨fun h => h.2.1,fun hkeep => ⟨?_,hkeep,?_⟩⟩
  · intro r hr
    obtain ⟨seg,hseg,rfl⟩ := mem_map.mp hr
    rw [Assegment.length,hnew,length_pos_iff]
    exact of_decide_eq_true (mem_filter.mp hseg).2
  intro r hr
  obtain ⟨seg,hseg,rfl⟩ := mem_map.mp hr
  rw [sortSet_iff,hnew]
  intro hset
  have hsrt := (normalised_iff.mp h).2.2 seg (mem_filter.mp hseg).1
  exact (sortSet_iff.mp hsrt hset).sublist filter_sublist

/-- The condition of `aspath_add_asns` for this count. -/
def CountFits (path : Aspath) (type : SegmentType) (num : ℕ) : Prop :=
  match path.head? with
  | some seg =>
    if seg.type=type then num<2^31 ∧ (num<255 → num≠0 → seg.length+num≠65536)
    else 0<num ∧ num<65536
  | none => 0<num ∧ num<65536

theorem sortSet_ordered (hty : type=.asSequence ∨ type=.asConfedSequence) (as : List AsT) :
    sortSet (assegmentNew type as)=assegmentNew type as :=
  sortSet_iff.mpr fun hset => by
    have hset' : type=.asSet ∨ type=.asConfedSet := hset
    rcases hty with rfl|rfl <;> rcases hset' with h|h <;> cases h

theorem newAsns_iff {f : Assegment→Aspath}
    (hf : ∀ as, Normalised (f (assegmentNew type as)) ↔ 0<(assegmentNew type as).length) :
    (∃ r, (newAsns type asno num).map f=some r ∧ Normalised r) ↔ 0<num ∧ num<65536 := by
  rw [newAsns]
  by_cases hlt : num<65536
  · have hlen := length_assegmentNew type (replicate num asno)
    rw [length_replicate,Nat.mod_eq_of_lt hlt] at hlen
    rw [if_pos hlt,map_some,and_iff_left hlt]
    constructor
    · rintro ⟨r,hr,hnormal⟩
      rwa [←some.inj hr,hf,hlen] at hnormal
    · intro h
      refine ⟨_,rfl,(hf _).mpr ?_⟩
      rwa [hlen]
  rw [if_neg hlt]
  exact iff_of_false (fun ⟨r,hr,_⟩ => some_ne_none r hr.symm) fun h => hlt h.2

theorem normalised_single (hsrt : sortSet seg=seg) : Normalised [seg] ↔ 0<seg.length := by
  rw [normalised_iff,forall_mem_singleton,forall_mem_singleton]
  exact ⟨fun h => h.1,fun h => ⟨h,isChain_singleton seg,hsrt⟩⟩

theorem aspathAddAsns_iff (h : Normalised path) (hty : type=.asSequence ∨ type=.asConfedSequence) :
    (∃ r, aspathAddAsns path asno type num=some r ∧ Normalised r) ↔ CountFits path type num := by
  cases path with
  | nil => exact newAsns_iff fun as => normalised_single (sortSet_ordered hty as)
  | cons seg rest =>
    have hpos := h.pos seg mem_cons_self
    have hfits := seg.fits
    rw [aspathAddAsns,CountFits,head?_cons]
    dsimp only
    by_cases hsame : seg.type=type
    · rw [if_pos hsame,if_pos hsame,assegmentPrependAsns]
      by_cases hz : num=0
      · rw [if_pos hz]
        exact iff_of_true ⟨_,rfl,h⟩ ⟨by omega,fun _ hne => absurd hz hne⟩
      rw [if_neg hz]
      by_cases hnegative : 2^31≤num
      · rw [if_pos hnegative]
        exact iff_of_false (fun ⟨r,hr,_⟩ => some_ne_none r hr.symm) fun hf => by omega
      rw [if_neg hnegative]
      by_cases hhuge : num ≥ asSegmentMax
      · rw [if_pos hhuge]
        exact iff_of_true ⟨_,rfl,h⟩ ⟨by omega,fun hf => absurd hhuge (not_le.mpr hf)⟩
      have hlen := length_assegmentNew seg.type (replicate num asno++seg.as)
      have hsingle : Normalised ([]++[seg]) :=
        (normalised_single (h.normal.sorted seg mem_cons_self)).mpr hpos
      have hjoined := normalised_join (x := seg) (y := seg)
        (m := assegmentNew seg.type (replicate num asno++seg.as)) rfl rfl
        (sortSet_ordered (hsame ▸ hty) _) hsingle h
      rw [length_append,length_replicate] at hlen
      rw [if_neg hhuge,map_some]
      rw [asSegmentMax] at hhuge
      rw [nil_append,hlen] at hjoined
      rw [Assegment.length] at hpos ⊢
      constructor
      · rintro ⟨r,hr,hnormal⟩
        rw [←some.inj hr,hjoined] at hnormal
        exact ⟨by omega,fun _ _ => by omega⟩
      · rintro ⟨-,hsum⟩
        exact ⟨_,rfl,hjoined.mpr (by omega)⟩
    · rw [if_neg hsame,if_neg hsame]
      refine newAsns_iff fun as => ?_
      have hsingle := normalised_single (sortSet_ordered hty as)
      rw [if_neg (by omega),←hsingle]
      refine ⟨fun hr => ?_,fun hr => ?_⟩
      · exact hsingle.mpr (hr.pos _ mem_cons_self)
      refine (normalised_append hr h).mpr fun x hx y hy hpack => ?_
      rw [getLast?_singleton] at hx
      rw [head?_cons] at hy
      rw [←some.inj hx,←some.inj hy] at hpack
      exact hsame hpack.1.symm

theorem aspathDeleteConfedSeq_normalised (h : Normalised path) :
    Normalised (aspathDeleteConfedSeq path) := by
  cases path with
  | nil => exact h
  | cons seg rest =>
    rw [aspathDeleteConfedSeq]
    split
    · rw [←takeWhile_append_dropWhile (p := Assegment.isConfed) (l := seg::rest)] at h
      exact normalised_suffix h
    · exact h

theorem pos_partSegment (rest : Aspath × Aspath) : ∀ seg∈partSegment rest, 0<seg.length := by
  obtain ⟨rest1,rest2⟩ := rest
  intro seg hseg
  cases rest1 with
  | nil => cases hseg
  | cons x xs =>
    cases rest2 with
    | nil => cases hseg
    | cons y ys =>
      rw [partSegment] at hseg
      split at hseg
      · rename_i hpart
        have hfits := x.fits
        have hx : x.as≠[] := fun hnil => hpart.2 (by
          rw [hnil]
          cases y.as <;> rfl)
        have hpos := length_pos_iff.mpr hx
        rw [mem_singleton.mp hseg,length_assegmentNew,length_take]
        omega
      · cases hseg

theorem normalised_leadSegments (as2 : Aspath) (h1 : Normalised as1) :
    Normalised (leadSegments as1 as2) := by
  have hlead := (leadSegments_leadOf as1 as2).1
  refine normalised_iff.mpr ⟨?_,unpacked_of_leadOf hlead (unpacked_of_normal h1.normal),
    hlead.sorted h1.normal.sorted⟩
  rw [leadSegments,forall_mem_append]
  refine ⟨fun seg hseg => h1.pos seg ?_,pos_partSegment _⟩
  rw [(commonSegments_append as1 as2).1]
  exact mem_append_left _ hseg

theorem aspathAggregate_normalised_iff (h1 : Normalised as1) :
    (∃ r, aspathAggregate as1 as2=some r ∧ Normalised r) ↔ distinct (collected as1 as2)<65536 := by
  rw [←aspathAggregate_ne_none h1]
  refine ⟨fun ⟨r,hr,_⟩ => ⟨r,hr⟩,fun ⟨r,hr⟩ => ⟨r,hr,?_⟩⟩
  have hlead := normalised_leadSegments as2 h1
  by_cases hnone : collected as1 as2=[]
  · -- without a set the leading segments are the aggregate
    rw [aspathAggregate,commonLead_eq as1 as2 0 h1.pos] at hr
    change ((collected as1 as2).foldlM asSetAdd none).map (fun asset =>
      assegmentNormalise (leadSegments as1 as2++asset.toList))=some r at hr
    rw [hnone] at hr
    obtain rfl := some.inj hr
    change Normalised (assegmentNormalise (leadSegments as1 as2++[]))
    rw [append_nil,hlead.normal]
    exact hlead
  obtain ⟨asset,hok,hmem,rfl⟩ := aspathAggregate_eq h1 hr
  obtain ⟨a,ha⟩ := exists_mem_of_ne_nil _ hnone
  cases asset with
  | none => exact absurd ((hmem a).mpr ha) not_mem_nil
  | some set =>
    have hty := (type_sortSet set).trans (hok.type set rfl)
    have hpos : 0<(sortSet set).length := by
      rw [Assegment.length,length_pos_iff]
      exact ne_nil_of_mem ((mem_sortSet set a).mpr ((hmem a).mpr ha))
    refine (normalised_append hlead ((normalised_single (sortSet_sortSet set)).mpr hpos)).mpr ?_
    intro x _ y hy hpack
    have hy' := (some.inj hy).symm
    rw [TypesPackable,hy',hty] at hpack
    have hx := hpack.1.symm.trans hpack.2
    cases hx

theorem runsFit_of_unpacked (h : Unpacked path) :
    ∀ n, (∀ seg∈path.head?, seg.type=.asSequence → n=0) → RunsFit n path := by
  induction path with
  | nil => exact fun _ _ => trivial
  | cons seg rest ih =>
    intro n hn
    rw [RunsFit]
    split
    · rename_i hseq
      rw [hn seg rfl hseq,zero_add]
      refine ⟨seg.fits,ih h.tail _ fun next hnext hseq' => ?_⟩
      cases rest with
      | nil => cases hnext
      | cons x rest =>
        obtain rfl : x=next := some.inj hnext
        exact absurd ⟨hseq.trans hseq'.symm,hseq⟩ (isChain_cons_cons.mp h).1
    · exact ih h.tail 0 fun _ _ _ => rfl

theorem aspathCmp_of_sameMeaning {x y : Aspath} (hx : Normalised x) (hy : Normalised y)
    (h : SameMeaning x y) : aspathCmp x y=true := by
  have hfit := runsFit_of_unpacked (unpacked_of_normal hx.normal) 0 fun _ _ _ => rfl
  have hsame := normalise_of_sameMeaning hfit h
  rw [hx.normal,hy.normal] at hsame
  exact (aspathCmp_iff x y).mpr hsame

/-- When built paths are normalised, and that normalised paths of one meaning are equal. -/
theorem builders_normalised_iff (as1 as2 excludeList : Aspath) (asno : AsT) (num : ℕ)
    (h1 : Normalised as1) (h2 : Normalised as2) :
    ((∃ r, aspathPrepend as1 as2=some r ∧ Normalised r) ↔ ¬Collides as1 as2) ∧
    (Normalised (aspathFilterExclude as1 excludeList) ↔ Unpacked (keeping as1 excludeList)) ∧
    ((∃ r, aspathAddSeqN as1 asno num=some r ∧ Normalised r) ↔ CountFits as1 .asSequence num) ∧
    ((∃ r, aspathAddConfedSeq as1 asno=some r ∧ Normalised r) ↔ CountFits as1 .asConfedSequence 1) ∧
    Normalised (aspathDeleteConfedSeq as1) ∧
    ((∃ r, aspathAggregate as1 as2=some r ∧ Normalised r) ↔ distinct (collected as1 as2)<65536) ∧
    (SameMeaning as1 as2 → aspathCmp as1 as2=true) :=
  ⟨aspathPrepend_iff h1 h2,aspathFilterExclude_iff h1,aspathAddAsns_iff h1 (.inl rfl),
    aspathAddAsns_iff h1 (.inr rfl),aspathDeleteConfedSeq_normalised h1,
    aspathAggregate_normalised_iff h1,aspathCmp_of_sameMeaning h1 h2⟩

def splitPath : Aspath :=
  [assegmentNew .asSequence [1],assegmentNew .asSet [2],assegmentNew .asSequence [3]]

theorem normalised_splitPath : Normalised splitPath := ⟨by decide,rfl⟩

theorem builders_normalised_iff_splitPath :
    (Normalised (aspathFilterExclude splitPath splitPath) ↔ Unpacked (keeping splitPath splitPath)) ∧
      Normalised (aspathDeleteConfedSeq splitPath) :=
  have h := builders_normalised_iff splitPath splitPath splitPath 7 1 normalised_splitPath
    normalised_splitPath
  ⟨h.2.1,h.2.2.2.2.1⟩

/-- Adjacent sequences, no result, and an empty segment for a count of zero. -/
theorem builders_not_normalised :
    ¬Normalised (aspathFilterExclude splitPath [assegmentNew .asSet [2]]) ∧
    aspathPrepend splitPath [assegmentNew .asConfedSequence [4]]=none ∧
    aspathAddSeqN [] 7 0=some [assegmentNew .asSequence []] := by
  refine ⟨fun h => ?_,rfl,rfl⟩
  have hkeep := (aspathFilterExclude_iff normalised_splitPath).mp h
  exact absurd hkeep (by unfold Unpacked; decide)

end RoutePlatform.AsPathBuilders
