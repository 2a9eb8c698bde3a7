import RoutePlatform.AsPathAggregate
import RoutePlatform.AttrHashing

/-!
# One representation per AS path

`assegment_normalise` forgets where runs of sequences are cut, and the order and the
duplicates of sets, and nothing else. It does so as long as the numbers of a run can be
counted in the `u_short` length of a segment.
-/

namespace RoutePlatform.AsPathCanonical

open AsPathOperations AsPathEncoding AsPathSynthesis AsPathRoundTrip AsPathReconcile AsPathMerging
  AsPathAggregate AttrHashing List
open BestPathOperations (aspathCmp aspathCmp_iff)

variable {x y : Aspath} {path : Aspath}

/-- A sequence is cut, or a set is listed in another way. -/
inductive Recast : Aspath→Aspath→Prop where
  | cut (front : Aspath) (x y z : Assegment) (back : Aspath) (hx : x.type=.asSequence)
      (hy : y.type=.asSequence) (hz : z.type=.asSequence) (has : z.as=x.as++y.as) :
      Recast (front++z::back) (front++x::y::back)
  | set (front : Aspath) (x y : Assegment) (back : Aspath) (htype : x.type=y.type)
      (hset : x.type=.asSet ∨ x.type=.asConfedSet) (hmem : ∀ a, a∈x.as ↔ a∈y.as) :
      Recast (front++x::back) (front++y::back)

/-- The paths differ in such ways only. -/
def SameMeaning : Aspath→Aspath→Prop := Relation.EqvGen Recast

/-- The normal form without the limit of the length. -/
def plainNormalise : List PlainSegment→List PlainSegment
  | [] => []
  | seg::rest => plainLoop (plainSort seg) rest

theorem plain_normalise (hfit : RunsFit 0 path) :
    (assegmentNormalise path).map plain=plainNormalise (path.map plain) := by
  cases path with
  | nil => rfl
  | cons seg rest =>
    rw [assegmentNormalise,plain_normaliseLoop rest _ (runsFit_first hfit),plain_sortSet]
    rfl

theorem plainLoop_confed (path : List PlainSegment) :
    plainLoop (.asConfedSequence,[]) path=(.asConfedSequence,[])::plainNormalise path := by
  cases path with
  | nil => rfl
  | cons seg rest =>
    rw [plainLoop,if_neg]
    · rfl
    · exact fun h => SegmentType.noConfusion h.2

theorem plainNormalise_congr {xs ys : List PlainSegment}
    (h : ∀ pin, plainLoop pin xs=plainLoop pin ys) : plainNormalise xs=plainNormalise ys := by
  have hpin := h (.asConfedSequence,[])
  rw [plainLoop_confed,plainLoop_confed] at hpin
  exact tail_eq_of_cons_eq hpin

theorem sortAsns_congr {as bs : List AsT} (h : ∀ a, a∈as ↔ a∈bs) : sortAsns as=sortAsns bs := by
  obtain ⟨has,hmem⟩ := sortAsns_spec as
  obtain ⟨hbs,hmem'⟩ := sortAsns_spec bs
  have hperm := (perm_ext_iff_of_nodup (has.imp BitVec.ne_of_lt) (hbs.imp BitVec.ne_of_lt)).mpr
      fun a => (hmem a).trans ((h a).trans (hmem' a).symm)
  exact hperm.eq_of_pairwise (fun _ _ _ _ hab hba => absurd hba (BitVec.lt_asymm hab)) has hbs

theorem Recast.keeps (h : Recast x y) : (RunsFit 0 x ↔ RunsFit 0 y) ∧
    plainNormalise (x.map plain)=plainNormalise (y.map plain) := by
  cases h with
  | cut front x y z back hx hy hz has =>
    have hlen : z.length=x.length+y.length := by
      rw [Assegment.length,has,length_append]
      rfl
    refine ⟨runsFit_congr front (fun n => (runsFit_cut hx hy hz hlen n back).symm) 0,?_⟩
    rw [map_append,map_append]
    refine plainNormalise_congr (plainLoop_congr _ fun pin => ?_)
    rw [map_cons,map_cons,map_cons,plain,plain,plain,hx,hy,hz,has]
    exact (plainLoop_cut pin x.as y.as _).symm
  | set front x y back hty hset hmem =>
    have hseq : x.type ≠ .asSequence := fun h => by
      rw [h] at hset
      rcases hset with hset|hset <;> cases hset
    refine ⟨runsFit_congr front (fun n => ?_) 0,?_⟩
    · rw [RunsFit,RunsFit,if_neg hseq,if_neg (hty ▸ hseq)]
    have hx : plainSort (plain x)=(x.type,sortAsns x.as) := if_pos hset
    have hset' := hty ▸ hset
    have hy : plainSort (plain y)=(y.type,sortAsns y.as) := if_pos hset'
    have hsort : plainSort (plain x)=plainSort (plain y) := by rw [hx,hy,hty,sortAsns_congr hmem]
    rw [map_append,map_append]
    refine plainNormalise_congr (plainLoop_congr _ fun pin => ?_)
    have hapart (u : Assegment) (hu : u.type ≠ .asSequence) :
        ¬(pin.1=(plain u).1 ∧ pin.1=.asSequence) := fun h => hu (h.1.symm.trans h.2)
    rw [map_cons,map_cons,plainLoop,plainLoop,if_neg (hapart x hseq),
      if_neg (hapart y (hty ▸ hseq)),hsort]

theorem SameMeaning.keeps (h : SameMeaning x y) : (RunsFit 0 x ↔ RunsFit 0 y) ∧
    plainNormalise (x.map plain)=plainNormalise (y.map plain) := by
  induction h with
  | rel x y h => exact h.keeps
  | refl x => exact ⟨Iff.rfl,rfl⟩
  | symm x y _ ih => exact ⟨ih.1.symm,ih.2.symm⟩
  | trans x y z _ _ ih ih' => exact ⟨ih.1.trans ih'.1,ih.2.trans ih'.2⟩

theorem normalise_of_sameMeaning (hfit : RunsFit 0 x) (h : SameMeaning x y) :
    assegmentNormalise x=assegmentNormalise y := by
  obtain ⟨hruns,hplain⟩ := h.keeps
  apply map_injective_iff.mpr plain_injective
  rw [plain_normalise hfit,plain_normalise (hruns.mp hfit),hplain]

theorem countHops_cons (seg : Assegment) (rest : Aspath) :
    aspathCountHops (seg::rest)=hopsOf (plain seg)+aspathCountHops rest := sum_cons

theorem hopsOf_sequence {seg : Assegment} (h : seg.type=.asSequence) :
    hopsOf (plain seg)=seg.length := if_pos h

/-- Joining sequences never adds hops, and it loses some when a run does not fit. -/
theorem countHops_normaliseLoop (rest : Aspath) : ∀ pin,
    aspathCountHops (normaliseLoop pin rest)≤hopsOf (plain pin)+aspathCountHops rest ∧
      (aspathCountHops (normaliseLoop pin rest)=hopsOf (plain pin)+aspathCountHops rest →
        RunsFit (runLength pin) rest) := by
  induction rest with
  | nil => exact fun pin => ⟨(countHops_cons pin []).le,fun _ => trivial⟩
  | cons seg rest ih =>
    intro pin
    rw [normaliseLoop,countHops_cons]
    by_cases hpack : TypesPackable pin seg
    · have hseq := hpack.1.symm.trans hpack.2
      have hty : (assegmentAppendAsns pin seg.as).type=.asSequence := hpack.2
      have hlen : (assegmentAppendAsns pin seg.as).length=(pin.length+seg.length)%65536 := by
        rw [assegmentAppendAsns,assegmentNew,Assegment.length,length_take,length_append]
        exact min_eq_left (Nat.mod_le _ _)
      obtain ⟨hle,hfit⟩ := ih (assegmentAppendAsns pin seg.as)
      rw [hopsOf_sequence hty,hlen] at hle hfit
      rw [runLength,if_pos hty,hlen] at hfit
      rw [if_pos hpack,hopsOf_sequence hpack.2,hopsOf_sequence hseq,RunsFit,if_pos hseq,
        runLength,if_pos hpack.2]
      refine ⟨by omega,fun heq => ?_⟩
      have hsmall : (pin.length+seg.length)%65536=pin.length+seg.length := by omega
      rw [hsmall] at hfit
      exact ⟨by omega,hfit (by omega)⟩
    · obtain ⟨hle,hfit⟩ := ih (sortSet seg)
      have hsort : hopsOf (plain (sortSet seg))=hopsOf (plain seg) := by
        rw [plain_sortSet,additive_hops.sort]
      rw [hsort] at hle hfit
      rw [if_neg hpack,countHops_cons]
      refine ⟨by omega,fun heq => ?_⟩
      have hruns := hfit (by omega)
      rw [runLength,type_sortSet] at hruns
      rw [RunsFit]
      by_cases hseq : seg.type=.asSequence
      · have hpin : pin.type ≠ .asSequence := fun hp => hpack ⟨hp.trans hseq.symm,hp⟩
        rw [if_pos hseq,sortSet_of_sequence hseq] at hruns
        rw [if_pos hseq,runLength,if_neg hpin,zero_add]
        exact ⟨seg.fits,hruns⟩
      rw [if_neg hseq] at hruns ⊢
      exact hruns

theorem runsFit_of_countHops (h : aspathCountHops (assegmentNormalise path)=aspathCountHops path) :
    RunsFit 0 path := by
  cases path with
  | nil => trivial
  | cons seg rest =>
    have hseg : hopsOf (plain (sortSet seg))=hopsOf (plain seg) := by
      rw [plain_sortSet,additive_hops.sort]
    rw [assegmentNormalise,countHops_cons,←hseg] at h
    have hruns := (countHops_normaliseLoop rest (sortSet seg)).2 h
    rw [runLength,type_sortSet] at hruns
    rw [RunsFit]
    split
    · rename_i hseq
      rw [if_pos hseq,sortSet_of_sequence hseq] at hruns
      rw [zero_add]
      exact ⟨seg.fits,hruns⟩
    rename_i hseq
    rw [if_neg hseq] at hruns
    exact hruns

/-- What normalisation does to a path, and to another path of the same meaning. -/
structure Canonical (x y : Aspath) : Prop where
  idempotent : assegmentNormalise (assegmentNormalise x)=assegmentNormalise x
  apart : Unpacked (assegmentNormalise x)
  increasing : ∀ seg∈assegmentNormalise x, seg.type=.asSet ∨ seg.type=.asConfedSet →
    seg.as.Pairwise (· < ·)
  hops : aspathCountHops (assegmentNormalise x)=aspathCountHops x
  confeds : aspathCountConfeds (assegmentNormalise x)=aspathCountConfeds x
  members : ∀ a, a∈asnsOf (assegmentNormalise x) ↔ a∈asnsOf x
  /-- A path of the same meaning gets the same segments and the same string. -/
  same : SameMeaning x y → aspathCmp (assegmentNormalise x) (assegmentNormalise y)=true ∧
    aspathMakeStrCount (assegmentNormalise x)=aspathMakeStrCount (assegmentNormalise y) ∧
    aspathKeyMake (assegmentNormalise x)=aspathKeyMake (assegmentNormalise y)

/-- A sequence of 32768 numbers. -/
def longSequence : Assegment := assegmentNew .asSequence (List.replicate 32768 7)

end RoutePlatform.AsPathCanonical
