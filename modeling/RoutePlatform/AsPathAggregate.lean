import RoutePlatform.AsPathMerging

/-!
# Aggregation of AS paths

`aspath_aggregate` keeps the common leading segments of two paths and collects the rest in a set.
Where the comparison of the last segments stopped is also where the collecting starts: so many AS
numbers of the next segments may be skipped.
-/

namespace RoutePlatform.AsPathAggregate

open AsPathOperations AsPathEncoding AsPathSynthesis AsPathParsing AsPathRoundTrip AsPathReconcile
open AsPathMerging
open List hiding set

variable {asset : Option Assegment} (as : List AsT) {lead : Aspath} (rest : Aspath × Aspath) (m : ℕ)
  (x : Assegment) (xs ys : Aspath) {a : AsT} (path : Aspath)

def aspathLoopCheck (path : Aspath) (asno : AsT) : ℕ := (path.map fun seg => seg.as.count asno).sum

/-- The loop that compares two segments: the number of equal leading AS numbers. -/
def matchLength : List AsT→List AsT→ℕ
  | a::as, b::bs => if a=b then matchLength as bs+1 else 0
  | _, _ => 0

/-- The loop of `aspath_aggregate`: the copied segments, `match`, and where it stops. -/
def commonLead (m : ℕ) : Aspath→Aspath→Aspath × ℕ × Aspath × Aspath
  | x::xs, y::ys =>
    if x.type≠y.type then ([],m,x::xs,y::ys)
    else
      let minlen := min x.length y.length
      let k := matchLength x.as y.as
      let seg := if k≠0 then [assegmentNew x.type (x.as.take k)] else []
      if k≠minlen ∨ k≠x.length ∨ x.length≠y.length then (seg,k,x::xs,y::ys)
      else
        let r := commonLead k xs ys
        (seg++r.1,r.2)
  | xs, ys => ([],m,xs,ys)

/-- `aspath_aggregate_as_set_add`. A length that wraps around ends the program. -/
def asSetAdd (asset : Option Assegment) (a : AsT) : Option (Option Assegment) :=
  match asset with
  | none => some (some (assegmentNew .asSet [a]))
  | some set =>
    if a∈set.as then some (some set)
    else if set.length+1<65536 then some (some (assegmentNew .asSet (set.as++[a])))
    else none

/-- The AS numbers of the remaining segments, from a position of the first one on. -/
def restAsns (start : ℕ) : Aspath→List AsT
  | [] => []
  | seg::rest => seg.as.drop start++asnsOf rest

def aspathAggregate (as1 as2 : Aspath) : Option Aspath :=
  let (lead,k,rest1,rest2) := commonLead 0 as1 as2
  ((restAsns k rest1++restAsns k rest2).foldlM asSetAdd none).map fun asset =>
    assegmentNormalise (lead++asset.toList)

/-- The aggregate holds the AS numbers of both paths; before its set stands what both begin with. -/
structure Aggregates (as1 as2 r : Aspath) : Prop where
  loopCheck : ∀ a, aspathLoopCheck r a≠0 ↔ a∈asnsOf as1 ∨ a∈asnsOf as2
  lead : ∃ lead tail, r=lead++tail ∧ (tail=[] ∨ ∃ set, tail=[set] ∧ set.type=.asSet) ∧
    LeadOf lead as1 ∧ LeadOf lead as2

/-- A path in normal form without empty segments. -/
structure Normalised (path : Aspath) : Prop where
  pos : ∀ seg∈path, 0<seg.length
  normal : Normal path

/-- The equal leading segments of two paths. -/
def commonSegments : Aspath→Aspath→Aspath
  | x::xs, y::ys => if x=y then x::commonSegments xs ys else []
  | _, _ => []

/-- The length of the last segment. -/
def lastLength (m : ℕ) (path : Aspath) : ℕ := (path.getLast?.map Assegment.length).getD m

/-- What is left of both paths behind the equal leading segments. -/
def leftOver (as1 as2 : Aspath) : Aspath × Aspath :=
  (as1.drop (commonSegments as1 as2).length,as2.drop (commonSegments as1 as2).length)

/-- The next segments of both paths are there and of one type. -/
def SameType : Aspath × Aspath→Prop
  | (x::_,y::_) => x.type=y.type
  | _ => False

instance : ∀ rest : Aspath × Aspath, Decidable (SameType rest)
  | (x::_,y::_) => inferInstanceAs (Decidable (x.type=y.type))
  | ([],_) => isFalse id
  | (_::_,[]) => isFalse id

/-- The AS numbers of the first segment. -/
def headAsns (path : Aspath) : List AsT := (path.head?.map Assegment.as).getD []

/-- Where the collected AS numbers begin. -/
def collectFrom (m : ℕ) (as1 as2 : Aspath) : ℕ :=
  if SameType (leftOver as1 as2) then
    matchLength (headAsns (leftOver as1 as2).1) (headAsns (leftOver as1 as2).2)
  else lastLength m (commonSegments as1 as2)

/-- The AS numbers that are collected. -/
def collected (as1 as2 : Aspath) : List AsT :=
  restAsns (collectFrom 0 as1 as2) (leftOver as1 as2).1 ++
    restAsns (collectFrom 0 as1 as2) (leftOver as1 as2).2

/-- The AS numbers that are skipped. -/
def skipped (as1 as2 : Aspath) : List AsT := if SameType (leftOver as1 as2) then []
  else (headAsns (leftOver as1 as2).1).take (collectFrom 0 as1 as2) ++
    (headAsns (leftOver as1 as2).2).take (collectFrom 0 as1 as2)

section

theorem take_matchLength (bs : List AsT) :
    as.take (matchLength as bs)=bs.take (matchLength as bs) := by
  induction as generalizing bs with
  | nil => rfl
  | cons a as ih =>
    cases bs with
    | nil => rfl
    | cons b bs =>
      rw [matchLength]
      split
      · rename_i heq
        rw [heq,take_succ_cons,take_succ_cons,ih bs]
      · rfl

theorem matchLength_self : matchLength as as=as.length := by
  induction as with
  | nil => rfl
  | cons a as ih => rw [matchLength,if_pos rfl,ih,length_cons]

theorem whole_match_iff {x y : Assegment} (hty : x.type=y.type) :
    ¬(matchLength x.as y.as≠min x.length y.length ∨ matchLength x.as y.as≠x.length ∨
      x.length≠y.length) ↔ x=y := by
  constructor
  · intro h
    simp only [not_or,not_not] at h
    obtain ⟨-,hfull,hlen⟩ := h
    have htake := take_matchLength x.as y.as
    have hx := take_of_length_le (le_of_eq hfull.symm)
    have hy := take_of_length_le (le_of_eq (hlen.symm.trans hfull.symm))
    rw [hx,hy] at htake
    exact Assegment.ext hty htake
  · rintro rfl
    simp [matchLength_self,Assegment.length]

/-- The segment that is copied in part. -/
def partSegment : Aspath × Aspath→Aspath
  | (x::_,y::_) =>
    if x.type=y.type ∧ matchLength x.as y.as≠0 then
      [assegmentNew x.type (x.as.take (matchLength x.as y.as))]
    else []
  | _ => []

theorem lastLength_cons : lastLength m (x::path)=lastLength x.length path := by
  cases path with
  | nil => rfl
  | cons y path =>
    rw [lastLength,lastLength,List.getLast?_cons_cons,
      List.getLast?_eq_some_getLast (cons_ne_nil y path)]
    rfl

theorem leftOver_cons : leftOver (x::xs) (x::ys)=leftOver xs ys := by
  rw [leftOver,commonSegments,if_pos rfl]
  rfl

theorem collectFrom_cons : collectFrom m (x::xs) (x::ys)=collectFrom x.length xs ys := by
  rw [collectFrom,leftOver_cons,collectFrom,commonSegments,if_pos rfl,lastLength_cons]

/-- What the loop copies and where it stops. -/
theorem commonLead_eq (as1 as2 : Aspath) : ∀ m, (∀ seg∈as1, 0<seg.length) →
    commonLead m as1 as2=(commonSegments as1 as2++partSegment (leftOver as1 as2),
      collectFrom m as1 as2,(leftOver as1 as2).1,(leftOver as1 as2).2) := by
  induction as1 generalizing as2 with
  | nil =>
    intro m _
    cases as2 with
    | nil | cons y ys => rfl
  | cons x xs ih =>
    intro m hpos
    cases as2 with
    | nil => rfl
    | cons y ys =>
      rw [commonLead]
      by_cases hty : x.type=y.type
      · rw [if_neg (fun h => h hty)]
        by_cases heq : x=y
        · subst heq
          have hlen := hpos x mem_cons_self
          have hself := assegmentNew_self x (le_refl x.length)
          rw [if_neg ((whole_match_iff rfl).mpr rfl),ih ys _ fun seg hseg =>
            hpos seg (mem_cons_of_mem _ hseg),matchLength_self,if_pos (by
              rw [Assegment.length] at hlen; omega),leftOver_cons,collectFrom_cons,
            commonSegments,if_pos rfl]
          have hself' : assegmentNew x.type (x.as.take x.as.length)=x := hself
          rw [hself']
          rfl
        rw [if_pos (not_not.mp (fun h => heq ((whole_match_iff hty).mp h)))]
        have hcommon : commonSegments (x::xs) (y::ys)=[] := by rw [commonSegments,if_neg heq]
        have hleft : leftOver (x::xs) (y::ys)=(x::xs,y::ys) := by
          rw [leftOver,hcommon]
          rfl
        have hsame : SameType (x::xs,y::ys) := hty
        rw [collectFrom,hleft,if_pos hsame,hcommon,partSegment,nil_append]
        by_cases hk : matchLength x.as y.as=0
        · rw [if_neg (fun h => h hk),if_neg (fun h => h.2 hk)]
          rfl
        rw [if_pos hk,if_pos ⟨hty,hk⟩]
        rfl
      · have heq : x≠y := fun h => hty (by rw [h])
        have hcommon : commonSegments (x::xs) (y::ys)=[] := by rw [commonSegments,if_neg heq]
        have hleft : leftOver (x::xs) (y::ys)=(x::xs,y::ys) := by
          rw [leftOver,hcommon]
          rfl
        have hoth : ¬SameType (x::xs,y::ys) := hty
        rw [if_pos hty,collectFrom,hleft,if_neg hoth,hcommon,partSegment,
          if_neg (fun h => hty h.1)]
        rfl

end

section

/-- The AS numbers of the set that is being built. -/
def setAsns (asset : Option Assegment) : List AsT := (asset.map Assegment.as).getD []

/-- The set that is being built has no duplicates. -/
structure SetOk (asset : Option Assegment) : Prop where
  type : ∀ set, asset=some set → set.type=.asSet
  nodup : (setAsns asset).Nodup

theorem setOk_none : SetOk none where
  type := fun _ h => (Option.some_ne_none _ h.symm).elim
  nodup := nodup_nil

theorem setAsns_new (hfits : as.length<65536) :
    setAsns (some (assegmentNew .asSet as))=as := assegmentNew_of_lt hfits

theorem setOk_new (hfits : as.length<65536) (hnd : as.Nodup) :
    SetOk (some (assegmentNew .asSet as)) where
  type := by
    intro set h
    rw [←Option.some.inj h]
    rfl
  nodup := by rwa [setAsns_new as hfits]

theorem asSetAdd_some {r : Option Assegment} (hok : SetOk asset) (h : asSetAdd asset a=some r) :
    SetOk r ∧ ∀ b, b∈setAsns r ↔ b∈setAsns asset ∨ b=a := by
  cases asset with
  | none =>
    have hfits : [a].length<65536 := by
      rw [length_singleton]
      decide
    rw [←Option.some.inj h]
    refine ⟨setOk_new [a] hfits (nodup_singleton a),fun b => ?_⟩
    rw [setAsns_new [a] hfits,mem_singleton]
    exact ⟨Or.inr,fun hb => hb.resolve_left not_mem_nil⟩
  | some set =>
    rw [asSetAdd] at h
    split at h
    · rename_i hmem
      rw [←Option.some.inj h]
      refine ⟨hok,fun b => ⟨Or.inl,fun hb => hb.elim id ?_⟩⟩
      rintro rfl
      exact hmem
    rename_i hnew
    split at h
    · rename_i hlen
      have hfits : (set.as++[a]).length<65536 := by
        rw [length_append]
        exact hlen
      have hnd : (set.as++[a]).Nodup := List.Nodup.append hok.nodup (nodup_singleton a)
          (disjoint_singleton.mpr hnew)
      rw [←Option.some.inj h]
      refine ⟨setOk_new _ hfits hnd,fun b => ?_⟩
      rw [setAsns_new _ hfits,mem_append,mem_singleton]
      exact Iff.rfl
    · cases h

theorem foldlM_asSetAdd_some : ∀ {asset r : Option Assegment}, SetOk asset →
    as.foldlM asSetAdd asset=some r →
    SetOk r ∧ ∀ b, b∈setAsns r ↔ b∈setAsns asset ∨ b∈as := by
  induction as with
  | nil =>
    intro asset r hok h
    rw [←Option.some.inj h]
    exact ⟨hok,fun b => ⟨Or.inl,fun hb => hb.resolve_right not_mem_nil⟩⟩
  | cons a as ih =>
    intro asset r hok h
    rw [foldlM_cons] at h
    obtain ⟨next,hnext,hrs⟩ := Option.bind_eq_some_iff.mp h
    obtain ⟨hok',hmem⟩ := asSetAdd_some hok hnext
    obtain ⟨hr,hall⟩ := ih hok' hrs
    refine ⟨hr,fun b => ?_⟩
    rw [hall,hmem,mem_cons,or_assoc]

/-- The number of different AS numbers. -/
def distinct (as : List AsT) : ℕ := as.toFinset.card

theorem length_setAsns {as : List AsT} (hok : SetOk asset) (hmem : ∀ b, b∈setAsns asset ↔ b∈as) :
    (setAsns asset).length=distinct as := by
  rw [distinct,←toFinset_card_of_nodup hok.nodup]
  exact congrArg Finset.card (Finset.ext fun b => by rw [mem_toFinset,mem_toFinset,hmem])

/-- A new AS number finds room when there are few. -/
theorem asSetAdd_ne_none {seen : List AsT} (hok : SetOk asset)
    (hmem : ∀ b, b∈setAsns asset ↔ b∈seen) (hfew : distinct (seen++[a])<65536) :
    ∃ r, asSetAdd asset a=some r := by
  cases asset with
  | none => exact ⟨_,rfl⟩
  | some set =>
    rw [asSetAdd]
    by_cases ha : a∈set.as
    · exact ⟨_,if_pos ha⟩
    have hnd : (set.as++[a]).Nodup :=
      List.Nodup.append hok.nodup (nodup_singleton a) (disjoint_singleton.mpr ha)
    have hcard : (set.as++[a]).length=distinct (seen++[a]) := by
      rw [distinct,←toFinset_card_of_nodup hnd]
      refine congrArg Finset.card (Finset.ext fun b => ?_)
      rw [mem_toFinset,mem_toFinset,mem_append,mem_append]
      exact or_congr_left (hmem b)
    have hlen : set.length+1<65536 := by
      rw [←hcard,length_append] at hfew
      exact hfew
    rw [if_neg ha,if_pos hlen]
    exact ⟨_,rfl⟩

theorem distinct_le {as bs : List AsT} (h : ∀ a∈as, a∈bs) : distinct as≤distinct bs :=
  Finset.card_le_card fun a ha => mem_toFinset.mpr (h a (mem_toFinset.mp ha))

theorem foldlM_asSetAdd_ne_none : ∀ {asset : Option Assegment} (seen : List AsT),
    SetOk asset → (∀ b, b∈setAsns asset ↔ b∈seen) → distinct (seen++as)<65536 →
    ∃ r, as.foldlM asSetAdd asset=some r := by
  induction as with
  | nil => exact fun _ _ _ _ => ⟨_,rfl⟩
  | cons a as ih =>
    intro asset seen hok hmem hfew
    have hfst : distinct (seen++[a])<65536 := by
      refine (distinct_le fun b hb => ?_).trans_lt hfew
      rcases mem_append.mp hb with hb|hb
      · exact mem_append_left _ hb
      rw [mem_singleton.mp hb]
      exact mem_append_right _ mem_cons_self
    obtain ⟨next,hnext⟩ := asSetAdd_ne_none hok hmem hfst
    obtain ⟨hok',hmem'⟩ := asSetAdd_some hok hnext
    have hseen : ∀ b, b∈setAsns next ↔ b∈seen++[a] := by
      intro b
      rw [hmem',hmem,mem_append,mem_singleton]
    have hrs : distinct (seen++[a]++as)<65536 := by
      rw [append_assoc]
      exact hfew
    obtain ⟨r,hr⟩ := ih (seen++[a]) hok' hseen hrs
    refine ⟨r,?_⟩
    rw [foldlM_cons,hnext]
    exact hr

theorem foldlM_asSetAdd_iff : (∃ r, as.foldlM asSetAdd none=some r) ↔ distinct as<65536 := by
  constructor
  · rintro ⟨r,hr⟩
    obtain ⟨hok,hmem⟩ := foldlM_asSetAdd_some as setOk_none hr
    have hmem' : ∀ b, b∈setAsns r ↔ b∈as := fun b =>
      (hmem b).trans ⟨fun hb => hb.resolve_left not_mem_nil,Or.inr⟩
    rw [←length_setAsns hok hmem']
    cases r with
    | none => exact Nat.zero_lt_succ _
    | some set => exact set.fits
  · intro hfew
    exact foldlM_asSetAdd_ne_none as [] setOk_none (fun b => Iff.rfl) hfew

end

section

variable {path as1 as2 : Aspath}

def Unpacked (path : Aspath) : Prop := path.IsChain fun x y => ¬TypesPackable x y

theorem unpacked_normaliseLoop (rest : Aspath) : ∀ pin, Unpacked (normaliseLoop pin rest) := by
  induction rest with
  | nil => exact fun pin => isChain_singleton pin
  | cons seg rest ih =>
    intro pin
    rw [normaliseLoop]
    split
    · exact ih _
    rename_i hpack
    obtain ⟨first,more,hloop,hty⟩ := head_normaliseLoop rest (sortSet seg)
    have hchain := ih (sortSet seg)
    rw [hloop] at hchain ⊢
    refine isChain_cons_cons.mpr ⟨fun hjoin => hpack ⟨?_,hjoin.2⟩,hchain⟩
    rw [hjoin.1,hty,type_sortSet]

theorem unpacked_of_normal (h : Normal path) : Unpacked path := by
  cases path with
  | nil => exact isChain_nil
  | cons x rest =>
    rw [AsPathMerging.Normal,assegmentNormalise] at h
    rw [←h]
    exact unpacked_normaliseLoop rest (sortSet x)

theorem unpacked_sortSet {x : Assegment} {rest : Aspath} (h : Unpacked (x::rest)) :
    Unpacked (sortSet x::rest) := by
  cases rest with
  | nil => exact isChain_singleton _
  | cons next rest =>
    obtain ⟨hnext,hmore⟩ := isChain_cons_cons.mp h
    refine isChain_cons_cons.mpr ⟨fun hpack => hnext ?_,hmore⟩
    rw [TypesPackable,type_sortSet] at hpack
    exact hpack

theorem normaliseLoop_of_unpacked (rest : Aspath) : ∀ pin, Unpacked (pin::rest) →
    normaliseLoop pin rest=pin::rest.map sortSet := by
  induction rest with
  | nil => exact fun pin _ => rfl
  | cons seg rest ih =>
    intro pin hchain
    obtain ⟨hfst,hrs⟩ := isChain_cons_cons.mp hchain
    rw [normaliseLoop,if_neg hfst,ih _ (unpacked_sortSet hrs),map_cons]

theorem normalise_of_unpacked (h : Unpacked path) : assegmentNormalise path=path.map sortSet := by
  cases path with
  | nil => rfl
  | cons x rest =>
    rw [assegmentNormalise,normaliseLoop_of_unpacked rest _ (unpacked_sortSet h),map_cons]

end

section

variable {as1 as2 r : Aspath}

theorem commonSegments_append (as1 as2 : Aspath) :
    as1=commonSegments as1 as2++(leftOver as1 as2).1 ∧
      as2=commonSegments as1 as2++(leftOver as1 as2).2 := by
  induction as1 generalizing as2 with
  | nil => exact ⟨rfl,rfl⟩
  | cons x xs ih =>
    cases as2 with
    | nil => exact ⟨rfl,rfl⟩
    | cons y ys =>
      by_cases heq : x=y
      · subst heq
        obtain ⟨h1,h2⟩ := ih ys
        rw [leftOver_cons,commonSegments,if_pos rfl,cons_append,cons_append]
        exact ⟨congrArg (x :: ·) h1,congrArg (x :: ·) h2⟩
      have hcommon : commonSegments (x::xs) (y::ys)=[] := by rw [commonSegments,if_neg heq]
      rw [leftOver,hcommon]
      exact ⟨rfl,rfl⟩

/-- The leading segments of the aggregate. -/
def leadSegments (as1 as2 : Aspath) : Aspath :=
  commonSegments as1 as2++partSegment (leftOver as1 as2)

theorem leadOf_append {part rest : Aspath} (common : Aspath) (h : LeadOf part rest) :
    LeadOf (common++part) (common++rest) := by
  induction common with
  | nil => exact h
  | cons x common ih => exact .cons x ih

theorem as_sharedPart (x y : Assegment) :
    (assegmentNew x.type (x.as.take (matchLength x.as y.as))).as =
      x.as.take (matchLength x.as y.as) :=
  assegmentNew_of_lt (by
    have hfits := x.fits
    rw [length_take]
    omega)

theorem partSegment_leadOf :
    LeadOf (partSegment rest) rest.1 ∧ LeadOf (partSegment rest) rest.2 := by
  obtain ⟨rest1,rest2⟩ := rest
  cases rest1 with
  | nil => exact ⟨.nil _,.nil _⟩
  | cons x xs =>
    cases rest2 with
    | nil => exact ⟨.nil _,.nil _⟩
    | cons y ys =>
      rw [partSegment]
      split
      · rename_i hpart
        refine ⟨.part xs rfl ?_,.part ys hpart.1 ?_⟩
        · rw [as_sharedPart]
          exact take_prefix _ _
        rw [as_sharedPart,take_matchLength]
        exact take_prefix _ _
      · exact ⟨.nil _,.nil _⟩

theorem leadSegments_leadOf (as1 as2 : Aspath) :
    LeadOf (leadSegments as1 as2) as1 ∧ LeadOf (leadSegments as1 as2) as2 := by
  obtain ⟨h1,h2⟩ := commonSegments_append as1 as2
  obtain ⟨hpart1,hpart2⟩ := partSegment_leadOf (leftOver as1 as2)
  have hlead1 := leadOf_append (commonSegments as1 as2) hpart1
  have hlead2 := leadOf_append (commonSegments as1 as2) hpart2
  rw [←h1] at hlead1
  rw [←h2] at hlead2
  exact ⟨hlead1,hlead2⟩

theorem unpacked_of_leadOf {path : Aspath} (h : LeadOf lead path) (hpath : Unpacked path) :
    Unpacked lead := by
  induction h with
  | nil path => exact isChain_nil
  | part rest hty has => exact isChain_singleton _
  | @cons xs ys x hlead ih =>
    have htail := ih (List.IsChain.of_cons hpath)
    cases hlead with
    | nil path => exact isChain_singleton x
    | part rest hty has =>
      have hfst := (isChain_cons_cons.mp hpath).1
      refine isChain_cons_cons.mpr ⟨fun hjoin => hfst ⟨?_,hjoin.2⟩,htail⟩
      rw [hjoin.1,hty]
    | cons y hmore => exact isChain_cons_cons.mpr ⟨(isChain_cons_cons.mp hpath).1,htail⟩

theorem unpacked_append_set (h : Unpacked lead) (hok : SetOk asset) :
    Unpacked (lead++asset.toList) := by
  cases asset with
  | none => rwa [Option.toList_none,append_nil]
  | some set =>
    refine isChain_append.mpr ⟨h,isChain_singleton set,fun x _ y hy hjoin => ?_⟩
    have hset := (Option.some.inj hy).symm
    have hty := hok.type set rfl
    rw [hset,TypesPackable,hty] at hjoin
    have hx := hjoin.1.symm.trans hjoin.2
    cases hx

theorem aspathAggregate_eq (h1 : Normalised as1) (hr : aspathAggregate as1 as2=some r) :
    ∃ asset, SetOk asset ∧ (∀ b, b∈setAsns asset ↔ b∈collected as1 as2) ∧
      r=leadSegments as1 as2++(asset.map sortSet).toList := by
  rw [aspathAggregate,commonLead_eq as1 as2 0 h1.pos] at hr
  obtain ⟨asset,hfold,hnormal⟩ := Option.map_eq_some_iff.mp hr
  obtain ⟨hok,hmem⟩ := foldlM_asSetAdd_some _ setOk_none hfold
  have hlead := (leadSegments_leadOf as1 as2).1
  have hunpacked := unpacked_append_set
    (unpacked_of_leadOf hlead (unpacked_of_normal h1.normal)) hok
  have hsrt :=
    (map_congr_left (LeadOf.sorted hlead (Normal.sorted h1.normal))).trans (map_id' _)
  refine ⟨asset,hok,fun b => (hmem b).trans ?_,?_⟩
  · exact ⟨fun hb => hb.resolve_left not_mem_nil,Or.inr⟩
  rw [←hnormal]
  change assegmentNormalise (leadSegments as1 as2++asset.toList)=_
  rw [normalise_of_unpacked hunpacked,map_append,hsrt]
  cases asset with
  | none | some set => rfl

theorem aspathLoopCheck_iff (a : AsT) : aspathLoopCheck path a≠0 ↔ a∈asnsOf path := by
  induction path with
  | nil => exact ⟨fun h => (h rfl).elim,fun h => (not_mem_nil h).elim⟩
  | cons seg rest ih =>
    rw [mem_asnsOf_cons,←ih,←count_pos_iff,aspathLoopCheck,map_cons,sum_cons,aspathLoopCheck]
    omega

theorem mem_asnsOf_append (a : AsT) : a∈asnsOf (xs++ys) ↔ a∈asnsOf xs ∨ a∈asnsOf ys := by
  rw [asnsOf,flatMap_append,mem_append]
  exact Iff.rfl

theorem mem_asnsOf_cut (k : ℕ) (path : Aspath) (a : AsT) :
    a∈asnsOf path ↔ a∈(headAsns path).take k ∨ a∈restAsns k path := by
  cases path with
  | nil =>
    rw [headAsns,restAsns]
    exact ⟨Or.inr,fun h => h.elim (fun h => mem_of_mem_take h) id⟩
  | cons seg rest =>
    have hcut : a∈seg.as ↔ a∈seg.as.take k ∨ a∈seg.as.drop k := by
      rw [←mem_append,take_append_drop]
    rw [mem_asnsOf_cons,restAsns,mem_append,hcut,or_assoc]
    exact Iff.rfl

theorem mem_partSegment (hsame : SameType rest) (a : AsT) : a∈asnsOf (partSegment rest) ↔
      a∈(headAsns rest.1).take (matchLength (headAsns rest.1) (headAsns rest.2)) := by
  obtain ⟨rest1,rest2⟩ := rest
  cases rest1 with
  | nil => exact hsame.elim
  | cons x xs =>
    cases rest2 with
    | nil => exact hsame.elim
    | cons y ys =>
      have hty : x.type=y.type := hsame
      change a∈asnsOf (partSegment (x::xs,y::ys)) ↔ a∈x.as.take (matchLength x.as y.as)
      rw [partSegment]
      by_cases hk : matchLength x.as y.as=0
      · rw [if_neg fun h => h.2 hk,hk,take_zero]
        exact Iff.rfl
      rw [if_pos ⟨hty,hk⟩,mem_asnsOf_cons,as_sharedPart]
      exact ⟨fun h => h.elim id fun h => (not_mem_nil h).elim,Or.inl⟩

theorem partSegment_of_not {rest : Aspath × Aspath} (hsame : ¬SameType rest) :
    partSegment rest=[] := by
  obtain ⟨rest1,rest2⟩ := rest
  cases rest1 with
  | nil => rfl
  | cons x xs =>
    cases rest2 with
    | nil => rfl
    | cons y ys =>
      have hty : ¬x.type=y.type := hsame
      rw [partSegment,if_neg fun h => hty h.1]

theorem mem_front (as1 as2 : Aspath) (a : AsT) :
    (a∈(headAsns (leftOver as1 as2).1).take (collectFrom 0 as1 as2) ∨
        a∈(headAsns (leftOver as1 as2).2).take (collectFrom 0 as1 as2)) ↔
      a∈asnsOf (partSegment (leftOver as1 as2)) ∨ a∈skipped as1 as2 := by
  by_cases hsame : SameType (leftOver as1 as2)
  · rw [collectFrom,if_pos hsame,skipped,if_pos hsame,mem_partSegment _ hsame,
      ← take_matchLength,or_self]
    exact ⟨Or.inl,fun h => h.elim id fun h => (not_mem_nil h).elim⟩
  rw [skipped,if_neg hsame,partSegment_of_not hsame,mem_append]
  exact ⟨Or.inr,fun h => h.elim (fun h => (not_mem_nil h).elim) id⟩

theorem mem_both (as1 as2 : Aspath) (a : AsT) : (a∈asnsOf as1 ∨ a∈asnsOf as2) ↔
      a∈asnsOf (leadSegments as1 as2) ∨ a∈skipped as1 as2 ∨ a∈collected as1 as2 := by
  obtain ⟨h1,h2⟩ := commonSegments_append as1 as2
  have hfront := mem_front as1 as2 a
  have hmem1 : a∈asnsOf as1 ↔ a∈asnsOf (commonSegments as1 as2) ∨
      a∈(headAsns (leftOver as1 as2).1).take (collectFrom 0 as1 as2) ∨
      a∈restAsns (collectFrom 0 as1 as2) (leftOver as1 as2).1 := by
    rw [←mem_asnsOf_cut,←mem_asnsOf_append,←h1]
  have hmem2 : a∈asnsOf as2 ↔ a∈asnsOf (commonSegments as1 as2) ∨
      a∈(headAsns (leftOver as1 as2).2).take (collectFrom 0 as1 as2) ∨
      a∈restAsns (collectFrom 0 as1 as2) (leftOver as1 as2).2 := by
    rw [←mem_asnsOf_cut,←mem_asnsOf_append,←h2]
  rw [hmem1,hmem2,←or_or_distrib_left,or_or_or_comm,hfront,leadSegments,
    mem_asnsOf_append,collected,mem_append,or_assoc,or_assoc]

theorem mem_aggregate (h1 : Normalised as1) (hr : aspathAggregate as1 as2=some r) (a : AsT) :
    a∈asnsOf r ↔ a∈asnsOf (leadSegments as1 as2) ∨ a∈collected as1 as2 := by
  obtain ⟨asset,-,hmem,rfl⟩ := aspathAggregate_eq h1 hr
  rw [mem_asnsOf_append,←hmem]
  cases asset with
  | none => exact Iff.rfl
  | some set =>
    have hset : a∈asnsOf (((some set).map sortSet).toList) ↔ a∈setAsns (some set) := by
      rw [Option.map_some,Option.toList_some,mem_asnsOf_cons,mem_sortSet]
      exact ⟨fun h => h.elim id fun h => (not_mem_nil h).elim,Or.inl⟩
    rw [hset]

theorem mem_leadSegments_of_skipped (ha : a∈skipped as1 as2) (b : AsT) :
    b∈asnsOf (leadSegments as1 as2) ↔ b∈asnsOf (commonSegments as1 as2) := by
  have hsame : ¬SameType (leftOver as1 as2) := by
    intro hsame
    rw [skipped,if_pos hsame] at ha
    exact not_mem_nil ha
  rw [leadSegments,partSegment_of_not hsame,append_nil]

theorem aspathAggregate_ne_none (h1 : Normalised as1) :
    (∃ r, aspathAggregate as1 as2=some r) ↔ distinct (collected as1 as2)<65536 := by
  rw [aspathAggregate,commonLead_eq as1 as2 0 h1.pos,←foldlM_asSetAdd_iff]
  constructor
  · rintro ⟨r,hr⟩
    obtain ⟨asset,hfold,-⟩ := Option.map_eq_some_iff.mp hr
    exact ⟨asset,hfold⟩
  · rintro ⟨asset,hfold⟩
    exact ⟨_,Option.map_eq_some_iff.mpr ⟨asset,hfold,rfl⟩⟩

theorem aspathAggregate_lead (h1 : Normalised as1) (hr : aspathAggregate as1 as2=some r) :
    ∃ lead tail, r=lead++tail ∧ (tail=[] ∨ ∃ set, tail=[set] ∧ set.type=.asSet) ∧
      LeadOf lead as1 ∧ LeadOf lead as2 := by
  obtain ⟨asset,hok,-,rfl⟩ := aspathAggregate_eq h1 hr
  refine ⟨leadSegments as1 as2,_,rfl,?_,leadSegments_leadOf as1 as2⟩
  cases asset with
  | none => exact Or.inl rfl
  | some set => exact Or.inr ⟨sortSet set,rfl,(type_sortSet set).trans (hok.type set rfl)⟩

/-- **Aggregation.** No AS number is lost exactly when each skipped one stands elsewhere and they
are not too many. -/
theorem aspathAggregate_iff (as1 as2 : Aspath) (h1 : Normalised as1) :
    (∃ r, aspathAggregate as1 as2=some r ∧ Aggregates as1 as2 r) ↔ (∀ a∈skipped as1 as2,
        a∈asnsOf (commonSegments as1 as2) ∨ a∈collected as1 as2) ∧
      distinct (collected as1 as2)<65536 := by
  constructor
  · rintro ⟨r,hr,hgood⟩
    refine ⟨fun a ha => ?_,(aspathAggregate_ne_none h1).mp ⟨r,hr⟩⟩
    have hboth := (mem_both as1 as2 a).mpr (Or.inr (Or.inl ha))
    have hmem := (aspathLoopCheck_iff r a).mp ((hgood.loopCheck a).mpr hboth)
    rw [mem_aggregate h1 hr,mem_leadSegments_of_skipped ha] at hmem
    exact hmem
  · rintro ⟨hskipped,hfew⟩
    obtain ⟨r,hr⟩ := (aspathAggregate_ne_none h1).mpr hfew
    refine ⟨r,hr,⟨fun a => ?_,aspathAggregate_lead h1 hr⟩⟩
    rw [aspathLoopCheck_iff,mem_aggregate h1 hr,mem_both]
    have helse : a∈skipped as1 as2 → a∈asnsOf (leadSegments as1 as2) ∨ a∈collected as1 as2 := by
      intro h
      rw [mem_leadSegments_of_skipped h]
      exact hskipped a h
    exact ⟨fun h => h.elim Or.inl fun h => Or.inr (Or.inr h),
      fun h => h.elim Or.inl fun h => h.elim helse Or.inr⟩

def setPath : Aspath := [assegmentNew .asSequence [1,2],assegmentNew .asSet [3,4]]

def sequencePath : Aspath := [assegmentNew .asSequence [1,2]]

theorem normalised_setPath : Normalised setPath where
  pos := by decide
  normal := by decide +kernel

theorem normalised_sequencePath : Normalised sequencePath where
  pos := by decide
  normal := by decide +kernel

theorem aspathAggregate_iff_sequencePath : ∃ r, aspathAggregate sequencePath sequencePath=some r ∧
      Aggregates sequencePath sequencePath r := by
  have hskipped : skipped sequencePath sequencePath=[] := by decide +kernel
  have hcollected : collected sequencePath sequencePath=[] := by decide +kernel
  refine (aspathAggregate_iff sequencePath sequencePath normalised_sequencePath).mpr ⟨?_,?_⟩
  · rw [hskipped]
    exact fun a ha => (List.not_mem_nil ha).elim
  rw [hcollected]
  exact Nat.zero_lt_succ 65535

/-- The aggregate of a sequence with itself and a set behind it holds no number of the set. -/
theorem aspathAggregate_loses : Normalised setPath ∧ Normalised sequencePath ∧
      aspathAggregate setPath sequencePath=some [assegmentNew .asSequence [1,2]] ∧
      3∈asnsOf setPath ∧ aspathLoopCheck [assegmentNew .asSequence [1,2]] 3=0 :=
  ⟨normalised_setPath,normalised_sequencePath,by decide +kernel,by decide,by decide⟩

end

end RoutePlatform.AsPathAggregate
