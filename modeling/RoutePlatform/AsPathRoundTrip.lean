import RoutePlatform.AsPathParsing

/-!
# When AS paths survive the wire

The splitting loop of `aspath_put` writes the start of the segment in every round, so sequences
longer than two wire segments are wrong. The packing loop overwrites the header length, so headers
that pack more than one segment are wrong. Apart from these, and from sequences that overflow the
length field, the round trip is exact.
-/

namespace RoutePlatform.AsPathRoundTrip

open StreamOperations AsPathOperations AsPathEncoding AsPathParsing List Option

variable {rest : List Assegment} {r : Stream} {pin : Assegment}

/-- A segment without its length limit. -/
abbrev PlainSegment := SegmentType × List AsT

def plain (seg : Assegment) : PlainSegment := (seg.type,seg.as)

theorem plain_injective : Function.Injective plain := fun _ _ h =>
  Assegment.ext (congrArg Prod.fst h) (congrArg Prod.snd h)

def plainSort (seg : PlainSegment) : PlainSegment :=
  if seg.1=.asSet ∨ seg.1=.asConfedSet then (seg.1,sortAsns seg.2) else seg

def plainLoop (pin : PlainSegment) : List PlainSegment→List PlainSegment
  | [] => [pin]
  | seg::rest =>
    if pin.1=seg.1 ∧ pin.1=.asSequence then plainLoop (pin.1,pin.2++seg.2) rest
    else pin::plainLoop (plainSort seg) rest

/-- Every run of sequences fits the length field; `n` AS numbers of it came before. -/
def RunsFit : ℕ→List Assegment→Prop
  | _, [] => True
  | n, seg::rest =>
    if seg.type=.asSequence then n+seg.length<65536 ∧ RunsFit (n+seg.length) rest
    else RunsFit 0 rest

instance decidableRunsFit : ∀ (n : ℕ) (segments : List Assegment), Decidable (RunsFit n segments)
  | _, [] => isTrue trivial
  | n, seg::rest =>
    have := decidableRunsFit (n+seg.length) rest
    have := decidableRunsFit 0 rest
    inferInstanceAs (Decidable (if seg.type=.asSequence then
      n+seg.length<65536 ∧ RunsFit (n+seg.length) rest else RunsFit 0 rest))

/-- The AS numbers a segment contributes to a run. -/
def runLength (seg : Assegment) : ℕ := if seg.type=.asSequence then seg.length else 0

theorem plain_sortSet (seg : Assegment) : plain (sortSet seg)=plainSort (plain seg) := by
  unfold sortSet plainSort plain
  split <;> rfl

variable {seg : Assegment}

theorem sortSet_of_sequence (h : seg.type=.asSequence) : sortSet seg=seg := by
  unfold sortSet
  rw [if_neg]
  rw [h]
  decide

theorem type_sortSet (seg : Assegment) : (sortSet seg).type=seg.type := by
  unfold sortSet
  split <;> rfl

theorem runsFit_packed (hpack : TypesPackable pin seg)
    (hfit : RunsFit (runLength pin) (seg::rest)) :
    (assegmentAppendAsns pin seg.as).as=pin.as++seg.as ∧
      RunsFit (runLength (assegmentAppendAsns pin seg.as)) rest := by
  have hseq := hpack.1.symm.trans hpack.2
  rw [RunsFit,if_pos hseq,runLength,if_pos hpack.2] at hfit
  have hnew : (assegmentAppendAsns pin seg.as).as=pin.as++seg.as := by
    apply assegmentNew_of_lt
    rw [length_append]
    exact hfit.1
  have hrun : runLength (assegmentAppendAsns pin seg.as)=pin.length+seg.length := by
    have hty : (assegmentAppendAsns pin seg.as).type=.asSequence := hpack.2
    rw [runLength,if_pos hty,Assegment.length,hnew,length_append]
    rfl
  refine ⟨hnew,?_⟩
  rw [hrun]
  exact hfit.2

theorem runsFit_apart (hpack : ¬TypesPackable pin seg)
    (hfit : RunsFit (runLength pin) (seg::rest)) : RunsFit (runLength (sortSet seg)) rest := by
  by_cases hseq : seg.type=.asSequence
  · have hpin : pin.type ≠ .asSequence := fun hp => hpack ⟨hp.trans hseq.symm,hp⟩
    rw [RunsFit,if_pos hseq,runLength,if_neg hpin,zero_add] at hfit
    rw [sortSet_of_sequence hseq,runLength,if_pos hseq]
    exact hfit.2
  rw [RunsFit,if_neg hseq] at hfit
  rw [runLength,type_sortSet,if_neg hseq]
  exact hfit

theorem runsFit_first (hfit : RunsFit 0 (seg::rest)) : RunsFit (runLength (sortSet seg)) rest := by
  by_cases hseq : seg.type=.asSequence
  · rw [RunsFit,if_pos hseq,zero_add] at hfit
    rw [sortSet_of_sequence hseq,runLength,if_pos hseq]
    exact hfit.2
  rw [RunsFit,if_neg hseq] at hfit
  rw [runLength,type_sortSet,if_neg hseq]
  exact hfit

variable (rest : List Assegment)

theorem plain_normaliseLoop : ∀ pin, RunsFit (runLength pin) rest →
      (normaliseLoop pin rest).map plain=plainLoop (plain pin) (rest.map plain) := by
  induction rest with
  | nil => exact fun _ _ => rfl
  | cons seg rest ih =>
    intro pin hfit
    rw [normaliseLoop,map_cons,plainLoop]
    by_cases hpack : TypesPackable pin seg
    · obtain ⟨hnew,hrs⟩ := runsFit_packed hpack hfit
      have hplain : plain (assegmentAppendAsns pin seg.as) =
          (pin.type,pin.as++seg.as) := Prod.ext rfl hnew
      have hcond : (plain pin).1=(plain seg).1 ∧ (plain pin).1=.asSequence := hpack
      rw [if_pos hpack,if_pos hcond,ih _ hrs,hplain]
      rfl
    have hcond : ¬((plain pin).1=(plain seg).1 ∧ (plain pin).1=.asSequence) := hpack
    rw [if_neg hpack,if_neg hcond,map_cons,ih _ (runsFit_apart hpack hfit),plain_sortSet]

theorem plainLoop_cut (pin : PlainSegment) (as bs : List AsT) (rest : List PlainSegment) :
    plainLoop pin ((.asSequence,as)::(.asSequence,bs)::rest) =
      plainLoop pin ((.asSequence,as++bs)::rest) := by
  have hsort : ∀ xs, plainSort (.asSequence,xs)=(.asSequence,xs) := fun _ => rfl
  by_cases hpin : pin.1=.asSequence
  · have hcond : pin.1=.asSequence ∧ pin.1=.asSequence := ⟨hpin,hpin⟩
    rw [plainLoop,if_pos hcond,plainLoop,if_pos hcond,plainLoop,if_pos hcond,append_assoc]
  have hcond : ¬(pin.1=.asSequence ∧ pin.1=.asSequence) := fun h => hpin h.2
  rw [plainLoop,if_neg hcond,hsort,plainLoop,if_pos ⟨rfl,rfl⟩,plainLoop,if_neg hcond,hsort]

theorem plainLoop_congr (xs : List PlainSegment) {ys zs : List PlainSegment}
    (h : ∀ pin, plainLoop pin ys=plainLoop pin zs) :
    ∀ pin, plainLoop pin (xs++ys)=plainLoop pin (xs++zs) := by
  induction xs with
  | nil => exact h
  | cons x xs ih =>
    intro pin
    rw [cons_append,plainLoop,cons_append,plainLoop,ih,ih]

theorem runsFit_congr (xs : List Assegment) {ys zs : List Assegment}
    (h : ∀ n, RunsFit n ys ↔ RunsFit n zs) :
    ∀ n, RunsFit n (xs++ys) ↔ RunsFit n (xs++zs) := by
  induction xs with
  | nil => exact h
  | cons x xs ih =>
    intro n
    rw [cons_append,RunsFit,cons_append,RunsFit,ih,ih]

variable {x : Assegment}

theorem runsFit_cut {y z : Assegment} (hx : x.type=.asSequence) (hy : y.type=.asSequence)
    (hz : z.type=.asSequence) (hlen : z.length=x.length+y.length) (n : ℕ)
    (rest : List Assegment) : RunsFit n (x::y::rest) ↔ RunsFit n (z::rest) := by
  rw [RunsFit,if_pos hx,RunsFit,if_pos hy,RunsFit,if_pos hz,hlen,add_assoc]
  constructor
  · exact fun h => h.2
  · exact fun h => ⟨by omega,h⟩

variable (f : AsT→AsT)

theorem runsFit_map (segments : List Assegment) :
    ∀ n, RunsFit n (segments.map (mapAsns f)) ↔ RunsFit n segments := by
  induction segments with
  | nil => exact fun _ => Iff.rfl
  | cons seg rest ih =>
    intro n
    have hty : (mapAsns f seg).type=seg.type := rfl
    have hlen : (mapAsns f seg).length=seg.length := length_map _
    rw [map_cons,RunsFit,RunsFit,hty,hlen,ih,ih]

/-- What holds of every group of a path that can be written. -/
structure GroupOk (g : Group) : Prop where
  pos : 0<g.1.length
  long : 255<g.1.length → g.1.type=.asSequence
  /-- The packed segments are not empty, and each fits behind the first. -/
  packed : ∀ x∈g.2, Packable g.1 x ∧ 0<x.length

theorem groupOk_single {rest : List Assegment} (henc : Encodable (x::rest)) : GroupOk (x,[]) where
  pos := henc.pos x mem_cons_self
  long := by
    intro hlong
    by_contra hne
    have hshort := henc.short x mem_cons_self hne
    dsimp only at hlong
    omega
  packed := nofun

theorem groupsFrom_ok :
    ∀ (seg : Assegment) (packed : List Assegment), GroupOk (seg,packed) → Encodable rest →
      ∀ g∈groupsFrom seg packed rest, GroupOk g := by
  induction rest with
  | nil =>
    intro seg packed hok _ g hg
    rw [groupsFrom,mem_singleton] at hg
    rw [hg]
    exact hok
  | cons x rest ih =>
    intro seg packed hok henc g hg
    have hrs := henc.sublist (sublist_cons_self x rest)
    rw [groupsFrom] at hg
    by_cases hpack : Packable seg x
    · rw [if_pos hpack] at hg
      refine ih seg (packed++[x]) ⟨hok.pos,hok.long,fun y hy => ?_⟩ hrs g hg
      rcases mem_append.mp hy with hy|hy
      · exact hok.packed y hy
      rw [mem_singleton.mp hy]
      exact ⟨hpack,henc.pos x mem_cons_self⟩
    rw [if_neg hpack] at hg
    rcases mem_cons.mp hg with hg|hg
    · rw [hg]
      exact hok
    · exact ih x [] (groupOk_single henc) hrs g hg

variable {segments : List Assegment}

theorem groups_ok (henc : Encodable segments) : ∀ g∈groups segments, GroupOk g := by
  cases segments with
  | nil => exact fun g hg => absurd hg not_mem_nil
  | cons seg rest =>
    exact groupsFrom_ok rest seg [] (groupOk_single henc)
      (henc.sublist (sublist_cons_self seg rest))

def groupSegments (g : Group) : List Assegment := g.1::g.2

theorem flatMap_groupsFrom : ∀ (seg : Assegment) (packed : List Assegment),
      (groupsFrom seg packed rest).flatMap groupSegments=seg::(packed++rest) := by
  induction rest with
  | nil =>
    intro seg packed
    simp [groupsFrom,groupSegments]
  | cons x rest ih =>
    intro seg packed
    rw [groupsFrom]
    by_cases hpack : Packable seg x
    · rw [if_pos hpack,ih,append_assoc,singleton_append]
    rw [if_neg hpack,flatMap_cons,ih]
    rfl

theorem flatMap_groups (segments : List Assegment) :
    (groups segments).flatMap groupSegments=segments := by
  cases segments with
  | nil => rfl
  | cons seg rest => exact flatMap_groupsFrom rest seg []

/-- The wire segments that stand for a group. -/
def wireGroup (g : Group) : List Assegment :=
  if g.1.length≤255 then [assegmentNew g.1.type (g.1.as++asnsOf g.2)]
  else [assegmentNew g.1.type (g.1.as.take 255),assegmentNew g.1.type (g.1.as.drop 255)]

/-- The groups that are written correctly. -/
structure GroupSafe (g : Group) : Prop where
  short : g.1.length≤510
  one : g.2.length≤1

theorem GroupSafe.cases {g : Group} (hok : GroupOk g) (h : GroupSafe g) :
    (g.1.length≤255 ∧ g.2=[]) ∨ (∃ x, g.2=[x] ∧ Packable g.1 x ∧ 0<x.length) ∨
      (255<g.1.length ∧ g.1.length≤510 ∧ g.2=[] ∧ g.1.type=.asSequence) := by
  have hone := h.one
  cases hp : g.2 with
  | nil =>
    by_cases hlen : g.1.length≤255
    · exact .inl ⟨hlen,rfl⟩
    · exact .inr (.inr ⟨by omega,h.short,rfl,hok.long (by omega)⟩)
  | cons x xs =>
    rw [hp,length_cons] at hone
    have hxs : xs=[] := length_eq_zero_iff.mp (by omega)
    obtain ⟨hpack,hpos⟩ := hok.packed x (by rw [hp]; exact .head _)
    exact .inr (.inl ⟨x,by rw [hxs],hpack,hpos⟩)

theorem packable_length_le {y : Assegment} (h : Packable x y) : x.length+y.length≤255 := h.2

variable {g : Group}

theorem wireGroup_single (hlen : g.1.length≤255) (hp : g.2=[]) : wireGroup g=[g.1] := by
  have has : g.1.as++asnsOf g.2=g.1.as := by
    rw [hp]
    exact append_nil _
  rw [wireGroup,if_pos hlen,has]
  exact congrArg (fun x => [x]) (Assegment.ext rfl (assegmentNew_of_lt g.1.fits))

theorem wireGroup_packed (hp : g.2=[x]) (hpack : Packable g.1 x) :
    ∃ seg, wireGroup g=[seg] ∧ seg.type=g.1.type ∧ seg.as=g.1.as++x.as ∧
      seg.length=g.1.length+x.length := by
  have hlen := packable_length_le hpack
  have has : g.1.as++asnsOf g.2=g.1.as++x.as := by rw [hp,asnsOf,flatMap_singleton]
  have hfits : (g.1.as++x.as).length<2^16 := by
    rw [length_append]
    unfold Assegment.length at hlen
    omega
  refine ⟨assegmentNew g.1.type (g.1.as++x.as),?_,rfl,assegmentNew_of_lt hfits,?_⟩
  · rw [wireGroup,if_pos (by omega),has]
  rw [Assegment.length,assegmentNew_of_lt hfits,length_append]
  rfl

theorem wireGroup_split (hlen : 255<g.1.length) :
    ∃ x y, wireGroup g=[x,y] ∧ x.type=g.1.type ∧ y.type=g.1.type ∧
      x.as=g.1.as.take 255 ∧ y.as=g.1.as.drop 255 ∧ x.length=255 ∧ y.length=g.1.length-255 := by
  have hfits := g.1.fits
  have hx : (g.1.as.take 255).length=255 := length_take_of_le hlen.le
  have hy : (g.1.as.drop 255).length=g.1.length-255 := length_drop
  have hxs := @assegmentNew_of_lt g.1.type _ (hx.trans_lt (by decide))
  have hys := @assegmentNew_of_lt g.1.type _ (hy.trans_lt (by unfold Assegment.length; omega))
  refine ⟨assegmentNew g.1.type (g.1.as.take 255),assegmentNew g.1.type (g.1.as.drop 255),?_,
    rfl,rfl,hxs,hys,?_,?_⟩
  · rw [wireGroup,if_neg (by omega)]
  · rw [Assegment.length,hxs,hx]
  · rw [Assegment.length,hys,hy]

/-- A sequence, and two that it is cut into. -/
structure CutInTwo (z x y : Assegment) : Prop where
  types : z.type=.asSequence ∧ x.type=.asSequence ∧ y.type=.asSequence
  as : z.as=x.as++y.as

theorem CutInTwo.plainLoop_eq {z x y : Assegment} (h : CutInTwo z x y) (pin : PlainSegment)
    (rest : List PlainSegment) :
    plainLoop pin (plain (mapAsns f x)::plain (mapAsns f y)::rest) =
      plainLoop pin (plain (mapAsns f z)::rest) := by
  have hplain : ∀ a : Assegment, a.type=.asSequence →
      plain (mapAsns f a)=(.asSequence,a.as.map f) := fun a ha => Prod.ext ha rfl
  rw [hplain z h.types.1,hplain x h.types.2.1,hplain y h.types.2.2,plainLoop_cut,h.as,map_append]

theorem CutInTwo.runsFit_iff {z x y : Assegment} (h : CutInTwo z x y) (n : ℕ) (rest : List Assegment) :
    RunsFit n (x::y::rest) ↔ RunsFit n (z::rest) :=
  runsFit_cut h.types.2.1 h.types.2.2 h.types.1 ((congrArg List.length h.as).trans length_append) n rest

/-- Two short sequences are packed, or a long one is split. -/
theorem wireGroup_cases (hok : GroupOk g) (h : GroupSafe g) : wireGroup g=groupSegments g ∨
    ∃ z x y, CutInTwo z x y ∧ (wireGroup g=[z] ∧ groupSegments g=[x,y] ∨
      wireGroup g=[x,y] ∧ groupSegments g=[z]) := by
  rcases h.cases hok with ⟨hlen,hp⟩|⟨x,hp,hpack,-⟩|⟨hlen,-,hp,hseq⟩
  · rw [wireGroup_single hlen hp,groupSegments,hp]
    exact .inl rfl
  · obtain ⟨seg,hwire,hty,has,-⟩ := wireGroup_packed hp hpack
    exact .inr ⟨seg,g.1,x,⟨⟨hty.trans hpack.1.2,hpack.1.2,hpack.1.1.symm.trans hpack.1.2⟩,has⟩,
      .inl ⟨hwire,by rw [groupSegments,hp]⟩⟩
  · obtain ⟨x,y,hwire,hx,hy,hxs,hys,-⟩ := wireGroup_split hlen
    have has : g.1.as=x.as++y.as := by rw [hxs,hys,take_append_drop]
    exact .inr ⟨g.1,x,y,⟨⟨hseq,hx.trans hseq,hy.trans hseq⟩,has⟩,
      .inr ⟨hwire,by rw [groupSegments,hp]⟩⟩

/-- Normalisation does not see how a correct group was cut. -/
theorem plainLoop_wireGroup (hok : GroupOk g) (h : GroupSafe g)
    (pin : PlainSegment) (rest : List PlainSegment) :
    plainLoop pin ((wireGroup g).map (fun x => plain (mapAsns f x))++rest) =
      plainLoop pin ((groupSegments g).map (fun x => plain (mapAsns f x))++rest) := by
  rcases wireGroup_cases hok h with heq|⟨z,x,y,hcut,⟨hwire,hsegs⟩|⟨hwire,hsegs⟩⟩
  · rw [heq]
  · rw [hwire,hsegs]
    exact (hcut.plainLoop_eq f pin rest).symm
  · rw [hwire,hsegs]
    exact hcut.plainLoop_eq f pin rest

theorem runsFit_wireGroup (hok : GroupOk g) (h : GroupSafe g) (n : ℕ) (rest : List Assegment) :
    RunsFit n (wireGroup g++rest) ↔ RunsFit n (groupSegments g++rest) := by
  rcases wireGroup_cases hok h with heq|⟨z,x,y,hcut,⟨hwire,hsegs⟩|⟨hwire,hsegs⟩⟩
  · rw [heq]
  · rw [hwire,hsegs]
    exact (hcut.runsFit_iff n rest).symm
  · rw [hwire,hsegs]
    exact hcut.runsFit_iff n rest

variable (gs : List Group)

theorem plainLoop_wire (hok : ∀ g∈gs, GroupOk g) (h : ∀ g∈gs, GroupSafe g) :
    ∀ pin, plainLoop pin ((gs.flatMap wireGroup).map fun x => plain (mapAsns f x)) =
      plainLoop pin ((gs.flatMap groupSegments).map fun x => plain (mapAsns f x)) := by
  induction gs with
  | nil => exact fun _ => rfl
  | cons g gs ih =>
    intro pin
    have ih' := ih (fun x hx => hok x (.tail _ hx)) fun x hx => h x (.tail _ hx)
    rw [flatMap_cons,map_append,flatMap_cons,map_append,
      plainLoop_wireGroup f (hok g mem_cons_self) (h g mem_cons_self)]
    exact plainLoop_congr _ ih' pin

theorem runsFit_wire (hok : ∀ g∈gs, GroupOk g) (h : ∀ g∈gs, GroupSafe g) :
    ∀ n, RunsFit n (gs.flatMap wireGroup) ↔ RunsFit n (gs.flatMap groupSegments) := by
  induction gs with
  | nil => exact fun _ => Iff.rfl
  | cons g gs ih =>
    intro n
    have ih' := ih (fun x hx => hok x (.tail _ hx)) fun x hx => h x (.tail _ hx)
    rw [flatMap_cons,flatMap_cons,runsFit_wireGroup (hok g mem_cons_self) (h g mem_cons_self)]
    exact runsFit_congr _ ih' n

theorem normaliseLoop_set (segments : List Assegment) :
    normaliseLoop (assegmentNew .asSet []) segments =
      assegmentNew .asSet []::assegmentNormalise segments := by
  cases segments with
  | nil => rfl
  | cons seg rest =>
    have hcond : ¬TypesPackable (assegmentNew .asSet []) seg := fun h => by
      have hty : SegmentType.asSet=.asSequence := h.2
      cases hty
    rw [normaliseLoop,if_neg hcond]
    rfl

theorem assegmentNormalise_wire (henc : Encodable segments) (hsafe : ∀ g∈groups segments, GroupSafe g)
    (hfit : RunsFit 0 segments) :
    assegmentNormalise (((groups segments).flatMap wireGroup).map (mapAsns f)) =
      assegmentNormalise (segments.map (mapAsns f)) := by
  have hok := groups_ok henc
  have hfit1 : RunsFit 0 (((groups segments).flatMap wireGroup).map (mapAsns f)) := by
    rw [runsFit_map,runsFit_wire _ hok hsafe,flatMap_groups]
    exact hfit
  have hfit2 := (runsFit_map f segments 0).mpr hfit
  have h₁ := plain_normaliseLoop _ (assegmentNew .asSet []) hfit1
  have h₂ := plain_normaliseLoop _ (assegmentNew .asSet []) hfit2
  have hmid := plainLoop_wire f _ hok hsafe (plain (assegmentNew .asSet []))
  rw [flatMap_groups] at hmid
  rw [List.map_map] at h₁ h₂
  have hall := h₁.trans (hmid.trans h₂.symm)
  rw [normaliseLoop_set,normaliseLoop_set,map_cons,map_cons] at hall
  exact map_injective_iff.mpr plain_injective (cons.inj hall).2

theorem splits_eq_zero (h : seg.length≤255) : splits seg=0 := by
  unfold splits
  omega

theorem splits_eq_one (h : 255<seg.length) (h' : seg.length≤510) :
    splits seg=1 := by
  unfold splits
  omega

variable (use32bit : Bool)

theorem groupBytes_unsplit (h : g.1.length≤255) :
    groupBytes use32bit g=encodeHeader g.1.type (packedLength g.1.length g.1.length g.2) ++
      encodeAsns use32bit (g.1.as++asnsOf g.2) := by
  rw [groupBytes,splits_eq_zero h,encodeAsns_append,mul_zero,Nat.sub_zero,drop_zero]
  rfl

/-- A correct group is written as its wire segments. -/
theorem groupBytes_safe (hok : GroupOk g) (h : GroupSafe g) :
    groupBytes use32bit g=(wireGroup g).flatMap (encodeSegment use32bit) := by
  rcases h.cases hok with ⟨hlen,hp⟩|⟨x,hp,hpack,-⟩|⟨hlen,hmax,hp,hseq⟩
  · rw [wireGroup_single hlen hp,groupBytes_unsplit use32bit hlen,hp,flatMap_singleton,
      encodeSegment]
    have has : g.1.as++asnsOf []=g.1.as := append_nil _
    rw [has]
    rfl
  · obtain ⟨seg,hwire,hty,has,hseg⟩ := wireGroup_packed hp hpack
    have hlen := packable_length_le hpack
    have hasns : asnsOf g.2=x.as := by rw [hp,asnsOf,flatMap_singleton]
    rw [groupBytes_unsplit use32bit (by omega),hasns,hwire,flatMap_singleton,
      encodeSegment,hseg,hty,has,hp]
    rfl
  obtain ⟨x,y,hwire,hx,hy,hxs,hys,hxlen,hylen⟩ := wireGroup_split hlen
  have hone := splits_eq_one hlen hmax
  have hsplit : splitBytes use32bit g.1 1=encodeSegment use32bit x := by
    rw [splitBytes,replicate_one,flatten_singleton,splitChunk,encodeSegment,hxlen,hx,hxs]
  have hend : encodeHeader g.1.type (packedLength (g.1.length-255) (g.1.length-255) []) ++
      (encodeAsns use32bit (g.1.as.drop 255)++encodeAsns use32bit (asnsOf [])) =
      encodeSegment use32bit y := by
    have hnil : encodeAsns use32bit (asnsOf [])=[] := rfl
    rw [hnil,append_nil,encodeSegment,hylen,hy,hys]
    rfl
  rw [groupBytes,hone,hsplit,hp,mul_one,hend,hwire,flatMap_cons,flatMap_singleton]

theorem onWire_wireGroup (hok : GroupOk g) (h : GroupSafe g) : ∀ seg∈wireGroup g, OnWire seg := by
  have hpos := hok.pos
  rcases h.cases hok with ⟨hlen,hp⟩|⟨x,hp,hpack,-⟩|⟨hlen,hmax,hp,hseq⟩
  · intro seg hseg
    rw [wireGroup_single hlen hp,mem_singleton] at hseg
    rw [hseg]
    exact ⟨hpos,hlen⟩
  · obtain ⟨seg,hwire,-,-,hlen⟩ := wireGroup_packed hp hpack
    have hle := packable_length_le hpack
    intro seg' hseg'
    rw [hwire,mem_singleton] at hseg'
    rw [hseg',OnWire,hlen]
    omega
  obtain ⟨x,y,hwire,-,-,-,-,hxlen,hylen⟩ := wireGroup_split hlen
  intro seg hseg
  rw [hwire] at hseg
  unfold OnWire
  rcases mem_cons.mp hseg with hseg|hseg
  · rw [hseg,hxlen]
    omega
  rw [mem_singleton.mp hseg,hylen]
  omega

/-- The splitting loop never counts too little, and counts too much from its
second round on. -/
theorem splitCount_ge (seg : Assegment) (n : ℕ) (hn : n ≤ splits seg) :
    n*(2+255*asnSize use32bit) ≤ splitCount use32bit seg n ∧ (2 ≤ splits seg → 0<n →
        n*(2+255*asnSize use32bit)<splitCount use32bit seg n) := by
  induction n with
  | zero => exact ⟨by simp,fun _ h => absurd h (lt_irrefl 0)⟩
  | succ n ih =>
    have hsize : assegmentSize (255*(splits seg-n)) use32bit =
      2+255*(splits seg-n)*asnSize use32bit := rfl
    rw [splitCount_succ,hsize]
    have hterm : 2+255*asnSize use32bit≤2+255*(splits seg-n)*asnSize use32bit := by
      have hone : 255*1≤255*(splits seg-n) := by omega
      have hmul := Nat.mul_le_mul_right (asnSize use32bit) hone
      omega
    have hsucc : (n+1)*(2+255*asnSize use32bit) =
        n*(2+255*asnSize use32bit)+(2+255*asnSize use32bit) := Nat.succ_mul _ _
    rw [hsucc]
    refine ⟨by omega,fun htwo _ => ?_⟩
    by_cases hn0 : n=0
    · subst hn0
      have hpos : 0<asnSize use32bit := by cases use32bit <;> decide
      have hmul : 255*1*asnSize use32bit<255*(splits seg-0)*asnSize use32bit :=
        mul_lt_mul_of_pos_right (by omega) hpos
      omega
    · omega

theorem groupCount_ge (g : Group) : (groupBytes use32bit g).length≤groupCount use32bit g ∧
      (510<g.1.length → (groupBytes use32bit g).length<groupCount use32bit g) := by
  obtain ⟨hle,hlt⟩ := splitCount_ge use32bit g.1 (splits g.1) le_rfl
  rw [length_groupBytes,groupCount]
  refine ⟨by omega,fun hlong => ?_⟩
  have htwo : 2 ≤ splits g.1 := by
    unfold splits
    omega
  omega

theorem groupCount_safe (h : g.1.length≤510) :
    groupCount use32bit g=(groupBytes use32bit g).length := by
  rw [length_groupBytes,groupCount]
  by_cases hlen : g.1.length≤255
  · rw [splits_eq_zero hlen]
    simp [splitCount]
  rw [splits_eq_one (by omega) h]
  have hcnt : splitCount use32bit g.1 1=assegmentSize (255*splits g.1) use32bit := by
    simp [splitCount]
  have hsize : assegmentSize (255*1) use32bit=2+255*1*asnSize use32bit := rfl
  rw [hcnt,splits_eq_one (by omega) h,hsize]
  omega

theorem length_le_count (gs : List Group) :
    (gs.flatMap (groupBytes use32bit)).length≤(gs.map (groupCount use32bit)).sum := by
  induction gs with
  | nil => exact le_rfl
  | cons g gs ih =>
    have hle := (groupCount_ge use32bit g).1
    rw [map_cons,sum_cons,flatMap_cons,length_append]
    omega

theorem short_of_count {use32bit : Bool}
    (h : (gs.map (groupCount use32bit)).sum=(gs.flatMap (groupBytes use32bit)).length) :
    ∀ g∈gs, g.1.length≤510 := by
  induction gs with
  | nil => exact fun g hg => absurd hg not_mem_nil
  | cons g gs ih =>
    obtain ⟨hle,hlt⟩ := groupCount_ge use32bit g
    have hrs := length_le_count use32bit gs
    rw [map_cons,sum_cons,flatMap_cons,length_append] at h
    intro x hx
    rcases mem_cons.mp hx with hx|hx
    · rw [hx]
      by_contra hlong
      omega
    · exact ih (by omega) x hx

theorem count_of_short {use32bit : Bool} (h : ∀ g∈gs, g.1.length≤510) :
    (gs.map (groupCount use32bit)).sum=(gs.flatMap (groupBytes use32bit)).length := by
  induction gs with
  | nil => rfl
  | cons g gs ih =>
    rw [map_cons,sum_cons,flatMap_cons,length_append,groupCount_safe use32bit (h g mem_cons_self),
      ih fun x hx => h x (.tail _ hx)]

theorem packedLength_concat (own start : ℕ) (packed : List Assegment) (last : Assegment) :
    packedLength own start (packed++[last])=own+last.length := by
  rw [packedLength,foldl_append]
  rfl

/-- A header that packs two segments announces too few AS numbers. -/
theorem packedLength_lt (hok : GroupOk g) (htwo : 2≤g.2.length) :
    0<packedLength g.1.length g.1.length g.2 ∧ packedLength g.1.length g.1.length g.2≤255 ∧
      packedLength g.1.length g.1.length g.2<(g.1.as++asnsOf g.2).length := by
  have hne : g.2≠[] := by
    intro he
    rw [he,length_nil] at htwo
    omega
  obtain ⟨first,last,hp⟩ : ∃ first last, g.2=first++[last] :=
    ⟨g.2.dropLast,g.2.getLast hne,(dropLast_append_getLast hne).symm⟩
  have hlast : last∈g.2 := by
    rw [hp]
    exact mem_append_right _ mem_cons_self
  have hmax := packable_length_le (hok.packed last hlast).1
  have hpos := hok.pos
  have hfst : 0<(asnsOf first).length := by
    cases first with
    | nil =>
      rw [hp] at htwo
      simp at htwo
    | cons x xs =>
      have hx : x∈g.2 := by
        rw [hp]
        exact mem_append_left _ mem_cons_self
      have hxpos : 0<x.as.length := (hok.packed x hx).2
      have hasns : asnsOf (x::xs)=x.as++asnsOf xs := flatMap_cons
      rw [hasns,length_append]
      omega
  have hasns : asnsOf g.2=asnsOf first++last.as := by
    rw [hp,asnsOf,flatMap_append,flatMap_singleton]
    rfl
  have hhdr : packedLength g.1.length g.1.length g.2=g.1.length+last.length := by
    rw [hp,packedLength_concat]
  rw [hhdr,hasns,length_append,length_append]
  unfold Assegment.length at *
  omega

/-- Behind a header that announces too few AS numbers stands a stray one. -/
theorem encode_stray (type : SegmentType) {as : List AsT} {n : ℕ} (hpos : 0<n) (hmax : n≤255)
    (hn : n<as.length) :
    ∃ seg a more, OnWire seg ∧ ∀ use32bit, encodeHeader type n++encodeAsns use32bit as =
      encodeSegment use32bit seg++(encodeAsn use32bit a++encodeAsns use32bit more) := by
  have htake : (as.take n).length=n := by
    rw [length_take]
    omega
  have hseg : (assegmentNew type (as.take n)).as=as.take n := assegmentNew_of_lt (by omega)
  have hlen : (assegmentNew type (as.take n)).length=n := by rw [Assegment.length,hseg,htake]
  obtain ⟨a,more,hdrop⟩ : ∃ a more, as.drop n=a::more := by
    apply exists_cons_of_length_pos
    rw [length_drop]
    omega
  refine ⟨assegmentNew type (as.take n),a,more,?_,fun use32bit => ?_⟩
  · rw [OnWire,hlen]
    exact ⟨hpos,hmax⟩
  have hcons : encodeAsn use32bit a++encodeAsns use32bit more =
      encodeAsns use32bit (as.drop n) := by
    rw [hdrop]
    exact flatMap_cons.symm
  rw [hcons,encodeSegment,hseg,hlen,append_assoc,←encodeAsns_append,take_append_drop]
  rfl

theorem groupBytes_stray (hok : GroupOk g) (htwo : 2≤g.2.length) :
    ∃ seg a more, OnWire seg ∧ ∀ use32bit, groupBytes use32bit g =
      encodeSegment use32bit seg++(encodeAsn use32bit a++encodeAsns use32bit more) := by
  have hshort : g.1.length≤255 := by
    obtain ⟨x,hx⟩ := exists_mem_of_length_pos (lt_of_lt_of_le zero_lt_two htwo)
    exact (Nat.le_add_right _ _).trans (packable_length_le (hok.packed x hx).1)
  obtain ⟨hpos,hmax,hlt⟩ := packedLength_lt hok htwo
  obtain ⟨seg,a,more,hseg,hbs⟩ := encode_stray g.1.type hpos hmax hlt
  refine ⟨seg,a,more,hseg,fun use32bit => ?_⟩
  rw [groupBytes_unsplit use32bit hshort,hbs]

/-- The first header that packs too much leaves a stray AS number that a format rejects. -/
theorem exists_stray (hok : ∀ g∈gs, GroupOk g)
    (hshort : ∀ g∈gs, g.1.length≤510) (htwo : ∃ g∈gs, 2≤g.2.length) :
    ∃ (use32bit : Bool) (a : AsT) (segs : List Assegment) (ys : List (BitVec 8)),
      (use32bit=true ↔ a.toNat<16777216) ∧ (∀ seg∈segs, OnWire seg) ∧
      gs.flatMap (groupBytes use32bit) =
        segs.flatMap (encodeSegment use32bit)++(encodeAsn use32bit a++ys) := by
  induction gs with
  | nil =>
    obtain ⟨g,hg,-⟩ := htwo
    cases hg
  | cons g gs ih =>
    by_cases hone : g.2.length≤1
    · have hrs : ∃ x∈gs, 2≤x.2.length := by
        obtain ⟨x,hx,hx2⟩ := htwo
        rcases mem_cons.mp hx with hx|hx
        · rw [hx] at hx2
          omega
        · exact ⟨x,hx,hx2⟩
      obtain ⟨use32bit,a,segs,ys,ha,hsegs,hbs⟩ := ih (fun x hx => hok x (.tail _ hx))
        (fun x hx => hshort x (.tail _ hx)) hrs
      have hgok := hok g mem_cons_self
      have hgsafe : GroupSafe g := ⟨hshort g mem_cons_self,hone⟩
      refine ⟨use32bit,a,wireGroup g++segs,ys,ha,?_,?_⟩
      · intro seg hseg
        rcases mem_append.mp hseg with hseg|hseg
        · exact onWire_wireGroup hgok hgsafe seg hseg
        · exact hsegs seg hseg
      rw [flatMap_cons,hbs,groupBytes_safe use32bit hgok hgsafe,flatMap_append,append_assoc]
    · obtain ⟨seg,a,more,hseg,hbs⟩ := groupBytes_stray (hok g mem_cons_self) (by omega)
      obtain ⟨use32bit,ha⟩ : ∃ b : Bool, b=true ↔ a.toNat<16777216 :=
        ⟨decide (a.toNat<16777216),decide_eq_true_iff⟩
      refine ⟨use32bit,a,[seg],encodeAsns use32bit more++gs.flatMap (groupBytes use32bit),ha,?_,?_⟩
      · intro x hx
        rw [mem_singleton.mp hx]
        exact hseg
      · rw [flatMap_cons,hbs,flatMap_singleton,append_assoc,append_assoc]

theorem length_le_flatMap (segs : List Assegment) :
    segs.length≤(segs.flatMap (encodeSegment use32bit)).length := by
  induction segs with
  | nil => exact le_rfl
  | cons seg segs ih =>
    rw [flatMap_cons,length_append,length_cons,length_encodeSegment]
    have hpos : 0<assegmentSize seg.length use32bit := lt_of_lt_of_le (by decide)
      (Nat.le_add_right asHeaderSize _)
    omega

theorem even_flatMap (segs : List Assegment) :
    (segs.flatMap (encodeSegment use32bit)).length%2=0 := by
  induction segs with
  | nil => rfl
  | cons seg segs ih =>
    rw [flatMap_cons,length_append,length_encodeSegment]
    have hsize : assegmentSize seg.length use32bit%2=0 := by
      unfold assegmentSize assegmentDataSize asHeaderSize
      split <;> omega
    omega

section

variable {use32bit : Bool} {segs : List Assegment}

theorem assegmentsParse_encoded (hsegs : ∀ seg∈segs, OnWire seg)
    (hrs : r.rest=segs.flatMap (encodeSegment use32bit)) :
    assegmentsParse r (segs.flatMap (encodeSegment use32bit)).length use32bit =
      some (assegmentNormalise (segs.map (mapAsns (wireAsn use32bit)))) := by
  have hreadable : r.readable=(segs.flatMap (encodeSegment use32bit)).length := by
    rw [←length_rest,hrs]
  have hle := length_le_flatMap use32bit segs
  have heven := even_flatMap use32bit segs
  generalize hlen : (segs.flatMap (encodeSegment use32bit)).length=length at *
  unfold assegmentsParse
  by_cases hz : length=0
  · have hnil : segs=[] := length_eq_zero_iff.mp (by omega)
    rw [if_pos hz,hnil]
    rfl
  have hcheck : ¬(r.readable<length ∨ r.readable<asHeaderSize ∨ length%2≠0) := by
    unfold asHeaderSize
    omega
  have hrs' : r.rest=segs.flatMap (encodeSegment use32bit)++[] := by rw [hrs,append_nil]
  have htotal : 0+r.rest.length=length := by
    rw [length_rest]
    omega
  obtain ⟨s',-,hloop⟩ := parseLoop_segments segs (length-segs.length+1) hsegs hrs' htotal
  have hfuel : length-segs.length+1+segs.length=length+1 := by omega
  rw [hfuel] at hloop
  have hstop : ¬length-([] : List (BitVec 8)).length<length := by
    rw [length_nil]
    omega
  rw [if_neg hz,if_neg hcheck,hloop,parseLoop,if_neg hstop,map_some,map_some,append_nil]

/-- A path with a byte in it that is no type is rejected. -/
theorem assegmentsParse_bad {c : BitVec 8} {zs : List (BitVec 8)} (hc : SegmentType.ofCode c=none)
    (hsegs : ∀ seg∈segs, OnWire seg) (hrs : r.rest=segs.flatMap (encodeSegment use32bit)++c::zs) :
    assegmentsParse r r.rest.length use32bit=none := by
  have htotal := congrArg length hrs
  rw [length_append,length_cons] at htotal
  have hle := length_le_flatMap use32bit segs
  have hz : ¬r.rest.length=0 := by omega
  unfold assegmentsParse
  rw [if_neg hz]
  split
  · rfl
  obtain ⟨s',hrs',hloop⟩ := parseLoop_segments segs (r.rest.length-segs.length+1) hsegs
    hrs (zero_add _)
  have hfuel : r.rest.length-segs.length+1+segs.length=r.rest.length+1 := by omega
  rw [hfuel] at hloop
  have hlen : r.rest.length-(c::zs).length+s'.rest.length=r.rest.length := by
    rw [hrs',length_cons]
    omega
  rw [hloop,parseLoop_bad hrs' hlen hc]
  rfl

theorem assegmentsParse_stray {a : AsT} {ys : List (BitVec 8)}
    (ha : use32bit=true ↔ a.toNat<16777216) (hsegs : ∀ seg∈segs, OnWire seg)
    (hrs : r.rest=segs.flatMap (encodeSegment use32bit)++(encodeAsn use32bit a++ys)) :
    assegmentsParse r r.rest.length use32bit=none := by
  obtain ⟨c,zs,hbs,hc⟩ := encodeAsn_stray ha
  rw [hbs] at hrs
  exact assegmentsParse_bad hc hsegs hrs

end

/-- `aspath_put` appends the bytes it reports, and they parse to the normalised path where it can be
expressed. -/
def RoundTrip (s : Stream) (segments : List Assegment) (use32bit : Bool) : Prop :=
  ∃ s' written, aspathPut s segments use32bit=some (s',written.length) ∧ s'.data=s.data++written ∧
    ∀ r : Stream, r.rest=written → assegmentsParse r written.length use32bit =
        some (assegmentNormalise (segments.map (mapAsns (wireAsn use32bit))))

/-- The paths `aspath_put` writes correctly. -/
structure PutSafe (segments : List Assegment) : Prop where
  short : ∀ seg∈segments, seg.length≤510
  one : ∀ g∈groups segments, g.2.length≤1

theorem mem_of_groups (hg : g∈groups segments) : g.1∈segments := by
  rw [←flatMap_groups segments]
  exact mem_flatMap.mpr ⟨g,hg,.head _⟩

theorem roundTrip_iff {use32bit : Bool} {s : Stream} (henc : Encodable segments)
    (hroom : roomOfPath segments ≤ s.writeable) :
    RoundTrip s segments use32bit ↔ ((groups segments).map (groupCount use32bit)).sum =
          ((groups segments).flatMap (groupBytes use32bit)).length ∧
        ∀ r : Stream, r.rest=(groups segments).flatMap (groupBytes use32bit) →
          assegmentsParse r r.rest.length use32bit =
            some (assegmentNormalise (segments.map (mapAsns (wireAsn use32bit)))) := by
  obtain ⟨s1,hrun,hput⟩ := aspathPut_eq use32bit henc hroom
  have hdata := (put_eq_some hput).1
  constructor
  · rintro ⟨s',written,hrun',hdata',hparse⟩
    rw [hrun] at hrun'
    obtain ⟨rfl,hcnt⟩ := Prod.mk.inj (some.inj hrun')
    have hwritten := append_cancel_left (hdata.symm.trans hdata')
    rw [hwritten]
    refine ⟨hcnt,fun r hr => ?_⟩
    rw [hr]
    exact hparse r hr
  · rintro ⟨hcnt,hparse⟩
    refine ⟨s1,_,by rw [hrun,hcnt],hdata,fun r hr => ?_⟩
    have hr' := hparse r hr
    rw [hr] at hr'
    exact hr'

theorem exists_stream (bytes : List (BitVec 8)) : ∃ r : Stream, r.rest=bytes :=
  ⟨⟨bytes,0,bytes.length,Nat.zero_le _,le_rfl⟩,rfl⟩

variable {s : Stream}

/-- Paths that survive both formats are written correctly. -/
theorem putSafe_of_roundTrip (henc : Encodable segments) (hroom : roomOfPath segments ≤ s.writeable)
    (h : ∀ use32bit, RoundTrip s segments use32bit) : PutSafe segments := by
  have hok := groups_ok henc
  have hheads := short_of_count _ ((roundTrip_iff henc hroom).mp (h true)).1
  refine ⟨fun seg hseg => ?_,fun g hg => ?_⟩
  · rw [←flatMap_groups segments] at hseg
    obtain ⟨g,hg,hseg⟩ := mem_flatMap.mp hseg
    rcases mem_cons.mp hseg with hseg|hseg
    · rw [hseg]
      exact hheads g hg
    have hle := packable_length_le ((hok g hg).packed seg hseg).1
    omega
  by_contra hmany
  obtain ⟨use32bit,a,segs,ys,ha,hsegs,hbs⟩ := exists_stray _ hok hheads ⟨g,hg,by omega⟩
  obtain ⟨r,hr⟩ := exists_stream ((groups segments).flatMap (groupBytes use32bit))
  have hparse := ((roundTrip_iff henc hroom).mp (h use32bit)).2 r hr
  rw [assegmentsParse_stray ha hsegs (hr.trans hbs)] at hparse
  cases hparse

theorem roundTrip_of_putSafe (henc : Encodable segments)
    (hroom : roomOfPath segments ≤ s.writeable) (hfit : RunsFit 0 segments)
    (h : PutSafe segments) (use32bit : Bool) : RoundTrip s segments use32bit := by
  have hok := groups_ok henc
  have hsafe : ∀ g∈groups segments, GroupSafe g := fun g hg =>
    ⟨h.short g.1 (mem_of_groups hg),h.one g hg⟩
  have hbs : (groups segments).flatMap (groupBytes use32bit) =
      ((groups segments).flatMap wireGroup).flatMap (encodeSegment use32bit) := by
    rw [flatMap_assoc]
    exact flatMap_congr fun g hg => groupBytes_safe use32bit (hok g hg) (hsafe g hg)
  refine (roundTrip_iff henc hroom).mpr
    ⟨count_of_short _ fun g hg => (hsafe g hg).short,fun r hr => ?_⟩
  have honwire : ∀ seg∈(groups segments).flatMap wireGroup, OnWire seg := by
    intro seg hseg
    obtain ⟨g,hg,hseg⟩ := mem_flatMap.mp hseg
    exact onWire_wireGroup (hok g hg) (hsafe g hg) seg hseg
  rw [hbs] at hr
  rw [hr,assegmentsParse_encoded honwire hr,assegmentNormalise_wire _ henc hsafe hfit]

/-- A path survives both formats unless a sequence is too long, a header packs too much, or a run
overflows. -/
theorem aspathPut_roundTrip (s : Stream) (segments : List Assegment) (henc : Encodable segments)
    (hroom : roomOfPath segments ≤ s.writeable) :
    ((∀ use32bit, RoundTrip s segments use32bit) → PutSafe segments) ∧
      (RunsFit 0 segments → (PutSafe segments ↔ ∀ use32bit, RoundTrip s segments use32bit)) :=
  ⟨putSafe_of_roundTrip henc hroom,fun hfit =>
    ⟨roundTrip_of_putSafe henc hroom hfit,putSafe_of_roundTrip henc hroom⟩⟩

/-- Adjacent sequences, a set with duplicates and a large AS number. -/
def samplePath : List Assegment :=
  [assegmentNew .asSequence [1,70000],assegmentNew .asSequence [2],
    assegmentNew .asSet [3,1,3],assegmentNew .asConfedSequence [65001]]

theorem aspathPut_roundTrip_samplePath :
    PutSafe samplePath ∧ ∀ use32bit, RoundTrip (streamNew 100) samplePath use32bit := by
  have henc : Encodable samplePath := ⟨by decide,by decide⟩
  have hsafe : PutSafe samplePath := ⟨by decide,by decide⟩
  exact ⟨hsafe,((aspathPut_roundTrip (streamNew 100) samplePath henc (by decide)).2
    (by decide)).mp hsafe⟩

/-- Three adjacent sequences of one AS number each. -/
def threeSequences : List Assegment :=
  [assegmentNew .asSequence [1],assegmentNew .asSequence [2],assegmentNew .asSequence [3]]

/-- The header announces two of the three AS numbers; the path is rejected. -/
theorem aspathPut_threeSequences :
    Encodable threeSequences ∧ roomOfPath threeSequences≤(streamNew 100).writeable ∧
      ¬RoundTrip (streamNew 100) threeSequences true := by
  refine ⟨⟨by decide,by decide⟩,by decide,?_⟩
  rintro ⟨s',written,hrun,hdata,hparse⟩
  have hbytes : (aspathPut (streamNew 100) threeSequences true).map (fun r => r.1.data) =
      some [2,2,0,0,0,1,0,0,0,2,0,0,0,3] := by decide
  rw [hrun,map_some,hdata] at hbytes
  have hwritten : written=[2,2,0,0,0,1,0,0,0,2,0,0,0,3] := some.inj hbytes
  subst hwritten
  have hbad := hparse ⟨[2,2,0,0,0,1,0,0,0,2,0,0,0,3],0,14,by decide,by decide⟩ rfl
  revert hbad
  decide

end RoutePlatform.AsPathRoundTrip
