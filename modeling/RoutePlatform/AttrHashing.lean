import RoutePlatform.HashOperations
import RoutePlatform.BestPathOperations
import RoutePlatform.PrefixBytes

/-!
# Hash keys of path attributes

`attrhash_key_make` and `attrhash_cmp` of `bgpd/bgp_attr.c`, with the keys of the
objects an attribute points at and the hash of `lib/jhash.c`. The comparison
looks at pointers where the key looks at what they point at. The build is the
one with `HAVE_IPV6`.
-/

namespace RoutePlatform.AttrHashing

open HashOperations AsPathOperations PrefixBytes
open StreamOperations (bytes32)
open BestPathOperations (aspathCmp aspathCmp_iff)

/-- The eight bytes of a word. -/
def bytes64 (l : BitVec 64) : List (BitVec 8) :=
  bytes32 ((l >>> 32).setWidth 32)++bytes32 (l.setWidth 32)

def jhashMix (a b c : BitVec 32) : BitVec 32 × BitVec 32 × BitVec 32 :=
  let a := (a-b-c) ^^^ (c >>> 13)
  let b := (b-c-a) ^^^ (a <<< 8)
  let c := (c-a-b) ^^^ (b >>> 13)
  let a := (a-b-c) ^^^ (c >>> 12)
  let b := (b-c-a) ^^^ (a <<< 16)
  let c := (c-a-b) ^^^ (b >>> 5)
  let a := (a-b-c) ^^^ (c >>> 3)
  let b := (b-c-a) ^^^ (a <<< 10)
  let c := (c-a-b) ^^^ (b >>> 15)
  (a,b,c)

def jhashGoldenRatio : BitVec 32 := 0x9e3779b9

/-- Four bytes, the first one lowest; a byte that is not there is zero. -/
def littleEndian (k0 k1 k2 k3 : BitVec 8) : BitVec 32 :=
  k0.setWidth 32+k1.setWidth 32 <<< 8+k2.setWidth 32 <<< 16+k3.setWidth 32 <<< 24

/-- The end of `jhash`, which does not use the lowest byte of the third word. -/
def jhashEnd (length : BitVec 32) (k : List (BitVec 8)) (a b c : BitVec 32) : BitVec 32 :=
  let c := c+length+littleEndian 0 (k.getD 8 0) (k.getD 9 0) (k.getD 10 0)
  let b := b+littleEndian (k.getD 4 0) (k.getD 5 0) (k.getD 6 0) (k.getD 7 0)
  let a := a+littleEndian (k.getD 0 0) (k.getD 1 0) (k.getD 2 0) (k.getD 3 0)
  (jhashMix a b c).2.2

def jhashLoop (length : BitVec 32) : List (BitVec 8)→BitVec 32→BitVec 32→BitVec 32→BitVec 32
  | k0::k1::k2::k3::k4::k5::k6::k7::k8::k9::k10::k11::k, a, b, c =>
    let (a,b,c) := jhashMix (a+littleEndian k0 k1 k2 k3) (b+littleEndian k4 k5 k6 k7)
      (c+littleEndian k8 k9 k10 k11)
    jhashLoop length k a b c
  | k, a, b, c => jhashEnd length k a b c

def jhash (key : List (BitVec 8)) (initval : BitVec 32) : BitVec 32 :=
  jhashLoop (BitVec.ofNat 32 key.length) key jhashGoldenRatio jhashGoldenRatio initval

def jhash3words (a b c initval : BitVec 32) : BitVec 32 :=
  (jhashMix (a+jhashGoldenRatio) (b+jhashGoldenRatio) (c+initval)).2.2

def jhash1word (a initval : BitVec 32) : BitVec 32 := jhash3words a 0 0 initval

/-- `aspath_delimiter_char`, before and behind a segment. -/
def aspathDelimiterChar : SegmentType→List Char × List Char
  | .asSet => (['\x7b'],['\x7d'])
  | .asConfedSet => (['['],[']'])
  | .asConfedSequence => (['('],[')'])
  | .asSequence => ([],[])

/-- The character between two AS numbers. -/
def separator : SegmentType→Char
  | .asSet | .asConfedSet => ','
  | .asSequence | .asConfedSequence => ' '

/-- One segment in `aspath_make_str_count`. -/
def segmentStr (seg : Assegment) : List Char :=
  let delimiters := aspathDelimiterChar seg.type
  let asns := seg.as.map fun a => Nat.toDigits 10 a.toNat
  delimiters.1++(asns.intersperse [separator seg.type]).flatten++delimiters.2

def aspathMakeStrCount (segments : List Assegment) : List Char :=
  ((segments.map segmentStr).intersperse [' ']).flatten

def aspathKeyMake (segments : List Assegment) : BitVec 32 :=
  jhash ((aspathMakeStrCount segments).map fun c => BitVec.ofNat 8 c.toNat) 2334325

def byteSum (bytes : List (BitVec 8)) : BitVec 32 := bytes.foldl (fun key b => key+b.setWidth 32) 0

def communityHashMake (val : List (BitVec 32)) : BitVec 32 := byteSum (val.flatMap bytes32)

def ecommunityHashMake (val : List (BitVec 64)) : BitVec 32 := byteSum (val.flatMap bytes64)

def clusterHashKeyMake (list : List (BitVec 32)) : BitVec 32 := jhash (list.flatMap bytes32) 0

def transitHashKeyMake (val : List (BitVec 8)) : BitVec 32 := jhash val 0

inductive Kind where
  | aspath
  | community
  | ecommunity
  | cluster
  | transit
  deriving DecidableEq

/-- What such an object holds, other than its counter. -/
def Content : Kind→Type
  | .aspath => List Assegment
  | .community => List (BitVec 32)
  | .ecommunity => List (BitVec 64)
  | .cluster => List (BitVec 32)
  | .transit => List (BitVec 8)

/-- The key function of its table. -/
def subKey : (k : Kind) → Content k → BitVec 32
  | .aspath => aspathKeyMake
  | .community => communityHashMake
  | .ecommunity => ecommunityHashMake
  | .cluster => clusterHashKeyMake
  | .transit => transitHashKeyMake

/-- The comparison of its table, as `aspath_cmp` or `community_cmp`. -/
def subCmp : (k : Kind) → Content k → Content k → Bool
  | .aspath => aspathCmp
  | .community => fun (val1 val2 : List (BitVec 32)) => val1 == val2
  | .ecommunity => fun (val1 val2 : List (BitVec 64)) => val1 == val2
  | .cluster => fun (list1 list2 : List (BitVec 32)) => list1 == list2
  | .transit => fun (val1 val2 : List (BitVec 8)) => val1 == val2

structure AttrExtra where
  mpNexthopGlobal : Address
  mpNexthopLocal : Address
  ecommunity : Option ℕ
  cluster : Option ℕ
  transit : Option ℕ
  mpNexthopGlobalIn : BitVec 32
  mpNexthopLocalIn : BitVec 32
  aggregatorAddr : BitVec 32
  originatorId : BitVec 32
  weight : BitVec 32
  aggregatorAs : BitVec 32
  mpNexthopLen : BitVec 8

/-- `struct attr` without its counter. -/
structure Attr where
  aspath : Option ℕ
  community : Option ℕ
  extra : Option AttrExtra
  flag : BitVec 32
  nexthop : BitVec 32
  med : BitVec 32
  localPref : BitVec 32
  origin : BitVec 8

/-- The pointer of an attribute to an object of a kind. -/
def Attr.sub (attr : Attr) : Kind→Option ℕ
  | .aspath => attr.aspath
  | .community => attr.community
  | .ecommunity => attr.extra.bind AttrExtra.ecommunity
  | .cluster => attr.extra.bind AttrExtra.cluster
  | .transit => attr.extra.bind AttrExtra.transit

def Attr.setSub (attr : Attr) (k : Kind) (p : Option ℕ) : Attr :=
  match k with
  | .aspath => {attr with aspath := p}
  | .community => {attr with community := p}
  | .ecommunity => {attr with extra := attr.extra.map fun e => {e with ecommunity := p}}
  | .cluster => {attr with extra := attr.extra.map fun e => {e with cluster := p}}
  | .transit => {attr with extra := attr.extra.map fun e => {e with transit := p}}

/-- What the pointers of attributes point at. -/
abbrev Heap := (k : Kind) → ℕ→Option (Content k)

/-- `MIX` of the key of an object, when there is one. -/
def mixSub (heap : Heap) (attr : Attr) (k : Kind) (key : BitVec 32) : BitVec 32 :=
  match (attr.sub k).bind (heap k) with
  | some x => jhash1word (subKey k x) key
  | none => key

/-- The words of the addresses and numbers that come first. -/
def mixWords (words : List (BitVec 32)) (key : BitVec 32) : BitVec 32 :=
  words.foldl (fun key val => jhash1word val key) key

def attrhashKeyMake (heap : Heap) (attr : Attr) : BitVec 32 :=
  let origin := attr.origin.setWidth 32
  let key := mixWords [origin,attr.nexthop,attr.med,attr.localPref] 0
  let key := key+origin+attr.nexthop+attr.med+attr.localPref
  let key := match attr.extra with
    | some extra => mixWords [extra.aggregatorAs,extra.aggregatorAddr,extra.weight,
        extra.mpNexthopGlobalIn,extra.originatorId] key
    | none => key
  let key := mixSub heap attr .community (mixSub heap attr .aspath key)
  match attr.extra with
  | some extra =>
    let key := mixSub heap attr .transit
      (mixSub heap attr .cluster (mixSub heap attr .ecommunity key))
    let key := jhash1word (extra.mpNexthopLen.setWidth 32) key
    let key := jhash (List.ofFn extra.mpNexthopGlobal) key
    jhash (List.ofFn extra.mpNexthopLocal) key
  | none => key

/-- The comparison of two `struct attr_extra`. -/
def extraCmp (ae1 ae2 : AttrExtra) : Bool :=
  ae1.aggregatorAs=ae2.aggregatorAs && ae1.aggregatorAddr=ae2.aggregatorAddr &&
    ae1.weight=ae2.weight && ae1.mpNexthopLen=ae2.mpNexthopLen &&
    ae1.mpNexthopGlobal=ae2.mpNexthopGlobal && ae1.mpNexthopLocal=ae2.mpNexthopLocal &&
    ae1.mpNexthopGlobalIn=ae2.mpNexthopGlobalIn && ae1.ecommunity=ae2.ecommunity &&
    ae1.cluster=ae2.cluster && ae1.transit=ae2.transit &&
    ae1.originatorId=ae2.originatorId

def attrhashCmp (attr1 attr2 : Attr) : Bool :=
  if attr1.flag=attr2.flag && attr1.origin=attr2.origin && attr1.nexthop=attr2.nexthop &&
      attr1.aspath=attr2.aspath && attr1.community=attr2.community &&
      attr1.med=attr2.med && attr1.localPref=attr2.localPref then
    match attr1.extra, attr2.extra with
    | some ae1, some ae2 => extraCmp ae1 ae2
    | none, none => true
    | _, _ => false
  else false

theorem subCmp_iff (k : Kind) (x y : Content k) : subCmp k x y=true ↔ x=y := by
  cases k with
  | aspath => exact aspathCmp_iff x y
  | community => exact beq_iff_eq (α := List (BitVec 32))
  | ecommunity => exact beq_iff_eq (α := List (BitVec 64))
  | cluster => exact beq_iff_eq (α := List (BitVec 32))
  | transit => exact beq_iff_eq (α := List (BitVec 8))

theorem subFunctions (k : Kind) : HashFunctions (subKey k) (subCmp k) where
  equivalent :=
    { refl := fun x => (subCmp_iff k x x).mpr rfl
      symm := fun h => (subCmp_iff k _ _).mpr ((subCmp_iff k _ _).mp h).symm
      trans := fun h h' => (subCmp_iff k _ _).mpr
        (((subCmp_iff k _ _).mp h).trans ((subCmp_iff k _ _).mp h')) }
  key x y h := by rw [(subCmp_iff k x y).mp h]

/-- The part of `struct attr_extra` that is compared. -/
def AttrExtra.compared (e : AttrExtra) : AttrExtra := {e with mpNexthopLocalIn := 0}

/-- The part of `struct attr` that is compared. -/
def Attr.compared (attr : Attr) : Attr := {attr with extra := attr.extra.map AttrExtra.compared}

theorem extraCmp_iff (ae1 ae2 : AttrExtra) : extraCmp ae1 ae2=true ↔ ae1.compared=ae2.compared := by
  unfold extraCmp AttrExtra.compared
  simp only [Bool.and_eq_true,decide_eq_true_eq,AttrExtra.mk.injEq]
  tauto

theorem attrhashCmp_iff (attr1 attr2 : Attr) :
    attrhashCmp attr1 attr2=true ↔ attr1.compared=attr2.compared := by
  unfold attrhashCmp Attr.compared
  simp only [Bool.and_eq_true,decide_eq_true_eq,Attr.mk.injEq]
  cases h1 : attr1.extra <;> cases h2 : attr2.extra
  · simp
    tauto
  · simp
  · simp
  simp only [Option.map_some,Option.some.injEq,←extraCmp_iff]
  split
  · tauto
  refine iff_of_false Bool.false_ne_true ?_
  tauto

variable (attr : Attr)

theorem Attr.sub_compared (k : Kind) : attr.compared.sub k=attr.sub k := by
  cases k
  · rfl
  · rfl
  all_goals
    change (attr.extra.map AttrExtra.compared).bind _=attr.extra.bind _
    cases attr.extra <;> rfl

theorem sub_eq_of_attrhashCmp {attr1 attr2 : Attr} (h : attrhashCmp attr1 attr2=true)
    (k : Kind) : attr1.sub k=attr2.sub k := by
  rw [←attr1.sub_compared k,(attrhashCmp_iff attr1 attr2).mp h,attr2.sub_compared k]

variable (heap : Heap)

theorem attrhashKeyMake_compared (attr : Attr) :
    attrhashKeyMake heap attr.compared=attrhashKeyMake heap attr := by
  unfold attrhashKeyMake
  cases attr with
  | mk aspath community extra flag nexthop med localPref origin => cases extra <;> rfl

theorem attrFunctions : HashFunctions (attrhashKeyMake heap) attrhashCmp where
  equivalent :=
    { refl := fun a => (attrhashCmp_iff a a).mpr rfl
      symm := fun h => (attrhashCmp_iff _ _).mpr ((attrhashCmp_iff _ _).mp h).symm
      trans := fun h h' => (attrhashCmp_iff _ _).mpr
        (((attrhashCmp_iff _ _).mp h).trans ((attrhashCmp_iff _ _).mp h')) }
  key a b h := by
    rw [←attrhashKeyMake_compared heap a,(attrhashCmp_iff a b).mp h,attrhashKeyMake_compared heap b]

theorem attrhashKeyMake_congr {heap heap' : Heap} {attr : Attr}
    (h : ∀ k p, attr.sub k=some p → heap' k p=heap k p) :
    attrhashKeyMake heap' attr=attrhashKeyMake heap attr := by
  have hmix : ∀ k key, mixSub heap' attr k key=mixSub heap attr k key := by
    intro k key
    rw [mixSub,mixSub]
    cases hsub : attr.sub k with
    | none => rfl
    | some p => rw [Option.bind_some,Option.bind_some,h k p hsub]
  unfold attrhashKeyMake
  simp only [hmix]

theorem Attr.sub_setSub_of_ne {k k' : Kind} (hk : k'≠k) (p : Option ℕ) :
    (attr.setSub k p).sub k'=attr.sub k' := by
  cases k <;> cases k' <;> first | exact absurd rfl hk | rfl |
    (unfold Attr.setSub Attr.sub; cases attr.extra <;> rfl)

theorem Attr.sub_setSub {k : Kind} {p q : ℕ} (hp : attr.sub k=some p) (k' : Kind) :
    (attr.setSub k (some q)).sub k'=if k'=k then some q else attr.sub k' := by
  by_cases hk : k'=k
  · subst hk
    rw [if_pos rfl]
    cases k' <;> first | rfl | (revert hp; unfold Attr.setSub Attr.sub; cases attr.extra <;> simp)
  · rw [if_neg hk,attr.sub_setSub_of_ne hk]

theorem Attr.setSub_sub {k : Kind} {p : ℕ} (hp : attr.sub k=some p) :
    attr.setSub k (some p)=attr := by
  cases attr with
  | mk aspath community extra flag nexthop med localPref origin =>
    cases k <;> unfold Attr.sub at hp <;> unfold Attr.setSub <;> dsimp only at hp ⊢
    · rw [hp]
    · rw [hp]
    all_goals
      cases extra with
      | none => rfl
      | some e =>
        cases e
        cases hp
        rfl

end RoutePlatform.AttrHashing
