import Mathlib.Data.List.Perm.Subperm
import Mathlib.Data.Prod.Lex
import Mathlib.Data.BitVec
import Mathlib.Tactic.Linarith

/-!
# The choice of AS external routes in `ospfd`

`ospf_ase_calculate_route` compares the route of an LSA with the stored one. Whatever the outcome,
it records the ASBR route of the LSA in the stored route; and a forwarding address completes the
direct next hops of other LSAs, too.
-/

namespace RoutePlatform.ExternalRoutes

open List

abbrev U32 := BitVec 32

structure OspfPath where
  nexthop : U32
  advRouter : U32
  ifindex : U32
deriving DecidableEq

/-- `struct ospf_route` of an ASBR or a network inside of the AS. -/
structure StdRoute where
  pathType : ℕ
  cost : U32
  areaId : U32
  flags : BitVec 8
  paths : List OspfPath
deriving DecidableEq

/-- `struct ospf_route` of a destination outside of the AS. -/
structure ExtRoute where
  pathType : ℕ
  cost : U32
  type2Cost : U32
  asbr : StdRoute
  paths : List OspfPath
deriving DecidableEq

/-- `struct ospf_lsa` of an AS-external-LSA for the prefix. -/
structure ExternalLsa where
  localXlt : Bool
  maxage : Bool
  self : Bool
  advRouter : U32
  tos : BitVec 8
  metric : BitVec 24
  fwdAddr : U32

/-- `struct ospf_interface`. -/
structure Interface where
  operative : Bool
  virtualLink : Bool
  address : U32

structure PrefixIpv4 where
  address : U32
  prefixlen : ℕ

/-- The prefix, the configuration and the tables that the calculation reads. -/
structure Tables where
  p : PrefixIpv4
  rfc1583 : Bool
  oiflist : List Interface
  newRtrs : U32→List StdRoute
  newTable : List (PrefixIpv4×StdRoute)

def ospfLsInfinity : U32 := 0xffffff

def ospfPathIntraArea : ℕ := 1

def ospfPathInterArea : ℕ := 2

def ospfPathType1External : ℕ := 3

def ospfPathType2External : ℕ := 4

/-- `ospf_find_asbr_route` among the entries of the router. -/
def ospfFindAsbrRoute (rfc1583 : Bool) (entries : List StdRoute) : Option StdRoute :=
  let chosen := entries.filter fun or => !rfc1583 && or.cost<ospfLsInfinity &&
    or.areaId≠0 && or.pathType=ospfPathIntraArea
  let chosen := if chosen=[] then entries else chosen
  chosen.foldl (fun best or =>
    if or.cost<ospfLsInfinity then
      match best with
      | none => some or
      | some b => if b.cost>or.cost ∨ b.cost=or.cost ∧ b.areaId<or.areaId then some or else some b
    else best) none

def ospfAseForwardAddressCheck (oiflist : List Interface) (fwdAddr : U32) : Bool :=
  oiflist.all fun oi => !(oi.operative && !oi.virtualLink && oi.address=fwdAddr)

/-- `prefix_match` with an address. -/
def prefixMatch (n : PrefixIpv4) (address : U32) : Bool :=
  n.address >>> (32-n.prefixlen)=address >>> (32-n.prefixlen)

/-- `route_node_match`: the longest prefix of the table that contains the address. -/
def routeNodeMatch (table : List (PrefixIpv4×StdRoute)) (address : U32) : Option StdRoute :=
  ((table.filter fun e => prefixMatch e.1 address).foldl (fun (best : Option _) e =>
    if best.all fun b => b.1.prefixlen<e.1.prefixlen then some e else best) none).map Prod.snd

def routeNodeLookup (table : List (PrefixIpv4×StdRoute)) (p : PrefixIpv4) : Option StdRoute :=
  (table.find? fun e => e.1.prefixlen=p.prefixlen && prefixMatch e.1 p.address).map Prod.snd

/-- `ospf_ase_calculate_route` up to step (4): the route to the ASBR or the forwarding address. -/
def asbrRoute (T : Tables) (lsa : ExternalLsa) : Option StdRoute :=
  if lsa.localXlt || lsa.metric.setWidth 32≥ospfLsInfinity || lsa.maxage || lsa.self then none
  else match ospfFindAsbrRoute T.rfc1583 (T.newRtrs lsa.advRouter) with
    | none => none
    | some asbr =>
      if asbr.flags &&& 2=0 then none
      else if lsa.fwdAddr=0 then some asbr
      else if ospfAseForwardAddressCheck T.oiflist lsa.fwdAddr then
        routeNodeMatch T.newTable lsa.fwdAddr
      else none

def ospfAseCalculateNewRoute (lsa : ExternalLsa) (asbr : StdRoute) : ExtRoute :=
  if lsa.tos &&& 0x80=0 then
    {pathType := ospfPathType1External, cost := asbr.cost+lsa.metric.setWidth 32, type2Cost := 0,
      asbr, paths := []}
  else
    {pathType := ospfPathType2External, cost := asbr.cost, type2Cost := lsa.metric.setWidth 32,
      asbr, paths := []}

/-- The path type that `ospf_asbr_route_cmp` compares. -/
def asbrType (r : StdRoute) : ℕ := if r.areaId=0 then ospfPathInterArea else r.pathType

def ospfAsbrRouteCmp (r1 r2 : StdRoute) : ℤ := (asbrType r1 : ℤ)-asbrType r2

/-- `ospf_route_cmp` of external routes. -/
def ospfRouteCmp (rfc1583 : Bool) (r1 r2 : ExtRoute) : ℤ :=
  if r1.pathType≠r2.pathType then (r1.pathType : ℤ)-r2.pathType
  else if r1.pathType=ospfPathType2External ∧ (r1.type2Cost-r2.type2Cost).toInt≠0 then
    (r1.type2Cost-r2.type2Cost).toInt
  else if !rfc1583 ∧ ospfAsbrRouteCmp r1.asbr r2.asbr≠0 then
    ospfAsbrRouteCmp r1.asbr r2.asbr
  else (r1.cost-r2.cost).toInt

def ospfRouteCopyNexthops (dst paths : List OspfPath) : List OspfPath :=
  paths.foldl (fun dst path => if path∈dst then dst else dst++[path]) dst

/-- A turn of `ospf_ase_complete_direct_routes`. -/
def completeDirect (nexthop : U32) (op : OspfPath) : OspfPath :=
  if op.nexthop=0 then {op with nexthop} else op

/-- The next hops of `asbr_route` are copied and completed with the forwarding address. -/
def addPaths (new : ExtRoute) (fwdAddr : U32) (dst : List OspfPath) : List OspfPath :=
  let dst := ospfRouteCopyNexthops dst new.asbr.paths
  if fwdAddr≠0 then dst.map (completeDirect fwdAddr) else dst

/-- Step (5): the route of an LSA and its forwarding address, unless the prefix is in the AS. -/
def newRoute (T : Tables) (lsa : ExternalLsa) : Option (ExtRoute×U32) :=
  if (routeNodeLookup T.newTable T.p).isSome then none
  else (asbrRoute T lsa).map fun asbr => (ospfAseCalculateNewRoute lsa asbr,lsa.fwdAddr)

/-- Step (6): the stored route is compared with the new one. -/
def compareRoute (rfc1583 : Bool) (or : Option ExtRoute) (new : ExtRoute×U32) : Option ExtRoute :=
  match or with
  | none => some {new.1 with paths := addPaths new.1 new.2 new.1.paths}
  | some or =>
    let ret := ospfRouteCmp rfc1583 new.1 or
    let or :=
      if ret<0 then {new.1 with paths := addPaths new.1 new.2 new.1.paths}
      else if ret>0 then or
      else {or with paths := addPaths new.1 new.2 or.paths}
    -- the record of the ASBR is written in each case
    some {or with asbr := new.1.asbr}

/-- `ospf_ase_calculate_route`, on the route that `new_external_route` has for the prefix. -/
def ospfAseCalculateRoute (T : Tables) (or : Option ExtRoute) (lsa : ExternalLsa) :
    Option ExtRoute :=
  match newRoute T lsa with
  | some new => compareRoute T.rfc1583 or new
  | none => or

/-- The LSAs are taken in order. -/
def calculateRoutes (T : Tables) (lsas : List ExternalLsa) : Option ExtRoute :=
  lsas.foldl (ospfAseCalculateRoute T) none

/-- The routes of the individual LSAs. -/
def candidates (T : Tables) (lsas : List ExternalLsa) : List (ExtRoute×U32) :=
  lsas.filterMap (newRoute T)

/-- Two routes agree but for the order of their next hops. -/
structure SameRoute (r r' : ExtRoute) : Prop where
  pathType : r.pathType=r'.pathType
  cost : r.cost=r'.cost
  type2Cost : r.type2Cost=r'.type2Cost
  paths : ∀ p, p∈r.paths ↔ p∈r'.paths

/-- The route has the type and costs of a minimal one. -/
def Minimal (T : Tables) (lsas : List ExternalLsa) (r : ExtRoute) : Prop :=
  ∃ c∈candidates T lsas, r.pathType=c.1.pathType ∧ r.cost=c.1.cost ∧ r.type2Cost=c.1.type2Cost ∧
    ∀ c'∈candidates T lsas, ospfRouteCmp T.rfc1583 c.1 c'.1≤0

/-- All orders of the LSAs leave the same minimal route, if there is a candidate. -/
def OrderFree (T : Tables) (lsas : List ExternalLsa) : Prop :=
  ∃ o, (o=none ↔ candidates T lsas=[]) ∧ (∀ r∈o, Minimal T lsas r) ∧
    ∀ l, l ~ lsas → Option.Rel SameRoute (calculateRoutes T l) o

/-- Only the costs of such routes are compared. -/
def CostsCompared (r1 r2 : ExtRoute) : Prop :=
  r1.pathType=r2.pathType ∧ r1.type2Cost=r2.type2Cost

instance (r1 r2 : ExtRoute) : Decidable (CostsCompared r1 r2) :=
  inferInstanceAs (Decidable (_ ∧ _))

/-- Costs compare without overflow, no record of a third LSA changes a comparison, and no forwarding
address completes the next hops of an equal route. -/
structure Undisturbed (rfc1583 : Bool) (C : List (ExtRoute×U32)) : Prop where
  near : ∀ c∈C, ∀ c'∈C, CostsCompared c.1 c'.1 → c.1.cost.toNat<c'.1.cost.toNat+2^31
  recorded : ∀ s d c, [s,d,c] <+~ C → 0≤ospfRouteCmp rfc1583 d.1 s.1 →
    (ospfRouteCmp rfc1583 c.1 {s.1 with asbr := d.1.asbr}).sign =
      (ospfRouteCmp rfc1583 c.1 s.1).sign
  direct : ∀ c∈C, ∀ c'∈C, ospfRouteCmp rfc1583 c.1 c'.1=0 → c.2=0 → c'.2≠0 →
    ∀ p∈c.1.asbr.paths, p.nexthop≠0

/-- A new route is of type 1 without, or of type 2 with a type 2 cost below infinity. -/
def External (r : ExtRoute) : Prop :=
  r.pathType=ospfPathType1External ∧ r.type2Cost=0 ∨
    r.pathType=ospfPathType2External ∧ r.type2Cost.toNat<2^24

variable {c : ExtRoute×U32}

theorem external_newRoute {T : Tables} {lsa : ExternalLsa} (h : newRoute T lsa=some c) :
    External c.1 ∧ c.1.paths=[] := by
  rw [newRoute] at h
  split at h
  · cases h
  · obtain ⟨asbr,-,rfl⟩ := Option.map_eq_some_iff.mp h
    dsimp only [ospfAseCalculateNewRoute]
    split
    · exact ⟨.inl ⟨rfl,rfl⟩,rfl⟩
    · refine ⟨.inr ⟨rfl,?_⟩,rfl⟩
      exact (BitVec.toNat_setWidth_of_le (by omega)).trans_lt lsa.metric.isLt

/-- The order that `ospf_route_cmp` computes. -/
def rank (rfc1583 : Bool) (r : ExtRoute) : ℕ ×ₗ ℕ ×ₗ ℕ ×ₗ ℕ :=
  toLex (r.pathType,toLex (r.type2Cost.toNat,
    toLex (if rfc1583 then 0 else asbrType r.asbr,r.cost.toNat)))

theorem toInt_sub_near {a b : U32} (hab : a.toNat<b.toNat+2^31) (hba : b.toNat<a.toNat+2^31) :
    (a-b).toInt=(a.toNat : ℤ)-b.toNat := by
  have ha := a.isLt
  have hb := b.isLt
  rw [BitVec.toInt_eq_toNat_cond,BitVec.toNat_sub]
  split <;> omega

variable {rfc1583 : Bool} {r1 r2 : ExtRoute}

theorem ospfRouteCmp_rank (h1 : External r1) (h2 : External r2)
    (hab : CostsCompared r1 r2 → r1.cost.toNat<r2.cost.toNat+2^31)
    (hba : CostsCompared r2 r1 → r2.cost.toNat<r1.cost.toNat+2^31) :
    (ospfRouteCmp rfc1583 r1 r2<0 ↔ rank rfc1583 r1<rank rfc1583 r2) ∧
      (ospfRouteCmp rfc1583 r1 r2=0 ↔ rank rfc1583 r1=rank rfc1583 r2) := by
  have hty2 : r1.type2Cost.toNat<2^24 ∧ r2.type2Cost.toNat<2^24 := by
    rcases h1 with ⟨-,h1⟩|⟨-,h1⟩ <;> rcases h2 with ⟨-,h2⟩|⟨-,h2⟩ <;> simp_all
  have hcost2 := toInt_sub_near (a := r1.type2Cost) (b := r2.type2Cost) (by omega) (by omega)
  have hz : r1.pathType=r2.pathType → r1.pathType≠ospfPathType2External →
      r1.type2Cost.toNat=r2.type2Cost.toNat := by
    intro heq hne
    rcases h1 with ⟨-,h1⟩|⟨h1,-⟩ <;> rcases h2 with ⟨-,h2⟩|⟨h2,-⟩ <;> simp_all
  rw [ospfRouteCmp,hcost2]
  simp only [rank,Prod.Lex.toLex_lt_toLex,toLex_inj,Prod.mk.injEq,ospfAsbrRouteCmp]
  by_cases hty : r1.pathType=r2.pathType
  · by_cases hsame : r1.type2Cost=r2.type2Cost
    · rw [toInt_sub_near (hab ⟨hty,hsame⟩) (hba ⟨hty.symm,hsame.symm⟩)]
      by_cases h4 : r1.pathType=ospfPathType2External <;> cases rfc1583 <;>
        simp [hty] <;> split_ifs <;> omega
    · have hne : r1.type2Cost.toNat≠r2.type2Cost.toNat := fun h => hsame (BitVec.eq_of_toNat_eq h)
      have h4 : r1.pathType=ospfPathType2External := by
        by_contra h4
        exact hne (hz hty h4)
      rw [if_neg (not_not.mpr hty),if_pos ⟨h4,by omega⟩]
      constructor <;> omega
  · rw [if_pos hty]
    constructor <;> omega

variable {dst : List OspfPath} {p : OspfPath}

theorem mem_ospfRouteCopyNexthops (paths : List OspfPath) :
    p∈ospfRouteCopyNexthops dst paths ↔ p∈dst ∨ p∈paths := by
  rw [ospfRouteCopyNexthops]
  induction paths generalizing dst with
  | nil => simp
  | cons q paths ih =>
    rw [foldl_cons,ih]
    split
    · rename_i hq
      constructor
      · rintro (h|h)
        exacts [.inl h,.inr (mem_cons_of_mem _ h)]
      · rintro (h|h)
        · exact .inl h
        · rcases mem_cons.mp h with rfl|h
          exacts [.inl hq,.inr h]
    · rw [mem_append,mem_singleton,mem_cons,or_assoc]

@[simp] theorem completeDirect_zero (op : OspfPath) : completeDirect 0 op=op := by
  rw [completeDirect]
  split
  · rename_i h
    rw [←h]
  · rfl

theorem mem_addPaths {new : ExtRoute} {fwdAddr : U32} (hdst : fwdAddr≠0 → ∀ q∈dst, q.nexthop≠0) :
    p∈addPaths new fwdAddr dst ↔ p∈dst ∨ p∈new.asbr.paths.map (completeDirect fwdAddr) := by
  rw [addPaths]
  split
  · rename_i hne
    have hself : dst.map (completeDirect fwdAddr)=dst :=
      (map_congr_left fun q hq => if_neg (hdst hne q hq)).trans (map_id' dst)
    simp only [mem_map,mem_ospfRouteCopyNexthops,or_and_right,exists_or]
    rw [←mem_map,hself]
  · rename_i hz
    rw [not_not.mp hz,mem_ospfRouteCopyNexthops,map_congr_left fun q _ => completeDirect_zero q,
      map_id']

/-- The next hops that an LSA brings in. -/
def hops (c : ExtRoute×U32) : List OspfPath := c.1.asbr.paths.map (completeDirect c.2)

/-- The stored route is that of a least LSA `s`, with the next hops of all least ones and the last
record. -/
structure Kept (rfc1583 : Bool) (P : List (ExtRoute×U32)) (o : ExtRoute)
    (s d : ExtRoute×U32) : Prop where
  mem : s∈P
  last : d=s ∨ [s,d] <+~ P ∧ 0≤ospfRouteCmp rfc1583 d.1 s.1
  pathType : o.pathType=s.1.pathType
  cost : o.cost=s.1.cost
  type2Cost : o.type2Cost=s.1.type2Cost
  asbr : o.asbr=d.1.asbr
  least : ∀ c∈P, rank rfc1583 s.1≤rank rfc1583 c.1
  paths : ∀ p, p∈o.paths ↔ ∃ c∈P, rank rfc1583 c.1=rank rfc1583 s.1 ∧ p∈hops c

variable {C P : List (ExtRoute×U32)}

theorem exists_mem_append_singleton {A : ExtRoute×U32 → Prop} :
    (∃ x∈P++[c], A x) ↔ (∃ x∈P, A x) ∨ A c := by
  simp only [mem_append,mem_singleton,or_and_right,exists_or,exists_eq_left]

theorem Kept.fresh (hc : c.1.paths=[]) (hleast : ∀ x∈P, rank rfc1583 c.1<rank rfc1583 x.1) :
    Kept rfc1583 (P++[c]) {c.1 with paths := addPaths c.1 c.2 c.1.paths} c c := by
  refine ⟨mem_append_right _ (mem_singleton_self c),.inl rfl,rfl,rfl,rfl,rfl,?_,fun p => ?_⟩
  · exact forall_mem_append.mpr ⟨fun x hx => (hleast x hx).le,forall_mem_singleton.mpr le_rfl⟩
  · have hnone : ¬∃ x∈P, rank rfc1583 x.1=rank rfc1583 c.1 ∧ p∈hops x :=
      fun ⟨x,hx,he,_⟩ => (hleast x hx).ne' he
    rw [exists_mem_append_singleton,hc,mem_addPaths fun _ q hq => absurd hq not_mem_nil]
    simp only [hnone,not_mem_nil,false_or,true_and]
    rfl

variable {o : ExtRoute}

theorem Kept.later {s d : ExtRoute×U32} (ho : Kept rfc1583 P o s d)
    (hcmp : 0≤ospfRouteCmp rfc1583 c.1 s.1) (hle : rank rfc1583 s.1≤rank rfc1583 c.1)
    {paths : List OspfPath}
    (hpaths : ∀ p, p∈paths ↔ p∈o.paths ∨ rank rfc1583 c.1=rank rfc1583 s.1 ∧ p∈hops c) :
    Kept rfc1583 (P++[c]) {o with asbr := c.1.asbr, paths} s c where
  mem := mem_append_left _ ho.mem
  last := .inr ⟨(subperm_append_right [c]).mpr (singleton_subperm_iff.mpr ho.mem),hcmp⟩
  pathType := ho.pathType
  cost := ho.cost
  type2Cost := ho.type2Cost
  asbr := rfl
  least := forall_mem_append.mpr ⟨ho.least,forall_mem_singleton.mpr hle⟩
  paths := fun p => by rw [hpaths,ho.paths,exists_mem_append_singleton]

theorem compareRoute_kept (hC : ∀ c∈C, External c.1 ∧ c.1.paths=[]) (h : Undisturbed rfc1583 C)
    (hP : P++[c] <+~ C) {s d : ExtRoute×U32} (ho : Kept rfc1583 P o s d) :
    ∃ o' s' d', compareRoute rfc1583 (some o) c=some o' ∧ Kept rfc1583 (P++[c]) o' s' d' := by
  have hsub : ∀ {x}, x∈P → x∈C := fun hx => hP.subset (mem_append_left _ hx)
  have hc : c∈C := hP.subset (mem_append_right _ (mem_singleton_self c))
  have hcmp : ∀ x∈C, ∀ y∈C, _ := fun x hx y hy =>
    @ospfRouteCmp_rank rfc1583 _ _ (hC x hx).1 (hC y hy).1 (h.near x hx y hy) (h.near y hy x hx)
  obtain ⟨hlt,heq⟩ := hcmp c hc s (hsub ho.mem)
  have hsto : ospfRouteCmp rfc1583 c.1 o =
      ospfRouteCmp rfc1583 c.1 {s.1 with asbr := d.1.asbr} := by
    simp only [ospfRouteCmp,ho.pathType,ho.cost,ho.type2Cost,ho.asbr]
  have hsign : (ospfRouteCmp rfc1583 c.1 o).sign=(ospfRouteCmp rfc1583 c.1 s.1).sign := by
    rw [hsto]
    rcases ho.last with rfl|⟨hsd,hd⟩
    · rfl
    · exact h.recorded s d c (((subperm_append_right [c]).mpr hsd).trans hP) hd
  have hneg : ospfRouteCmp rfc1583 c.1 o<0 ↔ ospfRouteCmp rfc1583 c.1 s.1<0 := by
    rw [←Int.sign_eq_neg_one_iff_neg,hsign,Int.sign_eq_neg_one_iff_neg]
  have hpos : ospfRouteCmp rfc1583 c.1 o>0 ↔ ospfRouteCmp rfc1583 c.1 s.1>0 := by
    rw [gt_iff_lt,←Int.sign_eq_one_iff_pos,hsign,Int.sign_eq_one_iff_pos]
  rw [compareRoute]
  simp only [hneg,hpos]
  rcases lt_trichotomy (rank rfc1583 c.1) (rank rfc1583 s.1) with hr|hr|hr
  · rw [if_pos (hlt.mpr hr)]
    exact ⟨_,c,c,rfl,.fresh (hC c hc).2 fun x hx => hr.trans_le (ho.least x hx)⟩
  · have hz := heq.mpr hr
    rw [if_neg hz.not_lt,if_neg hz.not_gt]
    refine ⟨_,s,c,rfl,ho.later hz.ge hr.ge fun p => ?_⟩
    rw [mem_addPaths,and_iff_right hr]
    · rfl
    intro hne q hq
    obtain ⟨x,hx,hrx,hq⟩ := (ho.paths q).mp hq
    obtain ⟨q',hq',rfl⟩ := mem_map.mp hq
    by_cases hx0 : x.2=0
    · rw [hx0,completeDirect_zero]
      exact h.direct x (hsub hx) c hc ((hcmp x (hsub hx) c hc).2.mpr (hrx.trans hr.symm)) hx0 hne
        q' hq'
    · rw [completeDirect]
      split
      exacts [hx0,‹_›]
  · have hgt : ospfRouteCmp rfc1583 c.1 s.1>0 := by
      have h1 := mt hlt.mp hr.not_gt
      have h2 := mt heq.mp hr.ne'
      omega
    rw [if_neg hgt.not_gt,if_pos hgt]
    exact ⟨_,s,c,rfl,ho.later hgt.le hr.le fun p => by simp only [hr.ne',false_and,or_false]⟩

theorem foldl_compareRoute_kept (hC : ∀ c∈C, External c.1 ∧ c.1.paths=[])
    (h : Undisturbed rfc1583 C) (hP : P <+~ C) (hne : P≠[]) :
    ∃ o s d, P.foldl (compareRoute rfc1583) none=some o ∧ Kept rfc1583 P o s d := by
  induction P using reverseRecOn with
  | nil => exact absurd rfl hne
  | append_singleton P c ih =>
    rw [foldl_append]
    rcases eq_or_ne P [] with rfl|hP'
    · exact ⟨_,c,c,rfl,.fresh (P := []) (hC c (hP.subset (mem_singleton_self c))).2 nofun⟩
    · obtain ⟨o,s,d,ho,hkept⟩ := ih ((sublist_append_left P [c]).subperm.trans hP) hP'
      rw [ho]
      exact compareRoute_kept hC h hP hkept

/-- **The choice.** While no record and no forwarding address of another LSA interferes, every order
of the LSAs leaves a minimal route with the next hops of all minimal ones. -/
theorem orderFree_of_undisturbed (T : Tables) (lsas : List ExternalLsa)
    (h : Undisturbed T.rfc1583 (candidates T lsas)) : OrderFree T lsas := by
  have hC : ∀ c∈candidates T lsas, External c.1 ∧ c.1.paths=[] := fun c hc =>
    have ⟨_,_,hnew⟩ := mem_filterMap.mp hc
    external_newRoute hnew
  have hrun : ∀ l, calculateRoutes T l = (candidates T l).foldl (compareRoute T.rfc1583) none := by
    intro l
    rw [calculateRoutes,candidates,foldl_filterMap]
    congr 1
    funext or lsa
    rw [ospfAseCalculateRoute]
    cases newRoute T lsa <;> rfl
  have hperm : ∀ {l}, l ~ lsas → candidates T l ~ candidates T lsas := fun hl => hl.filterMap _
  rcases eq_or_ne (candidates T lsas) [] with hnil|hne
  · refine ⟨none,iff_of_true rfl hnil,nofun,fun l hl => ?_⟩
    have hnil' : candidates T l=[] := perm_nil.mp (hnil ▸ hperm hl)
    rw [hrun,hnil']
    exact .none
  obtain ⟨o,s,d,-,ho⟩ := foldl_compareRoute_kept hC h (Subperm.refl _) hne
  refine ⟨some o,iff_of_false nofun hne,?_,fun l hl => ?_⟩
  · rintro r ⟨⟩
    refine ⟨s,ho.mem,ho.pathType,ho.cost,ho.type2Cost,fun c hc => ?_⟩
    obtain ⟨hlt,heq⟩ := @ospfRouteCmp_rank T.rfc1583 _ _
      (hC s ho.mem).1 (hC c hc).1 (h.near s ho.mem c hc) (h.near c hc s ho.mem)
    rcases (ho.least c hc).lt_or_eq with hr|hr
    exacts [(hlt.mpr hr).le,(heq.mpr hr).le]
  · have hne' : candidates T l≠[] := fun hnil => hne (perm_nil.mp (hnil ▸ (hperm hl).symm))
    obtain ⟨o',s',d',hrun',ho'⟩ := foldl_compareRoute_kept hC h (hperm hl).subperm hne'
    rw [hrun,hrun']
    have hrank : rank T.rfc1583 s'.1=rank T.rfc1583 s.1 :=
      le_antisymm (ho'.least s ((hperm hl).mem_iff.mpr ho.mem))
        (ho.least s' ((hperm hl).mem_iff.mp ho'.mem))
    have hkey := hrank
    simp only [rank,toLex_inj,Prod.mk.injEq,BitVec.toNat_inj] at hkey
    refine .some ⟨?_,?_,?_,fun p => ?_⟩
    · rw [ho.pathType,ho'.pathType,hkey.1]
    · rw [ho.cost,ho'.cost,hkey.2.2.2]
    · rw [ho.type2Cost,ho'.type2Cost,hkey.2.1]
    · simp only [ho.paths,ho'.paths,hrank,(hperm hl).mem_iff]

/-- An ASBR behind a router of area 1. -/
def sampleAsbr (id : U32) (pathType : ℕ) (cost : U32) : StdRoute where
  pathType := pathType
  cost := cost
  areaId := 1
  flags := 2
  paths := [⟨id,0,1⟩]

/-- An ASBR of the area and two of other areas. -/
def sampleTables : Tables where
  p := ⟨0xa000000,8⟩
  rfc1583 := false
  oiflist := []
  newRtrs := fun id =>
    if id=1 then [sampleAsbr 1 ospfPathIntraArea 5]
    else if id=2 then [sampleAsbr 2 ospfPathInterArea 20] else [sampleAsbr id ospfPathInterArea 1]
  newTable := []

/-- A type 1 route. -/
def sampleLsa (advRouter : U32) (metric : BitVec 24) : ExternalLsa where
  localXlt := false
  maxage := false
  self := false
  advRouter := advRouter
  tos := 0
  metric := metric
  fwdAddr := 0

/-- Two equal routes. -/
theorem orderFree_equalRoutes : OrderFree sampleTables [sampleLsa 3 4,sampleLsa 4 4] :=
  orderFree_of_undisturbed _ _
    ⟨by decide,fun _ _ _ h => absurd h.length_le (show ¬3≤2 by decide),by decide⟩

theorem cost_eq_of_rel {a o : Option ExtRoute} (h : Option.Rel SameRoute a o) :
    a.map ExtRoute.cost=o.map ExtRoute.cost := by
  cases h with
  | some h => exact congrArg some h.cost
  | none => rfl

/-- The second LSA leaves its record in the route of the first one, and the third one wins. -/
theorem not_orderFree_recorded :
    ¬OrderFree sampleTables [sampleLsa 1 5,sampleLsa 2 0,sampleLsa 3 4] := by
  rintro ⟨o,-,-,h⟩
  have h1 := cost_eq_of_rel (h _ (.refl _))
  have h2 := cost_eq_of_rel (h _ (reverse_perm _))
  exact absurd (h1.trans h2.symm) (by decide)

end RoutePlatform.ExternalRoutes
