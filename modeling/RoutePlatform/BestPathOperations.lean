import RoutePlatform.AttrOperations
import RoutePlatform.BestChoice
import RoutePlatform.OperationRuns

/-!
# Best path selection of `bgpd/bgp_route.c`

`bgp_info_cmp` compares two paths of `rn->info` in numbered steps. `bgp_best_selection` first
marks, under `deterministic-med`, the best path for each neighbour AS and then chooses among the
marked ones. Multipath lists are never read and left out.
-/

namespace RoutePlatform.BestPathOperations

open AsPathOperations AsPathSynthesis BestChoice Function
open AttrOperations (PeerSort)

/-- The number `seg->as[0]`. -/
def firstAs (seg : Assegment) : AsT := seg.as.headD 0

def aspathCmpLeft (aspath1 aspath2 : List Assegment) : Bool :=
  match aspath1.dropWhile Assegment.isConfed, aspath2.dropWhile Assegment.isConfed with
  | seg1::_, seg2::_ => seg1.type=.asSequence && seg2.type=.asSequence && firstAs seg1=firstAs seg2
  | _, _ => false

def aspathCmpLeftConfed : List Assegment→List Assegment→Bool
  | seg1::_, seg2::_ =>
    seg1.type=.asConfedSequence && seg2.type=.asConfedSequence && firstAs seg1=firstAs seg2
  | _, _ => false

def aspathCmp : List Assegment→List Assegment→Bool
  | [], [] => true
  | seg1::rest1, seg2::rest2 => seg1.type=seg2.type && seg1.as=seg2.as && aspathCmp rest1 rest2
  | _, _ => false

theorem aspathCmp_iff (x y : List Assegment) : aspathCmp x y=true ↔ x=y := by
  induction x generalizing y with
  | nil => cases y <;> simp [aspathCmp]
  | cons seg₁ rest₁ ih =>
    cases y with
    | nil => simp [aspathCmp]
    | cons seg₂ rest₂ =>
      rw [aspathCmp,Bool.and_eq_true,Bool.and_eq_true,decide_eq_true_eq,decide_eq_true_eq,
        ih rest₂,List.cons.injEq,Assegment.ext_iff]

/-- `union sockunion` with an address in host order or in bytes. -/
inductive Sockunion where
  | inet (addr : ℕ)
  | inet6 (addr : Fin 16→ℕ)
  deriving DecidableEq

/-- `AF_INET` and `AF_INET6`. -/
def Sockunion.family : Sockunion→ℕ
  | .inet _ => 2
  | .inet6 _ => 10

def in6addrCmp : List ℕ→List ℕ→ℤ
  | a::as, b::bs => if a > b then 1 else if a<b then -1 else in6addrCmp as bs
  | _, _ => 0

def sockunionCmp (su1 su2 : Sockunion) : ℤ := if su1.family > su2.family then 1
  else if su1.family<su2.family then -1
  else
    match su1, su2 with
    | .inet a, .inet b => if a=b then 0 else if a > b then 1 else -1
    | .inet6 a, .inet6 b => in6addrCmp (List.ofFn a) (List.ofFn b)
    | _, _ => 0

/-- `struct attr`. An attribute that is not flagged is not there. The comparison computes nothing
with the integers, so that none wraps and natural numbers stand for `u_int32_t`. -/
structure Attr where
  aspath : List Assegment
  origin : ℕ
  localPref : Option ℕ
  med : Option ℕ
  /-- The weight, of the `extra` part. -/
  weight : Option ℕ
  /-- `ORIGINATOR_ID`, in host order. -/
  originatorId : Option ℕ
  /-- The length of `CLUSTER_LIST`. -/
  clusterLength : Option ℕ
  deriving DecidableEq

/-- The fields of `struct peer` that the comparison reads. Its integers are only compared. -/
structure Peer where
  sort : PeerSort
  as : AsT
  /-- The router identifier, in host order. -/
  remoteId : ℕ
  suRemote : Sockunion
  deriving DecidableEq

/-- `BGP_ROUTE_NORMAL` and the other sub-types. -/
inductive SubType where
  | normal | static | aggregate | redistribute
  deriving DecidableEq

/-- `struct bgp_info` without its links and flags. -/
structure BgpInfo where
  attr : Attr
  peer : Peer
  subType : SubType
  /-- The metric to the next hop, of the `extra` part. -/
  igpmetric : Option ℕ
  deriving DecidableEq

/-- The flags `BGP_INFO_*` that the selection reads or writes. -/
structure InfoFlags where
  selected : Bool
  valid : Bool
  history : Bool
  damped : Bool
  removed : Bool
  dmedCheck : Bool
  dmedSelected : Bool
  deriving DecidableEq

/-- A new path has no flags. -/
def InfoFlags.zero : InfoFlags := ⟨false,false,false,false,false,false,false⟩

/-- `BGP_INFO_HOLDDOWN`. -/
def InfoFlags.holddown (flags : InfoFlags) : Bool :=
  !flags.valid || (flags.history || flags.damped || flags.removed)

/-- The configuration of `struct bgp`. -/
structure Bgp where
  defaultLocalPref : ℕ
  alwaysCompareMed : Bool
  deterministicMed : Bool
  medMissingAsWorst : Bool
  medConfed : Bool
  compareRouterId : Bool
  aspathIgnore : Bool
  aspathConfed : Bool
  aspathMultipathRelax : Bool

def bgpMedMax : ℕ := 2^32-1

section

variable (bgp : Bgp) (new exist : BgpInfo)

def bgpMedValue (attr : Attr) : ℕ :=
  match attr.med with
  | some med => med
  | none => if bgp.medMissingAsWorst then bgpMedMax else 0

/-- The local preference of an attribute. -/
def localPrefValue (attr : Attr) : ℕ := attr.localPref.getD bgp.defaultLocalPref

/-- The router identifier a path is compared by. -/
def routerId (info : BgpInfo) : ℕ := info.attr.originatorId.getD info.peer.remoteId

/-- Step 1: the larger weight. -/
def weightCheck : Option Bool := prefer (exist.attr.weight.getD 0) (new.attr.weight.getD 0)

/-- Step 2: the larger local preference. -/
def localPrefCheck : Option Bool :=
  prefer (localPrefValue bgp exist.attr) (localPrefValue bgp new.attr)

/-- Step 3: a local route. -/
def localRouteCheck : Option Bool := if new.subType ≠ .normal then some true
  else if exist.subType ≠ .normal then some false
  else none

/-- Step 4: the shorter AS path. -/
def aspathCheck : Option Bool := if bgp.aspathIgnore then none
  else if bgp.aspathConfed then
    prefer (aspathCountHops new.attr.aspath+aspathCountConfeds new.attr.aspath)
      (aspathCountHops exist.attr.aspath+aspathCountConfeds exist.attr.aspath)
  else prefer (aspathCountHops new.attr.aspath) (aspathCountHops exist.attr.aspath)

/-- Step 5: the lower origin. -/
def originCheck : Option Bool := prefer new.attr.origin exist.attr.origin

/-- Both paths come from the own AS. -/
def internalAsRoute : Bool :=
  aspathCountHops new.attr.aspath=0 && aspathCountHops exist.attr.aspath=0

/-- Both paths come from the own confederation. -/
def confedAsRoute : Bool :=
  aspathCountConfeds new.attr.aspath > 0 && aspathCountConfeds exist.attr.aspath > 0 &&
    aspathCountHops new.attr.aspath=0 && aspathCountHops exist.attr.aspath=0

/-- The condition of step 6. -/
def medComparable : Bool :=
  bgp.alwaysCompareMed || (bgp.medConfed && confedAsRoute new exist) ||
    aspathCmpLeft new.attr.aspath exist.attr.aspath ||
    aspathCmpLeftConfed new.attr.aspath exist.attr.aspath || internalAsRoute new exist

/-- Step 6: the lower MED. -/
def medCheck : Option Bool :=
  if medComparable bgp new exist then
    prefer (bgpMedValue bgp new.attr) (bgpMedValue bgp exist.attr)
  else none

/-- Step 7: the external peer. -/
def peerTypeCheck : Option Bool :=
  if new.peer.sort=.ebgp ∧ (exist.peer.sort=.ibgp ∨ exist.peer.sort=.confed) then some true
  else if exist.peer.sort=.ebgp ∧ (new.peer.sort=.ibgp ∨ new.peer.sort=.confed) then
    some false
  else none

/-- Step 8: the lower IGP metric. -/
def igpCheck : Option Bool := prefer (new.igpmetric.getD 0) (exist.igpmetric.getD 0)

/-- Step 9: may both paths be used? -/
def pathsEqual : Bool := if bgp.aspathMultipathRelax then true
  else if new.peer.sort=.ibgp then aspathCmp new.attr.aspath exist.attr.aspath
  else new.peer.as=exist.peer.as

/-- Step 10: the external path that is selected already. -/
def oldestCheck (newSelected existSelected : Bool) : Option Bool :=
  if !bgp.compareRouterId && new.peer.sort=.ebgp && exist.peer.sort=.ebgp then
    if newSelected then some true
    else if existSelected then some false
    else none
  else none

/-- Step 11: the lower router identifier. -/
def routerIdCheck : Option Bool := prefer (routerId new) (routerId exist)

/-- Step 12: the shorter cluster list. -/
def clusterCheck : Option Bool :=
  prefer (new.attr.clusterLength.getD 0) (exist.attr.clusterLength.getD 0)

/-- Step 13: the lower neighbour address. -/
def addressCheck : Option Bool :=
  if sockunionCmp new.peer.suRemote exist.peer.suRemote=1 then some false
  else if sockunionCmp new.peer.suRemote exist.peer.suRemote = -1 then some true
  else none

/-- The steps before the maximum path check. -/
def earlySteps : Option Bool :=
  (weightCheck new exist).or <| (localPrefCheck bgp new exist).or <|
    (localRouteCheck new exist).or <| (aspathCheck bgp new exist).or <|
      (originCheck new exist).or <| (medCheck bgp new exist).or <|
        (peerTypeCheck new exist).or (igpCheck new exist)

/-- The steps after the maximum path check. -/
def lateSteps (newSelected existSelected : Bool) : Option Bool :=
  (oldestCheck bgp new exist newSelected existSelected).or <|
    (routerIdCheck new exist).or <| (clusterCheck new exist).or (addressCheck new exist)

/-- `bgp_info_cmp` on two paths: is the new one better, and `paths_eq`. -/
def infoCmp (newSelected existSelected : Bool) : Bool × Bool :=
  match earlySteps bgp new exist with
  | some answer => (answer,false)
  | none => ((lateSteps bgp new exist newSelected existSelected).getD true,pathsEqual bgp new exist)

end

/-- A node of the BGP table: the list `rn->info` and the paths in memory. -/
structure BgpNode where
  infoList : List ℕ
  info : ℕ→BgpInfo
  flags : ℕ→InfoFlags

/-- Change the flags of one path. -/
def BgpNode.modifyFlags (rn : BgpNode) (ri : ℕ) (f : InfoFlags→InfoFlags) : BgpNode :=
  {rn with flags := update rn.flags ri (f (rn.flags ri))}

/-- `bgp_info_set_flag` with `DMED_CHECK`. -/
def BgpNode.setDmedCheck (rn : BgpNode) (ri : ℕ) : BgpNode :=
  rn.modifyFlags ri fun flags => {flags with dmedCheck := true}

/-- `bgp_info_unset_flag` with `DMED_CHECK`. -/
def BgpNode.unsetDmedCheck (rn : BgpNode) (ri : ℕ) : BgpNode :=
  rn.modifyFlags ri fun flags => {flags with dmedCheck := false}

/-- `bgp_info_set_flag` with `DMED_SELECTED`. -/
def BgpNode.setDmedSelected (rn : BgpNode) (ri : ℕ) : BgpNode :=
  rn.modifyFlags ri fun flags => {flags with dmedSelected := true}

/-- `bgp_info_unset_flag` with `DMED_SELECTED`. -/
def BgpNode.unsetDmedSelected (rn : BgpNode) (ri : ℕ) : BgpNode :=
  rn.modifyFlags ri fun flags => {flags with dmedSelected := false}

/-- `bgp_info_reap`. -/
def BgpNode.reap (rn : BgpNode) (ri : ℕ) : BgpNode := {rn with infoList := rn.infoList.erase ri}

def bgpInfoCmp (bgp : Bgp) (rn : BgpNode) (new exist : Option ℕ) : Bool × Bool :=
  match new, exist with
  | none, _ => (false,false)
  | some _, none => (true,false)
  | some new, some exist =>
    infoCmp bgp (rn.info new) (rn.info exist) (rn.flags new).selected (rn.flags exist).selected

section

variable (bgp : Bgp)

/-- The paths are compared under `deterministic-med`. -/
def sameNeighbour (rn : BgpNode) (ri1 ri2 : ℕ) : Bool :=
  aspathCmpLeft (rn.info ri1).attr.aspath (rn.info ri2).attr.aspath ||
    aspathCmpLeftConfed (rn.info ri1).attr.aspath (rn.info ri2).attr.aspath

/-- The inner loop of the first pass over `ri2`. -/
def dmedInner (ri1 : ℕ) : List ℕ→ℕ→BgpNode→ℕ × BgpNode
  | [], newSelect, rn => (newSelect,rn)
  | ri2::rest, newSelect, rn =>
    if (rn.flags ri2).dmedCheck || (rn.flags ri2).holddown then dmedInner ri1 rest newSelect rn
    else if sameNeighbour rn ri1 ri2 then
      if (bgpInfoCmp bgp rn (some ri2) (some newSelect)).1 then
        dmedInner ri1 rest ri2 ((rn.unsetDmedSelected newSelect).setDmedCheck ri2)
      else dmedInner ri1 rest newSelect (rn.setDmedCheck ri2)
    else dmedInner ri1 rest newSelect rn

/-- The first pass: mark the best path for each neighbour AS. -/
def dmedOuter : List ℕ→BgpNode→BgpNode
  | [], rn => rn
  | ri1::rest, rn =>
    if (rn.flags ri1).dmedCheck || (rn.flags ri1).holddown then dmedOuter rest rn
    else
      let found := dmedInner bgp ri1 rest ri1 rn
      dmedOuter rest ((found.2.setDmedCheck found.1).setDmedSelected found.1)

/-- `struct bgp_info_pair`, with the node as the selection leaves it. -/
structure Selection where
  old : Option ℕ
  new : Option ℕ
  node : BgpNode

/-- The second pass: choose among the paths that are left. -/
def selectLoop : List ℕ→Option ℕ→Option ℕ→BgpNode→Selection
  | [], oldSelect, newSelect, rn => ⟨oldSelect,newSelect,rn⟩
  | ri::rest, oldSelect, newSelect, rn =>
    let oldSelect := if (rn.flags ri).selected then some ri else oldSelect
    if (rn.flags ri).holddown then
      if (rn.flags ri).removed && some ri≠oldSelect then
        selectLoop rest oldSelect newSelect (rn.reap ri)
      else selectLoop rest oldSelect newSelect rn
    else if bgp.deterministicMed && !(rn.flags ri).dmedSelected then
      selectLoop rest oldSelect newSelect (rn.unsetDmedCheck ri)
    else
      let rn := (rn.unsetDmedCheck ri).unsetDmedSelected ri
      if (bgpInfoCmp bgp rn (some ri) newSelect).1 then selectLoop rest oldSelect (some ri) rn
      else selectLoop rest oldSelect newSelect rn

def bgpBestSelection (rn : BgpNode) : Selection :=
  let rn := if bgp.deterministicMed then dmedOuter bgp rn.infoList rn else rn
  selectLoop bgp rn.infoList none none rn

end

inductive NodeOp where
  | add (ri : ℕ) (info : BgpInfo)
  /-- Attributes and flags of a path change, but not those of `deterministic-med`. -/
  | update (ri : ℕ) (info : BgpInfo) (flags : InfoFlags)
  /-- `bgp_info_reap` of a caller. -/
  | reap (ri : ℕ)
  | select (bgp : Bgp)

def nodeStep (rn : BgpNode) : NodeOp→Option BgpNode
  | .add ri info => some
    { infoList := ri::rn.infoList
      info := update rn.info ri info
      flags := update rn.flags ri InfoFlags.zero }
  | .update ri info flags => some {rn with
      info := update rn.info ri info
      flags := update rn.flags ri {flags with
        dmedCheck := (rn.flags ri).dmedCheck
        dmedSelected := (rn.flags ri).dmedSelected}}
  | .reap ri => some (rn.reap ri)
  | .select bgp => some (bgpBestSelection bgp rn).node

/-- A path is new when it is added. -/
def NodeLegal (rn : BgpNode) : NodeOp→Prop
  | .add ri _ => ri ∉ rn.infoList
  | _ => True

instance decidableNodeLegal (rn : BgpNode) : ∀ op, Decidable (NodeLegal rn op)
  | .add ri _ => inferInstanceAs (Decidable (ri ∉ rn.infoList))
  | .update _ _ _ => .isTrue trivial
  | .reap _ => .isTrue trivial
  | .select _ => .isTrue trivial

/-- The usable paths, in the order of the list. -/
def usable (rn : BgpNode) : List ℕ := rn.infoList.filter fun ri => !(rn.flags ri).holddown

end RoutePlatform.BestPathOperations
