import RoutePlatform.BestPathOperations
import RoutePlatform.LinkedNodes

/-!
# The multipath list of a best path

Every path may own an element of a doubly linked list, made when it is first
needed; the elements behind the one of the best path are its multipaths. The
update walks the sorted list of candidates and the old chain side by side.
-/

namespace RoutePlatform.MultipathOperations

open AttrOperations (PeerSort)
open BestPathOperations (Sockunion sockunionCmp)
open LinkedNodes

/-- The next hop fields of `struct attr_extra`. -/
structure AttrExtra where
  mpNexthopLen : BitVec 8
  mpNexthopGlobalIn : BitVec 32
  mpNexthopGlobal : BitVec 128
  mpNexthopLocal : BitVec 128

/-- The fields of a path and of its peer that the update reads. -/
structure Path where
  nexthop : BitVec 32
  extra : Option AttrExtra
  suRemote : Sockunion
  sort : PeerSort

/-- `memcmp` of two addresses in network order. -/
def addrCmp {n : ℕ} (a b : BitVec n) : Ordering := compare a.toNat b.toNat

/-- The `switch` over the length of the multiprotocol next hop. -/
def mpNexthopCmp (ae1 ae2 : AttrExtra) : Ordering :=
  if ae1.mpNexthopLen=4 ∨ ae1.mpNexthopLen=12 then
    addrCmp ae1.mpNexthopGlobalIn ae2.mpNexthopGlobalIn
  else if ae1.mpNexthopLen=16 then addrCmp ae1.mpNexthopGlobal ae2.mpNexthopGlobal
  else if ae1.mpNexthopLen=32 then
    (addrCmp ae1.mpNexthopGlobal ae2.mpNexthopGlobal).then
      (addrCmp ae1.mpNexthopLocal ae2.mpNexthopLocal)
  else .eq

def bgpInfoNexthopCmp (bi1 bi2 : Path) : Ordering :=
  (addrCmp bi1.nexthop bi2.nexthop).then <|
    match bi1.extra, bi2.extra with
    | some ae1, some ae2 => if ae1.mpNexthopLen=ae2.mpNexthopLen then mpNexthopCmp ae1 ae2 else .eq
    | _, _ => .eq

def bgpInfoMpathCmp (bi1 bi2 : Path) : Ordering :=
  (bgpInfoNexthopCmp bi1 bi2).then (compare (sockunionCmp bi1.suRemote bi2.suRemote) 0)

/-- `struct bgp_maxpaths_cfg`. -/
structure MaxpathsCfg where
  maxpathsEbgp : BitVec 16
  maxpathsIbgp : BitVec 16

/-- What a path carries beside the links of its element. -/
structure Mpath where
  mpath : Bool
  /-- `mp_count`, of the element. -/
  count : ℕ
  multipath : Bool
  multipathChg : Bool

/-- The paths with the elements they own. -/
abbrev Paths := Memory Mpath

def modify (mem : Paths) (binfo : ℕ) (f : Mpath→Mpath) : Paths :=
  Function.update mem binfo {mem binfo with data := f (mem binfo).data}

def bgpInfoMpathGet (mem : Paths) (binfo : ℕ) : Paths := if (mem binfo).data.mpath then mem
  else Function.update mem binfo ⟨none,none, {(mem binfo).data with mpath := true,count := 0}⟩

def bgpInfoMpathEnqueue (mem : Paths) (prev binfo : ℕ) : Paths :=
  let mem := bgpInfoMpathGet (bgpInfoMpathGet mem prev) binfo
  let next := (mem prev).next
  let mem := setPrev (setNext mem (some binfo) next) (some binfo) (some prev)
  let mem := setNext (setPrev mem next (some binfo)) (some prev) (some binfo)
  modify mem binfo fun d => {d with multipath := true}

def bgpInfoMpathDequeue (mem : Paths) (binfo : ℕ) : Paths :=
  if (mem binfo).data.mpath then
    let mem := setNext mem (mem binfo).prev (mem binfo).next
    let mem := setPrev mem (mem binfo).next (mem binfo).prev
    let mem := setPrev (setNext mem (some binfo) none) (some binfo) none
    modify mem binfo fun d => {d with multipath := false}
  else mem

/-- `bgp_info_mpath_next`, which is also `bgp_info_mpath_first`. -/
def bgpInfoMpathNext (mem : Paths) (binfo : ℕ) : Option ℕ :=
  if (mem binfo).data.mpath then (mem binfo).next else none

def bgpInfoMpathCount (mem : Paths) (binfo : ℕ) : ℕ :=
  if (mem binfo).data.mpath then (mem binfo).data.count else 0

def bgpInfoMpathCountSet (mem : Paths) (binfo count : ℕ) : Paths :=
  if count=0 ∧ (mem binfo).data.mpath=false then mem
  else modify (bgpInfoMpathGet mem binfo) binfo fun d => {d with count := count}

structure Walk where
  mem : Paths
  /-- `mp_list` from `mp_node` on: every node before it has been deleted. -/
  mpList : List ℕ
  curMpath : Option ℕ
  prevMpath : ℕ
  mpathCount : ℕ
  mpathChanged : Bool

section

variable (path : ℕ→Path) (newBest maxpaths : ℕ)

/-- The two lists are at the same path. -/
def keepMpath (s : Walk) (rest : List ℕ) (cur : ℕ) : Walk :=
  let next := bgpInfoMpathNext s.mem cur
  let mem := bgpInfoMpathDequeue s.mem cur
  if s.mpathCount < maxpaths ∧ bgpInfoNexthopCmp (path s.prevMpath) (path cur) ≠ .eq then
    {s with
      mem := bgpInfoMpathEnqueue mem s.prevMpath cur,mpList := rest,curMpath := next
      prevMpath := cur,mpathCount := s.mpathCount+1}
  else {s with mem := mem,mpList := rest,curMpath := next,mpathChanged := true}

/-- The path of the old chain is not at this place of the list any more. -/
def purgeMpath (s : Walk) (cur : ℕ) : Walk :=
  {s with
    mem := bgpInfoMpathDequeue s.mem cur,curMpath := bgpInfoMpathNext s.mem cur
    mpathChanged := true}

/-- The path of the list is not at this place of the old chain. -/
def offerMpath (s : Walk) (rest : List ℕ) (new : ℕ) : Walk :=
  if s.mpathCount < maxpaths ∧ new≠newBest ∧
      bgpInfoNexthopCmp (path s.prevMpath) (path new) ≠ .eq then
    {s with
      mem := bgpInfoMpathEnqueue (bgpInfoMpathDequeue s.mem new) s.prevMpath new
      mpList := rest,prevMpath := new,mpathChanged := true,mpathCount := s.mpathCount+1}
  else {s with mpList := rest}

/-- The loop of `bgp_info_mpath_update`. -/
def walkLoop : ℕ→Walk→Option Walk
  | 0, _ => none
  | fuel+1, s =>
    match s.mpList, s.curMpath with
    | [], none => some s
    | [], some cur => walkLoop fuel (purgeMpath s cur)
    | new::rest, none =>
      if maxpaths ≤ s.mpathCount then some s
      else walkLoop fuel (offerMpath path newBest maxpaths s rest new)
    | new::rest, some cur =>
      if new=cur then walkLoop fuel (keepMpath path maxpaths s rest cur)
      else if bgpInfoMpathCmp (path cur) (path new)=.lt then walkLoop fuel (purgeMpath s cur)
      else walkLoop fuel (offerMpath path newBest maxpaths s rest new)

end

/-- The limit that applies to a best path. -/
def maxpathsFor (cfg : MaxpathsCfg) (best : Path) : ℕ :=
  (if best.sort=.ibgp then cfg.maxpathsIbgp else cfg.maxpathsEbgp).toNat

/-- The old chain is cut from the old best path. -/
def releaseOld (mem : Paths) (oldBest : ℕ) : Paths :=
  bgpInfoMpathDequeue (bgpInfoMpathCountSet mem oldBest 0) oldBest

/-- The walk begins at the head of the list and behind the old best path. -/
def startWalk (mem : Paths) (newBest : ℕ) (oldBest : Option ℕ) (mpList : List ℕ) : Walk where
  mem := (oldBest.map (releaseOld mem)).getD mem
  mpList := mpList
  curMpath := oldBest.bind (bgpInfoMpathNext mem)
  prevMpath := newBest
  mpathCount := 1
  mpathChanged := false

/-- `bgp_info_mpath_update`: the paths afterwards, within `fuel` turns. -/
def bgpInfoMpathUpdate (path : ℕ→Path) (cfg : MaxpathsCfg) (fuel : ℕ) (mem : Paths)
    (newBest : ℕ) (oldBest : Option ℕ) (mpList : List ℕ) : Option Paths :=
  let mem := if some newBest=oldBest then mem else bgpInfoMpathDequeue mem newBest
  let oldCount := (oldBest.map (bgpInfoMpathCount mem)).getD 0%2^16
  (walkLoop path newBest (maxpathsFor cfg (path newBest)) fuel
      (startWalk mem newBest oldBest mpList)).map fun s =>
    let mem := bgpInfoMpathCountSet s.mem newBest (s.mpathCount-1)
    if s.mpathChanged ∨ bgpInfoMpathCount mem newBest≠oldCount then
      modify mem newBest fun d => {d with multipathChg := true}
    else mem

end RoutePlatform.MultipathOperations
