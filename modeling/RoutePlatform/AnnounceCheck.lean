import RoutePlatform.AttrOperations

/-!
# What is announced to a peer

`bgp_announce_check` of `bgpd/bgp_route.c` copies the attributes of a path and rewrites the
copy for the peer, step by step. The flag of the originator id is set with the type code
where its bit is meant. Log output is left out.
-/

namespace RoutePlatform.AnnounceCheck

open AttrOperations

/-- What `bgp_announce_check` looks at beside the attributes of the path. -/
structure Announcement where
  peerSort : PeerSort
  /-- `sort` of the peer that the path is from. -/
  fromSort : PeerSort
  /-- `remote_id` of the peer. -/
  remoteId : BitVec 32
  /-- `remote_id` of the peer that the path is from. -/
  fromRemoteId : BitVec 32
  /-- The checks that only refuse: server clients, the sender, suppression, filters and so on. -/
  refuses : Attr→Bool
  /-- `PEER_FLAG_REFLECTOR_CLIENT` of the peer. -/
  client : Bool
  /-- `PEER_FLAG_REFLECTOR_CLIENT` of the peer that the path is from. -/
  fromClient : Bool
  noClientToClient : Bool
  defaultLocalPref : BitVec 32
  transparent : Bool
  /-- The path is from `peer_self`. -/
  fromSelf : Bool
  medUnchanged : Bool
  /-- The prefix is of `AF_INET6`, not of `AF_INET`. -/
  inet6 : Bool
  /-- The SAFI is `SAFI_MPLS_VPN`. -/
  vpn : Bool
  nexthopSelfAll : Bool
  nexthopUnchanged : Bool
  nexthopSelf : Bool
  nexthopLocalUnchanged : Bool
  /-- `bgp_multiaccess_check_v4` with the host of the peer. -/
  multiaccess : BitVec 32→Bool
  /-- `nexthop.v4` of the peer. -/
  v4 : BitVec 32
  /-- `nexthop.v6_global` of the peer. -/
  v6Global : List (BitVec 8)
  /-- `nexthop.v6_local` of the peer. -/
  v6Local : List (BitVec 8)
  sharedNetwork : Bool
  removePrivateAs : Bool
  privateAs : Option Aspath→Bool
  /-- The route map or unsuppress map: the attributes that it leaves, unless it denies. -/
  routeMap : Option (Attr→Option Attr)

namespace Announcement

variable (c : Announcement)

def reflect : Bool := c.fromSort=.ibgp && c.peerSort=.ibgp

def reflectionRefuses : Bool :=
  c.reflect && if c.fromClient then c.noClientToClient && c.client else !c.client

def setLocalPref (attr : Attr) : Attr :=
  if (c.peerSort=.ibgp ∨ c.peerSort=.confed) ∧ .localPref ∉ attr.flag then
    {attr with flag := insert .localPref attr.flag,localPref := c.defaultLocalPref}
  else attr

/-- The codes whose bits are set in a number. -/
def codesOf (bits : ℕ) : Finset AttrCode :=
  ((List.range 8).filterMap fun k =>
    if bits.testBit k then AttrCode.ofType (BitVec.ofNat 8 (k+1)) else none).toFinset

/-- The originator id is set. `SET_FLAG` gets `BGP_ATTR_ORIGINATOR_ID`, the number 9. -/
def setOriginatorId (attr : Attr) : Attr :=
  if c.peerSort=.ibgp ∧ c.fromSort=.ibgp ∧ .originatorId ∉ attr.flag then
    {attr with originatorId := c.fromRemoteId,flag := attr.flag ∪ codesOf 9}
  else attr

/-- The MED is removed for an EBGP peer. -/
def removeMed (attr : Attr) : Attr :=
  if c.peerSort=.ebgp ∧ .multiExitDisc∈attr.flag ∧ c.fromSelf=false ∧ c.transparent=false ∧
      c.medUnchanged=false then
    {attr with flag := attr.flag.erase .multiExitDisc}
  else attr

/-- The next hop of the attribute for the family of the prefix is given. -/
def nexthopGiven (attr : Attr) : Bool :=
  if c.inet6 then attr.mpNexthopGlobal≠List.replicate 16 0 else attr.nexthop≠0

def setNexthop (attr : Attr) : Attr :=
  if c.transparent ∨ c.reflect ∧ !c.nexthopSelfAll ∨ c.nexthopUnchanged ∧ c.nexthopGiven attr then
    attr
  else if c.nexthopSelf ∨ !c.nexthopGiven attr ∨ c.peerSort=.ebgp ∧ !c.multiaccess attr.nexthop then
    if c.inet6 then {attr with mpNexthopGlobal := c.v6Global,mpNexthopLen := 16}
    else if c.vpn then {attr with mpNexthopGlobalIn := c.v4}
    else {attr with nexthop := c.v4}
  else attr

/-- The link-local next hop is set. -/
def setNexthopLocal (attr : Attr) : Attr := if !c.inet6 then attr
  else if c.nexthopLocalUnchanged then
    {attr with mpNexthopLen := if in6IsAddrLinklocal attr.mpNexthopLocal then 32 else 16}
  else
    let shared := c.sharedNetwork && c.v6Local≠List.replicate 16 0
    {attr with
      mpNexthopLocal := if shared then c.v6Local else attr.mpNexthopLocal
      mpNexthopLen := if shared && !c.reflect && in6IsAddrLinklocal c.v6Local then 32 else 16}

/-- The AS path is emptied for an EBGP peer. -/
def clearPrivateAs (attr : Attr) : Attr :=
  if c.peerSort=.ebgp ∧ c.removePrivateAs ∧ c.privateAs attr.aspath then
    {attr with aspath := some []}
  else attr

/-- The copy of the attributes before the route map. -/
def rewritten (riattr : Attr) : Attr :=
  c.clearPrivateAs (c.setNexthopLocal (c.setNexthop
    (c.removeMed (c.setOriginatorId (c.setLocalPref riattr)))))

/-- `bgp_announce_check`: the attributes announced. A route map works on another copy of a reflected
path. -/
def bgpAnnounceCheck (riattr : Attr) : Option Attr := if c.refuses riattr then none
  else if .originatorId∈riattr.flag ∧ c.remoteId=riattr.originatorId then none
  else if c.reflectionRefuses then none
  else
    let attr := c.rewritten riattr
    match c.routeMap with
    | none => some attr
    | some map => (map attr).map fun mapped => if c.reflect then attr else mapped

end Announcement

/-- The MED attribute as `bgp_packet_attribute` writes it. -/
def packetMed (attr : Attr) : List (BitVec 8) :=
  if .multiExitDisc∈attr.flag then
    [flagOptional,4,4,(attr.med>>>24).setWidth 8,(attr.med>>>16).setWidth 8,
      (attr.med>>>8).setWidth 8,attr.med.setWidth 8]
  else []

/-- A reflected path keeps its MED and has an originator id. -/
structure Reflected (fromRemoteId : BitVec 32) (riattr attr : Attr) : Prop where
  med_iff : .multiExitDisc∈attr.flag ↔ .multiExitDisc∈riattr.flag
  med : .multiExitDisc∈riattr.flag → attr.med=riattr.med
  originator : .originatorId∈attr.flag
  originatorId : attr.originatorId =
    if .originatorId∈riattr.flag then riattr.originatorId else fromRemoteId
  packet : packetMed attr=packetMed riattr

namespace Announcement

variable {c : Announcement} {attr riattr : Attr}

theorem codesOf_originatorId : codesOf 9={.origin,.multiExitDisc} := by decide

/-- The fields that matter for a reflected path. -/
def core (attr : Attr) : Finset AttrCode × BitVec 32 × BitVec 32 :=
  (attr.flag,attr.med,attr.originatorId)

theorem core_rewritten (hpeer : c.peerSort=.ibgp) :
    core (c.rewritten riattr)=core (c.setOriginatorId (c.setLocalPref riattr)) := by
  have hprivate (a : Attr) : core (c.clearPrivateAs a)=core a := by
    unfold clearPrivateAs
    split <;> rfl
  have hlocal (a : Attr) : core (c.setNexthopLocal a)=core a := by
    unfold setNexthopLocal
    split
    · rfl
    · split <;> rfl
  have hnh (a : Attr) : core (c.setNexthop a)=core a := by
    unfold setNexthop
    split_ifs <;> rfl
  have hmed (a : Attr) : c.removeMed a=a := by
    rw [removeMed,if_neg fun h => by rw [hpeer] at h; cases h.1]
  rw [rewritten,hprivate,hlocal,hnh,hmed]

theorem med_setOriginatorId : (c.setOriginatorId (c.setLocalPref riattr)).med=riattr.med := by
  unfold setOriginatorId setLocalPref
  split_ifs <;> rfl

theorem mem_setLocalPref {code : AttrCode} (hcode : code≠.localPref) :
    code∈(c.setLocalPref riattr).flag ↔ code∈riattr.flag := by
  unfold setLocalPref
  split
  · exact Finset.mem_insert.trans (or_iff_right hcode)
  · rfl

theorem originatorId_setLocalPref : (c.setLocalPref riattr).originatorId=riattr.originatorId := by
  unfold setLocalPref
  split <;> rfl

/-- A reflected path without a route map has its MED, and an originator id as the path does. -/
theorem bgpAnnounceCheck_reflected_iff (hpeer : c.peerSort=.ibgp) (hfrom : c.fromSort=.ibgp)
    (hmap : c.routeMap=none) (h : c.bgpAnnounceCheck riattr=some attr) :
    Reflected c.fromRemoteId riattr attr ↔ .originatorId∈riattr.flag := by
  have hattr : c.rewritten riattr=attr := by
    unfold bgpAnnounceCheck at h
    rw [hmap] at h
    split at h
    · cases h
    split at h
    · cases h
    split at h
    · cases h
    exact Option.some.inj h
  have hcore := @core_rewritten c riattr hpeer
  rw [hattr] at hcore
  obtain ⟨hflag,hmed,horiginator⟩ : attr.flag=_ ∧ attr.med=_ ∧ attr.originatorId=_ := by
    simpa only [core,Prod.mk.injEq] using hcore
  rw [med_setOriginatorId] at hmed
  have hmem (code : AttrCode) (hcode : code≠.localPref) := @mem_setLocalPref c riattr code hcode
  by_cases hset : .originatorId∈riattr.flag
  · have hkeep : c.setOriginatorId (c.setLocalPref riattr)=c.setLocalPref riattr := by
      rw [setOriginatorId,if_neg fun h => h.2.2 ((hmem _ (by decide)).mpr hset)]
    rw [hkeep] at hflag horiginator
    have hmedFlag : .multiExitDisc∈attr.flag ↔ .multiExitDisc∈riattr.flag := by
      rw [hflag,hmem _ (by decide)]
    refine iff_of_true ⟨hmedFlag,fun _ => hmed,?_,?_,?_⟩ hset
    · rw [hflag]
      exact (hmem _ (by decide)).mpr hset
    · rw [horiginator,if_pos hset,originatorId_setLocalPref]
    · simp only [packetMed,hmedFlag,hmed]
  refine iff_of_false (fun hreflected => ?_) hset
  have hnot : .originatorId ∉ (c.setLocalPref riattr).flag := fun h =>
    hset ((hmem _ (by decide)).mp h)
  have hmember := hreflected.originator
  rw [hflag,setOriginatorId,if_pos ⟨hpeer,hfrom,hnot⟩,Finset.mem_union,codesOf_originatorId]
    at hmember
  exact hmember.elim hnot (by decide)

/-- Two IBGP peers, one of them a client. -/
def sample : Announcement where
  peerSort := .ibgp
  fromSort := .ibgp
  remoteId := 1
  fromRemoteId := 2
  refuses _ := false
  client := true
  fromClient := false
  noClientToClient := false
  defaultLocalPref := 100
  transparent := false
  fromSelf := false
  medUnchanged := false
  inet6 := false
  vpn := false
  nexthopSelfAll := false
  nexthopUnchanged := false
  nexthopSelf := false
  nexthopLocalUnchanged := false
  multiaccess _ := true
  v4 := 0
  v6Global := []
  v6Local := []
  sharedNetwork := false
  removePrivateAs := false
  privateAs _ := false
  routeMap := none

theorem bgpAnnounceCheck_reflected_sample : Reflected 2 {Attr.zero with flag := {.originatorId}}
        (sample.rewritten {Attr.zero with flag := {.originatorId}}) ↔
      .originatorId∈({.originatorId} : Finset AttrCode) :=
  bgpAnnounceCheck_reflected_iff (c := sample) rfl rfl rfl (by decide)

/-- Without MED and originator id the flag of a MED is announced. -/
theorem bgpAnnounceCheck_inventsMed :
    (sample.bgpAnnounceCheck {Attr.zero with flag := {.origin,.asPath,.localPref}}).map
        (fun attr => (attr.flag,packetMed attr)) =
      some ({.origin,.asPath,.localPref,.multiExitDisc},[0x80,4,4,0,0,0,0]) := by
  decide

end Announcement

end RoutePlatform.AnnounceCheck
