import RoutePlatform.EigrpHandles

/-!
# EIGRP: the topology table

A destination with its chain of routes, and the functions of the diffusing update algorithm on it.
`succ` is only ever set to NULL, so the successor is the first route. Following a NULL pointer
ends the program, which is `none` here.
-/

namespace RoutePlatform.EigrpDual

open ReadTrace (Byte)
open EigrpItems (U32 inaccess infoCd Vmetric NetEntry ExtData)

/-- The query origin of a destination. -/
inductive QueryOrigin
  | qoClear
  | qoLocal
  | qoMulti
  | qoSuccs
deriving DecidableEq

inductive Origin
  | eigrp
  | connected
  | redistributed
  | rstatic
  | rconnect
  | summary
deriving DecidableEq

/-- `EigrpDualRdb_st`: a route of a destination. -/
structure Rdb where
  id : ℕ
  iidb : Option ℕ
  nextHop : U32
  infoSrc : U32
  /-- `handle`; `EIGRP_NO_PEER_HANDLE` is `none`. -/
  handle : Option ℕ
  succMetric : U32
  metric : U32
  vecMetric : Vmetric
  origin : Origin
  /-- `EIGRP_DUAL_SEND_REPLY` is set in `sndFlag`. -/
  sndReply : Bool
  opaqueFlag : Byte
  flagKeep : Bool
  flagExt : Bool
  flagIgnore : Bool
  extData : Option ExtData
  originRouter : U32

/-- `replyStatus`: an `EigrpHandle_st` whose array may be NULL. -/
structure ReplyStatus where
  used : BitVec 16
  array : Option (List (BitVec 32))

/-- `EigrpDualNdb_st`: a destination. -/
structure Ndb where
  dest : NetEntry
  metric : U32
  oldMetric : U32
  vecMetric : Vmetric
  origin : QueryOrigin
  /-- `EIGRP_DUAL_SEND_REPLY` is set in `sndFlag`. -/
  sndReply : Bool
  /-- `EIGRP_DUAL_MULTI_QUERY` is set in `sndFlag`. -/
  sndQuery : Bool
  /-- `EIGRP_DUAL_MULTI_UPDATE` is set in `sndFlag`. -/
  sndUpdate : Bool
  /-- A `U16` that is only set to 0 or 1, kept, or counted down. -/
  succNum : ℕ
  replyStatus : ReplyStatus
  opaqueFlagOld : Byte
  flagExt : Bool
  flagSplitHorizon : Bool
  flagBeingSent : Bool
  flagTellEveryone : Bool
  flagOnChgQue : Bool
  refCnt : ℤ
  rdb : List Rdb
  shQueryIdb : Option ℕ
  exterminate : Bool

/-- `EigrpRouteInfo_st`: the entry of the routing table. -/
structure RtInfo where
  nexthop : U32
  metric : U32

/-- A destination while an event is processed. -/
structure Cell where
  ndb : Ndb
  /-- Its entry in `rtTbl`. -/
  rt : Option RtInfo
  gone : Bool
  /-- An assertion of `EigrpDualActive` or `EigrpClearHandle` has failed. -/
  asserted : Bool
  /-- The interfaces and next hops of the routes handed to `EigrpDualSendReply`. -/
  replies : List (Option ℕ × U32)

/-- `EigrpDualNewRt_st` with the fields that the transport of the route adds. -/
structure Route extends EigrpItems.NewRt where
  infoSrc : U32
  idb : Option ℕ
  origin : Origin
  flagKeep : Bool

/-- `EigrpDualDndbActive`. -/
def Ndb.active (n : Ndb) : Bool := n.replyStatus.array.isSome

/-- `EigrpDualSuccessor`. -/
def Ndb.successor (n : Ndb) : Option Rdb := n.rdb.head?

def Ndb.find (n : Ndb) (id : ℕ) : Option Rdb := n.rdb.find? fun r => r.id=id

/-- The fields of a route are changed. -/
def Ndb.modify (n : Ndb) (id : ℕ) (f : Rdb→Rdb) : Ndb :=
  {n with rdb := n.rdb.map fun r => if r.id=id then f r else r}

/-- `EIGRP_DUAL_MULTI_MASK` is set in `sndFlag`. -/
def Ndb.sndMulti (n : Ndb) : Bool := n.sndQuery || n.sndUpdate

/-- `sndFlag` is zero. -/
def Ndb.idle (n : Ndb) : Bool := !n.sndReply && !n.sndMulti

/-- `EigrpIpRtDelete`. -/
def rtDelete (rt : Option RtInfo) (nextHop : U32) : Option RtInfo :=
  match rt with
  | none => none
  | some info => if nextHop=info.nexthop then none else some info

/-- `EigrpDualZapDrdb`. -/
def zapDrdb (c : Cell) (id : ℕ) (notify : Bool) : Cell :=
  match c.ndb.find id with
  | none => c
  | some r =>
    let k := c.ndb.rdb.findIdx fun r => r.id=id
    {c with
      ndb := {c.ndb with
        rdb := c.ndb.rdb.eraseIdx k
        succNum := if k<c.ndb.succNum then c.ndb.succNum-1 else c.ndb.succNum}
      rt := if notify then rtDelete c.rt r.nextHop else c.rt}

/-- `EigrpDualDndbDelete`. -/
def dndbDelete (c : Cell) : Cell :=
  if c.ndb.refCnt≠0 ∨ c.ndb.flagOnChgQue then c else {c with gone := true}

/-- A destination that nobody needs is freed. -/
def deleteIdle (c : Cell) : Cell := if c.ndb.rdb.isEmpty ∧ c.ndb.idle then dndbDelete c else c

/-- `EigrpDualRdbClear`. -/
def rdbClear (c : Cell) (id : ℕ) : Cell := deleteIdle (zapDrdb c id true)

/-- `EigrpDualCleanupDndb` with `EIGRP_DUAL_MULTI_MASK`. -/
def cleanupMulti (c : Cell) : Cell :=
  deleteIdle {c with ndb := {c.ndb with sndQuery := false,sndUpdate := false}}

/-- `EigrpDualCleanupDndb` with `EIGRP_DUAL_SEND_REPLY`. -/
def cleanupReply (c : Cell) : Cell := deleteIdle {c with ndb := {c.ndb with sndReply := false}}

/-- `EigrpDualCleanupDrdb`. -/
def cleanupDrdb (c : Cell) (id : ℕ) (zap : Bool) : Cell :=
  let c := {c with ndb := c.ndb.modify id fun r => {r with sndReply := false}}
  let c := match c.ndb.find id with
    | none => c
    | some r => if !c.ndb.active ∧ r.metric=inaccess ∧ zap then zapDrdb c id true else c
  if c.ndb.rdb.any Rdb.sndReply then c else cleanupReply c

/-- `EigrpDualXmitDndb`. -/
def xmitDndb (activeIntfCnt : ℕ) (c : Cell) : Cell :=
  let c := {c with ndb := {c.ndb with refCnt := activeIntfCnt}}
  if activeIntfCnt≠0 then
    if c.ndb.flagBeingSent then {c with ndb := {c.ndb with flagTellEveryone := true}} else c
  else cleanupMulti c

/-- `EigrpDualFinishUpdateSend` for a destination. -/
def finishUpdateSend (activeIntfCnt : ℕ) (c : Cell) : Cell :=
  if c.ndb.flagOnChgQue then
    xmitDndb activeIntfCnt {c with ndb := {c.ndb with flagOnChgQue := false}}
  else c

/-- `EigrpDualDropDndbRefcount`, for a packet that is an update or not. -/
def dropDndbRefcount (c : Cell) (update : Bool) : Cell :=
  let c := {c with ndb := {c.ndb with refCnt := c.ndb.refCnt-1}}
  if c.ndb.refCnt<0 then c
  else if c.ndb.refCnt=0 then
    let c := {c with ndb := {c.ndb with flagBeingSent := false,flagSplitHorizon := true}}
    if c.ndb.flagOnChgQue then c
    else
      let c := if update then {c with ndb := {c.ndb with flagTellEveryone := false}} else c
      cleanupMulti c
  else c

/-- `EigrpDualSendUpdate`. -/
def sendUpdate (n : Ndb) : Ndb :=
  if n.sndQuery then
    if n.active then n
    else {n with sndQuery := false,sndUpdate := true,flagOnChgQue := true}
  else {n with sndUpdate := true,flagOnChgQue := true}

/-- `EigrpDualSendQuery`. -/
def sendQuery (activeIntfCnt : ℕ) (c : Cell) : Cell :=
  xmitDndb activeIntfCnt {c with ndb := {c.ndb with sndUpdate := false,sndQuery := true}}

/-- `EigrpDualSendReply`. -/
def sendReply (c : Cell) (drdb : Option Rdb) : Cell :=
  match drdb with
  | none => c
  | some r =>
    {c with
      ndb := { c.ndb.modify r.id fun r => {r with sndReply := true} with sndReply := true }
      replies := c.replies++[(r.iidb,r.nextHop)]}

/-- `EigrpDualPromote`. -/
def promote (n : Ndb) (r : Rdb) : Ndb :=
  match n.rdb with
  | [] => n
  | first::_ =>
    if first.id=r.id then n
    else match n.find r.id with
      | none => n
      | some r =>
        let rest := n.rdb.eraseP fun q => q.id=r.id
        if 1<n.succNum ∧ !first.flagExt then {n with rdb := first::r::rest.tail}
        else {n with rdb := r::rest}

/-- What `EigrpIpRtUpdate` answers. -/
structure RtAnswer where
  success : Bool
  promote : Bool
  rt : Option RtInfo
  succNum : ℕ

/-- `EigrpIpRtUpdate`. -/
def rtUpdate (n : Ndb) (rt : Option RtInfo) (r : Rdb) : RtAnswer :=
  let other := n.rdb.any fun q => decide (q.origin=.connected ∨ q.origin=.redistributed ∨
    q.origin=.rstatic ∨ q.origin=.rconnect)
  if n.rdb.any fun q => decide (q.origin=.summary) then ⟨false,false,rt,n.succNum⟩
  else match rt with
    | some info =>
      if r.nextHop≠info.nexthop ∧ info.metric≤r.metric then ⟨false,false,rt,n.succNum⟩
      else ⟨true,!other,some ⟨r.nextHop,r.metric⟩,n.succNum⟩
    | none => ⟨true,!other,some ⟨r.nextHop,r.metric⟩,1⟩

/-- A redistributed or connected route comes before the first route of the chain. -/
def lowerThanFirst (n : Ndb) (r : Rdb) : Bool :=
  match n.rdb with
  | [] => true
  | first::_ => !(decide (first.origin=r.origin ∧ first.metric≤r.metric))

/-- `EigrpDualRtupdate`. -/
def rtupdate (c : Cell) (r : Rdb) : Cell :=
  match r.origin with
  | .connected =>
    let n := {c.ndb with succNum := 1}
    {c with ndb := if lowerThanFirst n r then promote n r else n}
  | .rstatic | .rconnect => {c with ndb := {c.ndb with succNum := 1}}
  | .redistributed =>
    let n := {c.ndb with succNum := 1}
    let overConnected := match n.rdb with
      | [] => false
      | first::_ => decide (first.origin=.connected)
    {c with ndb := if !overConnected ∧ lowerThanFirst n r then promote n r else n}
  | .summary | .eigrp =>
    let a := rtUpdate c.ndb c.rt r
    let n := {c.ndb with succNum := a.succNum}
    {c with ndb := if a.success ∧ a.promote then promote n r else n,rt := a.rt}

/-- `EigrpIpExteriorBit`. -/
def exteriorBit (r : Rdb) : Byte :=
  match r.extData with
  | some d => d.flag &&& infoCd
  | none => r.opaqueFlag

/-- `EigrpIpExteriorFlag`. -/
def exteriorFlag (n : Ndb) : Byte :=
  if (n.rdb.take n.succNum).any fun r => exteriorBit r≠0 then infoCd else 0

/-- The flag that `EigrpIpExteriorCheck` finds: the first that is set. -/
def exteriorCheck (n : Ndb) : Byte :=
  (((n.rdb.take n.succNum).map exteriorBit).find? fun b => b≠0).getD 0

/-- The reasons of `EigrpDualScanUpdate` to send an update, and the destination after it. -/
def scanReasons (n : Ndb) : Ndb :=
  match n.rdb with
  | [] => sendUpdate n
  | first::_ =>
    if first.flagExt≠n.flagExt then sendUpdate {n with flagExt := first.flagExt}
    else if (n.oldMetric≠inaccess ∧ n.succNum=0) ∨ first.metric≠n.metric ∨
        n.opaqueFlagOld≠exteriorCheck n then sendUpdate n
    else n

/-- A usable summary is promoted where there is no other successor. -/
def promoteSummary (n : Ndb) : Ndb :=
  if n.succNum=0 then
    match n.rdb.find? fun r => decide (r.origin=.summary ∧ r.metric≠inaccess) with
    | none => n
    | some r => promote {n with succNum := 1} r
  else n

/-- `EigrpDualScanUpdate`. -/
def scanUpdate (c : Cell) : Cell :=
  let c := {c with ndb := {c.ndb with succNum := 0}}
  let c := c.ndb.rdb.foldl (fun c r => if r.flagIgnore then c else rtupdate c r) c
  {c with ndb := scanReasons (promoteSummary c.ndb)}

/-- A route in the first loop of `EigrpDualRouteUpdate`. -/
def cleanRoute (c : Cell) (r : Rdb) : Cell :=
  if r.metric=inaccess then
    if !r.sndReply ∧ !c.ndb.exterminate then zapDrdb c r.id (decide (r.origin ≠ .summary))
    else {c with rt := rtDelete c.rt r.nextHop}
  else if r.origin=.eigrp ∨ r.origin=.summary then {c with rt := rtDelete c.rt r.nextHop}
  else c

def succIidbs (n : Ndb) : List (Option ℕ) := (n.rdb.take n.succNum).map Rdb.iidb

/-- The end of `EigrpDualRouteUpdate`: an interface has been gained or lost. -/
def diddleSplitHorizon (diddle : Bool) (before : List (Option ℕ)) (n : Ndb) : Ndb :=
  let n := if diddle then {n with flagSplitHorizon := true} else n
  if (succIidbs n).any fun i => !before.contains i then sendUpdate {n with flagSplitHorizon := false}
  else if before.any fun i => !(succIidbs n).contains i then
    sendUpdate {n with flagSplitHorizon := false}
  else n

/-- `EigrpDualRouteUpdate`. -/
def routeUpdate (c : Cell) : Cell :=
  let diddle := !(c.ndb.sndMulti && !c.ndb.flagSplitHorizon)
  let before := succIidbs c.ndb
  let c := scanUpdate (c.ndb.rdb.foldl cleanRoute c)
  if c.ndb.rdb.isEmpty ∧ c.ndb.idle then dndbDelete c
  else {c with ndb := diddleSplitHorizon diddle before c.ndb}

/-- `EigrpDualMaxRD`. -/
def maxRD (n : Ndb) : Ndb :=
  {n with metric := inaccess,vecMetric := {n.vecMetric with delay := inaccess}}

/-- `EigrpDualSetFD`. -/
def setFD (n : Ndb) (metric : U32) : Ndb := {n with oldMetric := metric}

/-- `EigrpDualSetRD`. -/
def setRD (n : Ndb) : Ndb :=
  match n.rdb with
  | [] => n
  | first::_ => {n with metric := first.metric,vecMetric := first.vecMetric}

/-- `EigrpDualSetDistance`. -/
def setDistance (n : Ndb) : Ndb :=
  if !n.rdb.isEmpty ∧ 0<n.succNum then
    let n := setRD n
    if n.metric<n.oldMetric then setFD n n.metric else n
  else maxRD n

/-- The loop of `EigrpDualTestFC`. -/
def testLoop (oldMetric : U32) : List Rdb→U32→Bool→Bool
  | [], _, fc => fc
  | r::rest, dmin, fc =>
    if !r.flagIgnore ∧ r.metric≤dmin then
      if r.succMetric<oldMetric then testLoop oldMetric rest r.metric true
      else if r.metric<dmin then testLoop oldMetric rest r.metric false
      else testLoop oldMetric rest dmin fc
    else testLoop oldMetric rest dmin fc

/-- `EigrpDualTestFC`. -/
def testFC (n : Ndb) : Bool :=
  if n.oldMetric=inaccess then true else testLoop n.oldMetric n.rdb inaccess false

/-- `EigrpDualFCSatisfied`. -/
def fcSatisfied (c : Cell) (drdb : Option Rdb) (query : Bool) : Cell :=
  let c := match c.ndb.origin with
    | .qoClear => c
    | .qoLocal => if query then sendReply c drdb else c
    | .qoMulti | .qoSuccs => sendReply c c.ndb.successor
  let c := routeUpdate c
  if c.gone then c else {c with ndb := setDistance c.ndb}

/-- The interface that `EigrpDualActive` does not query because of split horizon. -/
def splitHorizonIidb (P : Peers) (n : Ndb) (queryDrdb : Option ℕ) : Option ℕ :=
  match n.successor with
  | none => none
  | some r =>
    if n.flagBeingSent ∨ n.sndMulti then none
    else match r.iidb with
      | none => none
      | some i =>
        if (P.iidbs i).splitHorizon then
          match queryDrdb with
          | some id => if id=r.id then some i else none
          | none => if n.origin=.qoMulti then some i else none
        else none

/-- The peers that `EigrpDualActive` finds to query. -/
def queryCount (P : Peers) (sh : Option ℕ) : ℤ :=
  match sh with
  | none => P.handle.used.toNat
  | some i => P.handle.used.toNat-peerCount P i

/-- The reply status table that `EigrpDualActive` makes. -/
def replyTable (P : Peers) (sh : Option ℕ) : ReplyStatus :=
  match sh with
  | none => ⟨P.handle.used,some P.handle.array⟩
  | some i => ⟨P.handle.used-(P.iidbs i).handle.used,
      some (WordBits.mask P.handle.array (P.iidbs i).handle.array)⟩

/-- The handles of the interface do not fit into the reply status table. -/
def tableTooShort (P : Peers) (sh : Option ℕ) : Bool :=
  match sh with
  | none => false
  | some i => decide (P.handle.array.length<(P.iidbs i).handle.array.length)

/-- `EigrpDualActive`: whether the destination goes active. -/
def goActive (P : Peers) (c : Cell) (queryDrdb : Option ℕ) : Option (Bool × Cell) :=
  if P.handle.used=0 then some (false,c)
  else
    let sh := splitHorizonIidb P c.ndb queryDrdb
    let c := {c with ndb := {c.ndb with shQueryIdb := sh}}
    if queryCount P sh=0 then some (false,c)
    else if c.ndb.active then some (false, {c with asserted := true})
    else if tableTooShort P sh then
      some (false, {c with ndb := {c.ndb with replyStatus := ⟨0,none⟩},asserted := true})
    else
      let c := sendQuery P.activeIntfCnt {c with ndb := {c.ndb with replyStatus := replyTable P sh}}
      if c.gone then none
      else some (true, {c with
        ndb := {c.ndb with
          succNum := if c.ndb.succNum≠0 then 1 else c.ndb.succNum,flagSplitHorizon := sh.isSome}})

/-- The distances of a destination that has gone active. -/
def activeDistance (n : Ndb) : Ndb := if n.succNum=0 then maxRD n
  else if n.oldMetric=0 then
    match n.rdb with
    | [] => maxRD n
    | first::_ => setFD (maxRD n) first.metric
  else setFD (setRD n) (setRD n).metric

/-- `EigrpDualFC`. -/
def feasibility (P : Peers) (routerId : U32) (c : Cell) (drdb : Option ℕ) (query : Bool) :
    Option (Bool × Cell) :=
  if testFC c.ndb then
    some (true,fcSatisfied {c with ndb := {c.ndb with exterminate := false}}
      (drdb.bind c.ndb.find) query)
  else match drdb.bind c.ndb.find with
    | none => none
    | some r =>
      if r.flagExt ∧ r.originRouter=routerId then
        some (true,fcSatisfied {c with
          ndb := setFD {c.ndb with exterminate := true} inaccess} (some r) query)
      else match goActive P c (if query then some r.id else none) with
        | none => none
        | some (false,c) => some (true,fcSatisfied {c with ndb := setFD c.ndb inaccess} (some r) query)
        | some (true,c) =>
          let c := {c with ndb := activeDistance c.ndb}
          if (c.ndb.successor.map Rdb.id≠some r.id) ∧ query then some (false,sendReply c (some r))
          else some (false,c)

/-- `EigrpDualState`. -/
def setState (c : Cell) (origin : QueryOrigin) : Cell := {c with ndb := {c.ndb with origin := origin}}

/-- The query origin after a computation, unless the destination has been freed. -/
def stateAfter (c : Cell) (origin : QueryOrigin) : Cell := if c.gone then c else setState c origin

/-- `EigrpDualTransition`. -/
def transition (P : Peers) (routerId : U32) (c : Cell) (drdb : Option ℕ) : Option Cell :=
  match c.ndb.origin with
  | .qoClear => (feasibility P routerId c drdb false).map fun a => stateAfter a.2 .qoLocal
  | .qoLocal =>
    (feasibility P routerId {c with ndb := setFD c.ndb inaccess} drdb false).map fun a => a.2
  | .qoMulti => (feasibility P routerId c drdb false).map fun a =>
      stateAfter a.2 (if a.1 then .qoLocal else .qoSuccs)
  | .qoSuccs => (feasibility P routerId {c with ndb := setFD c.ndb inaccess} drdb false).map fun a =>
      stateAfter a.2 .qoLocal

/-- `EigrpDualCleanupReplyStatus`. -/
def cleanupReplyStatus (P : Peers) (routerId : U32) (c : Cell) (drdb : Option ℕ) : Option Cell :=
  if c.ndb.replyStatus.used=0 then
    transition P routerId {c with
      ndb := {c.ndb with replyStatus := ⟨0,none⟩,shQueryIdb := none}} drdb
  else some c

/-- A reply status table as a handle set. -/
def ReplyStatus.toHandle (s : ReplyStatus) : Handle := ⟨s.used,s.array.getD []⟩

/-- `EigrpDualClearHandle`. -/
def dualClearHandle (c : Cell) (handle : Option ℕ) : Cell :=
  match handle with
  | none => c
  | some h =>
    if testHandle c.ndb.replyStatus.toHandle h then
      let cleared := clearHandle c.ndb.replyStatus.toHandle h
      {c with
        ndb := {c.ndb with
          replyStatus := ⟨cleared.2.used,c.ndb.replyStatus.array.map fun _ => cleared.2.array⟩}
        asserted := c.asserted || !cleared.1}
    else c

end RoutePlatform.EigrpDual
