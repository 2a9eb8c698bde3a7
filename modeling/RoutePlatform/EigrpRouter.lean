import RoutePlatform.EigrpTopology

/-!
# EIGRP: events at a router

What a received update, query or reply, a change of a local route, a lost peer, a
destination that is stuck in active and the acknowledgement of what was sent do to the
topology table. The table is walked bucket by bucket; a new destination comes first in
its bucket.
-/

namespace RoutePlatform.EigrpDual

open EigrpItems (U32 inaccess Vmetric NetEntry)

inductive PacketKind
  | update
  | query
  | reply
deriving DecidableEq

/-- A destination that is new in the table. -/
def Ndb.create (route : Route) : Ndb where
  dest := route.dest
  metric := inaccess
  oldMetric := inaccess
  vecMetric := ⟨inaccess,0,0,0,0,0⟩
  origin := .qoLocal
  sndReply := false
  sndQuery := false
  sndUpdate := false
  succNum := 0
  replyStatus := ⟨0,none⟩
  opaqueFlagOld := 0
  flagExt := route.flagExt
  flagSplitHorizon := false
  flagBeingSent := false
  flagTellEveryone := false
  flagOnChgQue := false
  refCnt := 0
  rdb := []
  shQueryIdb := none
  exterminate := false

/-- A route that is new at a destination. -/
def Rdb.create (id : ℕ) (route : Route) : Rdb where
  id := id
  iidb := route.idb
  nextHop := route.nextHop
  infoSrc := route.infoSrc
  handle := none
  succMetric := inaccess
  metric := 0
  vecMetric := ⟨0,0,0,0,0,0⟩
  origin := .eigrp
  sndReply := false
  opaqueFlag := 0
  flagKeep := false
  flagExt := false
  flagIgnore := false
  extData := none
  originRouter := if route.flagExt then route.originRouter else 0

/-- An address that no route of the destination has. -/
def Ndb.freshId (n : Ndb) : ℕ := (n.rdb.map Rdb.id).foldr max 0+1

/-- The place of a new internal route in the chain. -/
def insertPlace (n : Ndb) (route : Route) : ℕ :=
  let start := match n.rdb with
    | [] => 0
    | first::_ =>
      if first.metric≤route.metric then
        if n.active then 1 else min n.succNum n.rdb.length
      else 0
  start+(n.rdb.drop start).findIdx fun r => decide (route.metric≤r.metric) && !r.flagExt

/-- A new route is linked into the chain. -/
def linkRdb (n : Ndb) (route : Route) (r : Rdb) : Ndb :=
  if route.flagExt then {n with rdb := r::n.rdb}
  else {n with rdb := n.rdb.insertIdx (insertPlace n route) r}

/-- `EigrpDualRdbLookup`. -/
def Ndb.lookup (n : Ndb) (idb : Option ℕ) (nextHop : U32) : Option Rdb :=
  n.rdb.find? fun r => decide (r.iidb=idb ∧ r.nextHop=nextHop)

/-- `EigrpDualCompareDrdb`. -/
def compareDrdb (route : Route) (r : Rdb) : Bool :=
  !(decide (route.data=r.extData) && decide (r.metric=route.metric) &&
    decide (r.vecMetric=route.vecMetric) && decide (r.flagExt=route.flagExt) &&
    decide (r.opaqueFlag=route.opaqueFlag) && decide (r.origin=route.origin) &&
    decide (r.flagKeep=route.flagKeep) && decide (r.flagIgnore=route.flagIgnore))

/-- The fields that a route takes over. -/
def Rdb.fill (route : Route) (r : Rdb) : Rdb :=
  {r with
    flagIgnore := route.flagIgnore,metric := route.metric,succMetric := route.succMetric
    vecMetric := route.vecMetric,flagExt := route.flagExt,opaqueFlag := route.opaqueFlag
    flagKeep := route.flagKeep,origin := route.origin,extData := route.data}

/-- The handle of the peer at the next hop; it fails where the route has another. -/
def routeHandle (P : Peers) (route : Route) (r : Rdb) : Option (Option ℕ) :=
  match route.idb with
  | none => some r.handle
  | some i =>
    if r.handle=findHandle P route.nextHop i then some r.handle
    else if r.handle=none then some (findHandle P route.nextHop i)
    else none

/-- What `EigrpDualUpdateTopo` hands back. -/
structure TopoResult where
  cell : Cell
  drdb : Option Rdb
  oldMetric : U32
  updateNeeded : Bool
  created : Bool

/-- The route of `EigrpDualUpdateTopo` and whether it is new. -/
def takeRdb (n : Ndb) (route : Route) : Ndb × Rdb × Bool :=
  match n.lookup route.idb route.nextHop with
  | some r => (n,r,false)
  | none =>
    let r := Rdb.create n.freshId route
    (linkRdb n route r,r,true)

/-- The rest of `EigrpDualUpdateTopo`, at a destination. -/
def updateRdb (P : Peers) (c : Cell) (route : Route) : TopoResult :=
  let (n,r,created) := takeRdb c.ndb route
  match routeHandle P route r with
  | none => ⟨{c with ndb := n},none,0,true,created⟩
  | some handle =>
    let r' := Rdb.fill route {r with handle := handle}
    ⟨{c with ndb := n.modify r.id fun _ => r'},some r',r.succMetric,
      compareDrdb route r || (decide (n.succNum=0) && decide (r.metric≠inaccess)),created⟩

def Cell.of (n : Ndb) (rt : Option RtInfo) : Cell := ⟨n,rt,false,false,[]⟩

/-- The first route is a summary. -/
def Ndb.summaryFirst (n : Ndb) : Bool :=
  match n.rdb with
  | [] => false
  | first::_ => decide (first.origin=.summary)

/-- `EigrpDualUpdateTopo`: `none` where it finds and makes no destination. -/
def updateTopo (P : Peers) (kind : PacketKind) (full : Bool) (found : Option Ndb)
    (rt : Option RtInfo) (route : Route) : Option TopoResult :=
  match found with
  | some n =>
    if route.origin ≠ .summary ∧ kind=.update ∧ n.summaryFirst then none
    else some (updateRdb P (Cell.of {n with opaqueFlagOld := exteriorFlag n} rt) route)
  | none =>
    if kind=.update ∧ (route.flagIgnore ∨ route.metric=inaccess ∨ full) then none
    else some (updateRdb P (Cell.of (Ndb.create route) rt) route)

/-- `EigrpDualRecvUpdate`. -/
def recvUpdate (P : Peers) (routerId : U32) (a : TopoResult) : Option Cell :=
  match a.drdb with
  | none => some a.cell
  | some r =>
    let c := a.cell
    if !a.updateNeeded then some c
    else if !c.ndb.active then
      if c.ndb.oldMetric≠inaccess ∨ r.succMetric≠inaccess then
        (feasibility P routerId c (some r.id) false).map fun a => a.2
      else if !r.sndReply then some (rdbClear c r.id)
      else some c
    else if 0<c.ndb.succNum ∧ c.ndb.successor.map Rdb.id=some r.id ∧ a.oldMetric<r.succMetric then
      match c.ndb.origin with
      | .qoLocal => some (setState c .qoClear)
      | .qoSuccs => some (setState c .qoMulti)
      | .qoClear | .qoMulti => some c
    else some c

/-- The end of `EigrpDualRecvQuery` at a passive destination. -/
def afterQuery (c : Cell) (fc : Bool) (id : ℕ) : Cell := if c.gone ∨ fc then c
  else setState c (if c.ndb.successor.map Rdb.id=some id then .qoSuccs else .qoLocal)

/-- `EigrpDualRecvQuery`. -/
def recvQuery (P : Peers) (routerId : U32) (a : TopoResult) : Option Cell :=
  match a.drdb with
  | none => some a.cell
  | some r =>
    let c := a.cell
    if !c.ndb.active then
      if c.ndb.oldMetric=inaccess ∧ r.succMetric=inaccess then some (sendReply c (some r))
      else (feasibility P routerId c (some r.id) true).map fun a => afterQuery a.2 a.1 r.id
    else if 0<c.ndb.succNum ∧ c.ndb.successor.map Rdb.id=some r.id then
      let c := if c.ndb.origin ≠ .qoSuccs then setState c .qoMulti else c
      if c.ndb.flagExt then some (sendReply c (some r)) else some c
    else some (sendReply c (some r))

/-- The end of `EigrpDualRecvReply`: a route that the reply made is dropped again. -/
def afterReply (c : Cell) (r : Rdb) (created : Bool) : Option Cell :=
  if created then
    if c.gone then none
    else if c.ndb.active ∧ r.succMetric=inaccess then some (zapDrdb c r.id false)
    else some c
  else some c

/-- `EigrpDualRecvReply`. -/
def recvReply (P : Peers) (routerId : U32) (a : TopoResult) : Option Cell :=
  match a.drdb with
  | none => some a.cell
  | some r =>
    let c := a.cell
    if c.ndb.replyStatus.used≠0 then
      (cleanupReplyStatus P routerId (dualClearHandle c r.handle) (some r.id)).bind fun c =>
        afterReply c r a.created
    else if r.succMetric=inaccess ∧ !r.sndReply then some (rdbClear c r.id)
    else some c

/-- `EigrpDualRecvPacket`. -/
def recvPacket (P : Peers) (routerId : U32) (kind : PacketKind) (a : TopoResult) : Option Cell :=
  match kind with
  | .update => recvUpdate P routerId a
  | .query => recvQuery P routerId a
  | .reply => recvReply P routerId a

/-- What happens to a destination when a peer is lost. -/
inductive PeerDown
  /-- A NULL pointer is followed. -/
  | crash
  /-- An assertion fails, and the walk over the table ends. -/
  | stop (c : Cell)
  | next (c : Cell)

/-- The computation for a destination goes on with the next. -/
def PeerDown.ofOption : Option Cell→PeerDown
  | none => .crash
  | some c => .next c

/-- The metrics of a route are infinite, and it has no peer. -/
def Rdb.lose (r : Rdb) : Rdb :=
  {r with
    handle := none,succMetric := inaccess,metric := inaccess
    vecMetric := {r.vecMetric with delay := inaccess}}

/-- `EigrpDualPeerDown` at a destination with a route of the peer. -/
def loseRoute (P : Peers) (routerId : U32) (p : Peer) (c : Cell) (r : Rdb) : Option Cell :=
  let c := {c with ndb := c.ndb.modify r.id Rdb.lose}
  if !c.ndb.active then
    if c.ndb.succNum=1 ∧ c.ndb.successor.map Rdb.id=some r.id then
      (feasibility P routerId {c with ndb := {c.ndb with succNum := 0}} (some r.id) false).map
        fun a => a.2
    else some (rdbClear c r.id)
  else
    let c := dualClearHandle c (some p.peerHandle)
    let c := if 0<c.ndb.succNum ∧ c.ndb.successor.map Rdb.id=some r.id then
        {c with ndb := {c.ndb with succNum := 0,origin := .qoClear}} else c
    cleanupReplyStatus P routerId c (some r.id)

/-- `EigrpDualPeerDown` at a destination. -/
def peerDownDest (P : Peers) (routerId : U32) (p : Peer) (c : Cell) : PeerDown :=
  match c.ndb.rdb.find? fun r => decide (r.infoSrc=p.source ∧ r.iidb=some p.iidb) with
  | some r =>
    let c := if r.sndReply then cleanupDrdb c r.id false else c
    if r.handle≠none ∧ r.handle≠some p.peerHandle then .stop c
    else .ofOption (loseRoute P routerId p c r)
  | none =>
    if c.ndb.active then
      .ofOption (cleanupReplyStatus P routerId (dualClearHandle c (some p.peerHandle)) none)
    else .next c

/-- `EigrpDualDdb_st`, with what has happened so far. -/
structure Router where
  peers : Peers
  routerId : U32
  /-- `topo`, in the order of the walk. -/
  topo : List Ndb
  rtTbl : NetEntry→Option RtInfo
  asserted : Bool
  /-- The destinations, interfaces and next hops of the routes handed to
  `EigrpDualSendReply`. -/
  replies : List (NetEntry × Option ℕ × U32)

def net (d : NetEntry) : NetEntry := ⟨d.address &&& d.mask,d.mask⟩

/-- `EigrpDualNdbLookup`. -/
def Router.find (R : Router) (dest : NetEntry) : Option Ndb :=
  R.topo.find? fun n => decide (net n.dest=net dest)

/-- A new destination comes first in its bucket. -/
def insertNdb (bucket : U32→ℕ) (n : Ndb) : List Ndb→List Ndb
  | [] => [n]
  | m::rest =>
    if bucket m.dest.address<bucket n.dest.address then m::insertNdb bucket n rest
    else n::m::rest

/-- A destination of the table is replaced or, once freed, removed. -/
def replaceNdb (c : Cell) : List Ndb→List Ndb
  | [] => []
  | m::rest =>
    if net m.dest=net c.ndb.dest then (if c.gone then rest else c.ndb::rest)
    else m::replaceNdb c rest

/-- The table after an event at a destination. -/
def Router.put (R : Router) (c : Cell) : Router :=
  {R with
    topo := replaceNdb c R.topo
    rtTbl := Function.update R.rtTbl (net c.ndb.dest) c.rt
    asserted := R.asserted || c.asserted
    replies := R.replies++c.replies.map fun k => (net c.ndb.dest,k)}

/-- `EIGRP_MAX_ROUTE`. -/
def maxRoute : ℕ := 0x100000

/-- A route enters the table by a packet of some kind. -/
def Router.recv (bucket : U32→ℕ) (R : Router) (kind : PacketKind) (route : Route) : Option Router :=
  let found := R.find route.dest
  match updateTopo R.peers kind (decide (maxRoute<R.topo.length)) found
      (R.rtTbl (net route.dest)) route with
  | none => some R
  | some a =>
    let R := if found.isNone then {R with topo := insertNdb bucket a.cell.ndb R.topo} else R
    (recvPacket R.peers R.routerId kind a).map R.put

/-- What changes the transmission state of a destination. -/
inductive XmitEvent
  | finish (dest : NetEntry)
  /-- `EigrpDualPacketizeThread` puts the destination into a packet. -/
  | sent (dest : NetEntry)
  /-- A multicast with the destination is acknowledged on an interface. -/
  | drop (dest : NetEntry) (update : Bool)
  | replied (dest : NetEntry) (id : ℕ)

def XmitEvent.dest : XmitEvent→NetEntry
  | .finish d | .sent d => d
  | .drop d _ => d
  | .replied d _ => d

def XmitEvent.apply (activeIntfCnt : ℕ) (c : Cell) : XmitEvent→Cell
  | .finish _ => finishUpdateSend activeIntfCnt c
  | .sent _ => {c with ndb := {c.ndb with flagBeingSent := true}}
  | .drop _ update => dropDndbRefcount c update
  | .replied _ id => cleanupDrdb c id true

def Router.xmit (R : Router) (e : XmitEvent) : Router :=
  match R.find e.dest with
  | none => R
  | some n => R.put (e.apply R.peers.activeIntfCnt (Cell.of n (R.rtTbl (net n.dest))))

/-- The walk of `EigrpDualPeerDown` over the table: whether it gets to the end. -/
def Router.walk (p : Peer) : List NetEntry→Router→Option (Bool × Router)
  | [], R => some (true,R)
  | dest::rest, R =>
    match R.find dest with
    | none => R.walk p rest
    | some n =>
      match peerDownDest R.peers R.routerId p (Cell.of n (R.rtTbl (net n.dest))) with
      | .crash => none
      | .stop c => some (false,R.put c)
      | .next c => (R.put c).walk p rest

/-- `EigrpDualPeerDown`; the packets of the peer are flushed before and after it is
destroyed. -/
def Router.peerDown (R : Router) (p : Peer) (before after : List XmitEvent) : Option Router :=
  match ({R with peers := freeHandle R.peers p} : Router).walk p (R.topo.map Ndb.dest) with
  | none => none
  | some (false,R) => some R
  | some (true,R) =>
    let R := before.foldl Router.xmit R
    some (after.foldl Router.xmit {R with peers := destroyPeer R.peers p})

/-- What is flushed when a peer is taken down. -/
abbrev Flush := Peer→List XmitEvent × List XmitEvent

/-- A peer whose bit is set is taken down. -/
def Router.takeDown (R : Router) (dest : NetEntry) (n : Ndb) (flush : Flush) (p : Peer) :
    Option Router :=
  let R := R.put (dualClearHandle (Cell.of n (R.rtTbl (net dest))) (some p.peerHandle))
  R.peerDown p (flush p).1 (flush p).2

/-- The first loop of `EigrpDualUnstickDndb`. -/
def Router.unstickRoutes (dest : NetEntry) (flush : Flush) : List ℕ→Router→Option Router
  | [], R => some R
  | id::rest, R =>
    match R.find dest with
    | none => some R
    | some n =>
      if n.active then
        match (n.find id).bind Rdb.handle with
        | none => R.unstickRoutes dest flush rest
        | some h =>
          if testHandle n.replyStatus.toHandle h then
            match handleToPeer R.peers h with
            | none => R.unstickRoutes dest flush rest
            | some p => (R.takeDown dest n flush p).bind fun R => R.unstickRoutes dest flush rest
          else R.unstickRoutes dest flush rest
      else some R

/-- The second loop of `EigrpDualUnstickDndb`. -/
def Router.unstickPeers (dest : NetEntry) (flush : Flush) : List Peer→Router→Option Router
  | [], R => some R
  | p::rest, R =>
    match R.find dest with
    | none => some R
    | some n =>
      if n.active then
        if testHandle n.replyStatus.toHandle p.peerHandle then
          (R.takeDown dest n flush p).bind fun R => R.unstickPeers dest flush rest
        else R.unstickPeers dest flush rest
      else some R

/-- The end of `EigrpDualUnstickDndb`. -/
def Router.unstickRest (R : Router) (dest : NetEntry) : Option Router :=
  match R.find dest with
  | none => some R
  | some n =>
    if n.active ∧ n.replyStatus.used≠0 then
      (cleanupReplyStatus R.peers R.routerId
        { Cell.of {n with replyStatus := {n.replyStatus with used := 0}} (R.rtTbl (net dest)) with
          asserted := true } none).map R.put
    else some R

/-- `EigrpDualUnstickDndb`. -/
def Router.unstick (R : Router) (dest : NetEntry) (flush : Flush) : Option Router :=
  match R.find dest with
  | none => some R
  | some n =>
    if n.active then
      (R.unstickRoutes dest flush (n.rdb.map Rdb.id)).bind fun R =>
        (R.unstickPeers dest flush R.peers.peerLst).bind fun R => R.unstickRest dest
    else some R

/-- `EigrpDualConnRtchange`. -/
def connRoute (route : Route) (up : Bool) : Route :=
  {route with
    flagExt := false,origin := .connected,data := none,flagIgnore := false
    succMetric := if up then 0 else route.succMetric}

/-- `EigrpDualRtchange`: a route comes up or goes down. -/
def Router.rtchange (bucket : U32→ℕ) (R : Router) (route : Route) (up : Bool) : Option Router :=
  if up then
    if route.metric=inaccess then some R
    else R.recv bucket .update {route with succMetric := 0}
  else
    match R.find route.dest with
    | none => some R
    | some n =>
      match n.lookup route.idb route.nextHop with
      | none => some R
      | some _ => R.recv bucket .update {route with
          succMetric := inaccess,metric := inaccess
          vecMetric := {route.vecMetric with delay := inaccess}}

/-- The test for a passive destination whose distance changed. -/
def Router.check (R : Router) (n : Ndb) (drdb : Option ℕ) : Option Router :=
  (feasibility R.peers R.routerId (Cell.of n (R.rtTbl (net n.dest))) drdb false).map fun a => R.put a.2

/-- `EigrpDualValidateNdbRoute`. -/
def Router.validate (R : Router) (dest : NetEntry) : Option Router :=
  match R.find dest with
  | none => some R
  | some n => if n.active then some R else R.check n (n.successor.map Rdb.id)

/-- `EigrpDualReloadProtoTable`: a redistributed route that need not be kept is lost. -/
def Ndb.reload (n : Ndb) : Ndb :=
  match n.rdb with
  | [] => n
  | first::rest =>
    if first.origin=.redistributed ∧ !first.flagKeep then
      {n with rdb := {first with
          metric := inaccess,succMetric := inaccess
          vecMetric := {first.vecMetric with delay := inaccess}}::rest}
    else n

/-- `EigrpDualReloadProtoTable` at a destination. -/
def Router.reload (R : Router) (dest : NetEntry) : Option Router :=
  match R.find dest with
  | none => some R
  | some n =>
    if n.active then some (R.put (Cell.of n.reload (R.rtTbl (net n.dest))))
    else R.check n.reload (n.successor.map Rdb.id)

/-- `EigrpDualLostRoute`. -/
def Router.lostRoute (R : Router) (dest : NetEntry) : Option Router :=
  match R.find dest with
  | none => some R
  | some n =>
    match n.successor with
    | none => some R
    | some first =>
      if n.active ∨ first.origin ≠ .eigrp then some R else R.check (setFD n 0) (some first.id)

/-- `EigrpDualIfDelete`. -/
def Router.ifDelete (R : Router) (i : ℕ) : Router :=
  {R with topo := R.topo.map fun n =>
      {n with rdb := n.rdb.map fun r => if r.iidb=some i then {r with iidb := none} else r}}

inductive Event
  | newPeer (source : U32) (i : ℕ)
  | recv (kind : PacketKind) (route : Route)
  | conn (route : Route) (up : Bool)
  | rtchange (route : Route) (up : Bool)
  | peerDown (p : Peer) (before after : List XmitEvent)
  | unstick (dest : NetEntry) (flush : Flush)
  | validate (dest : NetEntry)
  | reload (dest : NetEntry)
  | lostRoute (dest : NetEntry)
  | ifDelete (i : ℕ)
  | xmit (e : XmitEvent)

/-- A step of the router; `none` where a NULL pointer is followed. -/
def step (bucket : U32→ℕ) (R : Router) : Event→Option Router
  | .newPeer source i =>
    if source≠0 ∧ (findPeer R.peers source i).isNone then
      some {R with peers := newPeer R.peers source i}
    else some R
  | .recv kind route =>
    match route.idb with
    | none => some R
    | some i => if (findPeer R.peers route.infoSrc i).isSome then R.recv bucket kind route else some R
  | .conn route up => R.recv bucket .update (connRoute route up)
  | .rtchange route up => R.rtchange bucket route up
  | .peerDown p before after => if p∈R.peers.peerLst then R.peerDown p before after else some R
  | .unstick dest flush => R.unstick dest flush
  | .validate dest => R.validate dest
  | .reload dest => R.reload dest
  | .lostRoute dest => R.lostRoute dest
  | .ifDelete i => if R.peers.peerLst.any fun p => p.iidb=i then some R else some (R.ifDelete i)
  | .xmit e => some (R.xmit e)

def Router.init (routerId : U32) (splitHorizon : ℕ→Bool) : Router where
  peers := Peers.init splitHorizon
  routerId := routerId
  topo := []
  rtTbl := fun _ => none
  asserted := false
  replies := []

def run (bucket : U32→ℕ) : Router→List Event→Option Router
  | R, [] => some R
  | R, e::es => (step bucket R e).bind fun R => run bucket R es

end RoutePlatform.EigrpDual
