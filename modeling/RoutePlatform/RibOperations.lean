import RoutePlatform.RibEntries

/-!
# The RIB of zebra

The tables of `zebra/zebra_rib.c` for IPv4: nodes with their locks, the meta queue, static routes
and the redistribution of `zebra/redistribute.c`. A node is known by its table and by its prefix;
the bits behind the prefix length do not matter.
-/

namespace RoutePlatform.RibOperations

open RibEntries Function

structure PrefixIpv4 where
  address : BitVec 32
  prefixlen : Fin 33
  deriving DecidableEq

theorem eight_lt_lengths : 8<33 := by decide

/-- The length of the prefixes in the examples. -/
def slash8 : Fin 33 := ⟨8,eight_lt_lengths⟩

def applyMaskIpv4 (p : PrefixIpv4) : PrefixIpv4 :=
  {p with address := p.address &&& (BitVec.allOnes 32 <<< (32-p.prefixlen.val))}

abbrev RouteNode := Safi × PrefixIpv4

/-- `rib_dest_t`. -/
structure RibDest where
  queued : Fin 5→Bool
  routes : List Rib

/-- `struct route_node`. -/
structure Node where
  lock : ℕ
  dest : Option RibDest
  /-- History: the sub-queues where the node waits since before its dest was
  freed. -/
  orphan : Fin 5→Bool
  /-- History: an entry was added since the last `rib_process`. -/
  unprocessed : Bool

/-- The gateway, interface or Null0 of a static route. -/
inductive StaticGate where
  | gateway (address : BitVec 32)
  | ifname (name : String)
  | blackhole
  deriving DecidableEq

structure StaticIpv4 where
  distance : BitVec 8
  gate : StaticGate
  flags : ZebraFlags
  deriving DecidableEq

/-- `ZEBRA_IPV4_ROUTE_ADD` and `ZEBRA_IPV4_ROUTE_DELETE`. -/
inductive Command where
  | add | delete
  deriving DecidableEq

/-- A message to a client. Flags, next hop, distance and metric are left
out. -/
structure Message where
  command : Command
  p : PrefixIpv4
  type : RouteType
  deriving DecidableEq

structure Zserv where
  redist : RouteType→Bool
  redistDefault : Bool
  sent : List Message

/-- The tables, the meta queue and the clients of zebra. -/
structure Zebra where
  /-- The nodes. One that no table has is like a new one. -/
  nodes : RouteNode→Node
  subq : Fin 5→List RouteNode
  size : ℕ
  /-- The static routes of a node of `stable`. -/
  stable : RouteNode→List StaticIpv4
  clients : ℕ→Zserv
  nextRib : ℕ

/-- Nothing is there at the start. -/
def emptyZebra : Zebra where
  nodes := fun _ => ⟨0,none,fun _ => false,false⟩
  subq := fun _ => []
  size := 0
  stable := fun _ => []
  clients := fun _ => ⟨fun _ => false,false,[]⟩
  nextRib := 0

def Zebra.setNode (s : Zebra) (rn : RouteNode) (node : Node) : Zebra :=
  {s with nodes := update s.nodes rn node}

def routeLockNode (s : Zebra) (rn : RouteNode) : Zebra :=
  s.setNode rn {s.nodes rn with lock := (s.nodes rn).lock+1}

def routeUnlockNode (s : Zebra) (rn : RouteNode) : Zebra :=
  s.setNode rn {s.nodes rn with lock := (s.nodes rn).lock-1}

def routeNode (safi : Safi) (p : PrefixIpv4) : RouteNode := (safi,applyMaskIpv4 p)

def rnodeToRibs (s : Zebra) (rn : RouteNode) : List Rib :=
  match (s.nodes rn).dest with
  | none => []
  | some dest => dest.routes

/-- The entries of a node change. -/
def Zebra.setRoutes (s : Zebra) (rn : RouteNode) (f : List Rib→List Rib) : Zebra :=
  match (s.nodes rn).dest with
  | none => s
  | some dest => s.setNode rn {s.nodes rn with dest := some {dest with routes := f dest.routes}}

/-- The body of the loop in `rib_meta_queue_add`. -/
def queueType (rn : RouteNode) (s : Zebra) (type : RouteType) : Zebra :=
  let q := metaQueueMap type
  match (s.nodes rn).dest with
  | none => s
  | some dest =>
    if dest.queued q then s
    else
      let s := s.setNode rn
        {s.nodes rn with dest := some {dest with queued := update dest.queued q true}}
      let s := {s with subq := update s.subq q (s.subq q++[rn])}
      let s := routeLockNode s rn
      {s with size := s.size+1}

def ribMetaQueueAdd (s : Zebra) (rn : RouteNode) : Zebra :=
  ((rnodeToRibs s rn).map Rib.type).foldl (queueType rn) s

def ribQueueAdd (s : Zebra) (rn : RouteNode) : Zebra :=
  if rnodeToRibs s rn=[] then s else ribMetaQueueAdd s rn

/-- The part of `rib_link` that makes the dest. -/
def destCreate (s : Zebra) (rn : RouteNode) : Zebra :=
  match (s.nodes rn).dest with
  | some _ => s
  | none =>
    let s := routeLockNode s rn
    s.setNode rn {s.nodes rn with dest := some ⟨fun _ => false,[]⟩}

/-- `rib_link`. The entry gets its number. -/
def ribLink (s : Zebra) (rn : RouteNode) (rib : Rib) : Zebra :=
  let s := destCreate s rn
  let s := s.setRoutes rn fun routes => {rib with addr := s.nextRib}::routes
  let s := s.setNode rn {s.nodes rn with unprocessed := true}
  ribQueueAdd {s with nextRib := s.nextRib+1} rn

def ribAddnode (s : Zebra) (rn : RouteNode) (rib : Rib) : Zebra :=
  if rib.removed then
    s.setRoutes rn (modifyRib rib.addr fun rib => {rib with removed := false})
  else ribLink s rn rib

def ribDelnode (s : Zebra) (rn : RouteNode) (addr : ℕ) : Zebra :=
  ribQueueAdd (s.setRoutes rn (modifyRib addr fun rib => {rib with removed := true})) rn

def ribGcDest (s : Zebra) (rn : RouteNode) : Zebra :=
  match (s.nodes rn).dest with
  | none => s
  | some dest =>
    if dest.routes=[] then
      let node := s.nodes rn
      let s := s.setNode rn
        {node with dest := none,orphan := fun q => node.orphan q || dest.queued q}
      routeUnlockNode s rn
    else s

def isDefault (p : PrefixIpv4) : Bool := p.address=0 && p.prefixlen=0

def zsendRouteMultipath (client : Zserv) (command : Command) (p : PrefixIpv4) (type : RouteType) :
    Zserv :=
  {client with sent := client.sent++[⟨command,p,type⟩]}

/-- The client is told about the prefix. -/
def Zserv.wants (client : Zserv) (p : PrefixIpv4) (type : RouteType) : Bool :=
  if isDefault p then client.redistDefault || client.redist type else client.redist type

/-- `redistribute_add`, for one client. -/
def redistributeAdd (p : PrefixIpv4) (type : RouteType) (client : Zserv) : Zserv :=
  if client.wants p type then zsendRouteMultipath client .add p type else client

/-- `redistribute_delete`, for one client. -/
def redistributeDelete (p : PrefixIpv4) (type : RouteType) (distance : BitVec 8)
    (client : Zserv) : Zserv :=
  if distance=distanceInfinity then client
  else if client.wants p type then zsendRouteMultipath client .delete p type else client

def redistribute (p : PrefixIpv4) (client : Zserv) : RedistCall→Zserv
  | .add type => redistributeAdd p type client
  | .delete type distance => redistributeDelete p type distance client

def Zebra.redistribute (s : Zebra) (p : PrefixIpv4) (calls : List RedistCall) : Zebra :=
  {s with clients := fun i => calls.foldl (RibOperations.redistribute p) (s.clients i)}

def zebraCheckAddr (p : PrefixIpv4) : Bool :=
  !(p.address &&& 0xff000000=0x7f000000 || p.address &&& 0xf0000000=0xe0000000 ||
    p.address &&& 0xffff0000=0xa9fe0000)

/-- An entry that a new subscriber of the type is told about. -/
def snapshotWants (type : RouteType) (p : PrefixIpv4) (rib : Rib) : Bool :=
  rib.flags.selected && rib.type=type && rib.distance≠distanceInfinity && zebraCheckAddr p

/-- A walk over prefixes of the unicast table that sends some entries to a
client. -/
def sendRoutes (s : Zebra) (wants : PrefixIpv4→Rib→Bool) (nodes : List PrefixIpv4)
    (client : Zserv) : Zserv :=
  nodes.foldl (fun client p => (rnodeToRibs s (.unicast,p)).foldl (fun client rib =>
    if wants p rib then zsendRouteMultipath client .add p rib.type else client) client) client

/-- `zebra_redistribute`; `nodes` are the prefixes that `route_top` and
`route_next` visit. -/
def zebraRedistribute (s : Zebra) (nodes : List PrefixIpv4) (type : RouteType) (client : Zserv) :
    Zserv :=
  sendRoutes s (snapshotWants type) nodes client

def zebraRedistributeDefault (s : Zebra) (client : Zserv) : Zserv :=
  sendRoutes s (fun _ rib => rib.flags.selected && rib.distance≠distanceInfinity) [⟨0,0⟩] client

def Zebra.setClient (s : Zebra) (c : ℕ) (client : Zserv) : Zebra :=
  {s with clients := update s.clients c client}

/-- `redist` of a client changes. -/
def Zserv.setRedist (client : Zserv) (type : RouteType) (b : Bool) : Zserv :=
  {client with redist := update client.redist type b}

def zebraRedistributeAdd (s : Zebra) (nodes : List PrefixIpv4) (c : ℕ) (type : RouteType) : Zebra :=
  if type=.system then s
  else if (s.clients c).redist type then s
  else s.setClient c (zebraRedistribute s nodes type ((s.clients c).setRedist type true))

def zebraRedistributeDelete (s : Zebra) (c : ℕ) (type : RouteType) : Zebra :=
  if type=.system then s else s.setClient c ((s.clients c).setRedist type false)

def zebraRedistributeDefaultAdd (s : Zebra) (c : ℕ) : Zebra :=
  s.setClient c (zebraRedistributeDefault s {s.clients c with redistDefault := true})

def zebraRedistributeDefaultDelete (s : Zebra) (c : ℕ) : Zebra :=
  s.setClient c {s.clients c with redistDefault := false}

def ribProcess (env : Environment) (s : Zebra) (rn : RouteNode) : Option Zebra :=
  (ribProcessRoutes rn.1 env (rnodeToRibs s rn)).map fun out =>
    let s := s.setRoutes rn fun _ => out.1
    let s := s.setNode rn {s.nodes rn with unprocessed := false}
    ribGcDest (s.redistribute rn.2 out.2) rn

/-- `process_subq`, for a sub-queue that has a node at its head. -/
def processSubq (env : Environment) (s : Zebra) (q : Fin 5) (rn : RouteNode)
    (rest : List RouteNode) : Option Zebra :=
  (ribProcess env s rn).map fun s =>
    let node := s.nodes rn
    let s := s.setNode rn {node with
        dest := node.dest.map fun dest => {dest with queued := update dest.queued q false}
        orphan := update node.orphan q false}
    let s := routeUnlockNode s rn
    {s with subq := update s.subq q rest}

def metaQueueProcess (env : Environment) (s : Zebra) : Option Zebra :=
  match (List.finRange 5).find? fun q => s.subq q≠[] with
  | none => some s
  | some q =>
    match s.subq q with
    | [] => some s
    | rn::rest => (processSubq env s q rn rest).map fun s => {s with size := s.size-1}

/-- A next hop that a caller asks for. -/
structure HopRequest where
  type : NexthopType
  ifname : String
  ifindex : BitVec 32
  gate : BitVec 32
  src : BitVec 32

/-- An entry that a caller has made. -/
structure RibRequest where
  type : RouteType
  /-- `route_info` for the type at the call: `routeInfoDistance` of it, unless
  `zebra_route_update_default_distance` has set another one. -/
  routeInfo : BitVec 8
  table : BitVec 32
  metric : BitVec 32
  distance : BitVec 8
  flags : ZebraFlags
  nexthops : List HopRequest

/-- The distance of the new entry. -/
def RibRequest.setDistance (request : RibRequest) : BitVec 8 :=
  if request.distance=0 then
    if request.type=.bgp && request.flags.ibgp then 200 else request.routeInfo
  else request.distance

/-- The new entry, with the FIB flag for kernel routes. -/
def newRib (request : RibRequest) : Rib :=
  let rib := Rib.new request.type request.table request.metric request.setDistance request.flags
  let rib := request.nexthops.foldl (fun rib hop =>
    nexthopAdd rib (Nexthop.new hop.type hop.ifname hop.ifindex hop.gate hop.src)) rib
  if rib.system then
    {rib with nexthops := rib.nexthops.map fun hop => {hop with fib := true}}
  else rib

/-- The first next hop leads to an interface. -/
def directHop (rib : Rib) : Option Nexthop :=
  match rib.nexthops with
  | [] => none
  | hop::_ => if hop.type=.ifindex then some hop else none

/-- The arguments of `rib_add_ipv4`. -/
structure AddRequest where
  type : RouteType
  routeInfo : BitVec 8
  flags : ZebraFlags
  p : PrefixIpv4
  gate : Option (BitVec 32)
  src : Option (BitVec 32)
  ifindex : BitVec 32
  vrfId : BitVec 32
  metric : BitVec 32
  distance : BitVec 8
  safi : Safi

/-- The next hop that `rib_add_ipv4` makes. -/
def AddRequest.hop (request : AddRequest) : HopRequest :=
  match request.gate with
  | some gate =>
    if request.ifindex≠0 then
      ⟨.ipv4Ifindex, "",request.ifindex,gate,request.src.getD 0⟩
    else ⟨.ipv4, "",0,gate,request.src.getD 0⟩
  | none => ⟨.ifindex, "",request.ifindex,0,0⟩

/-- The new entry of `rib_add_ipv4`. -/
def AddRequest.rib (request : AddRequest) : RibRequest :=
  ⟨request.type,request.routeInfo,request.vrfId,request.metric,request.distance,request.flags,
    [request.hop]⟩

/-- The live entry at which `rib_add_ipv4` stops: of the same type, and if connected also of the
same interface. -/
def addStops (type : RouteType) (ifindex : BitVec 32) (rib : Rib) : Bool :=
  !rib.removed && rib.type=type &&
    (type ≠ .connect || (directHop rib).any fun hop => hop.ifindex=ifindex)

/-- The end of both functions: link the new entry, and delete the old one. -/
def addReplacing (s : Zebra) (rn : RouteNode) (rib : Rib) (same : Option Rib) : Zebra :=
  let s := ribAddnode s rn rib
  let s :=
    match same with
    | none => s
    | some same => ribDelnode s rn same.addr
  routeUnlockNode s rn

/-- `rib_add_ipv4`. A duplicate connected route keeps the lock on its node. -/
def ribAddIpv4 (s : Zebra) (request : AddRequest) : Zebra :=
  let rn := routeNode request.safi request.p
  let s := routeLockNode s rn
  let same := (rnodeToRibs s rn).find? (addStops request.type request.ifindex)
  match same, request.type with
  | some same, .connect =>
    s.setRoutes rn (modifyRib same.addr fun rib => {rib with refcnt := rib.refcnt+1})
  | same, _ => addReplacing s rn (newRib request.rib) same

/-- The live entry at which the loop of `rib_add_ipv4_multipath` stops. -/
def multipathStops (rib same : Rib) : Bool :=
  !same.removed && same.type=rib.type && same.table=rib.table && same.type ≠ .connect

def ribAddIpv4Multipath (s : Zebra) (p : PrefixIpv4) (request : RibRequest) (safi : Safi) : Zebra :=
  let rn := routeNode safi p
  let s := routeLockNode s rn
  let rib := newRib request
  addReplacing s rn rib ((rnodeToRibs s rn).find? (multipathStops rib))

/-- What the loop of `rib_delete_ipv4` finds: a connected route that was added
more than once, the entry to delete, or neither. -/
inductive DeleteFound where
  | counted (rib : Rib)
  | same (rib : Rib)
  | missing (fib : Option Rib)

def hasGate (gate : BitVec 32) (rib : Rib) : Bool :=
  rib.nexthops.any fun hop => hop.gate=gate || hop.resolved.any fun h => h.gate=gate

/-- The loop of `rib_delete_ipv4`. -/
def deleteLookup (type : RouteType) (gate : Option (BitVec 32)) (ifindex : BitVec 32) :
    Option Rib→List Rib→DeleteFound
  | fib, [] => .missing fib
  | fib, rib::rest =>
    if rib.removed then deleteLookup type gate ifindex fib rest
    else
      let fib := if rib.flags.selected then some rib else fib
      if rib.type≠type then deleteLookup type gate ifindex fib rest
      else
        match if rib.type=.connect then directHop rib else none with
        | some hop =>
          if hop.ifindex≠ifindex then deleteLookup type gate ifindex fib rest
          else if rib.refcnt≠0 then .counted rib
          else .same rib
        | none =>
          match gate with
          | none => .same rib
          | some gate =>
            if hasGate gate rib then .same rib
            else deleteLookup type (some gate) ifindex fib rest

/-- The arguments of `rib_delete_ipv4`. -/
structure DeleteRequest where
  type : RouteType
  p : PrefixIpv4
  gate : Option (BitVec 32)
  ifindex : BitVec 32
  safi : Safi

/-- The flags of the next hops themselves, without those they resolve to. -/
def unsetTopFib (rib : Rib) : Rib :=
  {rib with nexthops := rib.nexthops.map fun hop => {hop with fib := false}}

def ribDeleteIpv4 (s : Zebra) (request : DeleteRequest) : Zebra :=
  let rn := routeNode request.safi request.p
  if (s.nodes rn).dest.isNone then s
  else
    let s := routeLockNode s rn
    match deleteLookup request.type request.gate request.ifindex none (rnodeToRibs s rn) with
    | .counted rib =>
      let s := s.setRoutes rn (modifyRib rib.addr fun rib => {rib with refcnt := rib.refcnt-1})
      routeUnlockNode (routeUnlockNode s rn) rn
    | .same rib => routeUnlockNode (ribDelnode s rn rib.addr) rn
    | .missing (some fib) =>
      if request.type=.kernel then
        -- The message is from the kernel: the route is gone from there.
        let s := s.setRoutes rn (modifyRib fib.addr fun rib => (unsetTopFib rib).setSelected false)
        routeUnlockNode s rn
      else routeUnlockNode s rn
    | .missing none => routeUnlockNode s rn

/-- The next hop of a static route. -/
def staticHop : StaticGate→Nexthop
  | .gateway address => Nexthop.new .ipv4 "" 0 address 0
  | .ifname name => Nexthop.new .ifname name 0 0 0
  | .blackhole => Nexthop.new .blackhole "" 0 0 0

/-- The `switch` of `static_install_ipv4`; `nexthop_blackhole_add` sets a flag
of the entry. -/
def staticNexthopAdd (si : StaticIpv4) (rib : Rib) : Rib :=
  match si.gate with
  | .blackhole =>
    nexthopAdd {rib with flags := {rib.flags with blackhole := true}} (staticHop si.gate)
  | _ => nexthopAdd rib (staticHop si.gate)

/-- A live static entry of the distance. -/
def staticStops (distance : BitVec 8) (rib : Rib) : Bool :=
  !rib.removed && rib.type=.static && rib.distance=distance

/-- The new entry of `static_install_ipv4`, with the flags of the route. -/
def newStaticRib (si : StaticIpv4) : Rib :=
  {staticNexthopAdd si (Rib.new .static 0 0 si.distance ZebraFlags.none) with flags := si.flags}

def staticInstallIpv4 (s : Zebra) (safi : Safi) (p : PrefixIpv4) (si : StaticIpv4) : Zebra :=
  let rn := routeNode safi p
  let s := routeLockNode s rn
  match (rnodeToRibs s rn).find? (staticStops si.distance) with
  | some rib =>
    let s := routeUnlockNode s rn
    ribQueueAdd (s.setRoutes rn (modifyRib rib.addr (staticNexthopAdd si))) rn
  | none => ribAddnode s rn (newStaticRib si)

def staticIpv4NexthopSame (si : StaticIpv4) (hop : Nexthop) : Bool :=
  match si.gate with
  | .gateway address => hop.type=.ipv4 && hop.gate=address
  | .ifname name => hop.type=.ifname && hop.ifname=name
  | .blackhole => hop.type=.blackhole

def nexthopDelete (si : StaticIpv4) (rib : Rib) : Rib :=
  {rib with
    nexthops := rib.nexthops.eraseP (staticIpv4NexthopSame si)
    nexthopNum := rib.nexthopNum-1}

def ribUninstall (s : Zebra) (rn : RouteNode) (rib : Rib) : Zebra :=
  if rib.flags.selected then
    let s := s.redistribute rn.2 [.delete rib.type rib.distance]
    s.setRoutes rn (modifyRib rib.addr fun rib => (uninstallRib rn.1 rib).setSelected false)
  else s

def staticUninstallIpv4 (s : Zebra) (safi : Safi) (p : PrefixIpv4) (si : StaticIpv4) : Zebra :=
  let rn := routeNode safi p
  if (s.nodes rn).dest.isNone then s
  else
    let s := routeLockNode s rn
    match (rnodeToRibs s rn).find? (staticStops si.distance) with
    | none => routeUnlockNode s rn
    | some rib =>
      match rib.nexthops.find? (staticIpv4NexthopSame si) with
      | none => routeUnlockNode s rn
      | some hop =>
        let s :=
          if rib.nexthopNum=1 then ribDelnode s rn rib.addr
          else
            let s := if hop.fib then ribUninstall s rn rib else s
            ribQueueAdd (s.setRoutes rn (modifyRib rib.addr (nexthopDelete si))) rn
        routeUnlockNode s rn

def Zebra.setStable (s : Zebra) (rn : RouteNode) (f : List StaticIpv4→List StaticIpv4) : Zebra :=
  {s with stable := update s.stable rn (f (s.stable rn))}

/-- `static_delete_ipv4_safi`. The distance that it is given is not looked
at. -/
def staticDeleteIpv4Safi (s : Zebra) (safi : Safi) (p : PrefixIpv4) (gate : StaticGate) : Zebra :=
  let rn := routeNode safi p
  match (s.stable rn).find? fun si => si.gate=gate with
  | none => s
  | some si =>
    (staticUninstallIpv4 s safi p si).setStable rn fun l => l.eraseP fun si => si.gate=gate

/-- The order of the static routes of a node. -/
def staticBefore (si cp : StaticIpv4) : Bool :=
  si.distance<cp.distance || (si.distance=cp.distance &&
      match si.gate,cp.gate with
      | .gateway a,.gateway b => a<b
      | _,_ => false)

/-- A static route is put in its place. -/
def staticInsert (si : StaticIpv4) : List StaticIpv4→List StaticIpv4
  | [] => [si]
  | cp::rest => if staticBefore si cp then si::cp::rest else cp::staticInsert si rest

def staticAddIpv4Safi (s : Zebra) (safi : Safi) (p : PrefixIpv4) (gate : StaticGate)
    (flags : ZebraFlags) (distance : BitVec 8) : Zebra :=
  let rn := routeNode safi p
  if (s.stable rn).any fun si => si.gate=gate && si.distance=distance then s
  else
    let s :=
      if (s.stable rn).any fun si => si.gate=gate then staticDeleteIpv4Safi s safi p gate else s
    let si : StaticIpv4 := ⟨distance,gate,flags⟩
    staticInstallIpv4 (s.setStable rn (staticInsert si)) safi p si

end RoutePlatform.RibOperations
