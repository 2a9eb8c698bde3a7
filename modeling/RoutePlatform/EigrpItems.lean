import RoutePlatform.ReadTrace

/-!
# EIGRP: route items

The item that `EigrpAddItem` writes for a destination, and `EigrpRoutesDecode` with
`EigrpProcRoute`, which turn items into route events. The bytes of a metric that hold the hop
count, the reliability and the load are plain chars, so they are sign extended.
-/

namespace RoutePlatform.EigrpItems

open ReadTrace

abbrev U32 := BitVec 32

/-- `EIGRP_METRIC_INACCESS`. -/
def inaccess : U32 := 0xffffffff

/-- `EIGRP_METRIC_INACCESS_HALF`. -/
def inaccessHalf : U32 := 0x80000000

/-- `EIGRP_INFO_CD`. -/
def infoCd : Byte := 2

/-- `EIGRP_METRIC`. -/
def typeMetric : ℕ := 0x0102

/-- `EIGRP_EXTERNAL`. -/
def typeExternal : ℕ := 0x0103

/-- `EIGRP_PROTO_STATIC`. -/
def protoStatic : Byte := 3

/-- `EIGRP_OPC_UPDATE`. -/
def opcUpdate : ℕ := 1

/-- `EIGRP_B_DELAY`. -/
def bDelay : U32 := 25600

/-- `EIGRP_S_DELAY`. -/
def sDelay : U32 := 512000

/-- `EigrpVmetric_st`. -/
structure Vmetric where
  delay : U32
  bandwidth : U32
  mtu : U32
  hopcount : U32
  reliability : U32
  load : U32
deriving DecidableEq

/-- `EigrpNetEntry_st`. -/
structure NetEntry where
  address : U32
  mask : U32
deriving DecidableEq

/-- `EigrpExtData_st`, byte by byte. -/
abbrev ExtData := Fin 20→Byte

/-- `protocol` of external data. -/
def ExtData.protocol (d : ExtData) : Byte := (List.ofFn d).getD 18 0

/-- `flag` of external data. -/
def ExtData.flag (d : ExtData) : Byte := (List.ofFn d).getD 19 0

/-- The candidate default bit is cleared in `flag`. -/
def ExtData.clearCd (d : ExtData) : ExtData := fun k => if k.val=19 then d k &&& ~~~infoCd else d k

/-- `EigrpDualRdb_st`: the first route of a destination. -/
structure Rdb where
  flagExt : Bool
  connected : Bool
  opaqueFlag : Byte
  extData : ExtData

/-- `EigrpDualNdb_st`: a destination. -/
structure Ndb where
  dest : NetEntry
  vecMetric : Vmetric
  rdb : Option Rdb

/-- The logical interface of a peer. -/
structure Intf where
  pointToPoint : Bool
  broadcast : Bool
  delay : U32
  bandwidth : U32
  mtu : U32
  /-- `ipDstAddr` of the first address. -/
  dstAddr : Option U32

/-- The process: `EigrpDualDdb_st` and `EigrpPdb_st`, of which `k4` and `k5` are not read. -/
structure Ddb where
  /-- The byte order of the host. -/
  bigEndian : Bool
  routerId : U32
  portRouterId : U32
  maxHopCnt : Byte
  /-- `k1`, a plain char like the other K values. -/
  k1 : Byte
  k2 : Byte
  k3 : Byte
  /-- `mmetricFudge` in the direction `EIGRP_OFFSET_OUT`. -/
  offsetOut : Option (NetEntry→U32)
  /-- `mmetricFudge` in the direction `EIGRP_OFFSET_IN`. -/
  offsetIn : Option (NetEntry→U32)
  cdOut : Bool
  cdIn : Bool
  rtInDef : Bool
  vMetricDef : Vmetric
  permitIncoming : NetEntry→Bool

def be16 (x : BitVec 16) : List Byte := [x.extractLsb' 8 8,x.extractLsb' 0 8]

def be32 (x : U32) : List Byte :=
  [x.extractLsb' 24 8,x.extractLsb' 16 8,x.extractLsb' 8 8,x.extractLsb' 0 8]

/-- A long from four bytes in network order. -/
def ofBytes (a b c d : Byte) : U32 :=
  BitVec.ofNat 32 (((a.toNat*256+b.toNat)*256+c.toNat)*256+d.toNat)

/-- `NTOHL` of a long in the packet. -/
def long (mem : Memory) (off : ℕ) : U32 :=
  ofBytes (mem off) (mem (off+1)) (mem (off+2)) (mem (off+3))

/-- A long in the packet as the host reads it. -/
def hostLong (bigEndian : Bool) (mem : Memory) (off : ℕ) : U32 :=
  if bigEndian then long mem off
  else ofBytes (mem (off+3)) (mem (off+2)) (mem (off+1)) (mem off)

/-- `NTOHS` of a short in the packet. -/
def word (mem : Memory) (off : ℕ) : ℕ := (mem off).toNat*256+(mem (off+1)).toNat

/-- The loop of `EigrpIpBitsInMask`. -/
def bitsLoop : ℕ→U32→ℕ→ℕ
  | 0, _, bits => bits
  | fuel+1, mask, bits =>
    if mask &&& 0x80000000≠0 then bitsLoop fuel (mask <<< 1) (bits+1) else bits

/-- `EigrpIpBitsInMask`: after 32 shifts the mask is zero. -/
def bitsInMask (mask : U32) : ℕ := bitsLoop 32 mask 0

/-- `EigrpIpBytesInMask`. -/
def bytesInMask (mask : U32) : ℕ := (bitsInMask mask+7)/8

/-- An offset is added to a delay, up to `EIGRP_METRIC_INACCESS`. -/
def addOffset (offset : Option (NetEntry→U32)) (dest : NetEntry) (delay : U32) : U32 :=
  match offset with
  | none => delay
  | some f => if f dest > inaccess-delay then inaccess else delay+f dest

/-- `EigrpMetricEncode`. -/
def metricEncode (D : Ddb) (dest : NetEntry) (v : Vmetric) (unreachable connect : Bool) :
    List Byte :=
  let delay := addOffset D.offsetOut dest (if unreachable then inaccess else v.delay)
  let mtu := v.mtu &&& 0x0000ffff
  be32 delay++be32 v.bandwidth++(be32 mtu).drop 1 ++
    [if connect then 0 else v.hopcount.extractLsb' 0 8,v.reliability.extractLsb' 0 8,
      v.load.extractLsb' 0 8]++[0,0]

/-- The end of an item: the mask length and the significant octets. -/
def destEncode (dest : NetEntry) : List Byte :=
  BitVec.ofNat 8 (bitsInMask dest.mask)::(be32 dest.address).take (bytesInMask dest.mask)

/-- The candidate default bit is filtered from flags. -/
def filterCd (permit : Bool) (flags : Byte) : Byte :=
  if flags &&& infoCd≠0 ∧ !permit then flags &&& ~~~infoCd else flags

/-- The candidate default bit is filtered from external data. -/
def filterExtCd (permit : Bool) (d : ExtData) : ExtData :=
  if d.flag &&& infoCd≠0 ∧ !permit then d.clearCd else d

/-- `EIGRP_METRIC_TYPE_SIZE`. -/
def metricTypeSize : ℕ := 24

/-- `EIGRP_EXTERN_TYPE_SIZE`. -/
def externTypeSize : ℕ := 44

/-- The external item of `EigrpAddItem`. -/
def externalItem (D : Ddb) (e : Ndb) (r : Rdb) (unreachable : Bool) : List Byte :=
  let ext := filterExtCd D.cdOut r.extData
  let v := if ext.protocol≠protoStatic then D.vMetricDef else e.vecMetric
  be16 (BitVec.ofNat 16 typeExternal) ++
    be16 (BitVec.ofNat 16 (externTypeSize+(1+bytesInMask e.dest.mask)))++be32 0 ++
    List.ofFn ext++metricEncode D e.dest v unreachable false++destEncode e.dest

/-- The internal item of `EigrpAddItem`; the flags go into the last reserved byte of the
metric. -/
def internalItem (D : Ddb) (e : Ndb) (unreachable : Bool) : List Byte :=
  let flags := match e.rdb with
    | none => 0
    | some r => r.opaqueFlag
  let connected := match e.rdb with
    | none => false
    | some r => r.connected
  be16 (BitVec.ofNat 16 typeMetric) ++
    be16 (BitVec.ofNat 16 (metricTypeSize+(1+bytesInMask e.dest.mask)))++be32 0 ++
    ((metricEncode D e.dest e.vecMetric unreachable connected).take 15++[filterCd D.cdOut flags]) ++
    destEncode e.dest

/-- The item that `EigrpAddItem` builds. -/
def builtItem (D : Ddb) (e : Ndb) (unreachable : Bool) : List Byte :=
  match e.rdb with
  | none => internalItem D e unreachable
  | some r => if r.flagExt then externalItem D e r unreachable else internalItem D e unreachable

/-- `EigrpAddItem`: the bytes of the item, none where there is no room. -/
def addItem (D : Ddb) (e : Ndb) (bytesLeft : ℕ) (unreachable : Bool) : List Byte :=
  if (builtItem D e unreachable).length > bytesLeft then [] else builtItem D e unreachable

/-- A term of the composite metric that may pass the half. -/
def splitHalf (x : U32) : U32 × ℕ := if inaccessHalf≤x then (x-inaccessHalf,1) else (x,0)

/-- `EigrpDualComputeMetric`. -/
def dualComputeMetric (bw load delay k1 k2 k3 : U32) : U32 :=
  if k1≠0 ∧ bw=inaccess then inaccess
  else
    let m1 := splitHalf (if k1≠0 then bw*k1 else 0)
    let m2 := splitHalf (if k2≠0 then (bw*k2)/(256-load) else 0)
    let s2 := splitHalf (m1.1+m2.1)
    if k3≠0 ∧ delay=inaccess then inaccess
    else
      let m3 := splitHalf (if k3≠0 then delay*k3 else 0)
      let s3 := splitHalf (s2.1+m3.1)
      let half := m1.2+m2.2+s2.2+m3.2+s3.2
      if s3.1=0 ∧ half=0 then 1
      else if 2≤half then inaccess
      else if half≠0 then s3.1+inaccessHalf
      else s3.1

/-- `EigrpDualComputeMetric` with the K values of a process, sign extended. -/
def Ddb.metric (D : Ddb) (bw load delay : U32) : U32 :=
  dualComputeMetric bw load delay (D.k1.signExtend 32) (D.k2.signExtend 32) (D.k3.signExtend 32)

/-- `EIGRP_SCALED_BANDWIDTH`. -/
def scaledBandwidth (band : ℕ) : ℕ := if band/4≠0 then 2500000000/(band/4) else 2500000000/9600

def minOf (a b : U32) : U32 := if a<b then a else b

def maxOf (a b : U32) : U32 := if b<a then a else b

/-- The delay that an interface adds. -/
def intfDelay (i : Intf) : U32 :=
  if 0 < i.delay then i.delay*bDelay else if i.broadcast then bDelay else sDelay

/-- `EigrpComputeMetric`: composite metric, that of the neighbour, and the updated vector metric. -/
def computeMetric (D : Ddb) (i : Intf) (v : Vmetric) (dest : NetEntry) : U32 × U32 × Vmetric :=
  let delay := addOffset D.offsetIn dest v.delay
  if delay=inaccess ∨ D.maxHopCnt.signExtend 32≤v.hopcount then
    (inaccess,inaccess, {v with delay := inaccess})
  else
    let neighbor := D.metric v.bandwidth v.load delay
    let delay := delay+intfDelay i
    let bandwidth := BitVec.ofNat 32
      (max v.bandwidth.toNat (scaledBandwidth (1000*i.bandwidth).toNat*256))
    let metric := D.metric bandwidth v.load delay
    (metric,neighbor,
      { delay := delay
        bandwidth := bandwidth
        mtu := if 0<v.mtu then minOf v.mtu i.mtu else i.mtu
        hopcount := v.hopcount+1
        reliability := minOf v.reliability 255
        load := maxOf v.load 1 })

/-- `EigrpAddressDecode`: destination and octets, `none` where the mask is too long. -/
def addressDecode (mem : Memory) (ipd : ℕ) : Option (NetEntry × ℕ) :=
  let mask := (mem ipd).toNat
  let bytes := (mask+7)/8
  if bytes > 4 then none
  else if mask≠0 then
    let octet (k : ℕ) : Byte := if k<bytes then mem (ipd+1+k) else 0
    some (⟨ofBytes (octet 0) (octet 1) (octet 2) (octet 3),0xffffffff <<< (32-mask)⟩,bytes)
  else some (⟨0,0⟩,1)

/-- `EigrpMetricDecode`. -/
def metricDecode (mem : Memory) (metric : ℕ) : Vmetric where
  delay := long mem metric
  bandwidth := long mem (metric+4)
  mtu := ofBytes 0 (mem (metric+8)) (mem (metric+9)) (mem (metric+10))
  hopcount := (mem (metric+11)).signExtend 32
  reliability := (mem (metric+12)).signExtend 32
  load := (mem (metric+13)).signExtend 32

/-- `EigrpDualNewRt_st`: the route parameters, which are the event. -/
structure NewRt where
  dest : NetEntry
  nextHop : U32
  vecMetric : Vmetric
  metric : U32
  succMetric : U32
  flagIgnore : Bool
  flagExt : Bool
  data : Option ExtData
  opaqueFlag : Byte
  originRouter : U32

/-- The peer that a packet comes from. -/
structure Peer where
  source : U32
  /-- `peerVer.majVer` is not zero. -/
  knowsFlags : Bool
  intf : Intf

/-- `EIGRP_INET_CLASS_VALID_BYTE`. -/
def classValid (address : U32) : Bool :=
  let y := (address >>> 24).toNat
  decide (y<127 ∨ (127<y ∧ y≤223))

/-- What `EigrpProcRoute` does with a destination before it computes a metric. -/
inductive Guard
  | skip
  | drop
  | fail
  | take
deriving DecidableEq

/-- The guards of `EigrpProcRoute`. -/
def guard (D : Ddb) (i : Intf) (dest : NetEntry) (delay : U32) : Guard :=
  if dest.address=D.portRouterId ∧ dest.mask=0xffffffff ∧ delay≠0xffffffff then .skip
  else if !classValid dest.address then .drop
  else if i.pointToPoint then
    match i.dstAddr with
    | none => .fail
    | some a => if a=dest.address then .drop else .take
  else .take

/-- The external data in the packet. -/
def extDecode (mem : Memory) (off : ℕ) : ExtData := fun k => mem (off+k.val)

/-- What the route parameters become for a destination that is taken. -/
def takeRoute (D : Ddb) (p : Peer) (data : Option ExtData) (flags : Byte) (r : NewRt) : NewRt :=
  let computed := computeMetric D p.intf r.vecMetric r.dest
  {r with
    metric := computed.1
    succMetric := computed.2.1
    vecMetric := computed.2.2
    data := data.map (filterExtCd D.cdIn)
    opaqueFlag := if data.isNone ∧ p.knowsFlags then filterCd D.cdIn flags else 0
    flagIgnore := r.flagIgnore || (r.dest.mask=0 && !D.rtInDef) ||
      !D.permitIncoming ⟨r.dest.address &&& r.dest.mask,r.dest.mask⟩}

/-- The loop of `EigrpProcRoute`: whether it succeeds, the parameters and the events. -/
def procLoop (D : Ddb) (p : Peer) (mem : Memory) (limit metric : ℕ) (ignoreTlv : Bool)
    (nexthop : U32) (extd : Option ℕ) : ℕ→ℕ→NewRt→Bool × NewRt × List NewRt
  | 0, _, r => (true,r,[])
  | fuel+1, ipd, r =>
    if ipd<limit then
      let r := {r with flagIgnore := ignoreTlv,nextHop := if nexthop=0 then p.source else nexthop}
      match addressDecode mem ipd with
      | none => (false,r,[])
      | some (dest,length) =>
        let r := {r with dest := dest}
        match guard D p.intf dest r.vecMetric.delay with
        | .skip => procLoop D p mem limit metric ignoreTlv nexthop extd fuel (ipd+length+1) r
        | .drop => (true,r,[])
        | .fail => (false,r,[])
        | .take =>
          let r := takeRoute D p (extd.map (extDecode mem)) (mem (metric+15)) r
          let (ok,r',events) :=
            procLoop D p mem limit metric ignoreTlv nexthop extd fuel (ipd+length+1) r
          (ok,r',r::events)
    else (true,r,[])

/-- `EigrpProcRoute`: the metric is decoded once, before the loop. -/
def procRoute (D : Ddb) (p : Peer) (mem : Memory) (ipd limit metric : ℕ) (ignoreTlv : Bool)
    (nexthop : U32) (extd : Option ℕ) (r : NewRt) : Bool × NewRt × List NewRt :=
  procLoop D p mem limit metric ignoreTlv nexthop extd (limit-ipd) ipd
    {r with vecMetric := metricDecode mem metric}

/-- The loop of `EigrpRoutesDecode`: the events, with `bytes` bytes left. Next hops and the metric
of an external item are taken as the host reads them. -/
def decodeLoop (D : Ddb) (p : Peer) (packetType : ℕ) (mem : Memory) : ℕ→ℕ→ℕ→NewRt→List NewRt
  | 0, _, _, _ => []
  | fuel+1, tlv, bytes, r =>
    if 0<bytes then
      let length := word mem (tlv+2)
      if length<4 then []
      else if word mem tlv=typeMetric then
        let (ok,r,events) := procRoute D p mem (tlv+24) (tlv+length) (tlv+8) false
          (hostLong D.bigEndian mem (tlv+4)) none {r with flagExt := false,data := none}
        if ok then events++decodeLoop D p packetType mem fuel (tlv+length) (bytes-length) r
        else events
      else if word mem tlv=typeExternal then
        let r := {r with flagExt := true,metric := hostLong D.bigEndian mem (tlv+20)}
        let ignoreTlv := decide (long mem (tlv+8)=D.routerId)
        if ignoreTlv ∧ packetType=opcUpdate then
          decodeLoop D p packetType mem fuel (tlv+length) (bytes-length) r
        else
          let (ok,r,events) := procRoute D p mem (tlv+44) (tlv+length) (tlv+28) ignoreTlv
            (hostLong D.bigEndian mem (tlv+4)) (some (tlv+8))
            {r with originRouter := long mem (tlv+8)}
          if ok then events++decodeLoop D p packetType mem fuel (tlv+length) (bytes-length) r
          else events
      else decodeLoop D p packetType mem fuel (tlv+length) (bytes-length) r
    else []

/-- The route parameters that `EigrpRoutesDecode` starts with. -/
def NewRt.zero : NewRt where
  dest := ⟨0,0⟩
  nextHop := 0
  vecMetric := ⟨0,0,0,0,0,0⟩
  metric := 0
  succMetric := 0
  flagIgnore := false
  flagExt := false
  data := none
  opaqueFlag := 0
  originRouter := 0

/-- `EigrpRoutesDecode`. -/
def routesDecode (D : Ddb) (p : Peer) (packetType : ℕ) (mem : Memory) (tlv bytes : ℕ) :
    List NewRt :=
  decodeLoop D p packetType mem bytes tlv bytes NewRt.zero

end RoutePlatform.EigrpItems
