import RoutePlatform.StreamOperations
import RoutePlatform.PrefixBytes

/-!
# Route messages between daemons and zebra

`zapi_ipv4_route` and `zapi_ipv6_route` of `lib/zclient.c` write a route into the output buffer of
a client; `zread_ipv4_add` and `zread_ipv6_add` of `zebra/zserv.c` read it. A put or get that does
not fit, where `stream.c` aborts, is left out, so that the message is not the one that was meant.
-/

namespace RoutePlatform.ZapiOperations

open StreamOperations PrefixBytes

/-- A put whose answer is not looked at. -/
def emit (s : Stream) (bytes : List (BitVec 8)) : Stream := (s.put bytes).getD s

/-- `stream_putc`. -/
def putc (s : Stream) (c : BitVec 8) : Stream := emit s [c]

def bytes16 (w : BitVec 16) : List (BitVec 8) := [(w >>> 8).setWidth 8,w.setWidth 8]

/-- `stream_putw`. -/
def putw (s : Stream) (w : BitVec 16) : Stream := emit s (bytes16 w)

/-- `stream_putl` and `stream_put_in_addr`. -/
def putl (s : Stream) (l : BitVec 32) : Stream := emit s (bytes32 l)

/-- `stream_write`, where `CHECK_SIZE` truncates. -/
def streamWrite (s : Stream) (bytes : List (BitVec 8)) : Stream := emit s (bytes.take s.writeable)

def streamPutwAt (s : Stream) (putp : ℕ) (w : BitVec 16) : Stream :=
  if putp+2 ≤ s.endp then
    {s with
      data := (s.data.set putp ((w >>> 8).setWidth 8)).set (putp+1) (w.setWidth 8)
      getp_le := by
        rw [List.length_set,List.length_set]
        exact s.getp_le
      endp_le := by
        rw [List.length_set,List.length_set]
        exact s.endp_le}
  else s

/-- `stream_getc`. -/
def getc (s : Stream) : BitVec 8 × Stream := (streamGetc s).getD (0,s)

/-- `stream_getw`. -/
def getw (s : Stream) : BitVec 16 × Stream := (streamGetw s).getD (0,s)

/-- `stream_getl` and `stream_get_ipv4`. -/
def getl (s : Stream) : BitVec 32 × Stream := (streamGetl s).getD (0,s)

/-- The first bytes of an address. -/
def addressBytes (u : Address) (n : ℕ) : List (BitVec 8) := (List.range n).map (byteAt u)

/-- An address with these bytes, and zeros behind them. -/
def addressOf (bytes : List (BitVec 8)) : Address := fun i => bytes.getD i 0

/-- `stream_get` into an address. -/
def getAddress (s : Stream) (old : Address) (n : ℕ) : Address × Stream :=
  match s.get n with
  | some (bytes,s) => (addressOf bytes,s)
  | none => (old,s)

def zebraMaxPacketSiz : ℕ := 4096

def zebraHeaderSize : ℕ := 6

def zebraHeaderMarker : BitVec 8 := 255

def zservVersion : BitVec 8 := 2

/-- `ZAPI_MESSAGE_NEXTHOP`. -/
def messageNexthop : BitVec 8 := 0x01

/-- `ZAPI_MESSAGE_DISTANCE`. -/
def messageDistance : BitVec 8 := 0x04

/-- `ZAPI_MESSAGE_METRIC`. -/
def messageMetric : BitVec 8 := 0x08

/-- `ZEBRA_FLAG_BLACKHOLE`. -/
def flagBlackhole : BitVec 8 := 0x04

def checkFlag (v f : BitVec 8) : Bool := v &&& f≠0

def psize (prefixlen : ℕ) : ℕ := (prefixlen+7)/8

/-- `struct zapi_ipv4` and `struct zapi_ipv6`, by the type of a next hop. -/
structure ZapiRoute (α : Type) where
  type : BitVec 8
  flags : BitVec 8
  message : BitVec 8
  safi : BitVec 8
  /-- `nexthop`, with `nexthop_num` elements. -/
  nexthop : List α
  /-- `ifindex`, with `ifindex_num` elements. -/
  ifindex : List (BitVec 32)
  distance : BitVec 8
  metric : BitVec 32

def zclientCreateHeader (s : Stream) (command : BitVec 16) : Stream :=
  let s := putw s (BitVec.ofNat 16 zebraHeaderSize)
  let s := putc s zebraHeaderMarker
  let s := putc s zservVersion
  putw s command

/-- The beginning of both functions, up to the prefix. -/
def zapiRouteStart {α : Type} (cmd : BitVec 8) (p : Prefix) (api : ZapiRoute α) : Stream :=
  let s := zclientCreateHeader (streamNew zebraMaxPacketSiz) (cmd.setWidth 16)
  let s := putc s api.type
  let s := putc s api.flags
  let s := putc s api.message
  let s := putw s (api.safi.setWidth 16)
  let s := putc s (BitVec.ofNat 8 p.prefixlen)
  streamWrite s (addressBytes p.u (psize p.prefixlen))

/-- The end of both functions, from the distance on. -/
def zapiRouteEnd {α : Type} (api : ZapiRoute α) (s : Stream) : Stream :=
  let s := if checkFlag api.message messageDistance then putc s api.distance else s
  let s := if checkFlag api.message messageMetric then putl s api.metric else s
  streamPutwAt s 0 (BitVec.ofNat 16 s.endp)

/-- The loop over `ifindex`, with `ZEBRA_NEXTHOP_IFINDEX`. -/
def putIfindexes (ifindex : List (BitVec 32)) (s : Stream) : Stream :=
  ifindex.foldl (fun s i => putl (putc s 1) i) s

/-- `zapi_ipv4_route`, with `ZEBRA_NEXTHOP_BLACKHOLE` and
`ZEBRA_NEXTHOP_IPV4`. -/
def zapiIpv4Route (cmd : BitVec 8) (p : Prefix) (api : ZapiRoute (BitVec 32)) : Stream :=
  let s := zapiRouteStart cmd p api
  let s :=
    if checkFlag api.message messageNexthop then
      let s :=
        if checkFlag api.flags flagBlackhole then putc (putc s 1) 9
        else putc s (BitVec.ofNat 8 (api.nexthop.length+api.ifindex.length))
      let s := api.nexthop.foldl (fun s g => putl (putc s 3) g) s
      putIfindexes api.ifindex s
    else s
  zapiRouteEnd api s

/-- `zapi_ipv6_route`, with `ZEBRA_NEXTHOP_IPV6`. -/
def zapiIpv6Route (cmd : BitVec 8) (p : Prefix) (api : ZapiRoute Address) : Stream :=
  let s := zapiRouteStart cmd p api
  let s :=
    if checkFlag api.message messageNexthop then
      let s := putc s (BitVec.ofNat 8 (api.nexthop.length+api.ifindex.length))
      let s := api.nexthop.foldl (fun s g => streamWrite (putc s 6) (addressBytes g 16)) s
      putIfindexes api.ifindex s
    else s
  zapiRouteEnd api s

/-- `zebra_client_read` before the command is looked at. -/
def zebraClientRead (wire : List (BitVec 8)) : Option (BitVec 16 × Stream) :=
  let ibuf := emit (streamNew zebraMaxPacketSiz) (wire.take zebraHeaderSize)
  let (length,s) := getw ibuf
  let (marker,s) := getc s
  let (version,s) := getc s
  let (command,s) := getw s
  if marker≠zebraHeaderMarker || version≠zservVersion then none
  else if length.toNat<zebraHeaderSize || length.toNat > s.size then none
  else if wire.length<length.toNat then none
  else some (command,emit s ((wire.drop zebraHeaderSize).take (length.toNat-zebraHeaderSize)))

/-- A next hop of the new entry. -/
inductive ZapiHop where
  | ifindex (ifindex : BitVec 32)
  | ipv4 (gate : BitVec 32)
  | ipv4Ifindex (gate : BitVec 32) (ifindex : BitVec 32)
  | ipv6 (gate : Address)
  | ipv6Ifindex (gate : Address) (ifindex : BitVec 32)
  | blackhole
  deriving DecidableEq

/-- The new entry of `zread_ipv4_add`. -/
structure ZapiRib where
  type : BitVec 8
  flags : BitVec 8
  distance : BitVec 8
  metric : BitVec 32
  nexthops : List ZapiHop

/-- `nexthop_add`. -/
def ZapiRib.add (rib : ZapiRib) (hop : ZapiHop) : ZapiRib :=
  {rib with nexthops := rib.nexthops++[hop]}

/-- The prefix of a message, not followed beyond the family maximum. -/
def zreadPrefix (family : Family) (s : Stream) : Option (Prefix × Stream) :=
  let (len,s) := getc s
  let (u,s) := getAddress s zeroAddress (psize len.toNat)
  if h : len.toNat≤family.maxPrefixlen then some (⟨family,len.toNat,u,h⟩,s) else none

/-- One next hop of `zread_ipv4_add`. -/
def zreadIpv4Nexthop (s : Stream) (rib : ZapiRib) : Stream × ZapiRib :=
  let (type,s) := getc s
  if type=1 then
    let (ifindex,s) := getl s
    (s,rib.add (.ifindex ifindex))
  else if type=2 then
    let (length,s) := getc s
    (streamForwardGetp s length.toNat,rib)
  else if type=3 then
    let (gate,s) := getl s
    (s,rib.add (.ipv4 gate))
  else if type=4 then
    let (gate,s) := getl s
    let (ifindex,s) := getl s
    (s,rib.add (.ipv4Ifindex gate ifindex))
  else if type=6 then (streamForwardGetp s 16,rib)
  else if type=9 then
    (s, {rib with flags := rib.flags ||| flagBlackhole}.add .blackhole)
  else (s,rib)

/-- The loop over the next hops of `zread_ipv4_add`. -/
def zreadIpv4Nexthops : ℕ→Stream→ZapiRib→Stream × ZapiRib
  | 0, s, rib => (s,rib)
  | n+1, s, rib =>
    let (s,rib) := zreadIpv4Nexthop s rib
    zreadIpv4Nexthops n s rib

/-- The distance of a message, or zero. -/
def zreadDistance (message : BitVec 8) (s : Stream) : BitVec 8 × Stream :=
  if checkFlag message messageDistance then getc s else (0,s)

/-- The metric of a message, or zero. -/
def zreadMetric (message : BitVec 8) (s : Stream) : BitVec 32 × Stream :=
  if checkFlag message messageMetric then getl s else (0,s)

/-- The call of `rib_add_ipv4_multipath`. -/
structure RibAddIpv4 where
  p : Prefix
  rib : ZapiRib
  safi : BitVec 8

/-- `zread_ipv4_add`, with what is left of the message. -/
def zreadIpv4Add (s : Stream) : Option (RibAddIpv4 × Stream) :=
  let (type,s) := getc s
  let (flags,s) := getc s
  let (message,s) := getc s
  let (safi,s) := getw s
  (zreadPrefix .inet s).map fun (p,s) =>
    let rib : ZapiRib := ⟨type,flags,0,0,[]⟩
    let (s,rib) :=
      if checkFlag message messageNexthop then
        let (num,s) := getc s
        zreadIpv4Nexthops num.toNat s rib
      else (s,rib)
    let (distance,s) := zreadDistance message s
    let (metric,s) := zreadMetric message s
    (⟨p, {rib with distance := distance,metric := metric},safi.setWidth 8⟩,s)

/-- The loop over the next hops of `zread_ipv6_add`: the last address and the
last index stay. -/
def zreadIpv6Nexthops : ℕ→Stream→Address→BitVec 32→Stream × Address × BitVec 32
  | 0, s, nexthop, ifindex => (s,nexthop,ifindex)
  | n+1, s, nexthop, ifindex =>
    let (type,s) := getc s
    if type=6 then
      let (nexthop,s) := getAddress s nexthop 16
      zreadIpv6Nexthops n s nexthop ifindex
    else if type=1 then
      let (ifindex,s) := getl s
      zreadIpv6Nexthops n s nexthop ifindex
    else zreadIpv6Nexthops n s nexthop ifindex

/-- The call of `rib_add_ipv6`. -/
structure RibAddIpv6 where
  type : BitVec 8
  flags : BitVec 8
  p : Prefix
  gate : Option Address
  ifindex : BitVec 32
  metric : BitVec 32
  distance : BitVec 8
  safi : BitVec 8

/-- The next hop of the entry that `rib_add_ipv6` makes. -/
def RibAddIpv6.hop (call : RibAddIpv6) : ZapiHop :=
  match call.gate with
  | some gate => if call.ifindex≠0 then .ipv6Ifindex gate call.ifindex else .ipv6 gate
  | none => .ifindex call.ifindex

/-- `zread_ipv6_add`, with what is left of the message. -/
def zreadIpv6Add (s : Stream) : Option (RibAddIpv6 × Stream) :=
  let (type,s) := getc s
  let (flags,s) := getc s
  let (message,s) := getc s
  let (safi,s) := getw s
  (zreadPrefix .inet6 s).map fun (p,s) =>
    let (s,nexthop,ifindex) :=
      if checkFlag message messageNexthop then
        let (num,s) := getc s
        zreadIpv6Nexthops num.toNat s zeroAddress 0
      else (s,zeroAddress,0)
    let (distance,s) := zreadDistance message s
    let (metric,s) := zreadMetric message s
    let gate := if nexthop=zeroAddress then none else some nexthop
    (⟨type,flags,p,gate,ifindex,metric,distance,safi.setWidth 8⟩,s)

end RoutePlatform.ZapiOperations
