import RoutePlatform.AsPathSynthesis

/-!
# Path attributes of `bgpd/bgp_attr.c`

The functions that read one path attribute work on the input buffer of the peer, collect what they
read in an `attr`, and send NOTIFICATION messages; all of that is one state. The build has
`HAVE_IPV6`. Log output and reference counts are left out. A get behind the end of the buffer, which
aborts in `stream.c`, gives zero here: the functions compare lengths before they read, and each get
is shown to fit where it is reasoned about.
-/

namespace RoutePlatform.AttrOperations

open StreamOperations AsPathOperations AsPathSynthesis

/-- `bgp_peer_sort_t`. -/
inductive PeerSort where
  | ibgp | ebgp | internal | confed
  deriving DecidableEq, Repr

/-- What `struct peer` and its `struct bgp` say about reading attributes. -/
structure Peer where
  sort : PeerSort
  as4Rcv : Bool
  restartRcv : Bool
  as : AsT
  changeLocalAs : AsT
  localAsNoPrepend : Bool
  enforceFirstAs : Bool
  deriving DecidableEq

/-- The sub codes of `BGP_NOTIFY_UPDATE_ERR` that are sent. -/
inductive UpdateSubcode where
  | malAttr | unrecAttr | missAttr | attrFlagErr | attrLengErr | invalOrigin | invalNextHop
  | optAttrErr | invalNetwork | malAsPath
  deriving DecidableEq, Repr

/-- A NOTIFICATION message with the code `BGP_NOTIFY_UPDATE_ERR`. -/
structure Notification where
  subcode : UpdateSubcode
  data : List (BitVec 8)
  deriving DecidableEq

/-- `bgp_attr_parse_ret_t`. -/
inductive AttrParseRet where
  | proceed | error | withdraw | errorNotifypls
  deriving DecidableEq, Repr

/-- The attribute type codes that have a function of their own. -/
inductive AttrCode where
  | origin | asPath | nextHop | multiExitDisc | localPref | atomicAggregate | aggregator
  | communities | originatorId | clusterList | mpReachNlri | mpUnreachNlri | extCommunities
  | as4Path | as4Aggregator
  deriving DecidableEq, Repr

/-- `BGP_ATTR_ORIGIN` and the other codes. -/
def AttrCode.ofType (type : BitVec 8) : Option AttrCode :=
  match type.toNat with
  | 1 => some .origin
  | 2 => some .asPath
  | 3 => some .nextHop
  | 4 => some .multiExitDisc
  | 5 => some .localPref
  | 6 => some .atomicAggregate
  | 7 => some .aggregator
  | 8 => some .communities
  | 9 => some .originatorId
  | 10 => some .clusterList
  | 14 => some .mpReachNlri
  | 15 => some .mpUnreachNlri
  | 16 => some .extCommunities
  | 17 => some .as4Path
  | 18 => some .as4Aggregator
  | _ => none

/-- `BGP_ATTR_FLAG_OPTIONAL`. -/
def flagOptional : BitVec 8 := 0x80

/-- `BGP_ATTR_FLAG_TRANS`. -/
def flagTrans : BitVec 8 := 0x40

/-- `BGP_ATTR_FLAG_PARTIAL`. -/
def flagPartial : BitVec 8 := 0x20

/-- `BGP_ATTR_FLAG_EXTLEN`. -/
def flagExtlen : BitVec 8 := 0x10

def checkFlag (v flag : BitVec 8) : Bool := v &&& flag≠0

/-- `struct bgp_nlri` with the bytes it points to. -/
structure BgpNlri where
  afi : BitVec 16
  safi : BitVec 8
  /-- The bytes from `nlri` on; their number is `length`. -/
  nlri : List (BitVec 8)
  deriving DecidableEq

/-- `struct attr` and `struct attr_extra`; `flag` has a bit for each accepted attribute. -/
structure Attr where
  flag : Finset AttrCode
  origin : BitVec 8
  aspath : Option Aspath
  nexthop : BitVec 32
  med : BitVec 32
  localPref : BitVec 32
  /-- `community`, its values in host order. -/
  community : Option (List (BitVec 32))
  /-- `ecommunity`, its values as numbers of eight bytes. -/
  ecommunity : Option (List (BitVec 64))
  cluster : Option (List (BitVec 32))
  /-- The bytes of `transit`; none when there is no such structure. -/
  transit : List (BitVec 8)
  aggregatorAs : AsT
  aggregatorAddr : BitVec 32
  originatorId : BitVec 32
  mpNexthopLen : BitVec 8
  mpNexthopGlobalIn : BitVec 32
  mpNexthopGlobal : List (BitVec 8)
  mpNexthopLocal : List (BitVec 8)
  deriving DecidableEq

/-- The attribute and the extra attributes after `memset`. -/
def Attr.zero : Attr where
  flag := ∅
  origin := 0
  aspath := none
  nexthop := 0
  med := 0
  localPref := 0
  community := none
  ecommunity := none
  cluster := none
  transit := []
  aggregatorAs := 0
  aggregatorAddr := 0
  originatorId := 0
  mpNexthopLen := 0
  mpNexthopGlobalIn := 0
  mpNexthopGlobal := List.replicate 16 0
  mpNexthopLocal := List.replicate 16 0

structure AttrState where
  /-- `ibuf` of the peer. -/
  ibuf : Stream
  attr : Attr
  mpUpdate : BgpNlri
  mpWithdraw : BgpNlri
  as4Path : Option Aspath
  as4Aggregator : AsT
  as4AggregatorAddr : BitVec 32
  notified : List Notification

/-- `struct bgp_attr_parser_args` without the peer and the attribute. -/
structure AttrArgs where
  /-- `length`, the attribute data length. -/
  length : ℕ
  /-- `total`, the length with the header. -/
  total : ℕ
  type : BitVec 8
  flags : BitVec 8
  /-- `startp` as a position in the input buffer. -/
  startp : ℕ
  deriving DecidableEq

def word16 : List (BitVec 8)→BitVec 16
  | [b0,b1] => b0.setWidth 16 <<< 8 ||| b1.setWidth 16
  | _ => 0

def word32 : List (BitVec 8)→BitVec 32
  | [b0,b1,b2,b3] =>
    b0.setWidth 32 <<< 24 ||| b1.setWidth 32 <<< 16 ||| b2.setWidth 32 <<< 8 ||| b3.setWidth 32
  | _ => 0

namespace AttrState

variable (s : AttrState)

/-- `stream_getc`. -/
def getc : BitVec 8 × AttrState :=
  match streamGetc s.ibuf with
  | some (c,ibuf) => (c, {s with ibuf := ibuf})
  | none => (0,s)

/-- `stream_getw`. -/
def getw : BitVec 16 × AttrState :=
  match streamGetw s.ibuf with
  | some (w,ibuf) => (w, {s with ibuf := ibuf})
  | none => (0,s)

/-- `stream_getl`, and `stream_get_ipv4` as the address is kept in host order. -/
def getl : BitVec 32 × AttrState :=
  match streamGetl s.ibuf with
  | some (l,ibuf) => (l, {s with ibuf := ibuf})
  | none => (0,s)

/-- `stream_get` over an old value. -/
def get (old : List (BitVec 8)) (size : ℕ) : List (BitVec 8) × AttrState :=
  match s.ibuf.get size with
  | some (bytes,ibuf) => (bytes, {s with ibuf := ibuf})
  | none => (old,s)

/-- The next bytes from `stream_pnt` on. -/
def pnt (size : ℕ) : List (BitVec 8) := s.ibuf.rest.take size

/-- `stream_forward_getp` on the input buffer. -/
def forwardGetp (size : ℕ) : AttrState := {s with ibuf := streamForwardGetp s.ibuf size}

def modifyAttr (f : Attr→Attr) : AttrState := {s with attr := f s.attr}

/-- Set a bit of `attr->flag`. -/
def setFlag (code : AttrCode) : AttrState :=
  s.modifyAttr fun attr => {attr with flag := insert code attr.flag}

/-- `bgp_notify_send_with_data` with `BGP_NOTIFY_UPDATE_ERR`. -/
def notify (subcode : UpdateSubcode) (data : List (BitVec 8)) : AttrState :=
  {s with notified := s.notified++[⟨subcode,data⟩]}

end AttrState

def bgpAttrMalformed (peer : Peer) (args : AttrArgs) (subcode : UpdateSubcode) (length : ℕ)
    (s : AttrState) : AttrParseRet × AttrState :=
  let data := (s.ibuf.data.drop args.startp).take length
  if peer.sort ≠ .ebgp then (.error,s.notify subcode data)
  else
    let s := {s with ibuf := (streamSetGetp s.ibuf (args.startp+args.total)).getD s.ibuf}
    match AttrCode.ofType args.type with
    | some .as4Aggregator | some .aggregator | some .atomicAggregate => (.proceed,s)
    | some .origin | some .asPath | some .nextHop | some .multiExitDisc | some .localPref
    | some .communities | some .originatorId | some .clusterList | some .mpReachNlri
    | some .mpUnreachNlri | some .extCommunities => (.error,s.notify subcode data)
    | some .as4Path | none =>
      if checkFlag args.flags flagTrans ∧ checkFlag args.flags flagOptional ∧
          checkFlag args.flags flagPartial then (.withdraw,s)
      else (.errorNotifypls,s)

/-- `attr_flags_values`. Its last index is 18; `beyond` is the byte behind the
table. -/
def attrFlagsValues (beyond : BitVec 8) (type : BitVec 8) : BitVec 8 :=
  match AttrCode.ofType type with
  | some .origin | some .asPath | some .nextHop | some .localPref
  | some .atomicAggregate => flagTrans
  | some .multiExitDisc | some .originatorId | some .clusterList | some .mpReachNlri
  | some .mpUnreachNlri => flagOptional
  | some .aggregator | some .communities | some .extCommunities | some .as4Path
  | some .as4Aggregator => flagTrans ||| flagOptional
  | none => if type=19 then beyond else 0

/-- `attr_flags_values_max`, the number of entries. -/
def attrFlagsValuesMax : ℕ := 19

def bgpAttrFlagInvalid (beyond : BitVec 8) (args : AttrArgs) : Bool :=
  let flags := args.flags
  if args.type.toNat > attrFlagsValuesMax then false
  else if attrFlagsValues beyond args.type=0 then false
  else if !checkFlag flagOptional flags && !checkFlag flagTrans flags then true
  else if checkFlag flags flagPartial && !checkFlag flags flagOptional then true
  else if checkFlag flags flagPartial &&
      (checkFlag flags flagOptional && !checkFlag flags flagTrans) then true
  else
    let mask := if checkFlag flags flagOptional && checkFlag flags flagTrans
      then flagExtlen ||| flagPartial else flagExtlen
    flags &&& ~~~mask≠attrFlagsValues beyond args.type

section

variable (peer : Peer) (args : AttrArgs) (s : AttrState)

def bgpAttrOrigin : AttrParseRet × AttrState :=
  if args.length≠1 then bgpAttrMalformed peer args .attrLengErr args.total s
  else
    let (origin,s) := s.getc
    let s := s.modifyAttr fun attr => {attr with origin := origin}
    if origin≠0 ∧ origin≠1 ∧ origin≠2 then
      bgpAttrMalformed peer args .invalOrigin args.total s
    else (.proceed,s.setFlag .origin)

def bgpAttrAspath : AttrParseRet × AttrState :=
  let (aspath,ibuf) := aspathParse s.ibuf args.length peer.as4Rcv
  let s := {s with ibuf := ibuf,attr := {s.attr with aspath := aspath}}
  if aspath.isNone then bgpAttrMalformed peer args .malAsPath 0 s
  else (.proceed,s.setFlag .asPath)

def bgpAttrAs4Path : AttrParseRet × AttrState :=
  let (as4Path,ibuf) := aspathParse s.ibuf args.length true
  let s := {s with ibuf := ibuf,as4Path := as4Path}
  if as4Path.isNone then bgpAttrMalformed peer args .malAsPath 0 s
  else (.proceed,s.setFlag .as4Path)

/-- `IPV4_NET0`, `IPV4_NET127` or `IPV4_CLASS_DE`. -/
def ipv4Martian (a : BitVec 32) : Bool :=
  a &&& 0xff000000=0 || a &&& 0xff000000=0x7f000000 || a &&& 0xe0000000=0xe0000000

def bgpAttrNexthop : AttrParseRet × AttrState :=
  if args.length≠4 then bgpAttrMalformed peer args .attrLengErr args.total s
  else
    let (nexthop,s) := s.getl
    if ipv4Martian nexthop then bgpAttrMalformed peer args .invalNextHop args.total s
    else (.proceed,(s.modifyAttr fun attr => {attr with nexthop := nexthop}).setFlag .nextHop)

def bgpAttrMed : AttrParseRet × AttrState :=
  if args.length≠4 then bgpAttrMalformed peer args .attrLengErr args.total s
  else
    let (med,s) := s.getl
    (.proceed,(s.modifyAttr fun attr => {attr with med := med}).setFlag .multiExitDisc)

def bgpAttrLocalPref : AttrParseRet × AttrState :=
  if args.length≠4 then bgpAttrMalformed peer args .attrLengErr args.total s
  else if peer.sort=.ebgp then (.proceed,s.forwardGetp args.length)
  else
    let (localPref,s) := s.getl
    (.proceed,(s.modifyAttr fun attr => {attr with localPref := localPref}).setFlag .localPref)

def bgpAttrAtomic : AttrParseRet × AttrState :=
  if args.length≠0 then bgpAttrMalformed peer args .attrLengErr args.total s
  else (.proceed,s.setFlag .atomicAggregate)

def bgpAttrAggregator : AttrParseRet × AttrState :=
  let wantedlen := if peer.as4Rcv then 8 else 6
  if args.length≠wantedlen then bgpAttrMalformed peer args .attrLengErr args.total s
  else
    let (as,s) := if peer.as4Rcv then s.getl else (s.getw.1.setWidth 32,s.getw.2)
    let (addr,s) := s.getl
    (.proceed,(s.modifyAttr fun attr =>
      {attr with aggregatorAs := as,aggregatorAddr := addr}).setFlag .aggregator)

def bgpAttrAs4Aggregator : AttrParseRet × AttrState :=
  if args.length≠8 then bgpAttrMalformed peer args .attrLengErr 0 s
  else
    let (as,s) := s.getl
    let (addr,s) := s.getl
    (.proceed,({s with as4Aggregator := as,as4AggregatorAddr := addr} : AttrState).setFlag
      .as4Aggregator)

/-- The words of four bytes of a list. -/
def words32 : List (BitVec 8)→List (BitVec 32)
  | b0::b1::b2::b3::rest => word32 [b0,b1,b2,b3]::words32 rest
  | _ => []

/-- The words of eight bytes of a list. -/
def words64 : List (BitVec 8)→List (BitVec 64)
  | b0::b1::b2::b3::b4::b5::b6::b7::rest =>
    (word32 [b0,b1,b2,b3]++word32 [b4,b5,b6,b7])::words64 rest
  | _ => []

/-- `community_uniq_sort`: every value once, then `qsort`. -/
def communityUniqSort (com : List (BitVec 32)) : List (BitVec 32) :=
  (com.foldl (fun new val => if val∈new then new else new++[val]) []).insertionSort (· ≤ ·)

def communityParse (bytes : List (BitVec 8)) : Option (List (BitVec 32)) :=
  if bytes.length%4≠0 then none else some (communityUniqSort (words32 bytes))

def bgpAttrCommunity : AttrParseRet × AttrState :=
  if args.length=0 then
    (.proceed,s.modifyAttr fun attr => {attr with community := none})
  else
    let community := communityParse (s.pnt args.length)
    let s := (s.modifyAttr fun attr => {attr with community := community}).forwardGetp args.length
    if community.isNone then bgpAttrMalformed peer args .optAttrErr args.total s
    else (.proceed,s.setFlag .communities)

def bgpAttrOriginatorId : AttrParseRet × AttrState :=
  if args.length≠4 then bgpAttrMalformed peer args .attrLengErr args.total s
  else
    let (id,s) := s.getl
    (.proceed,(s.modifyAttr fun attr => {attr with originatorId := id}).setFlag .originatorId)

def bgpAttrClusterList : AttrParseRet × AttrState :=
  if args.length%4≠0 then bgpAttrMalformed peer args .attrLengErr args.total s
  else
    let cluster := words32 (s.pnt args.length)
    (.proceed,((s.modifyAttr fun attr => {attr with cluster := some cluster}).forwardGetp
      args.length).setFlag .clusterList)

/-- `ecommunity_add_val`: in order, and not twice. -/
def ecommunityAddVal (eval : BitVec 64) : List (BitVec 64)→List (BitVec 64)
  | [] => [eval]
  | p::rest =>
    if p=eval then p::rest
    else if eval<p then eval::p::rest
    else p::ecommunityAddVal eval rest

/-- `ecommunity_parse` with `ecommunity_uniq_sort`. -/
def ecommunityParse (bytes : List (BitVec 8)) : Option (List (BitVec 64)) :=
  if bytes.length%8≠0 then none
  else some ((words64 bytes).foldl (fun new eval => ecommunityAddVal eval new) [])

def bgpAttrExtCommunities : AttrParseRet × AttrState :=
  if args.length=0 then
    (.proceed,s.modifyAttr fun attr => {attr with ecommunity := none})
  else
    let ecommunity := ecommunityParse (s.pnt args.length)
    let s := (s.modifyAttr fun attr => {attr with ecommunity := ecommunity}).forwardGetp args.length
    if ecommunity.isNone then bgpAttrMalformed peer args .optAttrErr args.total s
    else (.proceed,s.setFlag .extCommunities)

def bgpAttrUnknown : AttrParseRet × AttrState :=
  let s := s.forwardGetp args.length
  if !checkFlag args.flags flagOptional then bgpAttrMalformed peer args .unrecAttr args.total s
  else if !checkFlag args.flags flagTrans then (.proceed,s)
  else
    let flags := s.ibuf.data.getD args.startp 0 ||| flagPartial
    let s := {s with ibuf := (streamPutcAt s.ibuf args.startp flags).getD s.ibuf}
    let val := (s.ibuf.data.drop args.startp).take args.total
    (.proceed,s.modifyAttr fun attr => {attr with transit := attr.transit++val})

end

def afiIp : BitVec 16 := 1

def afiIp6 : BitVec 16 := 2

def safiUnicast : BitVec 8 := 1

def safiMplsLabeledVpn : BitVec 8 := 128

def psize (prefixlen : BitVec 8) : ℕ := (prefixlen.toNat+7)/8

/-- The check of a prefix length. -/
def prefixlenBad (afi : BitVec 16) (prefixlen : BitVec 8) : Bool :=
  (afi=afiIp && 32<prefixlen.toNat) || (afi=afiIp6 && 128<prefixlen.toNat)

/-- The loop of `bgp_nlri_sanity_check`. -/
def nlriSanityLoop (afi : BitVec 16) : ℕ→List (BitVec 8)→Bool
  | 0, bytes => bytes.isEmpty
  | _+1, [] => true
  | fuel+1, prefixlen::rest =>
    if prefixlenBad afi prefixlen then false
    else if rest.length<psize prefixlen then false
    else nlriSanityLoop afi fuel (rest.drop (psize prefixlen))

/-- The field is syntactically correct. Every round takes a byte at least. -/
def nlriSane (afi : BitVec 16) (bytes : List (BitVec 8)) : Bool :=
  nlriSanityLoop afi bytes.length bytes

def bgpNlriSanityCheck (afi : BitVec 16) (bytes : List (BitVec 8)) (s : AttrState) :
    Bool × AttrState :=
  if nlriSane afi bytes then (true,s) else (false,s.notify .invalNetwork [])

/-- The check of the NLRI of a multiprotocol attribute. -/
def mpNlriCheck (n : BgpNlri) (s : AttrState) : Bool × AttrState :=
  if n.safi≠safiMplsLabeledVpn then bgpNlriSanityCheck n.afi n.nlri s else (true,s)

def in6IsAddrLinklocal (addr : List (BitVec 8)) : Bool :=
  addr.getD 0 0=0xfe && addr.getD 1 0 &&& 0xc0=0x80

/-- The next hop of `bgp_mp_reach_parse`, by its length. -/
def mpNexthop (s : AttrState) : Option AttrState :=
  match s.attr.mpNexthopLen.toNat with
  | 4 =>
    let (nexthop,s) := s.getl
    some (s.modifyAttr fun attr => {attr with
      mpNexthopGlobalIn := nexthop
      nexthop := if attr.nexthop=0 then nexthop else attr.nexthop})
  | 12 =>
    let (_,s) := s.getl
    let (_,s) := s.getl
    let (nexthop,s) := s.getl
    some (s.modifyAttr fun attr => {attr with mpNexthopGlobalIn := nexthop})
  | 16 =>
    let (global,s) := s.get s.attr.mpNexthopGlobal 16
    some (s.modifyAttr fun attr => {attr with mpNexthopGlobal := global})
  | 32 =>
    let (global,s) := s.get s.attr.mpNexthopGlobal 16
    let (local',s) := s.get s.attr.mpNexthopLocal 16
    some (s.modifyAttr fun attr => {attr with
      mpNexthopGlobal := global
      mpNexthopLocal := local'
      mpNexthopLen := if in6IsAddrLinklocal local' then attr.mpNexthopLen else 16})
  | _ => none

section

variable (args : AttrArgs) (s : AttrState)

/-- The last part of `bgp_mp_reach_parse`: the NLRI. -/
def mpReachNlri (afi : BitVec 16) (safi : BitVec 8) (nlriLen : ℕ) : AttrParseRet × AttrState :=
  if nlriLen=0 ∨ nlriLen > s.ibuf.readable then (.errorNotifypls,s)
  else
    let n : BgpNlri := ⟨afi,safi,s.pnt nlriLen⟩
    match mpNlriCheck n s with
    | (false,s) => (.errorNotifypls,s)
    | (true,s) =>
      (.proceed,(({s with mpUpdate := n} : AttrState).forwardGetp nlriLen).setFlag .mpReachNlri)

def lenLeft (start : ℕ) : ℕ := args.length-(s.ibuf.getp-start)

def bgpMpReachParse : AttrParseRet × AttrState :=
  let start := s.ibuf.getp
  if args.length > s.ibuf.readable ∨ args.length<5 then (.errorNotifypls,s)
  else
    let (afi,s) := s.getw
    let (safi,s) := s.getc
    let (mpNexthopLen,s) := s.getc
    let s := s.modifyAttr fun attr => {attr with mpNexthopLen := mpNexthopLen}
    if lenLeft args s start < mpNexthopLen.toNat then (.errorNotifypls,s)
    else
      match mpNexthop s with
      | none => (.errorNotifypls,s)
      | some s =>
        if lenLeft args s start=0 then (.errorNotifypls,s)
        else
          -- the defunct SNPA length
          let (_,s) := s.getc
          mpReachNlri s afi safi (lenLeft args s start)

def bgpMpUnreachParse : AttrParseRet × AttrState :=
  if args.length > s.ibuf.readable ∨ args.length<3 then (.errorNotifypls,s)
  else
    let (afi,s) := s.getw
    let (safi,s) := s.getc
    let n : BgpNlri := ⟨afi,safi,s.pnt (args.length-3)⟩
    match mpNlriCheck n s with
    | (false,s) => (.errorNotifypls,s)
    | (true,s) =>
      (.proceed,(({s with mpWithdraw := n} : AttrState).forwardGetp (args.length-3)).setFlag
        .mpUnreachNlri)

end

end RoutePlatform.AttrOperations
