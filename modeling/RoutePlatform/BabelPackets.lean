import RoutePlatform.ReadTrace

/-!
# Babel: packets

The updates that `really_send_update` writes into the buffer of an interface, with the state that
lets it leave out router ids, next hops and leading bytes, and `parse_packet`, a computation that
reads memory from the start of the packet.
-/

namespace RoutePlatform.BabelPackets

open ReadTrace ReadTrace.Reading

/-- An IPv6 address, or an IPv4 address in its mapped form. -/
abbrev Address := Fin 16→Byte

abbrev RouterId := Fin 8→Byte

/-- An IPv4 address. -/
abbrev Ipv4 := Fin 4→Byte

def infinity : ℕ := 0xFFFF

def diversityHops : ℕ := 8

/-- `BABEL_IF_CHANNEL_INTERFERING`. -/
def channelInterfering : Byte := 255

def octet (a : Address) (k : ℕ) : Byte := if h : k<16 then a ⟨k,h⟩ else 0

def v4prefix : Address := fun k => if k.val=10 ∨ k.val=11 then 0xFF else 0

def v4mapped (a : Address) : Bool := decide (∀ k : Fin 16, k.val<12 → a k= v4prefix k)

def v4tov6 (src : Ipv4) : Address := fun k =>
  if h : 12≤k.val then src ⟨k.val-12,by omega⟩ else v4prefix k

def maskPrefix (a : Address) (plen : ℕ) : Address := fun k =>
  if 128≤plen ∨ k.val<plen/8 then a k
  else if k.val=plen/8 ∧ plen%8≠0 then a k &&& BitVec.ofNat 8 (0xFF <<< (8-plen%8))
  else 0

/-- `memcpy` of bytes to a position of an address. -/
def copyTo (a : Address) (pos : ℕ) (src : List Byte) : Address := fun k =>
  if pos≤k.val ∧ k.val<pos+src.length then src.getD (k.val-pos) 0 else a k

/-- `memcpy` of the first bytes of an address. -/
def copyFirst (a : Address) (n : ℕ) (src : Address) : Address := fun k =>
  if k.val<n then src k else a k

/-- The receiver: its interface and the neighbour that the packet comes from. -/
structure Receiver where
  fromLinklocal : Bool
  /-- The address of the neighbour that `find_neighbour` answers. -/
  neighbour : Option Address
  ipv4 : Bool
  faraway : Bool
  isInterfaceLlAddress : Address→Bool

/-- What `parse_packet` calls for a message. -/
inductive Call
  | sendAck (nonce interval : ℕ)
  /-- `update_neighbour` and what follows it. -/
  | hello (seqno interval : ℕ)
  /-- The link cost that an IHU reports is taken over. -/
  | ihu (txcost interval : ℕ)
  | retractNeighbourRoutes
  | updateRoute (routerId : RouterId) (pfx : Address) (plen : ℕ) (seqno metric interval : ℕ)
      (nh : Address) (channels : List Byte)
  | requestAny
  /-- `send_update` for a prefix. -/
  | request (pfx : Address) (plen : ℕ)
  | handleRequest (pfx : Address) (plen hopCount seqno : ℕ) (id : RouterId)

/-- The running state of `parse_packet`. -/
structure Parser where
  haveRouterId : Bool
  routerId : RouterId
  haveV4Prefix : Bool
  v4Prefix : Address
  haveV6Prefix : Bool
  v6Prefix : Address
  haveV4Nh : Bool
  v4Nh : Address
  haveV6Nh : Bool
  v6Nh : Address
  /-- An update of this packet has set `v4_prefix`. -/
  v4Set : Bool
  /-- An update of this packet has set `v6_prefix`. -/
  v6Set : Bool
  /-- A default prefix was used that no update of this packet had set. -/
  misused : Bool
  calls : List Call

/-- What the local arrays hold when `parse_packet` is entered. -/
structure Stack where
  routerId : RouterId
  v4Prefix : Address
  v6Prefix : Address
  v4Nh : Address
  v6Nh : Address

/-- The state that `parse_packet` starts in. -/
def Parser.start (k : Stack) : Parser where
  haveRouterId := false
  routerId := k.routerId
  haveV4Prefix := false
  v4Prefix := k.v4Prefix
  haveV6Prefix := false
  v6Prefix := k.v6Prefix
  haveV4Nh := false
  v4Nh := k.v4Nh
  haveV6Nh := false
  v6Nh := k.v6Nh
  v4Set := false
  v6Set := false
  misused := false
  calls := []

def Parser.call (s : Parser) (c : Call) : Parser := {s with calls := s.calls++[c]}

/-- `network_prefix`: its value, the prefix, and whether the default prefix was read. -/
structure NetworkPrefix where
  /-- The number of bytes parsed; negative when the prefix is malformed. -/
  ret : ℤ
  pfx : Address
  usesDefault : Bool

/-- The bytes of a prefix; of a whole address where the length is negative. -/
def prefixBytes (ae : ℕ) (plen : ℤ) : ℕ :=
  if 0≤plen then (plen.toNat+7)/8 else if ae=1 then 4 else 16

def malformed (usesDefault : Bool) : NetworkPrefix := ⟨-1,fun _ => 0,usesDefault⟩

def networkPrefix (ae : ℕ) (plen : ℤ) (omitted p : ℕ) (dp : Option Address) (len : ℕ) :
    Reading NetworkPrefix := do
  let pb := prefixBytes ae plen
  let masked (a : Address) : Address :=
    maskPrefix a (if plen<0 then 128 else if ae=1 then plen.toNat+96 else plen.toNat)
  if pb > 16 then pure (malformed false)
  else if ae=0 then pure ⟨0,masked fun _ => 0,false⟩
  else if ae=1 then
    if omitted > 4 ∨ pb > 4 ∨ (pb > omitted ∧ len<pb-omitted) then pure (malformed false)
    else if omitted≠0 ∧ !(dp.any v4mapped) then pure (malformed dp.isSome)
    else do
      let rest ← bytes p (pb-omitted)
      let base := copyFirst (copyFirst (fun _ => 0) 12 v4prefix)
        (if omitted≠0 then 12+omitted else 0) (dp.getD v4prefix)
      pure ⟨(pb : ℤ)-omitted,masked (copyTo base (12+omitted) rest),omitted≠0⟩
  else if ae=2 then
    if omitted > 16 ∨ (pb > omitted ∧ len<pb-omitted) then pure (malformed false)
    else if omitted≠0 ∧ !(dp.any fun a => !v4mapped a) then pure (malformed dp.isSome)
    else do
      let rest ← bytes p (pb-omitted)
      let base := copyFirst (fun _ => 0) omitted (dp.getD v4prefix)
      pure ⟨(pb : ℤ)-omitted,masked (copyTo base omitted rest),omitted≠0⟩
  else if ae=3 then
    if pb > 8 ∧ len<pb-8 then pure (malformed false)
    else do
      let rest ← bytes p (pb-8)
      pure ⟨(pb : ℤ)-8,masked (copyTo (copyTo (fun _ => 0) 0 [0xfe,0x80]) 8 rest),false⟩
  else pure (malformed false)

def networkAddress (ae a len : ℕ) : Reading NetworkPrefix := networkPrefix ae (-1) 0 a none len

/-- `memchr` for the byte 0. -/
def memchr0 : ℕ→ℕ→Reading Bool
  | _, 0 => pure false
  | a, n+1 => do
    let b ← byte a
    if b=0 then pure true else memchr0 (a+1) n

/-- The loop of `parse_route_attributes` from some offset on, with the channels found
so far. -/
def attributesLoop (a alen : ℕ) : ℕ→ℕ→List Byte→Reading (Option (List Byte))
  | 0, i, channels => pure (if i<alen then none else some channels)
  | fuel+1, i, channels => do
    if i<alen then
      let type ← byte (a+i)
      if type=0 then attributesLoop a alen fuel (i+1) channels
      else if i+1 > alen then pure (some channels)
      else do
        let len ← byte (a+(i+1))
        if i+len.toNat > alen then pure (some channels)
        else if type=2 then do
          let len := min len.toNat diversityHops
          let reserved ← memchr0 (a+(i+2)) len
          if reserved then pure (some channels)
          else do
            let found ← bytes (a+(i+2)) len
            attributesLoop a alen fuel (i+(len+2)) found
        else attributesLoop a alen fuel (i+(len.toNat+2)) channels
    else pure (some channels)

def parseRouteAttributes (a alen : ℕ) (channels : List Byte) : Reading (Option (List Byte)) :=
  attributesLoop a alen alen 0 channels

def Parser.forgetPrefixes (s : Parser) : Parser :=
  {s with haveV4Prefix := false,haveV6Prefix := false}

/-- A bit of the flags of an update. -/
def flag (flags : Byte) (bit : ℕ) : Bool := flags.getLsbD bit

/-- The router id that an update carries in its prefix. -/
def idOfPrefix (ae : ℕ) (a : Address) : RouterId := fun k =>
  if ae=1 then (if k.val<4 then 0 else octet a (8+k.val)) else octet a (8+k.val)

/-- The prefix of an update becomes the default prefix of its family where the flags
say so. -/
def Parser.takeDefault (s : Parser) (ae : ℕ) (flags : Byte) (a : Address) : Parser :=
  if flag flags 7 then
    if ae=1 then {s with v4Prefix := a,haveV4Prefix := true,v4Set := true}
    else {s with v6Prefix := a,haveV6Prefix := true,v6Set := true}
  else s

/-- The prefix of an update gives the router id where the flags say so. -/
def Parser.takeId (s : Parser) (ae : ℕ) (flags : Byte) (a : Address) : Parser :=
  if flag flags 6 then {s with routerId := idOfPrefix ae a,haveRouterId := true} else s

/-- What the prefix of an update leaves in the state. -/
def Parser.takePrefix (s : Parser) (ae : ℕ) (flags : Byte) (a : Address) : Parser :=
  (s.takeDefault ae flags a).takeId ae flags a

/-- The next hop of an update, where there is one. -/
def Parser.nextHop (s : Parser) (ae : ℕ) (neighbour : Address) : Option Address :=
  if ae=1 then (if s.haveV4Nh then some s.v4Nh else none)
  else if s.haveV6Nh then some s.v6Nh
  else some neighbour

/-- The channels of an update: those of its attributes, which overwrite a guess from
the metric. -/
def updateChannels (R : Receiver) (message len parsedLen metric : ℕ) :
    Reading (Option (List Byte)) :=
  if R.faraway then pure (some [])
  else
    let channels := if metric<256 then [] else [channelInterfering]
    if parsedLen<len then
      parseRouteAttributes (message+2+parsedLen) (len-parsedLen) channels
    else pure (some channels)

/-- `parse_packet` has read an update whose prefix is well formed. -/
def updateFound (R : Receiver) (neighbour : Address) (message len parsedLen ae plen : ℕ)
    (interval seqno metric : ℕ) (a : Address) (s : Parser) : Reading (Option Parser) := do
  if !s.haveRouterId ∧ ae≠0 then pure (some s)
  else if ae=0 then
    if metric<0xFFFF then pure (some s) else pure (some (s.call .retractNeighbourRoutes))
  else
    match s.nextHop ae neighbour with
    | none => pure (some s)
    | some nh =>
      if ae=1 ∧ !R.ipv4 then pure (some s)
      else do
        let channels ← updateChannels R message len parsedLen metric
        pure (channels.map fun channels =>
          s.call (.updateRoute s.routerId a plen seqno metric interval nh channels))

/-- The default prefix that the decoder of an update gets. -/
def Parser.default (s : Parser) (ae : ℕ) : Address := if ae=1 then s.v4Prefix else s.v6Prefix

/-- The default prefix of an address family has been set. -/
def Parser.defaultSet (s : Parser) (ae : ℕ) : Bool := if ae=1 then s.v4Set else s.v6Set

/-- The decoder has looked at the default prefix of an address family, or not. -/
def Parser.noteUse (s : Parser) (used : Bool) (ae : ℕ) : Parser :=
  {s with misused := s.misused || (used && !s.defaultSet ae)}

/-- The test before a prefix that omits bytes is decoded: flags, not the address family. -/
def Parser.mayDecode (s : Parser) (flags : Byte) (omitted : ℕ) : Bool :=
  omitted=0 || (if flags=1 then s.haveV4Prefix else s.haveV6Prefix)

/-- The prefix of an update is decoded where the test on its flags lets it. -/
def decodeUpdate (message len : ℕ) (s : Parser) (ae flags plen omitted : Byte) :
    Reading NetworkPrefix :=
  if s.mayDecode flags omitted.toNat then
    networkPrefix ae.toNat plen.toNat omitted.toNat (message+12) (some (s.default ae.toNat))
      (len-10)
  else pure (malformed false)

/-- `parse_packet` has come to an update. -/
def parseUpdate (R : Receiver) (neighbour : Address) (message len : ℕ) (s : Parser) :
    Reading (Option Parser) := do
  if len<10 then
    if len<2 then pure (some s.forgetPrefixes)
    else do
      let flags ← byte (message+3)
      pure (some (if flag flags 7 then s.forgetPrefixes else s))
  else do
    let ae ← byte (message+2)
    let flags ← byte (message+3)
    let plen ← byte (message+4)
    let omitted ← byte (message+5)
    let interval ← u16 (message+6)
    let seqno ← u16 (message+8)
    let metric ← u16 (message+10)
    let decoded ← decodeUpdate message len s ae flags plen omitted
    let s := s.noteUse decoded.usesDefault ae.toNat
    if decoded.ret<0 then pure (some (if flag flags 7 then s.forgetPrefixes else s))
    else
      updateFound R neighbour message len (10+decoded.ret.toNat) ae.toNat
        ((plen.toNat+if ae.toNat=1 then 96 else 0)%256) interval seqno metric decoded.pfx
        (s.takePrefix ae.toNat flags decoded.pfx)

/-- `parse_packet` has come to an acknowledgement request. -/
def parseAckReq (message len : ℕ) (s : Parser) : Reading Parser := do
  if len<6 then pure s
  else do
    let nonce ← u16 (message+4)
    let interval ← u16 (message+6)
    pure (s.call (.sendAck nonce interval))

/-- `parse_packet` has come to a hello. -/
def parseHello (message len : ℕ) (s : Parser) : Reading Parser := do
  if len<6 then pure s
  else do
    let seqno ← u16 (message+4)
    let interval ← u16 (message+6)
    pure (s.call (.hello seqno interval))

/-- `parse_packet` has come to an IHU. -/
def parseIhu (R : Receiver) (message len : ℕ) (s : Parser) : Reading Parser := do
  if len<6 then pure s
  else do
    let txcost ← u16 (message+4)
    let interval ← u16 (message+6)
    let ae ← byte (message+2)
    let address ← networkAddress ae.toNat (message+8) (len-6)
    if address.ret<0 then pure s
    else if ae=0 ∨ R.isInterfaceLlAddress address.pfx then pure (s.call (.ihu txcost interval))
    else pure s

/-- `parse_packet` has come to a router id. -/
def parseRouterId (message len : ℕ) (s : Parser) : Reading Parser := do
  if len<10 then pure {s with haveRouterId := false}
  else do
    let id ← bytes (message+4) 8
    pure {s with routerId := fun k => id.getD k.val 0,haveRouterId := true}

/-- `parse_packet` has come to a next hop. -/
def parseNh (message len : ℕ) (s : Parser) : Reading Parser := do
  let forget : Parser := {s with haveV4Nh := false,haveV6Nh := false}
  if len<2 then pure forget
  else do
    let ae ← byte (message+2)
    let nh ← networkAddress ae.toNat (message+4) (len-2)
    if nh.ret<0 then pure forget
    else if ae=1 then pure {s with v4Nh := nh.pfx,haveV4Nh := true}
    else pure {s with v6Nh := nh.pfx,haveV6Nh := true}

/-- `parse_packet` has come to a request. -/
def parseRequest (message len : ℕ) (s : Parser) : Reading Parser := do
  if len<2 then pure s
  else do
    let ae ← byte (message+2)
    let plen ← byte (message+3)
    let decoded ← networkPrefix ae.toNat plen.toNat 0 (message+4) none (len-2)
    if decoded.ret<0 then pure s
    else if ae=0 then pure (s.call .requestAny)
    else pure (s.call (.request decoded.pfx ((plen.toNat+if ae.toNat=1 then 96 else 0)%256)))

/-- `parse_packet` has come to a multihop request. -/
def parseMhRequest (message len : ℕ) (s : Parser) : Reading Parser := do
  if len<14 then pure s
  else do
    let seqno ← u16 (message+4)
    let ae ← byte (message+2)
    let plen ← byte (message+3)
    let decoded ← networkPrefix ae.toNat plen.toNat 0 (message+16) none (len-14)
    if decoded.ret<0 then pure s
    else do
      let hopCount ← byte (message+6)
      let id ← bytes (message+8) 8
      pure (s.call (.handleRequest decoded.pfx
        ((plen.toNat+if ae.toNat=1 then 96 else 0)%256) hopCount.toNat seqno
        fun k => id.getD k.val 0))

/-- The body of a message, by its type. -/
def parseMessage (R : Receiver) (neighbour : Address) (message type len : ℕ) (s : Parser) :
    Reading (Option Parser) :=
  if type=2 then some <$> parseAckReq message len s
  else if type=4 then some <$> parseHello message len s
  else if type=5 then some <$> parseIhu R message len s
  else if type=6 then some <$> parseRouterId message len s
  else if type=7 then some <$> parseNh message len s
  else if type=8 then parseUpdate R neighbour message len s
  else if type=9 then some <$> parseRequest message len s
  else if type=10 then some <$> parseMhRequest message len s
  else pure (some s)

/-- What a turn of the loop of `parse_packet` ends in. -/
inductive Turn
  | stop
  /-- The loop goes on at an offset of the body. -/
  | next (i : ℕ) (s : Parser)
  /-- The loop over the attributes of an update does not end. -/
  | hangs

/-- A turn of the loop of `parse_packet`. -/
def turn (R : Receiver) (neighbour : Address) (bodylen i : ℕ) (s : Parser) : Reading Turn := do
  let type ← byte (4+i)
  if type=0 then pure (.next (i+1) s)
  else if i+1 > bodylen then pure .stop
  else do
    let len ← byte (4+i+1)
    if i+len.toNat > bodylen then pure .stop
    else do
      let parsed ← parseMessage R neighbour (4+i) type.toNat len.toNat s
      match parsed with
      | none => pure .hangs
      | some s => pure (.next (i+len.toNat+2) s)

/-- The loop of `parse_packet`; `none` where it has not ended. -/
def parseLoop (R : Receiver) (neighbour : Address) (bodylen : ℕ) :
    ℕ→ℕ→Parser→Reading (Option Parser)
  | 0, i, s => pure (if i<bodylen then none else some s)
  | fuel+1, i, s => do
    if i<bodylen then
      let t ← turn R neighbour bodylen i s
      match t with
      | .stop => pure (some s)
      | .hangs => pure none
      | .next i s => parseLoop R neighbour bodylen fuel i s
    else pure (some s)

/-- `parse_packet`, with what its local arrays hold at first. -/
def parsePacket (R : Receiver) (k : Stack) (packetlen : ℕ) : Reading (Option Parser) := do
  if !R.fromLinklocal then pure (some (Parser.start k))
  else do
    let magic ← byte 0
    if magic≠42 then pure (some (Parser.start k))
    else do
      let version ← byte 1
      if version≠2 then pure (some (Parser.start k))
      else
        match R.neighbour with
        | none => pure (some (Parser.start k))
        | some neighbour => do
          let bodylen ← u16 2
          let bodylen := if bodylen+4 > packetlen then packetlen-4 else bodylen
          parseLoop R neighbour bodylen bodylen 0 (Parser.start k)

/-- An update as it goes out: what the receiver is to be told. -/
structure Announced where
  id : RouterId
  pfx : Address
  plen : ℕ
  seqno : BitVec 16
  metric : BitVec 16
  /-- The IPv4 next hop that was current, for an IPv4 prefix. -/
  nexthop : Option Ipv4

/-- A packet that `flushbuf` builds, with the updates that were put into it. -/
structure Packet where
  bytes : List Byte
  updates : List Announced

/-- The sending side of an interface. -/
structure Sender where
  up : Bool
  ipv4 : Option Ipv4
  mtu : ℕ
  updateInterval : ℕ
  diversityChannel : Bool
  /-- `sendbuf`, `buffered` bytes of it. -/
  sendbuf : List Byte
  haveBufferedId : Bool
  bufferedId : RouterId
  haveBufferedNh : Bool
  bufferedNh : Ipv4
  haveBufferedPrefix : Bool
  bufferedPrefix : Address
  updates : List Announced
  packets : List Packet

/-- `bufsize`, as `interface_recalculate` computes it. -/
def Sender.bufsize (s : Sender) : ℕ := max s.mtu 128-4-60

def short (x : BitVec 16) : List Byte := [x.extractLsb' 8 8,x.extractLsb' 0 8]

/-- `flushbuf` once `flushupdates` is done. -/
def Sender.transmit (s : Sender) : Sender :=
  {s with
    packets :=
      if s.sendbuf.length > 0 then
        s.packets++[⟨[42,2]++short (BitVec.ofNat 16 s.sendbuf.length)++s.sendbuf,s.updates⟩]
      else s.packets
    sendbuf := []
    updates := []
    haveBufferedId := false
    haveBufferedNh := false
    haveBufferedPrefix := false}

/-- The `accumulate` functions. -/
def Sender.accumulate (s : Sender) (bytes : List Byte) : Sender :=
  {s with sendbuf := s.sendbuf++bytes}

/-- `ensure_space` where `flushupdates` has nothing to send. -/
def Sender.ensureSpace (s : Sender) (space : ℕ) : Sender :=
  if s.bufsize<s.sendbuf.length+space then s.transmit else s

/-- `start_message` to `end_message`, where `flushupdates` has nothing to send. -/
def Sender.message (s : Sender) (type : Byte) (body : List Byte) : Sender :=
  (s.ensureSpace (body.length+2)).accumulate ([type,BitVec.ofNat 8 body.length]++body)

/-- A call of `really_send_update`. -/
structure UpdateCall where
  id : RouterId
  pfx : Address
  plen : ℕ
  seqno : BitVec 16
  metric : BitVec 16
  /-- The channels; `none` where `channels_len` is negative. -/
  channels : Option (List Byte)
  /-- `channels_len` answers at most `DIVERSITY_HOPS`. -/
  channelsFit : ∀ l∈channels, l.length≤diversityHops
  /-- `output_filter` answers `INFINITY`; else it answers 0. -/
  denied : Bool

/-- The prefix is one of IPv4. -/
def isV4 (pfx : Address) (plen : ℕ) : Bool := 96≤plen && v4mapped pfx

/-- The leading bytes that a prefix shares with the default prefix, of whole bytes
only. -/
def omitLoop (buffered pfx : Address) (bound : ℕ) : ℕ→ℕ→ℕ
  | 0, omitted => omitted
  | fuel+1, omitted =>
    if omitted<bound ∧ octet buffered omitted=octet pfx omitted then
      omitLoop buffered pfx bound fuel (omitted+1)
    else omitted

/-- The next hop goes out before an IPv4 update where the buffer lacks it. -/
def Sender.sendNh (s : Sender) (ipv4 : Ipv4) : Sender :=
  if !s.haveBufferedNh ∨ s.bufferedNh≠ipv4 then
    { s.message 7 ([1,0]++List.ofFn ipv4) with bufferedNh := ipv4,haveBufferedNh := true }
  else s

/-- The router id goes out first where the buffer lacks it and the prefix does not carry it. -/
def Sender.sendId (s : Sender) (id : RouterId) (inPrefix : Bool) : Sender :=
  if !s.haveBufferedId ∨ id≠s.bufferedId then
    { (if inPrefix then s else s.message 6 ([0,0]++List.ofFn id)) with
      bufferedId := id,haveBufferedId := true }
  else s

/-- The bytes of the channels of an update. -/
def channelBytes (channels : Option (List Byte)) : List Byte :=
  match channels with
  | none => []
  | some l => [2,BitVec.ofNat 8 l.length]++l

def updateBody (v4 : Bool) (flags : Byte) (plen omitted interval : ℕ) (seqno metric : BitVec 16)
    (pfx : List Byte) (channels : Option (List Byte)) : List Byte :=
  [if v4 then 1 else 2,flags,BitVec.ofNat 8 plen,BitVec.ofNat 8 omitted] ++
    short (BitVec.ofNat 16 ((interval+5)/10))++short seqno++short metric++pfx ++
    channelBytes channels

/-- Bytes of an address from a position on. -/
def bytesFrom (a : Address) (pos n : ℕ) : List Byte := (List.range n).map fun k => octet a (pos+k)

/-- The router id stands in the last bytes of an IPv6 host prefix. -/
def idInPrefix (id : RouterId) (pfx : Address) (plen : ℕ) : Bool :=
  plen=128 && decide (∀ k : Fin 8, octet pfx (8+k.val)=id k)

/-- `really_send_update` for an IPv4 prefix, past the guards. -/
def Sender.sendV4 (s : Sender) (ipv4 : Ipv4) (u : UpdateCall) : Sender :=
  let s := s.sendNh ipv4
  let plen := u.plen-96
  let s := s.sendId u.id false
  let s := s.message 8 (updateBody true 0 plen 0 s.updateInterval u.seqno u.metric
    (bytesFrom u.pfx 12 ((plen+7)/8)) (if s.diversityChannel then u.channels else none))
  {s with updates := s.updates++[⟨u.id,u.pfx,u.plen,u.seqno,u.metric,some ipv4⟩]}

/-- `really_send_update` for an IPv6 prefix, past the guards. -/
def Sender.sendV6 (s : Sender) (u : UpdateCall) : Sender :=
  let omitted :=
    if s.haveBufferedPrefix then omitLoop s.bufferedPrefix u.pfx (u.plen/8) (u.plen/8) 0 else 0
  let sets := !s.haveBufferedPrefix || decide (48≤u.plen)
  let inPrefix := idInPrefix u.id u.pfx u.plen
  let carries := (!s.haveBufferedId || decide (u.id≠s.bufferedId)) && inPrefix
  let s := s.sendId u.id inPrefix
  let s := s.message 8 (updateBody false
    ((if sets then 0x80 else 0) ||| (if carries then 0x40 else 0)) u.plen omitted
    s.updateInterval u.seqno u.metric (bytesFrom u.pfx omitted ((u.plen+7)/8-omitted))
    (if s.diversityChannel then u.channels else none))
  let s := if sets then {s with bufferedPrefix := u.pfx,haveBufferedPrefix := true} else s
  {s with updates := s.updates++[⟨u.id,u.pfx,u.plen,u.seqno,u.metric,none⟩]}

/-- `really_send_update` where `flushupdates` has nothing else to send. -/
def Sender.reallySendUpdate (s : Sender) (u : UpdateCall) : Sender := if !s.up then s
  else if u.denied then s
  else
    let s := s.ensureSpace (20+12+28)
    if isV4 u.pfx u.plen then
      match s.ipv4 with
      | none => s
      | some ipv4 => s.sendV4 ipv4 u
    else s.sendV6 u

/-- `flushupdates`, with the updates that it decides to send. -/
def Sender.flushUpdates (s : Sender) (us : List UpdateCall) : Sender :=
  us.foldl Sender.reallySendUpdate s

def Sender.flushbuf (s : Sender) (us : List UpdateCall) : Sender := (s.flushUpdates us).transmit

/-- A message that is not about updates. -/
structure Other where
  type : Byte
  body : List Byte
  /-- It is not a pad, a router id, a next hop or an update. -/
  kind : type≠0 ∧ type≠6 ∧ type≠7 ∧ type≠8
  short : body.length<256

/-- The body of a wildcard retraction. -/
def retractionBody (myseqno : BitVec 16) : List Byte :=
  [0,0x40,0,0]++short 0xFFFF++short myseqno++short 0xFFFF

/-- The updates that `flushupdates` sends first are an action of their own. -/
inductive Action
  | flushUpdates (us : List UpdateCall)
  | flushbuf (us : List UpdateCall)
  | other (m : Other)
  | retraction (myseqno : BitVec 16)
  /-- The answer of `if_up` changes. What `interface_reset` does besides is left out: it drops the
  buffer unsent and keeps the flags `have_buffered_*`. -/
  | link (up : Bool)
  | address (ipv4 : Option Ipv4)

def Sender.step (s : Sender) : Action→Sender
  | .flushUpdates us => s.flushUpdates us
  | .flushbuf us => s.flushbuf us
  | .other m => s.message m.type m.body
  | .retraction myseqno =>
    if s.up then {s.message 8 (retractionBody myseqno) with haveBufferedId := false} else s
  | .link up => {s with up := up}
  | .address ipv4 => {s with ipv4 := ipv4}

def Action.updates : Action→List UpdateCall
  | .flushUpdates us => us
  | .flushbuf us => us
  | _ => []

/-- An update that passes the guards of `really_send_update`. -/
def UpdateCall.announce (u : UpdateCall) (up : Bool) (ipv4 : Option Ipv4) : Option Announced :=
  if !up ∨ u.denied then none
  else if isV4 u.pfx u.plen then
    ipv4.map fun nh => ⟨u.id,u.pfx,u.plen,u.seqno,u.metric,some nh⟩
  else some ⟨u.id,u.pfx,u.plen,u.seqno,u.metric,none⟩

/-- The updates that pass the guards in a sequence of actions. -/
def announcedBy : Bool→Option Ipv4→List Action→List Announced
  | _, _, [] => []
  | _, ipv4, .link up::rest => announcedBy up ipv4 rest
  | up, _, .address ipv4::rest => announcedBy up ipv4 rest
  | up, ipv4, a::rest => a.updates.filterMap (·.announce up ipv4)++announcedBy up ipv4 rest

/-- An interface whose buffer is empty. -/
def Sender.start (up : Bool) (ipv4 : Option Ipv4) (mtu updateInterval : ℕ)
    (diversityChannel : Bool) : Sender where
  up := up
  ipv4 := ipv4
  mtu := mtu
  updateInterval := updateInterval
  diversityChannel := diversityChannel
  sendbuf := []
  haveBufferedId := false
  bufferedId := fun _ => 0
  haveBufferedNh := false
  bufferedNh := fun _ => 0
  haveBufferedPrefix := false
  bufferedPrefix := fun _ => 0
  updates := []
  packets := []

end RoutePlatform.BabelPackets
