import RoutePlatform.AttrProtocol

/-!
# UPDATE messages of `bgpd/bgp_packet.c`

`bgp_update_receive` hands the prefixes of an UPDATE message to `bgp_update` and `bgp_withdraw`,
with the attributes that were read. The calls are recorded in order; what `bgp_update` answers is
a parameter. The peer is established. End-of-RIB markers and VPN routes are left out.
-/

namespace RoutePlatform.UpdateOperations

open StreamOperations AttrOperations AttrParsing

/-- A prefix as it stands in an NLRI field. -/
structure NlriPrefix where
  prefixlen : BitVec 8
  /-- The bytes of the address that are given. -/
  bytes : List (BitVec 8)
  deriving DecidableEq

/-- A call of `bgp_nlri_parse` to the routing table. -/
inductive NlriCall where
  /-- `bgp_update`; whether the prefix is from the plain NLRI field is noted. -/
  | update (p : NlriPrefix) (attr : Attr) (afi : BitVec 16) (safi : BitVec 8) (plain : Bool)
  | withdraw (p : NlriPrefix) (afi : BitVec 16) (safi : BitVec 8)
  deriving DecidableEq

/-- `IN_CLASSD` of the address. -/
def inClassd (p : NlriPrefix) : Bool := p.bytes.getD 0 0 &&& 0xf0=0xe0

/-- The prefix makes `bgp_nlri_parse` return. -/
def nlriStops (afi : BitVec 16) (safi : BitVec 8) (p : NlriPrefix) : Bool :=
  afi=afiIp && safi=safiUnicast && inClassd p

def nlriSkips (afi : BitVec 16) (safi : BitVec 8) (p : NlriPrefix) : Bool :=
  afi=afiIp6 && safi=safiUnicast && in6IsAddrLinklocal p.bytes

/-- The loop of `bgp_nlri_parse`; `refuses` makes the answer negative. -/
def nlriParseLoop (refuses : List NlriCall→Bool) (call : NlriPrefix→NlriCall)
    (afi : BitVec 16) (safi : BitVec 8) :
    ℕ→List (BitVec 8)→List NlriCall→List NlriCall
  | 0, _, calls => calls
  | _+1, [], calls => calls
  | fuel+1, prefixlen::rest, calls =>
    if prefixlenBad afi prefixlen then calls
    else if rest.length<psize prefixlen then calls
    else
      let p : NlriPrefix := ⟨prefixlen,rest.take (psize prefixlen)⟩
      if nlriStops afi safi p then calls
      else if nlriSkips afi safi p then
        nlriParseLoop refuses call afi safi fuel (rest.drop (psize prefixlen)) calls
      else if refuses (calls++[call p]) then calls++[call p]
      else nlriParseLoop refuses call afi safi fuel (rest.drop (psize prefixlen)) (calls++[call p])

/-- `bgp_nlri_parse`; without an attribute it withdraws. Every round takes a
byte at least. -/
def bgpNlriParse (refuses : List NlriCall→Bool) (attr : Option Attr) (plain : Bool)
    (packet : BgpNlri) (calls : List NlriCall) : List NlriCall :=
  let call := fun p => match attr with
    | some attr => .update p attr packet.afi packet.safi plain
    | none => .withdraw p packet.afi packet.safi
  nlriParseLoop refuses call packet.afi packet.safi packet.nlri.length packet.nlri calls

def safiMulticast : BitVec 8 := 2

structure UpdateResult where
  notified : List Notification
  calls : List NlriCall

section

variable (beyond : BitVec 8) (peer : Peer) (afc : BitVec 16→BitVec 8→Bool)
  (refuses : List NlriCall→Bool)

/-- The part of `bgp_update_receive` on the multiprotocol NLRI of one address
family. -/
def mpCalls (attr : Option Attr) (s : AttrState) (afi : BitVec 16) (safi : BitVec 8)
    (calls : List NlriCall) : List NlriCall :=
  if afc afi safi then
    let calls := if s.mpUpdate.nlri.length≠0 ∧ s.mpUpdate.afi=afi ∧ s.mpUpdate.safi=safi
      then bgpNlriParse refuses attr false s.mpUpdate calls else calls
    if s.mpWithdraw.nlri.length≠0 ∧ s.mpWithdraw.afi=afi ∧ s.mpWithdraw.safi=safi
      then bgpNlriParse refuses none false s.mpWithdraw calls else calls
  else calls

def nlriAttrArg (ret : AttrParseRet) (attr : Attr) : Option Attr :=
  if ret ≠ .withdraw then some attr else none

/-- The prefixes of the message, by address family. -/
def updateCalls (ret : AttrParseRet) (withdraw update : BgpNlri) (s : AttrState) : List NlriCall :=
  let attr := nlriAttrArg ret s.attr
  let calls := if afc afiIp safiUnicast then
      let calls := if withdraw.nlri.length≠0 then bgpNlriParse refuses none true withdraw [] else []
      if update.nlri.length≠0 then bgpNlriParse refuses attr true update calls else calls
    else []
  let calls := mpCalls afc refuses attr s afiIp safiUnicast calls
  let calls := mpCalls afc refuses attr s afiIp safiMulticast calls
  let calls := mpCalls afc refuses attr s afiIp6 safiUnicast calls
  mpCalls afc refuses attr s afiIp6 safiMulticast calls

/-- `bgp_update_receive` from the NLRI field on. -/
def updateNlri (endp : ℕ) (withdraw : BgpNlri) (ret : AttrParseRet) (s : AttrState) :
    UpdateResult :=
  let updateLen := endp-s.ibuf.getp
  let bytes := s.pnt updateLen
  if updateLen≠0 then
    match bgpNlriSanityCheck afiIp bytes s with
    | (false,s) => ⟨s.notified,[]⟩
    | (true,s) => ⟨s.notified,updateCalls afc refuses ret withdraw ⟨afiIp,safiUnicast,bytes⟩ s⟩
  else ⟨s.notified,updateCalls afc refuses ret withdraw ⟨0,0,[]⟩ s⟩

/-- `bgp_update_receive` from the attributes on. -/
def updateAttributes (endp : ℕ) (withdraw : BgpNlri) (attributeLen : ℕ) (s : AttrState) :
    Option UpdateResult :=
  if attributeLen=0 then some (updateNlri afc refuses endp withdraw .proceed s)
  else
    match bgpAttrParse beyond peer (attributeLen+1) s.ibuf attributeLen with
    | none => none
    | some (.error,p) => some ⟨p.state.notified,[]⟩
    | some (ret,p) => some (updateNlri afc refuses endp withdraw ret p.state)

/-- The check of the unfeasible routes; nothing when it fails. -/
def updateWithdrawn (withdrawLen : ℕ) (s : AttrState) : Option BgpNlri × AttrState :=
  if withdrawLen > 0 then
    match bgpNlriSanityCheck afiIp (s.pnt withdrawLen) s with
    | (false,s) => (none,s)
    | (true,s) => (some ⟨afiIp,safiUnicast,s.pnt withdrawLen⟩,s.forwardGetp withdrawLen)
  else (some ⟨0,0,[]⟩,s)

/-- `bgp_update_receive` of a body of `size` bytes. -/
def bgpUpdateReceive (ibuf : Stream) (size : ℕ) : Option UpdateResult :=
  let s := (parseStart ibuf).state
  let endp := s.ibuf.getp+size
  if s.ibuf.getp+2 > endp then some ⟨(s.notify .malAttr []).notified,[]⟩
  else
    let (withdrawLen,s) := s.getw
    if s.ibuf.getp+withdrawLen.toNat > endp then some ⟨(s.notify .malAttr []).notified,[]⟩
    else
      match updateWithdrawn withdrawLen.toNat s with
      | (none,s) => some ⟨s.notified,[]⟩
      | (some withdraw,s) =>
        if s.ibuf.getp+2 > endp then some ⟨(s.notify .malAttr []).notified,[]⟩
        else
          let (attributeLen,s) := s.getw
          if s.ibuf.getp+attributeLen.toNat > endp then
            some ⟨(s.notify .malAttr []).notified,[]⟩
          else updateAttributes beyond peer afc refuses endp withdraw attributeLen.toNat s

end

end RoutePlatform.UpdateOperations
