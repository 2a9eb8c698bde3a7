import RoutePlatform.AttrOperations

/-!
# The attribute block of an UPDATE message

`bgp_attr_parse` reads one attribute after the other, checks that the well-known ones are there,
and joins what a peer with 16 bit AS numbers sent in two parts. A history is kept beside the
variables: where headers were read, and which types were acted upon.
-/

namespace RoutePlatform.AttrParsing

open StreamOperations AsPathOperations AsPathSynthesis AttrOperations

structure HeaderRead where
  startp : ℕ
  /-- The end of the attribute, once its length is known. -/
  attrEndp : Option ℕ
  deriving DecidableEq

/-- The variables of `bgp_attr_parse`. -/
structure ParseState where
  state : AttrState
  seen : Finset (BitVec 8)
  headers : List HeaderRead
  /-- History: the types of the attributes that were acted upon. -/
  interpreted : List (BitVec 8)

/-- What a round of the loop leads to. -/
inductive Turn where
  | next (p : ParseState)
  | stop (ret : AttrParseRet) (p : ParseState)

/-- `BGP_ATTR_MIN_LEN`. -/
def attrMinLen : ℕ := 3

/-- The `switch` of `bgp_attr_parse`. -/
def attrSwitch (peer : Peer) (args : AttrArgs) (s : AttrState) : AttrParseRet × AttrState :=
  match AttrCode.ofType args.type with
  | some .origin => bgpAttrOrigin peer args s
  | some .asPath => bgpAttrAspath peer args s
  | some .as4Path => bgpAttrAs4Path peer args s
  | some .nextHop => bgpAttrNexthop peer args s
  | some .multiExitDisc => bgpAttrMed peer args s
  | some .localPref => bgpAttrLocalPref peer args s
  | some .atomicAggregate => bgpAttrAtomic peer args s
  | some .aggregator => bgpAttrAggregator peer args s
  | some .as4Aggregator => bgpAttrAs4Aggregator peer args s
  | some .communities => bgpAttrCommunity peer args s
  | some .originatorId => bgpAttrOriginatorId peer args s
  | some .clusterList => bgpAttrClusterList peer args s
  | some .mpReachNlri => bgpMpReachParse args s
  | some .mpUnreachNlri => bgpMpUnreachParse args s
  | some .extCommunities => bgpAttrExtCommunities peer args s
  | none => bgpAttrUnknown peer args s

/-- What the loop does with the result of the `switch`. -/
def attrResult (args : AttrArgs) (ret : AttrParseRet) (s : AttrState) : Option AttrParseRet × AttrState :=
  match ret with
  | .errorNotifypls => (some .error,s.notify .malAttr [])
  | .error => (some .error,s)
  | .withdraw => (some .withdraw,s)
  | .proceed =>
    if s.ibuf.getp≠args.startp+args.total then (some .error,s.notify .attrLengErr [])
    else (none,s)

/-- One attribute after its header; no result means that the loop goes on. -/
def attrInterpret (beyond : BitVec 8) (peer : Peer) (args : AttrArgs) (s : AttrState) :
    Option AttrParseRet × AttrState :=
  if bgpAttrFlagInvalid beyond args then
    match bgpAttrMalformed peer args .attrFlagErr args.total s with
    | (.proceed,s) => (none,s)
    | (ret,s) => (some ret,s)
  else attrResult args (attrSwitch peer args s).1 (attrSwitch peer args s).2

/-- A round of the loop of `bgp_attr_parse` behind the header that was read at
`startp`. -/
def attrBody (beyond : BitVec 8) (peer : Peer) (endp : ℕ) (p : ParseState) (startp : ℕ)
    (flags type : BitVec 8) (length : ℕ) (s : AttrState) : Turn :=
  let attrEndp := s.ibuf.getp+length
  let headers := p.headers++[⟨startp,some attrEndp⟩]
  if type∈p.seen then
    .stop .error {p with state := s.notify .malAttr [],headers := headers}
  else
    let seen := insert type p.seen
    if attrEndp > endp then
      .stop .error ⟨s.notify .attrLengErr [],seen,headers,p.interpreted⟩
    else
      let args : AttrArgs := ⟨length,attrEndp-startp,type,flags,startp⟩
      match attrInterpret beyond peer args s with
      | (none,s) => .next ⟨s,seen,headers,p.interpreted++[type]⟩
      | (some ret,s) => .stop ret ⟨s,seen,headers,p.interpreted++[type]⟩

/-- One round of the loop of `bgp_attr_parse`. -/
def attrTurn (beyond : BitVec 8) (peer : Peer) (endp : ℕ) (p : ParseState) : Turn :=
  let startp := p.state.ibuf.getp
  if endp-startp<attrMinLen then
    .stop .error {p with state := p.state.notify .attrLengErr []}
  else
    let (flags,s) := p.state.getc
    let flags := 0xF0 &&& flags
    let (type,s) := s.getc
    if checkFlag flags flagExtlen then
      if endp-startp<attrMinLen+1 then
        .stop .error {p with
          state := s.notify .attrLengErr []
          headers := p.headers++[⟨startp,none⟩]}
      else attrBody beyond peer endp p startp flags type s.getw.1.toNat s.getw.2
    else attrBody beyond peer endp p startp flags type s.getc.1.toNat s.getc.2

/-- The loop of `bgp_attr_parse`. -/
def attrLoop (beyond : BitVec 8) (peer : Peer) (endp : ℕ) :
    ℕ→ParseState→Option (Option AttrParseRet × ParseState)
  | 0, _ => none
  | fuel+1, p =>
    if p.state.ibuf.getp<endp then
      match attrTurn beyond peer endp p with
      | .next p => attrLoop beyond peer endp fuel p
      | .stop ret p => some (some ret,p)
    else some (none,p)

section

variable (peer : Peer) (s : AttrState)

/-- The missing attribute of `bgp_attr_check`; a later check overrides an earlier one. -/
def missingAttr : Option (BitVec 8) :=
  let flag := s.attr.flag
  let type := if .origin ∉ flag then some 1 else none
  let type := if .asPath ∉ flag then some 2 else type
  let type := if .nextHop ∉ flag ∧ .mpReachNlri ∉ flag then some 3 else type
  if peer.sort=.ibgp ∧ .localPref ∉ flag then some 5 else type

def bgpAttrCheck : AttrParseRet × AttrState :=
  if peer.restartRcv ∧ s.attr.flag = ∅ then (.proceed,s)
  else if s.attr.flag = {.mpUnreachNlri} then (.proceed,s)
  else
    match missingAttr peer s with
    | some type => (.error,s.notify .missAttr [type])
    | none => (.proceed,s)

/-- `bgp_attr_munge_as4_attrs` on `AS4_AGGREGATOR`: whether `AS4_PATH` is ignored, and the
attribute. -/
def mungeAggregator : Bool × AttrState :=
  if .as4Aggregator∈s.attr.flag then
    if .aggregator∈s.attr.flag then
      if s.attr.aggregatorAs≠bgpAsTrans then (true,s)
      else (false,s.modifyAttr fun attr => {attr with
          aggregatorAs := s.as4Aggregator
          aggregatorAddr := s.as4AggregatorAddr})
    else (false,(s.modifyAttr fun attr =>
        {attr with aggregatorAs := s.as4Aggregator}).setFlag .aggregator)
  else (false,s)

def bgpAttrMungeAs4Attrs : AttrParseRet × AttrState :=
  match s.attr.aspath with
  | none => (.error,s)
  | some aspath =>
    if peer.as4Rcv then (.proceed,s)
    else
      let (ignoreAs4Path,s) := mungeAggregator s
      match ignoreAs4Path, s.as4Path with
      | false, some as4Path =>
        if .as4Path∈s.attr.flag then
          (.proceed,s.modifyAttr fun attr =>
            {attr with aspath := some (aspathReconcileAs4 aspath as4Path)})
        else (.proceed,s)
      | _, _ => (.proceed,s)

def bgpAttrAspathCheck : AttrParseRet × AttrState :=
  let aspath := s.attr.aspath
  if (peer.sort=.confed ∧ !aspath.any aspathLeftConfedCheck) ∨
      (peer.sort=.ebgp ∧ aspath.any aspathConfedCheck) then
    (.error,s.notify .malAsPath [])
  else if peer.enforceFirstAs ∧ peer.sort=.ebgp ∧
      !aspath.any fun path => aspathFirstasCheck path peer.as then
    (.error,s.notify .malAsPath [])
  else if peer.changeLocalAs≠0 ∧ !peer.localAsNoPrepend then
    (.proceed,s.modifyAttr fun attr =>
      {attr with aspath := aspath.map fun path => aspathAddSeq path peer.changeLocalAs})
  else (.proceed,s)

/-- What `bgp_attr_parse` does with the AS path at its end. -/
def attrFinishAspath : AttrParseRet × AttrState :=
  if .asPath∈s.attr.flag then
    match bgpAttrMungeAs4Attrs peer s with
    | (.proceed,s) => bgpAttrAspathCheck peer s
    | (_,s) => (.error,s.notify .malAttr [])
  else (.proceed,s)

/-- `bgp_attr_parse` behind its loop. -/
def attrFinish (endp : ℕ) : AttrParseRet × AttrState :=
  if s.ibuf.getp≠endp then (.error,s.notify .attrLengErr [])
  else
    match bgpAttrCheck peer s with
    | (.proceed,s) => attrFinishAspath peer s
    | (ret,s) => (ret,s)

end

/-- The state in which `bgp_update_receive` calls `bgp_attr_parse`. -/
def parseStart (ibuf : Stream) : ParseState where
  state := {
    ibuf := ibuf
    attr := Attr.zero
    mpUpdate := ⟨0,0,[]⟩
    mpWithdraw := ⟨0,0,[]⟩
    as4Path := none
    as4Aggregator := 0
    as4AggregatorAddr := 0
    notified := [] }
  seen := ∅
  headers := []
  interpreted := []

/-- `bgp_attr_parse` of the next `size` bytes. The answer is missing when the
fuel is used up. -/
def bgpAttrParse (beyond : BitVec 8) (peer : Peer) (fuel : ℕ) (ibuf : Stream) (size : ℕ) :
    Option (AttrParseRet × ParseState) :=
  let endp := ibuf.getp+size
  match attrLoop beyond peer endp fuel (parseStart ibuf) with
  | some (some ret,p) => some (ret,p)
  | some (none,p) =>
    some ((attrFinish peer p.state endp).1, {p with state := (attrFinish peer p.state endp).2})
  | none => none

end RoutePlatform.AttrParsing
