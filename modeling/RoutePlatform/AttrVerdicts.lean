import RoutePlatform.AttrReading
import RoutePlatform.AttrParsing

/-!
# The verdict on one attribute

What the parser answers to an attribute is a function of its header, of its
value and of the peer. The verdicts here are that function; each of the
functions that read an attribute keeps to it.
-/

namespace RoutePlatform.AttrVerdicts

open StreamOperations AsPathOperations AsPathSynthesis AttrOperations AttrReading

structure AttrHeader where
  raw : List (BitVec 8)
  /-- The flags, without the unused bits. -/
  flags : BitVec 8
  type : BitVec 8
  /-- The number of bytes of the header. -/
  headerLen : ℕ
  length : ℕ
  deriving DecidableEq

/-- The bytes of the attribute, with its header. -/
def AttrHeader.total (h : AttrHeader) : ℕ := h.headerLen+h.length

/-- The arguments with which the attribute is read. -/
def AttrHeader.args (h : AttrHeader) (startp : ℕ) : AttrArgs :=
  ⟨h.length,h.total,h.type,h.flags,startp⟩

/-- The flags do not fit the type. -/
def AttrHeader.flagsInvalid (beyond : BitVec 8) (h : AttrHeader) : Bool :=
  bgpAttrFlagInvalid beyond (h.args 0)

/-- The flags are optional, transitive and partial. -/
def AttrHeader.tunneled (h : AttrHeader) : Bool :=
  checkFlag h.flags flagTrans && checkFlag h.flags flagOptional && checkFlag h.flags flagPartial

/-- The NLRI of an `MP_REACH_NLRI` attribute, when its fields fit. -/
def mpReachField (v : List (BitVec 8)) : Option BgpNlri :=
  let nexthopLen := (v.getD 3 0).toNat
  if (nexthopLen=4 ∨ nexthopLen=12 ∨ nexthopLen=16 ∨ nexthopLen=32) ∧ 5+nexthopLen<v.length then
    some ⟨word16 (v.take 2),v.getD 2 0,v.drop (5+nexthopLen)⟩
  else none

/-- The NLRI of an `MP_UNREACH_NLRI` attribute, when its fields fit. -/
def mpUnreachField (v : List (BitVec 8)) : Option BgpNlri :=
  if 3≤v.length then some ⟨word16 (v.take 2),v.getD 2 0,v.drop 3⟩ else none

/-- The NLRI passes the check, or is not checked. -/
def nlriPasses (n : BgpNlri) : Bool := n.safi=safiMplsLabeledVpn || nlriSane n.afi n.nlri

/-- The value is well formed for its type. -/
def valueOk (peer : Peer) (code : AttrCode) (v : List (BitVec 8)) : Bool :=
  match code with
  | .origin => v.length=1 && (v.getD 0 0).toNat≤2
  | .asPath => (aspathOf peer.as4Rcv v).isSome
  | .as4Path => (aspathOf true v).isSome
  | .nextHop => v.length=4 && !ipv4Martian (word32 v)
  | .multiExitDisc | .localPref | .originatorId => v.length=4
  | .atomicAggregate => v.length=0
  | .aggregator => v.length=if peer.as4Rcv then 8 else 6
  | .as4Aggregator => v.length=8
  | .communities | .clusterList => v.length%4=0
  | .extCommunities => v.length%8=0
  | .mpReachNlri => (mpReachField v).any nlriPasses
  | .mpUnreachNlri => (mpUnreachField v).any nlriPasses

inductive Verdict where
  /-- It is read or ignored, and the loop goes on. -/
  | accept
  /-- The function sends a message, and the parser returns an error. -/
  | reject
  /-- The function returns the internal code; the parser sends the message. -/
  | plead
  | leak
  /-- Both send a message, and the parser returns an error. -/
  | doubled
  | withdraw
  deriving DecidableEq, Repr

/-- The verdict of `bgp_attr_malformed`. -/
def malformedVerdict (peer : Peer) (h : AttrHeader) : Verdict := if peer.sort ≠ .ebgp then .reject
  else
    match AttrCode.ofType h.type with
    | some .as4Aggregator | some .aggregator | some .atomicAggregate => .accept
    | some .as4Path | none => if h.tunneled then .withdraw else .leak
    | _ => .reject

/-- Behind the `switch` the internal code is turned into an error with a
message. -/
def Verdict.settle : Verdict→Verdict
  | .leak => .plead
  | verdict => verdict

theorem malformedVerdict_ne (peer : Peer) (h : AttrHeader) :
    malformedVerdict peer h ≠ .plead ∧ malformedVerdict peer h ≠ .doubled := by
  unfold malformedVerdict
  split
  · decide
  split
  · decide
  · decide
  · decide
  · split <;> decide
  · split <;> decide
  · decide

theorem settle_ne_leak (verdict : Verdict) : verdict.settle ≠ .leak := by cases verdict <;> decide

def switchVerdict (peer : Peer) (h : AttrHeader) (v : List (BitVec 8)) : Verdict :=
  match AttrCode.ofType h.type with
  | none => if checkFlag h.flags flagOptional then .accept else (malformedVerdict peer h).settle
  | some code =>
    if valueOk peer code v then .accept
    else
      match code with
      | .mpReachNlri => if (mpReachField v).isSome then .doubled else .plead
      | .mpUnreachNlri => if (mpUnreachField v).isSome then .doubled else .plead
      | _ => (malformedVerdict peer h).settle

theorem switchVerdict_ne_leak (peer : Peer) (h : AttrHeader) (v : List (BitVec 8)) :
    switchVerdict peer h v ≠ .leak := by
  unfold switchVerdict
  split
  · split
    · decide
    · exact settle_ne_leak _
  split
  · decide
  split
  · split <;> decide
  · split <;> decide
  · exact settle_ne_leak _

def attrVerdict (beyond : BitVec 8) (peer : Peer) (h : AttrHeader) (v : List (BitVec 8)) :
    Verdict :=
  if h.flagsInvalid beyond then malformedVerdict peer h else switchVerdict peer h v

/-- The variables that the attributes are collected in. -/
structure Gathered where
  attr : Attr
  mpUpdate : BgpNlri
  mpWithdraw : BgpNlri
  as4Path : Option Aspath
  as4Aggregator : AsT
  as4AggregatorAddr : BitVec 32
  deriving DecidableEq

def Gathered.zero : Gathered := ⟨Attr.zero,⟨0,0,[]⟩,⟨0,0,[]⟩,none,0,0⟩

/-- What has been collected in a state. -/
def gathered (s : AttrState) : Gathered :=
  ⟨s.attr,s.mpUpdate,s.mpWithdraw,s.as4Path,s.as4Aggregator,s.as4AggregatorAddr⟩

/-- The bit of an attribute is set. -/
def markAttr (attr : Attr) (code : AttrCode) : Attr := {attr with flag := insert code attr.flag}

/-- The next hop of an `MP_REACH_NLRI` attribute. -/
def mpReachAttr (v : List (BitVec 8)) (attr : Attr) : Attr :=
  let attr := {attr with mpNexthopLen := v.getD 3 0}
  match (v.getD 3 0).toNat with
  | 4 => {attr with
      mpNexthopGlobalIn := word32 ((v.drop 4).take 4)
      nexthop := if attr.nexthop=0 then word32 ((v.drop 4).take 4) else attr.nexthop}
  | 12 => {attr with mpNexthopGlobalIn := word32 ((v.drop 12).take 4)}
  | 16 => {attr with mpNexthopGlobal := (v.drop 4).take 16}
  | 32 => {attr with
      mpNexthopGlobal := (v.drop 4).take 16
      mpNexthopLocal := (v.drop 20).take 16
      mpNexthopLen := if in6IsAddrLinklocal ((v.drop 20).take 16) then attr.mpNexthopLen else 16}
  | _ => attr

def Gathered.add (peer : Peer) (g : Gathered) (code : AttrCode) (v : List (BitVec 8)) : Gathered :=
  match code with
  | .origin => {g with attr := markAttr {g.attr with origin := v.getD 0 0} code}
  | .asPath => {g with attr := markAttr {g.attr with aspath := aspathOf peer.as4Rcv v} code}
  | .as4Path => {g with attr := markAttr g.attr code,as4Path := aspathOf true v}
  | .nextHop => {g with attr := markAttr {g.attr with nexthop := word32 v} code}
  | .multiExitDisc => {g with attr := markAttr {g.attr with med := word32 v} code}
  | .localPref =>
    if peer.sort=.ebgp then g
    else {g with attr := markAttr {g.attr with localPref := word32 v} code}
  | .atomicAggregate => {g with attr := markAttr g.attr code}
  | .aggregator =>
    {g with attr := markAttr {g.attr with
        aggregatorAs := if peer.as4Rcv then word32 (v.take 4) else (word16 (v.take 2)).setWidth 32
        aggregatorAddr := word32 (v.drop (if peer.as4Rcv then 4 else 2))} code}
  | .as4Aggregator =>
    {g with
      attr := markAttr g.attr code
      as4Aggregator := word32 (v.take 4)
      as4AggregatorAddr := word32 (v.drop 4)}
  | .communities =>
    if v.length=0 then {g with attr := {g.attr with community := none}}
    else {g with attr := markAttr {g.attr with community := communityParse v} code}
  | .originatorId => {g with attr := markAttr {g.attr with originatorId := word32 v} code}
  | .clusterList => {g with attr := markAttr {g.attr with cluster := some (words32 v)} code}
  | .extCommunities =>
    if v.length=0 then {g with attr := {g.attr with ecommunity := none}}
    else {g with attr := markAttr {g.attr with ecommunity := ecommunityParse v} code}
  | .mpReachNlri =>
    {g with
      attr := markAttr (mpReachAttr v g.attr) code
      mpUpdate := (mpReachField v).getD g.mpUpdate}
  | .mpUnreachNlri =>
    {g with
      attr := markAttr g.attr code
      mpWithdraw := (mpUnreachField v).getD g.mpWithdraw}

/-- What an unknown attribute adds: it is passed on as partial, when it is
transitive. -/
def Gathered.addUnknown (g : Gathered) (h : AttrHeader) (v : List (BitVec 8)) : Gathered :=
  if checkFlag h.flags flagTrans then
    {g with attr := {g.attr with
        transit := g.attr.transit++((h.raw++v).set 0 ((h.raw++v).getD 0 0 ||| flagPartial))}}
  else g

/-- What the `switch` adds; values that are not well formed are ignored. -/
def gatherSwitch (peer : Peer) (h : AttrHeader) (v : List (BitVec 8)) (g : Gathered) : Gathered :=
  match AttrCode.ofType h.type with
  | none => g.addUnknown h v
  | some code => if valueOk peer code v then g.add peer code v else g

def gatherAttr (beyond : BitVec 8) (peer : Peer) (h : AttrHeader) (v : List (BitVec 8))
    (g : Gathered) : Gathered :=
  if h.flagsInvalid beyond then g else gatherSwitch peer h v g

/-- The attribute is skipped and nothing behind it changes. -/
structure Consumed (h : AttrHeader) (startp : ℕ) (s s' : AttrState) : Prop where
  getp : s'.ibuf.getp=startp+h.total
  length : s'.ibuf.data.length=s.ibuf.data.length
  behind : s'.ibuf.data.drop (startp+h.total)=s.ibuf.data.drop (startp+h.total)
  notified : s'.notified=s.notified

/-- The attribute is skipped, and this is what it leaves behind. -/
structure Passed (h : AttrHeader) (startp : ℕ) (g : Gathered) (s s' : AttrState) : Prop
    extends Consumed h startp s s' where
  gathers : gathered s'=g

/-- What a verdict means for the result of a function and the messages. -/
def Outcome (h : AttrHeader) (startp : ℕ) (g : Gathered) (s : AttrState)
    (r : AttrParseRet × AttrState) : Verdict→Prop
  | .accept => r.1=.proceed ∧ Passed h startp g s r.2
  | .reject => r.1=.error ∧ r.2.notified.length=s.notified.length+1
  | .plead => r.1=.errorNotifypls ∧ r.2.notified=s.notified
  | .leak => r.1=.errorNotifypls ∧ Passed h startp g s r.2
  | .doubled => r.1=.errorNotifypls ∧ r.2.notified.length=s.notified.length+1
  | .withdraw => r.1=.withdraw ∧ Consumed h startp s r.2

/-- An attribute is ready to be read: its header is read, its value comes next
and is all there. -/
structure Ready (h : AttrHeader) (startp : ℕ) (v ys : List (BitVec 8)) (s : AttrState) : Prop where
  header : 0<h.headerLen
  raw : h.raw.length=h.headerLen
  bytes : s.ibuf.data.drop startp=h.raw++(v++ys)
  getp : s.ibuf.getp=startp+h.headerLen
  rest : s.ibuf.rest=v++ys
  length : v.length=h.length

section

variable {peer : Peer} {h : AttrHeader} {startp : ℕ} {v ys : List (BitVec 8)} {s s' : AttrState}
  {g : Gathered}

section

variable (hready : Ready h startp v ys s)
include hready

theorem Ready.readable : h.length ≤ s.ibuf.readable := by
  rw [←length_rest,hready.rest,List.length_append,hready.length]
  exact Nat.le_add_right _ _

theorem Ready.within : startp+h.total ≤ s.ibuf.data.length := by
  have hread := hready.readable
  have hle := s.ibuf.getp_le
  have hpos := hready.getp
  unfold Stream.readable Stream.endp at hread
  unfold AttrHeader.total
  omega

theorem Ready.pnt : s.pnt h.length=v := by
  rw [AttrState.pnt,hready.rest,←hready.length,List.take_left]

variable (hibuf : s'.ibuf=skip s.ibuf h.length)
include hibuf

theorem consumed_skip (hnotified : s'.notified=s.notified) : Consumed h startp s s' := by
  refine ⟨?_,?_,?_,hnotified⟩
  · rw [hibuf,skip_getp hready.readable,hready.getp,AttrHeader.total,add_assoc]
  · rw [hibuf]
    rfl
  rw [hibuf]
  rfl

theorem outcome_accept (hnotified : s'.notified=s.notified) (hgather : gathered s'=g) :
    Outcome h startp g s (.proceed,s') .accept :=
  ⟨rfl,⟨consumed_skip hready hibuf hnotified,hgather⟩⟩

end

theorem length_notify (s : AttrState) (subcode : UpdateSubcode) (data : List (BitVec 8)) :
    (s.notify subcode data).notified.length=s.notified.length+1 := by
  rw [AttrState.notify,List.length_append]
  rfl

/-- The specification of `bgp_attr_malformed`, called at any point within the
attribute. -/
theorem malformed_outcome (hready : Ready h startp v ys s) (subcode : UpdateSubcode) (length : ℕ)
    (hdata : s'.ibuf.data=s.ibuf.data) (hnotified : s'.notified=s.notified)
    (hgather : gathered s'=g) :
    Outcome h startp g s (bgpAttrMalformed peer (h.args startp) subcode length s')
      (malformedVerdict peer h) := by
  have hin : startp+h.total ≤ s'.ibuf.data.length := by
    rw [hdata]
    exact hready.within
  have hset : streamSetGetp s'.ibuf (startp+h.total) =
      some {s'.ibuf with getp := startp+h.total,getp_le := hin} := dif_pos hin
  have hconsumed : Consumed h startp s
      {s' with ibuf := {s'.ibuf with getp := startp+h.total,getp_le := hin}} :=
    ⟨rfl,by rw [hdata],by rw [hdata],hnotified⟩
  have hsent (t : AttrState) (ht : t.notified=s.notified) (data : List (BitVec 8)) :
      (t.notify subcode data).notified.length=s.notified.length+1 := by
    rw [length_notify,ht]
  unfold malformedVerdict
  unfold bgpAttrMalformed
  dsimp only [AttrHeader.args]
  by_cases hsort : peer.sort ≠ .ebgp
  · rw [if_pos hsort,if_pos hsort]
    exact ⟨rfl,hsent s' hnotified _⟩
  rw [if_neg hsort,if_neg hsort,hset,Option.getD_some]
  -- attributes of no consequence, core attributes, and the others
  have hoth : Outcome h startp g s
        (if checkFlag h.flags flagTrans ∧ checkFlag h.flags flagOptional ∧
            checkFlag h.flags flagPartial then
          (.withdraw, {s' with
            ibuf := {s'.ibuf with getp := startp+h.total,getp_le := hin}})
        else (.errorNotifypls, {s' with
            ibuf := {s'.ibuf with getp := startp+h.total,getp_le := hin}}))
        (if h.tunneled then .withdraw else .leak) := by
    by_cases htunnel : h.tunneled
    · have hflags : checkFlag h.flags flagTrans ∧ checkFlag h.flags flagOptional ∧
          checkFlag h.flags flagPartial := by
        unfold AttrHeader.tunneled at htunnel
        simpa [and_assoc] using htunnel
      rw [if_pos htunnel,if_pos hflags]
      exact ⟨rfl,hconsumed⟩
    have hflags : ¬(checkFlag h.flags flagTrans ∧ checkFlag h.flags flagOptional ∧
        checkFlag h.flags flagPartial) := by
      unfold AttrHeader.tunneled at htunnel
      simpa [and_assoc] using htunnel
    rw [if_neg htunnel,if_neg hflags]
    exact ⟨rfl,⟨hconsumed,hgather⟩⟩
  cases hcode : AttrCode.ofType h.type with
  | none => exact hoth
  | some code =>
    cases code with
    | as4Aggregator | aggregator | atomicAggregate => exact ⟨rfl,⟨hconsumed,hgather⟩⟩
    | as4Path => exact hoth
    | origin | asPath | nextHop | multiExitDisc | localPref | communities | originatorId
    | clusterList | mpReachNlri | mpUnreachNlri | extCommunities => exact ⟨rfl,hsent _ hnotified _⟩

theorem outcome_settle {r : AttrParseRet × AttrState} {verdict : Verdict} {g' : Gathered}
    (h' : Outcome h startp g' s r verdict) (hg : verdict=.accept → g'=g) :
    Outcome h startp g s r verdict.settle := by
  cases verdict with
  | leak => exact ⟨h'.1,h'.2.notified⟩
  | accept =>
    rw [←hg rfl]
    exact h'
  | reject | plead | doubled | withdraw => exact h'

end

end RoutePlatform.AttrVerdicts
