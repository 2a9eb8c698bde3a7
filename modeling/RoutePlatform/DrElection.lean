import RoutePlatform.OspfStates
import RoutePlatform.RankedElection

/-!
# Election of the designated router

An interface keeps a table of neighbours that contains the router itself, with the designated and
the backup router that each declared. The election collects the eligible neighbours once, elects
both routers, and does so again if that changed what the router itself is.
-/

namespace RoutePlatform.DrElection

open OspfStates

universe u

variable {ι : Type u}

/-- `struct ospf_neighbor`, as the election reads it, with addresses in the order of the comparison.
-/
structure OspfNeighbor where
  routerId : ℕ
  address : ℕ
  priority : ℕ
  state : NsmState
  dRouter : ℕ
  bdRouter : ℕ
  deriving DecidableEq

/-- `struct ospf_interface`: the neighbours are objects, the table holds pointers
to them. -/
structure OspfInterface (ι : Type u) where
  state : IsmState
  /-- The entry of the router itself, `nbr_self`. -/
  nbrSelf : ι
  nbr : ι→OspfNeighbor
  /-- The table of neighbours in the order it is gone through. -/
  nbrs : List ι

/-- `DR (oi)`. -/
def OspfInterface.dr (oi : OspfInterface ι) : ℕ := (oi.nbr oi.nbrSelf).dRouter

/-- `BDR (oi)`. -/
def OspfInterface.bdr (oi : OspfInterface ι) : ℕ := (oi.nbr oi.nbrSelf).bdRouter

/-- The address of the interface, which `ospf_nbr_add_self` copies. -/
def OspfInterface.address (oi : OspfInterface ι) : ℕ := (oi.nbr oi.nbrSelf).address

/-- `NBR_IS_DR`. -/
def OspfNeighbor.isDr (n : OspfNeighbor) : Bool := n.address == n.dRouter

/-- `NBR_IS_BDR`. -/
def OspfNeighbor.isBdr (n : OspfNeighbor) : Bool := n.address == n.bdRouter

/-- The comparison of `ospf_dr_election_sub`. -/
def higher (nbr : ι→OspfNeighbor) (max : Option ι) (n : ι) : Option ι :=
  match max with
  | none => some n
  | some m =>
    if (nbr m).priority<(nbr n).priority then some n
    else if (nbr m).priority=(nbr n).priority then
      if (nbr m).routerId<(nbr n).routerId then some n else some m
    else some m

def ospfDrElectionSub (nbr : ι→OspfNeighbor) (routers : List ι) : Option ι :=
  routers.foldl (higher nbr) none

/-- The address of an elected neighbour, 0 if nobody is elected. -/
def addressOf (nbr : ι→OspfNeighbor) : Option ι→ℕ
  | some n => (nbr n).address
  | none => 0

section

variable [DecidableEq ι]

/-- `DR (oi)` is assigned. -/
def OspfInterface.setDr (oi : OspfInterface ι) (a : ℕ) : OspfInterface ι :=
  {oi with nbr := Function.update oi.nbr oi.nbrSelf {oi.nbr oi.nbrSelf with dRouter := a}}

/-- `BDR (oi)` is assigned. -/
def OspfInterface.setBdr (oi : OspfInterface ι) (a : ℕ) : OspfInterface ι :=
  {oi with nbr := Function.update oi.nbr oi.nbrSelf {oi.nbr oi.nbrSelf with bdRouter := a}}

/-- `ospf_elect_dr`. The last neighbour with the address of the backup may be taken. -/
def ospfElectDr (oi : OspfInterface ι) (elList : List ι) : OspfInterface ι × Option ι :=
  let drList := elList.filter fun n => (oi.nbr n).isDr
  let bdr := elList.foldl (fun b n => if oi.bdr=(oi.nbr n).address then some n else b) none
  let dr := if drList.length > 0 then ospfDrElectionSub oi.nbr drList else bdr
  (oi.setDr (addressOf oi.nbr dr),dr)

def ospfElectBdr (oi : OspfInterface ι) (elList : List ι) : OspfInterface ι × Option ι :=
  let noDrList := elList.filter fun n => !(oi.nbr n).isDr
  let bdrList := noDrList.filter fun n => (oi.nbr n).isBdr
  let bdr :=
    if bdrList.length > 0 then ospfDrElectionSub oi.nbr bdrList
    else ospfDrElectionSub oi.nbr noDrList
  (oi.setBdr (addressOf oi.nbr bdr),bdr)

def ospfIsmState (oi : OspfInterface ι) : IsmState := if oi.dr=oi.address then .dr
  else if oi.bdr=oi.address then .backup
  else .drOther

def OspfNeighbor.eligible (n : OspfNeighbor) : Bool :=
  n.routerId != 0 && 0<n.priority && NsmState.twoWay.code≤n.state.code

def ospfDrEligibleRouters (oi : OspfInterface ι) : List ι :=
  oi.nbrs.filter fun n => (oi.nbr n).eligible

/-- The neighbours for which `ospf_dr_change` schedules the event AdjOK. -/
def ospfDrChange (oi : OspfInterface ι) : List ι :=
  oi.nbrs.filter fun n => (oi.nbr n).routerId != 0 && NsmState.twoWay.code≤(oi.nbr n).state.code &&
    (oi.nbr n).routerId != (oi.nbr oi.nbrSelf).routerId

/-- The two elections of a round. -/
def electionRound (oi : OspfInterface ι) (elList : List ι) : OspfInterface ι :=
  (ospfElectDr (ospfElectBdr oi elList).1 elList).1

/-- What `ospf_dr_election` leaves behind. -/
structure ElectionResult (ι : Type u) where
  newState : IsmState
  oi : OspfInterface ι
  adjOk : List ι

/-- The first round is repeated when it changed what the router is. -/
def repeats (newState oldState : IsmState) : Bool :=
  newState != oldState && !(newState == .drOther && oldState.code<IsmState.drOther.code)

def ospfDrElection (oi : OspfInterface ι) : ElectionResult ι :=
  let elList := ospfDrEligibleRouters oi
  let first := electionRound oi elList
  let final := if repeats (ospfIsmState first) oi.state then electionRound first elList else first
  { newState := ospfIsmState final
    oi := final
    adjOk := if oi.dr≠final.dr ∨ oi.bdr≠final.bdr then ospfDrChange final else [] }

inductive IsmEvent where
  | noEvent
  | interfaceUp
  | waitTimer
  | backupSeen
  | neighborChange
  | loopInd
  | unloopInd
  | interfaceDown
  deriving DecidableEq

/-- The network types of an interface. -/
inductive IfType where
  | pointToPoint
  | broadcast
  | nbma
  | pointToMultipoint
  | virtualLink
  | loopback
  deriving DecidableEq

def ismInterfaceUp (oi : OspfInterface ι) (type : IfType) : IsmState :=
  if type=.pointToPoint ∨ type=.pointToMultipoint ∨ type=.virtualLink then .pointToPoint
  else if (oi.nbr oi.nbrSelf).priority=0 then .drOther
  else .waiting

/-- `ospf_if_cleanup`: the neighbours are gone, the own entry is new. -/
def ospfIfCleanup (oi : OspfInterface ι) : OspfInterface ι :=
  {oi with
    nbrs := [oi.nbrSelf]
    nbr := Function.update oi.nbr oi.nbrSelf
      {oi.nbr oi.nbrSelf with dRouter := 0,bdRouter := 0,state := .twoWay}}

/-- `ospf_ism_event`: the row of the state machine for an event. -/
def ospfIsmEvent (oi : OspfInterface ι) (type : IfType) : IsmEvent→OspfInterface ι
  | .noEvent => {oi with state := .dependUpon}
  | .interfaceUp =>
    match oi.state with
    | .down => {oi with state := ismInterfaceUp oi type}
    | _ => oi
  | .waitTimer | .backupSeen =>
    match oi.state with
    | .waiting => {(ospfDrElection oi).oi with state := (ospfDrElection oi).newState}
    | _ => oi
  | .neighborChange =>
    match oi.state with
    | .drOther | .backup | .dr =>
      {(ospfDrElection oi).oi with state := (ospfDrElection oi).newState}
    | _ => oi
  | .loopInd =>
    match oi.state with
    | .dependUpon => oi
    | _ => {oi with state := .loopback}
  | .unloopInd =>
    match oi.state with
    | .loopback => {oi with state := .down}
    | _ => oi
  | .interfaceDown =>
    match oi.state with
    | .dependUpon => oi
    | _ => {ospfIfCleanup oi with state := .down}

end

end RoutePlatform.DrElection
