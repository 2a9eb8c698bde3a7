import RoutePlatform.DrElection
import RoutePlatform.DatabaseExchange

/-!
# The neighbour state machine of `ospfd/ospf_nsm.c`

An event selects a row of a table: an action, and the next state or `NSM_DependUpon` when the
action answers it. A change of state may execute the designated router election, floods LSAs, and
clears the lists of a neighbour that loses its adjacency. Statistics, traps and debug output are
left out; what other parts decide during an event is an argument.
-/

namespace RoutePlatform.NsmOperations

open KeyedStore LsaOperations OspfStates DrElection Function

universe u v w

/-- The events of a neighbour, in the order of their numbers. -/
inductive NsmEvent where
  | noEvent
  | packetReceived
  | start
  | twoWayReceived
  | negotiationDone
  | exchangeDone
  | badLsReq
  | loadingDone
  | adjOk
  | seqNumberMismatch
  | oneWayReceived
  | killNbr
  | inactivityTimer
  | llDown
  deriving DecidableEq

def ospfDdFlagMs : BitVec 8 := 0x01

def ospfDdFlagM : BitVec 8 := 0x02

def ospfDdFlagI : BitVec 8 := 0x04

def ospfOptionNp : BitVec 8 := 0x08

def checkFlag (v flag : BitVec 8) : Bool := v &&& flag≠0

variable {κ : Type u} {ι : Type v} {μ : Type w}

/-- `struct ospf_neighbor`: what election and events read. A priority of -1 is 0, a timer is set or
not. -/
structure NsmNeighbor (μ : Type w) extends OspfNeighbor where
  src : ℕ
  options : BitVec 8
  ddFlags : BitVec 8
  ddSeqnum : BitVec 32
  /-- `db_sum`, the database summary list. -/
  dbSum : OspfLsdb
  /-- `ls_req`, the link state request list. -/
  lsReq : OspfLsdb
  /-- `ls_rxmt`, the link state retransmission list. -/
  lsRxmt : OspfLsdb
  lastSend : Bool
  cryptSeqnum : BitVec 32
  stateChange : ℕ
  nbrNbma : Option μ
  tInactivity : Bool
  tDbDesc : Bool
  tLsUpd : Bool
  tLsReq : Bool
  tHelloReply : Bool

/-- `struct ospf_nbr_nbma`, a configured neighbour. -/
structure NbrNbma (ι : Type v) where
  nbr : Option ι
  stateChange : ℕ
  tPoll : Bool

/-- `struct ospf_interface`, with a keyed table and the scheduled events. -/
structure NsmInterface (ι : Type v) (μ : Type w) where
  type : IfType
  state : IsmState
  nbrSelf : ι
  nbr : ι→NsmNeighbor μ
  /-- `nbrs`, keys and pointers. -/
  nbrs : List (ℕ × ι)
  nbma : μ→NbrNbma ι
  fullNbrs : ℤ
  events : List (ι × NsmEvent)

/-- `struct ospf_area`. -/
structure NsmArea (κ : Type u) (ι : Type v) (μ : Type w) where
  oi : κ→NsmInterface ι μ
  oiflist : List κ
  fullNbrs : ℤ

/-- A flooded LSA: its interfaces, and the neighbours passed over. -/
structure LsaFlood (κ : Type u) (ι : Type v) where
  lsa : OspfLsa
  /-- `ospf_flood_through_interface` is called for the interface. -/
  through : κ→Bool
  skips : κ→ι→Bool

/-- What other parts of the daemon answer while an event is executed. -/
structure Answers (κ : Type u) (ι : Type v) where
  now : ℕ
  quaggaTime : BitVec 32
  /-- `lsdb` of `struct ospf`. -/
  asLsdb : OspfLsdb
  area : OspfArea
  localXlt : OspfLsa→Bool
  otherLink : OspfLsa→Bool
  /-- `OSPF_OPTION_O` is in the options that are sent. -/
  sendsO : Bool
  room : ℕ
  /-- LSAs that are originated or flushed while the state changes. -/
  floods : List (LsaFlood κ ι)

/-- The state is below another one. -/
def below (a b : NsmState) : Bool := a.code<b.code

section

variable (x : Answers κ ι) (nbr : NsmNeighbor μ)

def ospfNbrNew : NsmNeighbor μ where
  routerId := 0
  address := 0
  priority := 0
  state := .down
  dRouter := 0
  bdRouter := 0
  src := 0
  options := 0
  ddFlags := ospfDdFlagMs ||| ospfDdFlagM ||| ospfDdFlagI
  ddSeqnum := 0
  dbSum := Store.empty
  lsReq := Store.empty
  lsRxmt := Store.empty
  lastSend := false
  cryptSeqnum := 0
  stateChange := 0
  nbrNbma := none
  tInactivity := false
  tDbDesc := false
  tLsUpd := false
  tLsReq := false
  tHelloReply := false

/-- `ospf_nbr_free`. It leaves `t_hello_reply` as it is. -/
def ospfNbrFree : NsmNeighbor μ :=
  {nbr with
    dbSum := Store.empty
    lsReq := Store.empty
    lsRxmt := Store.empty
    lastSend := false
    nbrNbma := none
    tInactivity := false
    tDbDesc := false
    tLsUpd := false
    tLsReq := false}

def nsmTimerSet : NsmNeighbor μ :=
  match nbr.state with
  | .deleted | .down =>
    {nbr with
      tInactivity := false,tHelloReply := false
      tDbDesc := false,tLsUpd := false,tLsReq := false}
  | .attempt | .initState | .twoWay => {nbr with tDbDesc := false,tLsUpd := false,tLsReq := false}
  | .exStart => {nbr with tDbDesc := true,tLsUpd := false,tLsReq := false}
  | .exchange =>
    {nbr with
      tLsUpd := true
      tDbDesc := if checkFlag nbr.ddFlags ospfDdFlagMs then nbr.tDbDesc else false}
  | _ => {nbr with tDbDesc := false}

def ospfLsRetransmitAdd (now : ℕ) (lsa : OspfLsa) : NsmNeighbor μ :=
  let old := ospfLsdbLookup nbr.lsRxmt lsa
  if ospfLsaMoreRecent now old (some lsa)<0 then
    let rxmt := match old with
      | some old => ospfLsdbDelete nbr.lsRxmt old
      | none => nbr.lsRxmt
    {nbr with lsRxmt := ospfLsdbAdd rxmt lsa}
  else nbr

def ospfDbSummaryAdd (lsa : OspfLsa) : NsmNeighbor μ :=
  if lsa.data.type=ospfOpaqueLinkLsa ∧ x.otherLink lsa then nbr
  else if x.localXlt lsa then nbr
  else if isLsaMaxage x.now lsa then ospfLsRetransmitAdd nbr x.now lsa
  else {nbr with dbSum := ospfLsdbAdd nbr.dbSum lsa}

/-- The LSAs of a type in a database. -/
def lsdbLoop (lsdb : OspfLsdb) (type : ℕ) : List OspfLsa :=
  lsdb.entries.filter fun lsa => lsa.data.type.toNat=type

/-- The LSAs that `nsm_negotiation_done` goes through. -/
def negotiationLsas (type : IfType) : List OspfLsa :=
  let area := lsdbLoop x.area.lsdb
  let external := type ≠ .virtualLink ∧ x.area.externalRouting=.default
  area 1++area 2++area 3++area 4 ++
    (if checkFlag nbr.options ospfOptionO then area 9++area 10 else []) ++
    (if checkFlag nbr.options ospfOptionNp then area 7 else []) ++
    (if external then lsdbLoop x.asLsdb 5 else []) ++
    (if checkFlag nbr.options ospfOptionO ∧ external then lsdbLoop x.asLsdb 11 else [])

def nsmNegotiationDone (type : IfType) : NsmNeighbor μ :=
  (negotiationLsas x nbr type).foldl (ospfDbSummaryAdd x) nbr

def nsmClearAdj : NsmNeighbor μ :=
  {nbr with
    dbSum := Store.empty
    lsReq := Store.empty
    lsRxmt := Store.empty
    options := nbr.options &&& ~~~ospfOptionO}

/-- `ospf_db_desc_send`, with `ospf_make_db_desc`. -/
def ospfDbDescSend : NsmNeighbor μ :=
  let dbSum := DatabaseExchange.describeTypes x.sendsO nbr.dbSum (ospfMaxLsa-ospfMinLsa)
    ospfMinLsa x.room
  {nbr with
    dbSum := dbSum
    ddFlags := if ospfLsdbIsempty dbSum ∧ !below nbr.state .exchange then
      nbr.ddFlags &&& ~~~ospfDdFlagM else nbr.ddFlags
    lastSend := true}

/-- The start of the exchange in `nsm_change_state`. -/
def startExchange : NsmNeighbor μ :=
  ospfDbDescSend x {nbr with
    ddSeqnum := if nbr.ddSeqnum=0 then x.quaggaTime else nbr.ddSeqnum+1
    ddFlags := ospfDdFlagI ||| ospfDdFlagM ||| ospfDdFlagMs}

/-- One neighbour in `ospf_flood_through_interface`, and whether its loading ends. -/
def floodNeighbour (now : ℕ) (lsa : OspfLsa) (skip : Bool) : NsmNeighbor μ × Bool :=
  let add := fun nbr : NsmNeighbor μ => if skip then nbr else ospfLsRetransmitAdd nbr now lsa
  if below nbr.state .exchange then (nbr,false)
  else if below nbr.state .full then
    match ospfLsdbLookup nbr.lsReq lsa with
    | none => (add nbr,false)
    | some lsReq =>
      let ret := ospfLsaMoreRecent now (some lsReq) (some lsa)
      if ret > 0 then (nbr,false)
      else
        let nbr := {nbr with lsReq := ospfLsdbDelete nbr.lsReq lsReq}
        let done := decide (nbr.state=.loading) && ospfLsdbIsempty nbr.lsReq
        (if ret=0 then nbr else add nbr,done)
  else (add nbr,false)

end

inductive NsmFunc where
  | packetReceived
  | start
  | twowayReceived
  | negotiationDone
  | exchangeDone
  | adjOk
  | killNbr
  deriving DecidableEq

/-- `NSM`: the action and the next state of an event in a state. -/
def nsmTable : NsmState→NsmEvent→Option NsmFunc × NsmState
  | .dependUpon, _ => (none,.dependUpon)
  | .deleted, _ => (none,.deleted)
  | _, .noEvent => (none,.dependUpon)
  | .down, .packetReceived => (some .packetReceived,.initState)
  | .attempt, .packetReceived => (some .packetReceived,.initState)
  | s, .packetReceived => (some .packetReceived,s)
  | .down, .start => (some .start,.attempt)
  | s, .start => (none,s)
  | .initState, .twoWayReceived => (some .twowayReceived,.dependUpon)
  | s, .twoWayReceived => (none,s)
  | .exStart, .negotiationDone => (some .negotiationDone,.exchange)
  | s, .negotiationDone => (none,s)
  | .exchange, .exchangeDone => (some .exchangeDone,.dependUpon)
  | s, .exchangeDone => (none,s)
  | .exchange, .badLsReq => (none,.exStart)
  | .loading, .badLsReq => (none,.exStart)
  | .full, .badLsReq => (none,.exStart)
  | s, .badLsReq => (none,s)
  | .loading, .loadingDone => (none,.full)
  | s, .loadingDone => (none,s)
  | .down, .adjOk => (none,.down)
  | .attempt, .adjOk => (none,.attempt)
  | .initState, .adjOk => (none,.initState)
  | _, .adjOk => (some .adjOk,.dependUpon)
  | .exchange, .seqNumberMismatch => (none,.exStart)
  | .loading, .seqNumberMismatch => (none,.exStart)
  | .full, .seqNumberMismatch => (none,.exStart)
  | s, .seqNumberMismatch => (none,s)
  | .down, .oneWayReceived => (none,.down)
  | .attempt, .oneWayReceived => (none,.attempt)
  | _, .oneWayReceived => (none,.initState)
  | _, .killNbr => (some .killNbr,.deleted)
  | _, .inactivityTimer => (some .killNbr,.deleted)
  | _, .llDown => (some .killNbr,.deleted)

namespace NsmInterface

variable (oi : NsmInterface ι μ)

def neighbors : List ι := oi.nbrs.map Prod.snd

/-- What the election sees of the interface. -/
def election : OspfInterface ι :=
  ⟨oi.state,oi.nbrSelf,fun n => (oi.nbr n).toOspfNeighbor,oi.neighbors⟩

/-- The interface with the results of an election. -/
def afterElection (e : OspfInterface ι) : NsmInterface ι μ :=
  {oi with
    state := e.state
    nbr := fun n => {oi.nbr n with toOspfNeighbor := e.nbr n}}

/-- `ospf_nbr_key`. -/
def nbrKey (n : ι) : ℕ := if oi.type=.virtualLink then (oi.nbr n).routerId else (oi.nbr n).src

/-- The election state is one in which neighbours are elected. -/
def elects : Bool := oi.state=.drOther ∨ oi.state=.backup ∨ oi.state=.dr

def countFull : ℕ := oi.neighbors.countP fun n => (oi.nbr n).state=.full

variable [DecidableEq ι]

def setNbr (n : ι) (nbr : NsmNeighbor μ) : NsmInterface ι μ := {oi with nbr := update oi.nbr n nbr}

/-- `ISM_NeighborChange` is executed; `ospf_dr_change` schedules AdjOK. -/
def ismNeighborChange : NsmInterface ι μ :=
  let next := oi.afterElection (ospfIsmEvent oi.election oi.type .neighborChange)
  if oi.elects then
    {next with
      events := next.events++(ospfDrElection oi.election).adjOk.map fun n => (n,.adjOk)}
  else next

def nsmShouldAdj (n : ι) : Bool :=
  let nbr := oi.nbr n
  let self := oi.nbr oi.nbrSelf
  oi.type=.pointToPoint ∨ oi.type=.pointToMultipoint ∨ oi.type=.virtualLink ∨
    self.address=self.dRouter ∨ self.address=self.bdRouter ∨
    nbr.address=self.dRouter ∨ nbr.address=self.bdRouter

variable [DecidableEq μ]

def setNbma (m : μ) (nbma : NbrNbma ι) : NsmInterface ι μ := {oi with nbma := update oi.nbma m nbma}

/-- `OSPF_POLL_TIMER_OFF` of the configured neighbour. -/
def pollTimerOff (m : Option μ) : NsmInterface ι μ :=
  match m with
  | some m => oi.setNbma m {oi.nbma m with tPoll := false}
  | none => oi

def nsmPacketReceived (n : ι) : NsmInterface ι μ :=
  let next := oi.setNbr n {oi.nbr n with tInactivity := true}
  if oi.type=.nbma then next.pollTimerOff (oi.nbr n).nbrNbma else next

def nsmStart (n : ι) : NsmInterface ι μ :=
  (oi.pollTimerOff (oi.nbr n).nbrNbma).setNbr n {oi.nbr n with tInactivity := true}

def nsmAdjOk (n : ι) : NsmState :=
  let state := (oi.nbr n).state
  let adj := oi.nsmShouldAdj n
  if state=.twoWay ∧ adj then .exStart
  else if !below state .exStart ∧ !adj then .twoWay
  else state

/-- `nsm_exchange_done`; sending requests sets `t_ls_req`. -/
def nsmExchangeDone (n : ι) : NsmInterface ι μ × NsmState :=
  let nbr := oi.nbr n
  if ospfLsdbIsempty nbr.lsReq then (oi,.full)
  else (oi.setNbr n {nbr with tLsReq := true},.loading)

/-- `nsm_kill_nbr`. The assertion fails for the interface's own entry. -/
def nsmKillNbr (n : ι) : Option (NsmInterface ι μ) :=
  let nbr := oi.nbr n
  if n=oi.nbrSelf then none
  else
    match nbr.nbrNbma with
    | some m =>
      if oi.type=.nbma then
        some ((oi.setNbma m { nbr := none,stateChange := nbr.stateChange,tPoll := true }).setNbr n
          {nbr with nbrNbma := none})
      else some oi
    | none => some oi

/-- An action of the table, with the state it answers. -/
def nsmFunc (x : Answers κ ι) (n : ι) : NsmFunc→Option (NsmInterface ι μ × Option NsmState)
  | .packetReceived => some (oi.nsmPacketReceived n,none)
  | .start => some (oi.nsmStart n,none)
  | .twowayReceived => some (oi,some (if oi.nsmShouldAdj n then .exStart else .twoWay))
  | .negotiationDone => some (oi.setNbr n (nsmNegotiationDone x (oi.nbr n) oi.type),none)
  | .exchangeDone => some ((oi.nsmExchangeDone n).1,some (oi.nsmExchangeDone n).2)
  | .adjOk => some (oi,some (oi.nsmAdjOk n))
  | .killNbr => (oi.nsmKillNbr n).map fun oi => (oi,none)

/-- The LSA of a flood reaches the interface. -/
def flood (now : ℕ) (lsa : OspfLsa) (skips : ι→Bool) : NsmInterface ι μ :=
  let turn := fun n => floodNeighbour (oi.nbr n) now lsa (skips n)
  {oi with
    nbr := fun n => if n∈oi.neighbors then (turn n).1 else oi.nbr n
    events := oi.events++(oi.neighbors.filter fun n => (turn n).2).map fun n => (n,.loadingDone)}

/-- `ospf_nbr_delete`: the entry goes, with what is scheduled for it. -/
def ospfNbrDelete (n : ι) : NsmInterface ι μ :=
  let key := oi.nbrKey n
  let next := {oi with
    nbrs := oi.nbrs.filter fun e => e.1≠key
    nbr := update oi.nbr n (ospfNbrFree (oi.nbr n))
    events := oi.events.filter fun e => e.1≠n}
  match (oi.nbr n).nbrNbma with
  | some m => next.setNbma m {oi.nbma m with nbr := none}
  | none => next

end NsmInterface

namespace NsmArea

variable [DecidableEq κ] [DecidableEq ι] [DecidableEq μ]
variable (x : Answers κ ι) (a : NsmArea κ ι μ) (i : κ) (n : ι)

def setOi (oi : NsmInterface ι μ) : NsmArea κ ι μ := {a with oi := update a.oi i oi}

def setNbr (nbr : NsmNeighbor μ) : NsmArea κ ι μ := a.setOi i ((a.oi i).setNbr n nbr)

def flood (f : LsaFlood κ ι) : NsmArea κ ι μ :=
  {a with oi := fun i => if f.through i then (a.oi i).flood x.now f.lsa (f.skips i) else a.oi i}

/-- `full_nbrs` of the interface and of its area change. -/
def countFull (d : ℤ) : NsmArea κ ι μ :=
  { a.setOi i {a.oi i with fullNbrs := (a.oi i).fullNbrs+d} with fullNbrs := a.fullNbrs+d }

/-- A neighbour crosses the state `NSM_TwoWay`. -/
def crossesTwoWay (old state : NsmState) : Bool :=
  (below old .twoWay && !below state .twoWay) || (!below old .twoWay && below state .twoWay)

/-- The first part of `nsm_change_state`: the state, and the election. -/
def enterState (state : NsmState) : NsmArea κ ι μ :=
  let nbr := (a.oi i).nbr n
  let a := a.setNbr i n {nbr with state := state,stateChange := nbr.stateChange+1}
  if (a.oi i).elects ∧ crossesTwoWay nbr.state state then
    a.setOi i (a.oi i).ismNeighborChange
  else a

/-- The second part of `nsm_change_state`: the counters, and what is flooded. -/
def countState (old state : NsmState) : NsmArea κ ι μ :=
  let a :=
    if old ≠ .full ∧ state=.full then a.countFull i 1
    else if old=.full ∧ state ≠ .full then a.countFull i (-1)
    else a
  x.floods.foldl (flood x) a

/-- The third part of `nsm_change_state`, about the neighbour alone. -/
def settleState (old state : NsmState) (nbr : NsmNeighbor μ) : NsmNeighbor μ :=
  let nbr := if below .exStart old ∧ !below .exStart state then nsmClearAdj nbr else nbr
  let nbr := if state=.exStart then startExchange x nbr else nbr
  if state=.down then {nbr with cryptSeqnum := 0} else nbr

def nsmChangeState (state : NsmState) : NsmArea κ ι μ :=
  let old := ((a.oi i).nbr n).state
  let a := (a.enterState i n state).countState x i old state
  a.setNbr i n (settleState x old state ((a.oi i).nbr n))

/-- The end of `ospf_nsm_event`: the state, the timers, and the deletion. -/
def finishEvent (state : NsmState) : NsmArea κ ι μ :=
  let a := if state≠((a.oi i).nbr n).state then a.nsmChangeState x i n state else a
  let a := a.setNbr i n (nsmTimerSet ((a.oi i).nbr n))
  if ((a.oi i).nbr n).state=.deleted then a.setOi i ((a.oi i).ospfNbrDelete n) else a

/-- `ospf_nsm_event`. There is no answer when an assertion fails. -/
def ospfNsmEvent (event : NsmEvent) : Option (NsmArea κ ι μ) :=
  let row := nsmTable ((a.oi i).nbr n).state event
  let called := match row.1 with
    | some f => (a.oi i).nsmFunc x n f
    | none => some (a.oi i,none)
  match called with
  | none => none
  | some (oi,funcState) =>
    let next := if row.1.isSome ∧ row.2=.dependUpon then funcState.getD .dependUpon else row.2
    if next=.dependUpon then none else some ((a.setOi i oi).finishEvent x i n next)

end NsmArea

end RoutePlatform.NsmOperations
