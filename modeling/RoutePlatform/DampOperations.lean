import RoutePlatform.LinkedNodes
import RoutePlatform.OperationRuns

/-!
# Route flap dampening of `bgpd/bgp_damp.c`

The dampening information of a route is on a reuse list while the route is suppressed and on
`no_reuse_list` otherwise; the flag `DAMPED` of the route is the only record of that. How the
penalty decays and selects a reuse list are parameters. Announcements, the timer thread and the
address family are left out.
-/

namespace RoutePlatform.DampOperations

open LinkedNodes Function

/-- The configuration, with the two functions that depend on it. -/
structure DampConfig where
  suppressValue : ℕ
  reuseLimit : ℕ
  maxSuppressTime : ℤ
  ceiling : ℕ
  reuseListSize : ℕ
  decay : ℤ→ℕ→ℕ
  decay_le : ∀ tdiff penalty, decay tdiff penalty≤penalty
  /-- `bgp_reuse_index`, from the offset and the penalty. -/
  reuseIndex : ℕ→ℕ→ℕ
  reuseIndex_lt : ∀ offset penalty, reuseIndex offset penalty<reuseListSize

/-- The last message of a route. -/
inductive LastRecord where
  | none | update | withdraw
  deriving DecidableEq, Repr

/-- `struct bgp_damp_info` without its links. -/
structure DampInfo where
  penalty : ℕ
  tUpdated : ℤ
  suppressTime : ℤ
  binfo : ℕ
  rn : ℕ
  /-- The reuse list; there is none at first, when the field is `-1`. -/
  index : Option ℕ
  lastrecord : LastRecord
  deriving DecidableEq

/-- What dampening knows of a `struct bgp_info`. -/
structure Binfo where
  dampInfo : Option ℕ
  damped : Bool
  history : Bool
  removed : Bool
  deriving DecidableEq

/-- The lists: `reuse_list[i]` and `no_reuse_list`. -/
inductive DampList where
  | reuse (i : ℕ)
  | noReuse
  deriving DecidableEq

/-- The lists, the entries and the routes. -/
structure DampState where
  bdi : Memory DampInfo
  live : Finset ℕ
  binfo : ℕ→Binfo
  list : DampList→Option ℕ
  reuseOffset : ℕ

def DampState.data (s : DampState) (b : ℕ) : DampInfo := (s.bdi b).data

/-- Change the contents of an entry. -/
def DampState.modifyData (s : DampState) (b : ℕ) (f : DampInfo→DampInfo) : DampState :=
  {s with bdi := update s.bdi b {s.bdi b with data := f (s.bdi b).data}}

def DampState.modifyBinfo (s : DampState) (r : ℕ) (f : Binfo→Binfo) : DampState :=
  {s with binfo := update s.binfo r (f (s.binfo r))}

/-- `BGP_INFO_ADD`, also in `bgp_reuse_list_add`. -/
def listAdd (s : DampState) (name : DampList) (b : ℕ) : DampState :=
  {s with
    bdi := attachHead s.bdi (s.list name) b
    list := update s.list name (some b)}

/-- `BGP_INFO_DEL`, also in `bgp_reuse_list_delete`. -/
def listDel (s : DampState) (name : DampList) (b : ℕ) : DampState :=
  {s with
    bdi := unlink s.bdi b
    list := if (s.bdi b).prev=none then update s.list name (s.bdi b).next else s.list}

def bgpReuseListAdd (cfg : DampConfig) (s : DampState) (b : ℕ) : DampState :=
  let index := cfg.reuseIndex s.reuseOffset (s.data b).penalty
  listAdd (s.modifyData b fun d => {d with index := some index}) (.reuse index) b

/-- `bgp_reuse_list_delete`. Without an index the head of no list can be
written. -/
def bgpReuseListDelete (s : DampState) (b : ℕ) : Option DampState :=
  match (s.data b).index with
  | some i => some (listDel s (.reuse i) b)
  | none => if (s.bdi b).prev=none then none else some {s with bdi := unlink s.bdi b}

def bgpDampInfoFree (s : DampState) (b : ℕ) (withdraw : Bool) : Option DampState :=
  let r := (s.data b).binfo
  let s := s.modifyBinfo r fun info => {info with dampInfo := none}
  let deleted := if (s.binfo r).damped then bgpReuseListDelete s b else some (listDel s .noReuse b)
  deleted.map fun s =>
    let s := s.modifyBinfo r fun info =>
      {info with
        history := false
        damped := false
        removed := info.removed || ((s.data b).lastrecord=.withdraw && withdraw)}
    {s with live := s.live.erase b}

/-- The loop of `bgp_damp_info_clean` over one list. -/
def cleanLoop : ℕ→Option ℕ→DampState→Option DampState
  | _, none, s => some s
  | 0, some _, _ => none
  | fuel+1, some b, s =>
    let next := (s.bdi b).next
    (bgpDampInfoFree s b true).bind (cleanLoop fuel next)

/-- One list of `bgp_damp_info_clean`. -/
def cleanList (s : DampState) (name : DampList) : Option DampState :=
  (cleanLoop s.live.card (s.list name) s).map fun s => {s with list := update s.list name none}

/-- The loop of `bgp_damp_info_clean` over the reuse lists. -/
def cleanReuse : ℕ→DampState→Option DampState
  | 0, s => some s
  | n+1, s => (cleanReuse n s).bind fun s => cleanList s (.reuse n)

def bgpDampInfoClean (cfg : DampConfig) (s : DampState) : Option DampState :=
  (cleanReuse cfg.reuseListSize {s with reuseOffset := 0}).bind fun s => cleanList s .noReuse

/-- One turn of the loop of `bgp_reuse_timer`. -/
def reuseTimerTurn (cfg : DampConfig) (now : ℤ) (s : DampState) (b : ℕ) : Option DampState :=
  let s := s.modifyData b fun d =>
    {d with penalty := cfg.decay (now-d.tUpdated) d.penalty,tUpdated := now}
  if (s.data b).penalty<cfg.reuseLimit then
    let r := (s.data b).binfo
    let s := s.modifyBinfo r fun info => {info with damped := false}
    let s := s.modifyData b fun d => {d with suppressTime := 0}
    let s :=
      if (s.data b).lastrecord=.update then
        s.modifyBinfo r fun info => {info with history := false}
      else s
    if 2*(s.data b).penalty≤cfg.reuseLimit then bgpDampInfoFree s b true
    else some (listAdd s .noReuse b)
  else some (bgpReuseListAdd cfg s b)

/-- The loop of `bgp_reuse_timer`. -/
def reuseTimerLoop (cfg : DampConfig) (now : ℤ) : ℕ→Option ℕ→DampState→Option DampState
  | _, none, s => some s
  | 0, some _, _ => none
  | fuel+1, some b, s =>
    let next := (s.bdi b).next
    (reuseTimerTurn cfg now s b).bind (reuseTimerLoop cfg now fuel next)

def bgpReuseTimer (cfg : DampConfig) (now : ℤ) (s : DampState) : Option DampState :=
  let head := s.list (.reuse s.reuseOffset)
  reuseTimerLoop cfg now s.live.card head {s with
      list := update s.list (.reuse s.reuseOffset) none
      reuseOffset := (s.reuseOffset+1)%cfg.reuseListSize}

/-- `BGP_DAMP_USED` and `BGP_DAMP_SUPPRESSED`. -/
inductive DampStatus where
  | used | suppressed
  deriving DecidableEq, Repr

def defaultPenalty : ℕ := 1000

def withdrawPenalty (attrChange : Bool) : ℕ :=
  if attrChange then defaultPenalty/2 else defaultPenalty

/-- The entry `bgp_damp_withdraw` allocates at this address. -/
def newDampInfo (s : DampState) (binfo rn : ℕ) (attrChange : Bool) (b : ℕ) : DampState :=
  let data : DampInfo :=
    { penalty := withdrawPenalty attrChange
      tUpdated := 0
      suppressTime := 0
      binfo
      rn
      index := none
      lastrecord := .none }
  let s := {s with
    bdi := update s.bdi b ⟨none,none,data⟩
    live := insert b s.live}
  let s := s.modifyBinfo binfo fun info => {info with dampInfo := some b}
  listAdd s .noReuse b

/-- The part of `bgp_damp_withdraw` that moves the entry. -/
def withdrawMove (cfg : DampConfig) (s : DampState) (b lastPenalty : ℕ) (now : ℤ) :
    Option (DampState × DampStatus) :=
  let r := (s.data b).binfo
  if (s.binfo r).damped then
    if (s.data b).penalty≠lastPenalty then
      (bgpReuseListDelete s b).map fun s => (bgpReuseListAdd cfg s b,.suppressed)
    else some (s,.suppressed)
  else if cfg.suppressValue≤(s.data b).penalty then
    let s := s.modifyBinfo r fun info => {info with damped := true}
    let s := s.modifyData b fun d => {d with suppressTime := now}
    some (bgpReuseListAdd cfg (listDel s .noReuse b) b,.used)
  else some (s,.used)

/-- The part of `bgp_damp_withdraw` behind the penalty. -/
def withdrawRecord (cfg : DampConfig) (s : DampState) (binfo rn b lastPenalty : ℕ) (now : ℤ) :
    Option (DampState × DampStatus) :=
  if rn=(s.data b).rn ∧ binfo=(s.data b).binfo then
    let s := s.modifyData b fun d => {d with lastrecord := .withdraw,tUpdated := now}
    let s := s.modifyBinfo binfo fun info => {info with history := true}
    withdrawMove cfg s b lastPenalty now
  else none

/-- `bgp_damp_withdraw`. The allocator would hand out `fresh`. -/
def bgpDampWithdraw (cfg : DampConfig) (s : DampState) (binfo rn : ℕ) (attrChange : Bool) (now : ℤ)
    (fresh : ℕ) : Option (DampState × DampStatus) :=
  match (s.binfo binfo).dampInfo with
  | none => withdrawRecord cfg (newDampInfo s binfo rn attrChange fresh) binfo rn fresh 0 now
  | some b =>
    let lastPenalty := (s.data b).penalty
    let s := s.modifyData b fun d =>
      {d with
        penalty :=
          min (cfg.decay (now-d.tUpdated) d.penalty+withdrawPenalty attrChange) cfg.ceiling}
    withdrawRecord cfg s binfo rn b lastPenalty now

/-- The part of `bgp_damp_update` that releases the entry. -/
def updateRelease (cfg : DampConfig) (s : DampState) (b : ℕ) (now : ℤ) (status : DampStatus) :
    Option (DampState × DampStatus) :=
  if 2*(s.data b).penalty > cfg.reuseLimit then
    some (s.modifyData b fun d => {d with tUpdated := now},status)
  else (bgpDampInfoFree s b false).map fun s => (s,status)

/-- The part of `bgp_damp_update` for a route with an entry. -/
def updateEntry (cfg : DampConfig) (s : DampState) (binfo b : ℕ) (now : ℤ) :
    Option (DampState × DampStatus) :=
  let s := s.modifyBinfo binfo fun info => {info with history := false}
  let s := s.modifyData b fun d =>
    {d with
      lastrecord := .update
      penalty := cfg.decay (now-d.tUpdated) d.penalty}
  let r := (s.data b).binfo
  if (s.binfo r).damped=false ∧ (s.data b).penalty<cfg.suppressValue then
    updateRelease cfg s b now .used
  else if (s.binfo r).damped=true ∧ (s.data b).penalty<cfg.reuseLimit then
    let s := s.modifyBinfo binfo fun info => {info with damped := false}
    (bgpReuseListDelete s b).bind fun s =>
      let s := (listAdd s .noReuse b).modifyData b fun d => {d with suppressTime := 0}
      updateRelease cfg s b now .used
  else updateRelease cfg s b now .suppressed

def bgpDampUpdate (cfg : DampConfig) (s : DampState) (binfo : ℕ) (now : ℤ) :
    Option (DampState × DampStatus) :=
  match (s.binfo binfo).dampInfo with
  | none => some (s,.used)
  | some b => updateEntry cfg s binfo b now

/-- The part of `bgp_damp_scan` behind its assertion. -/
def scanEntry (cfg : DampConfig) (s : DampState) (binfo b : ℕ) (now : ℤ) :
    Option (DampState × Bool) :=
  if (s.binfo binfo).damped then
    if now-(s.data b).suppressTime ≥ cfg.maxSuppressTime then
      let s := s.modifyBinfo binfo fun info => {info with damped := false}
      (bgpReuseListDelete s b).map fun s =>
        let s := (listAdd s .noReuse b).modifyData b fun d =>
          {d with penalty := cfg.reuseLimit,suppressTime := 0,tUpdated := now}
        (s,(s.data b).lastrecord=.update)
    else some (s,false)
  else
    let s := s.modifyData b fun d => {d with penalty := cfg.decay (now-d.tUpdated) d.penalty}
    if 2*(s.data b).penalty≤cfg.reuseLimit then
      (bgpDampInfoFree s b true).map fun s => (s,false)
    else some (s.modifyData b fun d => {d with tUpdated := now},false)

def bgpDampScan (cfg : DampConfig) (s : DampState) (binfo : ℕ) (now : ℤ) :
    Option (DampState × Bool) :=
  (s.binfo binfo).dampInfo.bind fun b => scanEntry cfg s binfo b now

inductive DampOp where
  | withdraw (binfo rn : ℕ) (attrChange : Bool) (now : ℤ) (fresh : ℕ)
  | update (binfo : ℕ) (now : ℤ)
  | scan (binfo : ℕ) (now : ℤ)
  | reuseTimer (now : ℤ)
  | infoFree (b : Option ℕ) (withdraw : Bool)
  | infoClean

def dampStep (cfg : DampConfig) (s : DampState) : DampOp→Option DampState
  | .withdraw binfo rn attrChange now fresh =>
    (bgpDampWithdraw cfg s binfo rn attrChange now fresh).map Prod.fst
  | .update binfo now => (bgpDampUpdate cfg s binfo now).map Prod.fst
  | .scan binfo now => (bgpDampScan cfg s binfo now).map Prod.fst
  | .reuseTimer now => bgpReuseTimer cfg now s
  | .infoFree none _ => some s
  | .infoFree (some b) withdraw => bgpDampInfoFree s b withdraw
  | .infoClean => bgpDampInfoClean cfg s

/-- What callers respect of memory, nodes and entries. -/
def DampLegal (s : DampState) : DampOp→Prop
  | .withdraw binfo rn _ _ fresh => fresh ∉ s.live ∧ ∀ b∈(s.binfo binfo).dampInfo, (s.data b).rn=rn
  | .scan binfo _ => (s.binfo binfo).dampInfo≠none
  | .infoFree (some b) _ => b∈s.live
  | _ => True

instance decidableDampLegal (s : DampState) : ∀ op, Decidable (DampLegal s op)
  | .withdraw binfo rn _ _ fresh => inferInstanceAs (Decidable
      (fresh ∉ s.live ∧ ∀ b∈(s.binfo binfo).dampInfo, (s.data b).rn=rn))
  | .update _ _ => .isTrue trivial
  | .scan binfo _ => inferInstanceAs (Decidable ((s.binfo binfo).dampInfo≠none))
  | .reuseTimer _ => .isTrue trivial
  | .infoFree none _ => .isTrue trivial
  | .infoFree (some b) _ => inferInstanceAs (Decidable (b∈s.live))
  | .infoClean => .isTrue trivial

def initialState : DampState where
  bdi _ := ⟨none,none,⟨0,0,0,0,0,none,.none⟩⟩
  live := ∅
  binfo _ := ⟨none,false,false,false⟩
  list _ := none
  reuseOffset := 0

end RoutePlatform.DampOperations
