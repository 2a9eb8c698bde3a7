import RoutePlatform.SlotSearch

/-!
# Babel: the route table and the sources

A slot for each prefix has the list of its routes; every route points to the source that announced
it, and a source counts the routes that point to it. What the kernel, the filters, the neighbours
and the waiting buffers answer is an environment, which may answer every call in its own way.
-/

namespace RoutePlatform.BabelRoutes

open SlotSearch

def infinity : ℕ := 0xFFFF

def kernelInfinity : ℕ := 0xFFFF

def sourceGcTime : ℤ := 200

def diversityHops : ℕ := 8

def seqnoCompare (s1 s2 : BitVec 16) : ℤ :=
  if s1=s2 then 0 else if (s2-s1) &&& 0x8000≠0 then 1 else -1

def seqnoMinus (s1 s2 : BitVec 16) : ℤ := (s1-s2).toInt

def seqnoPlus (s : BitVec 16) (plus : ℕ) : BitVec 16 := s+BitVec.ofNat 16 plus

/-- `v4mapped`: the first twelve bytes of the address are those of `v4prefix`. -/
def v4mapped (address : BitVec 128) : Bool := address >>> 32=0xFFFF

/-- The byte of an address at an index. -/
def byteAt (address : BitVec 128) (i : ℕ) : BitVec 8 := (address >>> (8*(15-i))).setWidth 8

def martianPrefix (pfx : BitVec 128) (plen : ℕ) : Bool :=
  (8≤plen && byteAt pfx 0=0xFF) ||
  (10≤plen && byteAt pfx 0=0xFE && byteAt pfx 1 &&& 0xC0=0x80) ||
  (128≤plen && pfx >>> 8=0 && (byteAt pfx 15=0 || byteAt pfx 15=1)) ||
  (96≤plen && v4mapped pfx && ((104≤plen && (byteAt pfx 12=127 || byteAt pfx 12=0)) ||
      (100≤plen && byteAt pfx 12 &&& 0xE0=0xE0)))

structure Source where
  /-- `id`, the router that announces the prefix. -/
  id : BitVec 64
  /-- `prefix`, the first byte most significant. -/
  pfx : BitVec 128
  plen : ℕ
  /-- `seqno`, recorded with the metric when an update is sent. -/
  seqno : BitVec 16
  metric : BitVec 16
  routeCount : ℕ
  time : ℤ
deriving DecidableEq, Inhabited

/-- `struct babel_route`; the list that holds it stands for `next`. -/
structure Route where
  /-- `src`, the address of a source. -/
  src : ℕ
  refmetric : BitVec 16
  cost : BitVec 16
  addMetric : BitVec 16
  seqno : BitVec 16
  /-- `neigh`, the address of a neighbour. -/
  neigh : ℕ
  nexthop : BitVec 128
  time : ℤ
  holdTime : ℕ
  installed : Bool
  /-- `channels`, at most eight of them. -/
  channels : List ℕ
deriving DecidableEq, Inhabited

def routeMetric (r : Route) : ℕ := min (r.refmetric.toNat+r.cost.toNat+r.addMetric.toNat) infinity

/-- What a route is to the kernel: prefix, length, next hop, interface and
kernel metric. -/
structure KernelEntry where
  pfx : BitVec 128
  plen : ℕ
  gate : BitVec 128
  ifindex : ℕ
  metric : ℕ
deriving DecidableEq

/-- A call of `kernel_route`. -/
inductive KernelCall where
  | add (e : KernelEntry)
  | flush (e : KernelEntry)
  | modify (old new : KernelEntry)
deriving DecidableEq

/-- The answer of `kernel_route`. -/
inductive KernelAnswer where
  | accepted
  /-- The call fails with `EEXIST`. -/
  | exists
  | refused
deriving DecidableEq

/-- A call of the functions that send messages about prefixes. -/
inductive SendCall where
  /-- `send_update` on all interfaces. -/
  | update (urgent : ℕ) (pfx : BitVec 128) (plen : ℕ)
  | updateResend (pfx : BitVec 128) (plen : ℕ)
  | request (pfx : BitVec 128) (plen : ℕ)
  | requestResend (pfx : BitVec 128) (plen : ℕ) (seqno : BitVec 16) (id : BitVec 64)
  | unicastRequest (neigh : ℕ) (pfx : BitVec 128) (plen : ℕ)
  | multihopRequest (neigh : ℕ) (pfx : BitVec 128) (plen : ℕ) (seqno : BitVec 16)
      (id : BitVec 64) (hops : ℕ)
deriving DecidableEq

inductive Event where
  | kernel (call : KernelCall)
  /-- The table of slots was resized, or could not be. -/
  | resize (slots : ℕ) (done : Bool)
  | send (call : SendCall)
  /-- `really_send_update` was called on an interface. -/
  | sent (ifp : ℕ) (id : BitVec 64) (pfx : BitVec 128) (plen : ℕ) (seqno : BitVec 16) (metric : ℕ)
  /-- A route was installed, with what its update said and its source had recorded. -/
  | made (route : ℕ) (seqno refmetric recordedSeqno recordedMetric : BitVec 16)
  /-- `update_source` was called: the pair sent, and the recorded pair before and after. -/
  | recorded (src : ℕ) (sentSeqno sentMetric oldSeqno oldMetric newSeqno newMetric : BitVec 16)
deriving DecidableEq

/-- The kinds of `diversity_kind`. -/
inductive Diversity where
  | none
  | interface1
  | channel1
  | channel
deriving DecidableEq

/-- What lies outside the route table; answers may depend on what happened before. -/
structure Env where
  myid : BitVec 64
  myseqno : BitVec 16
  kernelMetric : ℕ
  allowDuplicates : ℤ
  keepUnfeasible : Bool
  diversityKind : Diversity
  diversityFactor : ℕ
  neighbourCost : ℕ→ℕ
  neighIfp : ℕ→ℕ
  /-- `input_filter` for what a neighbour announces. -/
  inputFilter : BitVec 64→BitVec 128→ℕ→ℕ→ℕ
  /-- The metric of the redistributed route that `find_xroute` finds. -/
  findXroute : BitVec 128→ℕ→Option ℕ
  kernel : List Event→KernelCall→KernelAnswer
  /-- Whether `realloc` finds room for a number of slots. -/
  realloc : List Event→ℕ→Bool
  unsatisfiedRequest : List Event→BitVec 128→ℕ→BitVec 16→BitVec 64→Bool
  ifUp : ℕ→Bool
  splitHorizon : ℕ→Bool
  channel : ℕ→ℤ
  /-- The waiting updates that a call flushes, with prefixes in the order of
  `compare_buffered_updates`. -/
  flushes : List Event→SendCall→List (ℕ × List (BitVec 128 × ℕ))

/-- The route table, the sources and the clock. -/
structure World where
  route : ℕ→Route
  source : ℕ→Source
  /-- `routes`, `route_slots` of them. -/
  slots : List (List ℕ)
  maxRouteSlots : ℕ
  srcs : List ℕ
  now : ℤ
  /-- An assertion failed: what the functions still compute means nothing. -/
  aborted : Bool
  log : List Event

namespace World

variable (w : World)

/-- `assert`. -/
def expect (c : Prop) [Decidable c] : World := if c then w else {w with aborted := true}

def record (e : Event) : World := {w with log := w.log++[e]}

def modifyRoute (p : ℕ) (f : Route→Route) : World :=
  {w with route := Function.update w.route p (f (w.route p))}

def modifySource (s : ℕ) (f : Source→Source) : World :=
  {w with source := Function.update w.source s (f (w.source s))}

def sourceOf (p : ℕ) : Source := w.source (w.route p).src

/-- Prefix and length of a route, in the order of `route_compare`. -/
def key (p : ℕ) : ℕ ×ₗ ℕ := toLex ((w.sourceOf p).pfx.toNat,(w.sourceOf p).plen)

def slot (i : ℕ) : List ℕ := w.slots.getD i []

end World

/-- `route_compare` for a prefix and a length. -/
def routeCompare (pfx : BitVec 128) (plen : ℕ) (w : World) (p : ℕ) : Ordering :=
  (compare pfx.toNat (w.sourceOf p).pfx.toNat).then (compare plen (w.sourceOf p).plen)

def findRouteSlot (w : World) (pfx : BitVec 128) (plen : ℕ) : SearchResult :=
  search (fun i => routeCompare pfx plen w ((w.slot i).headD 0)) w.slots.length

def findRoute (w : World) (pfx : BitVec 128) (plen : ℕ) (neigh : ℕ) (nexthop : BitVec 128) :
    Option ℕ :=
  match findRouteSlot w pfx plen with
  | .absent _ => none
  | .found i => (w.slot i).find? fun p => (w.route p).neigh=neigh && (w.route p).nexthop=nexthop

def findInstalledRoute (w : World) (pfx : BitVec 128) (plen : ℕ) : Option ℕ :=
  match findRouteSlot w pfx plen with
  | .absent _ => none
  | .found i =>
    let p := (w.slot i).headD 0
    if (w.route p).installed then some p else none

/-- `update_feasible` with a source. -/
def updateFeasible (w : World) (src : ℕ) (seqno refmetric : BitVec 16) : Bool :=
  let s := w.source src
  if s.time<w.now-sourceGcTime then true
  else if refmetric.toNat ≥ infinity then true
  else 0<seqnoCompare seqno s.seqno || (s.seqno=seqno && refmetric<s.metric)

def routeFeasible (w : World) (p : ℕ) : Bool :=
  updateFeasible w (w.route p).src (w.route p).seqno (w.route p).refmetric

def routeOld (w : World) (p : ℕ) : Bool :=
  (w.route p).time<w.now-(((w.route p).holdTime*7/8 : ℕ) : ℤ)

def routeExpired (w : World) (p : ℕ) : Bool := (w.route p).time<w.now-((w.route p).holdTime : ℤ)

/-- The candidates that the loop of `find_best_route` takes into account. -/
def candidate (w : World) (feasible : Bool) (exclude : Option ℕ) (p : ℕ) : Bool :=
  !routeExpired w p && (!feasible || routeFeasible w p) && (match exclude with
      | none => true
      | some n => (w.route p).neigh≠n)

/-- The loop of `find_best_route` over the rest of the list. -/
def bestLoop (w : World) (feasible : Bool) (exclude : Option ℕ) : ℕ→List ℕ→ℕ
  | best, [] => best
  | best, p::rest =>
    if candidate w feasible exclude p && routeMetric (w.route p)<routeMetric (w.route best)
    then bestLoop w feasible exclude p rest
    else bestLoop w feasible exclude best rest

def findBestRoute (w : World) (pfx : BitVec 128) (plen : ℕ) (feasible : Bool)
    (exclude : Option ℕ) : Option ℕ :=
  match findRouteSlot w pfx plen with
  | .absent _ => none
  | .found i => some (bestLoop w feasible exclude ((w.slot i).headD 0) (w.slot i).tail)

def metricToKernel (env : Env) (metric : ℕ) : ℕ :=
  if metric < infinity then env.kernelMetric else kernelInfinity

def routeMetricNoninterfering (env : Env) (r : Route) : ℕ :=
  let m := r.refmetric.toNat+(env.diversityFactor*r.cost.toNat+128)/256+r.addMetric.toNat
  min (max m (r.refmetric.toNat+1)) infinity

/-- `channels_interfere`; -2 is noninterfering and 255 interfering. -/
def channelsInterfere (ch1 ch2 : ℤ) : Bool := if ch1 = -2 || ch2 = -2 then false
  else if ch1=255 || ch2=255 then true
  else ch1=ch2

def routeInterferes (env : Env) (r : Route) (ifp : ℕ) : Bool :=
  match env.diversityKind with
  | .none => true
  | .interface1 => env.neighIfp r.neigh=ifp
  | .channel1 => env.neighIfp r.neigh=ifp ||
      channelsInterfere (env.channel ifp) (env.channel (env.neighIfp r.neigh))
  | .channel => env.neighIfp r.neigh=ifp ||
      channelsInterfere (env.channel ifp) (env.channel (env.neighIfp r.neigh)) ||
      (r.channels.takeWhile (· ≠ 0)).any fun c => channelsInterfere (env.channel ifp) c

def updateSource (src : ℕ) (seqno metric : BitVec 16) (w : World) : World :=
  if metric.toNat ≥ infinity then w
  else
    let s := w.source src
    let w :=
      if s.time<w.now-sourceGcTime ∨ seqnoCompare s.seqno seqno<0 ∨
          (s.seqno=seqno ∧ metric<s.metric) then
        w.modifySource src fun s => {s with seqno := seqno,metric := metric}
      else w
    w.modifySource src fun s => {s with time := w.now}

/-- The update for an installed route leaves on an interface, and its source
records the pair. -/
def sendRouteUpdate (ifp p : ℕ) (metric : BitVec 16) (w : World) : World :=
  let r := w.route p
  let s := w.source r.src
  let w := w.record (.sent ifp s.id s.pfx s.plen r.seqno metric.toNat)
  let w := updateSource r.src r.seqno metric w
  let s' := w.source r.src
  w.record (.recorded r.src r.seqno metric s.seqno s.metric s'.seqno s'.metric)

/-- The metric that `flushupdates` announces of a redistributed route. -/
def ownMetric (env : Env) (xroute route : Option ℕ) : Option ℕ :=
  match xroute, route with
  | none, _ => none
  | some m, none => some m
  | some m, some _ => if m≤env.kernelMetric then some m else none

/-- The metric that `flushupdates` announces for an installed route. -/
def announcedMetric (env : Env) (ifp : ℕ) (r : Route) : BitVec 16 := BitVec.ofNat 16
    (if routeInterferes env r ifp then routeMetric r else routeMetricNoninterfering env r)

/-- The loop of `flushupdates` over the sorted buffer; `last` is the prefix that was
sent last. -/
def flushLoop (env : Env) (ifp : ℕ) : Option (BitVec 128 × ℕ)→List (BitVec 128 × ℕ)→World→World
  | _, [], w => w
  | last, b::rest, w =>
    if last=some b then flushLoop env ifp last rest w
    else
      let route := findInstalledRoute w b.1 b.2
      match ownMetric env (env.findXroute b.1 b.2) route, route with
      | some m, _ =>
        flushLoop env ifp (some b) rest (w.record (.sent ifp env.myid b.1 b.2 env.myseqno m))
      | none, some p =>
        if env.splitHorizon ifp && env.neighIfp (w.route p).neigh=ifp then
          flushLoop env ifp last rest w
        else flushLoop env ifp (some b) rest
            (sendRouteUpdate ifp p (announcedMetric env ifp (w.route p)) w)
      | none, none =>
        flushLoop env ifp last rest (w.record (.sent ifp env.myid b.1 b.2 env.myseqno infinity))

/-- `flushupdates` for an interface with a buffer that holds updates. -/
def flushUpdates (env : Env) (ifp : ℕ) (buffer : List (BitVec 128 × ℕ)) (w : World) : World :=
  if env.ifUp ifp then flushLoop env ifp none buffer w else w

/-- The interfaces whose buffers are flushed, one after the other. -/
def flushAll (env : Env) : List (ℕ × List (BitVec 128 × ℕ))→World→World
  | [], w => w
  | (ifp,buffer)::rest, w => flushAll env rest (flushUpdates env ifp buffer w)

/-- A call of a function that sends messages about prefixes. -/
def send (env : Env) (call : SendCall) (w : World) : World :=
  flushAll env (env.flushes w.log call) (w.record (.send call))

/-- The seqno that a request for a source asks for. -/
def requestedSeqno (s : Source) : BitVec 16 :=
  if s.metric.toNat ≥ infinity then s.seqno else seqnoPlus s.seqno 1

def sendUnfeasibleRequest (env : Env) (neigh : ℕ) (force : Bool) (seqno : BitVec 16)
    (metric src : ℕ) (w : World) : World :=
  let s := w.source src
  let route := findInstalledRoute w s.pfx s.plen
  if 100<seqnoMinus s.seqno seqno then w
  else if force || (match route with
      | none => true
      | some p => routeMetric (w.route p) ≥ metric+512) then
    send env (.multihopRequest neigh s.pfx s.plen (requestedSeqno s) s.id 127) w
  else w

/-- How urgent `send_triggered_update` finds an update; `none` where it sends
nothing. -/
def triggeredUrgency (env : Env) (p oldsrc oldmetric : ℕ) (w : World) : Option ℕ :=
  let r := w.route p
  let s := w.sourceOf p
  let newmetric := routeMetric r
  let diff := if newmetric ≥ oldmetric then newmetric-oldmetric else oldmetric-newmetric
  if r.src≠oldsrc ∨ (oldmetric < infinity ∧ newmetric ≥ infinity) then some 2
  else if newmetric > oldmetric ∧ oldmetric<6*256 ∧ diff ≥ 512 then some 1
  else if env.unsatisfiedRequest w.log s.pfx s.plen r.seqno s.id then some 1
  else if oldmetric ≥ infinity ∧ newmetric < infinity then some 0
  else if newmetric<oldmetric ∧ diff<1024 then none
  else if diff<384 then none
  else some 0

/-- The requests that `send_triggered_update` adds for a route that got worse. -/
def triggeredRequest (env : Env) (p oldmetric newmetric : ℕ) (w : World) : World :=
  let s := w.sourceOf p
  if oldmetric < infinity then
    if newmetric ≥ oldmetric+512 then
      send env (.requestResend s.pfx s.plen (requestedSeqno s) s.id) w
    else if newmetric ≥ oldmetric+288 then send env (.request s.pfx s.plen) w
    else w
  else w

def sendTriggeredUpdate (env : Env) (p oldsrc oldmetric : ℕ) (w : World) : World :=
  if !(w.route p).installed then w
  else
    let newmetric := routeMetric (w.route p)
    let s := w.sourceOf p
    match triggeredUrgency env p oldsrc oldmetric w with
    | none => w
    | some urgent =>
      let call := if urgent ≥ 2 then .updateResend s.pfx s.plen else .update urgent s.pfx s.plen
      triggeredRequest env p oldmetric newmetric (send env call w)

/-- The route as `kernel_route` gets it, with a kernel metric. -/
def kernelEntry (env : Env) (w : World) (p metric : ℕ) : KernelEntry :=
  ⟨(w.sourceOf p).pfx,(w.sourceOf p).plen,(w.route p).nexthop,
    env.neighIfp (w.route p).neigh,metric⟩

/-- `move_installed_route`: the route comes to the head of its slot. -/
def moveInstalledRoute (p i : ℕ) (w : World) : World := if (w.slot i).head? = some p then w
  else {w with slots := w.slots.modify i fun l => p::l.erase p}

/-- The route is the installed one from now on. -/
def makeInstalled (p : ℕ) (w : World) : World :=
  let r := w.route p
  let s := w.source r.src
  (w.modifyRoute p fun r => {r with installed := true}).record
    (.made p r.seqno r.refmetric s.seqno s.metric)

def installRoute (env : Env) (p : ℕ) (w : World) : World := if (w.route p).installed then w
  else
    match findRouteSlot w (w.sourceOf p).pfx (w.sourceOf p).plen with
    | .absent _ => w.expect False
    | .found i =>
      if (w.slot i).head? ≠ some p ∧ (w.route ((w.slot i).headD 0)).installed then w
      else
        let call := .add (kernelEntry env w p (metricToKernel env (routeMetric (w.route p))))
        let answer := env.kernel w.log call
        let w := w.record (.kernel call)
        if answer=.refused then w
        else moveInstalledRoute p i (makeInstalled p w)

def uninstallRoute (env : Env) (p : ℕ) (w : World) : World := if !(w.route p).installed then w
  else
    let call := .flush (kernelEntry env w p (metricToKernel env (routeMetric (w.route p))))
    (w.record (.kernel call)).modifyRoute p fun r => {r with installed := false}

def switchRoutes (env : Env) (old : Option ℕ) (new : ℕ) (w : World) : World :=
  match old with
  | none => installRoute env new w
  | some old =>
    if !(w.route old).installed then w
    else
      let call := .modify (kernelEntry env w old (metricToKernel env (routeMetric (w.route old))))
        {kernelEntry env w new (metricToKernel env (routeMetric (w.route new))) with
          pfx := (w.sourceOf old).pfx,plen := (w.sourceOf old).plen}
      let answer := env.kernel w.log call
      let w := w.record (.kernel call)
      if answer ≠ .accepted then w
      else
        let w := w.modifyRoute old fun r => {r with installed := false}
        let w := makeInstalled new w
        match findRouteSlot w (w.sourceOf new).pfx (w.sourceOf new).plen with
        | .absent _ => w.expect False
        | .found i => moveInstalledRoute new i w

def changeRouteMetric (env : Env) (p refmetric cost add : ℕ) (w : World) : World :=
  let newmetric := min (refmetric+cost+add) infinity
  let old := metricToKernel env (routeMetric (w.route p))
  let new := metricToKernel env newmetric
  let assign := fun w : World => w.modifyRoute p fun r =>
    {r with refmetric := BitVec.ofNat 16 refmetric,cost := BitVec.ofNat 16 cost,
            addMetric := BitVec.ofNat 16 add}
  if (w.route p).installed ∧ old≠new then
    let call := .modify (kernelEntry env w p old) (kernelEntry env w p new)
    let answer := env.kernel w.log call
    let w := w.record (.kernel call)
    if answer ≠ .accepted then w else assign w
  else assign w

def retractRoute (env : Env) (p : ℕ) (w : World) : World :=
  changeRouteMetric env p infinity infinity 0 w

/-- The end of `consider_route`, from the label `install` on. -/
def considerInstall (env : Env) (installed : Option ℕ) (p : ℕ) (w : World) : World :=
  let w := switchRoutes env installed p w
  match installed with
  | some q =>
    if (w.route p).installed then
      sendTriggeredUpdate env p (w.route q).src (routeMetric (w.route q)) w
    else send env (.update 1 (w.sourceOf p).pfx (w.sourceOf p).plen) w
  | none => send env (.update 1 (w.sourceOf p).pfx (w.sourceOf p).plen) w

/-- `consider_route` asks the redistributed routes whether it may install. -/
def xrouteBlocks (env : Env) (pfx : BitVec 128) (plen : ℕ) : Bool :=
  match env.findXroute pfx plen with
  | none => false
  | some m => env.allowDuplicates<0 || (m : ℤ) ≥ env.allowDuplicates

def considerRoute (env : Env) (p : ℕ) (w : World) : World := if (w.route p).installed then w
  else if !routeFeasible w p then w
  else if xrouteBlocks env (w.sourceOf p).pfx (w.sourceOf p).plen then w
  else
    match findInstalledRoute w (w.sourceOf p).pfx (w.sourceOf p).plen with
    | none => considerInstall env none p w
    | some q =>
      if routeMetric (w.route p) ≥ infinity then w
      else if routeMetric (w.route q) ≥ infinity then considerInstall env (some q) p w
      else if routeMetric (w.route q) ≥ routeMetric (w.route p)+64 then
        considerInstall env (some q) p w
      else w

/-- What `route_changed` does first when an installed route got worse. -/
def considerBetter (env : Env) (p : ℕ) (w : World) : World :=
  match findBestRoute w (w.sourceOf p).pfx (w.sourceOf p).plen true none with
  | none => w
  | some q =>
    if (routeMetric (w.route q) : ℤ)≤routeMetric (w.route p)-96 then considerRoute env q w
    else w

def routeChanged (env : Env) (p oldsrc oldmetric : ℕ) (w : World) : World :=
  if (w.route p).installed then
    let w := if routeMetric (w.route p) > oldmetric then considerBetter env p w else w
    if (w.route p).installed then sendTriggeredUpdate env p oldsrc oldmetric w else w
  else considerRoute env p w

def routeLost (env : Env) (src oldmetric : ℕ) (w : World) : World :=
  let s := w.source src
  match findBestRoute w s.pfx s.plen true none with
  | some p => considerRoute env p w
  | none =>
    if oldmetric < infinity then
      let w := send env (.updateResend s.pfx s.plen) w
      send env (.requestResend s.pfx s.plen (requestedSeqno (w.source src)) s.id) w
    else w

def retainSource (src : ℕ) (w : World) : World :=
  (w.expect ((w.source src).routeCount<0xFFFF)).modifySource src fun s =>
    {s with routeCount := s.routeCount+1}

def releaseSource (src : ℕ) (w : World) : World :=
  (w.expect (0<(w.source src).routeCount)).modifySource src fun s =>
    {s with routeCount := s.routeCount-1}

/-- The source with an id for a prefix, if there is one. -/
def lookupSource (w : World) (id : BitVec 64) (pfx : BitVec 128) (plen : ℕ) : Option ℕ :=
  w.srcs.find? fun s => (w.source s).id=id && (w.source s).plen=plen && (w.source s).pfx=pfx

/-- `find_source` with `create`; `malloc` answers the address of a new source. -/
def findSource (malloc : Option ℕ) (id : BitVec 64) (pfx : BitVec 128) (plen : ℕ)
    (seqno : BitVec 16) (w : World) : World × Option ℕ :=
  match lookupSource w id pfx plen with
  | some s => (w,some s)
  | none =>
    match malloc with
    | none => (w,none)
    | some s =>
      let made : Source := ⟨id,pfx,plen,seqno,BitVec.ofNat 16 infinity,0,w.now⟩
      ({ w.modifySource s fun _ => made with srcs := s::w.srcs },some s)

def resizeRouteTable (env : Env) (newSlots : ℕ) (w : World) : World :=
  let w := w.expect (newSlots ≥ w.slots.length)
  let done := newSlots=0 || env.realloc w.log newSlots
  let w := w.record (.resize newSlots done)
  if done then {w with maxRouteSlots := newSlots} else w

/-- Room for one more slot, where the table is full. -/
def growRouteTable (env : Env) (w : World) : World :=
  if w.slots.length ≥ w.maxRouteSlots then
    resizeRouteTable env (if w.maxRouteSlots<1 then 8 else 2*w.maxRouteSlots) w
  else w

/-- `insert_route`; the flag tells whether the route is in the table. -/
def insertRoute (env : Env) (p : ℕ) (w : World) : World × Bool :=
  let w := w.expect (!(w.route p).installed)
  match findRouteSlot w (w.sourceOf p).pfx (w.sourceOf p).plen with
  | .absent n =>
    let w := growRouteTable env w
    if w.slots.length ≥ w.maxRouteSlots then (w,false)
    else ({w with slots := w.slots.insertIdx n [p]},true)
  | .found i => ({w with slots := w.slots.modify i fun l => l++[p]},true)

/-- `flush_route` makes the table smaller after the head of a slot has gone. -/
def shrinkRouteTable (env : Env) (w : World) : World :=
  if w.slots.length=0 then resizeRouteTable env 0 w
  else if w.maxRouteSlots > 8 ∧ w.slots.length<w.maxRouteSlots/4 then
    resizeRouteTable env (w.maxRouteSlots/2) w
  else w

/-- `flush_route` takes the route off the slot at an index. -/
def unlinkRoute (env : Env) (p i : ℕ) (w : World) : World :=
  if (w.slot i).head? = some p then
    let rest := (w.slot i).tail
    let slots := if rest=[] then w.slots.eraseIdx i else w.slots.set i rest
    shrinkRouteTable env {w with slots := slots}
  else {w with slots := w.slots.modify i fun l => l.erase p}

def flushRoute (env : Env) (p : ℕ) (w : World) : World :=
  let src := (w.route p).src
  let oldmetric := routeMetric (w.route p)
  let lost := (w.route p).installed
  let w := uninstallRoute env p w
  match findRouteSlot w (w.sourceOf p).pfx (w.sourceOf p).plen with
  | .absent _ => w.expect False
  | .found i =>
    let w := unlinkRoute env p i w
    let w := if lost then routeLost env src oldmetric w else w
    releaseSource src w

/-- What `update_route` is called with. -/
structure Update where
  routerId : BitVec 64
  pfx : BitVec 128
  plen : ℕ
  seqno : BitVec 16
  refmetric : BitVec 16
  interval : BitVec 16
  neigh : ℕ
  nexthop : BitVec 128
  /-- The first `channels_len` of `channels`. -/
  channels : List ℕ

/-- `hold_time` in `update_route`. -/
def Update.holdTime (u : Update) : ℕ := max (4*u.interval.toNat/100+u.interval.toNat/50) 15

/-- `update_route` has found the route: it takes the update over. -/
def updateKnownRoute (env : Env) (u : Update) (p src addMetric : ℕ) (w : World) : World :=
  let feasible := updateFeasible w src u.seqno u.refmetric
  let metric := min (u.refmetric.toNat+env.neighbourCost u.neigh+addMetric) infinity
  let oldsrc := (w.route p).src
  let oldmetric := routeMetric (w.route p)
  -- a successor that switches to a source for which its update is unfeasible
  let lost := !feasible && (w.route p).installed && src≠oldsrc
  let w := if lost then uninstallRoute env p w else w
  let w := (retainSource src w).modifyRoute p fun r =>
    {r with
      src := src
      time := if (feasible || env.keepUnfeasible) && u.refmetric.toNat < infinity then w.now
        else r.time
      seqno := u.seqno}
  let w := changeRouteMetric env p u.refmetric.toNat (env.neighbourCost u.neigh) addMetric w
  let w := w.modifyRoute p fun r => {r with holdTime := u.holdTime}
  let w := routeChanged env p oldsrc oldmetric w
  let w := if lost then routeLost env oldsrc oldmetric w else w
  let w :=
    if !feasible then
      sendUnfeasibleRequest env u.neigh ((w.route p).installed && routeOld w p) u.seqno metric src w
    else w
  releaseSource oldsrc w

/-- `update_route` makes a route and enters it into the table. -/
def updateNewRoute (env : Env) (u : Update) (malloc : Option ℕ) (src addMetric : ℕ) (w : World) :
    World :=
  let feasible := updateFeasible w src u.seqno u.refmetric
  let metric := min (u.refmetric.toNat+env.neighbourCost u.neigh+addMetric) infinity
  if u.refmetric.toNat ≥ infinity then w
  else
    let w := if !feasible then sendUnfeasibleRequest env u.neigh false u.seqno metric src w else w
    if !feasible && !env.keepUnfeasible then w
    else
      match malloc with
      | none => w
      | some p =>
        let made : Route :=
          { src := src,refmetric := u.refmetric,cost := BitVec.ofNat 16 (env.neighbourCost u.neigh)
            addMetric := BitVec.ofNat 16 addMetric,seqno := u.seqno,neigh := u.neigh
            nexthop := u.nexthop,time := w.now,holdTime := u.holdTime,installed := false
            channels := u.channels.take diversityHops }
        let w := (retainSource src w).modifyRoute p fun _ => made
        let (w,inserted) := insertRoute env p w
        if inserted then considerRoute env p w else w

/-- The addresses that `malloc` answers in `update_route`. -/
structure Malloc where
  source : Option ℕ
  route : Option ℕ

def updateRoute (env : Env) (malloc : Malloc) (u : Update) (w : World) : World :=
  if u.routerId=env.myid then w
  else if martianPrefix u.pfx u.plen then w
  else
    let addMetric := env.inputFilter u.routerId u.pfx u.plen u.neigh
    if addMetric ≥ infinity then w
    else
      let route := findRoute w u.pfx u.plen u.neigh u.nexthop
      let same := route.filter fun p => (w.sourceOf p).id=u.routerId
      let (w,src) :=
        match same with
        | some p => (w,some (w.route p).src)
        | none => findSource malloc.source u.routerId u.pfx u.plen u.seqno w
      match src, route with
      | none, _ => w
      | some src, some p => updateKnownRoute env u p src addMetric w
      | some src, none => updateNewRoute env u malloc.route src addMetric w

def updateRouteMetric (env : Env) (p : ℕ) (w : World) : World :=
  let oldmetric := routeMetric (w.route p)
  if routeExpired w p then
    if (w.route p).refmetric.toNat < infinity then
      let w := w.modifyRoute p fun r => {r with seqno := seqnoPlus (w.sourceOf p).seqno 1}
      let w := retractRoute env p w
      if oldmetric < infinity then routeChanged env p (w.route p).src oldmetric w else w
    else w
  else
    let s := w.sourceOf p
    let neigh := (w.route p).neigh
    let w := changeRouteMetric env p (w.route p).refmetric.toNat (env.neighbourCost neigh)
      (env.inputFilter s.id s.pfx s.plen neigh) w
    if routeMetric (w.route p)≠oldmetric then routeChanged env p (w.route p).src oldmetric w
    else w

/-- What `retract_neighbour_routes` does with a route of the neighbour. -/
def retractNeighbourRoute (env : Env) (p : ℕ) (w : World) : World :=
  if (w.route p).refmetric.toNat≠infinity then
    let oldmetric := routeMetric (w.route p)
    let w := retractRoute env p w
    if oldmetric≠infinity then routeChanged env p (w.route p).src oldmetric w else w
  else w

end RoutePlatform.BabelRoutes
