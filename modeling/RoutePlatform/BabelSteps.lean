import RoutePlatform.BabelRoutes

/-!
# Babel: walks over the route table and the steps of the router

The walks of the source go along a slot by `next` while the route they stand on
may move to the head of its slot, and restart a slot after a route has been
flushed. Each walk here takes a number of turns that is enough for it.
-/

namespace RoutePlatform.BabelRoutes

/-- `next` of an element in the list that holds it. -/
def nextIn : List ℕ→ℕ→Option ℕ
  | a::b::rest, p => if a=p then some b else nextIn (b::rest) p
  | _, _ => none

/-- A walk along a slot that acts at each route: the state, and where it stands in the end. -/
def walkSlot (visit : ℕ→World→World) (i : ℕ) : ℕ→Option ℕ→World→World × Option ℕ
  | 0, r, w => (w,r)
  | _+1, none, w => (w,none)
  | turns+1, some p, w =>
    let w := visit p w
    walkSlot visit i turns (nextIn (w.slot i) p) w

/-- Turns that are enough for a walk along a slot. -/
def slotTurns (w : World) (i : ℕ) : ℕ := ((w.slot i).length+1)*((w.slot i).length+1)

/-- A walk along the slots from an index on; the index grows by `stride`. -/
def walkTable (visit : ℕ→World→World) (stride : ℕ) : ℕ→ℕ→World→World
  | 0, _, w => w
  | turns+1, i, w =>
    if i<w.slots.length then
      walkTable visit stride turns (i+stride)
        (walkSlot visit i (slotTurns w i) (w.slot i).head? w).1
    else w

def updateNeighbourMetric (env : Env) (neigh : ℕ) (changed : Bool) (w : World) : World :=
  if changed then
    walkTable (fun p w => if (w.route p).neigh=neigh then updateRouteMetric env p w else w) 1
      w.slots.length 0 w
  else w

def updateInterfaceMetric (env : Env) (ifp : ℕ) (w : World) : World := walkTable
    (fun p w => if env.neighIfp (w.route p).neigh=ifp then updateRouteMetric env p w else w) 1
    w.slots.length 0 w

/-- `retract_neighbour_routes`, whose loop counts its index up twice a turn. -/
def retractNeighbourRoutes (env : Env) (neigh : ℕ) (w : World) : World :=
  walkTable (fun p w => if (w.route p).neigh=neigh then retractNeighbourRoute env p w else w) 2
    w.slots.length 0 w

/-- The loop of `flush_neighbour_routes`: a slot is looked at again after a flush. -/
def flushMatching (env : Env) (doomed : World→ℕ→Bool) : ℕ→ℕ→World→World
  | 0, _, w => w
  | turns+1, i, w =>
    if i<w.slots.length then
      match (w.slot i).find? (doomed w) with
      | some p => flushMatching env doomed turns i (flushRoute env p w)
      | none => flushMatching env doomed turns (i+1) w
    else w

/-- Turns that are enough for a walk that flushes routes. -/
def tableTurns (w : World) : ℕ := w.slots.flatten.length+w.slots.length

def flushNeighbourRoutes (env : Env) (neigh : ℕ) (w : World) : World :=
  flushMatching env (fun w p => (w.route p).neigh=neigh) (tableTurns w) 0 w

def flushInterfaceRoutes (env : Env) (ifp : ℕ) (v4only : Bool) (w : World) : World :=
  flushMatching env
    (fun w p => env.neighIfp (w.route p).neigh=ifp && (!v4only || v4mapped (w.route p).nexthop))
    (tableTurns w) 0 w

/-- `expire_routes` at a route that stays. -/
def expireVisit (env : Env) (p : ℕ) (w : World) : World :=
  let w := updateRouteMetric env p w
  if (w.route p).installed ∧ (w.route p).refmetric.toNat < infinity ∧ routeOld w p then
    send env (.unicastRequest (w.route p).neigh (w.sourceOf p).pfx (w.sourceOf p).plen) w
  else w

/-- The walk of `expire_routes` up to the first route that it flushes, if any. -/
def expireSlot (env : Env) (i : ℕ) : ℕ→Option ℕ→World→World × Bool
  | 0, _, w => (w,false)
  | _+1, none, w => (w,false)
  | turns+1, some p, w =>
    if (w.route p).time > w.now ∨ routeOld w p then (flushRoute env p w,true)
    else
      let w := expireVisit env p w
      expireSlot env i turns (nextIn (w.slot i) p) w

/-- The loop of `expire_routes` over the slots. -/
def expireLoop (env : Env) : ℕ→ℕ→World→World
  | 0, _, w => w
  | turns+1, i, w =>
    if i<w.slots.length then
      match expireSlot env i (slotTurns w i) (w.slot i).head? w with
      | (w,true) => expireLoop env turns i w
      | (w,false) => expireLoop env turns (i+1) w
    else w

def expireRoutes (env : Env) (w : World) : World := expireLoop env (tableTurns w) 0 w

def expireSource (s : ℕ) (w : World) : World :=
  let w := if (w.source s).time > w.now then w.modifySource s fun r => {r with time := w.now}
    else w
  if (w.source s).time<w.now-sourceGcTime ∧ (w.source s).routeCount=0 then
    {w with srcs := w.srcs.erase s}
  else w

def expireSources (w : World) : World := w.srcs.foldl (fun w s => expireSource s w) w

inductive Action where
  | update (malloc : Malloc) (u : Update)
  | flush (p : ℕ)
  | flushNeighbour (neigh : ℕ)
  | flushInterface (ifp : ℕ) (v4only : Bool)
  | expire
  | neighbourMetric (neigh : ℕ) (changed : Bool)
  | interfaceMetric (ifp : ℕ)
  | retractNeighbour (neigh : ℕ)
  | flushUpdates (ifp : ℕ) (buffer : List (BitVec 128 × ℕ))
  | expireSources
  | tick (now : ℤ)

def step (env : Env) (w : World) : Action→World
  | .update malloc u => updateRoute env malloc u w
  | .flush p => flushRoute env p w
  | .flushNeighbour neigh => flushNeighbourRoutes env neigh w
  | .flushInterface ifp v4only => flushInterfaceRoutes env ifp v4only w
  | .expire => expireRoutes env w
  | .neighbourMetric neigh changed => updateNeighbourMetric env neigh changed w
  | .interfaceMetric ifp => updateInterfaceMetric env ifp w
  | .retractNeighbour neigh => retractNeighbourRoutes env neigh w
  | .flushUpdates ifp buffer => flushUpdates env ifp buffer w
  | .expireSources => expireSources w
  | .tick now => {w with now := now}

/-- The router has no route and no source yet. -/
def World.start (now : ℤ) : World :=
  { route := fun _ => default,source := fun _ => default,slots := [],maxRouteSlots := 0
    srcs := [],now := now,aborted := false,log := [] }

/-- The actions happen in order, each in its own environment. -/
def run (w : World) (actions : List (Env × Action)) : World :=
  actions.foldl (fun w a => step a.1 w a.2) w

end RoutePlatform.BabelRoutes
