import RoutePlatform.BestPathOperations

/-!
# The process queue of `bgpd/bgp_route.c`

Paths of a node are added, deleted and restored; `bgp_process` puts the node on the main queue. A
run hands the first node to `bgp_process_main`, which selects the best path, moves the flag
`SELECTED`, tells the peers and the kernel, and unlinks deleted paths. Calls of `bgp_info_add` and
`bgp_info_reap` are recorded.
-/

namespace RoutePlatform.BgpProcess

open BestPathOperations Function

/-- What `bgp_process_main` reads of a path besides the selection. -/
structure PathState where
  zebraRouteBgp : Bool
  igpChanged : Bool
  attrChanged : Bool
  multipathChg : Bool
  deriving DecidableEq

/-- A node of a main table with its flag `BGP_NODE_PROCESS_SCHEDULED`. -/
structure ProcessNode where
  rn : BgpNode
  path : ℕ→PathState
  scheduled : Bool

/-- Change what else is known of one path. -/
def ProcessNode.modifyPath (pn : ProcessNode) (ri : ℕ) (f : PathState→PathState) : ProcessNode :=
  {pn with path := update pn.path ri (f (pn.path ri))}

/-- `bgp_info_add` of a new path, with no flag of the selection nor `REMOVED`. -/
def bgpInfoAdd (pn : ProcessNode) (ri : ℕ) (info : BgpInfo) (flags : InfoFlags)
    (path : PathState) : ProcessNode :=
  {pn with
    rn :=
      { infoList := ri::pn.rn.infoList
        info := update pn.rn.info ri info
        flags := update pn.rn.flags ri {flags with
            selected := false,removed := false,dmedCheck := false,dmedSelected := false} }
    path := update pn.path ri path}

/-- New attributes and flags for a path on the list. -/
def bgpInfoUpdate (pn : ProcessNode) (ri : ℕ) (info : BgpInfo) (flags : InfoFlags)
    (path : PathState) : ProcessNode :=
  {pn with
    rn :=
      {pn.rn with
        info := update pn.rn.info ri info
        flags := update pn.rn.flags ri {flags with
            selected := (pn.rn.flags ri).selected
            removed := (pn.rn.flags ri).removed
            dmedCheck := (pn.rn.flags ri).dmedCheck
            dmedSelected := (pn.rn.flags ri).dmedSelected}}
    path := update pn.path ri path}

def bgpInfoDelete (pn : ProcessNode) (ri : ℕ) : ProcessNode :=
  {pn with rn := pn.rn.modifyFlags ri fun flags => {flags with removed := true,valid := false}}

def bgpInfoRestore (pn : ProcessNode) (ri : ℕ) : ProcessNode :=
  {pn with rn := pn.rn.modifyFlags ri fun flags => {flags with removed := false,valid := true}}

/-- The configuration that a run reads. -/
structure ProcessConfig where
  bgp : Bgp
  peers : List ℕ
  fibSafi : Bool
  named : Bool
  noFib : Bool

/-- A call of `bgp_process_main` to the rest of the daemon. -/
inductive ProcessCall where
  | announceSelected (peer : ℕ) (selected : Option ℕ)
  | zebraAnnounce (ri : ℕ)
  | zebraWithdraw (ri : ℕ)
  deriving DecidableEq

/-- The calls of `bgp_info_reap` in the second pass of the selection. -/
def selectReaps (flags : ℕ→InfoFlags) : List ℕ→Option ℕ→List ℕ
  | [], _ => []
  | ri::rest, oldSelect =>
    let oldSelect := if (flags ri).selected then some ri else oldSelect
    if (flags ri).holddown && ((flags ri).removed && some ri≠oldSelect) then
      ri::selectReaps flags rest oldSelect
    else selectReaps flags rest oldSelect

structure ProcessResult where
  node : ProcessNode
  calls : List ProcessCall
  /-- The calls of `bgp_info_reap`. -/
  reaped : List ℕ

/-- The test for `Nothing to do`, with the path that stays selected. -/
def nothingToDo (pair : Selection) (path : ℕ→PathState) : Option ℕ :=
  match pair.old with
  | none => none
  | some old => if pair.new=some old ∧ (path old).attrChanged=false then some old else none

/-- Take the flag `SELECTED` from the old path. -/
def unsetSelected (pn : ProcessNode) : Option ℕ→ProcessNode
  | none => pn
  | some old => {pn with rn := pn.rn.modifyFlags old fun flags => {flags with selected := false}}

/-- Give the flag `SELECTED` to the new path and forget its changes. -/
def setSelected (pn : ProcessNode) : Option ℕ→ProcessNode
  | none => pn
  | some new =>
    ProcessNode.modifyPath
      {pn with rn := pn.rn.modifyFlags new fun flags => {flags with selected := true}} new
      fun path => {path with attrChanged := false,multipathChg := false}

/-- A path that the kernel is told of. -/
def zebraPath (pn : ProcessNode) (ri : ℕ) : Bool :=
  (pn.path ri).zebraRouteBgp && (pn.rn.info ri).subType=.normal

/-- The part `FIB update`. -/
def fibUpdate (config : ProcessConfig) (pn : ProcessNode) (old new : Option ℕ) : List ProcessCall :=
  if config.fibSafi && (!config.named && !config.noFib) then
    match new.filter (zebraPath pn), old.filter (zebraPath pn) with
    | some new, _ => [.zebraAnnounce new]
    | none, some old => [.zebraWithdraw old]
    | none, none => []
  else []

/-- The part that reaps the old path. -/
def oldReaps (pn : ProcessNode) (old : Option ℕ) : List ℕ :=
  (old.filter fun ri => (pn.rn.flags ri).removed).toList

/-- `bgp_process_main`; the flags `MULTIPATH_CHG` after the multipath update are an argument. -/
def bgpProcessMain (config : ProcessConfig) (multipathChg : ℕ→Bool) (pn : ProcessNode) :
    ProcessResult :=
  let pair := bgpBestSelection config.bgp pn.rn
  let reaps := selectReaps pn.rn.flags pn.rn.infoList none
  let pn : ProcessNode :=
    {pn with
      rn := pair.node
      path := fun ri => {pn.path ri with multipathChg := multipathChg ri}}
  match nothingToDo pair pn.path with
  | some old =>
    { node :=
        { pn.modifyPath old fun path => {path with multipathChg := false} with
          scheduled := false }
      calls :=
        if (pn.path old).igpChanged || (pn.path old).multipathChg then [.zebraAnnounce old] else []
      reaped := reaps }
  | none =>
    let pn := setSelected (unsetSelected pn pair.old) pair.new
    { node :=
        {pn with
          rn := (oldReaps pn pair.old).foldl BgpNode.reap pn.rn
          scheduled := false}
      calls := config.peers.map (fun peer => .announceSelected peer pair.new) ++
          fibUpdate config pn pair.old pair.new
      reaped := reaps++oldReaps pn pair.old }

/-- The nodes of the main tables, and the queue. -/
structure ProcessQueue where
  nodes : ℕ→ProcessNode
  /-- The nodes on `process_main_queue`. -/
  queue : List ℕ
  /-- The calls of `bgp_info_add`: the node and the path. -/
  added : List (ℕ × ℕ)
  /-- The calls of `bgp_info_reap`. -/
  reaped : List (ℕ × ℕ)
  /-- The calls of `bgp_process_main`. -/
  examined : List ℕ

def ProcessQueue.setNode (w : ProcessQueue) (n : ℕ) (pn : ProcessNode) : ProcessQueue :=
  {w with nodes := update w.nodes n pn}

def bgpProcess (w : ProcessQueue) (n : ℕ) : ProcessQueue := if (w.nodes n).scheduled then w
  else { w.setNode n {w.nodes n with scheduled := true} with queue := w.queue++[n] }

/-- The queue hands its first node to `bgp_process_main` and forgets it. -/
def runMain (w : ProcessQueue) (config : ProcessConfig) (multipathChg : ℕ→Bool) : ProcessQueue :=
  match w.queue with
  | [] => w
  | n::rest =>
    let result := bgpProcessMain config multipathChg (w.nodes n)
    {w.setNode n result.node with
      queue := rest
      reaped := w.reaped++result.reaped.map fun ri => (n,ri)
      examined := w.examined++[n]}

inductive ProcessOp where
  | add (n ri : ℕ) (info : BgpInfo) (flags : InfoFlags) (path : PathState)
  | update (n ri : ℕ) (info : BgpInfo) (flags : InfoFlags) (path : PathState)
  | delete (n ri : ℕ)
  | restore (n ri : ℕ)
  | process (n : ℕ)
  | main (config : ProcessConfig) (multipathChg : ℕ→Bool)

def processStep (w : ProcessQueue) : ProcessOp→Option ProcessQueue
  | .add n ri info flags path => some {w.setNode n (bgpInfoAdd (w.nodes n) ri info flags path) with
      added := w.added++[(n,ri)]}
  | .update n ri info flags path => some (w.setNode n (bgpInfoUpdate (w.nodes n) ri info flags path))
  | .delete n ri => some (w.setNode n (bgpInfoDelete (w.nodes n) ri))
  | .restore n ri => some (w.setNode n (bgpInfoRestore (w.nodes n) ri))
  | .process n => some (bgpProcess w n)
  | .main config multipathChg => some (runMain w config multipathChg)

/-- A path is new when it is added, and on the list of its node when it changes. -/
def ProcessLegal (w : ProcessQueue) : ProcessOp→Prop
  | .add n ri _ _ _ => ri ∉ (w.nodes n).rn.infoList
  | .update n ri _ _ _ | .delete n ri | .restore n ri => ri∈(w.nodes n).rn.infoList
  | .process _ | .main _ _ => True

instance decidableProcessLegal (w : ProcessQueue) : ∀ op, Decidable (ProcessLegal w op)
  | .add n ri _ _ _ => inferInstanceAs (Decidable (ri ∉ (w.nodes n).rn.infoList))
  | .update n ri _ _ _ => inferInstanceAs (Decidable (ri∈(w.nodes n).rn.infoList))
  | .delete n ri => inferInstanceAs (Decidable (ri∈(w.nodes n).rn.infoList))
  | .restore n ri => inferInstanceAs (Decidable (ri∈(w.nodes n).rn.infoList))
  | .process _ => .isTrue trivial
  | .main _ _ => .isTrue trivial

/-- The operation is a run of the queue. -/
def ProcessOp.isMain : ProcessOp→Bool
  | .main _ _ => true
  | _ => false

/-- Nothing is scheduled and no node has a path. -/
def emptyQueue (info : ℕ→BgpInfo) (path : ℕ→PathState) : ProcessQueue where
  nodes := fun _ => ⟨⟨[],info,fun _ => InfoFlags.zero⟩,path,false⟩
  queue := []
  added := []
  reaped := []
  examined := []

end RoutePlatform.BgpProcess
