import RoutePlatform.LinkList
import RoutePlatform.OperationRuns

/-!
# Work queues of `lib/workqueue.c`

`work_queue_run` calls back the work, error, deletion and completion functions, each of which may
add items and plug or unplug the queue. So the function is cut at these calls: a frame says where
it is, and the machine takes a step when a callback returns. What was added, returned last and
removed is recorded.
-/

namespace RoutePlatform.WorkQueueOperations

open LinkList

universe u

inductive WqItemStatus where
  | success | error | retryNow | retryLater | requeue | queueBlocked
  deriving DecidableEq, Repr

structure WorkQueueItem (δ : Type u) where
  /-- Opaque data, or `NULL`. -/
  data : Option δ
  ran : BitVec 16

structure WorkQueueSpec where
  errorfunc : Bool
  completionFunc : Bool
  maxRetries : ℕ
  deriving DecidableEq

/-- Where `work_queue_run` is. -/
inductive Place where
  /-- At the head of the loop, with the node to look at. -/
  | head (node : Option ℕ)
  | work (node : ℕ) (nnode : Option ℕ)
  /-- In the error function, because of too many retries or not. -/
  | error (node : ℕ) (nnode : Option ℕ) (exceeded : Bool)
  /-- In `work_queue_item_remove`, before the node is deleted. -/
  | remove (node : ℕ) (nnode : Option ℕ) (exceeded : Bool)
  | completion
  deriving DecidableEq

/-- `work_queue_run` with its variable `cycles`. -/
structure Frame where
  place : Place
  cycles : ℕ
  deriving DecidableEq

/-- What the error function gets as second argument. -/
inductive ErrorArgument (δ : Type u) where
  | data (d : Option δ)
  | item (n : ℕ)
  deriving DecidableEq

/-- A call of the error function. -/
structure ErrorCall (δ : Type u) where
  item : ℕ
  argument : ErrorArgument δ

structure Removal where
  item : ℕ
  last : Option WqItemStatus
  ran : ℕ
  deriving DecidableEq

/-- `struct work_queue`, with the records. -/
structure WorkQueue (δ : Type u) where
  items : LinkList (WorkQueueItem δ)
  thread : Bool
  unplugged : Bool
  runs : ℕ
  best : ℕ
  granularity : ℕ
  total : ℕ
  /-- `work_queue_run`, while it is active. -/
  frame : Option Frame
  /-- The data of all items ever added; an item is named by its position. -/
  added : List δ
  lastReturn : ℕ→Option WqItemStatus
  removed : List Removal
  errorCalls : List (ErrorCall δ)

variable {δ : Type u}

def workQueueNew : WorkQueue δ where
  items := ⟨fun _ => ⟨none,none,⟨none,0⟩⟩,none,none,0⟩
  thread := false
  unplugged := true
  runs := 0
  best := 0
  granularity := 1
  total := 0
  frame := none
  added := []
  lastReturn := fun _ => none
  removed := []
  errorCalls := []

def WorkQueue.item (wq : WorkQueue δ) (n : ℕ) : WorkQueueItem δ := (wq.items.node n).data

def WorkQueue.modifyItem (wq : WorkQueue δ) (n : ℕ) (f : WorkQueueItem δ→WorkQueueItem δ) :
    WorkQueue δ :=
  {wq with items := wq.items.modify n f}

/-- Go to a place of `work_queue_run`. -/
def WorkQueue.goto (wq : WorkQueue δ) (place : Place) (cycles : ℕ) : WorkQueue δ :=
  {wq with frame := some ⟨place,cycles⟩}

def workQueueSchedule (wq : WorkQueue δ) : WorkQueue δ :=
  if wq.unplugged=true ∧ wq.thread=false ∧ wq.items.count > 0 then {wq with thread := true}
  else wq

def workQueueAdd (wq : WorkQueue δ) (data : δ) : WorkQueue δ := workQueueSchedule {wq with
      items := listnodeAdd wq.items wq.added.length ⟨some data,0⟩
      added := wq.added++[data]}

def workQueuePlug (wq : WorkQueue δ) : WorkQueue δ := {wq with thread := false,unplugged := false}

def workQueueUnplug (wq : WorkQueue δ) : WorkQueue δ :=
  workQueueSchedule {wq with unplugged := true}

/-- The part of `work_queue_run` before its loop. -/
def runStart (wq : WorkQueue δ) : WorkQueue δ :=
  {wq with
    thread := false
    granularity := if wq.granularity=0 then 1 else wq.granularity
    frame := some ⟨.head wq.items.head,0⟩}

/-- The value of an `unsigned int`. -/
def u32 (n : ℕ) : ℕ := n%2^32

/-- The part behind the label `stats` that adapts the granularity. -/
def adaptGranularity (wq : WorkQueue δ) (cycles : ℕ) (yielded : Bool) : WorkQueue δ :=
  if yielded=true ∧ cycles<wq.granularity then
    {wq with granularity := if cycles > 0 then cycles else 1}
  else if cycles ≥ wq.granularity then
    {wq with
      best := if cycles > wq.best then cycles else wq.best
      granularity :=
        if cycles > u32 (wq.granularity*4*4) then u32 (wq.granularity*4)
        else if cycles > u32 (wq.granularity*4) then u32 (wq.granularity+4)
        else wq.granularity}
  else wq

/-- The end of `work_queue_run`. -/
def runDone (spec : WorkQueueSpec) (wq : WorkQueue δ) (cycles : ℕ) : WorkQueue δ :=
  if wq.items.count > 0 then {workQueueSchedule wq with frame := none}
  else if spec.completionFunc then wq.goto .completion cycles
  else {wq with frame := none}

/-- The part behind the label `stats`. -/
def runStats (spec : WorkQueueSpec) (wq : WorkQueue δ) (cycles : ℕ) (yielded : Bool) :
    WorkQueue δ :=
  let wq := adaptGranularity wq cycles yielded
  runDone spec {wq with runs := wq.runs+1,total := wq.total+cycles} cycles

/-- The end of a cycle, with the answer of `thread_should_yield`. -/
def endCycle (spec : WorkQueueSpec) (wq : WorkQueue δ) (nnode : Option ℕ) (cycles : ℕ)
    (yields : Bool) : WorkQueue δ :=
  let cycles := u32 (cycles+1)
  if cycles%wq.granularity=0 ∧ yields=true then runStats spec wq cycles true
  else wq.goto (.head nnode) cycles

/-- Call the error function, if any, before the item is removed. -/
def callError (spec : WorkQueueSpec) (wq : WorkQueue δ) (n : ℕ) (nnode : Option ℕ)
    (exceeded : Bool) (cycles : ℕ) (argument : ErrorArgument δ) : WorkQueue δ :=
  if spec.errorfunc then
    WorkQueue.goto {wq with errorCalls := wq.errorCalls++[⟨n,argument⟩]}
      (.error n nnode exceeded) cycles
  else wq.goto (.remove n nnode exceeded) cycles

def runLoop (spec : WorkQueueSpec) (wq : WorkQueue δ) (cycles : ℕ) : Option ℕ→Option (WorkQueue δ)
  | none => some (runStats spec wq cycles false)
  | some n =>
    let nnode := (wq.items.node n).next
    let item := wq.item n
    if item.data.isNone then none
    else if item.ran.toNat > spec.maxRetries then
      some (callError spec wq n nnode true cycles (.data item.data))
    else some (wq.goto (.work n nnode) cycles)

/-- The switch over the answer; an item retried at once is at its limit. -/
def workSwitch (spec : WorkQueueSpec) (wq : WorkQueue δ) (n : ℕ) (nnode : Option ℕ)
    (cycles : ℕ) (yields : Bool) : WqItemStatus→WorkQueue δ
  | .queueBlocked =>
    runStats spec (wq.modifyItem n fun item => {item with ran := item.ran-1}) cycles false
  | .retryLater => runStats spec wq cycles false
  | .requeue =>
    let wq := wq.modifyItem n fun item => {item with ran := item.ran-1}
    let wq := {wq with items := listnodeAttach (listnodeDetach wq.items n) n}
    endCycle spec wq nnode cycles yields
  | .retryNow | .error => callError spec wq n nnode false cycles (.item n)
  | .success => wq.goto (.remove n nnode false) cycles

/-- An item was run once more. -/
def countRun (wq : WorkQueue δ) (n : ℕ) (ret : WqItemStatus) : WorkQueue δ :=
  WorkQueue.modifyItem {wq with lastReturn := Function.update wq.lastReturn n (some ret)} n
    fun item => {item with ran := item.ran+1}

def workReturned (spec : WorkQueueSpec) (wq : WorkQueue δ) (n : ℕ) (nnode : Option ℕ)
    (cycles : ℕ) (ret : WqItemStatus) (yields : Bool) : WorkQueue δ :=
  let wq := countRun wq n ret
  if ret=.retryNow ∧ (wq.item n).ran.toNat<spec.maxRetries then wq.goto (.work n nnode) cycles
  else workSwitch spec wq n nnode cycles yields ret

/-- The end of `work_queue_item_remove`, and what follows it in the loop. -/
def itemRemoved (spec : WorkQueueSpec) (wq : WorkQueue δ) (n : ℕ) (nnode : Option ℕ)
    (exceeded : Bool) (cycles : ℕ) (yields : Bool) : Option (WorkQueue δ) :=
  if (wq.item n).data.isNone then none
  else
    let wq := {wq with
      removed := wq.removed++[⟨n,wq.lastReturn n,(wq.item n).ran.toNat⟩]
      items := listDeleteNode wq.items n}
    some (if exceeded then wq.goto (.head nnode) cycles else endCycle spec wq nnode cycles yields)

/-- A step: a call, or a move of `work_queue_run` with the answer to `thread_should_yield`. -/
inductive WqOp (δ : Type u) where
  | add (data : δ)
  | plug
  | unplug
  /-- The thread calls `work_queue_run`. -/
  | start
  | loop
  | workReturn (ret : WqItemStatus) (yields : Bool)
  | errorReturn
  | removeReturn (yields : Bool)
  | completionReturn

def wqStep (spec : WorkQueueSpec) (wq : WorkQueue δ) : WqOp δ→Option (WorkQueue δ)
  | .add data => some (workQueueAdd wq data)
  | .plug => some (workQueuePlug wq)
  | .unplug => some (workQueueUnplug wq)
  | .start => if wq.frame=none then some (runStart wq) else none
  | .loop =>
    match wq.frame with
    | some ⟨.head node,cycles⟩ => runLoop spec wq cycles node
    | _ => none
  | .workReturn ret yields =>
    match wq.frame with
    | some ⟨.work n nnode,cycles⟩ => some (workReturned spec wq n nnode cycles ret yields)
    | _ => none
  | .errorReturn =>
    match wq.frame with
    | some ⟨.error n nnode exceeded,cycles⟩ => some (wq.goto (.remove n nnode exceeded) cycles)
    | _ => none
  | .removeReturn yields =>
    match wq.frame with
    | some ⟨.remove n nnode exceeded,cycles⟩ => itemRemoved spec wq n nnode exceeded cycles yields
    | _ => none
  | .completionReturn =>
    match wq.frame with
    | some ⟨.completion,_⟩ => some {wq with frame := none}
    | _ => none

/-- Possible steps: threads run the queue, and callbacks return where called. -/
def WqEnabled (wq : WorkQueue δ) : WqOp δ→Prop
  | .add _ | .plug | .unplug => True
  | .start => wq.frame=none ∧ wq.thread=true
  | .loop => ∃ node cycles, wq.frame=some ⟨.head node,cycles⟩
  | .workReturn _ _ => ∃ n nnode cycles, wq.frame=some ⟨.work n nnode,cycles⟩
  | .errorReturn => ∃ n nnode exceeded cycles, wq.frame=some ⟨.error n nnode exceeded,cycles⟩
  | .removeReturn _ => ∃ n nnode exceeded cycles, wq.frame=some ⟨.remove n nnode exceeded,cycles⟩
  | .completionReturn => ∃ cycles, wq.frame=some ⟨.completion,cycles⟩

/-- No error, nor a retry at the limit, while there is an error function. -/
def WqNoFailure (spec : WorkQueueSpec) (wq : WorkQueue δ) : WqOp δ→Prop
  | .workReturn ret _ => spec.errorfunc=true → ret ≠ .error ∧ (ret=.retryNow →
      ∀ n nnode cycles, wq.frame=some ⟨.work n nnode,cycles⟩ →
        ((wq.item n).ran+1).toNat<spec.maxRetries)
  | _ => True

end RoutePlatform.WorkQueueOperations
