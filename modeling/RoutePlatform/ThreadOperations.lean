import RoutePlatform.LinkedNodes
import RoutePlatform.OperationRuns
import RoutePlatform.PriorityQueue

/-!
# The thread master of `lib/thread.c`

A scheduled thread is on one of five linked lists or in one of two timer queues; threads are
recycled through the `unuse` list. Failed assertions answer nothing. The union `u` of a thread is
tagged, and reading another member than the one last stored yields a default; the invariant
excludes it. The callback and the statistics are left out.
-/

namespace RoutePlatform.ThreadOperations

open LinkedNodes OperationRuns PriorityQueue Function

structure Timeval where
  tvSec : ℤ
  tvUsec : ℤ
  deriving DecidableEq, Repr

/-- `timeval_adjust` rounds down; negative times become zero. -/
def timevalAdjust (a : Timeval) : Timeval :=
  let sec := a.tvSec+a.tvUsec/1000000
  let usec := a.tvUsec%1000000
  if sec<0 then ⟨0,0⟩ else ⟨sec,usec⟩

def timevalSubtract (a b : Timeval) : Timeval := timevalAdjust ⟨a.tvSec-b.tvSec,a.tvUsec-b.tvUsec⟩

def timevalCmp (a b : Timeval) : ℤ := if a.tvSec=b.tvSec then a.tvUsec-b.tvUsec else a.tvSec-b.tvSec

inductive ThreadType where
  | read | write | timer | event | ready | background | unused | execute
  deriving DecidableEq, Repr

/-- The union `u`. -/
inductive ThreadUnion where
  | val (val : ℤ)
  | fd (fd : ℕ)
  | sands (sands : Timeval)
  deriving DecidableEq, Repr

/-- `THREAD_FD`. -/
def ThreadUnion.getFd : ThreadUnion→ℕ
  | .fd n => n
  | _ => 0

/-- The alarm time of a timer. -/
def ThreadUnion.getSands : ThreadUnion→Timeval
  | .sands tv => tv
  | _ => ⟨0,0⟩

/-- `struct thread` without its links. Arguments are compared only. -/
structure ThreadData (ω : Type) where
  type : ThreadType
  arg : ω
  u : ThreadUnion
  index : ℤ

structure ThreadList where
  head : Option ℕ
  tail : Option ℕ
  count : ℤ

inductive ListName where
  | read | write | event | ready | unuse
  deriving DecidableEq, Repr

/-- The timer queues of a master. -/
inductive QueueName where
  | timer | background
  deriving DecidableEq, Repr

/-- The two directions of input and output. -/
inductive IoName where
  | read | write
  deriving DecidableEq, Repr

def IoName.list : IoName→ListName
  | .read => .read
  | .write => .write

/-- The type of the threads on a list. -/
def ListName.type : ListName→ThreadType
  | .read => .read
  | .write => .write
  | .event => .event
  | .ready => .ready
  | .unuse => .unused

/-- The type of the threads in a queue. -/
def QueueName.type : QueueName→ThreadType
  | .timer => .timer
  | .background => .background

/-- `struct thread_master`, with the memory of its threads. -/
structure ThreadMaster (ω : Type) where
  threads : Memory (ThreadData ω)
  fresh : ℕ
  list : ListName→ThreadList
  queue : QueueName→PQueue ℕ
  fdset : IoName→ℕ→Bool
  alloc : ℕ

variable {ω : Type}

def threadMasterCreate (arg : ω) : ThreadMaster ω where
  threads := fun _ => ⟨none,none,⟨.unused,arg,.val 0,0⟩⟩
  fresh := 0
  list := fun _ => ⟨none,none,0⟩
  queue := fun _ => pqueueCreate 0
  fdset := fun _ _ => false
  alloc := 0

namespace ThreadMaster

variable (m : ThreadMaster ω)

def data (t : ℕ) : ThreadData ω := (m.threads t).data

/-- Change the contents of a thread. -/
def setData (t : ℕ) (f : ThreadData ω→ThreadData ω) : ThreadMaster ω :=
  {m with threads := update m.threads t {m.threads t with data := f (m.data t)}}

def setList (name : ListName) (l : ThreadList) : ThreadMaster ω :=
  {m with list := update m.list name l}

/-- Set or clear one bit of a descriptor set. -/
def setFd (dir : IoName) (fd : ℕ) (b : Bool) : ThreadMaster ω :=
  {m with fdset := update m.fdset dir (update (m.fdset dir) fd b)}

end ThreadMaster

/-- A thread gets a new type. -/
def withType (type : ThreadType) (d : ThreadData ω) : ThreadData ω := {d with type := type}

/-- The union of a thread is overwritten. -/
def withUnion (u : ThreadUnion) (d : ThreadData ω) : ThreadData ω := {d with u := u}

def threadListAdd (m : ThreadMaster ω) (name : ListName) (thread : ℕ) : ThreadMaster ω :=
  let list := m.list name
  let threads := setNext m.threads (some thread) none
  let threads := setPrev threads (some thread) list.tail
  let threads := setNext threads list.tail (some thread)
  let head := if list.tail.isSome then list.head else some thread
  {m with threads := threads}.setList name ⟨head,some thread,list.count+1⟩

def threadListDelete (m : ThreadMaster ω) (name : ListName) (thread : ℕ) : ThreadMaster ω :=
  let list := m.list name
  let threads := m.threads
  let tail := if (threads thread).next.isSome then list.tail else (threads thread).prev
  let threads := setPrev threads (threads thread).next (threads thread).prev
  let head := if (threads thread).prev.isSome then list.head else (threads thread).next
  let threads := setNext threads (threads thread).prev (threads thread).next
  let threads := setPrev (setNext threads (some thread) none) (some thread) none
  {m with threads := threads}.setList name ⟨head,tail,list.count-1⟩

def threadAddUnuse (m : ThreadMaster ω) (thread : ℕ) : Option (ThreadMaster ω) :=
  if (m.threads thread).next=none ∧ (m.threads thread).prev=none ∧ (m.data thread).type=.unused then
    some (threadListAdd m .unuse thread)
  else none

def threadTrimHead (m : ThreadMaster ω) (name : ListName) : ThreadMaster ω × Option ℕ :=
  match (m.list name).head with
  | some thread => (threadListDelete m name thread,some thread)
  | none => (m,none)

def threadTimerCmp (threads : Memory (ThreadData ω)) (a b : ℕ) : ℤ :=
  let cmp := timevalCmp (threads a).data.u.getSands (threads b).data.u.getSands
  if cmp<0 then -1 else if cmp > 0 then 1 else 0

def threadTimerUpdate (thread actualPosition : ℕ) (threads : Memory (ThreadData ω)) :
    Memory (ThreadData ω) :=
  update threads thread
    {threads thread with data := {(threads thread).data with index := actualPosition}}

/-- `pqueue_enqueue` on a queue of the master. -/
def enqueue (m : ThreadMaster ω) (name : QueueName) (thread : ℕ) : ThreadMaster ω :=
  let (queue,threads) := pqueueEnqueue (threadTimerCmp m.threads) threadTimerUpdate thread
    (m.queue name) m.threads
  {m with threads := threads,queue := update m.queue name queue}

/-- `pqueue_remove_at` on a queue of the master. -/
def removeAt (m : ThreadMaster ω) (name : QueueName) (index : ℕ) : ThreadMaster ω :=
  let (queue,threads) := pqueueRemoveAt (threadTimerCmp m.threads) threadTimerUpdate index
    (m.queue name) m.threads
  {m with threads := threads,queue := update m.queue name queue}

/-- `pqueue_dequeue` on a queue of the master. -/
def dequeue (m : ThreadMaster ω) (name : QueueName) : ThreadMaster ω :=
  let (_,queue,threads) := pqueueDequeue (threadTimerCmp m.threads) threadTimerUpdate
    (m.queue name) m.threads
  {m with threads := threads,queue := update m.queue name queue}

/-- `thread_get`. A recycled thread keeps the old contents of its union. -/
def threadGet (m : ThreadMaster ω) (type : ThreadType) (arg : ω) : ThreadMaster ω × ℕ :=
  match threadTrimHead m .unuse with
  | (m,some thread) => (m.setData thread fun d => ⟨type,arg,d.u,-1⟩,thread)
  | (m,none) =>
    let thread := m.fresh
    ({m with
        threads := update m.threads thread ⟨none,none,⟨type,arg,.val 0,-1⟩⟩
        fresh := thread+1
        alloc := m.alloc+1},thread)

/-- The common body of `funcname_thread_add_read` and
`funcname_thread_add_write`. -/
def threadAddIo (dir : IoName) (m : ThreadMaster ω) (arg : ω) (fd : ℕ) :
    ThreadMaster ω × Option ℕ :=
  if m.fdset dir fd then (m,none)
  else
    let (m,thread) := threadGet m dir.list.type arg
    let m := m.setFd dir fd true
    let m := m.setData thread (withUnion (.fd fd))
    (threadListAdd m dir.list thread,some thread)

/-- `funcname_thread_add_read`. -/
def threadAddRead (m : ThreadMaster ω) (arg : ω) (fd : ℕ) : ThreadMaster ω × Option ℕ :=
  threadAddIo .read m arg fd

/-- `funcname_thread_add_write`. -/
def threadAddWrite (m : ThreadMaster ω) (arg : ω) (fd : ℕ) : ThreadMaster ω × Option ℕ :=
  threadAddIo .write m arg fd

def alarmTime (relativeTime timeRelative : Timeval) : Timeval :=
  timevalAdjust ⟨relativeTime.tvSec+timeRelative.tvSec,relativeTime.tvUsec+timeRelative.tvUsec⟩

/-- `funcname_thread_add_timer_timeval`; `relativeTime` is the clock it reads. -/
def threadAddTimerTimeval (m : ThreadMaster ω) (name : QueueName) (arg : ω)
    (relativeTime timeRelative : Timeval) : ThreadMaster ω × ℕ :=
  let (m,thread) := threadGet m name.type arg
  let m := m.setData thread (withUnion (.sands (alarmTime relativeTime timeRelative)))
  (enqueue m name thread,thread)

/-- `funcname_thread_add_timer`. -/
def threadAddTimer (m : ThreadMaster ω) (arg : ω) (relativeTime : Timeval) (timer : ℤ) :
    ThreadMaster ω × ℕ :=
  threadAddTimerTimeval m .timer arg relativeTime ⟨timer,0⟩

/-- `funcname_thread_add_timer_msec`. -/
def threadAddTimerMsec (m : ThreadMaster ω) (arg : ω) (relativeTime : Timeval) (timer : ℤ) :
    ThreadMaster ω × ℕ :=
  threadAddTimerTimeval m .timer arg relativeTime ⟨timer.tdiv 1000,1000*timer.tmod 1000⟩

/-- `funcname_thread_add_background`. -/
def threadAddBackground (m : ThreadMaster ω) (arg : ω) (relativeTime : Timeval) (delay : ℤ) :
    ThreadMaster ω × ℕ :=
  let trel : Timeval := if delay≠0 then ⟨delay.tdiv 1000,1000*delay.tmod 1000⟩ else ⟨0,0⟩
  threadAddTimerTimeval m .background arg relativeTime trel

/-- `funcname_thread_add_event`. -/
def threadAddEvent (m : ThreadMaster ω) (arg : ω) (val : ℤ) : ThreadMaster ω × ℕ :=
  let (m,thread) := threadGet m .event arg
  let m := m.setData thread (withUnion (.val val))
  (threadListAdd m .event thread,thread)

/-- The thread is on no list any more and is recycled. -/
def retire (m : ThreadMaster ω) (thread : ℕ) : Option (ThreadMaster ω) :=
  threadAddUnuse (m.setData thread (withType .unused)) thread

/-- `thread_cancel` of a thread on a list. -/
def cancelListed (m : ThreadMaster ω) (name : ListName) (thread : ℕ) : Option (ThreadMaster ω) :=
  retire (threadListDelete m name thread) thread

/-- `thread_cancel` of a thread that waits for a descriptor. -/
def cancelIo (m : ThreadMaster ω) (dir : IoName) (thread : ℕ) : Option (ThreadMaster ω) :=
  let fd := (m.data thread).u.getFd
  if m.fdset dir fd then cancelListed (m.setFd dir fd false) dir.list thread else none

/-- `thread_cancel` of a thread in a queue. -/
def cancelQueued (m : ThreadMaster ω) (name : QueueName) (thread : ℕ) : Option (ThreadMaster ω) :=
  let index := (m.data thread).index
  if 0 ≤ index ∧ (m.queue name).array index.toNat=thread then
    retire (removeAt m name index.toNat) thread
  else none

def threadCancel (m : ThreadMaster ω) (thread : ℕ) : Option (ThreadMaster ω) :=
  match (m.data thread).type with
  | .read => cancelIo m .read thread
  | .write => cancelIo m .write thread
  | .timer => cancelQueued m .timer thread
  | .event => cancelListed m .event thread
  | .ready => cancelListed m .ready thread
  | .background => cancelQueued m .background thread
  | .unused => some m
  | .execute => some m

/-- One loop of `thread_cancel_event`; `ret` counts the cancelled events. -/
def cancelEventLoop [DecidableEq ω] (name : ListName) (arg : ω) :
    ℕ→Option ℕ→ThreadMaster ω→ℕ→Option (ThreadMaster ω × ℕ)
  | 0, _, _, _ => none
  | _+1, none, m, ret => some (m,ret)
  | fuel+1, some t, m, ret =>
    let thread := (m.threads t).next
    if (m.data t).arg=arg then do
      let m ← cancelListed m name t
      cancelEventLoop name arg fuel thread m (ret+1)
    else cancelEventLoop name arg fuel thread m ret

/-- Rounds a loop over a list needs. -/
def ThreadMaster.rounds (m : ThreadMaster ω) (name : ListName) : ℕ := (m.list name).count.toNat+1

def threadCancelEvent [DecidableEq ω] (m : ThreadMaster ω) (arg : ω) :
    Option (ThreadMaster ω × ℕ) := do
  let (m,ret) ← cancelEventLoop .event arg (m.rounds .event) (m.list .event).head m 0
  cancelEventLoop .ready arg (m.rounds .ready) (m.list .ready).head m ret

def threadTimerWait (m : ThreadMaster ω) (name : QueueName) (relativeTime : Timeval) :
    Option Timeval :=
  if (m.queue name).size≠0 then
    some (timevalSubtract (m.data ((m.queue name).array 0)).u.getSands relativeTime)
  else none

/-- `thread_run`: a copy of the thread goes to the caller, the thread itself
is recycled. -/
def threadRun (m : ThreadMaster ω) (thread : ℕ) : Option (ThreadMaster ω × Node (ThreadData ω)) := do
  let fetch := m.threads thread
  let m ← retire m thread
  some (m,fetch)

/-- The loop of `thread_process_fd`; `ready` counts the threads made ready. -/
def processFdLoop (dir : IoName) (fdset : ℕ→Bool) :
    ℕ→Option ℕ→ThreadMaster ω→ℕ→Option (ThreadMaster ω × ℕ)
  | 0, _, _, _ => none
  | _+1, none, m, ready => some (m,ready)
  | fuel+1, some thread, m, ready =>
    let next := (m.threads thread).next
    let fd := (m.data thread).u.getFd
    if fdset fd then
      if m.fdset dir fd then
        let m := m.setFd dir fd false
        let m := threadListDelete m dir.list thread
        let m := threadListAdd m .ready thread
        let m := m.setData thread (withType .ready)
        processFdLoop dir fdset fuel next m (ready+1)
      else none
    else processFdLoop dir fdset fuel next m ready

def threadProcessFd (m : ThreadMaster ω) (dir : IoName) (fdset : ℕ→Bool) :
    Option (ThreadMaster ω × ℕ) :=
  processFdLoop dir fdset (m.rounds dir.list) (m.list dir.list).head m 0

/-- A timer whose alarm has come becomes ready. -/
def fire (m : ThreadMaster ω) (name : QueueName) (thread : ℕ) : ThreadMaster ω :=
  threadListAdd ((dequeue m name).setData thread (withType .ready)) .ready thread

/-- The loop of `thread_timer_process`; `fired` collects in order. -/
def timerProcessLoop (name : QueueName) (timenow : Timeval) :
    ℕ→ThreadMaster ω→List ℕ→Option (ThreadMaster ω × List ℕ)
  | 0, _, _ => none
  | fuel+1, m, fired =>
    if (m.queue name).size≠0 then
      let thread := (m.queue name).array 0
      if timevalCmp timenow (m.data thread).u.getSands<0 then some (m,fired)
      else timerProcessLoop name timenow fuel (fire m name thread) (fired++[thread])
    else some (m,fired)

/-- `thread_timer_process`; its result is the length of the list. -/
def threadTimerProcess (m : ThreadMaster ω) (name : QueueName) (timenow : Timeval) :
    Option (ThreadMaster ω × List ℕ) :=
  timerProcessLoop name timenow ((m.queue name).size+1) m []

/-- The loop of `thread_process`. -/
def processLoop (name : ListName) : ℕ→Option ℕ→ThreadMaster ω→ℕ→Option (ThreadMaster ω × ℕ)
  | 0, _, _, _ => none
  | _+1, none, m, ready => some (m,ready)
  | fuel+1, some thread, m, ready =>
    let next := (m.threads thread).next
    let m := threadListDelete m name thread
    let m := m.setData thread (withType .ready)
    let m := threadListAdd m .ready thread
    processLoop name fuel next m (ready+1)

def threadProcess (m : ThreadMaster ω) (name : ListName) : Option (ThreadMaster ω × ℕ) :=
  processLoop name (m.rounds name) (m.list name).head m 0

/-- A call of a client or signal handler, with the time it reads. -/
inductive MasterCall (ω : Type) where
  | addRead (arg : ω) (fd : ℕ)
  | addWrite (arg : ω) (fd : ℕ)
  | addTimer (arg : ω) (relativeTime : Timeval) (timer : ℤ)
  | addTimerMsec (arg : ω) (relativeTime : Timeval) (timer : ℤ)
  | addBackground (arg : ω) (relativeTime : Timeval) (delay : ℤ)
  | addEvent (arg : ω) (val : ℤ)
  | cancel (thread : ℕ)
  | cancelEvent (arg : ω)

def masterCall [DecidableEq ω] (m : ThreadMaster ω) : MasterCall ω→Option (ThreadMaster ω)
  | .addRead arg fd => some (threadAddRead m arg fd).1
  | .addWrite arg fd => some (threadAddWrite m arg fd).1
  | .addTimer arg now timer => some (threadAddTimer m arg now timer).1
  | .addTimerMsec arg now timer => some (threadAddTimerMsec m arg now timer).1
  | .addBackground arg now delay => some (threadAddBackground m arg now delay).1
  | .addEvent arg val => some (threadAddEvent m arg val).1
  | .cancel thread => threadCancel m thread
  | .cancelEvent arg => (threadCancelEvent m arg).map Prod.fst

/-- How `select` returns. It may overwrite the timeout it was given. -/
inductive SelectResult where
  | interrupted (timeout : Timeval)
  | failed
  | returned (num : ℕ) (readfd writefd : ℕ→Bool) (timeout : Timeval)

/-- What the outside does during one round of the loop of `thread_fetch`. -/
structure Round (ω : Type) where
  /-- The calls of the signal handlers `quagga_sigevent_process` runs. -/
  handlers : List (MasterCall ω)
  before : Timeval
  select : SelectResult
  /-- The clock after `select`. -/
  after : Timeval

/-- A call of `select`: whether threads are ready, and the timeout. -/
structure SelectCall where
  isReady : Bool
  timeout : Option Timeval
  deriving DecidableEq

inductive RoundEnd (ω : Type) where
  | fetched (fetch : Node (ThreadData ω))
  | failed
  /-- The loop goes on with this value of `timer_wait`. -/
  | again (timerWait : Option Timeval)

/-- The waiting time until the next timer. -/
def waitTime (m : ThreadMaster ω) (relativeTime : Timeval) : Option Timeval :=
  let timerWait := threadTimerWait m .timer relativeTime
  match threadTimerWait m .background relativeTime with
  | none => timerWait
  | some timerWaitBg =>
    match timerWait with
    | none => some timerWaitBg
    | some wait => if timevalCmp wait timerWaitBg > 0 then some timerWaitBg else some wait

/-- The threads whose descriptors `select` reported become ready. -/
def processIo (m : ThreadMaster ω) (num : ℕ) (readfd writefd : ℕ→Bool) : Option (ThreadMaster ω) :=
  if num > 0 then do
    let (m,_) ← threadProcessFd m .read readfd
    let (m,_) ← threadProcessFd m .write writefd
    some m
  else some m

/-- After `select`: timers, descriptors and background timers become ready. -/
def processAll (m : ThreadMaster ω) (num : ℕ) (readfd writefd : ℕ→Bool) (relativeTime : Timeval) :
    Option (ThreadMaster ω) := do
  let (m,_) ← threadTimerProcess m .timer relativeTime
  let m ← processIo m num readfd writefd
  let (m,_) ← threadTimerProcess m .background relativeTime
  some m

/-- The part of a round from `select` on. -/
def selectPart (m : ThreadMaster ω) (timerWait : Option Timeval) (round : Round ω) :
    Option (ThreadMaster ω × RoundEnd ω) :=
  match round.select with
  | .interrupted timeout => some (m,.again (timerWait.map fun _ => timeout))
  | .failed => some (m,.failed)
  | .returned num readfd writefd timeout => do
    let m ← processAll m num readfd writefd round.after
    match threadTrimHead m .ready with
    | (m,some thread) => do
      let (m,fetch) ← threadRun m thread
      some (m,.fetched fetch)
    | (m,none) => some (m,.again (timerWait.map fun _ => timeout))

/-- One round of `thread_fetch`, with the call of `select` it makes, if any. -/
def fetchRound [DecidableEq ω] (m : ThreadMaster ω) (timerWait : Option Timeval)
    (round : Round ω) : Option (ThreadMaster ω × RoundEnd ω × Option SelectCall) := do
  let m ← run masterCall m round.handlers
  match threadTrimHead m .ready with
  | (m,some thread) => do
    let (m,fetch) ← threadRun m thread
    some (m,.fetched fetch,none)
  | (m,none) => do
    let (m,_) ← threadProcess m .event
    let timerWait := if (m.list .ready).count=0 then waitTime m round.before else timerWait
    let (m',e) ← selectPart m timerWait round
    some (m',e,some ⟨(m.list .ready).head.isSome,timerWait⟩)

/-- The loop of `thread_fetch` against rounds of the outside, with its calls of `select`. -/
def fetchLoop [DecidableEq ω] : List (Round ω)→ThreadMaster ω→Option Timeval →
    List SelectCall→Option (ThreadMaster ω × RoundEnd ω × List SelectCall)
  | [], m, timerWait, calls => some (m,.again timerWait,calls)
  | round::rounds, m, timerWait, calls => do
    let (m,e,call) ← fetchRound m timerWait round
    match e with
    | .again timerWait => fetchLoop rounds m timerWait (calls++call.toList)
    | e => some (m,e,calls++call.toList)

def threadFetch [DecidableEq ω] (m : ThreadMaster ω) (rounds : List (Round ω)) :
    Option (ThreadMaster ω × RoundEnd ω × List SelectCall) :=
  fetchLoop rounds m (some ⟨0,0⟩) []

end RoutePlatform.ThreadOperations
