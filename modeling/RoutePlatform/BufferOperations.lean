import RoutePlatform.OperationRuns

/-!
# Output buffers of `lib/buffer.c`

Data that the kernel does not take at once is queued in chunks. The kernel answers every `write`
and `writev` with the number of bytes it takes, or with an error. A call is given the answers it
will get; one that needs more has not returned. `errno` keeps the last error.
-/

namespace RoutePlatform.BufferOperations

abbrev Byte := BitVec 8

/-- The values of `errno` the code tells apart. -/
inductive Errno where
  | eagain | ewouldblock | eintr | other
  deriving DecidableEq, Repr

/-- `ERRNO_IO_RETRY`. -/
def Errno.ioRetry : Errno→Bool
  | .other => false
  | _ => true

inductive Answer where
  /-- At most this many bytes are taken. -/
  | accept (n : ℕ)
  | fail (errno : Errno)
  deriving DecidableEq, Repr

/-- `buffer_status_t`. -/
inductive BufferStatus where
  | error | empty | pending
  deriving DecidableEq, Repr

/-- `struct buffer_data` without its link. -/
structure BufferData where
  cp : ℕ
  sp : ℕ
  data : List Byte
  deriving DecidableEq

/-- `struct buffer`: the chunks from `head` to `tail`. -/
structure Buffer where
  chunks : List BufferData
  size : ℕ
  deriving DecidableEq

/-- `memcpy` to a location of the data. -/
def memcpy (data : List Byte) (location : ℕ) (bytes : List Byte) : List Byte :=
  data.take location++bytes++data.drop (location+bytes.length)

/-- `buffer_add`. The contents of new memory are arbitrary. -/
def bufferAdd (size : ℕ) : BufferData := ⟨0,0,List.replicate size 0⟩

/-- The chunks before the one `buffer_put` writes to, and that one. -/
def putChunk (b : Buffer) : List BufferData × BufferData :=
  match b.chunks.getLast? with
  | none => ([],bufferAdd b.size)
  | some d => if d.cp=b.size then (b.chunks,bufferAdd b.size) else (b.chunks.dropLast,d)

/-- One turn of the loop of `buffer_put`: the buffer and the bytes left. -/
def putTurn (b : Buffer) (bytes : List Byte) : Buffer × List Byte :=
  let found := putChunk b
  let d := found.2
  let chunk := if bytes.length≤b.size-d.cp then bytes.length else b.size-d.cp
  let d := {d with
    data := memcpy d.data d.cp (bytes.take chunk)
    cp := d.cp+chunk}
  ({b with chunks := found.1++[d]},bytes.drop chunk)

/-- The loop of `buffer_put`, of at most so many turns. -/
def putLoop : ℕ→Buffer→List Byte→Option Buffer
  | _, b, [] => some b
  | 0, _, _::_ => none
  | fuel+1, b, c::bytes =>
    let turn := putTurn b (c::bytes)
    putLoop fuel turn.1 turn.2

def bufferPut (b : Buffer) (bytes : List Byte) : Option Buffer := putLoop bytes.length b bytes

def maxChunks : ℕ := 16

def maxFlush : ℕ := 131072

/-- The bytes of a chunk that are not flushed. -/
def BufferData.unflushed (d : BufferData) : List Byte := (d.data.drop d.sp).take (d.cp-d.sp)

/-- The bytes that the loop of `buffer_flush_available` offers. -/
def gather : List BufferData→ℕ→ℕ→List Byte
  | [], _, _ => []
  | d::rest, iovcnt, nbyte =>
    if iovcnt < maxChunks ∧ nbyte < maxFlush then
      d.unflushed++gather rest (iovcnt+1) (nbyte+(d.cp-d.sp))
    else []

/-- The loop of `buffer_flush_available` that frees what was written. -/
def freeWritten : ℕ→List BufferData→List BufferData × BufferStatus
  | 0, [] => ([],.empty)
  | 0, d::rest => (d::rest,.pending)
  | _+1, [] => ([],.empty)
  | written+1, d::rest =>
    if written+1<d.cp-d.sp then ({d with sp := d.sp+(written+1)}::rest,.pending)
    else freeWritten (written+1-(d.cp-d.sp)) rest

/-- A buffer with the bytes that the kernel has taken and `errno`. -/
structure Channel where
  buffer : Buffer
  accepted : List Byte
  errno : Errno
  report : Option BufferStatus

/-- `buffer_flush_available` with the answer of the kernel. -/
def flushAnswered (ch : Channel) : Answer→Channel × BufferStatus
  | .fail errno => ({ch with errno},if errno.ioRetry then .pending else .error)
  | .accept n =>
    let offered := gather ch.buffer.chunks 0 0
    let written := min n offered.length
    let freed := freeWritten written ch.buffer.chunks
    ({ch with
      buffer := {ch.buffer with chunks := freed.1}
      accepted := ch.accepted++offered.take written},freed.2)

def bufferFlushAvailable (ch : Channel) (kernel : List Answer) : Option (Channel × BufferStatus) :=
  if gather ch.buffer.chunks 0 0=[] then some (ch,.empty)
  else kernel.head?.map (flushAnswered ch)

/-- No data was flushed: the head is the same chunk. -/
def unchangedHead (b b' : Buffer) : Bool := b'.chunks.length=b.chunks.length &&
    (b'.chunks.head?.map BufferData.sp)=(b.chunks.head?.map BufferData.sp)

/-- The loop of `buffer_flush_all`. -/
def flushAllLoop : List Answer→Channel→Option (Channel × BufferStatus)
  | kernel, ch =>
    if gather ch.buffer.chunks 0 0=[] then some (ch,.empty)
    else
      match kernel with
      | [] => none
      | answer::kernel =>
        let flushed := flushAnswered ch answer
        if flushed.2=.pending then
          if unchangedHead ch.buffer flushed.1.buffer && flushed.1.errno ≠ .eintr then
            some (flushed.1,.pending)
          else flushAllLoop kernel flushed.1
        else some flushed

def bufferFlushAll (ch : Channel) (kernel : List Answer) : Option (Channel × BufferStatus) :=
  if ch.buffer.chunks=[] then some (ch,.empty) else flushAllLoop kernel ch

/-- The end of `buffer_write`: the rest is queued. -/
def writeRest (ch : Channel) (bytes : List Byte) (written : ℕ) : Option (Channel × BufferStatus) :=
  (if written<bytes.length then bufferPut ch.buffer (bytes.drop written)
    else some ch.buffer).map fun b =>
      ({ch with buffer := b},if b.chunks=[] then .empty else .pending)

def bufferWrite (ch : Channel) (bytes : List Byte) (kernel : List Answer) :
    Option (Channel × BufferStatus) :=
  if ch.buffer.chunks=[] then
    kernel.head?.bind fun
      | .accept n =>
        let written := min n bytes.length
        writeRest {ch with accepted := ch.accepted++bytes.take written} bytes written
      | .fail errno =>
        if errno.ioRetry then writeRest {ch with errno} bytes 0
        else some ({ch with errno},.error)
  else writeRest ch bytes 0

/-- A call. Other code may have changed `errno` before it. -/
inductive BufferOp where
  | put (bytes : List Byte)
  | write (bytes : List Byte) (kernel : List Answer)
  | flushAvailable (kernel : List Answer)
  | flushAll (errno : Errno) (kernel : List Answer)

/-- Keep the report of a call. -/
def withReport (result : Option (Channel × BufferStatus)) : Option Channel :=
  result.map fun found => {found.1 with report := some found.2}

def bufferStep (ch : Channel) : BufferOp→Option Channel
  | .put bytes => (bufferPut ch.buffer bytes).map fun b => {ch with buffer := b,report := none}
  | .write bytes kernel => withReport (bufferWrite ch bytes kernel)
  | .flushAvailable kernel => withReport (bufferFlushAvailable ch kernel)
  | .flushAll errno kernel => withReport (bufferFlushAll {ch with errno} kernel)

def submitted : BufferOp→List Byte
  | .put bytes => bytes
  | .write bytes _ => bytes
  | .flushAvailable _ => []
  | .flushAll _ _ => []

def Buffer.queued (b : Buffer) : List Byte := b.chunks.flatMap BufferData.unflushed

/-- An error that is not retryable closes the descriptor. -/
def Answer.retryable : Answer→Bool
  | .accept _ => true
  | .fail errno => errno.ioRetry

/-- An answer after which `buffer_flush_all` may try again without progress. -/
def Answer.stalls : Answer→Bool
  | .accept n => n=0
  | .fail errno => errno=.eintr

/-- The kernel answers until the call returns, with retryable errors only. -/
def BufferLegal (ch : Channel) : BufferOp→Prop
  | .put _ => True
  | .write _ kernel => kernel≠[] ∧ ∀ answer∈kernel, answer.retryable=true
  | .flushAvailable kernel => kernel≠[] ∧ ∀ answer∈kernel, answer.retryable=true
  | .flushAll _ kernel => (∀ answer∈kernel, answer.retryable=true) ∧
    ch.buffer.queued.length≤(kernel.filter fun answer => !answer.stalls).length

instance decidableBufferLegal (ch : Channel) : ∀ op, Decidable (BufferLegal ch op)
  | .put _ => .isTrue trivial
  | .write _ kernel => inferInstanceAs (Decidable
      (kernel≠[] ∧ ∀ answer∈kernel, answer.retryable=true))
  | .flushAvailable kernel => inferInstanceAs (Decidable
      (kernel≠[] ∧ ∀ answer∈kernel, answer.retryable=true))
  | .flushAll _ kernel => inferInstanceAs (Decidable ((∀ answer∈kernel, answer.retryable=true) ∧
      ch.buffer.queued.length≤(kernel.filter fun answer => !answer.stalls).length))

/-- `buffer_new` with the page size of `sysconf`. -/
def bufferNew (pgsz size : ℕ) : Buffer := ⟨[],if size≠0 then size else ((4096-1)/pgsz+1)*pgsz⟩

/-- A new buffer before any call. -/
def newChannel (pgsz size : ℕ) : Channel := ⟨bufferNew pgsz size,[],.other,none⟩

end RoutePlatform.BufferOperations
