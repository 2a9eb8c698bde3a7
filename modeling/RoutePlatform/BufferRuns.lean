import RoutePlatform.BufferOperations

/-!
# The byte stream through an output buffer

Every chunk holds some bytes that are not flushed. Each call moves bytes from the queue to the
kernel in order, or adds bytes at the end of the queue. So the bytes taken and the bytes queued
are together the bytes submitted.
-/

namespace RoutePlatform.BufferRuns

open OperationRuns BufferOperations List Option

variable {chunks : List BufferData} {added : List Byte} {after : Channel}

/-- A chunk that is not empty, within its memory. -/
structure ChunkOk (size : ℕ) (d : BufferData) : Prop where
  length : d.data.length=size
  some_left : d.sp<d.cp
  within : d.cp ≤ size

/-- All chunks of a buffer are well formed, and a chunk can hold a byte. -/
structure BufferOk (b : Buffer) : Prop where
  size_pos : 0<b.size
  chunks : ∀ d∈b.chunks, ChunkOk b.size d

/-- The bytes of some chunks that are not flushed. -/
def queuedOf (chunks : List BufferData) : List Byte := chunks.flatMap BufferData.unflushed

variable (d : BufferData)

theorem queuedOf_cons (chunks : List BufferData) :
    queuedOf (d::chunks)=d.unflushed++queuedOf chunks := rfl

theorem queuedOf_append (xs ys : List BufferData) :
    queuedOf (xs++ys)=queuedOf xs++queuedOf ys := flatMap_append

theorem queuedOf_singleton : queuedOf [d]=d.unflushed := by simp [queuedOf]

theorem Buffer.queued_eq (b : Buffer) : b.queued=queuedOf b.chunks := rfl

variable {size : ℕ}

theorem ChunkOk.unflushed_length {d : BufferData} (h : ChunkOk size d) :
    d.unflushed.length=d.cp-d.sp := by
  have hl := h.length
  have hw := h.within
  simp only [BufferData.unflushed,length_take,length_drop]
  omega

theorem queuedOf_eq_nil (h : ∀ d∈chunks, ChunkOk size d) : queuedOf chunks=[] ↔ chunks=[] := by
  cases chunks with
  | nil => simp [queuedOf]
  | cons d rest =>
    have hd := h d mem_cons_self
    have hlen := hd.unflushed_length
    have hpos := hd.some_left
    simp only [reduceCtorEq,iff_false]
    intro hnil
    rw [queuedOf_cons,append_eq_nil_iff] at hnil
    rw [hnil.1,length_nil] at hlen
    omega

theorem unflushed_memcpy (bytes : List Byte) (hsp : d.sp≤d.cp)
    (hroom : d.cp+bytes.length≤d.data.length) :
    BufferData.unflushed {d with data := memcpy d.data d.cp bytes,cp := d.cp+bytes.length} =
      d.unflushed++bytes := by
  have htake : (d.data.take d.cp).length=d.cp := by
    rw [length_take]
    omega
  have hleft : ((d.data.drop d.sp).take (d.cp-d.sp)).length=d.cp-d.sp := by
    rw [length_take,length_drop]
    omega
  have hcnt : d.cp+bytes.length-d.sp =
      ((d.data.drop d.sp).take (d.cp-d.sp)).length+bytes.length := by omega
  simp only [BufferData.unflushed,memcpy]
  rw [append_assoc,drop_append_of_le_length (by omega),drop_take,hcnt,
    take_length_add_append,take_left]

theorem memcpy_length {data bytes : List Byte} {location : ℕ}
    (h : location+bytes.length≤data.length) :
    (memcpy data location bytes).length=data.length := by
  simp only [memcpy,length_append,length_take,length_drop]
  omega

/-- What the chunk found for new data promises. -/
structure ChunkFound (b : Buffer) (found : List BufferData × BufferData) : Prop where
  before : ∀ d∈found.1, ChunkOk b.size d
  length : found.2.data.length=b.size
  ordered : found.2.sp≤found.2.cp
  room : found.2.cp<b.size
  queued : queuedOf (found.1++[found.2])=b.queued

variable {b : Buffer}

theorem chunkFound_bufferAdd (h : BufferOk b) : ChunkFound b (b.chunks,bufferAdd b.size) where
  before := h.chunks
  length := length_replicate
  ordered := le_refl 0
  room := h.size_pos
  queued := by
    rw [queuedOf_append,queuedOf_singleton]
    simp [bufferAdd,BufferData.unflushed,Buffer.queued_eq]

theorem putChunk_found (h : BufferOk b) : ChunkFound b (putChunk b) := by
  unfold putChunk
  cases hlast : b.chunks.getLast? with
  | none =>
    rw [getLast?_eq_none_iff] at hlast
    have hadd := chunkFound_bufferAdd h
    rw [hlast] at hadd
    exact hadd
  | some d =>
    dsimp only
    have hsplit := dropLast_append_getLast? d hlast
    split
    · exact chunkFound_bufferAdd h
    rename_i hfull
    have hd := h.chunks d (mem_of_getLast? hlast)
    exact {
      before := fun d' hd' => h.chunks d' (mem_of_mem_dropLast hd')
      length := hd.length
      ordered := le_of_lt hd.some_left
      room := lt_of_le_of_ne hd.within hfull
      queued := by rw [hsplit]; rfl }

/-- One turn moves at least a byte to the end of the queue. -/
theorem putTurn_spec {bytes : List Byte} (h : BufferOk b) (hne : bytes≠[]) :
    BufferOk (putTurn b bytes).1 ∧ (putTurn b bytes).1.size=b.size ∧
      (putTurn b bytes).1.queued++(putTurn b bytes).2=b.queued++bytes ∧
      (putTurn b bytes).2.length<bytes.length := by
  have hfnd := putChunk_found h
  have hpos := length_pos_iff.mpr hne
  unfold putTurn
  dsimp only
  generalize hc : (if bytes.length≤b.size-(putChunk b).2.cp then bytes.length
    else b.size-(putChunk b).2.cp)=chunk
  have hroom := hfnd.room
  have hlen := hfnd.length
  have hchunk : 0<chunk ∧ chunk≤bytes.length ∧ (putChunk b).2.cp+chunk≤b.size := by
    rw [←hc]
    split <;> omega
  have htake : (bytes.take chunk).length=chunk := by
    rw [length_take]
    omega
  have hcopy := unflushed_memcpy (putChunk b).2 (bytes.take chunk) hfnd.ordered (by omega)
  rw [htake] at hcopy
  refine ⟨⟨h.size_pos,?_⟩,rfl,?_,?_⟩
  · intro d hd
    rw [mem_append,mem_singleton] at hd
    cases hd with
    | inl hd => exact hfnd.before d hd
    | inr hd =>
      have hordered := hfnd.ordered
      rw [hd]
      exact {
        length := by rw [memcpy_length (by omega)]; exact hlen
        some_left := by dsimp only; omega
        within := hchunk.2.2 }
  · rw [Buffer.queued_eq,queuedOf_append,queuedOf_singleton,hcopy,←hfnd.queued,
      queuedOf_append,queuedOf_singleton]
    simp only [append_assoc,take_append_drop]
  · rw [length_drop]
    omega

theorem putLoop_spec (fuel : ℕ) : ∀ {b : Buffer} {bytes : List Byte}, BufferOk b →
    bytes.length≤fuel → ∃ b', putLoop fuel b bytes=some b' ∧ BufferOk b' ∧
      b'.size=b.size ∧ b'.queued=b.queued++bytes := by
  induction fuel with
  | zero =>
    intro b bytes h hfuel
    have hnil : bytes=[] := length_eq_zero_iff.mp (by omega)
    subst hnil
    exact ⟨b,rfl,h,rfl,(append_nil _).symm⟩
  | succ fuel ih =>
    intro b bytes h hfuel
    cases bytes with
    | nil => exact ⟨b,rfl,h,rfl,(append_nil _).symm⟩
    | cons c bytes =>
      have hturn := putTurn_spec h (cons_ne_nil c bytes)
      have hfewer : (putTurn b (c::bytes)).2.length≤fuel := by omega
      obtain ⟨b',hrun,hok,hsize,hqd⟩ := ih hturn.1 hfewer
      exact ⟨b',hrun,hok,hsize.trans hturn.2.1,hqd.trans hturn.2.2.1⟩

theorem bufferPut_spec (h : BufferOk b) (bytes : List Byte) :
    ∃ b', bufferPut b bytes=some b' ∧ BufferOk b' ∧ b'.size=b.size ∧ b'.queued=b.queued++bytes :=
  putLoop_spec bytes.length h (le_refl _)

theorem gather_front : ∀ (chunks : List BufferData) (iovcnt nbyte : ℕ),
    gather chunks iovcnt nbyte <+: queuedOf chunks
  | [], _, _ => nil_prefix
  | d::rest, iovcnt, nbyte => by
    rw [gather]
    split
    · rw [queuedOf_cons,prefix_append_right_inj]
      exact gather_front rest (iovcnt+1) (nbyte+(d.cp-d.sp))
    · exact nil_prefix

theorem gather_eq_nil (h : ∀ d∈chunks, ChunkOk size d) : gather chunks 0 0=[] ↔ chunks=[] := by
  cases chunks with
  | nil => simp [gather]
  | cons d rest =>
    have hd := h d mem_cons_self
    have hlen := hd.unflushed_length
    have hpos := hd.some_left
    rw [gather,if_pos (by decide)]
    simp only [append_eq_nil_iff,reduceCtorEq,iff_false,not_and]
    intro hnil
    rw [hnil,length_nil] at hlen
    omega

/-- What freeing the written bytes leaves. -/
structure Freed (size : ℕ) (chunks : List BufferData) (written : ℕ)
    (freed : List BufferData × BufferStatus) : Prop where
  left : ∀ d∈freed.1, ChunkOk size d
  /-- Exactly the written bytes are gone from the queue. -/
  queued : queuedOf freed.1=(queuedOf chunks).drop written
  report : freed.2=if freed.1=[] then .empty else .pending

theorem unflushed_advance (written : ℕ) :
    BufferData.unflushed {d with sp := d.sp+written}=d.unflushed.drop written := by
  simp only [BufferData.unflushed]
  rw [←drop_drop,drop_take]
  congr 1
  omega

theorem freeWritten_freed {size : ℕ} : ∀ (chunks : List BufferData) (written : ℕ),
    (∀ d∈chunks, ChunkOk size d) → Freed size chunks written (freeWritten written chunks)
  | [], 0, h => ⟨h,rfl,rfl⟩
  | _::_, 0, h => ⟨h,rfl,rfl⟩
  | [], _+1, h => ⟨h,rfl,rfl⟩
  | d::rest, written+1, h => by
    have hd := h d mem_cons_self
    have hlen := hd.unflushed_length
    have hrs : ∀ d'∈rest, ChunkOk size d' := fun d' hd' => h d' (mem_cons_of_mem _ hd')
    rw [freeWritten]
    split
    · refine ⟨?_,?_,rfl⟩
      · intro d' hd'
        rw [mem_cons] at hd'
        cases hd' with
        | inl heq =>
          rw [heq]
          exact ⟨hd.length,by dsimp only; omega,hd.within⟩
        | inr hmem => exact hrs d' hmem
      · rw [queuedOf_cons,queuedOf_cons,unflushed_advance,drop_append_of_le_length (by omega)]
    have hfreed := freeWritten_freed rest (written+1-(d.cp-d.sp)) hrs
    have hgone : d.unflushed.drop (written+1)=[] := drop_eq_nil_of_le (by omega)
    refine ⟨hfreed.left,?_,hfreed.report⟩
    rw [hfreed.queued,queuedOf_cons,drop_append,hlen,hgone,nil_append]

/-- A channel after bytes were moved to the kernel, and the report. -/
structure Moved (ch : Channel) (added : List Byte) (after : Channel) (report : BufferStatus) :
    Prop where
  ok : BufferOk after.buffer
  size : after.buffer.size=ch.buffer.size
  /-- The stream is as before, with the added bytes at its end. -/
  stream : after.accepted++after.buffer.queued=ch.accepted++ch.buffer.queued++added
  report : report=.empty ↔ after.buffer.chunks=[]

variable {ch : Channel}

/-- One answer of the kernel moves bytes in order. -/
theorem flushAnswered_moved {answer : Answer} (h : BufferOk ch.buffer)
    (hne : ch.buffer.chunks≠[]) (hretry : answer.retryable=true) :
    Moved ch [] (flushAnswered ch answer).1 (flushAnswered ch answer).2 := by
  cases answer with
  | fail errno =>
    have hio : errno.ioRetry=true := hretry
    simp only [flushAnswered,hio,if_true]
    exact ⟨h,rfl,(append_nil _).symm,by simp [hne]⟩
  | accept n =>
    simp only [flushAnswered]
    have hfront := gather_front ch.buffer.chunks 0 0
    generalize gather ch.buffer.chunks 0 0=offered at hfront
    have hfreed := freeWritten_freed ch.buffer.chunks (min n offered.length) h.chunks
    refine ⟨⟨h.size_pos,hfreed.left⟩,rfl,?_,?_⟩
    · have htake : offered.take (min n offered.length) =
          (queuedOf ch.buffer.chunks).take (min n offered.length) := by
        obtain ⟨behind,hbehind⟩ := hfront
        rw [←hbehind,take_append_of_le_length (min_le_right _ _)]
      rw [Buffer.queued_eq,hfreed.queued,htake,append_assoc,take_append_drop,
        append_nil,Buffer.queued_eq]
    rw [hfreed.report]
    split <;> simp_all

theorem flushAnswered_progress (answer : Answer) (h : BufferOk ch.buffer)
    (hne : ch.buffer.chunks≠[]) :
    (flushAnswered ch answer).1.buffer.queued.length≤ch.buffer.queued.length ∧
      (answer.stalls=false →
        (flushAnswered ch answer).1.buffer.queued.length<ch.buffer.queued.length ∨
          (unchangedHead ch.buffer (flushAnswered ch answer).1.buffer &&
            (flushAnswered ch answer).1.errno ≠ .eintr)=true) := by
  cases answer with
  | fail errno =>
    refine ⟨le_refl _,fun hstall => Or.inr ?_⟩
    have herrno : errno ≠ .eintr := by simpa [Answer.stalls] using hstall
    simp [flushAnswered,unchangedHead,herrno]
  | accept n =>
    have hoffered := mt (gather_eq_nil h.chunks).mp hne
    have hfront := (gather_front ch.buffer.chunks 0 0).length_le
    simp only [flushAnswered]
    generalize gather ch.buffer.chunks 0 0=offered at hoffered hfront
    have hpos := length_pos_iff.mpr hoffered
    have hfreed := freeWritten_freed ch.buffer.chunks (min n offered.length) h.chunks
    have hlen := congrArg length hfreed.queued
    rw [length_drop] at hlen
    simp only [Buffer.queued_eq]
    refine ⟨by omega,fun hstall => Or.inl ?_⟩
    have hn : n≠0 := by simpa [Answer.stalls] using hstall
    omega

theorem Moved.trans {mid : Channel} {first last : BufferStatus} (h1 : Moved ch [] mid first)
    (h2 : Moved mid added after last) :
    Moved ch added after last where
  ok := h2.ok
  size := h2.size.trans h1.size
  stream := by rw [h2.stream,h1.stream,append_nil]
  report := h2.report

theorem moved_of_empty (h : BufferOk ch.buffer) (hnil : ch.buffer.chunks=[]) :
    Moved ch [] ch .empty :=
  ⟨h,rfl,(append_nil _).symm,by simp [hnil]⟩

variable {kernel : List Answer}

theorem bufferFlushAvailable_moved (h : BufferOk ch.buffer)
    (hne : kernel≠[]) (hretry : ∀ answer∈kernel, answer.retryable=true) :
    ∃ after report, bufferFlushAvailable ch kernel=some (after,report) ∧
      Moved ch [] after report := by
  rw [bufferFlushAvailable]
  split
  · rename_i hnil
    rw [gather_eq_nil h.chunks] at hnil
    exact ⟨ch,.empty,rfl,moved_of_empty h hnil⟩
  rename_i hsome
  rw [gather_eq_nil h.chunks] at hsome
  cases kernel with
  | nil => exact absurd rfl hne
  | cons answer kernel => exact ⟨_,_,rfl,flushAnswered_moved h hsome (hretry answer mem_cons_self)⟩

/-- `buffer_flush_all` returns after as many answers that do not stall as there are bytes. -/
theorem flushAllLoop_moved (kernel : List Answer) : ∀ {ch : Channel}, BufferOk ch.buffer →
    (∀ answer∈kernel, answer.retryable=true) →
    ch.buffer.queued.length≤(kernel.filter fun answer => !answer.stalls).length →
    ∃ after report, flushAllLoop kernel ch=some (after,report) ∧ Moved ch [] after report := by
  induction kernel with
  | nil =>
    intro ch h _ henough
    have hqd : ch.buffer.queued=[] := by
      rw [filter_nil,length_nil] at henough
      exact length_eq_zero_iff.mp (by omega)
    have hnil := (queuedOf_eq_nil h.chunks).mp hqd
    rw [flushAllLoop,if_pos ((gather_eq_nil h.chunks).mpr hnil)]
    exact ⟨ch,.empty,rfl,moved_of_empty h hnil⟩
  | cons answer kernel ih =>
    intro ch h hretry henough
    rw [flushAllLoop]
    by_cases hnil : ch.buffer.chunks=[]
    · rw [if_pos ((gather_eq_nil h.chunks).mpr hnil)]
      exact ⟨ch,.empty,rfl,moved_of_empty h hnil⟩
    rw [if_neg (mt (gather_eq_nil h.chunks).mp hnil)]
    have hmv := flushAnswered_moved h hnil (hretry answer mem_cons_self)
    have hprogress := flushAnswered_progress answer h hnil
    by_cases hpending : (flushAnswered ch answer).2=.pending
    · rw [if_pos hpending]
      rw [hpending] at hmv
      split
      · exact ⟨_,_,rfl,hmv⟩
      rename_i hagain
      have hleft : (flushAnswered ch answer).1.buffer.queued.length ≤
          (kernel.filter fun answer => !answer.stalls).length := by
        rw [filter_cons] at henough
        cases hstalls : answer.stalls with
        | true =>
          simp only [hstalls,Bool.not_true,Bool.false_eq_true,if_false] at henough
          omega
        | false =>
          simp only [hstalls,Bool.not_false,if_true,length_cons] at henough
          cases hprogress.2 hstalls with
          | inl hfewer => omega
          | inr hsame => exact absurd hsame hagain
      obtain ⟨after,report,hrun,hafter⟩ := ih hmv.ok
        (fun answer' hmem => hretry answer' (.tail _ hmem)) hleft
      exact ⟨after,report,hrun,hmv.trans hafter⟩
    · rw [if_neg hpending]
      exact ⟨_,_,rfl,hmv⟩

theorem bufferFlushAll_moved (ch : Channel) (h : BufferOk ch.buffer)
    (hretry : ∀ answer∈kernel, answer.retryable=true)
    (henough : ch.buffer.queued.length≤(kernel.filter fun answer => !answer.stalls).length) :
    ∃ after report, bufferFlushAll ch kernel=some (after,report) ∧ Moved ch [] after report := by
  rw [bufferFlushAll]
  split
  · rename_i hnil
    exact ⟨ch,.empty,rfl,moved_of_empty h hnil⟩
  · exact flushAllLoop_moved kernel h hretry henough

theorem writeRest_moved (ch : Channel) (h : BufferOk ch.buffer) (bytes : List Byte) (written : ℕ) :
    ∃ after report, writeRest ch bytes written=some (after,report) ∧
      Moved ch (bytes.drop written) after report := by
  rw [writeRest]
  have hput : ∃ b', (if written<bytes.length then bufferPut ch.buffer (bytes.drop written)
      else some ch.buffer)=some b' ∧ BufferOk b' ∧ b'.size=ch.buffer.size ∧
      b'.queued=ch.buffer.queued++bytes.drop written := by
    split
    · exact bufferPut_spec h _
    rw [drop_eq_nil_of_le (by omega),append_nil]
    exact ⟨ch.buffer,rfl,h,rfl,rfl⟩
  obtain ⟨b',hb',hok,hsize,hqd⟩ := hput
  rw [hb',map_some]
  refine ⟨_,_,rfl,hok,hsize,?_,?_⟩
  · rw [hqd,append_assoc]
  · split <;> simp_all

/-- `buffer_write` adds its data to the stream. -/
theorem bufferWrite_moved (h : BufferOk ch.buffer) (bytes : List Byte) (hne : kernel≠[])
    (hretry : ∀ answer∈kernel, answer.retryable=true) :
    ∃ after report, bufferWrite ch bytes kernel=some (after,report) ∧
      Moved ch bytes after report := by
  rw [bufferWrite]
  split
  · rename_i hnil
    have hqd : ch.buffer.queued=[] := (queuedOf_eq_nil h.chunks).mpr hnil
    cases kernel with
    | nil => exact absurd rfl hne
    | cons answer kernel =>
      have hanswer := hretry answer mem_cons_self
      rw [head?_cons,bind_some]
      cases answer with
      | fail errno =>
        have hio : errno.ioRetry=true := hanswer
        simp only [hio,if_true]
        obtain ⟨after,report,hrun,hmv⟩ := writeRest_moved {ch with errno} h bytes 0
        exact ⟨after,report,hrun,hmv.ok,hmv.size,hmv.stream,hmv.report⟩
      | accept n =>
        obtain ⟨after,report,hrun,hmv⟩ := writeRest_moved
          {ch with accepted := ch.accepted++bytes.take (min n bytes.length)} h bytes (min n bytes.length)
        refine ⟨after,report,hrun,hmv.ok,hmv.size,?_,hmv.report⟩
        rw [hmv.stream]
        rw [hqd,append_nil,append_nil,append_assoc,take_append_drop]
  · exact writeRest_moved ch h bytes 0

/-- A channel stands for the bytes taken and those queued in chunks; the last report was right. -/
structure Carries (ch : Channel) (stream : List Byte) : Prop where
  ok : BufferOk ch.buffer
  /-- The bytes taken and queued are the stream. -/
  stream : ch.accepted++ch.buffer.queued=stream
  /-- The last call reported an empty buffer exactly if it left one. -/
  report : ∀ report, ch.report=some report → (report=.empty ↔ ch.buffer.chunks=[])

theorem Moved.carries {stream : List Byte} {report : BufferStatus}
    (hm : Moved ch added after report) (hstream : ch.accepted++ch.buffer.queued=stream) :
    Carries {after with report := some report} (stream++added) where
  ok := hm.ok
  stream := by rw [←hstream]; exact hm.stream
  report := by
    intro r hr
    cases hr
    exact hm.report

/-- Each call returns and appends the data it submits to the stream. -/
theorem bufferStep_carries (ch : Channel) (stream : List Byte) (op : BufferOp)
    (hc : Carries ch stream) (hleg : BufferLegal ch op) :
    ∃ ch', bufferStep ch op=some ch' ∧ Carries ch' (stream++submitted op) := by
  cases op with
  | put bytes =>
    obtain ⟨b',hput,hok,_,hqd⟩ := bufferPut_spec hc.ok bytes
    refine ⟨{ch with buffer := b',report := none},?_,hok,?_,?_⟩
    · rw [bufferStep,hput,map_some]
    · rw [hqd,←append_assoc,hc.stream]
      rfl
    intro report hreport
    cases hreport
  | write bytes kernel =>
    obtain ⟨after,report,hrun,hmv⟩ := bufferWrite_moved hc.ok bytes hleg.1 hleg.2
    refine ⟨{after with report := some report},?_,hmv.carries hc.stream⟩
    rw [bufferStep,hrun,withReport,map_some]
  | flushAvailable kernel =>
    obtain ⟨after,report,hrun,hmv⟩ := bufferFlushAvailable_moved hc.ok hleg.1 hleg.2
    refine ⟨{after with report := some report},?_,hmv.carries hc.stream⟩
    rw [bufferStep,hrun,withReport,map_some]
  | flushAll errno kernel =>
    obtain ⟨after,report,hrun,hmv⟩ :=
      bufferFlushAll_moved {ch with errno} hc.ok hleg.1 hleg.2
    refine ⟨{after with report := some report},?_,hmv.carries hc.stream⟩
    rw [bufferStep,hrun,withReport,map_some]

theorem bufferNew_ok {pgsz : ℕ} (size : ℕ) (hpage : 0<pgsz) : BufferOk (bufferNew pgsz size) where
  size_pos := by
    rw [bufferNew]
    dsimp only
    split
    · omega
    · exact mul_pos (Nat.succ_pos _) hpage
  chunks := fun d hd => (nomatch hd)

theorem foldl_submitted (ops : List BufferOp) (stream : List Byte) :
    ops.foldl (fun acc op => acc++submitted op) stream=stream++ops.flatMap submitted := by
  induction ops generalizing stream with
  | nil => rw [foldl_nil,flatMap_nil,append_nil]
  | cons op ops ih => rw [foldl_cons,ih,flatMap_cons,append_assoc]

/-- All calls return; the bytes taken and queued are those submitted in order; no chunk is empty or
exceeds its memory; and the last report was right. -/
theorem bufferRun_stream {pgsz size : ℕ} {ops : List BufferOp} (hpage : 0<pgsz)
    (hl : LegalRun bufferStep BufferLegal (newChannel pgsz size) ops) :
    ∃ ch, run bufferStep (newChannel pgsz size) ops=some ch ∧
      ch.accepted++ch.buffer.queued=ops.flatMap submitted ∧
      (∀ d∈ch.buffer.chunks, d.data.length=ch.buffer.size ∧ d.sp<d.cp ∧ d.cp≤ch.buffer.size) ∧
      ∀ report, ch.report=some report → (report=.empty ↔ ch.buffer.queued=[]) := by
  have hnew : Carries (newChannel pgsz size) [] :=
    ⟨bufferNew_ok size hpage,rfl,fun report hreport => (nomatch hreport)⟩
  obtain ⟨ch,hrun,hcarries⟩ := run_refines bufferStep_carries ops _ _ hnew hl
  rw [foldl_submitted,nil_append] at hcarries
  refine ⟨ch,hrun,hcarries.stream,?_,?_⟩
  · intro d hd
    have hok := hcarries.ok.chunks d hd
    exact ⟨hok.length,hok.some_left,hok.within⟩
  intro report hreport
  rw [hcarries.report report hreport]
  exact (queuedOf_eq_nil hcarries.ok.chunks).symm

/-- Calls with a full kernel, partial writes and an interrupted flush. -/
def sampleCalls : List BufferOp :=
  [.write [1,2,3,4,5,6,7] [.accept 1],.put [8,9,10],.flushAvailable [.accept 4],
    .write [11,12] [.accept 2],.flushAvailable [.fail .eagain],
    .flushAll .other ([.fail .eintr,.accept 3]++List.replicate 7 (.accept 9))]

theorem bufferRun_stream_sampleCalls :
    LegalRun bufferStep BufferLegal (newChannel 4096 4) sampleCalls ∧
      ∃ ch, run bufferStep (newChannel 4096 4) sampleCalls=some ch ∧
        ch.accepted++ch.buffer.queued=[1,2,3,4,5,6,7,8,9,10,11,12] := by
  have hl : LegalRun bufferStep BufferLegal (newChannel 4096 4) sampleCalls := by decide
  obtain ⟨ch,hrun,hstream,_⟩ := bufferRun_stream (by decide) hl
  exact ⟨hl,ch,hrun,hstream⟩

end RoutePlatform.BufferRuns
