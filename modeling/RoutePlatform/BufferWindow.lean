import RoutePlatform.BufferRuns

/-!
# Flushing a buffer into a terminal window

`buffer_flush_window` of `lib/buffer.c` offers the kernel as many characters as a window shows,
with an erasing sequence and a prompt. The chunks are advanced before `writev` is called, and its
answers are not compared with what was offered.
-/

namespace RoutePlatform.BufferWindow

open BufferOperations BufferRuns List

structure Sent where
  byte : Byte
  isData : Bool
  deriving DecidableEq

/-- The bytes of the buffer among others. -/
def dataOf (sent : List Sent) : List Byte := (sent.filter Sent.isData).map Sent.byte

def erase : List Sent := (replicate 10 8++replicate 10 32++replicate 10 8).map fun c => ⟨c,false⟩

/-- `more`, with the zero at its end. -/
def more : List Sent :=
  [32,45,45,77,111,114,101,45,45,32,0].map fun c => ⟨c,false⟩

/-- The inner loop: the characters displayed, the column and the lines that remain. -/
def displayed (width : ℕ) : List Byte→ℕ→ℕ→ℕ × ℕ × ℕ
  | [], column, height => (0,column,height)
  | c::cs, column, height =>
    if height=0 then (0,column,height)
    else
      let next :=
        if c=13 then (1,height)
        else if c=10 ∨ column=width then (1,height-1)
        else (column+1,height)
      let rest := displayed width cs next.1 next.2
      (rest.1+1,rest.2)

/-- The loop over the chunks: the vectors of data and the chunks as they are advanced. -/
def windowLoop (width : ℕ) : List BufferData→ℕ→ℕ→List (List Sent) × List BufferData
  | [], _, _ => ([],[])
  | d::rest, column, height =>
    if height=0 then ([],d::rest)
    else
      let shown := displayed width d.unflushed column height
      let found := windowLoop width rest shown.2.1 shown.2.2
      ((d.unflushed.take shown.1).map (fun c => ⟨c,true⟩)::found.1,
        {d with sp := d.sp+shown.1}::found.2)

/-- The calls of `writev`, one for each `IOV_MAX` vectors. -/
def batches (iovMax : ℕ) : ℕ→List (List Sent)→List (List (List Sent))
  | 0, _ => []
  | fuel+1, iov =>
    if iov=[] then [] else iov.take iovMax::batches iovMax fuel (iov.drop iovMax)

/-- The loop of the calls: the bytes taken, and whether no call has failed. -/
def sendLoop : List (List (List Sent))→List Answer→Option (List Sent × Bool)
  | [], _ => some ([],true)
  | _::_, [] => none
  | _::_, .fail _::_ => some ([],false)
  | batch::rest, .accept n::kernel =>
    (sendLoop rest kernel).map fun found => (batch.flatten.take n++found.1,found.2)

section

variable (iovMax : Option ℕ+) (b : Buffer) (width height : ℤ) (eraseFlag noMoreFlag : Bool)

/-- The vectors of data and the chunks behind the loop. -/
def windowChunks : List (List Sent) × List BufferData :=
  let height := if height<1 then 1 else if height≥2 then height-1 else height
  let width := if width<1 then 1 else width
  windowLoop width.toNat b.chunks 1 height.toNat

/-- The vectors of the call. The size of their array, `height*(width+2)/size+10`, is left out: it is
an `int` that overflows for windows of nearly 65535 rows and columns. -/
def windowVector : List (List Sent) :=
  (if eraseFlag then [erase] else [])++(windowChunks b width height).1++
    if ((windowChunks b width height).2.getLast?.any fun d => d.sp<d.cp) && !noMoreFlag then [more]
    else []

def windowBatches : List (List (List Sent)) :=
  let iov := windowVector b width height eraseFlag noMoreFlag
  batches (match iovMax with | some n => n | none => iov.length) iov.length iov

structure WindowFlush where
  buffer : Buffer
  /-- The bytes that the kernel has taken. -/
  sent : List Sent
  status : BufferStatus
  deriving DecidableEq

/-- `buffer_flush_window` with the answers of the kernel. -/
def bufferFlushWindow (kernel : List Answer) : Option WindowFlush :=
  if b.chunks=[] then some ⟨b,[],.empty⟩
  else (sendLoop (windowBatches iovMax b width height eraseFlag noMoreFlag) kernel).map fun found =>
      let chunks := (windowChunks b width height).2.dropWhile fun d => d.sp=d.cp
      ⟨{b with chunks},found.1,
        if !found.2 then .error else if chunks=[] then .empty else .pending⟩

end

/-- The kernel takes all the data of every call, and a failing call has none. -/
def TakesData : List (List (List Sent))→List Answer→Prop
  | batch::rest, .accept n::kernel =>
    dataOf (batch.flatten.drop n)=[] ∧ TakesData rest kernel
  | batch::rest, .fail _::_ => dataOf (batch::rest).flatten.flatten=[]
  | _, _ => True

theorem dataOf_append (xs ys : List Sent) : dataOf (xs++ys)=dataOf xs++dataOf ys := by
  simp [dataOf]

theorem dataOf_data (bytes : List Byte) : dataOf (bytes.map fun c => ⟨c,true⟩)=bytes := by
  induction bytes with
  | nil => rfl
  | cons c bytes ih => exact congrArg (c::·) ih

theorem displayed_full (width : ℕ) (bytes : List Byte) (column height : ℕ) :
    (displayed width bytes column height).1=bytes.length ∨
      (displayed width bytes column height).2.2=0 := by
  induction bytes generalizing column height with
  | nil => exact .inl rfl
  | cons c cs ih =>
    rw [displayed]
    split
    · rename_i hheight
      exact .inr hheight
    exact (ih _ _).imp (congrArg (·+1)) id

/-- What is displayed and what stays are the queued bytes. -/
theorem windowLoop_queued (width : ℕ) (chunks : List BufferData) (column height : ℕ) :
    dataOf (windowLoop width chunks column height).1.flatten++
      queuedOf (windowLoop width chunks column height).2=queuedOf chunks := by
  induction chunks generalizing column height with
  | nil => rfl
  | cons d rest ih =>
    rw [windowLoop]
    split
    · rfl
    have hleft (n : ℕ) : ({d with sp := d.sp+n} : BufferData).unflushed=d.unflushed.drop n := by
      simp only [BufferData.unflushed,drop_take,drop_drop]
      congr 1
      omega
    rw [flatten_cons,dataOf_append,dataOf_data,queuedOf_cons,queuedOf_cons,hleft]
    rcases displayed_full width d.unflushed column height with hall|hfull
    · rw [hall,take_length,drop_length,nil_append,append_assoc,ih]
    have hstop : windowLoop width rest (displayed width d.unflushed column height).2.1 0=
        ([],rest) := by
      cases rest <;> rfl
    rw [hfull,hstop]
    simp only [flatten_nil,dataOf,filter_nil,map_nil,append_nil]
    rw [←append_assoc,take_append_drop]

theorem queuedOf_dropWhile (chunks : List BufferData) :
    queuedOf (chunks.dropWhile fun d => d.sp=d.cp)=queuedOf chunks := by
  induction chunks with
  | nil => rfl
  | cons d rest ih =>
    rw [dropWhile_cons]
    split
    · rename_i hdone
      have hnone : d.unflushed=[] := by
        simp [BufferData.unflushed,of_decide_eq_true hdone]
      rw [ih,queuedOf_cons,hnone,nil_append]
    · rfl

theorem flatten_batches {iovMax : ℕ} (hpos : 0 < iovMax) (fuel : ℕ) (iov : List (List Sent))
    (hfuel : iov.length≤fuel) : (batches iovMax fuel iov).flatten=iov := by
  induction fuel generalizing iov with
  | zero => exact (length_eq_zero_iff.mp (Nat.le_zero.mp hfuel)).symm
  | succ fuel ih =>
    rw [batches]
    split
    · rename_i hnil
      exact hnil.symm
    rename_i hne
    have hlen := length_pos_iff.mpr hne
    rw [flatten_cons,ih _ (by rw [length_drop]; omega),take_append_drop]

section

variable {calls : List (List (List Sent))} {kernel : List Answer} {found : List Sent × Bool}
  (hsent : sendLoop calls kernel=some found)
include hsent

/-- No more data is taken than there is, and all of it exactly when every call takes its own. -/
theorem sendLoop_data :
    (dataOf found.1).length≤(dataOf calls.flatten.flatten).length ∧
      (dataOf found.1=dataOf calls.flatten.flatten ↔ TakesData calls kernel) := by
  induction calls generalizing kernel found with
  | nil =>
    cases hsent
    exact ⟨le_rfl,iff_of_true rfl trivial⟩
  | cons batch rest ih =>
    match kernel with
    | [] => cases hsent
    | .fail _::_ =>
      cases hsent
      exact ⟨Nat.zero_le _,eq_comm⟩
    | .accept n::kernel =>
      obtain ⟨found,hrs,rfl⟩ := Option.map_eq_some_iff.mp hsent
      obtain ⟨hle,hiff⟩ := ih hrs
      have hsplit := congrArg dataOf (take_append_drop n batch.flatten)
      rw [dataOf_append] at hsplit
      rw [TakesData,←hiff,flatten_cons,flatten_append,dataOf_append,dataOf_append,←hsplit,
        append_assoc,append_cancel_left_eq]
      refine ⟨by simp only [length_append]; omega,fun hdata => ?_,?_⟩
      · have hlen := congrArg length hdata
        rw [length_append] at hlen
        have hnone : dataOf (batch.flatten.drop n)=[] := length_eq_zero_iff.mp (by omega)
        rw [hnone] at hdata
        exact ⟨hnone,hdata⟩
      · rintro ⟨hnone,hdata⟩
        rw [hnone,hdata,nil_append]

end

/-- The bytes removed are those taken exactly when the kernel takes all it is offered. -/
theorem bufferFlushWindow_delivers_iff (iovMax : Option ℕ+) (b : Buffer) (width height : ℤ)
    (eraseFlag noMoreFlag : Bool) (kernel : List Answer) {r : WindowFlush}
    (hflush : bufferFlushWindow iovMax b width height eraseFlag noMoreFlag kernel=some r) :
    dataOf r.sent++r.buffer.queued=b.queued ↔
      (b.chunks≠[] → TakesData (windowBatches iovMax b width height eraseFlag noMoreFlag)
        kernel) := by
  unfold bufferFlushWindow at hflush
  split at hflush
  · rename_i hnil
    cases hflush
    exact iff_of_true rfl fun hne => absurd hnil hne
  rename_i hne
  obtain ⟨found,hsent,rfl⟩ := Option.map_eq_some_iff.mp hflush
  rw [imp_iff_right hne,←(sendLoop_data hsent).2]
  have hbatches : (windowBatches iovMax b width height eraseFlag noMoreFlag).flatten=
      windowVector b width height eraseFlag noMoreFlag := by
    cases iovMax with
    | some n => exact flatten_batches n.pos _ _ le_rfl
    | none =>
      rcases (windowVector b width height eraseFlag noMoreFlag).eq_nil_or_concat' with hnil|hcons
      · rw [windowBatches,hnil]
        rfl
      refine flatten_batches (length_pos_iff.mpr ?_) _ _ le_rfl
      obtain ⟨xs,x,hx⟩ := hcons
      rw [hx]
      exact append_ne_nil_of_right_ne_nil _ (cons_ne_nil _ _)
  have hplain : dataOf (windowVector b width height eraseFlag noMoreFlag).flatten=
      dataOf (windowChunks b width height).1.flatten := by
    rw [windowVector,flatten_append,flatten_append,dataOf_append,dataOf_append]
    split <;> split <;> simp [dataOf,erase,more]
  have hqueued : b.queued=dataOf (windowChunks b width height).1.flatten++
      queuedOf (windowChunks b width height).2 := (windowLoop_queued _ _ _ _).symm
  change dataOf found.1++queuedOf _=_ ↔ _
  rw [queuedOf_dropWhile,hqueued,append_cancel_right_eq,hbatches,hplain]

def sampleBuffer : Buffer := ⟨[⟨3,0,[97,98,99]⟩],3⟩

theorem bufferFlushWindow_delivers_sample :
    ∃ r, bufferFlushWindow none sampleBuffer 80 24 false false [.accept 3]=some r ∧
      (dataOf r.sent++r.buffer.queued=sampleBuffer.queued ↔ (sampleBuffer.chunks≠[] →
        TakesData (windowBatches none sampleBuffer 80 24 false false) [.accept 3])) :=
  ⟨_,rfl,bufferFlushWindow_delivers_iff none sampleBuffer 80 24 false false [.accept 3] rfl⟩

/-- One character is taken, and the two behind it are lost. -/
theorem bufferFlushWindow_loses :
    (bufferFlushWindow none sampleBuffer 80 24 false false [.accept 1]).map (fun r =>
      (dataOf r.sent,r.buffer.queued,r.status))=some ([97],[],.empty) ∧
    sampleBuffer.queued=[97,98,99] := by
  decide


end RoutePlatform.BufferWindow
