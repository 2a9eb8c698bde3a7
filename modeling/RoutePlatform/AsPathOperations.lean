import RoutePlatform.StreamOperations

/-!
# AS paths of `bgpd/bgp_aspath.c`

Inside the daemon a segment may be longer than the wire format allows; `aspath_put` splits and
packs segments, and `assegments_parse` normalises what it reads. Failed assertions and rejected
input answer nothing.
-/

namespace RoutePlatform.AsPathOperations

open StreamOperations

abbrev AsT := BitVec 32

inductive SegmentType where
  | asSet | asSequence | asConfedSequence | asConfedSet
  deriving DecidableEq, Repr

/-- `AS_SET` and the other type codes. -/
def SegmentType.code : SegmentType→BitVec 8
  | .asSet => 1
  | .asSequence => 2
  | .asConfedSequence => 3
  | .asConfedSet => 4

/-- The check of the type in `assegments_parse`. -/
def SegmentType.ofCode (code : BitVec 8) : Option SegmentType := if code=1 then some .asSet
  else if code=2 then some .asSequence
  else if code=3 then some .asConfedSequence
  else if code=4 then some .asConfedSet
  else none

/-- `struct assegment` without its link. The length is an `u_short`. -/
@[ext] structure Assegment where
  type : SegmentType
  as : List AsT
  fits : as.length<65536
  deriving DecidableEq

/-- The `length` field. -/
def Assegment.length (seg : Assegment) : ℕ := seg.as.length

def asSegmentMax : ℕ := 255

def asHeaderSize : ℕ := 2

def bgpAsTrans : AsT := 23456

def assegmentDataSize (n : ℕ) (use32bit : Bool) : ℕ := n*if use32bit then 4 else 2

def assegmentSize (n : ℕ) (use32bit : Bool) : ℕ := asHeaderSize+assegmentDataSize n use32bit

def assegmentLen (seg : Assegment) (use32bit : Bool) : ℕ := assegmentSize seg.length use32bit

/-- `ASSEGMENT_TYPES_PACKABLE`. -/
def TypesPackable (x y : Assegment) : Prop := x.type=y.type ∧ x.type=.asSequence

/-- `ASSEGMENTS_PACKABLE`. -/
def Packable (x y : Assegment) : Prop := TypesPackable x y ∧ x.length+y.length≤asSegmentMax

instance decidableTypesPackable (x y : Assegment) : Decidable (TypesPackable x y) :=
  inferInstanceAs (Decidable (_ ∧ _))

instance decidablePackable (x y : Assegment) : Decidable (Packable x y) :=
  inferInstanceAs (Decidable (_ ∧ _))

/-- A segment with these AS numbers, whose length is cut to the field. -/
def assegmentNew (type : SegmentType) (as : List AsT) : Assegment where
  type := type
  as := as.take (as.length%65536)
  fits := by
    rw [List.length_take]
    exact (min_le_left _ _).trans_lt (Nat.mod_lt _ (by decide))

theorem length_assegmentNew (type : SegmentType) (as : List AsT) :
    (assegmentNew type as).length=as.length%65536 := by
  rw [assegmentNew,Assegment.length,List.length_take]
  exact min_eq_left (Nat.mod_le _ _)

def assegmentAppendAsns (seg : Assegment) (asnos : List AsT) : Assegment :=
  assegmentNew seg.type (seg.as++asnos)

/-- Weed out equal neighbours; `last` is the number kept last. -/
def weedOutDupes (last : AsT) : List AsT→List AsT
  | [] => [last]
  | a::as => if last=a then weedOutDupes last as else last::weedOutDupes a as

theorem length_weedOutDupes (last : AsT) (as : List AsT) :
    (weedOutDupes last as).length≤as.length+1 := by
  induction as generalizing last with
  | nil => exact le_rfl
  | cons a as ih =>
    rw [weedOutDupes]
    split
    · exact (ih last).trans (Nat.le_succ _)
    · exact Nat.succ_le_succ (ih a)

/-- The AS numbers of a set, sorted and without duplicates. -/
def sortAsns (as : List AsT) : List AsT :=
  match as.insertionSort (· ≤ ·) with
  | [] => []
  | a::rest => weedOutDupes a rest

theorem length_sortAsns (as : List AsT) : (sortAsns as).length≤as.length := by
  have hlen := List.length_insertionSort (· ≤ ·) as
  unfold sortAsns
  cases hs : as.insertionSort (· ≤ ·) with
  | nil => exact Nat.zero_le _
  | cons a rest =>
    rw [hs,List.length_cons] at hlen
    exact (length_weedOutDupes a rest).trans hlen.le

/-- `assegment_normalise` sorts the sets. -/
def sortSet (seg : Assegment) : Assegment :=
  if seg.type=.asSet ∨ seg.type=.asConfedSet then
    {seg with
      as := sortAsns seg.as
      fits := (length_sortAsns seg.as).trans_lt seg.fits}
  else seg

/-- The loops of `assegment_normalise` from a pinned segment on. -/
def normaliseLoop (pin : Assegment) : List Assegment→List Assegment
  | [] => [pin]
  | seg::rest =>
    if TypesPackable pin seg then normaliseLoop (assegmentAppendAsns pin seg.as) rest
    else pin::normaliseLoop (sortSet seg) rest

def assegmentNormalise : List Assegment→List Assegment
  | [] => []
  | seg::rest => normaliseLoop (sortSet seg) rest

/-- What is written for an AS number when only 16 bits are used. -/
def as16Of (a : AsT) : AsT := if a.toNat≤65535 then a else bgpAsTrans

/-- One round of the loop of `assegment_data_put`. -/
def putAsn (use32bit : Bool) (s : Stream) (a : AsT) : Option Stream :=
  if use32bit then streamPutl s a else streamPutw s ((as16Of a).setWidth 16)

/-- The loop of `assegment_data_put`. -/
def dataPutLoop (use32bit : Bool) : Stream→List AsT→Option Stream
  | s, [] => some s
  | s, a::as => (putAsn use32bit s a).bind fun s => dataPutLoop use32bit s as

def assegmentDataPut (s : Stream) (as : List AsT) (use32bit : Bool) : Option Stream :=
  if as.length≤asSegmentMax then dataPutLoop use32bit s as else none

/-- `assegment_header_put`; the result is the position of the length. -/
def assegmentHeaderPut (s : Stream) (type : SegmentType) (length : ℕ) : Option (Stream × ℕ) :=
  if length≤asSegmentMax then do
    let s ← streamPutc s type.code
    let lenp := s.endp
    let s ← streamPutc s (BitVec.ofNat 8 length)
    some (s,lenp)
  else none

/-- The loop of `aspath_put` that splits a segment and counts all bytes so far each time. -/
def splitLoop (seg : Assegment) (use32bit : Bool) : ℕ→Stream→ℕ→ℕ→Option (Stream × ℕ × ℕ)
  | 0, _, _, _ => none
  | fuel+1, s, written, bytes =>
    if seg.length-written > asSegmentMax then do
      let (s,_) ← assegmentHeaderPut s seg.type asSegmentMax
      let s ← assegmentDataPut s (seg.as.take asSegmentMax) use32bit
      let written := written+asSegmentMax
      splitLoop seg use32bit fuel s written (bytes+assegmentSize written use32bit)
    else some (s,written,bytes)

/-- The loop of `aspath_put` that packs the following sequences. -/
def packLoop (seg : Assegment) (use32bit : Bool) (lenp written : ℕ) :
    Stream→ℕ→List Assegment→Option (Stream × ℕ × List Assegment)
  | s, asnsPacked, [] => some (s,asnsPacked,[])
  | s, asnsPacked, next::rest =>
    if Packable seg next then do
      let s ← assegmentDataPut s next.as use32bit
      let s ← streamPutcAt s lenp (BitVec.ofNat 8 (seg.length-written+next.length))
      packLoop seg use32bit lenp written s (asnsPacked+next.length) rest
    else some (s,asnsPacked,next::rest)

/-- The outer loop of `aspath_put`. -/
def putLoop (use32bit : Bool) : ℕ→Stream→List Assegment→ℕ→Option (Stream × ℕ)
  | 0, _, _, _ => none
  | _+1, s, [], bytes => some (s,bytes)
  | fuel+1, s, seg::next, bytes =>
    if assegmentLen seg use32bit ≤ s.writeable then do
      let (s,written,bytes) ← splitLoop seg use32bit (seg.length/asSegmentMax+1) s 0 bytes
      let (s,lenp) ← assegmentHeaderPut s seg.type (seg.length-written)
      let s ← assegmentDataPut s (seg.as.drop written) use32bit
      let (s,asnsPacked,next) ← packLoop seg use32bit lenp written s 0 next
      putLoop use32bit fuel s next (bytes+assegmentSize (seg.length-written+asnsPacked) use32bit)
    else some (s,bytes)

/-- `aspath_put`: the stream and the number of bytes it reports. -/
def aspathPut (s : Stream) (segments : List Assegment) (use32bit : Bool) : Option (Stream × ℕ) :=
  match segments with
  | [] => some (s,0)
  | seg::_ =>
    if seg.length=0 then some (s,0)
    else putLoop use32bit (segments.length+1) s segments 0

def getAsn (use32bit : Bool) (s : Stream) : Option (AsT × Stream) := if use32bit then streamGetl s
  else (streamGetw s).map fun r => (r.1.setWidth 32,r.2)

/-- The AS numbers of a segment. -/
def getAsns (use32bit : Bool) : ℕ→Stream→Option (List AsT × Stream)
  | 0, s => some ([],s)
  | n+1, s => do
    let (a,s) ← getAsn use32bit s
    let (as,s) ← getAsns use32bit n s
    some (a::as,s)

/-- The loop of `assegments_parse`. -/
def parseLoop (use32bit : Bool) (length : ℕ) : ℕ→Stream→ℕ→Option (List Assegment)
  | 0, _, _ => none
  | fuel+1, s, bytes =>
    if bytes<length then
      if length-bytes≤asHeaderSize then none
      else do
        let (type,s) ← streamGetc s
        let (len,s) ← streamGetc s
        let segSize := assegmentSize len.toNat use32bit
        if bytes+segSize > length ∨ len.toNat=0 then none
        else do
          let type ← SegmentType.ofCode type
          let (as,s) ← getAsns use32bit len.toNat s
          let rest ← parseLoop use32bit length fuel s (bytes+segSize)
          some (assegmentNew type as::rest)
    else some []

def assegmentsParse (s : Stream) (length : ℕ) (use32bit : Bool) : Option (List Assegment) :=
  if length=0 then some []
  else if s.readable<length ∨ s.readable<asHeaderSize ∨ length%2≠0 then none
  else (parseLoop use32bit length (length+1) s 0).map assegmentNormalise

end RoutePlatform.AsPathOperations
