import Mathlib

/-!
# Byte streams of `lib/stream.c`

A stream is a buffer of fixed size with a position for writing and one for reading. The checks
`STREAM_VERIFY_SANE` hold by the type; functions whose bound checks fail answer nothing. Bytes
behind the end position are left out.
-/

namespace RoutePlatform.StreamOperations

open List Option

variable {ys : List (BitVec 8)}

@[ext] structure Stream where
  /-- The bytes written so far. -/
  data : List (BitVec 8)
  getp : ℕ
  size : ℕ
  getp_le : getp≤data.length
  endp_le : data.length ≤ size

namespace Stream

variable (s : Stream)

def endp : ℕ := s.data.length

/-- `STREAM_WRITEABLE`. -/
def writeable : ℕ := s.size-s.endp

/-- `STREAM_READABLE`. -/
def readable : ℕ := s.endp-s.getp

/-- The stream with more bytes, when there is room for them. -/
def append (bytes : List (BitVec 8)) (h : bytes.length ≤ s.writeable) : Stream where
  data := s.data++bytes
  getp := s.getp
  size := s.size
  getp_le := by
    rw [length_append]
    exact s.getp_le.trans (Nat.le_add_right _ _)
  endp_le := by
    have hle := s.endp_le
    unfold writeable endp at h
    rw [length_append]
    omega

def put (bytes : List (BitVec 8)) : Option Stream :=
  if h : bytes.length ≤ s.writeable then some (s.append bytes h) else none

def get (n : ℕ) : Option (List (BitVec 8) × Stream) :=
  if h : n ≤ s.readable then
    some ((s.data.drop s.getp).take n, {s with
      getp := s.getp+n
      getp_le := by
        have hle := s.getp_le
        unfold readable endp at h
        omega})
  else none

end Stream

def streamNew (size : ℕ) : Stream := ⟨[],0,size,Nat.zero_le _,Nat.zero_le _⟩

/-- A stream that holds these bytes. -/
def streamOf (v : List (BitVec 8)) : Stream := ⟨v,0,v.length,Nat.zero_le _,le_rfl⟩

def streamSetGetp (s : Stream) (pos : ℕ) : Option Stream :=
  if h : pos ≤ s.data.length then some {s with getp := pos,getp_le := h} else none

/-- `stream_forward_getp`, after which the position stays when there is not so much to read. -/
def streamForwardGetp (s : Stream) (size : ℕ) : Stream := (streamSetGetp s (s.getp+size)).getD s

/-- The bytes of a long word. -/
def bytes32 (l : BitVec 32) : List (BitVec 8) :=
  [(l >>> 24).setWidth 8,(l >>> 16).setWidth 8,(l >>> 8).setWidth 8,l.setWidth 8]

def streamPutc (s : Stream) (c : BitVec 8) : Option Stream := s.put [c]

def streamPutw (s : Stream) (w : BitVec 16) : Option Stream :=
  s.put [(w >>> 8).setWidth 8,w.setWidth 8]

def streamPutl (s : Stream) (l : BitVec 32) : Option Stream :=
  s.put (bytes32 l)

def streamPutcAt (s : Stream) (putp : ℕ) (c : BitVec 8) : Option Stream :=
  if putp+1 ≤ s.endp then
    some {s with
      data := s.data.set putp c
      getp_le := by
        rw [length_set]
        exact s.getp_le
      endp_le := by
        rw [length_set]
        exact s.endp_le}
  else none

def streamGetc (s : Stream) : Option (BitVec 8 × Stream) :=
  match s.get 1 with
  | some ([c],s) => some (c,s)
  | _ => none

def streamGetw (s : Stream) : Option (BitVec 16 × Stream) :=
  match s.get 2 with
  | some ([b0,b1],s) => some (b0.setWidth 16 <<< 8 ||| b1.setWidth 16,s)
  | _ => none

def streamGetl (s : Stream) : Option (BitVec 32 × Stream) :=
  match s.get 4 with
  | some ([b0,b1,b2,b3],s) =>
    some (b0.setWidth 32 <<< 24 ||| b1.setWidth 32 <<< 16 ||| b2.setWidth 32 <<< 8 |||
      b3.setWidth 32,s)
  | _ => none

section

variable {s s' s1 s2 : Stream} {xs ys : List (BitVec 8)}

section

variable (h : s.put xs=some s')
include h

theorem put_eq_some :
    s'.data=s.data++xs ∧ s'.getp=s.getp ∧ s'.size=s.size ∧ xs.length ≤ s.writeable := by
  unfold Stream.put at h
  split at h
  · cases h
    exact ⟨rfl,rfl,rfl,by assumption⟩
  · cases h

theorem endp_of_put : s'.endp=s.endp+xs.length := by
  rw [Stream.endp,(put_eq_some h).1,length_append]
  rfl

theorem writeable_of_put : s'.writeable=s.writeable-xs.length := by
  rw [Stream.writeable,(put_eq_some h).2.2.1,endp_of_put h,Stream.writeable]
  omega

end

theorem exists_put (h : xs.length ≤ s.writeable) : ∃ s', s.put xs=some s' := ⟨_,dif_pos h⟩

@[simp] theorem put_nil (s : Stream) : s.put []=some s := by
  have hroom : ([] : List (BitVec 8)).length ≤ s.writeable := Nat.zero_le _
  rw [Stream.put,dif_pos hroom]
  exact congrArg some (Stream.ext (append_nil _) rfl rfl)

/-- Bytes put one after the other are put together. -/
theorem put_append (s : Stream) (xs ys : List (BitVec 8)) :
    s.put (xs++ys)=(s.put xs).bind fun s' => s'.put ys := by
  by_cases hx : xs.length ≤ s.writeable
  · obtain ⟨s',hs'⟩ := exists_put hx
    rw [hs',bind_some]
    have hroom := writeable_of_put hs'
    unfold Stream.put
    by_cases hy : ys.length ≤ s'.writeable
    · have hxy : (xs++ys).length ≤ s.writeable := by
        rw [length_append]
        omega
      rw [dif_pos hy,dif_pos hxy]
      obtain ⟨hdata,hgetp,hsize,-⟩ := put_eq_some hs'
      refine congrArg some (Stream.ext ?_ hgetp.symm hsize.symm)
      change s.data++(xs++ys)=s'.data++ys
      rw [hdata,append_assoc]
    have hxy : ¬(xs++ys).length ≤ s.writeable := by
      rw [length_append]
      omega
    rw [dif_neg hy,dif_neg hxy]
  · have hxy : ¬(xs++ys).length ≤ s.writeable := by
      rw [length_append]
      omega
    rw [Stream.put,dif_neg hxy,Stream.put,dif_neg hx,bind_none]

theorem put_trans (h1 : s.put xs=some s1) (h2 : s1.put ys=some s2) : s.put (xs++ys)=some s2 := by
  rw [put_append,h1,bind_some,h2]

/-- A byte among those that were put is overwritten. -/
theorem putcAt_of_put {c c' : BitVec 8} (h : s.put (xs++c::ys)=some s') :
    ∃ s'', streamPutcAt s' (s.endp+xs.length) c'=some s'' ∧ s.put (xs++c'::ys)=some s'' := by
  obtain ⟨hdata,hgetp,hsize,hroom⟩ := put_eq_some h
  have hin : s.endp+xs.length+1 ≤ s'.endp := by
    rw [endp_of_put h,length_append,length_cons]
    omega
  have hroom' : (xs++c'::ys).length ≤ s.writeable := by
    rw [length_append,length_cons] at hroom ⊢
    exact hroom
  obtain ⟨s'',hs''⟩ := exists_put hroom'
  refine ⟨s'',?_,hs''⟩
  obtain ⟨hdata',hgetp',hsize',-⟩ := put_eq_some hs''
  rw [streamPutcAt,if_pos hin]
  refine congrArg some (Stream.ext ?_ (hgetp.trans hgetp'.symm) (hsize.trans hsize'.symm))
  have hset : ((s.data++xs)++c::ys).set ((s.data++xs).length+0) c' = (s.data++xs)++c'::ys := by
    rw [set_append_right _ _ (Nat.le_add_right _ _),Nat.add_sub_cancel_left,set_cons_zero]
  rw [length_append,add_zero,append_assoc,append_assoc] at hset
  change s'.data.set (s.endp+xs.length) c'=s''.data
  rw [hdata,hdata']
  exact hset

end

section

/-- The bytes still to be read. -/
def Stream.rest (s : Stream) : List (BitVec 8) := s.data.drop s.getp

variable {s : Stream}

theorem length_rest (s : Stream) : s.rest.length=s.readable := length_drop

theorem get_append {xs : List (BitVec 8)} (h : s.rest=xs++ys) :
    ∃ s', s.get xs.length=some (xs,s') ∧ s'.rest=ys := by
  have hlen : xs.length ≤ s.readable := by
    rw [←length_rest,h,length_append]
    exact Nat.le_add_right _ _
  rw [Stream.get,dif_pos hlen]
  refine ⟨_,congrArg some (Prod.ext ?_ rfl),?_⟩
  · change s.rest.take xs.length=xs
    rw [h,take_left]
  change s.data.drop (s.getp+xs.length)=ys
  rw [←drop_drop]
  change s.rest.drop xs.length=ys
  rw [h,drop_left]

theorem getLsbD_byte {n : ℕ} (x : BitVec n) (k i : ℕ) (hi : i<n) :
    ((((x >>> k).setWidth 8).setWidth n) <<< k).getLsbD i =
      (decide (k ≤ i ∧ i<k+8) && x.getLsbD i) := by
  rw [BitVec.getLsbD_shiftLeft,BitVec.getLsbD_setWidth,BitVec.getLsbD_setWidth,
    BitVec.getLsbD_ushiftRight]
  by_cases hk : k ≤ i
  · have hadd : k+(i-k)=i := by omega
    have hn : i-k<n := by omega
    have h8 : i-k<8 ↔ i<k+8 := by omega
    have hnot : ¬i<k := by omega
    rw [hadd]
    simp only [hi,hnot,hn,h8,hk,decide_true,decide_false,Bool.not_false,Bool.true_and,true_and]
  have hlt : i<k := by omega
  simp only [hi,hlt,hk,decide_true,decide_false,Bool.not_true,Bool.and_false,
    Bool.false_and,false_and]

theorem bytes_join16 (w : BitVec 16) :
    ((w >>> 8).setWidth 8).setWidth 16 <<< 8 ||| (w.setWidth 8).setWidth 16=w := by
  have h0 : (w.setWidth 8).setWidth 16=((w >>> 0).setWidth 8).setWidth 16 <<< 0 := by simp
  rw [h0]
  apply BitVec.eq_of_getLsbD_eq
  intro i hi
  rw [BitVec.getLsbD_or,getLsbD_byte w 8 i hi,getLsbD_byte w 0 i hi,←Bool.and_or_distrib_right,
    ← Bool.decide_or]
  have hcover : 8 ≤ i ∧ i<8+8 ∨ 0 ≤ i ∧ i<0+8 := by omega
  rw [decide_eq_true hcover,Bool.true_and]

theorem bytes_join32 (l : BitVec 32) :
    ((l >>> 24).setWidth 8).setWidth 32 <<< 24 ||| ((l >>> 16).setWidth 8).setWidth 32 <<< 16 |||
      ((l >>> 8).setWidth 8).setWidth 32 <<< 8 ||| (l.setWidth 8).setWidth 32=l := by
  have h0 : (l.setWidth 8).setWidth 32=((l >>> 0).setWidth 8).setWidth 32 <<< 0 := by simp
  rw [h0]
  apply BitVec.eq_of_getLsbD_eq
  intro i hi
  rw [BitVec.getLsbD_or,BitVec.getLsbD_or,BitVec.getLsbD_or,getLsbD_byte l 24 i hi,
    getLsbD_byte l 16 i hi,getLsbD_byte l 8 i hi,getLsbD_byte l 0 i hi,
    ← Bool.and_or_distrib_right,←Bool.and_or_distrib_right,←Bool.and_or_distrib_right,
    ← Bool.decide_or,←Bool.decide_or,←Bool.decide_or]
  have hcover : (((24 ≤ i ∧ i<24+8) ∨ 16 ≤ i ∧ i<16+8) ∨ 8 ≤ i ∧ i<8+8) ∨ 0 ≤ i ∧ i<0+8 := by omega
  rw [decide_eq_true hcover,Bool.true_and]

theorem streamGetc_cons {c : BitVec 8} (h : s.rest=c::ys) :
    ∃ s', streamGetc s=some (c,s') ∧ s'.rest=ys := by
  have hcut : s.rest=[c]++ys := h
  obtain ⟨s',hget,hrs⟩ := get_append hcut
  have hget' : s.get 1=some ([c],s') := hget
  exact ⟨s',by rw [streamGetc,hget'],hrs⟩

theorem streamGetw_append {w : BitVec 16} (h : s.rest=[(w >>> 8).setWidth 8,w.setWidth 8]++ys) :
    ∃ s', streamGetw s=some (w,s') ∧ s'.rest=ys := by
  obtain ⟨s',hget,hrs⟩ := get_append h
  have hget' : s.get 2=some ([(w >>> 8).setWidth 8,w.setWidth 8],s') := hget
  refine ⟨s',?_,hrs⟩
  rw [streamGetw,hget']
  dsimp only
  rw [bytes_join16]

theorem streamGetl_append {l : BitVec 32}
    (h : s.rest=[(l >>> 24).setWidth 8,(l >>> 16).setWidth 8,(l >>> 8).setWidth 8,
      l.setWidth 8]++ys) :
    ∃ s', streamGetl s=some (l,s') ∧ s'.rest=ys := by
  obtain ⟨s',hget,hrs⟩ := get_append h
  have hget' : s.get 4=some ([(l >>> 24).setWidth 8,(l >>> 16).setWidth 8,
      (l >>> 8).setWidth 8,l.setWidth 8],s') := hget
  refine ⟨s',?_,hrs⟩
  rw [streamGetl,hget']
  dsimp only
  rw [bytes_join32]

end

end RoutePlatform.StreamOperations
