import RoutePlatform.AttrOperations

/-!
# Reading within an attribute

As long as the bytes are there, a read gives the next ones and skips them, and
what `aspath_parse` makes of an attribute depends on the bytes of the
attribute only.
-/

namespace RoutePlatform.AttrReading

open StreamOperations AsPathOperations AsPathSynthesis AttrOperations List Option

variable {s : Stream} {use32bit : Bool} (n : ℕ) {v ys : List (BitVec 8)}

/-- The stream behind its next bytes. -/
def skip (s : Stream) (n : ℕ) : Stream where
  data := s.data
  getp := min (s.getp+n) s.data.length
  size := s.size
  getp_le := min_le_right _ _
  endp_le := s.endp_le

section

variable {s : Stream} {m n : ℕ}

@[simp] theorem skip_data (s : Stream) (n : ℕ) : (skip s n).data=s.data := rfl

theorem skip_getp (h : n ≤ s.readable) : (skip s n).getp=s.getp+n := by
  have hle := s.getp_le
  unfold Stream.readable Stream.endp at h
  dsimp only [skip]
  omega

@[simp] theorem skip_readable (s : Stream) (n : ℕ) : (skip s n).readable=s.readable-n := by
  unfold Stream.readable Stream.endp
  dsimp only [skip]
  omega

@[simp] theorem skip_skip (s : Stream) (m n : ℕ) : skip (skip s m) n=skip s (m+n) := by
  refine Stream.ext rfl ?_ rfl
  dsimp only [skip]
  omega

theorem skip_zero (s : Stream) : skip s 0=s := by
  have hle := s.getp_le
  refine Stream.ext rfl ?_ rfl
  dsimp only [skip]
  omega

theorem rest_skip (s : Stream) (n : ℕ) : (skip s n).rest=s.rest.drop n := by
  rw [Stream.rest,Stream.rest,drop_drop,skip_data]
  dsimp only [skip]
  rcases le_total (s.getp+n) s.data.length with hle|hle
  · rw [min_eq_left hle]
  · rw [min_eq_right hle,drop_length,drop_eq_nil_of_le hle]

theorem get_eq_skip (h : n ≤ s.readable) : s.get n=some (s.rest.take n,skip s n) := by
  rw [Stream.get,dif_pos h]
  refine congrArg some (Prod.ext rfl (Stream.ext rfl ?_ rfl))
  exact (skip_getp h).symm

theorem streamForwardGetp_eq (h : n ≤ s.readable) : streamForwardGetp s n=skip s n := by
  have hle := s.getp_le
  have hpos : s.getp+n ≤ s.data.length := by
    unfold Stream.readable Stream.endp at h
    omega
  rw [streamForwardGetp,streamSetGetp,dif_pos hpos]
  exact Stream.ext rfl (skip_getp h).symm rfl

theorem streamPutcAt_getD {putp : ℕ} (h : putp+1 ≤ s.endp) (c : BitVec 8) :
    ((streamPutcAt s putp c).getD s).data=s.data.set putp c ∧
      ((streamPutcAt s putp c).getD s).getp=s.getp := by
  rw [streamPutcAt,if_pos h]
  exact ⟨rfl,rfl⟩

theorem take_one {xs : List (BitVec 8)} (h : 1≤xs.length) : xs.take 1=[xs.getD 0 0] := by
  cases xs with
  | nil => cases h
  | cons x xs => rfl

theorem streamGetc_eq (h : 1 ≤ s.readable) : streamGetc s=some (s.rest.getD 0 0,skip s 1) := by
  have hlen : 1 ≤ s.rest.length := by rwa [length_rest]
  rw [streamGetc,get_eq_skip h,take_one hlen]

theorem streamGetw_eq (h : 2 ≤ s.readable) :
    streamGetw s=some (word16 (s.rest.take 2),skip s 2) := by
  have hlen : (s.rest.take 2).length=2 := by
    rw [length_take,length_rest]
    omega
  obtain ⟨b0,b1,hb⟩ := length_eq_two.mp hlen
  rw [streamGetw,get_eq_skip h,hb]
  rfl

theorem streamGetl_eq (h : 4 ≤ s.readable) :
    streamGetl s=some (word32 (s.rest.take 4),skip s 4) := by
  have hlen : (s.rest.take 4).length=4 := by
    rw [length_take,length_rest]
    omega
  match hb : s.rest.take 4, hlen with
  | [b0,b1,b2,b3], _ =>
    rw [streamGetl,get_eq_skip h,hb]
    rfl

end

/-- The state behind the next bytes of the buffer. -/
def skipState (s : AttrState) (n : ℕ) : AttrState := {s with ibuf := skip s.ibuf n}

section

variable {s : AttrState} {n : ℕ}

@[simp] theorem skipState_ibuf (s : AttrState) (n : ℕ) : (skipState s n).ibuf=skip s.ibuf n := rfl

@[simp] theorem skipState_skipState (s : AttrState) (m n : ℕ) :
    skipState (skipState s m) n=skipState s (m+n) := by
  rw [skipState,skipState,skipState,skip_skip]

theorem getc_eq (h : 1 ≤ s.ibuf.readable) : s.getc=(s.ibuf.rest.getD 0 0,skipState s 1) := by
  rw [AttrState.getc,streamGetc_eq h]
  rfl

theorem getw_eq (h : 2 ≤ s.ibuf.readable) : s.getw=(word16 (s.ibuf.rest.take 2),skipState s 2) := by
  rw [AttrState.getw,streamGetw_eq h]
  rfl

theorem getl_eq (h : 4 ≤ s.ibuf.readable) : s.getl=(word32 (s.ibuf.rest.take 4),skipState s 4) := by
  rw [AttrState.getl,streamGetl_eq h]
  rfl

theorem get_eq {old : List (BitVec 8)} (h : n ≤ s.ibuf.readable) :
    s.get old n=(s.ibuf.rest.take n,skipState s n) := by
  rw [AttrState.get,get_eq_skip h]
  rfl

theorem forwardGetp_eq (h : n ≤ s.ibuf.readable) : s.forwardGetp n=skipState s n := by
  rw [AttrState.forwardGetp,streamForwardGetp_eq h]
  rfl

end

section

variable {s s' : Stream} {use32bit : Bool}

theorem get_data {n : ℕ} {bytes : List (BitVec 8)} (h : s.get n=some (bytes,s')) :
    s'.data=s.data := by
  unfold Stream.get at h
  split at h
  · cases h
    rfl
  · cases h

theorem streamGetc_data {c : BitVec 8} (h : streamGetc s=some (c,s')) : s'.data=s.data := by
  unfold streamGetc at h
  split at h
  · rename_i hget
    cases h
    exact get_data hget
  · cases h

theorem streamGetw_data {w : BitVec 16} (h : streamGetw s=some (w,s')) : s'.data=s.data := by
  unfold streamGetw at h
  split at h
  · rename_i hget
    cases h
    exact get_data hget
  · cases h

theorem streamGetl_data {l : BitVec 32} (h : streamGetl s=some (l,s')) : s'.data=s.data := by
  unfold streamGetl at h
  split at h
  · rename_i hget
    cases h
    exact get_data hget
  · cases h

theorem getAsn_data {a : AsT} (h : getAsn use32bit s=some (a,s')) : s'.data=s.data := by
  cases use32bit with
  | true => exact streamGetl_data h
  | false =>
    have hstep : getAsn false s=(streamGetw s).map fun r => (r.1.setWidth 32,r.2) := rfl
    rw [hstep,map_eq_some_iff] at h
    obtain ⟨⟨w,s1⟩,hget,heq⟩ := h
    cases heq
    exact streamGetw_data hget

theorem getAsns_data {as : List AsT} (h : getAsns use32bit n s=some (as,s')) : s'.data=s.data := by
  induction n generalizing s as with
  | zero =>
    cases h
    rfl
  | succ n ih =>
    rw [getAsns] at h
    simp only [bind_eq_bind,bind_eq_some_iff] at h
    obtain ⟨⟨a,s1⟩,hget,⟨rest,s2⟩,hgets,heq⟩ := h
    cases heq
    exact (ih hgets).trans (getAsn_data hget)

theorem parseStop_data (length fuel : ℕ) (s : Stream) (bytes : ℕ) :
    (parseStop use32bit length fuel s bytes).data=s.data := by
  induction fuel generalizing s bytes with
  | zero => rfl
  | succ fuel ih =>
    rw [parseStop]
    split
    · split
      · rfl
      split
      · rfl
      rename_i type s1 h1
      split
      · exact streamGetc_data h1
      rename_i len s2 h2
      have hdata := (streamGetc_data h2).trans (streamGetc_data h1)
      split
      · exact hdata
      split
      · rename_i s3 _ h3
        exact ((ih _ _).trans (getAsns_data _ h3)).trans hdata
      · exact hdata
    · rfl

theorem aspathParse_data (use32bit : Bool) (s : Stream) (length : ℕ) :
    (aspathParse s length use32bit).2.data=s.data := by
  unfold aspathParse
  split
  · rfl
  split
  · rfl
  · exact parseStop_data _ _ _ _

end

/-- The bytes of one AS number. -/
def asnSize (use32bit : Bool) : ℕ := if use32bit then 4 else 2

/-- The AS numbers that start a list of bytes. -/
def asnsOf (use32bit : Bool) : ℕ→List (BitVec 8)→List AsT
  | 0, _ => []
  | n+1, bytes =>
    (if use32bit then word32 (bytes.take 4) else (word16 (bytes.take 2)).setWidth 32) ::
      asnsOf use32bit n (bytes.drop (asnSize use32bit))

theorem getAsn_eq (h : s.rest=v++ys) (hlen : asnSize use32bit≤v.length) :
    getAsn use32bit s=some (if use32bit then word32 (v.take 4)
      else (word16 (v.take 2)).setWidth 32,skip s (asnSize use32bit)) := by
  have hread : asnSize use32bit ≤ s.readable := by
    rw [←length_rest,h,length_append]
    omega
  have htake (k : ℕ) (hk : k≤v.length) : s.rest.take k=v.take k := by
    rw [h,take_append_of_le_length hk]
  cases use32bit with
  | true =>
    have hget := streamGetl_eq hread
    rw [htake 4 hlen] at hget
    exact hget
  | false =>
    have hget := streamGetw_eq hread
    rw [htake 2 hlen] at hget
    have hstep : getAsn false s=(streamGetw s).map fun r => (r.1.setWidth 32,r.2) := rfl
    rw [hstep,hget]
    rfl

theorem getAsns_eq (h : s.rest=v++ys) (hlen : assegmentDataSize n use32bit≤v.length) :
    getAsns use32bit n s = some (asnsOf use32bit n v,skip s (assegmentDataSize n use32bit)) := by
  induction n generalizing s v with
  | zero =>
    have hsize : assegmentDataSize 0 use32bit=0 := zero_mul _
    rw [hsize,skip_zero]
    rfl
  | succ n ih =>
    have hsize : assegmentDataSize (n+1) use32bit =
        asnSize use32bit+assegmentDataSize n use32bit := by
      rw [assegmentDataSize,Nat.succ_mul,add_comm]
      rfl
    rw [hsize] at hlen ⊢
    have hfst : asnSize use32bit≤v.length := by omega
    have hrs : (skip s (asnSize use32bit)).rest=v.drop (asnSize use32bit)++ys := by
      rw [rest_skip,h,drop_append_of_le_length hfst]
    have hlen' : assegmentDataSize n use32bit≤(v.drop (asnSize use32bit)).length := by
      rw [length_drop]
      omega
    rw [getAsns,getAsn_eq h hfst]
    simp only [bind_eq_bind,bind_some]
    rw [ih hrs hlen',bind_some,skip_skip]
    rfl

/-- `assegments_parse` does not depend on what follows its bytes, and skips them all if it accepts
them. -/
theorem parseLoop_value (use32bit : Bool) (length fuel : ℕ) :
    ∀ (v : List (BitVec 8)) (bytes : ℕ), bytes+v.length=length →
      ∃ r, ∀ (s : Stream) (ys : List (BitVec 8)), s.rest=v++ys →
        parseLoop use32bit length fuel s bytes=r ∧
          (r.isSome → parseStop use32bit length fuel s bytes=skip s v.length) := by
  induction fuel with
  | zero => exact fun v bytes _ => ⟨none,fun s ys _ => ⟨rfl,nofun⟩⟩
  | succ fuel ih =>
    intro v bytes hlen
    by_cases hgo : bytes<length
    · by_cases hhdr : length-bytes≤asHeaderSize
      · refine ⟨none,fun s ys _ => ⟨?_,nofun⟩⟩
        rw [parseLoop,if_pos hgo,if_pos hhdr]
      match v, hlen with
      | [], hlen => exact absurd hlen (by simp only [length_nil]; omega)
      | [_], hlen =>
        exact absurd hlen (by simp only [length_singleton,asHeaderSize] at hhdr ⊢; omega)
      | type::len::v, hlen =>
        have hlen' : bytes+(v.length+2)=length := hlen
        by_cases hsize : bytes+assegmentSize len.toNat use32bit > length ∨ len.toNat=0
        · refine ⟨none,fun s ys hrs => ⟨?_,nofun⟩⟩
          have hcut : s.rest=type::(len::(v++ys)) := hrs
          obtain ⟨s1,h1,hrs1⟩ := streamGetc_cons hcut
          obtain ⟨s2,h2,-⟩ := streamGetc_cons hrs1
          rw [parseLoop,if_pos hgo,if_neg hhdr]
          simp only [bind_eq_bind,h1,h2,bind_some]
          rw [if_pos hsize]
        have hdata : assegmentDataSize len.toNat use32bit≤v.length := by
          unfold assegmentSize asHeaderSize at hsize
          omega
        have hnext : bytes+assegmentSize len.toNat use32bit +
            (v.drop (assegmentDataSize len.toNat use32bit)).length=length := by
          rw [length_drop]
          unfold assegmentSize asHeaderSize
          omega
        obtain ⟨r,hr⟩ := ih _ _ hnext
        -- the two bytes of the header and the AS numbers are skipped
        have hreads (s : Stream) (ys : List (BitVec 8)) (hrs : s.rest=type::len::v++ys) :
            streamGetc s=some (type,skip s 1) ∧ streamGetc (skip s 1)=some (len,skip s 2) ∧
              getAsns use32bit len.toNat (skip s 2)=some (asnsOf use32bit len.toNat v,
                skip s (2+assegmentDataSize len.toNat use32bit)) ∧
              (skip s (2+assegmentDataSize len.toNat use32bit)).rest =
                v.drop (assegmentDataSize len.toNat use32bit)++ys := by
          have hreadable : v.length+2 ≤ s.readable := by
            rw [←length_rest,hrs]
            simp only [length_append,length_cons]
            omega
          have h1 := streamGetc_eq (s := s) (by omega)
          have h2 := streamGetc_eq (s := skip s 1) (by rw [skip_readable]; omega)
          rw [hrs] at h1
          rw [rest_skip,hrs,skip_skip] at h2
          have hrs2 : (skip s 2).rest=v++ys := by
            rw [rest_skip,hrs]
            rfl
          have h3 := getAsns_eq len.toNat hrs2 hdata
          rw [skip_skip] at h3
          refine ⟨h1,h2,h3,?_⟩
          rw [←skip_skip,rest_skip,hrs2,drop_append_of_le_length hdata]
        cases hty : SegmentType.ofCode type with
        | none =>
          refine ⟨none,fun s ys hrs => ⟨?_,nofun⟩⟩
          obtain ⟨h1,h2,-,-⟩ := hreads s ys hrs
          rw [parseLoop,if_pos hgo,if_neg hhdr]
          simp only [bind_eq_bind,h1,h2,bind_some]
          rw [if_neg hsize,hty,bind_none]
        | some seg =>
          refine ⟨r.map (assegmentNew seg (asnsOf use32bit len.toNat v) :: ·),fun s ys hrs => ?_⟩
          obtain ⟨h1,h2,h3,hrs3⟩ := hreads s ys hrs
          obtain ⟨hloop,hstop⟩ := hr _ _ hrs3
          constructor
          · rw [parseLoop,if_pos hgo,if_neg hhdr]
            simp only [bind_eq_bind,h1,h2,bind_some]
            rw [if_neg hsize,hty,bind_some,h3,bind_some]
            rw [hloop]
            cases r <;> rfl
          · intro hsome
            rw [isSome_map] at hsome
            rw [parseStop,if_pos hgo,if_neg hhdr,h1]
            dsimp only
            rw [h2]
            dsimp only
            rw [if_neg hsize,hty,h3]
            dsimp only
            rw [hstop hsome,skip_skip]
            congr 1
            rw [length_drop,length_cons,length_cons]
            omega
    · refine ⟨some [],fun s ys _ => ⟨?_,fun _ => ?_⟩⟩
      · rw [parseLoop,if_neg hgo]
      have hz : v.length=0 := by omega
      rw [parseStop,if_neg hgo,hz,skip_zero]

/-- What `aspath_parse` makes of the bytes of an attribute. -/
def aspathOf (use32bit : Bool) (v : List (BitVec 8)) : Option Aspath :=
  (aspathParse (streamOf v) v.length use32bit).1

theorem aspathParse_eq (use32bit : Bool) {v ys : List (BitVec 8)} (h : s.rest=v++ys) :
    (aspathParse s v.length use32bit).1=aspathOf use32bit v ∧
      ((aspathOf use32bit v).isSome → (aspathParse s v.length use32bit).2=skip s v.length) := by
  have hv : (streamOf v).rest=v++[] := by
    rw [append_nil]
    rfl
  have hread : v.length ≤ s.readable := by
    rw [←length_rest,h,length_append]
    omega
  have hread' : v.length≤(streamOf v).readable := le_of_eq rfl
  obtain ⟨r,hr⟩ := parseLoop_value use32bit v.length (v.length+1) v 0 (zero_add _)
  obtain ⟨hloop,hstop⟩ := hr s ys h
  obtain ⟨hloop',-⟩ := hr (streamOf v) [] hv
  unfold aspathOf aspathParse
  by_cases hodd : v.length%2≠0
  · rw [if_pos hodd,if_pos hodd]
    exact ⟨rfl,nofun⟩
  rw [if_neg hodd,if_neg hodd]
  by_cases hz : v.length=0
  · have hskip : skip s v.length=s := by rw [hz,skip_zero]
    rw [assegmentsParse,assegmentsParse,if_pos hz,if_pos hz,if_pos (.inl hz),hskip]
    exact ⟨rfl,fun _ => rfl⟩
  have hok (t : Stream) (ht : v.length≤t.readable) :
      ¬(t.readable<v.length ∨ t.readable<asHeaderSize ∨ v.length%2≠0) := by
    unfold asHeaderSize
    omega
  have hgo : ¬(v.length=0 ∨ s.readable<v.length ∨ s.readable<asHeaderSize) := by
    unfold asHeaderSize
    omega
  rw [assegmentsParse,assegmentsParse,if_neg hz,if_neg hz,if_neg (hok s hread),
    if_neg (hok _ hread'),hloop,hloop',if_neg hgo]
  refine ⟨rfl,fun hsome => hstop ?_⟩
  rwa [isSome_map] at hsome

end RoutePlatform.AttrReading
