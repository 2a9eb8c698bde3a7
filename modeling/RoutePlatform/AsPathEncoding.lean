import RoutePlatform.AsPathOperations

/-!
# The bytes `aspath_put` writes

`aspath_put` takes the segments in groups: a segment together with the
following ones it packs under the same header. The bytes of a group and the
number of bytes that are counted for it are given in closed form, as the code
computes them.
-/

namespace RoutePlatform.AsPathEncoding

open StreamOperations AsPathOperations List Option

variable {segments : List Assegment} {type : SegmentType} (seg : Assegment) (rest : List Assegment)
  {s s' : Stream}

/-- The size of an AS number on the wire. -/
def asnSize (use32bit : Bool) : ℕ := if use32bit then 4 else 2

@[simp] theorem asnSize_true : asnSize true=4 := rfl

@[simp] theorem asnSize_false : asnSize false=2 := rfl

/-- The bytes of one AS number. -/
def encodeAsn (use32bit : Bool) (a : AsT) : List (BitVec 8) :=
  if use32bit then
    [(a >>> 24).setWidth 8,(a >>> 16).setWidth 8,(a >>> 8).setWidth 8,a.setWidth 8]
  else [((as16Of a).setWidth 16 >>> 8).setWidth 8,((as16Of a).setWidth 16).setWidth 8]

def encodeAsns (use32bit : Bool) (as : List AsT) : List (BitVec 8) :=
  as.flatMap (encodeAsn use32bit)

def encodeHeader (type : SegmentType) (length : ℕ) : List (BitVec 8) :=
  [type.code,BitVec.ofNat 8 length]

/-- The bytes of a whole segment. -/
def encodeSegment (use32bit : Bool) (seg : Assegment) : List (BitVec 8) :=
  encodeHeader seg.type seg.length++encodeAsns use32bit seg.as

section

variable (use32bit : Bool)
include use32bit

theorem length_encodeAsn (a : AsT) : (encodeAsn use32bit a).length=asnSize use32bit := by
  cases use32bit <;> rfl

theorem length_encodeAsns (as : List AsT) :
    (encodeAsns use32bit as).length=as.length*asnSize use32bit := by
  unfold encodeAsns
  induction as with
  | nil => simp
  | cons a as ih =>
    rw [flatMap_cons,length_append,ih,length_encodeAsn,length_cons]
    ring

theorem encodeAsns_append (as bs : List AsT) :
    encodeAsns use32bit (as++bs)=encodeAsns use32bit as++encodeAsns use32bit bs :=
  flatMap_append

theorem length_encodeSegment (seg : Assegment) :
    (encodeSegment use32bit seg).length=assegmentSize seg.length use32bit := by
  rw [encodeSegment,length_append,length_encodeAsns]
  rfl

theorem putAsn_eq (s : Stream) (a : AsT) : putAsn use32bit s a=s.put (encodeAsn use32bit a) := by
  cases use32bit <;> rfl

theorem dataPutLoop_eq (as : List AsT) (s : Stream) :
    dataPutLoop use32bit s as=s.put (encodeAsns use32bit as) := by
  induction as generalizing s with
  | nil => exact (put_nil s).symm
  | cons a as ih =>
    rw [dataPutLoop,putAsn_eq,encodeAsns,flatMap_cons,put_append]
    exact congrArg _ (funext fun s' => ih s')

end

theorem assegmentDataPut_eq {use32bit : Bool} {as : List AsT} (h : as.length≤asSegmentMax)
    (s : Stream) : assegmentDataPut s as use32bit=s.put (encodeAsns use32bit as) := by
  rw [assegmentDataPut,if_pos h,dataPutLoop_eq]

theorem assegmentHeaderPut_of_put {length : ℕ} (h : length≤asSegmentMax) {s s' : Stream}
    (hs : s.put (encodeHeader type length)=some s') :
    assegmentHeaderPut s type length=some (s',s.endp+1) := by
  have hcut : encodeHeader type length=[type.code]++[BitVec.ofNat 8 length] := rfl
  rw [hcut,put_append] at hs
  obtain ⟨s1,h1,h2⟩ := bind_eq_some_iff.mp hs
  rw [assegmentHeaderPut,if_pos h]
  simp only [bind_eq_bind]
  rw [streamPutc,h1,bind_some,streamPutc,h2,bind_some,endp_of_put h1]
  rfl

/-- The number of full wire segments a segment is split into before its end. -/
def splits (seg : Assegment) : ℕ := (seg.length-1)/255

/-- One round of the splitting loop. -/
def splitChunk (use32bit : Bool) (seg : Assegment) : List (BitVec 8) :=
  encodeHeader seg.type 255++encodeAsns use32bit (seg.as.take 255)

/-- The bytes the splitting loop writes in `n` rounds. -/
def splitBytes (use32bit : Bool) (seg : Assegment) (n : ℕ) : List (BitVec 8) :=
  (List.replicate n (splitChunk use32bit seg)).flatten

/-- The bytes the splitting loop counts in its last `n` rounds. -/
def splitCount (use32bit : Bool) (seg : Assegment) (n : ℕ) : ℕ :=
  ((List.range n).map fun i => assegmentSize (255*(splits seg-i)) use32bit).sum

theorem splitCount_succ (use32bit : Bool) (seg : Assegment) (n : ℕ) :
    splitCount use32bit seg (n+1) =
      splitCount use32bit seg n+assegmentSize (255*(splits seg-n)) use32bit := by
  rw [splitCount,range_succ,map_append,sum_append,map_singleton,sum_singleton]
  rfl

theorem splitLoop_eq (use32bit : Bool) (hpos : 0<seg.length) :
    ∀ (n fuel bytes : ℕ) (s s' : Stream), n ≤ splits seg → n<fuel →
      s.put (splitBytes use32bit seg n)=some s' →
      splitLoop seg use32bit fuel s (255*(splits seg-n)) bytes =
        some (s',255*splits seg,bytes+splitCount use32bit seg n) := by
  intro n
  induction n with
  | zero =>
    intro fuel bytes s s' _ hfuel hput
    obtain ⟨fuel,rfl⟩ : ∃ k, fuel=k+1 := ⟨fuel-1,by omega⟩
    rw [splitBytes,replicate_zero,flatten_nil,put_nil] at hput
    cases hput
    have hstop : ¬seg.length-255*(splits seg-0) > asSegmentMax := by
      unfold splits asSegmentMax
      omega
    rw [splitLoop,if_neg hstop]
    rfl
  | succ n ih =>
    intro fuel bytes s s' hn hfuel hput
    obtain ⟨fuel,rfl⟩ : ∃ k, fuel=k+1 := ⟨fuel-1,by omega⟩
    have hgo : seg.length-255*(splits seg-(n+1)) > asSegmentMax := by
      unfold splits asSegmentMax at *
      omega
    have hwritten : 255*(splits seg-(n+1))+asSegmentMax=255*(splits seg-n) := by
      unfold asSegmentMax
      omega
    have htake : (seg.as.take asSegmentMax).length≤asSegmentMax := length_take_le _ _
    rw [splitBytes,replicate_succ,flatten_cons,splitChunk,append_assoc,put_append] at hput
    obtain ⟨s1,h1,hput⟩ := bind_eq_some_iff.mp hput
    rw [put_append] at hput
    obtain ⟨s2,h2,hput⟩ := bind_eq_some_iff.mp hput
    have hhdr := assegmentHeaderPut_of_put (le_refl asSegmentMax) h1
    rw [splitLoop,if_pos hgo]
    simp only [bind_eq_bind]
    rw [hhdr,bind_some,assegmentDataPut_eq htake]
    have h2' : s1.put (encodeAsns use32bit (seg.as.take asSegmentMax))=some s2 := h2
    rw [h2',bind_some,hwritten]
    rw [ih fuel _ s2 s' (by omega) (by omega) hput,splitCount_succ]
    congr 3
    omega

/-- The AS numbers of packed segments. -/
def asnsOf (packed : List Assegment) : List AsT := packed.flatMap Assegment.as

/-- The length the packing loop leaves in the header: every packed segment
overwrites it. -/
def packedLength (own start : ℕ) (packed : List Assegment) : ℕ :=
  packed.foldl (fun _ next => own+next.length) start

/-- The header length and the AS numbers behind it, once the following
segments are packed. -/
theorem packLoop_eq (use32bit : Bool) (written : ℕ) {s0 : Stream} :
    ∀ (next : List Assegment) (start asnsPacked : ℕ) (body : List (BitVec 8)) (s s' : Stream),
      s0.put (encodeHeader type start++body)=some s →
      s0.put (encodeHeader type (packedLength (seg.length-written) start
          (next.takeWhile fun x => Packable seg x))++(body ++
        encodeAsns use32bit (asnsOf (next.takeWhile fun x => Packable seg x))))=some s' →
      packLoop seg use32bit (s0.endp+1) written s asnsPacked next =
        some (s',asnsPacked+(asnsOf (next.takeWhile fun x => Packable seg x)).length,
          next.dropWhile fun x => Packable seg x) := by
  intro next
  induction next with
  | nil =>
    intro start asnsPacked body s s' hs hs'
    have hsame : s0.put (encodeHeader type start++body)=some s' := by
      rw [takeWhile_nil,asnsOf,flatMap_nil,encodeAsns,flatMap_nil,append_nil] at hs'
      exact hs'
    rw [hs] at hsame
    cases hsame
    rfl
  | cons x next ih =>
    intro start asnsPacked body s s' hs hs'
    by_cases hpack : Packable seg x
    · have hlen : x.as.length≤asSegmentMax := (Nat.le_add_left _ _).trans hpack.2
      have htake : (x::next).takeWhile (fun x => decide (Packable seg x)) =
          x::next.takeWhile fun x => decide (Packable seg x) :=
        takeWhile_cons_of_pos (decide_eq_true hpack)
      have hdrop : (x::next).dropWhile (fun x => decide (Packable seg x)) =
          next.dropWhile fun x => decide (Packable seg x) :=
        dropWhile_cons_of_pos (decide_eq_true hpack)
      rw [htake] at hs' ⊢
      rw [hdrop]
      have hasns : asnsOf (x::next.takeWhile fun x => decide (Packable seg x)) =
          x.as++asnsOf (next.takeWhile fun x => decide (Packable seg x)) := flatMap_cons
      rw [hasns,encodeAsns_append,←append_assoc body] at hs'
      have hroom : ((encodeHeader type start++body)++encodeAsns use32bit x.as).length ≤
          s0.writeable := by
        have hfits := (put_eq_some hs').2.2.2
        simp only [encodeHeader,length_append,length_cons,length_nil] at hfits ⊢
        omega
      obtain ⟨s1,h1⟩ := exists_put hroom
      have hdata : s.put (encodeAsns use32bit x.as)=some s1 := by
        rw [put_append,hs,bind_some] at h1
        exact h1
      have hcut : encodeHeader type start++body++encodeAsns use32bit x.as =
          [type.code]++BitVec.ofNat 8 start::(body++encodeAsns use32bit x.as) := by
        rw [encodeHeader,append_assoc]
        rfl
      rw [hcut] at h1
      obtain ⟨s2,hat,h2⟩ := putcAt_of_put h1
      have h2' : s0.put (encodeHeader type (seg.length-written+x.length) ++
          (body++encodeAsns use32bit x.as))=some s2 := h2
      rw [packLoop,if_pos hpack]
      simp only [bind_eq_bind]
      rw [assegmentDataPut_eq hlen,hdata,bind_some]
      have hat' : streamPutcAt s1 (s0.endp+1)
          (BitVec.ofNat 8 (seg.length-written+x.length))=some s2 := hat
      rw [hat',bind_some,ih _ _ _ s2 s' h2' hs',hasns,length_append,add_assoc]
      rfl
    · have htake : (x::next).takeWhile (fun x => decide (Packable seg x))=[] :=
        takeWhile_cons_of_neg (by simpa using hpack)
      have hdrop : (x::next).dropWhile (fun x => decide (Packable seg x))=x::next :=
        dropWhile_cons_of_neg (by simpa using hpack)
      rw [htake] at hs'
      have hsame : s0.put (encodeHeader type start++body)=some s' := by
        rw [asnsOf,flatMap_nil,encodeAsns,flatMap_nil,append_nil] at hs'
        exact hs'
      rw [hs] at hsame
      cases hsame
      rw [packLoop,if_neg hpack,htake,hdrop]
      rfl

/-- A segment and the segments that `aspath_put` packs under its header. -/
abbrev Group := Assegment × List Assegment

/-- The groups from a segment on that has packed some segments already. -/
def groupsFrom (seg : Assegment) (packed : List Assegment) : List Assegment→List Group
  | [] => [(seg,packed)]
  | next::rest =>
    if Packable seg next then groupsFrom seg (packed++[next]) rest
    else (seg,packed)::groupsFrom next [] rest

def groups : List Assegment→List Group
  | [] => []
  | seg::rest => groupsFrom seg [] rest

theorem groupsFrom_eq (packed rest : List Assegment) :
    groupsFrom seg packed rest=(seg,packed++rest.takeWhile fun x => Packable seg x) ::
      groups (rest.dropWhile fun x => Packable seg x) := by
  induction rest generalizing packed with
  | nil => simp [groupsFrom,groups]
  | cons x rest ih =>
    by_cases hpack : Packable seg x
    · rw [groupsFrom,if_pos hpack,ih]
      simp [hpack]
    rw [groupsFrom,if_neg hpack]
    simp [hpack,groups]

theorem groups_cons :
    groups (seg::rest)=(seg,rest.takeWhile fun x => Packable seg x) ::
      groups (rest.dropWhile fun x => Packable seg x) := by
  rw [groups,groupsFrom_eq,nil_append]

/-- The bytes that are written for a group. -/
def groupBytes (use32bit : Bool) (g : Group) : List (BitVec 8) :=
  splitBytes use32bit g.1 (splits g.1) ++
    (encodeHeader g.1.type (packedLength (g.1.length-255*splits g.1)
        (g.1.length-255*splits g.1) g.2) ++
      (encodeAsns use32bit (g.1.as.drop (255*splits g.1))++encodeAsns use32bit (asnsOf g.2)))

/-- The bytes that are counted for a group. -/
def groupCount (use32bit : Bool) (g : Group) : ℕ := splitCount use32bit g.1 (splits g.1) +
    assegmentSize (g.1.length-255*splits g.1+(asnsOf g.2).length) use32bit

/-- The room a segment needs at most. -/
def roomOf (seg : Assegment) : ℕ := 2+4*seg.length+2*(seg.length/255)

/-- The room a path needs at most. -/
def roomOfPath (segments : List Assegment) : ℕ := (segments.map roomOf).sum

theorem length_splitBytes (use32bit : Bool) {seg : Assegment} {n : ℕ} (h : n ≤ splits seg) :
    (splitBytes use32bit seg n).length=n*(2+255*asnSize use32bit) := by
  induction n with
  | zero => simp [splitBytes]
  | succ n ih =>
    have hlong : 255 ≤ seg.as.length := by
      have hlen : seg.length=seg.as.length := rfl
      unfold splits at h
      omega
    have htake : (seg.as.take 255).length=255 := by
      rw [length_take]
      omega
    rw [splitBytes,replicate_succ,flatten_cons,length_append]
    have hrs := ih (by omega)
    unfold splitBytes at hrs
    rw [hrs,splitChunk,length_append,length_encodeAsns,htake]
    simp only [encodeHeader,length_cons,length_nil]
    ring

theorem length_groupBytes (use32bit : Bool) (g : Group) :
    (groupBytes use32bit g).length=splits g.1*(2+255*asnSize use32bit) +
      assegmentSize (g.1.length-255*splits g.1+(asnsOf g.2).length) use32bit := by
  rw [groupBytes,length_append,length_splitBytes use32bit le_rfl,length_append,
    length_append,length_encodeAsns,length_encodeAsns,length_drop]
  have hsize : ∀ n, assegmentSize n use32bit=2+n*asnSize use32bit := fun _ => rfl
  rw [hsize]
  simp only [encodeHeader,length_cons,length_nil,Assegment.length]
  ring

theorem length_asnsOf_le (packed : List Assegment) :
    4*(asnsOf packed).length≤roomOfPath packed := by
  induction packed with
  | nil => exact Nat.zero_le _
  | cons seg packed ih =>
    have hasns : asnsOf (seg::packed)=seg.as++asnsOf packed := flatMap_cons
    have hroom : roomOfPath (seg::packed)=roomOf seg+roomOfPath packed := sum_cons
    rw [hasns,hroom,length_append,roomOf,Assegment.length]
    omega

theorem length_groupBytes_le (use32bit : Bool) (g : Group) :
    (groupBytes use32bit g).length≤roomOf g.1+roomOfPath g.2 := by
  have hpacked := length_asnsOf_le g.2
  have hsize : assegmentSize (g.1.length-255*splits g.1+(asnsOf g.2).length) use32bit =
    2+(g.1.length-255*splits g.1+(asnsOf g.2).length)*asnSize use32bit := rfl
  rw [length_groupBytes,hsize,roomOf]
  unfold splits
  cases use32bit with
  | false =>
    rw [asnSize_false]
    omega
  | true =>
    rw [asnSize_true]
    omega

/-- The paths that can be written: no segment is empty, and only sequences may be too long. -/
structure Encodable (segments : List Assegment) : Prop where
  pos : ∀ seg∈segments, 0<seg.length
  short : ∀ seg∈segments, seg.type ≠ .asSequence → seg.length≤255

theorem Encodable.sublist {xs ys : List Assegment} (h : Encodable ys) (hsub : xs.Sublist ys) :
    Encodable xs :=
  ⟨fun seg hseg => h.pos seg (hsub.subset hseg),fun seg hseg => h.short seg (hsub.subset hseg)⟩

theorem roomOfPath_cons :
    roomOfPath (seg::rest)=roomOf seg+roomOfPath (rest.takeWhile fun x => Packable seg x) +
      roomOfPath (rest.dropWhile fun x => Packable seg x) := by
  have hsplit := takeWhile_append_dropWhile (p := fun x => decide (Packable seg x)) (l := rest)
  have hsum : roomOfPath rest=roomOfPath (rest.takeWhile fun x => Packable seg x) +
      roomOfPath (rest.dropWhile fun x => Packable seg x) := by
    rw [roomOfPath,roomOfPath,roomOfPath,←sum_append,←map_append,hsplit]
  have hcons : roomOfPath (seg::rest)=roomOf seg+roomOfPath rest := sum_cons
  rw [hcons,hsum,add_assoc]

section

variable (use32bit : Bool)
include use32bit

/-- One round of the outer loop writes one group. -/
theorem putLoop_group {seg : Assegment} {next : List Assegment} {fuel bytes : ℕ}
    (hpos : 0<seg.length) (hroom : assegmentLen seg use32bit ≤ s.writeable)
    (hput : s.put (groupBytes use32bit (seg,next.takeWhile fun x => Packable seg x))=some s') :
    putLoop use32bit (fuel+1) s (seg::next) bytes =
      putLoop use32bit fuel s' (next.dropWhile fun x => Packable seg x)
        (bytes+groupCount use32bit (seg,next.takeWhile fun x => Packable seg x)) := by
  have hrs : seg.length-255*splits seg≤asSegmentMax := by
    unfold splits asSegmentMax
    omega
  have hdrop : (seg.as.drop (255*splits seg)).length≤asSegmentMax := by
    rw [length_drop]
    exact hrs
  have hfuel : splits seg<seg.length/asSegmentMax+1 := by
    unfold splits asSegmentMax
    omega
  unfold groupBytes at hput
  rw [put_append] at hput
  obtain ⟨s1,h1,hput⟩ := bind_eq_some_iff.mp hput
  have hsplit := splitLoop_eq seg use32bit hpos (splits seg) _ bytes s s1 le_rfl hfuel h1
  rw [Nat.sub_self,mul_zero] at hsplit
  -- the header is first written with the length of the segment's own end
  have hstart : (encodeHeader seg.type (seg.length-255*splits seg) ++
      encodeAsns use32bit (seg.as.drop (255*splits seg))).length ≤ s1.writeable := by
    have hfits := (put_eq_some hput).2.2.2
    simp only [encodeHeader,length_append,length_cons,length_nil] at hfits ⊢
    omega
  obtain ⟨s3,h3⟩ := exists_put hstart
  have hboth := h3
  rw [put_append] at h3
  obtain ⟨s2,h2,hdata⟩ := bind_eq_some_iff.mp h3
  have hpacked := packLoop_eq seg use32bit (255*splits seg) next _ 0 _ s3 s' hboth hput
  rw [putLoop,if_pos hroom]
  simp only [bind_eq_bind]
  rw [hsplit,bind_some,assegmentHeaderPut_of_put hrs h2,bind_some,
    assegmentDataPut_eq hdrop,hdata,bind_some,hpacked,bind_some,zero_add,
    groupCount,add_assoc]

theorem assegmentLen_le_groupBytes (g : Group) :
    assegmentLen g.1 use32bit≤(groupBytes use32bit g).length := by
  have hsize : ∀ n, assegmentSize n use32bit=2+n*asnSize use32bit := fun _ => rfl
  rw [length_groupBytes,assegmentLen,hsize,hsize]
  cases use32bit with
  | false =>
    rw [asnSize_false]
    omega
  | true =>
    rw [asnSize_true]
    omega

theorem putLoop_eq : ∀ (fuel : ℕ) (segments : List Assegment) (s s' : Stream) (bytes : ℕ),
      segments.length<fuel → (∀ seg∈segments, 0<seg.length) →
      s.put ((groups segments).flatMap (groupBytes use32bit))=some s' →
      putLoop use32bit fuel s segments bytes =
        some (s',bytes+((groups segments).map (groupCount use32bit)).sum) := by
  intro fuel
  induction fuel with
  | zero =>
    intro segments s s' bytes hfuel
    omega
  | succ fuel ih =>
    intro segments s s' bytes hfuel hpos hput
    cases segments with
    | nil =>
      have hsame : s.put []=some s' := hput
      rw [put_nil] at hsame
      cases hsame
      rfl
    | cons seg next =>
      rw [length_cons] at hfuel
      rw [groups_cons,flatMap_cons,put_append] at hput
      obtain ⟨s1,h1,hput⟩ := bind_eq_some_iff.mp hput
      have hlen : assegmentLen seg use32bit ≤ s.writeable :=
        (assegmentLen_le_groupBytes use32bit (seg,_)).trans (put_eq_some h1).2.2.2
      have hdrop := (dropWhile_sublist (l := next) fun x => decide (Packable seg x))
      have hshort : (next.dropWhile fun x => decide (Packable seg x)).length<fuel := by
        have hle := hdrop.length_le
        omega
      rw [putLoop_group use32bit (hpos seg mem_cons_self) hlen h1,
        ih _ s1 s' _ hshort (fun x hx => hpos x (.tail _ (hdrop.subset hx))) hput,
        groups_cons,map_cons,sum_cons,add_assoc]

theorem aspathPut_of_put (hpos : ∀ seg∈segments, 0<seg.length)
    (hput : s.put ((groups segments).flatMap (groupBytes use32bit))=some s') :
    aspathPut s segments use32bit =
      some (s',((groups segments).map (groupCount use32bit)).sum) := by
  cases segments with
  | nil =>
    have hsame : s.put []=some s' := hput
    rw [put_nil] at hsame
    cases hsame
    rfl
  | cons seg rest =>
    have hrun := putLoop_eq use32bit _ (seg::rest) s s' 0 (Nat.lt_succ_self _) hpos hput
    rw [zero_add] at hrun
    rw [aspathPut,if_neg (hpos seg mem_cons_self).ne',hrun]

theorem length_groups_le (n : ℕ) : ∀ segments : List Assegment, segments.length≤n →
      ((groups segments).flatMap (groupBytes use32bit)).length≤roomOfPath segments := by
  induction n with
  | zero =>
    intro segments hn
    rw [length_eq_zero_iff.mp (Nat.le_zero.mp hn)]
    exact le_rfl
  | succ n ih =>
    intro segments hn
    cases segments with
    | nil => exact le_rfl
    | cons seg next =>
      have hle := (dropWhile_sublist (l := next) fun x => decide (Packable seg x)).length_le
      rw [length_cons] at hn
      have hrs := ih (next.dropWhile fun x => decide (Packable seg x)) (by omega)
      have hgroup := length_groupBytes_le use32bit (seg,next.takeWhile fun x => Packable seg x)
      dsimp only at hgroup
      rw [groups_cons,flatMap_cons,length_append,roomOfPath_cons]
      omega

theorem aspathPut_eq {s : Stream} (henc : Encodable segments)
    (hroom : roomOfPath segments ≤ s.writeable) :
    ∃ s', aspathPut s segments use32bit =
        some (s',((groups segments).map (groupCount use32bit)).sum) ∧
      s.put ((groups segments).flatMap (groupBytes use32bit))=some s' := by
  obtain ⟨s',hput⟩ :=
    exists_put ((length_groups_le use32bit segments.length segments le_rfl).trans hroom)
  exact ⟨s',aspathPut_of_put use32bit henc.pos hput,hput⟩

end

end RoutePlatform.AsPathEncoding
