import RoutePlatform.TlvRoundTrip

/-!
# Fields of IS neighbours

`tlv_add_is_neighs` stores the virtual flag before the first element only, so one field holds 23
neighbours, and the fields behind it have no flag: the parser takes the first byte of their first
neighbour for it. The neighbours are parsed as they were added exactly when one field is enough.
-/

namespace RoutePlatform.TlvNeighbours

open StreamOperations TlvOperations TlvElements TlvParsing TlvRoundTrip TlvOperations.IsNeigh List Option

variable {length : Byte} {fuel : ℕ} {bytes : List Byte} (es : List IsNeigh) {type : Byte}
  {st st' : ParseState} (value : List Byte)

/-- What was added is parsed in order, and the buffer is large enough. -/
structure RoundTrips {α : Type} (list : TlvList)
    (add : List α→Stream→Option (IsisRet × Stream)) (wire : α→List Byte) (es : List α) :
    Prop where
  /-- At most 255 bytes are stored in the buffer. -/
  stores : ∀ s, add es s≠none
  parses : ∀ s s', add es s=some (.isisOk,s') →
    ∀ (expected : BitVec 32) (authTlvOffset : Option (BitVec 32)), Expected expected (.list list) →
      ∃ st, parseTlvs (s'.data.drop s.data.length) expected authTlvOffset=.ok st ∧
        st.retval=.isisOk ∧ (∀ x∈st.listed, x.list=list) ∧
        st.listed.map (elementBytes (s'.data.drop s.data.length))=es.map wire

section

theorem length_put (e : IsNeigh) : e.put.length=11 := by
  rw [put,length_append,e.neighId.length_eq]
  rfl

theorem length_puts : (es.flatMap put).length=11*es.length := by
  induction es with
  | nil => rfl
  | cons e es ih =>
    rw [flatMap_cons,length_append,ih,length_put,length_cons]
    ring

theorem needs_neighs : Needs (fun _ : IsNeigh => 11) put :=
  fun e => ⟨(length_put e).le,show (11 : ℕ)≤255 by decide⟩

theorem addLoop_append (xs ys : List IsNeigh) : ∀ (value : List Byte) (s : Stream),
    value.length+11*xs.length≤255 →
    addLoop 2 (fun _ => 11) put (xs++ys) value s =
      addLoop 2 (fun _ => 11) put ys (value++xs.flatMap put) s := by
  induction xs with
  | nil =>
    intro value s _
    rw [nil_append,flatMap_nil,append_nil]
  | cons x xs ih =>
    intro value s h
    rw [length_cons] at h
    rw [cons_append,addLoop_fits _ s (by omega) (length_put x).le,ih,flatMap_cons,append_assoc]
    rw [length_append,length_put]
    omega

theorem addLoop_single (s : Stream) (h : value.length+11*es.length≤255) :
    addLoop 2 (fun _ => 11) put es value s = some (addTlv 2 (value++es.flatMap put) s) := by
  have happend := addLoop_append es [] value s h
  rw [append_nil] at happend
  rw [happend,addLoop]

theorem addLoop_full (xs : List IsNeigh) (y : IsNeigh) (ys : List IsNeigh) (value : List Byte)
    (s s' : Stream) (hval : value.length<11) (hxs : xs.length=23)
    (hsmall : value.length+11*23≤255)
    (h : addLoop 2 (fun _ => 11) put (xs++y::ys) value s=some (.isisOk,s')) :
    ∃ s1, s1.data=s.data++tlvBytes 2 (value++xs.flatMap put) ∧
      addLoop 2 (fun _ => 11) put (y::ys) [] s1=some (.isisOk,s') := by
  have hlen : (value++xs.flatMap put).length=value.length+253 := by
    rw [length_append,length_puts,hxs]
  rw [addLoop_append xs (y::ys) value s (by omega),
    addLoop_cut ys s (by rw [hlen]; omega) (by rw [length_put]; decide)] at h
  split at h
  · rename_i hok
    refine ⟨_,addTlv_ok (by rw [hlen]; omega) (Prod.ext hok rfl),?_⟩
    rw [addLoop_fits ys _ (by decide) (length_put y).le,nil_append]
    exact h
  rename_i hbad
  exact (hbad (congrArg Prod.fst (some.inj h))).elim

/-- The first field of neighbours, and what is written behind it. -/
theorem addLoop_chunk (s s' : Stream) (hsmall : value.length+11*23≤255) (hval : value.length<11)
    (h : addLoop 2 (fun _ => 11) put es value s=some (.isisOk,s')) :
    ∃ s1, s1.data=s.data++tlvBytes 2 (value++(es.take 23).flatMap put) ∧
      (es.drop 23=[] ∧ s'=s1 ∨ es.drop 23≠[] ∧
        addLoop 2 (fun _ => 11) put (es.drop 23) [] s1=some (.isisOk,s')) := by
  rcases lt_or_ge 23 es.length with hmany|hfew
  · have hne : es.drop 23≠[] := by
      intro hnil
      have hlen := congrArg length hnil
      rw [length_drop,length_nil] at hlen
      omega
    obtain ⟨y,ys,hys⟩ := exists_cons_of_ne_nil hne
    have hsplit : es=es.take 23++y::ys := by rw [←hys,take_append_drop]
    have htake : (es.take 23).length=23 := by
      rw [length_take]
      omega
    rw [hsplit] at h
    obtain ⟨s1,hdata,hrs⟩ := addLoop_full _ y ys value s s' hval htake hsmall h
    rw [←hys] at hrs
    exact ⟨s1,hdata,Or.inr ⟨hne,hrs⟩⟩
  · have htake := take_of_length_le hfew
    have hlength : value.length+11*es.length≤255 := by omega
    rw [addLoop_single es value s hlength] at h
    rw [htake]
    refine ⟨s',addTlv_ok ?_ (some.inj h),Or.inl ⟨drop_eq_nil_of_le hfew,rfl⟩⟩
    rw [length_append,length_puts]
    exact hlength

theorem length_written : ∀ (n : ℕ) (es : List IsNeigh) (s s' : Stream), es.length≤n → es≠[] →
    addLoop 2 (fun _ => 11) put es [] s=some (.isisOk,s') →
    ∃ m, s'.data.length=s.data.length+11*es.length+2*m ∧ 23*m<es.length+23 := by
  intro n
  induction n with
  | zero =>
    intro es s s' hn hne _
    exact (hne (length_eq_zero_iff.mp (Nat.le_zero.mp hn))).elim
  | succ n ih =>
    intro es s s' hn hne h
    have hpos := length_pos_of_ne_nil hne
    obtain ⟨s1,hdata,hrs⟩ := addLoop_chunk es [] s s' (by decide) (by decide) h
    have hlen : s1.data.length=s.data.length+(11*(es.take 23).length+2) := by
      rw [hdata,length_append,nil_append]
      change _+((flatMap put (es.take 23)).length+1+1)=_
      rw [length_puts]
    rw [length_take] at hlen
    rcases hrs with ⟨hnil,rfl⟩|⟨hmore,hrs⟩
    · have hfew := drop_eq_nil_iff.mp hnil
      exact ⟨1,by omega,by omega⟩
    have hdrop : (es.drop 23).length=es.length-23 := length_drop
    obtain ⟨m,hm,hbound⟩ := ih (es.drop 23) s1 s' (by omega) hmore hrs
    exact ⟨m+1,by omega,by omega⟩

end

section

variable {bytes : List Byte}

/-- A caller that wants neighbours only. -/
def neighsOnly : BitVec 32 := TlvList.isNeighs.flag

theorem expected_neighs (type : TlvType) : Expected neighsOnly type ↔ type=.list .isNeighs := by
  cases type with
  | list l => cases l <;> decide
  | _ => decide

theorem elementLoop_neighs {length : ℕ} : ∀ (fuel p v : ℕ) {r : LoopResult},
    elementLoop bytes .isNeighs length fuel p v=.ok r →
    r.pnt=p+11*r.elements.length ∧ length≤v+11*r.elements.length ∧
      (r.elements=[] ∨ v+11*r.elements.length<length+11 ∧ (r.pnt-11,r.pnt)∈r.elements) := by
  intro fuel
  induction fuel with
  | zero =>
    intro p v r hr
    cases hr
  | succ fuel ih =>
    intro p v r hr
    rcases elementLoop_cases hr with ⟨hge,rfl⟩|⟨-,hsize,-⟩|⟨size,r',hlt,hsize,hrs,rfl⟩
    · exact ⟨rfl,hge,Or.inl rfl⟩
    · cases hsize
    cases hsize
    obtain ⟨hpnt,hlen,hlast⟩ := ih (p+11) (v+11) hrs
    dsimp only
    rw [length_cons]
    refine ⟨by omega,by omega,Or.inr ?_⟩
    rcases hlast with hnil|⟨hbound,hmem⟩
    · have hz : r'.elements.length=0 := by rw [hnil]; rfl
      have hend : r'.pnt=p+11 := by omega
      refine ⟨by omega,?_⟩
      rw [hend,Nat.add_sub_cancel]
      exact .head _
    · exact ⟨by omega,.tail _ hmem⟩

theorem length_slice (start stop : ℕ) :
    (slice bytes start stop).length=min (stop-start) (bytes.length-start) := by
  rw [slice,length_take,length_drop]

theorem parseStep_neighs {st st1 : ParseState} {go : Bool} (hlt : st.pnt+2<bytes.length)
    (ht : bytes[st.pnt]? = some type) (hl : bytes[st.pnt+1]? = some length)
    (hstep : parseStep bytes neighsOnly st=.ok (st1,go)) :
    (∃ r : LoopResult, TlvType.ofCode type=.list .isNeighs ∧ go=true ∧
        st1.listed=st.listed++listedOf .isNeighs (st.pnt+2) length.toNat r ∧
        st1.pnt=r.pnt ∧ elementLoop bytes .isNeighs length.toNat (length.toNat+1)
          (st.pnt+3) 1=.ok r) ∨
      (st1.listed=st.listed ∧ go=false) ∨
      (TlvType.ofCode type ≠ .list .isNeighs ∧ st1.listed=st.listed ∧
        st1.pnt=st.pnt+2+length.toNat ∧ st1.pnt≤bytes.length) := by
  have hsw := @parseStep_eq type bytes neighsOnly st length ht hl
  rw [hstep] at hsw
  split at hsw
  · cases hsw
    exact Or.inr (Or.inl ⟨rfl,rfl⟩)
  rename_i hfits
  by_cases hty : TlvType.ofCode type=.list .isNeighs
  · have he := (expected_neighs _).mpr rfl
    rw [hty] at hsw
    cases hr : listElements bytes .isNeighs (st.pnt+2) length.toNat with
    | error e =>
      have herror := hsw.trans (tlvSwitch_list_error he hr)
      cases herror
    | ok r =>
      have hok := hsw.trans (tlvSwitch_list he hr)
      cases hok
      obtain ⟨b,-,hloop⟩ := bind_byteAt hr
      exact Or.inl ⟨r,hty,rfl,rfl,rfl,hloop⟩
  · have hskip : ∀ list, TlvType.ofCode type=.list list → ¬Expected neighsOnly (.list list) :=
      fun list hlist he => hty (hlist.trans ((expected_neighs _).mp he))
    have hauth : ¬Expected neighsOnly .authInfo := by decide
    obtain ⟨st2,hst2,hpnt,-,hlst⟩ := @tlvSwitch_skip length.toNat bytes neighsOnly
      {st with
        pnt := st.pnt+2
        headers := st.headers++[(st.pnt,length.toNat)]} (TlvType.ofCode type)
      hskip (fun _ he => (hauth he).elim) hlt
    have hok := hsw.trans hst2
    cases hok
    refine Or.inr (Or.inr ⟨hty,hlst,hpnt,?_⟩)
    rw [hpnt]
    exact not_lt.mp hfits

theorem parseLoop_bound : ∀ (fuel : ℕ) {st st' : ParseState} {found : List Listed},
    parseLoop bytes neighsOnly fuel st=.ok st' → st'.listed=st.listed++found →
    (∀ x∈found, (elementBytes bytes x).length=11) → st.pnt≤bytes.length →
    89*found.length≤8*(bytes.length-st.pnt) := by
  intro fuel
  induction fuel with
  | zero =>
    intro st st' found h
    cases h
  | succ fuel ih =>
    intro st st' found h hfnd hlengths hle
    rcases lt_or_ge (st.pnt+2) bytes.length with hlt|hge
    · obtain ⟨type,ht,-⟩ := byteAt_of_lt (show st.pnt<bytes.length by omega)
      obtain ⟨length,hl,-⟩ := byteAt_of_lt (show st.pnt+1<bytes.length by omega)
      cases hstep : parseStep bytes neighsOnly st with
      | error e =>
        rw [parseLoop,if_pos hlt,hstep] at h
        cases h
      | ok res =>
        obtain ⟨st1,go⟩ := res
        -- A round that adds nothing and goes on behind its header, or ends the parser.
        have hnone : st1.listed=st.listed → (go=true → st.pnt ≤ st1.pnt ∧
            st1.pnt≤bytes.length) → 89*found.length≤8*(bytes.length-st.pnt) := by
          intro hlst hpnt
          cases go with
          | false =>
            rw [parseLoop_last hlt hstep] at h
            cases h
            have hnil := append_cancel_left ((hfnd.symm.trans hlst).trans (append_nil _).symm)
            rw [hnil]
            exact Nat.zero_le _
          | true =>
            obtain ⟨hlow,hhigh⟩ := hpnt rfl
            rw [parseLoop_step hlt hstep] at h
            have hbound := ih h (by rw [hlst]; exact hfnd) hlengths hhigh
            omega
        rcases parseStep_neighs hlt ht hl hstep with ⟨r,-,hgo,hlst,hpnt,hloop⟩ |
          ⟨hlst,hgo⟩ | ⟨-,hlst,hpnt,hhigh⟩
        · subst hgo
          rw [parseLoop_step hlt hstep] at h
          obtain ⟨-,found',-,hlater⟩ := parseLoop_keeps fuel h
          rw [hlst,append_assoc] at hlater
          have hall := append_cancel_left (hfnd.symm.trans hlater)
          have hcnt : found.length=r.elements.length+found'.length := by
            rw [hall,length_append,listedOf,length_map]
          obtain ⟨hend,-,hlast⟩ := elementLoop_neighs _ _ _ hloop
          have hhigh : r.elements.length≤24 ∧ st1.pnt≤bytes.length := by
            rcases hlast with hnil|⟨hbound,hmem⟩
            · have hz : r.elements.length=0 := by rw [hnil]; rfl
              omega
            have hin := hlengths ⟨.isNeighs,st.pnt+2,length.toNat,r.pnt-11,r.pnt⟩ (by
              rw [hall]
              exact mem_append_left _ (mem_map_of_mem hmem))
            rw [elementBytes,length_slice] at hin
            dsimp only at hin
            omega
          have hrs := @ih st1 st' found' h (by rw [hlater,hlst,append_assoc])
            (fun x hx => hlengths x (by rw [hall]; exact mem_append_right _ hx)) hhigh.2
          omega
        · refine hnone hlst fun hgo' => ?_
          rw [hgo] at hgo'
          cases hgo'
        · exact hnone hlst fun _ => ⟨by omega,hhigh⟩
    · rw [parseLoop_end hge] at h
      cases h
      have hnil := append_cancel_left (hfnd.symm.trans (append_nil _).symm)
      rw [hnil]
      exact Nat.zero_le _

theorem parseLoop_cases (hlt : st.pnt+2<bytes.length)
    (h : parseLoop bytes neighsOnly (fuel+1) st=.ok st') :
    ∃ st1 go, parseStep bytes neighsOnly st=.ok (st1,go) ∧
      (go=true → parseLoop bytes neighsOnly fuel st1=.ok st') ∧ (go=false → st'=st1) := by
  cases hstep : parseStep bytes neighsOnly st with
  | error e =>
    rw [parseLoop,if_pos hlt,hstep] at h
    cases h
  | ok r =>
    obtain ⟨st1,go⟩ := r
    refine ⟨st1,go,rfl,fun hgo => ?_,fun hgo => ?_⟩
    · rw [hgo] at hstep
      rwa [parseLoop_step hlt hstep] at h
    rw [hgo] at hstep
    rw [parseLoop_last hlt hstep] at h
    exact (Except.ok.inj h).symm

theorem parseLoop_field (hlt : st.pnt+2<bytes.length) (ht : bytes[st.pnt]? = some 2)
    (hl : bytes[st.pnt+1]? = some length) (h : parseLoop bytes neighsOnly (fuel+1) st=.ok st') :
    st'.listed=st.listed ∨ ∃ r st1, elementLoop bytes .isNeighs length.toNat
        (length.toNat+1) (st.pnt+3) 1=.ok r ∧ st1.pnt=r.pnt ∧
      st1.listed=st.listed++listedOf .isNeighs (st.pnt+2) length.toNat r ∧
      parseLoop bytes neighsOnly fuel st1=.ok st' := by
  obtain ⟨st1,go,hstep,hmore,hlast⟩ := parseLoop_cases hlt h
  rcases parseStep_neighs hlt ht hl hstep with ⟨r,-,hgo,hlst,hpnt,hloop⟩ |
    ⟨hlst,hgo⟩ | ⟨hty,-⟩
  · exact Or.inr ⟨r,st1,hloop,hpnt,hlst,hmore hgo⟩
  · rw [hlast hgo]
    exact Or.inl hlst
  · exact (hty rfl).elim

end

section

theorem reads_neighs : Reads .isNeighs put := by
  intro e pre post
  rw [length_put]
  exact ⟨by decide,rfl⟩

theorem neighs_single (hfew : es.length≤23) : RoundTrips .isNeighs tlvAddIsNeighs put es where
  stores := fun s => addLoop_ne_none needs_neighs es [0] s (by decide)
  parses := by
    intro s s' hadd expected authTlvOffset he
    have hsmall : ([0] : List Byte).length+11*es.length≤255 := by
      rw [length_singleton]
      omega
    have hval : ((0 : Byte)::es.flatMap put).length=1+11*es.length := by
      rw [length_cons,length_puts,add_comm]
    rw [tlvAddIsNeighs,addLoop_single es [0] s hsmall] at hadd
    have hdata := addTlv_ok (by rw [singleton_append,hval]; omega) (some.inj hadd)
    rw [hdata,drop_left,singleton_append]
    obtain ⟨r,hr,hwarned,hpnt,hslices⟩ := elementLoop_group reads_neighs es
      [2,BitVec.ofNat 8 ((0 : Byte)::es.flatMap put).length,0] []
      (1+11*es.length) (1+11*es.length+1) 1 (by rw [length_puts]) (by omega)
    have hbs : [2,BitVec.ofNat 8 ((0 : Byte)::es.flatMap put).length,0] ++
        (es.flatMap put++[])=tlvBytes 2 (0::es.flatMap put) := by
      rw [append_nil]
      rfl
    rw [hbs] at hr hslices
    have hlist : listElements (tlvBytes 2 (0::es.flatMap put)) .isNeighs 2
        ((0 : Byte)::es.flatMap put).length=.ok r := by
      rw [hval]
      exact hr
    have hend : r.pnt=2+((0 : Byte)::es.flatMap put).length := by
      rw [hpnt,hval,length_puts]
      change 3+_=_
      omega
    have hsize : ((0 : Byte)::es.flatMap put).length≤255 := by omega
    have hpos : 0<((0 : Byte)::es.flatMap put).length := Nat.succ_pos _
    obtain ⟨st,hst,hret,hlst⟩ := parseTlvs_field authTlvOffset rfl he hsize hpos hlist
      hwarned hend
    refine ⟨st,hst,hret,fun x hx => ?_,?_⟩
    · rw [hlst] at hx
      obtain ⟨e,-,rfl⟩ := mem_map.mp hx
      rfl
    rw [hlst,←hslices,listedOf,List.map_map]
    rfl

/-- What is written begins with what was there, and then a field. -/
theorem addLoop_header {es : List IsNeigh} {s s' : Stream} (hne : es≠[])
    (h : addLoop 2 (fun _ => 11) put es [] s=some (.isisOk,s')) :
    ∃ length rest, s'.data=s.data++2::length::rest ∧
      length.toNat=11*min 23 es.length ∧ length.toNat≤rest.length := by
  obtain ⟨s1,hdata,hrs⟩ := addLoop_chunk es [] s s' (by decide) (by decide) h
  have hlen : ((es.take 23).flatMap put).length=11*min 23 es.length := by
    rw [length_puts,length_take]
  have hsmall : ((es.take 23).flatMap put).length≤255 := by omega
  obtain ⟨more,hmore⟩ : ∃ more, s'.data=s1.data++more := by
    rcases hrs with ⟨-,rfl⟩|⟨-,hrs⟩
    · exact ⟨[],(append_nil _).symm⟩
    obtain ⟨first,groups,-,-,-,hmore⟩ := addLoop_groups needs_neighs _ _ _ _ (by decide) hrs
    exact ⟨_,by rw [hmore,append_assoc]⟩
  refine ⟨BitVec.ofNat 8 ((es.take 23).flatMap put).length,(es.take 23).flatMap put++more,?_,?_,?_⟩
  · rw [hmore,hdata,nil_append,append_assoc]
    rfl
  · rw [toNat_length hsmall,hlen]
  rw [toNat_length hsmall,length_append]
  exact Nat.le_add_right _ _

theorem getElem?_header {pre rest : List Byte} {tag : Byte} (h : bytes=pre++tag::length::rest) :
    bytes[pre.length]? = some tag ∧ bytes[pre.length+1]? = some length := by
  subst h
  have hnext := getElem?_append (pre++[tag]) length rest
  rw [length_append,append_assoc] at hnext
  exact ⟨getElem?_append pre tag _,hnext⟩

theorem code_neighs (h : TlvType.ofCode type=.list .isNeighs) : type.toNat=2 := by
  unfold TlvType.ofCode at h
  split at h <;> first | assumption | cases h

/-- A field of neighbours, read from the byte behind its first one on. -/
theorem parseLoop_neighs (k : ℕ) (hlt : st.pnt+2<bytes.length) (ht : bytes[st.pnt]? = some 2)
    (hl : bytes[st.pnt+1]? = some length) (hlow : 11*k≤length.toNat) (hhigh : length.toNat≤11*k+1)
    (hk : 0<k) (h : parseLoop bytes neighsOnly (fuel+1) st=.ok st')
    (hlengths : ∀ x∈st'.listed, (elementBytes bytes x).length=11)
    (hmore : st.listed.length<st'.listed.length) :
    ∃ st1, st1.pnt=st.pnt+3+11*k ∧ st1.pnt≤bytes.length ∧ st1.listed.length=st.listed.length+k ∧
      parseLoop bytes neighsOnly fuel st1=.ok st' := by
  rcases parseLoop_field hlt ht hl h with hsame|⟨r,st1,hloop,hpnt,hlst,hrs⟩
  · rw [hsame] at hmore
    exact (lt_irrefl _ hmore).elim
  obtain ⟨hend,hlen,hlast⟩ := elementLoop_neighs _ _ _ hloop
  obtain ⟨-,found',-,hlater⟩ := parseLoop_keeps fuel hrs
  rcases hlast with hnil|⟨hbound,hmem⟩
  · rw [hnil,length_nil] at hlen
    omega
  have hin := hlengths ⟨.isNeighs,st.pnt+2,length.toNat,r.pnt-11,r.pnt⟩ (by
    rw [hlater,hlst]
    exact mem_append_left _ (mem_append_right _ (mem_map_of_mem hmem)))
  rw [elementBytes,length_slice] at hin
  dsimp only at hin
  have hcnt : r.elements.length=k := by omega
  refine ⟨st1,?_,by omega,?_,hrs⟩
  · rw [hpnt,hend,hcnt]
  · rw [hlst,length_append,listedOf,length_map,hcnt]

/-- The rest of a packet, when the length of a field is read as a type. -/
theorem parseLoop_shifted (hlt : st.pnt+2<bytes.length) (ht : bytes[st.pnt]? = some type)
    (hl : bytes[st.pnt+1]? = some length) (hty : type.toNat≠2)
    (h : parseLoop bytes neighsOnly (fuel+1) st=.ok st')
    (hlengths : ∀ x∈st'.listed, (elementBytes bytes x).length=11)
    (hmore : st.listed.length<st'.listed.length) :
    89*(st'.listed.length-st.listed.length)≤8*(bytes.length-(st.pnt+2)) := by
  obtain ⟨st1,go,hstep,hgo,hlast⟩ := parseLoop_cases hlt h
  have hkeep : st1.listed=st.listed → go=true := by
    intro hlst
    cases go with
    | true => rfl
    | false =>
      rw [hlast rfl,hlst] at hmore
      exact (lt_irrefl _ hmore).elim
  rcases parseStep_neighs hlt ht hl hstep with ⟨r,hneigh,-⟩|⟨hlst,hstop⟩ | ⟨-,hlst,hpnt,hhigh⟩
  · exact (hty (code_neighs hneigh)).elim
  · rw [hkeep hlst] at hstop
    cases hstop
  have hrun := hgo (hkeep hlst)
  obtain ⟨-,found,-,hfnd⟩ := parseLoop_keeps fuel hrun
  have hbound := parseLoop_bound fuel hrun hfnd (fun x hx => hlengths x (by
    rw [hfnd]
    exact mem_append_right _ hx)) hhigh
  have hcnt : st'.listed.length=st.listed.length+found.length := by
    rw [hfnd,length_append,hlst]
  omega

/-- The neighbours of the second field are read one byte too late. -/
theorem neighs_many (hmany : 23<es.length) : ¬RoundTrips .isNeighs tlvAddIsNeighs put es := by
  intro hrd
  obtain ⟨s',hadd⟩ := addLoop_room needs_neighs es [0] (streamNew (257*(es.length+1)))
    (by decide) (le_refl _)
  obtain ⟨st,hparse,-,-,hmap⟩ := hrd.parses _ s' hadd neighsOnly none (by decide)
  have hdrop : s'.data.drop (streamNew (257*(es.length+1))).data.length=s'.data := rfl
  rw [hdrop] at hparse hmap
  have hcnt : st.listed.length=es.length := by
    have h := congrArg length hmap
    rwa [length_map,length_map] at h
  have hlengths : ∀ x∈st.listed, (elementBytes s'.data x).length=11 := by
    intro x hx
    have hmem : elementBytes s'.data x∈es.map put := by
      rw [←hmap]
      exact mem_map_of_mem hx
    obtain ⟨e,-,he⟩ := mem_map.mp hmem
    rw [←he,length_put]
  -- The bytes of the first field, and of what is behind it.
  obtain ⟨s1,hdata1,hrs1⟩ := addLoop_chunk es [0] _ s' (by decide) (by decide) hadd
  have hne : es.drop 23≠[] := by
    intro hnil
    exact not_lt.mpr (drop_eq_nil_iff.mp hnil) hmany
  have hadd1 := (hrs1.resolve_left fun h => hne h.1).2
  have hdropped : (es.drop 23).length=es.length-23 := length_drop
  have hval : ([0]++(es.take 23).flatMap put).length=254 := by
    rw [singleton_append,length_cons,length_puts,length_take]
    omega
  have hlen1 : s1.data.length=256 := by
    rw [hdata1]
    change ([0]++(es.take 23).flatMap put).length+1+1=256
    rw [hval]
  obtain ⟨len,rest,hbs,hlen,hrs⟩ := addLoop_header hne hadd1
  obtain ⟨m,hsize,hm⟩ := length_written _ _ _ _ le_rfl hne hadd1
  have hfst : s'.data=[]++2::BitVec.ofNat 8 254 ::
      ([0]++(es.take 23).flatMap put++2::len::rest) := by
    rw [hbs,hdata1,tlvBytes,hval]
    rfl
  obtain ⟨ht,hl⟩ := getElem?_header hfst
  obtain ⟨ht1,hl1⟩ := getElem?_header hbs
  -- The first field, and the second one.
  obtain ⟨f,hf⟩ : ∃ f, s'.data.length+1=f+3 := ⟨s'.data.length-2,by omega⟩
  rw [parseTlvs,hf] at hparse
  obtain ⟨st1,hpnt1,-,hlst1,hrun1⟩ := parseLoop_neighs 23 (by change 0+2<_; omega) ht hl
    (by decide) (by decide) (by decide) hparse hlengths (by change 0<_; omega)
  have hat := hpnt1.trans hlen1.symm
  have hnone : st1.listed.length=23 := hlst1
  rw [←hat] at ht1 hl1
  obtain ⟨st2,hpnt2,hle2,hlst2,hrun2⟩ := parseLoop_neighs (min 23 (es.drop 23).length)
    (by omega) ht1 hl1 (by omega) (by omega) (by omega) hrun1 hlengths (by omega)
  rcases lt_or_ge 23 (es.drop 23).length with hthird|hlast
  · have hne2 : (es.drop 23).drop 23≠[] := by
      intro hnil
      exact not_lt.mpr (drop_eq_nil_iff.mp hnil) hthird
    obtain ⟨s2,hdata2,hrs2⟩ := addLoop_chunk _ [] _ s' (by decide) (by decide) hadd1
    have hadd2 := (hrs2.resolve_left fun h => hne2 h.1).2
    have hlength2 : s2.data.length=511 := by
      rw [hdata2,length_append,hlen1]
      change 256+((([] : List Byte)++((es.drop 23).take 23).flatMap put).length+1+1)=511
      rw [nil_append,length_puts,length_take]
      omega
    obtain ⟨len2,rest2,hbs2,hlen2,hrs2⟩ := addLoop_header hne2 hadd2
    obtain ⟨m2,hsize2,hm2⟩ := length_written _ _ _ _ le_rfl hne2 hadd2
    obtain ⟨b,more,rfl⟩ := exists_cons_of_length_pos (show 0<rest2.length by omega)
    have hshift : s'.data=(s2.data++[2])++len2::b::more := by
      rw [hbs2,append_assoc]
      rfl
    obtain ⟨ht2,hl2⟩ := getElem?_header hshift
    have hat2 : st2.pnt=(s2.data++[2]).length := by
      rw [length_append,hlength2]
      change _=512
      omega
    rw [←hat2] at ht2 hl2
    have hbound := parseLoop_shifted (by omega) ht2 hl2 (by omega) hrun2 hlengths (by omega)
    omega
  · omega

theorem neighs_iff : RoundTrips .isNeighs tlvAddIsNeighs put es ↔ es.length≤23 := by
  constructor
  · intro hrd
    by_contra hmany
    exact neighs_many es (not_le.mp hmany) hrd
  · exact neighs_single es

end

end RoutePlatform.TlvNeighbours
