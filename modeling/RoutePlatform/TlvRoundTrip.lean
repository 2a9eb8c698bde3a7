import RoutePlatform.TlvParsing

/-!
# Adding and parsing fields

The functions `tlv_add_...` cut a list into groups that fit into one field each. What they
write is parsed as the same elements when every field begins with an element.
-/

namespace RoutePlatform.TlvRoundTrip

open StreamOperations TlvOperations TlvElements TlvParsing List

variable (pre : List Byte) {value : List Byte}

section

variable {α : Type} {tag : Byte} {need : α→ℕ} {put : α→List Byte} {e : α} (es : List α) (s : Stream)

def tlvBytes (tag : Byte) (value : List Byte) : List Byte := tag::BitVec.ofNat 8 value.length::value

section

variable {value : List Byte} (h : value.length≤255)
include h

theorem toNat_length : (BitVec.ofNat 8 value.length).toNat=value.length := by
  rw [BitVec.toNat_ofNat]
  exact Nat.mod_eq_of_lt (by omega)

theorem addTlv_eq (s : Stream) : addTlv tag value s =
      match s.put (tlvBytes tag value) with
      | some s => (.isisOk,s)
      | none => (.isisWarning,s) := by
  rw [addTlv,toNat_length h,take_length]
  rfl

theorem addTlv_ok {s s' : Stream}
    (hadd : addTlv tag value s=(.isisOk,s')) : s'.data=s.data++tlvBytes tag value := by
  rw [addTlv_eq h] at hadd
  cases hput : s.put (tlvBytes tag value) with
  | none =>
    rw [hput] at hadd
    cases hadd
  | some s1 =>
    rw [hput] at hadd
    cases hadd
    exact (put_eq_some hput).1

theorem addTlv_room {s : Stream} (hroom : 257 ≤ s.writeable) :
    ∃ s', addTlv tag value s=(.isisOk,s') ∧ s.writeable ≤ s'.writeable+257 := by
  have hlen : (tlvBytes tag value).length=value.length+2 := rfl
  have hfits : (tlvBytes tag value).length ≤ s.writeable := by omega
  obtain ⟨s',hput⟩ := exists_put hfits
  refine ⟨s',?_,?_⟩
  · rw [addTlv_eq h,hput]
  have hw := writeable_of_put hput
  omega

end

/-- What the test for room takes for an element is enough, and fits into the buffer. -/
def Needs (need : α → ℕ) (put : α → List Byte) : Prop := ∀ e, (put e).length≤need e ∧ need e≤255

theorem addLoop_fits (h : value.length+need e≤255) (hput : (put e).length≤need e) :
    addLoop tag need put (e::es) value s=addLoop tag need put es (value++put e) s := by
  have hfull : decide (value.length+need e > 255)=false := decide_eq_false (not_lt.mpr h)
  have hsto : ¬(value++put e).length > 255 := by
    rw [length_append]
    omega
  rw [addLoop,hfull]
  rw [if_neg (by exact fun h => h rfl)]
  exact if_neg hsto

theorem addLoop_cut (h : 255<value.length+need e) (hput : (put e).length≤255) :
    addLoop tag need put (e::es) value s =
      if (addTlv tag value s).1=.isisOk then
        addLoop tag need put es (put e) (addTlv tag value s).2
      else some (addTlv tag value s) := by
  have hfull : decide (value.length+need e > 255)=true := decide_eq_true h
  rw [addLoop,hfull]
  rw [if_pos rfl,if_pos rfl,nil_append]
  by_cases hok : (addTlv tag value s).1=.isisOk
  · rw [if_neg (fun h => h hok),if_pos hok]
    exact if_neg (not_lt.mpr hput)
  · rw [if_pos hok,if_neg hok]

variable (hneeds : Needs need put)
include hneeds

theorem addLoop_ne_none (es : List α) :
    ∀ (value : List Byte) (s : Stream), value.length≤255 →
      addLoop tag need put es value s≠none := by
  induction es with
  | nil =>
    intro value s _ h
    cases h
  | cons e es ih =>
    intro value s hval
    obtain ⟨hput,hneed⟩ := hneeds e
    rcases lt_or_ge 255 (value.length+need e) with hcut|hfits
    · rw [addLoop_cut es s hcut (hput.trans hneed)]
      split
      · exact ih _ _ (hput.trans hneed)
      intro h
      cases h
    rw [addLoop_fits es s hfits hput]
    refine ih _ _ ?_
    rw [length_append]
    omega

/-- What is written: the first field with what was stored before, and the other fields. -/
theorem addLoop_groups (es : List α) :
    ∀ (value : List Byte) (s s' : Stream), value.length≤255 →
      addLoop tag need put es value s=some (.isisOk,s') →
      ∃ (first : List α) (groups : List (List α)), es=first++groups.flatten ∧
        (value++first.flatMap put).length≤255 ∧
        (∀ g∈groups, (g.flatMap put).length≤255) ∧
        s'.data=s.data++tlvBytes tag (value++first.flatMap put) ++
          groups.flatMap fun g => tlvBytes tag (g.flatMap put) := by
  induction es with
  | nil =>
    intro value s s' hval h
    rw [addLoop] at h
    refine ⟨[],[],rfl,?_,fun g hg => (not_mem_nil hg).elim,?_⟩
    · rw [flatMap_nil,append_nil]
      exact hval
    rw [addTlv_ok hval (Option.some.inj h),flatMap_nil,flatMap_nil,append_nil,append_nil]
  | cons e es ih =>
    intro value s s' hval h
    obtain ⟨hput,hneed⟩ := hneeds e
    rcases lt_or_ge 255 (value.length+need e) with hcut|hfits
    · rw [addLoop_cut es s hcut (hput.trans hneed)] at h
      split at h
      · rename_i hok
        obtain ⟨first,groups,rfl,hfst,hgroups,hdata⟩ := ih _ _ _ (hput.trans hneed) h
        have hwritten := addTlv_ok hval (Prod.ext hok rfl)
        refine ⟨[],(e::first)::groups,?_,?_,fun g hg => ?_,?_⟩
        · rw [flatten_cons,nil_append,cons_append]
        · rw [flatMap_nil,append_nil]
          exact hval
        · rcases mem_cons.mp hg with rfl|hg
          · rw [flatMap_cons]
            exact hfst
          · exact hgroups g hg
        rw [hdata,hwritten,flatMap_nil,append_nil,flatMap_cons,
          flatMap_cons,append_assoc,append_assoc]
      · rename_i hbad
        exact (hbad (congrArg Prod.fst (Option.some.inj h))).elim
    · rw [addLoop_fits es s hfits hput] at h
      have hval' : (value++put e).length≤255 := by
        rw [length_append]
        omega
      obtain ⟨first,groups,rfl,hfst,hgroups,hdata⟩ := ih _ _ _ hval' h
      refine ⟨e::first,groups,rfl,?_,hgroups,?_⟩
      · rw [flatMap_cons,←append_assoc]
        exact hfst
      · rw [hdata,flatMap_cons,←append_assoc value]

theorem addLoop_room (es : List α) :
    ∀ (value : List Byte) (s : Stream), value.length≤255 → 257*(es.length+1) ≤ s.writeable →
      ∃ s', addLoop tag need put es value s=some (.isisOk,s') := by
  induction es with
  | nil =>
    intro value s hval hroom
    obtain ⟨s',hadd,-⟩ := @addTlv_room tag value hval s (by omega)
    exact ⟨s',by rw [addLoop,hadd]⟩
  | cons e es ih =>
    intro value s hval hroom
    obtain ⟨hput,hneed⟩ := hneeds e
    rw [length_cons] at hroom
    rcases lt_or_ge 255 (value.length+need e) with hcut|hfits
    · obtain ⟨s1,hadd,hleft⟩ := @addTlv_room tag value hval s (by omega)
      rw [addLoop_cut es s hcut (hput.trans hneed),hadd,if_pos rfl]
      exact ih _ _ (hput.trans hneed) (by change _ ≤ s1.writeable; omega)
    rw [addLoop_fits es s hfits hput]
    refine ih _ _ ?_ (by omega)
    rw [length_append]
    omega

end

section

variable {α : Type} {tag : Byte} {put : α→List Byte} {list : TlvList}

def slice (bytes : List Byte) (start stop : ℕ) : List Byte := (bytes.drop start).take (stop-start)

/-- The bytes of an element in a list. -/
def elementBytes (bytes : List Byte) (x : Listed) : List Byte := slice bytes x.start x.stop

theorem slice_append (value post : List Byte) :
    slice (pre++(value++post)) pre.length (pre.length+value.length)=value := by
  rw [slice,drop_left,Nat.add_sub_cancel_left,take_left]

theorem getElem?_append (b : Byte) (post : List Byte) : (pre++b::post)[pre.length]? = some b := by
  rw [getElem?_append_right le_rfl,Nat.sub_self]
  rfl

/-- The parser goes on behind what is stored for an element. -/
def Reads (list : TlvList) (put : α→List Byte) : Prop :=
  ∀ e pre post, 0<(put e).length ∧
    elementSize (pre++(put e++post)) list pre.length=.ok (some (put e).length)

theorem elementLoop_group (hreads : Reads list put) (g : List α) :
    ∀ (pre post : List Byte) (length fuel v : ℕ), length=v+(g.flatMap put).length → length<fuel+v →
      ∃ r, elementLoop (pre++(g.flatMap put++post)) list length fuel pre.length v=.ok r ∧
        r.warned=false ∧ r.pnt=pre.length+(g.flatMap put).length ∧
        r.elements.map (fun e => slice (pre++(g.flatMap put++post)) e.1 e.2)=g.map put := by
  induction g with
  | nil =>
    intro pre post length fuel v hlen hfuel
    obtain ⟨f,rfl⟩ : ∃ f, fuel=f+1 := ⟨fuel-1,by omega⟩
    have hdone : length≤v := hlen.le
    exact ⟨_,elementLoop_done hdone,rfl,rfl,rfl⟩
  | cons e g ih =>
    intro pre post length fuel v hlen hfuel
    obtain ⟨hpos,hsize⟩ := hreads e pre (g.flatMap put++post)
    rw [flatMap_cons,length_append] at hlen
    obtain ⟨f,rfl⟩ : ∃ f, fuel=f+1 := ⟨fuel-1,by omega⟩
    obtain ⟨r,hr,hwarned,hpnt,hslices⟩ := ih (pre++put e) post length f
      (v+(put e).length) (by omega) (by omega)
    have hbs : pre++put e++(g.flatMap put++post) = pre++((e::g).flatMap put++post) := by
      rw [flatMap_cons,append_assoc,append_assoc]
    rw [hbs,length_append] at hr
    rw [hbs] at hslices
    have hsize' : elementSize (pre++((e::g).flatMap put++post)) list pre.length =
        .ok (some (put e).length) := by
      rw [←hbs,append_assoc]
      exact hsize
    have hfst : slice (pre++((e::g).flatMap put++post)) pre.length
        (pre.length+(put e).length)=put e := by
      rw [←hbs,append_assoc]
      exact slice_append pre (put e) _
    refine ⟨{r with elements := (pre.length,pre.length+(put e).length)::r.elements},
      ?_,hwarned,?_,?_⟩
    · rw [elementLoop_next (by omega) hsize',hr]
      rfl
    · rw [hpnt,flatMap_cons,length_append,length_append,add_assoc]
    · rw [map_cons,map_cons,hslices,hfst]

theorem listElements_group (hreads : Reads list put) (hplain : list ≠ .isNeighs)
    (hes : list ≠ .esNeighs) (g : List α) (pre post : List Byte) :
    ∃ r, listElements (pre++(g.flatMap put++post)) list pre.length (g.flatMap put).length = .ok r ∧
      r.warned=false ∧ r.pnt=pre.length+(g.flatMap put).length ∧
      r.elements.map (fun e => slice (pre++(g.flatMap put++post)) e.1 e.2)=g.map put := by
  obtain ⟨r,hr,hwarned,hpnt,hslices⟩ := elementLoop_group hreads g pre post _
    ((g.flatMap put).length+1) 0 (zero_add _).symm (Nat.lt_succ_self _)
  cases list with
  | isNeighs => exact (hplain rfl).elim
  | esNeighs => exact (hes rfl).elim
  | teIpv4Reachs | ipv6Reachs =>
    exact ⟨{r with pnt := pre.length+(g.flatMap put).length},by rw [listElements,hr]; rfl,
      hwarned,rfl,hslices⟩
  | areaAddrs | teIsNeighs | lanNeighs | lspEntries | ipv4Addrs | ipv4IntReachs | ipv4ExtReachs
  | ipv6Addrs => exact ⟨r,hr,hwarned,hpnt,hslices⟩

variable {expected : BitVec 32}

theorem parseStep_field {pre value post : List Byte} {st : ParseState} {r : LoopResult}
    (htag : TlvType.ofCode tag=.list list) (he : Expected expected (.list list))
    (hval : value.length≤255) (hpnt : st.pnt=pre.length)
    (hr : listElements (pre++(tlvBytes tag value++post)) list (pre.length+2) value.length=.ok r) :
    parseStep (pre++(tlvBytes tag value++post)) expected st = .ok ({st with
        pnt := r.pnt
        headers := st.headers++[(st.pnt,value.length)]
        retval := if r.warned then .isisWarning else st.retval
        found := st.found ||| list.flag
        listed := st.listed++listedOf list (pre.length+2) value.length r},true) := by
  have ht : (pre++(tlvBytes tag value++post))[st.pnt]? = some tag := by
    rw [hpnt]
    exact getElem?_append pre tag _
  have hl : (pre++(tlvBytes tag value++post))[st.pnt+1]? =
      some (BitVec.ofNat 8 value.length) := by
    have h := getElem?_append (pre++[tag]) (BitVec.ofNat 8 value.length) (value++post)
    rw [length_append,append_assoc] at h
    rw [hpnt]
    exact h
  have hfits : ¬st.pnt+2+(BitVec.ofNat 8 value.length).toNat >
      (pre++(tlvBytes tag value++post)).length := by
    rw [toNat_length hval,hpnt,length_append,length_append]
    change ¬pre.length+2+value.length > pre.length+(value.length+1+1+post.length)
    omega
  rw [←hpnt] at hr
  rw [parseStep_eq ht hl,if_neg hfits,toNat_length hval,htag,←hpnt]
  exact tlvSwitch_list he hr

theorem groups_of_short (hreads : Reads list put) (g : List α) (groups : List (List α))
    (hshort : ((g::groups).flatMap fun g => tlvBytes tag (g.flatMap put)).length≤2) :
    (g::groups).flatten=[] := by
  have hlen : ∀ value : List Byte, (tlvBytes tag value).length=value.length+2 := fun _ => rfl
  rw [flatMap_cons,length_append,hlen] at hshort
  cases groups with
  | nil =>
    cases g with
    | nil => rfl
    | cons e g =>
      have hpos := (hreads e [] []).1
      rw [flatMap_cons,length_append] at hshort
      omega
  | cons g' groups =>
    rw [flatMap_cons,length_append,hlen] at hshort
    omega

/-- The parser over the fields of a list. -/
theorem parseLoop_groups (hreads : Reads list put) (hplain : list ≠ .isNeighs)
    (hes : list ≠ .esNeighs) (htag : TlvType.ofCode tag=.list list)
    (he : Expected expected (.list list)) (groups : List (List α)) :
    ∀ (pre : List Byte) (st : ParseState) (fuel : ℕ) (bytes : List Byte),
      (∀ g∈groups, (g.flatMap put).length≤255) →
      bytes=pre++groups.flatMap (fun g => tlvBytes tag (g.flatMap put)) →
      st.pnt=pre.length → bytes.length≤fuel+st.pnt →
      ∃ st' found, parseLoop bytes expected (fuel+1) st=.ok st' ∧ st'.retval=st.retval ∧
        st'.listed=st.listed++found ∧ (∀ x∈found, x.list=list) ∧
        found.map (elementBytes bytes)=groups.flatten.map put := by
  induction groups with
  | nil =>
    rintro pre st fuel bytes-rfl hpnt hfuel
    refine ⟨st,[],parseLoop_end ?_,rfl,(append_nil _).symm,fun x hx => (not_mem_nil hx).elim,rfl⟩
    rw [flatMap_nil,append_nil,hpnt]
    omega
  | cons g groups ih =>
    rintro pre st fuel bytes hsizes rfl hpnt hfuel
    rcases lt_or_ge (st.pnt+2) (pre++(g::groups).flatMap fun g =>
      tlvBytes tag (g.flatMap put)).length with hlt | hge
    · obtain ⟨f,rfl⟩ : ∃ f, fuel=f+1 := ⟨fuel-1,by omega⟩
      have hsize := hsizes g mem_cons_self
      have hbs : pre++(g::groups).flatMap (fun g => tlvBytes tag (g.flatMap put)) =
          pre++(tlvBytes tag (g.flatMap put) ++
            groups.flatMap fun g => tlvBytes tag (g.flatMap put)) := by
        rw [flatMap_cons]
      have hhead : ∀ post, pre++[tag,BitVec.ofNat 8 (g.flatMap put).length] ++
          (g.flatMap put++post)=pre++(tlvBytes tag (g.flatMap put)++post) := fun post => by
        rw [append_assoc]
        rfl
      obtain ⟨r,hr,hwarned,hend,hslices⟩ := listElements_group hreads hplain hes g
        (pre++[tag,BitVec.ofNat 8 (g.flatMap put).length])
        (groups.flatMap fun g => tlvBytes tag (g.flatMap put))
      rw [hhead] at hr hslices
      rw [length_append] at hr hend
      have hfield := parseStep_field htag he hsize hpnt hr
      rw [←hbs] at hfield hslices
      obtain ⟨st1,hstep,hpnt1,hret1,hlst1⟩ : ∃ st1, parseStep (pre++(g::groups).flatMap
            fun g => tlvBytes tag (g.flatMap put)) expected st=.ok (st1,true) ∧
          st1.pnt=r.pnt ∧ st1.retval=st.retval ∧ st1.listed=st.listed ++
            listedOf list (pre.length+2) (g.flatMap put).length r :=
        ⟨_,hfield,rfl,by rw [hwarned]; rfl,rfl⟩
      have hnext : pre++(g::groups).flatMap (fun g => tlvBytes tag (g.flatMap put)) =
          pre++tlvBytes tag (g.flatMap put) ++
            groups.flatMap fun g => tlvBytes tag (g.flatMap put) := by
        rw [hbs,append_assoc]
      have hpnt' : st1.pnt=(pre++tlvBytes tag (g.flatMap put)).length := by
        rw [hpnt1,hend,length_append]
        change pre.length+2+_=pre.length+((g.flatMap put).length+1+1)
        omega
      have hforward : st.pnt+2 ≤ st1.pnt := by
        rw [hpnt1,hend,hpnt]
        exact Nat.le_add_right _ _
      obtain ⟨st',found,hrun,hret,hlst,hlists,hfnd⟩ := ih
        (pre++tlvBytes tag (g.flatMap put)) st1 f _
        (fun x hx => hsizes x (.tail _ hx)) hnext hpnt' (by omega)
      refine ⟨st',listedOf list (pre.length+2) (g.flatMap put).length r++found,?_,?_,?_,?_,?_⟩
      · rw [parseLoop_step hlt hstep]
        exact hrun
      · rw [hret,hret1]
      · rw [hlst,hlst1,append_assoc]
      · intro x hx
        rcases mem_append.mp hx with hx|hx
        · obtain ⟨e,-,rfl⟩ := mem_map.mp hx
          rfl
        · exact hlists x hx
      rw [map_append,hfnd,flatten_cons,map_append,←hslices,listedOf,map_map]
      rfl
    · rw [length_append,hpnt] at hge
      have hnone := groups_of_short hreads g groups (le_of_add_le_add_left hge)
      refine ⟨st,[],parseLoop_end ?_,rfl,(append_nil _).symm,fun x hx => (not_mem_nil hx).elim,?_⟩
      · rw [length_append,hpnt]
        exact hge
      rw [hnone]
      rfl

theorem parseTlvs_field {r : LoopResult} (authTlvOffset : Option (BitVec 32))
    (htag : TlvType.ofCode tag=.list list) (he : Expected expected (.list list))
    (hval : value.length≤255) (hpos : 0<value.length)
    (hr : listElements (tlvBytes tag value) list 2 value.length=.ok r) (hwarned : r.warned=false)
    (hend : r.pnt=2+value.length) :
    ∃ st, parseTlvs (tlvBytes tag value) expected authTlvOffset=.ok st ∧ st.retval=.isisOk ∧
      st.listed=listedOf list 2 value.length r := by
  have hlen : (tlvBytes tag value).length=value.length+2 := rfl
  have hlt : (startState authTlvOffset).pnt+2<(tlvBytes tag value).length := by
    change 0+2<(tlvBytes tag value).length
    omega
  have hwhole : []++(tlvBytes tag value++[])=tlvBytes tag value := by rw [nil_append,append_nil]
  have hr' : listElements ([]++(tlvBytes tag value++[])) list (([] : List Byte).length+2)
      value.length=.ok r := by
    rw [hwhole]
    exact hr
  have hpnt : (startState authTlvOffset).pnt=([] : List Byte).length := rfl
  have hstep := @parseStep_field tag list expected [] value [] (startState authTlvOffset) r htag he
    hval hpnt hr'
  rw [hwhole] at hstep
  rw [hwarned] at hstep
  obtain ⟨st,hst,hpnt',hret,hlst⟩ : ∃ st, parseStep (tlvBytes tag value) expected
        (startState authTlvOffset)=.ok (st,true) ∧ st.pnt=r.pnt ∧ st.retval=.isisOk ∧
      st.listed=listedOf list 2 value.length r := ⟨_,hstep,rfl,rfl,rfl⟩
  refine ⟨st,?_,hret,hlst⟩
  rw [parseTlvs,parseLoop_step hlt hst,hlen]
  refine parseLoop_end ?_
  rw [hpnt',hend,hlen]
  omega

end

end RoutePlatform.TlvRoundTrip
