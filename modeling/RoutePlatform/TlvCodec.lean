import RoutePlatform.TlvNeighbours

/-!
# The codec of type, length and value fields

Which lists the functions `tlv_add_...` and `parse_tlvs` carry over as they are, and which
packets `parse_tlvs` reads as they are meant.
-/

namespace RoutePlatform.TlvCodec

open StreamOperations TlvOperations TlvElements TlvParsing TlvRoundTrip TlvNeighbours List AreaAddr
  Nat

variable (es : List AreaAddr)

section

variable {α : Type} {tag : Byte} {need : α→ℕ} {put : α→List Byte} {list : TlvList}

/-- Lists whose elements the parser reads as they were stored. -/
theorem roundTrips_plain (hneeds : Needs need put) (hreads : Reads list put)
    (hplain : list ≠ .isNeighs) (hes : list ≠ .esNeighs) (htag : TlvType.ofCode tag=.list list)
    (es : List α) : RoundTrips list (fun es s => addLoop tag need put es [] s) put es where
  stores := fun s => addLoop_ne_none hneeds es [] s (zero_le _)
  parses := by
    intro s s' hadd expected authTlvOffset he
    obtain ⟨first,groups,rfl,hfst,hgroups,hdata⟩ := addLoop_groups hneeds es [] s s'
      (zero_le _) hadd
    rw [nil_append] at hfst hdata
    have hsizes : ∀ g∈first::groups, (g.flatMap put).length≤255 := by
      intro g hg
      rcases mem_cons.mp hg with rfl|hg
      · exact hfst
      · exact hgroups g hg
    have hbs : s'.data.drop s.data.length =
        []++(first::groups).flatMap fun g => tlvBytes tag (g.flatMap put) := by
      rw [hdata,append_assoc,drop_left]
      rfl
    obtain ⟨st,found,hrun,hret,hlst,hlists,hfnd⟩ := parseLoop_groups hreads hplain hes
      htag he (first::groups) [] (startState authTlvOffset) (s'.data.drop s.data.length).length
      _ hsizes hbs rfl (le_add_right _ _)
    have hall : st.listed=found := hlst
    refine ⟨st,hrun,hret,?_,?_⟩
    · rw [hall]
      exact hlists
    rw [hall]
    exact hfnd

theorem exists_stream (hneeds : Needs need put) (es : List α) :
    ∃ s s', addLoop tag need put es [] s=some (.isisOk,s') := by
  obtain ⟨s',hadd⟩ := addLoop_room hneeds es [] (streamNew (257*(es.length+1)))
    (zero_le _) (le_refl _)
  exact ⟨_,s',hadd⟩

theorem byteAt_inside {pre before after post : List Byte} {b : Byte} {n : ℕ}
    (hn : before.length=n) :
    byteAt (pre++(before++b::after++post)) (pre.length+n)=.ok b := by
  have h := getElem?_append (pre++before) b (after++post)
  rw [length_append,hn,append_assoc] at h
  rw [append_assoc]
  exact byteAt_eq h

end

section

theorem length_teIsNeigh (e : TeIsNeigh) : e.put.length=11 := by
  rw [TeIsNeigh.put,length_append,length_append,e.neighId.length_eq,e.teMetric.length_eq]
  rfl

theorem needs_teIsNeighs : Needs (fun _ : TeIsNeigh => 11) TeIsNeigh.put :=
  fun e => ⟨(length_teIsNeigh e).le,show (11 : ℕ)≤255 by decide⟩

theorem reads_teIsNeighs : Reads .teIsNeighs TeIsNeigh.put := by
  intro e pre post
  have hbef : (e.neighId.bytes++e.teMetric.bytes).length=10 := by
    rw [length_append,e.neighId.length_eq,e.teMetric.length_eq]
  have hbyte : byteAt (pre++(e.put++post)) (pre.length+10)=.ok 0 := byteAt_inside hbef
  rw [length_teIsNeigh,elementSize,hbyte]
  exact ⟨by decide,rfl⟩

theorem needs_lanNeighs : Needs (fun _ : Octets 6 => 6) Octets.bytes :=
  fun e => ⟨e.length_eq.le,show (6 : ℕ)≤255 by decide⟩

theorem reads_lanNeighs : Reads .lanNeighs (Octets.bytes : Octets 6→List Byte) := by
  intro e pre post
  rw [e.length_eq]
  exact ⟨by decide,rfl⟩

theorem length_lspEntry (e : LspEntry) : e.put.length=16 := by
  rw [LspEntry.put,length_append,length_append,length_append,
    e.remLifetime.length_eq,e.lspId.length_eq,e.seqNum.length_eq,e.checksum.length_eq]

theorem needs_lspEntries : Needs (fun _ : LspEntry => 16) LspEntry.put :=
  fun e => ⟨(length_lspEntry e).le,show (16 : ℕ)≤255 by decide⟩

theorem reads_lspEntries : Reads .lspEntries LspEntry.put := by
  intro e pre post
  rw [length_lspEntry]
  exact ⟨by decide,rfl⟩

theorem length_ipv4Reachability (e : Ipv4Reachability) : e.put.length=12 := by
  rw [Ipv4Reachability.put,length_append,length_append,e.addr.length_eq,e.mask.length_eq]
  rfl

theorem needs_ipv4Reachs : Needs (fun _ : Ipv4Reachability => 12) Ipv4Reachability.put :=
  fun e => ⟨(length_ipv4Reachability e).le,show (12 : ℕ)≤255 by decide⟩

theorem reads_ipv4Reachs : Reads .ipv4IntReachs Ipv4Reachability.put := by
  intro e pre post
  rw [length_ipv4Reachability]
  exact ⟨by decide,rfl⟩

theorem length_teIpv4Reachability (e : TeIpv4Reachability) :
    e.put.length=5+prefixSize e.control := by
  rw [TeIpv4Reachability.put,length_append,length_append,e.teMetric.length_eq,
    e.prefixStart.length_eq]
  rfl

theorem prefixSize_le {control : Byte} (h : (control &&& 0x3F#8).toNat ≤ ipv4MaxBitlen) :
    prefixSize control≤4 := by
  rw [ipv4MaxBitlen] at h
  rw [prefixSize]
  split <;> omega

theorem needs_teIpv4Reachs :
    Needs (fun e : TeIpv4Reachability => 5+prefixSize e.control) TeIpv4Reachability.put := by
  intro e
  have hsize := prefixSize_le e.valid
  exact ⟨(length_teIpv4Reachability e).le,show 5+prefixSize e.control≤255 by omega⟩

theorem reads_teIpv4Reachs : Reads .teIpv4Reachs TeIpv4Reachability.put := by
  intro e pre post
  have hput : e.put=e.teMetric.bytes++e.control::e.prefixStart.bytes := by
    rw [TeIpv4Reachability.put,append_assoc]
    rfl
  have hbyte : byteAt (pre++(e.put++post)) (pre.length+4)=.ok e.control := by
    rw [hput]
    exact byteAt_inside e.teMetric.length_eq
  rw [length_teIpv4Reachability,elementSize,hbyte]
  exact ⟨by omega,if_neg (not_lt.mpr e.valid)⟩

theorem length_ipv6Reachability (e : Ipv6Reachability) :
    e.put.length=(e.prefixLen.toNat+7)/8+6 := by
  rw [Ipv6Reachability.put,length_append,length_append,e.metric.length_eq,e.addr.length_eq]
  change 4+2+_=_
  omega

theorem needs_ipv6Reachs : Needs (fun _ : Ipv6Reachability => 22) Ipv6Reachability.put := by
  intro e
  have hvalid := e.valid
  rw [ipv6MaxBitlen] at hvalid
  refine ⟨?_,show (22 : ℕ)≤255 by decide⟩
  rw [length_ipv6Reachability]
  change _≤22
  omega

theorem reads_ipv6Reachs : Reads .ipv6Reachs Ipv6Reachability.put := by
  intro e pre post
  have hput : e.put=(e.metric.bytes++[e.controlInfo])++e.prefixLen::e.addr.bytes := by
    rw [Ipv6Reachability.put,append_assoc,append_assoc]
    rfl
  have hbef : (e.metric.bytes++[e.controlInfo]).length=5 := by
    rw [length_append,e.metric.length_eq]
    rfl
  have hbyte : byteAt (pre++(e.put++post)) (pre.length+5)=.ok e.prefixLen := by
    rw [hput]
    exact byteAt_inside hbef
  rw [length_ipv6Reachability,elementSize,hbyte]
  exact ⟨by omega,if_neg (not_lt.mpr e.valid)⟩

/-- Extended neighbours are carried over when they have no sub fields. -/
theorem teIsNeighs_iff (es : List TeIsNeigh) :
    RoundTrips .teIsNeighs tlvAddTeIsNeighs TeIsNeigh.wire es ↔ ∀ e∈es, e.subTlvsLength=0 := by
  have hput : RoundTrips .teIsNeighs tlvAddTeIsNeighs TeIsNeigh.put es :=
    roundTrips_plain needs_teIsNeighs reads_teIsNeighs (by decide) (by decide) rfl es
  have hmap : es.map TeIsNeigh.wire=es.map TeIsNeigh.put ↔ ∀ e∈es, e.subTlvsLength=0 := by
    rw [map_inj_left]
    refine forall₂_congr fun e _ => ?_
    rw [TeIsNeigh.wire,TeIsNeigh.put,append_cancel_left_eq,singleton_inj]
  rw [←hmap]
  constructor
  · intro hwire
    obtain ⟨s,s',hadd⟩ := @exists_stream TeIsNeigh 22 _ _ needs_teIsNeighs es
    obtain ⟨st,hst,-,-,hlst⟩ := hwire.parses s s' hadd TlvList.teIsNeighs.flag none (by decide)
    obtain ⟨st',hst',-,-,hlst'⟩ := hput.parses s s' hadd TlvList.teIsNeighs.flag none (by decide)
    obtain rfl := Except.ok.inj (hst.symm.trans hst')
    exact hlst.symm.trans hlst'
  · intro hsame
    refine ⟨hput.stores,fun s s' hadd expected authTlvOffset he => ?_⟩
    rw [hsame]
    exact hput.parses s s' hadd expected authTlvOffset he

end

section

theorem length_area (e : AreaAddr) : e.put.length=e.areaAddr.length+1 := rfl

/-- The buffer is large enough exactly when no leading part of the list takes 256 bytes. -/
theorem areaLoop_ne_none_iff : ∀ value : List Byte, value.length≤255 → (areaLoop es value≠none ↔
      ∀ n, value.length+((es.take n).flatMap put).length≠256) := by
  induction es with
  | nil =>
    intro value hval
    have hn : ∀ n, value.length+(([] : List AreaAddr).take n |>.flatMap put).length ≠
        256 := by
      intro n
      rw [take_nil]
      change value.length+0≠256
      omega
    exact ⟨fun _ => hn,nofun⟩
  | cons e es ih =>
    intro value hval
    have hsto : (value++e.put).length=value.length+(e.areaAddr.length+1) := by
      rw [length_append,length_area]
    have htake : ∀ n, (((e::es).take (n+1)).flatMap put).length =
        e.areaAddr.length+1+((es.take n).flatMap put).length := by
      intro n
      rw [take_succ_cons,flatMap_cons,length_append,length_area]
    rw [areaLoop]
    by_cases hroom : value.length+e.areaAddr.length > 255
    · rw [if_pos hroom]
      refine ⟨fun _ n => ?_,nofun⟩
      cases n with
      | zero =>
        change value.length+0≠256
        omega
      | succ n =>
        rw [htake]
        omega
    rw [if_neg hroom]
    by_cases hfull : (value++e.put).length > 255
    · rw [if_pos hfull]
      refine ⟨fun h => (h rfl).elim,fun h => ?_⟩
      have hone := h 1
      rw [htake] at hone
      change value.length+(e.areaAddr.length+1+0)≠256 at hone
      omega
    rw [if_neg hfull,ih _ (not_lt.mp hfull),hsto]
    constructor
    · intro h n
      cases n with
      | zero =>
        change value.length+0≠256
        omega
      | succ n =>
        rw [htake,←add_assoc]
        exact h n
    · intro h n
      have hn := h (n+1)
      rwa [htake,←add_assoc] at hn

theorem areaLoop_ok : ∀ {value value' : List Byte}, value.length≤255 →
    areaLoop es value=some (.ok value') →
    value'=value++es.flatMap put ∧ value'.length≤255 := by
  induction es with
  | nil =>
    intro value value' hval h
    cases h
    rw [flatMap_nil,append_nil]
    exact ⟨rfl,hval⟩
  | cons e es ih =>
    intro value value' hval h
    rw [areaLoop] at h
    split at h
    · cases h
    split at h
    · cases h
    rename_i hfull
    rw [flatMap_cons,←append_assoc]
    exact ih (not_lt.mp hfull) h

theorem reads_areas : Reads .areaAddrs AreaAddr.put := by
  intro e pre post
  have hfits := e.fits
  have hbyte : byteAt (pre++(e.put++post)) pre.length=.ok (BitVec.ofNat 8 e.areaAddr.length) :=
    byteAt_eq (getElem?_append pre _ _)
  have hlen : (BitVec.ofNat 8 e.areaAddr.length).toNat=e.areaAddr.length :=
    toNat_length (by omega)
  rw [elementSize,hbyte,length_area]
  refine ⟨succ_pos _,?_⟩
  change Except.ok (some ((BitVec.ofNat 8 e.areaAddr.length).toNat+1))=_
  rw [hlen]

theorem areaLoop_error : ∀ {value : List Byte} {ret : IsisRet},
    areaLoop es value=some (.error ret) → ret=.isisWarning := by
  induction es with
  | nil =>
    intro value ret h
    cases h
  | cons e es ih =>
    intro value ret h
    rw [areaLoop] at h
    split at h
    · cases h
      rfl
    split at h
    · cases h
    · exact ih h

/-- Area addresses are carried over when no leading part of the list takes 256 bytes. -/
theorem areaAddrs_iff : RoundTrips .areaAddrs tlvAddAreaAddrs AreaAddr.put es ↔
      ∀ n, ((es.take n).flatMap put).length≠256 := by
  have hbuffer := areaLoop_ne_none_iff es [] (zero_le _)
  simp only [length_nil,zero_add] at hbuffer
  have hstores : (∀ s, tlvAddAreaAddrs es s≠none) ↔ areaLoop es []≠none := by
    constructor
    · intro h hnone
      refine h (streamNew 0) ?_
      rw [tlvAddAreaAddrs,hnone]
      rfl
    · intro h s hnone
      exact h (Option.map_eq_none_iff.mp hnone)
  rw [←hbuffer,←hstores]
  refine ⟨fun h => h.stores,fun h => ⟨h,fun s s' hadd expected authTlvOffset he => ?_⟩⟩
  obtain ⟨res,hres,hwritten⟩ := Option.map_eq_some_iff.mp hadd
  cases res with
  | error ret =>
    cases hwritten
    cases areaLoop_error es hres
  | ok value =>
    obtain ⟨rfl,hval⟩ := areaLoop_ok es (zero_le _) hres
    rw [nil_append] at hval
    have hdata := addTlv_ok hval hwritten
    have hbs : s'.data.drop s.data.length =
        []++[es].flatMap fun g => tlvBytes 1 (g.flatMap put) := by
      rw [hdata,drop_left,nil_append,flatMap_singleton]
    have hsizes : ∀ g∈[es], (g.flatMap put).length≤255 := by
      intro g hg
      rw [mem_singleton.mp hg]
      exact hval
    obtain ⟨st,found,hrun,hret,hlst,hlists,hfnd⟩ := parseLoop_groups reads_areas
      (by decide) (by decide) rfl he [es] [] (startState authTlvOffset)
      (s'.data.drop s.data.length).length _ hsizes hbs rfl (le_add_right _ _)
    rw [flatten_singleton] at hfnd
    have hall : st.listed=found := hlst
    refine ⟨st,hrun,hret,?_,?_⟩
    · rw [hall]
      exact hlists
    rw [hall]
    exact hfnd

end

/-- **The codec.** Area addresses are carried over exactly when no leading part takes 256 bytes,
neighbours when at most 23, extended ones without sub fields, other lists always. The parser ends,
and is right exactly when the packet is cut well. -/
theorem tlvCodec_iff (bytes : List Byte) (expected : BitVec 32)
    (authTlvOffset : Option (BitVec 32)) :
    (∀ es, RoundTrips .areaAddrs tlvAddAreaAddrs AreaAddr.put es ↔
      ∀ n, ((es.take n).flatMap AreaAddr.put).length≠256) ∧
    (∀ es, RoundTrips .isNeighs tlvAddIsNeighs IsNeigh.put es ↔ es.length≤23) ∧
    (∀ es, RoundTrips .teIsNeighs tlvAddTeIsNeighs TeIsNeigh.wire es ↔ ∀ e∈es, e.subTlvsLength=0) ∧
    (∀ es, RoundTrips .lanNeighs tlvAddLanNeighs Octets.bytes es) ∧
    (∀ es, RoundTrips .lspEntries tlvAddLspEntries LspEntry.put es) ∧
    (∀ es, RoundTrips .ipv4IntReachs tlvAddIpv4Reachs Ipv4Reachability.put es) ∧
    (∀ es, RoundTrips .teIpv4Reachs tlvAddTeIpv4Reachs TeIpv4Reachability.put es) ∧
    (∀ es, RoundTrips .ipv6Reachs tlvAddIpv6Reachs Ipv6Reachability.put es) ∧
    parseTlvs bytes expected authTlvOffset ≠ .error .stuck ∧
    (ParsesWell bytes expected authTlvOffset ↔ WellCut bytes expected 0) := by
  refine ⟨areaAddrs_iff,neighs_iff,teIsNeighs_iff,?_,?_,?_,?_,?_,
    parseTlvs_ne_stuck authTlvOffset,parsesWell_iff authTlvOffset⟩
  · exact roundTrips_plain needs_lanNeighs reads_lanNeighs (by decide) (by decide) rfl
  · exact roundTrips_plain needs_lspEntries reads_lspEntries (by decide) (by decide) rfl
  · exact roundTrips_plain needs_ipv4Reachs reads_ipv4Reachs (by decide) (by decide) rfl
  · exact roundTrips_plain needs_teIpv4Reachs reads_teIpv4Reachs (by decide) (by decide) rfl
  · exact roundTrips_plain needs_ipv6Reachs reads_ipv6Reachs (by decide) (by decide) rfl

def exampleNeigh : IsNeigh := ⟨⟨10,0,0,0⟩,⟨[0,0,0,0,0,1,0],rfl⟩⟩

/-- A field with three bytes of LAN neighbours, and an area address. -/
def examplePacket : List Byte := [6,3,0,0,0,1,4,73,0,1]

/-- Twenty-four neighbours are not carried over, and a field runs into the next. -/
theorem tlvCodec_loses :
    ¬RoundTrips .isNeighs tlvAddIsNeighs IsNeigh.put (List.replicate 24 exampleNeigh) ∧
    ¬ParsesWell examplePacket TlvList.lanNeighs.flag none := by
  constructor
  · rw [neighs_iff,length_replicate]
    decide
  · rintro ⟨st,hst,-,hinside⟩
    have hlisted : (parseTlvs examplePacket TlvList.lanNeighs.flag none).map ParseState.listed =
        .ok [⟨.lanNeighs,2,3,2,8⟩] := rfl
    rw [hst] at hlisted
    have hone := Except.ok.inj hlisted
    have hin := hinside ⟨.lanNeighs,2,3,2,8⟩ (by rw [hone]; exact mem_singleton_self _)
    exact absurd hin.2 (by decide)

end RoutePlatform.TlvCodec
