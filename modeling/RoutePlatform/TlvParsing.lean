import RoutePlatform.TlvElements

/-!
# Parsing type, length and value fields

`parse_tlvs` advances by the sizes of the elements until it has passed the declared length of a
field. When they do not end where the field does, an element reaches behind its field, and the
next header is read at a wrong place. In a packet that is cut well the sizes add up to the
declared lengths.
-/

namespace RoutePlatform.TlvParsing

open TlvOperations TlvElements List Option TlvType Nat

variable {length : ℕ} {type : Byte} (authTlvOffset : Option (BitVec 32)) {st1 : ParseState}

/-- Every header stands where the field before it ends. -/
def Chained : ℕ→List (ℕ × ℕ)→Prop
  | _, [] => True
  | off, h::hs => h.1=off ∧ Chained (off+2+h.2) hs

/-- The element lies wholly inside the value of its field. -/
def Inside (x : Listed) : Prop := x.tlv≤x.start ∧ x.stop≤x.tlv+x.length

/-- The parser ends inside, reads headers where fields end, and elements inside fields. -/
def ParsesWell (bytes : List Byte) (expected : BitVec 32) (authTlvOffset : Option (BitVec 32)) :
    Prop :=
  ∃ st, parseTlvs bytes expected authTlvOffset=.ok st ∧ Chained 0 st.headers ∧
    ∀ x∈st.listed, Inside x

/-- From a position on, the fields of interest are cut well. -/
inductive WellCut (bytes : List Byte) (expected : BitVec 32) : ℕ→Prop
  | stop {off : ℕ} : bytes.length≤off+2 → WellCut bytes expected off
  | exceeds {off : ℕ} {length : Byte} : bytes[off+1]? = some length →
    bytes.length<off+2+length.toNat → WellCut bytes expected off
  /-- Neighbours without a virtual flag, at the end of the packet. -/
  | noVirtual {off : ℕ} {type : Byte} : bytes[off]? = some type →
    TlvType.ofCode type=.list .isNeighs → Expected expected (.list .isNeighs) →
    bytes[off+1]? = some 0 → bytes.length≤off+5 → WellCut bytes expected off
  | noAuth {off : ℕ} {type : Byte} : bytes[off]? = some type →
    TlvType.ofCode type=.authInfo → Expected expected .authInfo → bytes[off+1]? = some 0 →
    WellCut bytes expected off
  | listed {off : ℕ} {type length : Byte} {list : TlvList} : bytes[off]? = some type →
    TlvType.ofCode type=.list list → bytes[off+1]? = some length →
    ValueCut bytes list (off+2) length.toNat→WellCut bytes expected (off+2+length.toNat) →
    WellCut bytes expected off
  | skipped {off : ℕ} {type length : Byte} : bytes[off]? = some type →
    (∀ list, TlvType.ofCode type=.list list → ¬Expected expected (.list list)) →
    bytes[off+1]? = some length → WellCut bytes expected (off+2+length.toNat) →
    WellCut bytes expected off

section

variable {bytes : List Byte} {expected : BitVec 32}

variable {st : ParseState}

theorem parseStep_eq {length : Byte} (ht : bytes[st.pnt]? = some type)
    (hl : bytes[st.pnt+1]? = some length) :
    parseStep bytes expected st =
      if st.pnt+2+length.toNat > bytes.length then
        .ok ({st with
          pnt := st.pnt+2
          headers := st.headers++[(st.pnt,length.toNat)]
          retval := .isisWarning},false)
      else tlvSwitch bytes expected (ofCode type) length.toNat {st with
          pnt := st.pnt+2
          headers := st.headers++[(st.pnt,length.toNat)]} := by
  rw [parseStep,byteAt_eq ht,byteAt_eq hl]
  rfl

/-- A field that is not of interest is skipped. -/
theorem tlvSwitch_skip {type : TlvType}
    (hskip : ∀ list, type=.list list → ¬Expected expected (.list list))
    (hauth : type=.authInfo → Expected expected .authInfo → length≠0) (hread : st.pnt<bytes.length) :
    ∃ st', tlvSwitch bytes expected type length st=.ok (st',true) ∧
      st'.pnt=st.pnt+length ∧ st'.headers=st.headers ∧ st'.listed=st.listed := by
  cases type with
  | list l =>
    refine ⟨{st with
      pnt := st.pnt+length
      found := st.found ||| flag (.list l)},?_,rfl,rfl,rfl⟩
    rw [tlvSwitch,listTlv,if_neg (hskip l rfl)]
    rfl
  | authInfo =>
    by_cases he : Expected expected .authInfo
    · obtain ⟨b,-,hb⟩ := byteAt_of_lt hread
      refine ⟨{st with
        pnt := st.pnt+length
        found := st.found ||| flag .authInfo
        authInfo := some ⟨b,length-1,(bytes.drop (st.pnt+1)).take (length-1)⟩
        authTlvOffset := st.authTlvOffset.map fun o =>
          o+BitVec.ofNat 32 (st.pnt+1-3)},?_,rfl,rfl,rfl⟩
      rw [tlvSwitch,authTlv,if_pos he,hb]
      exact if_neg (hauth rfl he)
    refine ⟨{st with
      pnt := st.pnt+length
      found := st.found ||| flag .authInfo},?_,rfl,rfl,rfl⟩
    rw [tlvSwitch,authTlv]
    exact if_neg he
  | padding | checksum | protocolsSupported | dynamicHostname | teRouterId | way3Hello
  | gracefulRestart | other => exact ⟨_,rfl,rfl,rfl,rfl⟩

/-- The elements of a field of interest. -/
def listedOf (list : TlvList) (tlv length : ℕ) (r : LoopResult) : List Listed :=
  r.elements.map fun e => ⟨list,tlv,length,e.1,e.2⟩

variable {list : TlvList}

theorem tlvSwitch_list (he : Expected expected (.list list)) {r : LoopResult}
    (hr : listElements bytes list st.pnt length=.ok r) :
    tlvSwitch bytes expected (.list list) length st = .ok ({st with
        pnt := r.pnt
        retval := if r.warned then .isisWarning else st.retval
        found := st.found ||| list.flag
        listed := st.listed++listedOf list st.pnt length r},true) := by
  have hr' : listElements bytes list
      {st with found := st.found ||| flag (.list list)}.pnt length=.ok r := hr
  rw [tlvSwitch,listTlv,if_pos he,hr']
  rfl

theorem tlvSwitch_list_error (he : Expected expected (.list list)) {e : Fault}
    (hr : listElements bytes list st.pnt length=.error e) :
    tlvSwitch bytes expected (.list list) length st=.error e := by
  have hr' : listElements bytes list
      {st with found := st.found ||| flag (.list list)}.pnt length=.error e := hr
  rw [tlvSwitch,listTlv,if_pos he,hr']
  rfl

variable {st' : ParseState}

theorem elementLoop_yields {q : ℕ} (fuel : ℕ) : ∀ {p v : ℕ}, q≤p → length≤fuel+v →
    Yields (fun r => q≤r.pnt) (elementLoop bytes list length (fuel+1) p v) := by
  induction fuel with
  | zero =>
    intro p v hle hfuel
    rw [elementLoop_done (by omega)]
    exact hle
  | succ fuel ih =>
    intro p v hle hfuel
    rw [elementLoop]
    split
    · refine (elementSize_yields bytes list p).bind fun size hsize => ?_
      cases size with
      | none => exact hle
      | some size =>
        have hpos := hsize size rfl
        exact (ih (hle.trans (le_add_right p size)) (by omega)).bind fun r hr => hr
    · exact hle

theorem listElements_yields (bytes : List Byte) (list : TlvList) (p length : ℕ) :
    Yields (fun r => p≤r.pnt) (listElements bytes list p length) := by
  have hloop (l : TlvList) (v : ℕ) :
      Yields (fun r => p≤r.pnt) (elementLoop bytes l length (length+1) (p+v) v) :=
    elementLoop_yields length (le_add_right p v) (le_add_right length v)
  cases list with
  | isNeighs => exact (yields_byteAt bytes p).bind fun _ _ => hloop .isNeighs 1
  | esNeighs => exact (hloop .esNeighs 4).bind fun r hr => hr
  | teIpv4Reachs => exact (hloop .teIpv4Reachs 0).bind fun r _ => le_add_right p length
  | ipv6Reachs => exact (hloop .ipv6Reachs 0).bind fun r _ => le_add_right p length
  | areaAddrs | teIsNeighs | lanNeighs | lspEntries | ipv4Addrs | ipv4IntReachs | ipv4ExtReachs
  | ipv6Addrs => exact hloop _ 0

/-- Every round keeps what was found, and goes forward. -/
theorem tlvSwitch_yields (bytes : List Byte) (expected : BitVec 32) (type : TlvType) (length : ℕ)
    (st : ParseState) :
    Yields (fun a => a.1.headers=st.headers ∧ (∃ found, a.1.listed=st.listed++found) ∧
      (a.2=true → st.pnt≤a.1.pnt)) (tlvSwitch bytes expected type length st) := by
  have hsame : ∃ found, st.listed=st.listed++found := ⟨[],(append_nil _).symm⟩
  have hle := le_add_right st.pnt length
  cases type with
  | list l =>
    refine Yields.bind (P := fun st' => st'.headers=st.headers ∧
      (∃ found, st'.listed=st.listed++found) ∧ st.pnt ≤ st'.pnt) ?_
      fun st' h => ⟨h.1,h.2.1,fun _ => h.2.2⟩
    rw [listTlv]
    split
    · exact (listElements_yields bytes l _ length).bind fun r hr => ⟨rfl,⟨_,rfl⟩,hr⟩
    · exact ⟨rfl,hsame,hle⟩
  | authInfo =>
    rw [tlvSwitch,authTlv]
    split
    · refine (yields_byteAt bytes _).bind fun b _ => ?_
      split
      · exact ⟨rfl,hsame,nofun⟩
      · exact ⟨rfl,hsame,fun _ => hle⟩
    · exact ⟨rfl,hsame,fun _ => hle⟩
  | padding | checksum | protocolsSupported | dynamicHostname | teRouterId | way3Hello
  | gracefulRestart | other => exact ⟨rfl,hsame,fun _ => hle⟩

theorem parseStep_keeps {go : Bool} (h : parseStep bytes expected st=.ok (st',go)) :
    ∃ length found, st'.headers=st.headers++[(st.pnt,length)] ∧ st'.listed=st.listed++found := by
  obtain ⟨type,ht,h'⟩ := bind_byteAt h
  obtain ⟨length,hl,-⟩ := bind_byteAt h'
  rw [parseStep_eq ht hl] at h
  split at h
  · cases h
    exact ⟨length.toNat,[],rfl,(append_nil _).symm⟩
  have hkept := tlvSwitch_yields bytes expected (ofCode type) length.toNat {st with
    pnt := st.pnt+2
    headers := st.headers++[(st.pnt,length.toNat)]}
  rw [h] at hkept
  obtain ⟨hhs,⟨found,hlst⟩,-⟩ := hkept
  exact ⟨length.toNat,found,hhs,hlst⟩

theorem parseLoop_keeps : ∀ (fuel : ℕ) {st st' : ParseState},
    parseLoop bytes expected fuel st=.ok st' →
    ∃ hs found, st'.headers=st.headers++hs ∧ st'.listed=st.listed++found := by
  intro fuel
  induction fuel with
  | zero =>
    intro st st' h
    cases h
  | succ fuel ih =>
    intro st st' h
    rw [parseLoop] at h
    split at h
    · cases hstep : parseStep bytes expected st with
      | error e =>
        rw [hstep] at h
        cases h
      | ok r =>
        obtain ⟨length,found,hhs,hlst⟩ := parseStep_keeps hstep
        rw [hstep] at h
        change (if r.2 then parseLoop bytes expected fuel r.1 else .ok r.1)=_ at h
        split at h
        · obtain ⟨hs,found',hhs',hlst'⟩ := ih h
          refine ⟨(st.pnt,length)::hs,found++found',?_,?_⟩
          · rw [hhs',hhs,append_assoc,singleton_append]
          · rw [hlst',hlst,append_assoc]
        cases h
        exact ⟨[(st.pnt,length)],found,hhs,hlst⟩
    · cases h
      exact ⟨[],[],(append_nil _).symm,(append_nil _).symm⟩

/-- From a state on, the rest of the packet is parsed as it should be. -/
def GoodFrom (bytes : List Byte) (expected : BitVec 32) (fuel : ℕ) (st : ParseState) : Prop :=
  ∃ st' hs found, parseLoop bytes expected fuel st=.ok st' ∧ st'.headers=st.headers++hs ∧
    st'.listed=st.listed++found ∧ Chained st.pnt hs ∧ ∀ x∈found, Inside x

variable {fuel : ℕ}

theorem parseLoop_step (hlt : st.pnt+2<bytes.length)
    (hstep : parseStep bytes expected st=.ok (st1,true)) :
    parseLoop bytes expected (fuel+1) st=parseLoop bytes expected fuel st1 := by
  rw [parseLoop,if_pos hlt,hstep]
  rfl

theorem parseLoop_last (hlt : st.pnt+2<bytes.length)
    (hstep : parseStep bytes expected st=.ok (st1,false)) :
    parseLoop bytes expected (fuel+1) st=.ok st1 := by
  rw [parseLoop,if_pos hlt,hstep]
  rfl

theorem parseLoop_end (hge : bytes.length ≤ st.pnt+2) :
    parseLoop bytes expected (fuel+1) st=.ok st := by
  rw [parseLoop,if_neg (not_lt.mpr hge)]

/-- A round that goes on where the field ends. -/
theorem goodFrom_step {found : List Listed} (hlt : st.pnt+2<bytes.length)
    (hstep : parseStep bytes expected st=.ok (st1,true)) (hpnt : st1.pnt=st.pnt+2+length)
    (hheaders : st1.headers=st.headers++[(st.pnt,length)]) (hlst : st1.listed=st.listed++found) :
    GoodFrom bytes expected (fuel+1) st ↔
      (∀ x∈found, Inside x) ∧ GoodFrom bytes expected fuel st1 := by
  unfold GoodFrom
  rw [parseLoop_step hlt hstep,hheaders,hlst,hpnt]
  constructor
  · rintro ⟨st',hs,all,hrun,hh,hl,hchain,hin⟩
    obtain ⟨hs',found',hh',hl'⟩ := parseLoop_keeps fuel hrun
    rw [hheaders,append_assoc] at hh'
    rw [hlst,append_assoc] at hl'
    have hhs : hs=(st.pnt,length)::hs' := append_cancel_left (hh.symm.trans hh')
    have hall := append_cancel_left (hl.symm.trans hl')
    rw [hhs] at hchain
    refine ⟨fun x hx => hin x ?_,st',hs',found',hrun,?_,?_,hchain.2,fun x hx => hin x ?_⟩
    · rw [hall]
      exact mem_append_left _ hx
    · rw [hh',append_assoc]
    · rw [hl',append_assoc]
    rw [hall]
    exact mem_append_right _ hx
  · rintro ⟨hfnd,st',hs',found',hrun,hh',hl',hchain,hin⟩
    refine ⟨st',(st.pnt,length)::hs',found++found',hrun,?_,?_,⟨rfl,hchain⟩,fun x hx => ?_⟩
    · rw [hh',append_assoc]
      rfl
    · rw [hl',append_assoc]
    rcases mem_append.mp hx with hx|hx
    · exact hfnd x hx
    · exact hin x hx

theorem goodFrom_last (hlt : st.pnt+2<bytes.length)
    (hstep : parseStep bytes expected st=.ok (st1,false))
    (hhs : st1.headers=st.headers++[(st.pnt,length)]) (hlst : st1.listed=st.listed) :
    GoodFrom bytes expected (fuel+1) st :=
  ⟨st1,[(st.pnt,length)],[],parseLoop_last hlt hstep,hhs,
    by rw [hlst,append_nil],⟨rfl,trivial⟩,fun x hx => (not_mem_nil hx).elim⟩

theorem wellCut_next {off : ℕ} {length : Byte} (ht : bytes[off]? = some type)
    (hl : bytes[off+1]? = some length) (hlt : off+2<bytes.length)
    (hfits : off+2+length.toNat≤bytes.length) (h : WellCut bytes expected off) :
    (ofCode type=.list .isNeighs ∧ Expected expected (.list .isNeighs) ∧ length=0 ∧
        bytes.length≤off+5) ∨
      (ofCode type=.authInfo ∧ Expected expected .authInfo ∧ length=0) ∨
      ((∀ list, ofCode type=.list list → Expected expected (.list list) →
        ValueCut bytes list (off+2) length.toNat) ∧
        WellCut bytes expected (off+2+length.toNat)) := by
  cases h with
  | stop hle => omega
  | exceeds hl' hlt' =>
    obtain rfl := some.inj (hl.symm.trans hl')
    omega
  | noVirtual ht' hty he hl' hle =>
    obtain rfl := some.inj (hl.symm.trans hl')
    obtain rfl := some.inj (ht.symm.trans ht')
    exact Or.inl ⟨hty,he,rfl,hle⟩
  | noAuth ht' hty he hl' =>
    obtain rfl := some.inj (hl.symm.trans hl')
    obtain rfl := some.inj (ht.symm.trans ht')
    exact Or.inr (Or.inl ⟨hty,he,rfl⟩)
  | listed ht' hty hl' hcut hrs =>
    obtain rfl := some.inj (hl.symm.trans hl')
    obtain rfl := some.inj (ht.symm.trans ht')
    refine Or.inr (Or.inr ⟨fun list hlist _ => ?_,hrs⟩)
    rw [hty] at hlist
    cases hlist
    exact hcut
  | skipped ht' hnot hl' hrs =>
    obtain rfl := some.inj (hl.symm.trans hl')
    obtain rfl := some.inj (ht.symm.trans ht')
    exact Or.inr (Or.inr ⟨fun list hlist he => (hnot list hlist he).elim,hrs⟩)

section

variable (ht : bytes[st.pnt]? = some type)
include ht

/-- Neighbours without a virtual flag: the next byte is taken for it. -/
theorem goodFrom_noVirtual (hl : bytes[st.pnt+1]? = some 0) (hlt : st.pnt+2<bytes.length)
    (hty : ofCode type=.list .isNeighs) (he : Expected expected (.list .isNeighs)) :
    GoodFrom bytes expected (fuel+2) st ↔ bytes.length ≤ st.pnt+5 := by
  obtain ⟨b,-,hb⟩ := byteAt_of_lt hlt
  have hr : listElements bytes .isNeighs (st.pnt+2) 0=.ok ⟨[],st.pnt+3,false⟩ := by
    have hdone : elementLoop bytes .isNeighs 0 (0+1) (st.pnt+3) 1 =
        .ok ⟨[],st.pnt+3,false⟩ := elementLoop_done (zero_le 1)
    rw [listElements,hb]
    exact hdone
  have hstep : parseStep bytes expected st=.ok ({st with
      pnt := st.pnt+3
      found := st.found ||| TlvList.flag .isNeighs
      headers := st.headers++[(st.pnt,0)]},true) := by
    have hfits : ¬st.pnt+2+(0 : Byte).toNat > bytes.length := not_lt.mpr hlt.le
    have hr' : listElements bytes .isNeighs ({st with
        pnt := st.pnt+2
        headers := st.headers++[(st.pnt,0)]} : ParseState).pnt 0 =
        .ok ⟨[],st.pnt+3,false⟩ := hr
    have hsw := tlvSwitch_list he hr'
    rw [listedOf,map_nil,append_nil] at hsw
    rw [parseStep_eq ht hl,if_neg hfits,hty]
    exact hsw
  constructor
  · rintro ⟨st',hs,found,hrun,hh,-,hchain,-⟩
    by_contra hle
    rw [parseLoop_step hlt hstep,parseLoop] at hrun
    have hmore : st.pnt+3+2<bytes.length := by omega
    rw [if_pos hmore] at hrun
    cases hnext : parseStep bytes expected {st with
      pnt := st.pnt+3
      found := st.found ||| TlvList.flag .isNeighs
      headers := st.headers++[(st.pnt,0)]} with
    | error e =>
      rw [hnext] at hrun
      cases hrun
    | ok r =>
      obtain ⟨length,_,hhs,-⟩ := parseStep_keeps hnext
      rw [hnext] at hrun
      have hlater : ∃ hs', st'.headers=r.1.headers++hs' := by
        change (if r.2 then parseLoop bytes expected fuel r.1 else .ok r.1)=_ at hrun
        split at hrun
        · obtain ⟨hs',_,hh',-⟩ := parseLoop_keeps fuel hrun
          exact ⟨hs',hh'⟩
        cases hrun
        exact ⟨[],(append_nil _).symm⟩
      obtain ⟨hs',hh'⟩ := hlater
      have hall : hs=(st.pnt,0)::(st.pnt+3,length)::hs' := by
        rw [hh',hhs,append_assoc,append_assoc] at hh
        exact (append_cancel_left hh).symm
      rw [hall] at hchain
      have hwrong : st.pnt+3=st.pnt+2+0 := hchain.2.1
      omega
  · intro hle
    have hrun := (parseLoop_step hlt hstep).trans (@parseLoop_end bytes expected _ fuel hle)
    exact ⟨_,[(st.pnt,0)],[],hrun,rfl,(append_nil _).symm,⟨rfl,trivial⟩,
      fun x hx => (not_mem_nil hx).elim⟩

variable {length : Byte} (hl : bytes[st.pnt+1]? = some length) (hlt : st.pnt+2<bytes.length)
  (hfits : st.pnt+2+length.toNat≤bytes.length)
include hl hlt hfits

/-- A field of interest with a virtual flag, when it is one of neighbours. -/
theorem goodFrom_listed
    (hty : ofCode type=.list list) (he : Expected expected (.list list))
    (hvirtual : list=.isNeighs → 1≤length.toNat)
    (ih : ∀ st' : ParseState, st'.pnt=st.pnt+2+length.toNat →
      (GoodFrom bytes expected fuel st' ↔ WellCut bytes expected st'.pnt)) :
    GoodFrom bytes expected (fuel+1) st ↔ ValueCut bytes list (st.pnt+2) length.toNat ∧
        WellCut bytes expected (st.pnt+2+length.toNat) := by
  have hsw := @parseStep_eq type bytes expected st length ht hl
  rw [if_neg (not_lt.mpr hfits),hty] at hsw
  cases hr : listElements bytes list (st.pnt+2) length.toNat with
  | error e =>
    have hstep := hsw.trans (tlvSwitch_list_error he hr)
    constructor
    · rintro ⟨st',hs,found,hrun,-⟩
      rw [parseLoop,if_pos hlt,hstep] at hrun
      cases hrun
    · rintro ⟨hcut,-⟩
      obtain ⟨r,hr',-⟩ := listElements_of_cut hfits hcut
      rw [hr] at hr'
      cases hr'
  | ok r =>
    have hstep := hsw.trans (tlvSwitch_list he hr)
    have hinside : (∀ x∈listedOf list (st.pnt+2) length.toNat r, Inside x) ↔
        ElementsInside r (st.pnt+2) length.toNat := by
      constructor
      · exact fun h e hmem => h _ (mem_map_of_mem hmem)
      · intro h x hx
        obtain ⟨e,hmem,rfl⟩ := mem_map.mp hx
        exact h e hmem
    constructor
    · intro hgood
      have hcut : ValueCut bytes list (st.pnt+2) length.toNat := by
        obtain ⟨st',hs,found,hrun,hh,hlst,hchain,hin⟩ := hgood
        rw [parseLoop_step hlt hstep] at hrun
        obtain ⟨hs',found',-,hlst'⟩ := parseLoop_keeps fuel hrun
        rw [append_assoc] at hlst'
        have hall : found=listedOf list (st.pnt+2) length.toNat r++found' :=
          append_cancel_left (hlst.symm.trans hlst')
        refine cut_of_listElements hr (hinside.mp fun x hx => hin x ?_) hvirtual
        rw [hall]
        exact mem_append_left _ hx
      obtain ⟨r',hr',hin',hpnt⟩ := listElements_of_cut hfits hcut
      obtain rfl : r'=r := Except.ok.inj (hr'.symm.trans hr)
      have hrs := ((goodFrom_step hlt hstep hpnt rfl rfl).mp hgood).2
      refine ⟨hcut,?_⟩
      have hnext := (ih _ hpnt).mp hrs
      rwa [hpnt] at hnext
    · rintro ⟨hcut,hrs⟩
      obtain ⟨r',hr',hin',hpnt⟩ := listElements_of_cut hfits hcut
      obtain rfl : r'=r := Except.ok.inj (hr'.symm.trans hr)
      refine (goodFrom_step hlt hstep hpnt rfl rfl).mpr ⟨hinside.mpr hin',(ih _ hpnt).mpr ?_⟩
      rw [hpnt]
      exact hrs

theorem goodFrom_skipped
    (hskip : ∀ list, ofCode type=.list list → ¬Expected expected (.list list))
    (hauth : ofCode type=.authInfo → Expected expected .authInfo → length.toNat≠0)
    (ih : ∀ st' : ParseState, st'.pnt=st.pnt+2+length.toNat →
      (GoodFrom bytes expected fuel st' ↔ WellCut bytes expected st'.pnt)) :
    GoodFrom bytes expected (fuel+1) st ↔ WellCut bytes expected (st.pnt+2+length.toNat) := by
  have hsw := @parseStep_eq type bytes expected st length ht hl
  rw [if_neg (not_lt.mpr hfits)] at hsw
  obtain ⟨st1,hst1,hpnt,hhs,hlst⟩ := @tlvSwitch_skip length.toNat bytes expected {st with
      pnt := st.pnt+2
      headers := st.headers++[(st.pnt,length.toNat)]} (ofCode type)
    hskip hauth hlt
  have hnone : st1.listed=st.listed++[] := by rw [hlst,append_nil]
  rw [goodFrom_step hlt (hsw.trans hst1) hpnt hhs hnone,ih st1 hpnt,hpnt]
  exact ⟨fun h => h.2,fun h => ⟨fun x hx => (not_mem_nil hx).elim,h⟩⟩

end

theorem byte_eq_zero {length : Byte} (h : length.toNat=0) : length=0 := BitVec.eq_of_toNat_eq h

/-- The rest of a packet is parsed as it should be exactly when it is cut well. -/
theorem goodFrom_iff : ∀ (fuel : ℕ) (st : ParseState), bytes.length≤fuel+st.pnt →
    (GoodFrom bytes expected (fuel+1) st ↔ WellCut bytes expected st.pnt) := by
  intro fuel
  induction fuel with
  | zero =>
    intro st hfuel
    have hge : bytes.length ≤ st.pnt+2 := by omega
    exact ⟨fun _ => .stop hge,fun _ => ⟨st,[],[],parseLoop_end hge,(append_nil _).symm,
      (append_nil _).symm,trivial,fun x hx => (not_mem_nil hx).elim⟩⟩
  | succ fuel ih =>
    intro st hfuel
    rcases lt_or_ge (st.pnt+2) bytes.length with hlt|hge
    · obtain ⟨type,ht,-⟩ := byteAt_of_lt (show st.pnt<bytes.length by omega)
      obtain ⟨length,hl,-⟩ := byteAt_of_lt (show st.pnt+1<bytes.length by omega)
      rcases lt_or_ge bytes.length (st.pnt+2+length.toNat) with hexceeds|hfits
      · have hsw := @parseStep_eq type bytes expected st length ht hl
        rw [if_pos hexceeds] at hsw
        exact ⟨fun _ => .exceeds hl hexceeds,fun _ => goodFrom_last hlt hsw rfl rfl⟩
      have hih : ∀ st' : ParseState, st'.pnt=st.pnt+2+length.toNat →
          (GoodFrom bytes expected (fuel+1) st' ↔ WellCut bytes expected st'.pnt) :=
        fun st' hst' => ih st' (by omega)
      by_cases hlist : ∃ list, TlvType.ofCode type=.list list ∧ Expected expected (.list list)
      · obtain ⟨list,hty,he⟩ := hlist
        by_cases hvirtual : list=.isNeighs ∧ length.toNat=0
        · obtain ⟨rfl,hz⟩ := hvirtual
          obtain rfl := byte_eq_zero hz
          rw [goodFrom_noVirtual ht hl hlt hty he]
          constructor
          · exact fun hle => .noVirtual ht hty he hl hle
          · intro hcut
            rcases wellCut_next ht hl hlt hfits hcut with ⟨-,-,-,hle⟩|⟨hauth,-⟩|⟨hval,-⟩
            · exact hle
            · rw [hty] at hauth
              cases hauth
            · exact (not_succ_le_zero 0 (hval .isNeighs hty he).1).elim
        · have hpos : list=.isNeighs → 1≤length.toNat := fun h =>
            one_le_iff_ne_zero.mpr fun hz => hvirtual ⟨h,hz⟩
          rw [goodFrom_listed ht hl hlt hfits hty he hpos hih]
          constructor
          · exact fun h => .listed ht hty hl h.1 h.2
          · intro hcut
            rcases wellCut_next ht hl hlt hfits hcut with ⟨hneigh,-,hz,-⟩|⟨hauth,-⟩|hnext
            · rw [hty] at hneigh
              have hlist := TlvType.list.inj hneigh
              have hle := hpos hlist
              rw [hz] at hle
              exact (not_succ_le_zero 0 hle).elim
            · rw [hty] at hauth
              cases hauth
            · exact ⟨hnext.1 list hty he,hnext.2⟩
      · have hskip : ∀ list, TlvType.ofCode type=.list list → ¬Expected expected (.list list) :=
          fun list hty he => hlist ⟨list,hty,he⟩
        by_cases hauth : TlvType.ofCode type=.authInfo ∧ Expected expected .authInfo ∧
            length.toNat=0
        · obtain ⟨hty,he,hz⟩ := hauth
          obtain rfl := byte_eq_zero hz
          obtain ⟨b,-,hb⟩ := byteAt_of_lt hlt
          have hsw := @parseStep_eq type bytes expected st 0 ht hl
          rw [if_neg (not_lt.mpr hfits),hty,tlvSwitch,authTlv,if_pos he,hb] at hsw
          exact ⟨fun _ => .noAuth ht hty he hl,fun _ => goodFrom_last hlt hsw rfl rfl⟩
        rw [goodFrom_skipped ht hl hlt hfits hskip
          (fun hty he hz => hauth ⟨hty,he,hz⟩) hih]
        constructor
        · exact fun h => .skipped ht hskip hl h
        · intro hcut
          rcases wellCut_next ht hl hlt hfits hcut with ⟨hty,he,-⟩|⟨hty,he,hz⟩|hnext
          · exact (hskip _ hty he).elim
          · rw [hz] at hauth
            exact (hauth ⟨hty,he,rfl⟩).elim
          · exact hnext.2
    · exact ⟨fun _ => .stop hge,fun _ => ⟨st,[],[],parseLoop_end hge,(append_nil _).symm,
        (append_nil _).symm,trivial,fun x hx => (not_mem_nil hx).elim⟩⟩

theorem parsesWell_iff : ParsesWell bytes expected authTlvOffset ↔ WellCut bytes expected 0 := by
  refine Iff.trans ?_ (goodFrom_iff bytes.length (startState authTlvOffset) (le_add_right _ _))
  constructor
  · rintro ⟨st,hrun,hchain,hin⟩
    exact ⟨st,st.headers,st.listed,hrun,rfl,rfl,hchain,hin⟩
  · rintro ⟨st,hs,found,hrun,hh,hl,hchain,hin⟩
    have hhs : st.headers=hs := hh
    have hlst : st.listed=found := hl
    refine ⟨st,hrun,?_,?_⟩
    · rw [hhs]
      exact hchain
    rw [hlst]
    exact hin

theorem parseStep_yields (bytes : List Byte) (expected : BitVec 32) (st : ParseState) :
    Yields (fun a => a.2=true → st.pnt<a.1.pnt) (parseStep bytes expected st) := by
  refine (yields_byteAt bytes _).bind fun type _ => (yields_byteAt bytes _).bind fun length _ => ?_
  dsimp only
  split
  · exact nofun
  have hkept := tlvSwitch_yields bytes expected (ofCode type) length.toNat {st with
    pnt := st.pnt+2
    headers := st.headers++[(st.pnt,length.toNat)]}
  generalize tlvSwitch bytes expected _ _ _=a at *
  cases a with
  | error e => exact hkept
  | ok a => exact fun hgo => (Nat.lt_add_of_pos_right two_pos).trans_le (hkept.2.2 hgo)

theorem parseLoop_yields (fuel : ℕ) : ∀ {st : ParseState}, bytes.length≤fuel+st.pnt →
    Yields (fun _ => True) (parseLoop bytes expected (fuel+1) st) := by
  induction fuel with
  | zero =>
    intro st hfuel
    rw [parseLoop_end (by omega)]
    trivial
  | succ fuel ih =>
    intro st hfuel
    rw [parseLoop]
    split
    · refine (parseStep_yields bytes expected st).bind fun a hgo => ?_
      split
      · rename_i hmore
        have hlt := hgo hmore
        exact ih (by omega)
      · trivial
    · trivial

theorem parseTlvs_ne_stuck : parseTlvs bytes expected authTlvOffset ≠ .error .stuck := by
  intro h
  have hyields : Yields (fun _ => True) (parseTlvs bytes expected authTlvOffset) :=
    parseLoop_yields bytes.length (le_add_right _ _)
  rw [h] at hyields
  cases hyields

end

end RoutePlatform.TlvParsing
