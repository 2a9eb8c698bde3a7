import RoutePlatform.AttrVerdicts

/-!
# The functions for the single attributes

Each function that `bgp_attr_parse` calls for an attribute answers as the
verdict on its value says, and leaves behind what the value says. The
functions differ in what they read and in how they find a value malformed;
what follows from either is shared.
-/

namespace RoutePlatform.AttrSwitch

open StreamOperations AsPathSynthesis AttrOperations AttrParsing AttrReading AttrVerdicts List
  Option Gathered Bool

variable {peer : Peer} {h : AttrHeader} {startp : ℕ} {v ys : List (BitVec 8)} {s s' : AttrState}
  {code : AttrCode} {k : ℕ}

/-- The codes that `bgp_attr_malformed` ignores. -/
def Ignorable (code : AttrCode) : Prop :=
  code=.as4Aggregator ∨ code=.aggregator ∨ code=.atomicAggregate

instance decidableIgnorable (code : AttrCode) : Decidable (Ignorable code) :=
  inferInstanceAs (Decidable (_ ∨ _))

theorem malformedVerdict_ne_accept (hcode : AttrCode.ofType h.type=some code)
    (hcore : ¬Ignorable code) : malformedVerdict peer h ≠ .accept := by
  unfold malformedVerdict
  rw [hcode]
  split
  · decide
  cases code with
  | as4Aggregator | aggregator | atomicAggregate => exact absurd (by decide) hcore
  | as4Path =>
    dsimp only
    split <;> decide
  | origin | asPath | nextHop | multiExitDisc | localPref | communities | originatorId
  | clusterList | mpReachNlri | mpUnreachNlri | extCommunities =>
    dsimp only
    decide

/-- A function for an attribute answers as the verdict on the value says. -/
def Keeps (peer : Peer) (h : AttrHeader) (startp : ℕ) (v : List (BitVec 8)) (s : AttrState)
    (r : AttrParseRet × AttrState) : Prop :=
  Outcome h startp (gatherSwitch peer h v (gathered s)) s r (switchVerdict peer h v)

variable {r : AttrParseRet × AttrState}

theorem outcome_switch (hready : Ready h startp v ys s) (hcode : AttrCode.ofType h.type=some code)
    (hmp : code ≠ .mpReachNlri ∧ code ≠ .mpUnreachNlri)
    (haccept : valueOk peer code v=true →
      Outcome h startp ((gathered s).add peer code v) s r .accept)
    (hmalformed : valueOk peer code v=false → ∃ subcode length s',
      r=bgpAttrMalformed peer (h.args startp) subcode length s' ∧
        s'.ibuf.data=s.ibuf.data ∧ s'.notified=s.notified ∧
        (gathered s'=gathered s ∨ ¬Ignorable code)) :
    Keeps peer h startp v s r := by
  unfold Keeps gatherSwitch switchVerdict
  rw [hcode]
  dsimp only
  cases hok : valueOk peer code v with
  | true => exact haccept hok
  | false =>
    obtain ⟨subcode,length,s',rfl,hdata,hnotified,hgather⟩ := hmalformed hok
    have hsettle : Outcome h startp (gathered s) s
        (bgpAttrMalformed peer (h.args startp) subcode length s')
        (malformedVerdict peer h).settle := by
      refine outcome_settle (malformed_outcome hready subcode length hdata hnotified rfl)
        fun haccept => ?_
      rcases hgather with hgather|hcore
      · exact hgather
      · exact absurd haccept (malformedVerdict_ne_accept hcode hcore)
    cases code with
    | mpReachNlri => exact absurd rfl hmp.1
    | mpUnreachNlri => exact absurd rfl hmp.2
    | origin | asPath | nextHop | multiExitDisc | localPref | atomicAggregate | aggregator
    | communities | originatorId | clusterList | extCommunities | as4Path | as4Aggregator =>
      exact hsettle

variable {n : ℕ}

theorem length_ne (hlen : h.length=n) : ¬(h.args startp).length≠n := not_not.mpr hlen

section

variable (hready : Ready h startp v ys s)
include hready

theorem outcome_length {length : ℕ} (hcode : AttrCode.ofType h.type=some code)
    (hmp : code ≠ .mpReachNlri ∧ code ≠ .mpUnreachNlri)
    (hval : valueOk peer code v=decide (v.length=n))
    (hgood : h.length=n → Outcome h startp ((gathered s).add peer code v) s r .accept) :
    Keeps peer h startp v s (if (h.args startp).length≠n then
      bgpAttrMalformed peer (h.args startp) .attrLengErr length s else r) := by
  refine outcome_switch hready hcode hmp (fun hok => ?_) fun hok => ?_
  · rw [hval,decide_eq_true_iff,hready.length] at hok
    rw [if_neg (length_ne hok)]
    exact hgood hok
  rw [hval,decide_eq_false_iff_not,hready.length] at hok
  exact ⟨_,length,s,if_pos hok,rfl,rfl,.inl rfl⟩

theorem slice_value (hk : k+n≤h.length) : (skipState s k).ibuf.rest.take n=(v.drop k).take n := by
  have hlen : k+n≤v.length := by
    rw [hready.length]
    exact hk
  have hdrop : n≤(v.drop k).length := by
    rw [length_drop]
    omega
  rw [skipState_ibuf,rest_skip,hready.rest,drop_append_of_le_length (by omega),
    take_append_of_le_length hdrop]

theorem take_value (hn : n≤h.length) : s.ibuf.rest.take n=v.take n := by
  have hlen : n≤v.length := by
    rw [hready.length]
    exact hn
  rw [hready.rest,take_append_of_le_length hlen]

theorem take_length : s.ibuf.rest.take h.length=v := by
  rw [hready.rest,←hready.length,take_left]

theorem getD_value (hk : k<h.length) : s.ibuf.rest.getD k 0=v.getD k 0 := by
  have hlt : k<v.length := by
    rw [hready.length]
    exact hk
  rw [hready.rest,List.getD,getElem?_append_left hlt]
  rfl

end

theorem getD_skip (t : Stream) (k : ℕ) : (skip t k).rest.getD 0 0=t.rest.getD k 0 := by
  rw [rest_skip,List.getD,getElem?_drop,add_zero]
  rfl

section

variable (hready : Ready h startp v ys s)
include hready

theorem getl_value (hlen : h.length=4) : s.getl=(word32 v,skipState s 4) := by
  have hread := hready.readable
  have hword := take_length hready
  rw [hlen] at hread hword
  rw [getl_eq hread,hword]

theorem getl_last (hlen : h.length=k+4) :
    (skipState s k).getl=(word32 (v.drop k),skipState s (k+4)) := by
  have hread := hready.readable
  have hlast : (v.drop k).length=4 := by
    rw [length_drop,hready.length]
    omega
  have hnext : 4≤(skipState s k).ibuf.readable := by
    rw [skipState_ibuf,skip_readable]
    omega
  rw [getl_eq hnext,slice_value hready (by omega),take_of_length_le hlast.le,skipState_skipState]

theorem forward_value (f : Attr→Attr) :
    (s.modifyAttr f).forwardGetp (h.args startp).length=skipState (s.modifyAttr f) h.length :=
  forwardGetp_eq hready.readable

end

theorem skip_length (hlen : h.length=n) : skip s.ibuf n=skip s.ibuf h.length := by rw [hlen]

theorem bgpAttrOrigin_outcome (hready : Ready h startp v ys s)
    (hcode : AttrCode.ofType h.type=some .origin) :
    Keeps peer h startp v s (bgpAttrOrigin peer (h.args startp) s) := by
  by_cases hlen : h.length=1
  · have hread := hready.readable
    rw [hlen] at hread
    have hv := hready.length.trans hlen
    have hrange (c : BitVec 8) : (c≠0 ∧ c≠1 ∧ c≠2) ↔ ¬c.toNat≤2 := by
      simp only [ne_eq,←BitVec.toNat_inj]
      change ¬c.toNat=0 ∧ ¬c.toNat=1 ∧ ¬c.toNat=2 ↔ ¬c.toNat≤2
      omega
    rw [bgpAttrOrigin,if_neg (length_ne hlen),getc_eq hread,getD_value hready (by omega)]
    dsimp only
    refine outcome_switch hready hcode (by decide) (fun hok => ?_) fun hok => ?_
    · have hsmall : (v.getD 0 0).toNat≤2 := by
        simp only [valueOk,and_eq_true,decide_eq_true_iff] at hok
        exact hok.2
      rw [if_neg ((hrange _).not.mpr (not_not.mpr hsmall))]
      exact outcome_accept hready (skip_length hlen) rfl rfl
    have hbig : ¬(v.getD 0 0).toNat≤2 := by
      intro hle
      have hgood : valueOk peer .origin v=true := by
        simp only [valueOk,and_eq_true,decide_eq_true_iff]
        exact ⟨hv,hle⟩
      rw [hgood] at hok
      exact nomatch hok
    rw [if_pos ((hrange _).mpr hbig)]
    exact ⟨_,_,_,rfl,rfl,rfl,.inr (by decide)⟩
  · rw [bgpAttrOrigin,if_pos (show (h.args startp).length≠1 from hlen)]
    refine outcome_switch hready hcode (by decide) (fun hok => ?_) fun _ =>
      ⟨_,_,s,rfl,rfl,rfl,.inl rfl⟩
    simp only [valueOk,and_eq_true,decide_eq_true_iff,hready.length] at hok
    exact absurd hok.1 hlen

theorem outcome_aspath (as4 : Bool) {t u : AttrState} (hready : Ready h startp v ys s)
    (hcode : AttrCode.ofType h.type=some code) (hmp : code ≠ .mpReachNlri ∧ code ≠ .mpUnreachNlri)
    (hval : valueOk peer code v=(aspathOf as4 v).isSome) (hcore : ¬Ignorable code)
    (ht : t.ibuf=(aspathParse s.ibuf h.length as4).2 ∧ t.notified=s.notified)
    (hu : u.ibuf=t.ibuf ∧ u.notified=s.notified)
    (hadd : (aspathParse s.ibuf h.length as4).1=aspathOf as4 v →
      gathered u=(gathered s).add peer code v) :
    Keeps peer h startp v s (if (aspathParse s.ibuf h.length as4).1.isNone then
      bgpAttrMalformed peer (h.args startp) .malAsPath 0 t else (.proceed,u)) := by
  obtain ⟨hpath,hskip⟩ := aspathParse_eq as4 hready.rest
  rw [hready.length] at hpath hskip
  have hdata := aspathParse_data as4 s.ibuf h.length
  refine outcome_switch hready hcode hmp (fun hok => ?_) fun hok => ?_
  · have hsome := hval.symm.trans hok
    rw [hpath,if_neg (by rw [←not_isSome,hsome]; decide)]
    exact outcome_accept hready (hu.1.trans (ht.1.trans (hskip hsome))) hu.2 (hadd hpath)
  have hnone : (aspathOf as4 v).isNone=true := by
    rw [←not_isSome,←hval,hok]
    rfl
  rw [hpath,if_pos hnone]
  exact ⟨_,_,t,rfl,(congrArg Stream.data ht.1).trans hdata,ht.2,.inr hcore⟩

section

variable (hready : Ready h startp v ys s)
include hready

theorem bgpAttrAspath_outcome (hcode : AttrCode.ofType h.type=some .asPath) :
    Keeps peer h startp v s (bgpAttrAspath peer (h.args startp) s) := by
  refine outcome_aspath peer.as4Rcv hready hcode (by decide) rfl (by decide) ⟨rfl,rfl⟩
    ⟨rfl,rfl⟩ fun hpath => ?_
  rw [add,←hpath]
  rfl

theorem bgpAttrAs4Path_outcome (hcode : AttrCode.ofType h.type=some .as4Path) :
    Keeps peer h startp v s (bgpAttrAs4Path peer (h.args startp) s) := by
  refine outcome_aspath true hready hcode (by decide) rfl (by decide) ⟨rfl,rfl⟩
    ⟨rfl,rfl⟩ fun hpath => ?_
  rw [add,←hpath]
  rfl

theorem bgpAttrNexthop_outcome (hcode : AttrCode.ofType h.type=some .nextHop) :
    Keeps peer h startp v s (bgpAttrNexthop peer (h.args startp) s) := by
  by_cases hlen : h.length=4
  · have hv := hready.length.trans hlen
    rw [bgpAttrNexthop,if_neg (length_ne hlen),getl_value hready hlen]
    dsimp only
    refine outcome_switch hready hcode (by decide) (fun hok => ?_) fun hok => ?_
    · have hmartian : ¬ipv4Martian (word32 v)=true := by
        simp only [valueOk,and_eq_true,not_eq_true'] at hok
        rw [hok.2]
        decide
      rw [if_neg hmartian]
      exact outcome_accept hready (skip_length hlen) rfl rfl
    have hmartian : ipv4Martian (word32 v)=true := by simpa [valueOk,hv] using hok
    rw [if_pos hmartian]
    exact ⟨_,_,_,rfl,rfl,rfl,.inr (by decide)⟩
  · rw [bgpAttrNexthop,if_pos (show (h.args startp).length≠4 from hlen)]
    refine outcome_switch hready hcode (by decide) (fun hok => ?_) fun _ =>
      ⟨_,_,s,rfl,rfl,rfl,.inl rfl⟩
    simp only [valueOk,and_eq_true,decide_eq_true_iff,hready.length] at hok
    exact absurd hok.1 hlen

theorem bgpAttrMed_outcome (hcode : AttrCode.ofType h.type=some .multiExitDisc) :
    Keeps peer h startp v s (bgpAttrMed peer (h.args startp) s) := by
  refine outcome_length hready hcode (by decide) rfl fun hlen => ?_
  rw [getl_value hready hlen]
  exact outcome_accept hready (skip_length hlen) rfl rfl

theorem bgpAttrLocalPref_outcome (hcode : AttrCode.ofType h.type=some .localPref) :
    Keeps peer h startp v s (bgpAttrLocalPref peer (h.args startp) s) := by
  refine outcome_length hready hcode (by decide) rfl fun hlen => ?_
  by_cases hsort : peer.sort=.ebgp
  · -- the attribute is ignored
    rw [if_pos hsort]
    change Outcome h startp _ s (.proceed,s.forwardGetp h.length) _
    rw [forwardGetp_eq hready.readable]
    refine outcome_accept hready rfl rfl ?_
    rw [add,if_pos hsort]
    rfl
  rw [if_neg hsort,getl_value hready hlen]
  refine outcome_accept hready (skip_length hlen) rfl ?_
  rw [add,if_neg hsort]
  rfl

theorem bgpAttrAtomic_outcome (hcode : AttrCode.ofType h.type=some .atomicAggregate) :
    Keeps peer h startp v s (bgpAttrAtomic peer (h.args startp) s) := by
  refine outcome_length hready hcode (by decide) rfl fun hlen => ?_
  refine outcome_accept hready ?_ rfl rfl
  rw [hlen,skip_zero]
  rfl

theorem bgpAttrAggregator_outcome (hcode : AttrCode.ofType h.type=some .aggregator) :
    Keeps peer h startp v s (bgpAttrAggregator peer (h.args startp) s) := by
  unfold bgpAttrAggregator
  refine outcome_length hready hcode (by decide) rfl fun hlen => ?_
  have hread := hready.readable
  rw [add]
  cases hcap : peer.as4Rcv with
  | true =>
    simp only [hcap,if_true] at hlen ⊢
    rw [getl_eq (s := s) (by omega),take_value hready (by omega)]
    rw [getl_last (k := 4) hready hlen]
    exact outcome_accept hready (skip_length hlen) rfl rfl
  | false =>
    simp only [hcap,false_eq_true,if_false] at hlen ⊢
    rw [getw_eq (s := s) (by omega),take_value hready (by omega)]
    rw [getl_last (k := 2) hready hlen]
    exact outcome_accept hready (skip_length hlen) rfl rfl

theorem bgpAttrAs4Aggregator_outcome (hcode : AttrCode.ofType h.type=some .as4Aggregator) :
    Keeps peer h startp v s (bgpAttrAs4Aggregator peer (h.args startp) s) := by
  refine outcome_length hready hcode (by decide) rfl fun hlen => ?_
  have hread := hready.readable
  rw [getl_eq (s := s) (by omega),take_value hready (by omega)]
  dsimp only
  rw [getl_last (k := 4) hready hlen]
  exact outcome_accept hready (skip_length hlen) rfl rfl

theorem bgpAttrOriginatorId_outcome (hcode : AttrCode.ofType h.type=some .originatorId) :
    Keeps peer h startp v s (bgpAttrOriginatorId peer (h.args startp) s) := by
  refine outcome_length hready hcode (by decide) rfl fun hlen => ?_
  rw [getl_value hready hlen]
  exact outcome_accept hready (skip_length hlen) rfl rfl

end

theorem communityParse_isNone (v : List (BitVec 8)) :
    (communityParse v).isNone = !decide (v.length%4=0) := by
  unfold communityParse
  by_cases hlen : v.length%4=0
  · rw [if_neg (not_not.mpr hlen),decide_eq_true hlen]
    rfl
  rw [if_pos hlen,decide_eq_false hlen]
  rfl

theorem ecommunityParse_isNone (v : List (BitVec 8)) :
    (ecommunityParse v).isNone = !decide (v.length%8=0) := by
  unfold ecommunityParse
  by_cases hlen : v.length%8=0
  · rw [if_neg (not_not.mpr hlen),decide_eq_true hlen]
    rfl
  rw [if_pos hlen,decide_eq_false hlen]
  rfl

theorem outcome_communities {isNone : Bool} {t u w : AttrState} {width : ℕ}
    (hready : Ready h startp v ys s) (hcode : AttrCode.ofType h.type=some code)
    (hmp : code ≠ .mpReachNlri ∧ code ≠ .mpUnreachNlri)
    (hval : valueOk peer code v=decide (v.length%width=0)) (hcore : ¬Ignorable code)
    (hnone : isNone = !decide (v.length%width=0)) (ht : t.ibuf=s.ibuf ∧ t.notified=s.notified)
    (hu : u.ibuf=skip s.ibuf h.length ∧ u.notified=s.notified)
    (hw : w.ibuf=u.ibuf ∧ w.notified=u.notified)
    (hadd : gathered (if h.length=0 then t else w)=(gathered s).add peer code v) :
    Keeps peer h startp v s (if h.length=0 then (.proceed,t)
      else if isNone then bgpAttrMalformed peer (h.args startp) .optAttrErr h.total u
      else (.proceed,w)) := by
  have hlen := hready.length
  refine outcome_switch hready hcode hmp (fun hok => ?_) fun hok => ?_
  · rw [←hval,hok] at hnone
    by_cases hz : h.length=0
    · rw [if_pos hz] at hadd ⊢
      refine outcome_accept hready ?_ ht.2 hadd
      rw [hz,skip_zero]
      exact ht.1
    rw [if_neg hz] at hadd ⊢
    rw [hnone,if_neg (by decide)]
    exact outcome_accept hready (hw.1.trans hu.1) (hw.2.trans hu.2) hadd
  have hz : h.length≠0 := fun hz => by
    rw [hval,hlen,hz,Nat.zero_mod] at hok
    cases hok
  rw [←hval,hok] at hnone
  rw [if_neg hz,hnone,if_pos (by decide)]
  exact ⟨_,_,u,rfl,(congrArg Stream.data hu.1).trans rfl,hu.2,.inr hcore⟩

section

variable (hready : Ready h startp v ys s)
include hready

theorem bgpAttrCommunity_outcome (hcode : AttrCode.ofType h.type=some .communities) :
    Keeps peer h startp v s (bgpAttrCommunity peer (h.args startp) s) := by
  have hpnt : s.pnt (h.args startp).length=v := hready.pnt
  unfold bgpAttrCommunity
  rw [hpnt]
  dsimp only
  rw [forward_value hready]
  refine outcome_communities hready hcode (by decide) rfl (by decide) (communityParse_isNone v)
    ⟨rfl,rfl⟩ ⟨rfl,rfl⟩ ⟨rfl,rfl⟩ ?_
  rw [add,hready.length]
  split <;> rfl

theorem bgpAttrExtCommunities_outcome (hcode : AttrCode.ofType h.type=some .extCommunities) :
    Keeps peer h startp v s (bgpAttrExtCommunities peer (h.args startp) s) := by
  have hpnt : s.pnt (h.args startp).length=v := hready.pnt
  unfold bgpAttrExtCommunities
  rw [hpnt]
  dsimp only
  rw [forward_value hready]
  refine outcome_communities hready hcode (by decide) rfl (by decide) (ecommunityParse_isNone v)
    ⟨rfl,rfl⟩ ⟨rfl,rfl⟩ ⟨rfl,rfl⟩ ?_
  rw [add,hready.length]
  split <;> rfl

theorem bgpAttrClusterList_outcome (hcode : AttrCode.ofType h.type=some .clusterList) :
    Keeps peer h startp v s (bgpAttrClusterList peer (h.args startp) s) := by
  unfold bgpAttrClusterList
  refine outcome_switch hready hcode (by decide) (fun hok => ?_) fun hok => ?_
  · have hlen := of_decide_eq_true hok
    have hif : ¬(h.args startp).length%4≠0 := by
      rw [hready.length] at hlen
      exact not_not.mpr hlen
    rw [if_neg hif]
    dsimp only
    have hpnt : s.pnt (h.args startp).length=v := hready.pnt
    rw [hpnt,forward_value hready]
    exact outcome_accept hready rfl rfl rfl
  have hlen := of_decide_eq_false hok
  have hif : (h.args startp).length%4≠0 := by
    rw [hready.length] at hlen
    exact hlen
  rw [if_pos hif]
  exact ⟨_,_,s,rfl,rfl,rfl,.inl rfl⟩

theorem bgpAttrUnknown_outcome (hcode : AttrCode.ofType h.type=none) :
    Keeps peer h startp v s (bgpAttrUnknown peer (h.args startp) s) := by
  have hskip : s.forwardGetp (h.args startp).length=skipState s h.length :=
    forwardGetp_eq hready.readable
  have hgather : gatherSwitch peer h v (gathered s)=(gathered s).addUnknown h v := by
    rw [gatherSwitch,hcode]
  have hver : switchVerdict peer h v =
      if checkFlag h.flags flagOptional then .accept else (malformedVerdict peer h).settle := by
    rw [switchVerdict,hcode]
  rw [Keeps,hgather,hver]
  unfold bgpAttrUnknown
  rw [hskip]
  by_cases hopt : checkFlag h.flags flagOptional=true
  swap
  · have hif : (!checkFlag (h.args startp).flags flagOptional)=true := by
      rw [not_eq_true']
      exact eq_false_of_not_eq_true hopt
    have hnever : malformedVerdict peer h ≠ .accept := by
      unfold malformedVerdict
      rw [hcode]
      split
      · decide
      dsimp only
      split <;> decide
    rw [if_pos hif,if_neg hopt]
    exact outcome_settle (malformed_outcome hready .unrecAttr h.total rfl rfl rfl)
      fun haccept => absurd haccept hnever
  · have hif : ¬(!checkFlag (h.args startp).flags flagOptional)=true := by
      rw [not_eq_true',not_eq_false]
      exact hopt
    rw [if_neg hif,if_pos hopt]
    by_cases htrans : checkFlag h.flags flagTrans=true
    swap
    · have hif : (!checkFlag (h.args startp).flags flagTrans)=true := by
        rw [not_eq_true']
        exact eq_false_of_not_eq_true htrans
      rw [if_pos hif]
      refine outcome_accept hready rfl rfl ?_
      rw [addUnknown,if_neg htrans]
      rfl
    have hif : ¬(!checkFlag (h.args startp).flags flagTrans)=true := by
      rw [not_eq_true',not_eq_false]
      exact htrans
    have hin : startp+1≤(skipState s h.length).ibuf.endp := by
      have hwithin := hready.within
      have hhdr := hready.header
      unfold AttrHeader.total at hwithin
      change startp+1 ≤ s.ibuf.data.length
      omega
    have hlt : startp<startp+h.total := by
      have hhdr := hready.header
      unfold AttrHeader.total
      omega
    obtain ⟨hdata,hgetp⟩ := streamPutcAt_getD hin
      ((skipState s h.length).ibuf.data.getD startp 0 ||| flagPartial)
    have hbase : Consumed h startp s (skipState s h.length) := consumed_skip hready rfl rfl
    rw [if_neg hif]
    refine ⟨rfl,⟨⟨hgetp.trans hbase.getp,?_,?_,rfl⟩,?_⟩⟩
    · exact (congrArg length hdata).trans length_set
    · exact (congrArg (drop _) hdata).trans (drop_set_of_lt hlt)
    · -- the bytes that are passed on
      have hbs : s.ibuf.data.drop startp=(h.raw++v)++ys := by
        rw [append_assoc]
        exact hready.bytes
      have hlen : (h.raw++v).length=h.total := by
        rw [length_append,hready.raw,hready.length]
        rfl
      have hfst : s.ibuf.data.getD startp 0=(h.raw++v).getD 0 0 := by
        have hpos : 0<(h.raw++v).length := by omega
        have hget : s.ibuf.data.getD startp 0=(s.ibuf.data.drop startp).getD 0 0 := by
          rw [List.getD,List.getD,getElem?_drop,add_zero]
        rw [hget,hbs,List.getD,getElem?_append_left hpos]
        rfl
      have hval (c : BitVec 8) : ((s.ibuf.data.set startp c).drop startp).take h.total =
          (h.raw++v).set 0 c := by
        have hpos : 0<(h.raw++v).length := by omega
        have hset : (s.ibuf.data.set startp c).drop startp = (s.ibuf.data.drop startp).set 0 c := by
          rw [drop_set,if_neg (lt_irrefl _),Nat.sub_self]
        rw [hset,hbs,set_append_left _ _ hpos,←hlen,←length_set,take_left]
      have hput := hval (s.ibuf.data.getD startp 0 ||| flagPartial)
      rw [←show _=s.ibuf.data.set startp (s.ibuf.data.getD startp 0 ||| flagPartial) from
        hdata] at hput
      rw [addUnknown,if_pos htrans,←hfst,←hput]
      rfl

/-- The next hop is read when its length is known and it fits. -/
theorem mpNexthop_spec
    (hkind : (v.getD 3 0).toNat=4 ∨ (v.getD 3 0).toNat=12 ∨ (v.getD 3 0).toNat=16 ∨
      (v.getD 3 0).toNat=32) (hroom : 4+(v.getD 3 0).toNat≤h.length) :
    ∃ u, mpNexthop ((skipState s 4).modifyAttr fun attr =>
        {attr with mpNexthopLen := v.getD 3 0})=some u ∧
      u.ibuf=skip s.ibuf (4+(v.getD 3 0).toNat) ∧ u.notified=s.notified ∧
      gathered u = {gathered s with attr := mpReachAttr v s.attr} := by
  have hread := hready.readable
  set t := (skipState s 4).modifyAttr fun attr => {attr with mpNexthopLen := v.getD 3 0} with ht
  have hlen : t.attr.mpNexthopLen=v.getD 3 0 := rfl
  have hskip (k : ℕ) : (skipState t k).ibuf=skip s.ibuf (4+k) := skip_skip _ _ _
  have hleft (k : ℕ) : (skipState t k).ibuf.readable=s.ibuf.readable-(4+k) := by
    rw [hskip,skip_readable]
  have hleft0 : t.ibuf.readable=s.ibuf.readable-4 := skip_readable _ _
  have hslice (k n : ℕ) (hk : 4+k+n≤h.length) :
      (skipState t k).ibuf.rest.take n=(v.drop (4+k)).take n := by
    rw [hskip]
    exact slice_value hready hk
  have hslice0 (n : ℕ) (hk : 4+n≤h.length) : t.ibuf.rest.take n=(v.drop 4).take n :=
    slice_value hready hk
  unfold mpNexthop mpReachAttr
  rw [hlen]
  rcases hkind with hn|hn|hn|hn
  · rw [hn] at hroom ⊢
    rw [getl_eq (by omega),hslice0 4 (by omega)]
    exact ⟨_,rfl,hskip 4,rfl,rfl⟩
  · rw [hn] at hroom ⊢
    rw [getl_eq (s := t) (by omega)]
    dsimp only
    rw [getl_eq (s := skipState t 4) (by rw [hleft]; omega),skipState_skipState]
    rw [getl_eq (s := skipState t 8) (by rw [hleft]; omega),skipState_skipState,
      hslice 8 4 (by omega)]
    exact ⟨_,rfl,hskip 12,rfl,rfl⟩
  · rw [hn] at hroom ⊢
    rw [get_eq (by omega),hslice0 16 (by omega)]
    exact ⟨_,rfl,hskip 16,rfl,rfl⟩
  rw [hn] at hroom ⊢
  rw [get_eq (s := t) (by omega),hslice0 16 (by omega)]
  dsimp only
  rw [get_eq (s := skipState t 16) (by rw [hleft]; omega),skipState_skipState,
    hslice 16 16 (by omega)]
  exact ⟨_,rfl,hskip 32,rfl,rfl⟩

end

theorem mpNexthop_none (hlen : ¬(s.attr.mpNexthopLen.toNat=4 ∨ s.attr.mpNexthopLen.toNat=12 ∨
    s.attr.mpNexthopLen.toNat=16 ∨ s.attr.mpNexthopLen.toNat=32)) : mpNexthop s=none := by
  unfold mpNexthop
  split
  · exact absurd (.inl ‹_›) hlen
  · exact absurd (.inr (.inl ‹_›)) hlen
  · exact absurd (.inr (.inr (.inl ‹_›))) hlen
  · exact absurd (.inr (.inr (.inr ‹_›))) hlen
  · rfl

theorem mpNlriCheck_eq (n : BgpNlri) (s : AttrState) :
    mpNlriCheck n s=if nlriPasses n then (true,s) else (false,s.notify .invalNetwork []) := by
  unfold mpNlriCheck nlriPasses bgpNlriSanityCheck
  by_cases hsafi : n.safi=safiMplsLabeledVpn
  · rw [if_neg (not_not.mpr hsafi),decide_eq_true hsafi,Bool.true_or,if_pos rfl]
  · rw [if_pos hsafi,decide_eq_false hsafi,Bool.false_or]

/-- The NLRI of the value of a multiprotocol attribute, when its fields fit. -/
def MpField (code : AttrCode) (v : List (BitVec 8)) (field : Option BgpNlri) : Prop :=
  (code=.mpReachNlri ∧ field=mpReachField v) ∨ (code=.mpUnreachNlri ∧ field=mpUnreachField v)

variable {field : Option BgpNlri}

theorem valueOk_mp (hmp : MpField code v field) : valueOk peer code v=field.any nlriPasses := by
  rcases hmp with ⟨rfl,rfl⟩|⟨rfl,rfl⟩ <;> rfl

theorem switchVerdict_mp (hcode : AttrCode.ofType h.type=some code)
    (hmp : MpField code v field) : switchVerdict peer h v =
      if field.any nlriPasses then .accept else if field.isSome then .doubled else .plead := by
  rw [switchVerdict,hcode]
  rcases hmp with ⟨rfl,rfl⟩|⟨rfl,rfl⟩ <;> rfl

theorem mpReachField_none (hready : Ready h startp v ys s)
    (hshort : ¬5+(v.getD 3 0).toNat<h.length) : mpReachField v=none :=
  if_neg fun hfits => hshort (hready.length ▸ hfits.2)

theorem outcome_mp_none (hcode : AttrCode.ofType h.type=some code) (hmp : MpField code v field)
    (hfield : field=none) (hr : r.1=.errorNotifypls ∧ r.2.notified=s.notified) :
    Keeps peer h startp v s r := by
  rw [Keeps,switchVerdict_mp hcode hmp,hfield]
  exact hr

theorem outcome_mp_insane {n : BgpNlri}
    (hcode : AttrCode.ofType h.type=some code) (hmp : MpField code v field)
    (hfield : field=some n) (hsane : nlriPasses n=false)
    (hr : r.1=.errorNotifypls ∧ r.2.notified.length=s.notified.length+1) :
    Keeps peer h startp v s r := by
  rw [Keeps,switchVerdict_mp hcode hmp,hfield,any_some,hsane]
  exact hr

section

variable (hready : Ready h startp v ys s)
include hready

theorem outcome_mp_sane {n : BgpNlri} (hcode : AttrCode.ofType h.type=some code)
    (hmp : MpField code v field) (hfield : field=some n) (hsane : nlriPasses n=true)
    (hibuf : s'.ibuf=skip s.ibuf h.length) (hnotified : s'.notified=s.notified)
    (hgather : gathered s'=(gathered s).add peer code v) :
    Keeps peer h startp v s (.proceed,s') := by
  have hany : field.any nlriPasses=true := by rw [hfield,any_some,hsane]
  have hadd : gatherSwitch peer h v (gathered s)=(gathered s).add peer code v := by
    rw [gatherSwitch,hcode]
    exact if_pos ((valueOk_mp hmp).trans hany)
  rw [Keeps,switchVerdict_mp hcode hmp,if_pos hany,hadd]
  exact outcome_accept hready hibuf hnotified hgather

theorem bgpMpUnreachParse_outcome (hcode : AttrCode.ofType h.type=some .mpUnreachNlri) :
    Keeps peer h startp v s (bgpMpUnreachParse (h.args startp) s) := by
  have hread := hready.readable
  unfold bgpMpUnreachParse
  by_cases hlen : h.length<3
  · have hif : (h.args startp).length > s.ibuf.readable ∨ (h.args startp).length<3 := .inr hlen
    have hfield : mpUnreachField v=none := if_neg fun hle =>
      absurd hlen (not_lt.mpr (hready.length ▸ hle))
    rw [if_pos hif]
    exact outcome_mp_none hcode (.inr ⟨rfl,rfl⟩) hfield ⟨rfl,rfl⟩
  have hif : ¬((h.args startp).length > s.ibuf.readable ∨ (h.args startp).length<3) := by
    dsimp only [AttrHeader.args]
    omega
  have hskip (k : ℕ) : (skipState s k).ibuf.readable=s.ibuf.readable-k := skip_readable _ _
  have hle : 3≤v.length := by
    rw [hready.length]
    omega
  have hfield : mpUnreachField v=some ⟨word16 (v.take 2),v.getD 2 0,v.drop 3⟩ := if_pos hle
  have hnlri : (skipState s 3).pnt ((h.args startp).length-3)=v.drop 3 := by
    have hsub : (h.args startp).length-3=(v.drop 3).length := by
      rw [length_drop,hready.length]
      rfl
    rw [AttrState.pnt,skipState_ibuf,rest_skip,hready.rest,
      drop_append_of_le_length hle,hsub,take_left]
  rw [if_neg hif,getw_eq (s := s) (by omega)]
  dsimp only
  rw [getc_eq (s := skipState s 2) (by rw [hskip]; omega),skipState_skipState]
  rw [skipState_ibuf,getD_skip,getD_value hready (by omega),take_value hready (by omega),hnlri,
    mpNlriCheck_eq]
  cases hsane : nlriPasses ⟨word16 (v.take 2),v.getD 2 0,v.drop 3⟩ with
  | false => exact outcome_mp_insane hcode (.inr ⟨rfl,rfl⟩) hfield hsane ⟨rfl,length_notify _ _ _⟩
  | true =>
    refine outcome_mp_sane hready hcode (.inr ⟨rfl,rfl⟩) hfield hsane ?_ rfl ?_
    · change streamForwardGetp (skip s.ibuf 3) (h.length-3)=skip s.ibuf h.length
      rw [streamForwardGetp_eq (by rw [skip_readable]; omega),skip_skip]
      congr 1
      omega
    rw [add,hfield]
    rfl

section

variable (hcode : AttrCode.ofType h.type=some .mpReachNlri)
include hcode

/-- The last part of `bgp_mp_reach_parse`. -/
theorem mpReachNlri_outcome {n : BgpNlri} {t : AttrState} (hfield : mpReachField v=some n)
    (hk : k<h.length) (hnlri : n.nlri=v.drop k) (hibuf : t.ibuf=skip s.ibuf k)
    (hnotified : t.notified=s.notified)
    (hgather : gathered t = {gathered s with attr := mpReachAttr v s.attr}) :
    Keeps peer h startp v s (mpReachNlri t n.afi n.safi (h.length-k)) := by
  have hread := hready.readable
  have hif : ¬(h.length-k=0 ∨ h.length-k > t.ibuf.readable) := by
    rw [hibuf,skip_readable]
    omega
  have hpnt : t.pnt (h.length-k)=n.nlri := by
    have hle : k≤v.length := by
      rw [hready.length]
      omega
    have hsub : h.length-k=(v.drop k).length := by rw [length_drop,hready.length]
    rw [AttrState.pnt,hibuf,rest_skip,hready.rest,drop_append_of_le_length hle,hsub,take_left,hnlri]
  rw [mpReachNlri,if_neg hif,hpnt]
  dsimp only
  rw [mpNlriCheck_eq]
  cases hsane : nlriPasses n with
  | false =>
    refine outcome_mp_insane hcode (.inl ⟨rfl,rfl⟩) hfield hsane ⟨rfl,?_⟩
    exact (length_notify t _ _).trans (by rw [hnotified])
  | true =>
    refine outcome_mp_sane hready hcode (.inl ⟨rfl,rfl⟩) hfield hsane ?_ hnotified ?_
    · change streamForwardGetp t.ibuf (h.length-k)=skip s.ibuf h.length
      rw [hibuf,streamForwardGetp_eq (by rw [skip_readable]; omega),skip_skip]
      congr 1
      omega
    rw [add,hfield]
    have hstep : gathered (((({t with mpUpdate := n} : AttrState).forwardGetp
        (h.length-k)).setFlag .mpReachNlri)) =
          {gathered t with attr := markAttr (gathered t).attr .mpReachNlri,mpUpdate := n} := rfl
    exact hstep.trans (by rw [hgather]; rfl)

theorem bgpMpReachParse_outcome : Keeps peer h startp v s (bgpMpReachParse (h.args startp) s) := by
  have hread := hready.readable
  unfold bgpMpReachParse
  by_cases hlen : h.length<5
  · have hif : (h.args startp).length > s.ibuf.readable ∨ (h.args startp).length<5 := .inr hlen
    have hfield := mpReachField_none hready (by omega)
    rw [if_pos hif]
    exact outcome_mp_none hcode (.inl ⟨rfl,rfl⟩) hfield ⟨rfl,rfl⟩
  have hif : ¬((h.args startp).length > s.ibuf.readable ∨ (h.args startp).length<5) := by
    dsimp only [AttrHeader.args]
    omega
  have hskip (k : ℕ) : (skipState s k).ibuf.readable=s.ibuf.readable-k := skip_readable _ _
  have hleft (t : AttrState) (k : ℕ) (hk : k≤h.length) (ht : t.ibuf=skip s.ibuf k) :
      lenLeft (h.args startp) t s.ibuf.getp=h.length-k := by
    rw [lenLeft,ht,skip_getp (by omega),Nat.add_sub_cancel_left]
    rfl
  rw [if_neg hif,getw_eq (s := s) (by omega)]
  dsimp only
  rw [getc_eq (s := skipState s 2) (by rw [hskip]; omega),skipState_skipState]
  rw [getc_eq (s := skipState s 3) (by rw [hskip]; omega),skipState_skipState]
  rw [skipState_ibuf,skipState_ibuf,getD_skip,getD_skip,getD_value hready (by omega),
    getD_value hready (by omega),take_value hready (by omega)]
  -- the state behind the length of the next hop
  set n := v.getD 3 0 with hn
  set t := (skipState s 4).modifyAttr fun attr => {attr with mpNexthopLen := n} with ht
  have htbuf : t.ibuf=skip s.ibuf 4 := rfl
  rw [hleft t 4 (by omega) htbuf]
  by_cases hpast : h.length-4<n.toNat
  · have hfield := mpReachField_none hready (by rw [←hn]; omega)
    rw [if_pos hpast]
    exact outcome_mp_none hcode (.inl ⟨rfl,rfl⟩) hfield ⟨rfl,rfl⟩
  rw [if_neg hpast]
  by_cases hkind : n.toNat=4 ∨ n.toNat=12 ∨ n.toNat=16 ∨ n.toNat=32
  · have hroom : 4+n.toNat≤h.length := by omega
    obtain ⟨u,hu,hubuf,hunotified,hugather⟩ := mpNexthop_spec hready hkind hroom
    rw [←hn] at hu hubuf
    rw [hu]
    dsimp only
    rw [hleft u (4+n.toNat) (by omega) hubuf]
    by_cases hend : h.length-(4+n.toNat)=0
    · have hfield := mpReachField_none hready (by rw [←hn]; omega)
      rw [if_pos hend]
      exact outcome_mp_none hcode (.inl ⟨rfl,rfl⟩) hfield ⟨rfl,hunotified⟩
    have hone : 1≤u.ibuf.readable := by
      rw [hubuf,skip_readable]
      omega
    have hsnpa : (skipState u 1).ibuf=skip s.ibuf (5+n.toNat) := by
      rw [skipState_ibuf,hubuf,skip_skip]
      congr 1
      omega
    rw [if_neg hend,getc_eq hone]
    rw [hleft _ (5+n.toNat) (by omega) hsnpa]
    by_cases hlast : h.length-(5+n.toNat)=0
    · have hfield := mpReachField_none hready (by rw [←hn]; omega)
      rw [mpReachNlri,if_pos (.inl hlast)]
      exact outcome_mp_none hcode (.inl ⟨rfl,rfl⟩) hfield ⟨rfl,hunotified⟩
    have hfield : mpReachField v = some ⟨word16 (v.take 2),v.getD 2 0,v.drop (5+n.toNat)⟩ := by
      refine if_pos ⟨hkind,?_⟩
      rw [hready.length,←hn]
      omega
    have hk : 5+n.toNat<h.length := by omega
    exact mpReachNlri_outcome hready hcode hfield hk rfl hsnpa hunotified hugather
  · have hfield : mpReachField v=none := if_neg fun hfits => hkind hfits.1
    have hnone : mpNexthop t=none := mpNexthop_none hkind
    rw [hnone]
    exact outcome_mp_none hcode (.inl ⟨rfl,rfl⟩) hfield ⟨rfl,rfl⟩

end

theorem attrSwitch_outcome :
    Outcome h startp (gatherSwitch peer h v (gathered s)) s
      (attrSwitch peer (h.args startp) s) (switchVerdict peer h v) := by
  have hty : (h.args startp).type=h.type := rfl
  unfold attrSwitch
  rw [hty]
  cases hcode : AttrCode.ofType h.type with
  | none => exact bgpAttrUnknown_outcome hready hcode
  | some code =>
    cases code with
    | origin => exact bgpAttrOrigin_outcome hready hcode
    | asPath => exact bgpAttrAspath_outcome hready hcode
    | nextHop => exact bgpAttrNexthop_outcome hready hcode
    | multiExitDisc => exact bgpAttrMed_outcome hready hcode
    | localPref => exact bgpAttrLocalPref_outcome hready hcode
    | atomicAggregate => exact bgpAttrAtomic_outcome hready hcode
    | aggregator => exact bgpAttrAggregator_outcome hready hcode
    | communities => exact bgpAttrCommunity_outcome hready hcode
    | originatorId => exact bgpAttrOriginatorId_outcome hready hcode
    | clusterList => exact bgpAttrClusterList_outcome hready hcode
    | mpReachNlri => exact bgpMpReachParse_outcome hready hcode
    | mpUnreachNlri => exact bgpMpUnreachParse_outcome hready hcode
    | extCommunities => exact bgpAttrExtCommunities_outcome hready hcode
    | as4Path => exact bgpAttrAs4Path_outcome hready hcode
    | as4Aggregator => exact bgpAttrAs4Aggregator_outcome hready hcode

end

end RoutePlatform.AttrSwitch
