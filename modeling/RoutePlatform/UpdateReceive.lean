import RoutePlatform.UpdateMandatory

/-!
# What gets past the check for mandatory attributes

The attribute block and the plain NLRI field decide whether all calls to `bgp_update` are
complete: no attributes at all, a lone `MP_UNREACH_NLRI`, a next hop that only `MP_REACH_NLRI`
has, or an attribute that ends the parser early, each with prefixes that still come.
-/

namespace RoutePlatform.UpdateReceive

open StreamOperations AsPathOperations AsPathSynthesis AttrOperations AttrParsing AttrReading
  AttrVerdicts AttrFraming AttrProtocol UpdateOperations UpdateMandatory List Option Gathered

variable {g : Gathered} {seen : Finset (BitVec 8)} {p : ParseState} {start off : ℕ}

/-- An AS path goes with its mark, and NLRI with theirs. -/
structure Marked (g : Gathered) : Prop where
  aspath : .asPath∈g.attr.flag → g.attr.aspath.isSome
  mpUpdate : g.mpUpdate.nlri≠[] → .mpReachNlri∈g.attr.flag

section

variable {beyond : BitVec 8} {peer : Peer} {g : Gathered} {h : AttrHeader}
  {v block : List (BitVec 8)}

theorem marked_zero : Marked Gathered.zero :=
  ⟨fun hmem => absurd hmem (Finset.notMem_empty _),fun hne => absurd rfl hne⟩

theorem Marked.mark {g' : Gathered} (hg : Marked g) (code : AttrCode) (hcode : code ≠ .asPath)
    (hflag : g'.attr.flag=insert code g.attr.flag) (haspath : g'.attr.aspath=g.attr.aspath)
    (hnlri : g'.mpUpdate=g.mpUpdate ∨ code=.mpReachNlri) : Marked g' := by
  refine ⟨fun hmem => ?_,fun hne => ?_⟩
  · rw [hflag,Finset.mem_insert] at hmem
    rw [haspath]
    exact hg.aspath (hmem.resolve_left hcode.symm)
  rw [hflag,Finset.mem_insert]
  rcases hnlri with hsame|rfl
  · rw [hsame] at hne
    exact .inr (hg.mpUpdate hne)
  · exact .inl rfl

theorem mpReachAttr_keeps (v : List (BitVec 8)) (attr : Attr) :
    (mpReachAttr v attr).flag=attr.flag ∧ (mpReachAttr v attr).aspath=attr.aspath := by
  unfold mpReachAttr
  split <;> exact ⟨rfl,rfl⟩

theorem Marked.add {code : AttrCode} (hg : Marked g) (hok : valueOk peer code v=true) :
    Marked (g.add peer code v) := by
  cases code with
  | asPath =>
    refine ⟨fun _ => hok,fun hne => ?_⟩
    exact Finset.mem_insert_of_mem (hg.mpUpdate hne)
  | mpReachNlri =>
    obtain ⟨hflag,haspath⟩ := mpReachAttr_keeps v g.attr
    refine hg.mark .mpReachNlri (by decide) ?_ haspath (.inr rfl)
    change insert _ (mpReachAttr v g.attr).flag=_
    rw [hflag]
  | localPref =>
    unfold Gathered.add
    dsimp only
    split
    · exact hg
    · exact hg.mark .localPref (by decide) rfl rfl (.inl rfl)
  | communities =>
    unfold Gathered.add
    dsimp only
    split
    · exact ⟨hg.aspath,hg.mpUpdate⟩
    · exact hg.mark .communities (by decide) rfl rfl (.inl rfl)
  | extCommunities =>
    unfold Gathered.add
    dsimp only
    split
    · exact ⟨hg.aspath,hg.mpUpdate⟩
    · exact hg.mark .extCommunities (by decide) rfl rfl (.inl rfl)
  | origin => exact hg.mark .origin (by decide) rfl rfl (.inl rfl)
  | as4Path => exact hg.mark .as4Path (by decide) rfl rfl (.inl rfl)
  | nextHop => exact hg.mark .nextHop (by decide) rfl rfl (.inl rfl)
  | multiExitDisc => exact hg.mark .multiExitDisc (by decide) rfl rfl (.inl rfl)
  | atomicAggregate => exact hg.mark .atomicAggregate (by decide) rfl rfl (.inl rfl)
  | aggregator => exact hg.mark .aggregator (by decide) rfl rfl (.inl rfl)
  | as4Aggregator => exact hg.mark .as4Aggregator (by decide) rfl rfl (.inl rfl)
  | originatorId => exact hg.mark .originatorId (by decide) rfl rfl (.inl rfl)
  | clusterList => exact hg.mark .clusterList (by decide) rfl rfl (.inl rfl)
  | mpUnreachNlri => exact hg.mark .mpUnreachNlri (by decide) rfl rfl (.inl rfl)

theorem Marked.gather (hg : Marked g) : Marked (gatherAttr beyond peer h v g) := by
  unfold gatherAttr
  split
  · exact hg
  unfold gatherSwitch
  split
  · unfold addUnknown
    split
    · exact ⟨hg.aspath,hg.mpUpdate⟩
    · exact hg
  split
  · rename_i hok
    exact hg.add hok
  · exact hg

theorem before_marked (hbef : Before beyond peer block off seen g) : Marked g := by
  induction hbef with
  | start => exact marked_zero
  | next before header new within accepted ih => exact ih.gather

end

/-- `AS4_PATH` counts. -/
def usesAs4Path (g : Gathered) : Bool := .as4Path∈g.attr.flag &&
    !(.as4Aggregator∈g.attr.flag && .aggregator∈g.attr.flag && g.attr.aggregatorAs≠bgpAsTrans)

/-- The AS path that the two attributes give together. -/
def wholePath (peer : Peer) (g : Gathered) : Option Aspath :=
  g.attr.aspath.map fun aspath =>
    match g.as4Path with
    | some as4Path =>
      if !peer.as4Rcv && usesAs4Path g then aspathReconcileAs4 aspath as4Path else aspath
    | none => aspath

/-- The path is one that the peer may send. -/
def PathPasses (peer : Peer) (path : Option Aspath) : Prop :=
  ¬((peer.sort=.confed ∧ !path.any aspathLeftConfedCheck) ∨
      (peer.sort=.ebgp ∧ path.any aspathConfedCheck)) ∧
    ¬(peer.enforceFirstAs ∧ peer.sort=.ebgp ∧ !path.any fun path => aspathFirstasCheck path peer.as)

/-- The attributes pass the check, and yet a prefix of the plain NLRI field
lacks one. -/
def Escapes (peer : Peer) (g : Gathered) : Prop :=
  (peer.restartRcv ∧ g.attr.flag = ∅) ∨ g.attr.flag = {.mpUnreachNlri} ∨
    (.mpReachNlri∈g.attr.flag ∧ .nextHop ∉ g.attr.flag ∧ .origin∈g.attr.flag ∧
      .asPath∈g.attr.flag ∧ (peer.sort=.ibgp → .localPref∈g.attr.flag) ∧
      PathPasses peer (wholePath peer g))

section

variable {peer : Peer} {s : AttrState} {endp : ℕ}

theorem mungeAggregator_ignores (s : AttrState) :
    ((mungeAggregator s).1=true ↔ .as4Aggregator∈s.attr.flag ∧ .aggregator∈s.attr.flag ∧
      s.attr.aggregatorAs≠bgpAsTrans) ∧ (mungeAggregator s).2.as4Path=s.as4Path := by
  unfold mungeAggregator
  by_cases has4 : .as4Aggregator∈s.attr.flag
  · rw [if_pos has4]
    by_cases hagg : .aggregator∈s.attr.flag
    · rw [if_pos hagg]
      by_cases hne : s.attr.aggregatorAs≠bgpAsTrans
      · rw [if_pos hne]
        exact ⟨iff_of_true rfl ⟨has4,hagg,hne⟩,rfl⟩
      rw [if_neg hne]
      exact ⟨iff_of_false nofun fun h => hne h.2.2,rfl⟩
    rw [if_neg hagg]
    exact ⟨iff_of_false nofun fun h => hagg h.2.1,rfl⟩
  rw [if_neg has4]
  exact ⟨iff_of_false nofun fun h => has4 h.1,rfl⟩

/-- The AS path behind `bgp_attr_munge_as4_attrs`. -/
theorem bgpAttrMungeAs4Attrs_path (peer : Peer) (hsome : s.attr.aspath.isSome) :
    (bgpAttrMungeAs4Attrs peer s).1=.proceed ∧
      (bgpAttrMungeAs4Attrs peer s).2.attr.aspath=wholePath peer (gathered s) := by
  obtain ⟨aspath,haspath⟩ := isSome_iff_exists.mp hsome
  obtain ⟨hignores,hsame⟩ := mungeAggregator_ignores s
  obtain ⟨honly,hpath⟩ := mungeAggregator_spec s
  have hflag : .as4Path∈(mungeAggregator s).2.attr.flag ↔ .as4Path∈s.attr.flag :=
    honly.flag _ (by decide)
  have hwhole : wholePath peer (gathered s)=some (match s.as4Path with
      | some as4Path => if (!peer.as4Rcv && usesAs4Path (gathered s))=true
          then aspathReconcileAs4 aspath as4Path else aspath
      | none => aspath) := by
    unfold wholePath gathered
    rw [haspath,map_some]
  unfold bgpAttrMungeAs4Attrs
  rw [haspath,hwhole]
  dsimp only
  by_cases has4 : peer.as4Rcv=true
  · rw [if_pos has4]
    refine ⟨rfl,?_⟩
    rw [has4,haspath]
    cases s.as4Path <;> rfl
  rw [if_neg has4]
  have huses : usesAs4Path (gathered s)=true ↔
      (mungeAggregator s).1=false ∧ .as4Path∈(mungeAggregator s).2.attr.flag := by
    unfold usesAs4Path gathered
    rw [hflag,←Bool.not_eq_true,hignores]
    simp only [Bool.and_eq_true,decide_eq_true_eq,Bool.not_eq_true',←Bool.not_eq_true,and_assoc]
    exact and_comm
  have hpath' := hpath.trans haspath
  have hrcv : (!peer.as4Rcv)=true := by
    rw [Bool.eq_false_of_not_eq_true has4]
    rfl
  rw [hsame,hrcv,Bool.true_and]
  generalize mungeAggregator s=r at *
  obtain ⟨ignore,s'⟩ := r
  cases s.as4Path with
  | none => cases ignore <;> exact ⟨rfl,hpath'⟩
  | some as4Path =>
    cases ignore with
    | true =>
      dsimp only
      rw [if_neg fun h => nomatch (huses.mp h).1]
      exact ⟨rfl,hpath'⟩
    | false =>
      dsimp only
      by_cases hmem : .as4Path∈s'.attr.flag
      · rw [if_pos hmem,if_pos (huses.mpr ⟨rfl,hmem⟩)]
        exact ⟨rfl,rfl⟩
      rw [if_neg hmem,if_neg fun h => hmem (huses.mp h).2]
      exact ⟨rfl,hpath'⟩

theorem bgpAttrAspathCheck_proceeds_iff :
    (bgpAttrAspathCheck peer s).1=.proceed ↔ PathPasses peer s.attr.aspath := by
  unfold bgpAttrAspathCheck PathPasses
  dsimp only
  split
  · rename_i hconfed
    exact iff_of_false nofun fun h => h.1 hconfed
  rename_i hconfed
  split
  · rename_i hfst
    exact iff_of_false nofun fun h => h.2 hfst
  rename_i hfst
  split <;> exact iff_of_true rfl ⟨hconfed,hfst⟩

theorem attrFinishAspath_proceeds_iff (hg : Marked (gathered s)) :
    (attrFinishAspath peer s).1=.proceed ↔
      (.asPath∈s.attr.flag → PathPasses peer (wholePath peer (gathered s))) := by
  unfold attrFinishAspath
  by_cases hmem : .asPath∈s.attr.flag
  · obtain ⟨hret,hpath⟩ := bgpAttrMungeAs4Attrs_path peer (hg.aspath hmem)
    rw [if_pos hmem,←hpath]
    generalize bgpAttrMungeAs4Attrs peer s=r at *
    obtain ⟨ret,s'⟩ := r
    subst hret
    exact bgpAttrAspathCheck_proceeds_iff.trans ⟨fun h _ => h,fun h => h hmem⟩
  rw [if_neg hmem]
  exact iff_of_true rfl fun h => absurd h hmem

/-- Which attributes `bgp_attr_check` lets pass. -/
theorem bgpAttrCheck_proceeds_iff : bgpAttrCheck peer s=(.proceed,s) ↔
      (peer.restartRcv ∧ s.attr.flag = ∅) ∨ s.attr.flag = {.mpUnreachNlri} ∨
        (.origin∈s.attr.flag ∧ .asPath∈s.attr.flag ∧
          (.nextHop∈s.attr.flag ∨ .mpReachNlri∈s.attr.flag) ∧
          (peer.sort=.ibgp → .localPref∈s.attr.flag)) := by
  unfold bgpAttrCheck
  split
  · rename_i hrestart
    exact iff_of_true rfl (.inl hrestart)
  rename_i hrestart
  split
  · rename_i hlone
    exact iff_of_true rfl (.inr (.inl hlone))
  rename_i hlone
  rw [or_iff_right hrestart,or_iff_right hlone]
  unfold missingAttr
  by_cases hpref : peer.sort=.ibgp ∧ .localPref ∉ s.attr.flag
  · rw [if_pos hpref]
    exact iff_of_false nofun fun h => hpref.2 (h.2.2.2 hpref.1)
  rw [if_neg hpref]
  by_cases hhop : .nextHop ∉ s.attr.flag ∧ .mpReachNlri ∉ s.attr.flag
  · rw [if_pos hhop]
    exact iff_of_false nofun fun h => h.2.2.1.elim hhop.1 hhop.2
  rw [if_neg hhop]
  by_cases hpath : .asPath ∉ s.attr.flag
  · rw [if_pos hpath]
    exact iff_of_false nofun fun h => hpath h.2.1
  rw [if_neg hpath]
  by_cases horg : .origin ∉ s.attr.flag
  · rw [if_pos horg]
    exact iff_of_false nofun fun h => horg h.1
  rw [if_neg horg]
  refine iff_of_true rfl ⟨not_not.mp horg,not_not.mp hpath,?_,fun hsort => ?_⟩
  · by_contra hneither
    exact hhop (not_or.mp hneither)
  by_contra hnone
  exact hpref ⟨hsort,hnone⟩

/-- What has to hold so that attributes that pass serve the prefixes that come
with them. -/
theorem attrFinish_complete_iff (peer : Peer) (hg : Marked (gathered s))
    (hend : s.ibuf.getp=endp) (plain : Prop) {mp : Prop} (hmp : mp → .mpReachNlri∈s.attr.flag) :
    ((attrFinish peer s endp).1=.proceed →
        (plain → CompleteAttr peer (attrFinish peer s endp).2.attr true) ∧
        (mp → CompleteAttr peer (attrFinish peer s endp).2.attr false)) ↔
      (Escapes peer (gathered s) → ¬plain) := by
  have hmarks (honly : AttrOnly s (attrFinish peer s endp).2) (code : AttrCode)
      (hcode : code ≠ .aggregator) : code∈(attrFinish peer s endp).2.attr.flag ↔
        code∈s.attr.flag := honly.flag code hcode
  have hproceeds (hcheck : bgpAttrCheck peer s=(.proceed,s)) :
      (attrFinish peer s endp).1=(attrFinishAspath peer s).1 := by
    unfold attrFinish
    rw [if_neg (not_not.mpr hend),hcheck]
  constructor
  · -- attributes that escape are accepted, and lack one
    intro hcomplete hescapes hplain
    have hpasses : (attrFinish peer s endp).1=.proceed ∧
        ¬(.origin∈s.attr.flag ∧ .nextHop∈s.attr.flag) := by
      rcases hescapes with ⟨hrestart,hnone⟩|hlone|⟨hreach,hhop,horg,hpath,hpref,hpass⟩
      · change s.attr.flag = ∅ at hnone
        rw [hproceeds (bgpAttrCheck_proceeds_iff.mpr (.inl ⟨hrestart,hnone⟩)),
          attrFinishAspath_proceeds_iff hg,hnone]
        exact ⟨fun hmem => absurd hmem (Finset.notMem_empty _),
          fun hmem => absurd hmem.1 (Finset.notMem_empty _)⟩
      · change s.attr.flag = {.mpUnreachNlri} at hlone
        rw [hproceeds (bgpAttrCheck_proceeds_iff.mpr (.inr (.inl hlone))),
          attrFinishAspath_proceeds_iff hg,hlone]
        exact ⟨nofun,fun hmem => absurd hmem.1 (by decide)⟩
      rw [hproceeds (bgpAttrCheck_proceeds_iff.mpr
        (.inr (.inr ⟨horg,hpath,.inr hreach,hpref⟩))),attrFinishAspath_proceeds_iff hg]
      exact ⟨fun _ => hpass,fun hmem => hhop hmem.2⟩
    obtain ⟨hret,hlacks⟩ := hpasses
    have hhas := (hcomplete hret).1 hplain
    rcases @attrFinish_spec peer s endp hend with ⟨-,-,honly⟩|⟨herror,-⟩
    · exact hlacks ⟨(hmarks honly .origin (by decide)).mp hhas.origin,
        (hmarks honly .nextHop (by decide)).mp (hhas.nextHop rfl)⟩
    rw [hret] at herror
    exact nomatch herror
  · intro hescapes hret
    rcases @attrFinish_spec peer s endp hend with ⟨-,hcheck,honly⟩|⟨herror,-⟩
    · rw [hproceeds hcheck,attrFinishAspath_proceeds_iff hg] at hret
      have hmust := hcheck
      rw [bgpAttrCheck_proceeds_iff] at hmust
      rcases hmust with hrestart|hlone|⟨horg,hpath,hhop,hpref⟩
      · refine ⟨fun hplain => absurd hplain (hescapes (.inl hrestart)),fun h => ?_⟩
        have hreach := hmp h
        rw [hrestart.2] at hreach
        exact absurd hreach (Finset.notMem_empty _)
      · refine ⟨fun hplain => absurd hplain (hescapes (.inr (.inl hlone))),fun h => ?_⟩
        have hreach := hmp h
        rw [hlone] at hreach
        exact absurd hreach (by decide)
      have hhas (plain : Bool) (hplain : plain=true → .nextHop∈s.attr.flag) :
          CompleteAttr peer (attrFinish peer s endp).2.attr plain :=
        ⟨(hmarks honly _ (by decide)).mpr horg,(hmarks honly _ (by decide)).mpr hpath,
          honly.aspath (hg.aspath hpath),fun h => (hmarks honly _ (by decide)).mpr (hplain h),
          fun h => (hmarks honly _ (by decide)).mpr (hpref h)⟩
      refine ⟨fun hplain => ?_,fun _ => hhas false nofun⟩
      by_cases hmem : .nextHop∈s.attr.flag
      · exact hhas true fun _ => hmem
      exact absurd hplain (hescapes (.inr (.inr ⟨hhop.resolve_left hmem,hmem,horg,hpath,
        hpref,hret hpath⟩)))
    · rw [hret] at herror
      exact nomatch herror

end

/-- A message without its withdrawn routes. -/
structure UpdateBody where
  block : List (BitVec 8)
  nlri : List (BitVec 8)
  deriving DecidableEq

section

variable (beyond : BitVec 8) (peer : Peer) (afc : BitVec 16→BitVec 8→Bool)

/-- No prefix comes without the attributes that it needs. -/
structure MandatoryKept (u : UpdateBody) : Prop where
  bare : u.block=[] → nlriSane afiIp u.nlri=true → ¬Handed afc u.nlri
  /-- There are none either behind attributes that get past the check. -/
  finished : u.block≠[] → ∀ seen g, Before beyond peer u.block u.block.length seen g →
    Escapes peer g → nlriSane afiIp u.nlri=true → ¬Handed afc u.nlri
  /-- At the internal code all that follows is NLRI, and what it needs came before. -/
  leaked : ∀ off seen g h, Meets beyond peer u.block off seen g h → Leaks beyond peer h →
    nlriSane afiIp (u.block.drop (off+h.total)++u.nlri)=true →
      (Handed afc (u.block.drop (off+h.total)++u.nlri) → .origin∈g.attr.flag ∧
        .asPath∈g.attr.flag ∧ .nextHop∈g.attr.flag) ∧
      (HandedMp afc g.mpUpdate → .origin∈g.attr.flag ∧ .asPath∈g.attr.flag)

variable {beyond peer afc} {refuses : List NlriCall→Bool} {block nlri ys : List (BitVec 8)}
  {withdraw : BgpNlri} {s : AttrState}

theorem handedMp_marked (hg : Marked g) (hmp : HandedMp afc g.mpUpdate) :
    .mpReachNlri∈g.attr.flag := by
  refine hg.mpUpdate fun hnil => ?_
  have hann := hmp.2.2
  rw [announces_nil hnil] at hann
  exact nomatch hann

theorem completeAttr_iff (hg : Marked g) (hsort : peer.sort ≠ .ibgp) (plain : Bool) :
    CompleteAttr peer g.attr plain ↔ .origin∈g.attr.flag ∧
      .asPath∈g.attr.flag ∧ (plain=true → .nextHop∈g.attr.flag) :=
  ⟨fun h => ⟨h.origin,h.asPath,h.nextHop⟩,
    fun ⟨ho,hp,hn⟩ => ⟨ho,hp,hg.aspath hp,hn,fun h => absurd h hsort⟩⟩

theorem updateAttributes_bare (hrs : s.ibuf.rest=nlri++ys) (hz : gathered s=Gathered.zero) :
    (∀ c∈(updateNlri afc refuses (s.ibuf.getp+nlri.length) withdraw .proceed s).calls,
      Complete peer c) ↔ MandatoryKept beyond peer afc ⟨[],nlri⟩ := by
  have hattr : s.attr=Attr.zero := congrArg attr hz
  have hmp : s.mpUpdate.nlri=[] := congrArg (fun g => g.mpUpdate.nlri) hz
  rw [updateNlri_complete_iff hrs rfl (by decide),hattr]
  constructor
  · intro h
    refine ⟨fun _ hsane hhanded => ?_,fun hne => absurd rfl hne,fun off seen g h hmeets => ?_⟩
    · exact absurd ((h hsane).1 hhanded).origin (Finset.notMem_empty _)
    have hpos := total_pos hmeets.header
    have hin := hmeets.within
    rw [length_nil] at hin
    omega
  · intro h hsane
    refine ⟨fun hhanded => absurd hhanded (h.bare rfl hsane),fun hhanded => ?_⟩
    have hann := hhanded.2.2
    rw [announces_nil hmp] at hann
    exact nomatch hann

/-- The loop has read the block to its end. -/
theorem updateFinished_iff
    (hb : AtBoundary beyond peer block (nlri++ys) start block.length seen g p) :
    ((attrFinish peer p.state (start+block.length)).1 ≠ .error →
        ∀ c∈(updateNlri afc refuses (start+block.length+nlri.length) withdraw
          (attrFinish peer p.state (start+block.length)).1
          (attrFinish peer p.state (start+block.length)).2).calls, Complete peer c) ↔
      (Escapes peer g → nlriSane afiIp nlri=true → ¬Handed afc nlri) := by
  have hgetp := hb.stands.getp
  have hrs : p.state.ibuf.rest=nlri++ys := by rw [hb.stands.rest,drop_length,nil_append]
  have hmarked : Marked (gathered p.state) := by
    rw [hb.gathers]
    exact before_marked hb.before
  have hmp (h : nlriSane afiIp nlri=true ∧ HandedMp afc p.state.mpUpdate) :
      .mpReachNlri∈p.state.attr.flag := handedMp_marked hmarked h.2
  have hcomplete := attrFinish_complete_iff peer hmarked hgetp
    (nlriSane afiIp nlri=true ∧ Handed afc nlri) hmp
  rw [hb.gathers] at hcomplete
  have hcurry : (Escapes peer g → nlriSane afiIp nlri=true → ¬Handed afc nlri) ↔
      (Escapes peer g → ¬(nlriSane afiIp nlri=true ∧ Handed afc nlri)) := by
    rw [not_and]
  rw [hcurry,←hcomplete]
  rcases @attrFinish_spec peer p.state _ hgetp with ⟨hret,-,honly⟩|⟨herror,-⟩
  · have hrs' : (attrFinish peer p.state (start+block.length)).2.ibuf.rest=nlri++ys := by
      rw [honly.ibuf,hrs]
    have hgetp' : (attrFinish peer p.state (start+block.length)).2.ibuf.getp =
        start+block.length := by
      rw [honly.ibuf,hgetp]
    rw [hret,updateNlri_complete_iff hrs' (by rw [hgetp']) (by decide),honly.mpUpdate]
    constructor
    · intro h _
      exact ⟨fun hplain => (h (by decide) hplain.1).1 hplain.2,
        fun hmp => (h (by decide) hmp.1).2 hmp.2⟩
    · intro h _ hsane
      exact ⟨fun hplain => (h rfl).1 ⟨hsane,hplain⟩,fun hmp => (h rfl).2 ⟨hsane,hmp⟩⟩
  · rw [herror]
    exact iff_of_true (fun h => absurd rfl h) nofun

theorem updateLeaked_iff (hstands : StandsAt block (nlri++ys) start off p.state)
    (hoff : off≤block.length) (hgathers : gathered p.state=g) (hg : Marked g)
    (hsort : peer.sort=.ebgp) :
    (∀ c∈(updateNlri afc refuses (start+block.length+nlri.length) withdraw .errorNotifypls
        p.state).calls, Complete peer c) ↔
      (nlriSane afiIp (block.drop off++nlri)=true →
        (Handed afc (block.drop off++nlri) → .origin∈g.attr.flag ∧
          .asPath∈g.attr.flag ∧ .nextHop∈g.attr.flag) ∧
        (HandedMp afc g.mpUpdate → .origin∈g.attr.flag ∧ .asPath∈g.attr.flag)) := by
  have hrs : p.state.ibuf.rest=block.drop off++nlri++ys := by rw [hstands.rest,append_assoc]
  have hend : start+block.length+nlri.length = p.state.ibuf.getp+(block.drop off++nlri).length := by
    rw [hstands.getp,length_append,length_drop]
    omega
  have hnot : peer.sort ≠ .ibgp := by
    rw [hsort]
    decide
  have hattr : p.state.attr=g.attr := congrArg attr hgathers
  have hmp : p.state.mpUpdate=g.mpUpdate := congrArg mpUpdate hgathers
  rw [updateNlri_complete_iff hrs hend (by decide),hattr,hmp,completeAttr_iff hg hnot,
    completeAttr_iff hg hnot]
  simp only [forall_const,Bool.false_eq_true,false_imp_iff,and_true]

variable (afc refuses withdraw) in
/-- What the calls are complete for, when the parser is done. -/
theorem updateParsed_complete_iff (hne : block≠[]) (hrs : s.ibuf.rest=block++(nlri++ys))
    {r : Option AttrParseRet × ParseState}
    (hending : Ending beyond peer block (nlri++ys) s.ibuf.getp r)
    (hloop : ∀ fuel, block.length<fuel →
      attrLoop beyond peer (s.ibuf.getp+block.length) fuel (parseStart s.ibuf)=some r) :
    ((parseResult peer (s.ibuf.getp+block.length) r).1 ≠ .error →
        ∀ c∈(updateNlri afc refuses (s.ibuf.getp+block.length+nlri.length) withdraw
          (parseResult peer (s.ibuf.getp+block.length) r).1
          (parseResult peer (s.ibuf.getp+block.length) r).2.state).calls, Complete peer c) ↔
      MandatoryKept beyond peer afc ⟨block,nlri⟩ := by
  have hb0 := parseStart_boundary beyond peer s.ibuf block.length
  rw [hrs,take_left,drop_left] at hb0
  constructor
  · intro hcalls
    refine ⟨fun hnil => absurd hnil hne,fun _ seen g hbef => ?_,
      fun off seen g h hmeets hleaks => ?_⟩
    · obtain ⟨hnone,hb⟩ := attrLoop_finishes hb0 hloop hbef
      obtain ⟨ret,p⟩ := r
      subst hnone
      exact (updateFinished_iff hb).mp hcalls
    have hver := verdict_leak_iff (v := valueAt block off h) |>.mpr hleaks
    obtain ⟨ret,hret,hout⟩ := attrLoop_decided hb0 hloop hmeets (by rw [hver]; decide)
    rw [hver] at hout
    obtain ⟨p,hstop,-,-,hstands,hgathers⟩ := hout
    obtain ⟨ret',p'⟩ := r
    cases hstop
    cases hret
    exact (updateLeaked_iff hstands hmeets.within hgathers (before_marked hmeets.before)
      hleaks.1).mp (hcalls (by dsimp only [parseResult]; decide))
  · intro hkept
    cases hending with
    | finished boundary =>
      exact (updateFinished_iff boundary).mpr (hkept.finished hne _ _ boundary.before)
    | refused history notified => exact fun h => absurd rfl h
    | @broken off seen g h ret p meets verdict outcome =>
      rcases verdict with hver|hver|hver
      · have hleaks := verdict_leak_iff.mp hver
        rw [hver] at outcome
        obtain ⟨p,hstop,-,-,hstands,hgathers⟩ := outcome
        cases hstop
        exact fun _ => (updateLeaked_iff hstands meets.within hgathers
          (before_marked meets.before) hleaks.1).mpr (hkept.leaked off seen g h meets hleaks)
      · rw [hver] at outcome
        obtain ⟨p,hstop,-⟩ := outcome
        cases hstop
        exact fun h => absurd rfl h
      rw [hver] at outcome
      obtain ⟨p,hstop,-⟩ := outcome
      cases hstop
      exact fun _ => updateNlri_withdraw

theorem updateAttributes_complete_iff (beyond : BitVec 8) (peer : Peer) (afc : BitVec 16→BitVec 8→Bool)
    (refuses : List NlriCall→Bool) (withdraw : BgpNlri) (hrs : s.ibuf.rest=block++(nlri++ys))
    (hz : gathered s=zero) :
    ∃ r, updateAttributes beyond peer afc refuses (s.ibuf.getp+block.length+nlri.length)
        withdraw block.length s=some r ∧
      ((∀ c∈r.calls, Complete peer c) ↔ MandatoryKept beyond peer afc ⟨block,nlri⟩) := by
  unfold updateAttributes
  by_cases hnil : block=[]
  · subst hnil
    exact ⟨_,rfl,updateAttributes_bare hrs hz⟩
  have hlen : block.length≠0 := fun hlen => hnil (length_eq_zero_iff.mp hlen)
  have hread : block.length ≤ s.ibuf.readable := by
    rw [←length_rest,hrs,length_append]
    exact Nat.le_add_right _ _
  obtain ⟨r,hending,hloop,hparse⟩ := bgpAttrParse_ending beyond peer hread
  rw [hrs,take_left,drop_left] at hending
  have hiff := updateParsed_complete_iff afc refuses withdraw hnil hrs hending hloop
  rw [if_neg hlen,hparse _ (Nat.lt_succ_self _)]
  generalize parseResult peer (s.ibuf.getp+block.length) r=res at *
  obtain ⟨ret,p⟩ := res
  cases ret with
  | error =>
    refine ⟨_,rfl,?_⟩
    rw [←hiff]
    exact iff_of_true (fun c hmem => nomatch hmem) fun h => absurd rfl h
  | proceed | withdraw | errorNotifypls =>
    refine ⟨_,rfl,?_⟩
    rw [←hiff]
    exact ⟨fun h _ => h,fun h => h (by dsimp only; decide)⟩

end

/-- The parts of a message whose lengths and withdrawn routes are right. -/
def splitBody (body : List (BitVec 8)) : Option UpdateBody :=
  let withdrawLen := (word16 (body.take 2)).toNat
  let behind := (body.drop 2).drop withdrawLen
  let attributeLen := (word16 (behind.take 2)).toNat
  if body.length<2 then none
  else if (body.drop 2).length<withdrawLen then none
  else if !nlriSane afiIp ((body.drop 2).take withdrawLen) then none
  else if behind.length<2 then none
  else if (behind.drop 2).length<attributeLen then none
  else some ⟨(behind.drop 2).take attributeLen,(behind.drop 2).drop attributeLen⟩

section

variable {body ys : List (BitVec 8)} {s : AttrState} {n : ℕ}

theorem getw_rest (hrs : s.ibuf.rest=body++ys) (hlen : 2≤body.length) :
    s.getw=(word16 (body.take 2),skipState s 2) ∧ (skipState s 2).ibuf.rest=body.drop 2++ys ∧
      (skipState s 2).ibuf.getp=s.ibuf.getp+2 := by
  have hread : 2 ≤ s.ibuf.readable := by
    rw [←length_rest,hrs,length_append]
    omega
  refine ⟨?_,?_,?_⟩
  · rw [getw_eq hread,hrs,take_append_of_le_length hlen]
  · rw [skipState_ibuf,rest_skip,hrs,drop_append_of_le_length hlen]
  · rw [skipState_ibuf,skip_getp hread]

theorem updateWithdrawn_rest (hrs : s.ibuf.rest=body++ys) (hn : n≤body.length) :
    if nlriSane afiIp (body.take n) then
      ∃ withdraw s', updateWithdrawn n s=(some withdraw,s') ∧ gathered s'=gathered s ∧
        s'.ibuf.rest=body.drop n++ys ∧ s'.ibuf.getp=s.ibuf.getp+n
    else ∃ s', updateWithdrawn n s=(none,s') := by
  have hread : n ≤ s.ibuf.readable := by
    rw [←length_rest,hrs,length_append]
    omega
  have hpnt : s.pnt n=body.take n := by rw [AttrState.pnt,hrs,take_append_of_le_length hn]
  unfold updateWithdrawn bgpNlriSanityCheck
  rw [hpnt]
  by_cases hsane : nlriSane afiIp (body.take n)=true
  · rw [if_pos hsane]
    by_cases hpos : n > 0
    · rw [if_pos hpos,if_pos hsane]
      dsimp only
      rw [forwardGetp_eq hread]
      refine ⟨_,_,rfl,rfl,?_,?_⟩
      · rw [skipState_ibuf,rest_skip,hrs,drop_append_of_le_length hn]
      · rw [skipState_ibuf,skip_getp hread]
    rw [if_neg hpos]
    have hz : n=0 := by omega
    subst hz
    exact ⟨_,_,rfl,rfl,hrs,rfl⟩
  · have hpos : n > 0 := by
      by_contra hnot
      have hz : n=0 := by omega
      rw [hz] at hsane
      exact hsane rfl
    rw [if_neg hsane,if_pos hpos,if_neg hsane]
    exact ⟨_,rfl⟩

/-- `bgp_update_receive` answers, and its calls are complete exactly when no prefix lacks
attributes. -/
theorem bgpUpdateReceive_complete_iff (beyond : BitVec 8) (peer : Peer)
    (afc : BitVec 16→BitVec 8→Bool) (refuses : List NlriCall→Bool) (ibuf : Stream)
    (size : ℕ) (hsize : size ≤ ibuf.readable) :
    ∃ r, bgpUpdateReceive beyond peer afc refuses ibuf size=some r ∧
      ((∀ c∈r.calls, Complete peer c) ↔
        ∀ u, splitBody (ibuf.rest.take size)=some u → MandatoryKept beyond peer afc u) := by
  have hlen := length_block hsize
  have hrest : (parseStart ibuf).state.ibuf.rest=ibuf.rest.take size++ibuf.rest.drop size :=
    (take_append_drop size ibuf.rest).symm
  have hgetp : (parseStart ibuf).state.ibuf.getp=ibuf.getp := rfl
  have hzero : gathered (parseStart ibuf).state=Gathered.zero := rfl
  generalize ibuf.rest.take size=body at *
  generalize ibuf.rest.drop size=ys at *
  -- a message that is not split is answered without calls
  have hnone {r : UpdateResult} (hcalls : r.calls=[]) (hsplit : splitBody body=none) :
      ∃ r', some r=some r' ∧ ((∀ c∈r'.calls, Complete peer c) ↔
        ∀ u, splitBody body=some u → MandatoryKept beyond peer afc u) := by
    refine ⟨r,rfl,iff_of_true ?_ ?_⟩
    · rw [hcalls]
      exact fun c hmem => nomatch hmem
    rw [hsplit]
    exact fun u hu => nomatch hu
  unfold bgpUpdateReceive
  dsimp only
  rw [hgetp]
  unfold splitBody at hnone ⊢
  by_cases htwo : body.length<2
  · rw [if_pos (by omega)]
    exact hnone rfl (if_pos htwo)
  rw [if_neg (by omega)]
  rw [if_neg htwo] at hnone ⊢
  obtain ⟨hword,hrest1,hgetp1⟩ := getw_rest hrest (by omega)
  rw [hword]
  dsimp only
  rw [hgetp1,hgetp]
  have hlen1 : (body.drop 2).length=body.length-2 := length_drop
  by_cases hroom : (body.drop 2).length<(word16 (body.take 2)).toNat
  · rw [if_pos (by omega)]
    exact hnone rfl (if_pos hroom)
  rw [if_neg (by omega)]
  rw [if_neg hroom] at hnone ⊢
  have hwithdrawn := updateWithdrawn_rest hrest1 (n := (word16 (body.take 2)).toNat) (by omega)
  by_cases hsane : nlriSane afiIp ((body.drop 2).take (word16 (body.take 2)).toNat)=true
  swap
  · rw [if_neg hsane] at hwithdrawn
    obtain ⟨s',hs'⟩ := hwithdrawn
    rw [hs']
    refine hnone rfl (if_pos ?_)
    rw [Bool.not_eq_true',←Bool.not_eq_true]
    exact hsane
  rw [if_pos hsane] at hwithdrawn
  obtain ⟨withdraw,s,hs,hzero2,hrest2,hgetp2⟩ := hwithdrawn
  have hinsane : ¬(!nlriSane afiIp ((body.drop 2).take (word16 (body.take 2)).toNat))=true := by
    rw [hsane]
    decide
  rw [if_neg hinsane] at hnone ⊢
  rw [hs]
  dsimp only
  have hlen2 : ((body.drop 2).drop (word16 (body.take 2)).toNat).length =
      body.length-2-(word16 (body.take 2)).toNat := by
    rw [length_drop,hlen1]
  rw [hgetp1,hgetp] at hgetp2
  rw [hgetp2]
  generalize (body.drop 2).drop (word16 (body.take 2)).toNat=behind at *
  by_cases hattr : behind.length<2
  · rw [if_pos (by omega)]
    exact hnone rfl (if_pos hattr)
  rw [if_neg (by omega)]
  rw [if_neg hattr] at hnone ⊢
  obtain ⟨hword3,hrest3,hgetp3⟩ := getw_rest hrest2 (by omega)
  rw [hword3]
  dsimp only
  rw [hgetp3,hgetp2]
  have hlen3 : (behind.drop 2).length=behind.length-2 := length_drop
  by_cases hfits : (behind.drop 2).length<(word16 (behind.take 2)).toNat
  · rw [if_pos (by omega)]
    exact hnone rfl (if_pos hfits)
  rw [if_neg (by omega),if_neg hfits]
  generalize hn : (word16 (behind.take 2)).toNat=n at *
  have hblock : ((behind.drop 2).take n).length=n := by
    rw [length_take]
    omega
  have hrest4 : (skipState s 2).ibuf.rest =
      (behind.drop 2).take n++((behind.drop 2).drop n++ys) := by
    rw [hrest3,←append_assoc,take_append_drop]
  obtain ⟨r,hr,hiff⟩ := updateAttributes_complete_iff beyond peer afc refuses withdraw hrest4
    (hzero2.trans hzero)
  have hend : (skipState s 2).ibuf.getp+n+((behind.drop 2).drop n).length = ibuf.getp+size := by
    rw [hgetp3,hgetp2,length_drop]
    omega
  rw [hblock,hend] at hr
  refine ⟨r,hr,hiff.trans ⟨fun h u hu => ?_,fun h => h _ rfl⟩⟩
  cases hu
  exact h

/-- A message without attributes that announces `10.0.0.0/8`. -/
def sampleUpdate : Stream := streamOf [0,0,0,0,8,10]

theorem bgpUpdateReceive_complete_iff_sampleUpdate : 6 ≤ sampleUpdate.readable ∧
      ∃ r, bgpUpdateReceive 0 samplePeer (fun _ _ => true) (fun _ => false) sampleUpdate 6 =
        some r ∧ ((∀ c∈r.calls, Complete samplePeer c) ↔
          ∀ u, splitBody (sampleUpdate.rest.take 6)=some u →
            MandatoryKept 0 samplePeer (fun _ _ => true) u) :=
  ⟨by decide,bgpUpdateReceive_complete_iff 0 samplePeer (fun _ _ => true) (fun _ => false)
    sampleUpdate 6 (by decide)⟩

theorem bgpUpdateReceive_calls_sampleUpdate :
    (bgpUpdateReceive 0 samplePeer (fun _ _ => true) (fun _ => false) sampleUpdate 6).map
      UpdateResult.calls=some [.update ⟨8,[10]⟩ Attr.zero afiIp safiUnicast true] := by
  decide +kernel

theorem bgpUpdateReceive_incomplete :
    ¬ ∀ (beyond : BitVec 8) (peer : Peer) (afc : BitVec 16 → BitVec 8 → Bool)
      (refuses : List NlriCall → Bool) (ibuf : Stream) (size : ℕ), size ≤ ibuf.readable →
      ∃ r, bgpUpdateReceive beyond peer afc refuses ibuf size=some r ∧
        ∀ c∈r.calls, Complete peer c := by
  intro hall
  obtain ⟨r,hr,hcomplete⟩ :=
    hall 0 samplePeer (fun _ _ => true) (fun _ => false) sampleUpdate 6 (by decide)
  have hcalls := bgpUpdateReceive_calls_sampleUpdate
  rw [hr,map_some,some.injEq] at hcalls
  rw [hcalls] at hcomplete
  have hhas := hcomplete _ (mem_singleton_self _)
  exact absurd hhas.origin (Finset.notMem_empty _)

end

end RoutePlatform.UpdateReceive
