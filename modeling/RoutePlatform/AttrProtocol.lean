import RoutePlatform.AttrFraming

/-!
# The verdict protocol of `bgp_attr_parse`

Headers are read where the attribute before them ends, no type is acted upon twice, the internal
code is not returned, the block is consumed when the caller reads on, and an error goes with
exactly one NOTIFICATION. Three kinds of attributes break it.
-/

namespace RoutePlatform.AttrProtocol

open StreamOperations AttrOperations AttrParsing AttrReading AttrVerdicts AttrFraming List Option
  AttrCode

variable {seen : Finset (BitVec 8)} {g : Gathered} {off : ℕ} {h : AttrHeader}

/-- The flags do not fit a type that is not core, and ask for no withdrawal: the internal code. -/
def Leaks (beyond : BitVec 8) (peer : Peer) (h : AttrHeader) : Prop :=
  peer.sort=.ebgp ∧ h.flagsInvalid beyond ∧
    (AttrCode.ofType h.type=some .as4Path ∨ AttrCode.ofType h.type=none) ∧ ¬h.tunneled

/-- The NLRI of a multiprotocol attribute fails its check, which sends a
message of its own. -/
def FailsSanity (beyond : BitVec 8) (h : AttrHeader) (v : List (BitVec 8)) : Prop :=
  ¬h.flagsInvalid beyond ∧
    ((AttrCode.ofType h.type=some .mpReachNlri ∧ ∃ n, mpReachField v=some n ∧ ¬nlriPasses n) ∨
      (AttrCode.ofType h.type=some .mpUnreachNlri ∧ ∃ n, mpUnreachField v=some n ∧ ¬nlriPasses n))

/-- Malformed, not core, and flagged as from far away: the routes are withdrawn. -/
def Withdraws (beyond : BitVec 8) (peer : Peer) (h : AttrHeader) (v : List (BitVec 8)) : Prop :=
  peer.sort=.ebgp ∧ h.tunneled ∧ ((h.flagsInvalid beyond ∧
        (AttrCode.ofType h.type=some .as4Path ∨ AttrCode.ofType h.type=none)) ∨
      (¬h.flagsInvalid beyond ∧ AttrCode.ofType h.type=some .as4Path ∧ aspathOf true v=none))

section

variable {beyond : BitVec 8} {peer : Peer} {h : AttrHeader} {v : List (BitVec 8)}

theorem malformedVerdict_other {verdict : Verdict} (hver : verdict=.leak ∨ verdict=.withdraw) :
    malformedVerdict peer h=verdict ↔ peer.sort=.ebgp ∧
      (ofType h.type=some .as4Path ∨ ofType h.type=none) ∧
      (if h.tunneled then Verdict.withdraw else .leak)=verdict := by
  have hne : Verdict.reject≠verdict ∧ Verdict.accept≠verdict := by
    rcases hver with rfl|rfl <;> decide
  unfold malformedVerdict
  by_cases hsort : peer.sort=.ebgp
  · rw [if_neg (not_not.mpr hsort)]
    cases hcode : ofType h.type with
    | none => exact ⟨fun hv => ⟨hsort,.inr rfl,hv⟩,fun hv => hv.2.2⟩
    | some code =>
      cases code with
      | as4Path => exact ⟨fun hv => ⟨hsort,.inl rfl,hv⟩,fun hv => hv.2.2⟩
      | aggregator | as4Aggregator | atomicAggregate =>
        exact ⟨fun hv => absurd hv hne.2,fun hv => by rcases hv.2.1 with hc | hc <;> cases hc⟩
      | origin | asPath | nextHop | multiExitDisc | localPref | communities | originatorId
      | clusterList | mpReachNlri | mpUnreachNlri | extCommunities =>
        exact ⟨fun hv => absurd hv hne.1,fun hv => by rcases hv.2.1 with hc | hc <;> cases hc⟩
  · rw [if_pos hsort]
    exact ⟨fun hv => absurd hv hne.1,fun hv => absurd hv.1 hsort⟩

theorem verdict_leak_iff : attrVerdict beyond peer h v=.leak ↔ Leaks beyond peer h := by
  have hsplit : (if h.tunneled=true then Verdict.withdraw else .leak)=.leak ↔ ¬h.tunneled := by
    by_cases htunnel : h.tunneled=true
    · rw [if_pos htunnel]
      exact ⟨fun hv => (nomatch hv),fun hv => absurd htunnel hv⟩
    rw [if_neg htunnel]
    exact ⟨fun _ => htunnel,fun _ => rfl⟩
  unfold attrVerdict Leaks
  by_cases hflags : h.flagsInvalid beyond=true
  · rw [if_pos hflags,malformedVerdict_other (.inl rfl),hsplit]
    exact ⟨fun ⟨a,b,c⟩ => ⟨a,hflags,b,c⟩,fun ⟨a,_,b,c⟩ => ⟨a,b,c⟩⟩
  rw [if_neg hflags]
  exact ⟨fun hv => absurd hv (switchVerdict_ne_leak _ _ _),fun hv => absurd hv.2.1 hflags⟩

theorem verdict_doubled_iff : attrVerdict beyond peer h v=.doubled ↔ FailsSanity beyond h v := by
  have hfail (field : Option BgpNlri) : (if field.any nlriPasses=true then Verdict.accept
      else if field.isSome=true then .doubled else .plead)=.doubled ↔
        ∃ n, field=some n ∧ ¬nlriPasses n := by
    cases field with
    | none => exact ⟨fun hv => (nomatch hv),fun ⟨n,hn,_⟩ => (nomatch hn)⟩
    | some n =>
      rw [any_some]
      by_cases hpass : nlriPasses n=true
      · rw [if_pos hpass]
        refine ⟨fun hv => (nomatch hv),fun ⟨m,hm,hbad⟩ => ?_⟩
        cases hm
        exact absurd hpass hbad
      rw [if_neg hpass]
      exact ⟨fun _ => ⟨n,rfl,hpass⟩,fun _ => rfl⟩
  have hsettle : (malformedVerdict peer h).settle ≠ .doubled := by
    have hne := (malformedVerdict_ne peer h).2
    cases hm : malformedVerdict peer h with
    | doubled => exact absurd hm hne
    | accept | reject | plead | leak | withdraw => decide
  unfold attrVerdict FailsSanity
  by_cases hflags : h.flagsInvalid beyond=true
  · rw [if_pos hflags]
    exact ⟨fun hv => absurd hv (malformedVerdict_ne _ _).2,fun hv => absurd hflags hv.1⟩
  rw [if_neg hflags,switchVerdict]
  have hoth (code : AttrCode) (hcode : code ≠ .mpReachNlri ∧ code ≠ .mpUnreachNlri)
      (b : Bool) : (if b=true then Verdict.accept else (malformedVerdict peer h).settle) =
        .doubled ↔ ¬h.flagsInvalid beyond=true ∧
          ((some code=some AttrCode.mpReachNlri ∧ ∃ n, mpReachField v=some n ∧
            ¬nlriPasses n) ∨ (some code=some AttrCode.mpUnreachNlri ∧
              ∃ n, mpUnreachField v=some n ∧ ¬nlriPasses n)) := by
    constructor
    · intro hv
      split at hv
      · exact nomatch hv
      · exact absurd hv hsettle
    · rintro ⟨-,⟨hc,-⟩|⟨hc,-⟩⟩
      · exact absurd (some.inj hc) hcode.1
      · exact absurd (some.inj hc) hcode.2
  cases hcode : AttrCode.ofType h.type with
  | none =>
    constructor
    · intro hv
      dsimp only at hv
      split at hv
      · exact nomatch hv
      · exact absurd hv hsettle
    · rintro ⟨-,⟨hc,-⟩|⟨hc,-⟩⟩ <;> cases hc
  | some code =>
    cases code with
    | mpReachNlri =>
      exact (hfail _).trans ⟨fun hv => ⟨hflags,.inl ⟨rfl,hv⟩⟩,fun hv => by
        rcases hv.2 with ⟨-,hn⟩|⟨hc,-⟩
        · exact hn
        · cases hc⟩
    | mpUnreachNlri =>
      exact (hfail _).trans ⟨fun hv => ⟨hflags,.inr ⟨rfl,hv⟩⟩,fun hv => by
        rcases hv.2 with ⟨hc,-⟩|⟨-,hn⟩
        · cases hc
        · exact hn⟩
    | origin | asPath | nextHop | multiExitDisc | localPref | atomicAggregate | aggregator
    | communities | originatorId | clusterList | extCommunities | as4Path | as4Aggregator =>
      exact hoth _ ⟨by decide,by decide⟩ _

theorem settle_eq_withdraw (verdict : Verdict) : verdict.settle=.withdraw ↔ verdict=.withdraw := by
  cases verdict <;> decide

theorem verdict_withdraw_iff :
    attrVerdict beyond peer h v=.withdraw ↔ Withdraws beyond peer h v := by
  have hsplit : (if h.tunneled=true then Verdict.withdraw else .leak)=.withdraw ↔
      h.tunneled := by
    by_cases htunnel : h.tunneled=true
    · rw [if_pos htunnel]
      exact ⟨fun _ => htunnel,fun _ => rfl⟩
    rw [if_neg htunnel]
    exact ⟨fun hv => (by cases hv),fun hv => absurd hv htunnel⟩
  have hmal : malformedVerdict peer h=.withdraw ↔ peer.sort=.ebgp ∧
      (ofType h.type=some .as4Path ∨ ofType h.type=none) ∧ h.tunneled := by
    rw [malformedVerdict_other (.inr rfl),hsplit]
  unfold attrVerdict Withdraws
  by_cases hflags : h.flagsInvalid beyond=true
  · rw [if_pos hflags,hmal]
    constructor
    · rintro ⟨hsort,hcode,htunnel⟩
      exact ⟨hsort,htunnel,.inl ⟨hflags,hcode⟩⟩
    · rintro ⟨hsort,htunnel,⟨-,hcode⟩|⟨hnot,-⟩⟩
      · exact ⟨hsort,hcode,htunnel⟩
      · exact absurd hflags hnot
  rw [if_neg hflags,switchVerdict]
  have hoth (hcode : ¬(ofType h.type=some .as4Path ∨ ofType h.type=none)) (b : Bool) :
      (if b=true then Verdict.accept else (malformedVerdict peer h).settle) ≠ .withdraw := by
    intro hv
    split at hv
    · cases hv
    · exact hcode (hmal.mp ((settle_eq_withdraw _).mp hv)).2.1
  have hcore (hcode : ¬ofType h.type=some .as4Path) :
      ¬(peer.sort=.ebgp ∧ h.tunneled=true ∧ ((h.flagsInvalid beyond=true ∧
        (ofType h.type=some .as4Path ∨ ofType h.type=none)) ∨
        (¬h.flagsInvalid beyond=true ∧ ofType h.type=some .as4Path ∧ aspathOf true v=none))) := by
    rintro ⟨-,-,⟨hinvalid,-⟩|⟨-,hpath,-⟩⟩
    · exact hflags hinvalid
    · exact hcode hpath
  cases hcode : ofType h.type with
  | none =>
    rw [hcode] at hcore
    refine ⟨fun hv => ?_,fun hv => absurd hv (hcore (by decide))⟩
    dsimp only at hv
    split at hv
    · cases hv
    rename_i hopt
    have htunnel := (hmal.mp ((settle_eq_withdraw _).mp hv)).2.2
    unfold AttrHeader.tunneled at htunnel
    rw [Bool.and_eq_true,Bool.and_eq_true] at htunnel
    exact absurd htunnel.1.2 hopt
  | some code =>
    rw [hcode] at hcore hoth
    cases code with
    | as4Path =>
      have hok : valueOk peer .as4Path v=(aspathOf true v).isSome := rfl
      dsimp only
      rw [hok]
      constructor
      · intro hv
        split at hv
        · cases hv
        rename_i hnone
        obtain ⟨hsort,-,htunnel⟩ := hmal.mp ((settle_eq_withdraw _).mp hv)
        rw [not_isSome_iff_eq_none] at hnone
        exact ⟨hsort,htunnel,.inr ⟨hflags,rfl,hnone⟩⟩
      · rintro ⟨hsort,htunnel,⟨hinvalid,-⟩|⟨-,-,hnone⟩⟩
        · exact absurd hinvalid hflags
        have hsome : ¬(aspathOf true v).isSome=true := by
          rw [not_isSome_iff_eq_none]
          exact hnone
        rw [if_neg hsome,settle_eq_withdraw]
        exact hmal.mpr ⟨hsort,.inl hcode,htunnel⟩
    | mpReachNlri | mpUnreachNlri =>
      refine ⟨fun hv => ?_,fun hv => absurd hv (hcore (by decide))⟩
      dsimp only at hv
      split at hv
      · cases hv
      · split at hv <;> cases hv
    | origin | asPath | nextHop | multiExitDisc | localPref | atomicAggregate | aggregator
    | communities | originatorId | clusterList | extCommunities | as4Aggregator =>
      exact ⟨fun hv => absurd hv (hoth (by decide) _),fun hv => absurd hv (hcore (by decide))⟩

end

section

variable {peer : Peer} {s : AttrState}

/-- Only the attribute changes, and none of its marks but that of the
aggregator. -/
structure AttrOnly (s s' : AttrState) : Prop where
  ibuf : s'.ibuf=s.ibuf
  notified : s'.notified=s.notified
  mpUpdate : s'.mpUpdate=s.mpUpdate
  flag : ∀ code, code ≠ .aggregator → (code∈s'.attr.flag ↔ code∈s.attr.flag)
  aspath : s.attr.aspath.isSome → s'.attr.aspath.isSome

theorem AttrOnly.refl (s : AttrState) : AttrOnly s s := ⟨rfl,rfl,rfl,fun _ _ => Iff.rfl,id⟩

theorem AttrOnly.trans {s1 s2 s3 : AttrState} (h1 : AttrOnly s1 s2) (h2 : AttrOnly s2 s3) :
    AttrOnly s1 s3 :=
  ⟨h2.ibuf.trans h1.ibuf,h2.notified.trans h1.notified,h2.mpUpdate.trans h1.mpUpdate,
    fun code hne => (h2.flag code hne).trans (h1.flag code hne),fun h => h2.aspath (h1.aspath h)⟩

theorem bgpAttrCheck_spec (peer : Peer) (s : AttrState) : bgpAttrCheck peer s=(.proceed,s) ∨
      ((bgpAttrCheck peer s).1=.error ∧
        (bgpAttrCheck peer s).2.notified.length=s.notified.length+1) := by
  unfold bgpAttrCheck
  split
  · exact .inl rfl
  split
  · exact .inl rfl
  split
  · exact .inr ⟨rfl,length_notify _ _ _⟩
  · exact .inl rfl

theorem mungeAggregator_spec (s : AttrState) :
    AttrOnly s (mungeAggregator s).2 ∧ (mungeAggregator s).2.attr.aspath=s.attr.aspath := by
  unfold mungeAggregator
  split
  · split
    · split
      · exact ⟨AttrOnly.refl s,rfl⟩
      · exact ⟨⟨rfl,rfl,rfl,fun _ _ => Iff.rfl,id⟩,rfl⟩
    refine ⟨⟨rfl,rfl,rfl,fun code hne => ?_,id⟩,rfl⟩
    change code∈insert aggregator s.attr.flag ↔ _
    rw [Finset.mem_insert]
    exact or_iff_right hne
  · exact ⟨AttrOnly.refl s,rfl⟩

theorem bgpAttrMungeAs4Attrs_spec (peer : Peer) (s : AttrState) :
    ((bgpAttrMungeAs4Attrs peer s).1=.proceed ∧ AttrOnly s (bgpAttrMungeAs4Attrs peer s).2) ∨
      bgpAttrMungeAs4Attrs peer s=(.error,s) := by
  unfold bgpAttrMungeAs4Attrs
  split
  · exact .inr rfl
  split
  · exact .inl ⟨rfl,AttrOnly.refl s⟩
  left
  obtain ⟨honly,-⟩ := mungeAggregator_spec s
  dsimp only
  split
  · split
    · exact ⟨rfl,honly.ibuf,honly.notified,honly.mpUpdate,honly.flag,fun _ => rfl⟩
    · exact ⟨rfl,honly⟩
  · exact ⟨rfl,honly⟩

theorem bgpAttrAspathCheck_spec (peer : Peer) (s : AttrState) :
    ((bgpAttrAspathCheck peer s).1=.proceed ∧ AttrOnly s (bgpAttrAspathCheck peer s).2) ∨
      ((bgpAttrAspathCheck peer s).1=.error ∧
        (bgpAttrAspathCheck peer s).2.notified.length=s.notified.length+1) := by
  unfold bgpAttrAspathCheck
  dsimp only
  split
  · exact .inr ⟨rfl,length_notify _ _ _⟩
  split
  · exact .inr ⟨rfl,length_notify _ _ _⟩
  split
  · refine .inl ⟨rfl,rfl,rfl,rfl,fun _ _ => Iff.rfl,fun hsome => ?_⟩
    change (s.attr.aspath.map _).isSome
    rw [isSome_map]
    exact hsome
  · exact .inl ⟨rfl,AttrOnly.refl s⟩

theorem attrFinishAspath_spec (peer : Peer) (s : AttrState) :
    ((attrFinishAspath peer s).1=.proceed ∧ AttrOnly s (attrFinishAspath peer s).2) ∨
      ((attrFinishAspath peer s).1=.error ∧
        (attrFinishAspath peer s).2.notified.length=s.notified.length+1) := by
  unfold attrFinishAspath
  split
  · have hmunge := bgpAttrMungeAs4Attrs_spec peer s
    generalize bgpAttrMungeAs4Attrs peer s=r at *
    obtain ⟨ret,s'⟩ := r
    rcases hmunge with ⟨hret,honly⟩|herror
    · subst hret
      rcases bgpAttrAspathCheck_spec peer s' with ⟨hret,honly'⟩|⟨hret,hsent⟩
      · exact .inl ⟨hret,honly.trans honly'⟩
      refine .inr ⟨hret,hsent.trans ?_⟩
      rw [show s'.notified=s.notified from honly.notified]
    cases herror
    exact .inr ⟨rfl,length_notify _ _ _⟩
  · exact .inl ⟨rfl,AttrOnly.refl s⟩

theorem attrFinish_spec {endp : ℕ} (hend : s.ibuf.getp=endp) :
    ((attrFinish peer s endp).1=.proceed ∧ bgpAttrCheck peer s=(.proceed,s) ∧
        AttrOnly s (attrFinish peer s endp).2) ∨
      ((attrFinish peer s endp).1=.error ∧
        (attrFinish peer s endp).2.notified.length=s.notified.length+1) := by
  unfold attrFinish
  rw [if_neg (not_not.mpr hend)]
  rcases bgpAttrCheck_spec peer s with hcheck|⟨hret,hsent⟩
  · rw [hcheck]
    rcases attrFinishAspath_spec peer s with ⟨hret,honly⟩|herror
    · exact .inl ⟨hret,rfl,honly⟩
    · exact .inr herror
  generalize bgpAttrCheck peer s=r at *
  obtain ⟨ret,s'⟩ := r
  subst hret
  exact .inr ⟨rfl,hsent⟩

end

section

variable {beyond : BitVec 8} {peer : Peer} {block ys : List (BitVec 8)} {start : ℕ}

/-- The ways in which the loop ends. -/
inductive Ending (beyond : BitVec 8) (peer : Peer) (block ys : List (BitVec 8)) (start : ℕ) :
    Option AttrParseRet × ParseState→Prop where
  | finished {seen : Finset (BitVec 8)} {g : Gathered} {p : ParseState}
      (boundary : AtBoundary beyond peer block ys start block.length seen g p) :
      Ending beyond peer block ys start (none,p)
  | refused {p : ParseState} (history : HistoryOk start p)
      (notified : p.state.notified.length=1) : Ending beyond peer block ys start (some .error,p)
  /-- An attribute that is not accepted, and not refused with one message. -/
  | broken {off : ℕ} {seen : Finset (BitVec 8)} {g : Gathered} {h : AttrHeader}
      {ret : AttrParseRet} {p : ParseState} (meets : Meets beyond peer block off seen g h)
      (verdict : attrVerdict beyond peer h (valueAt block off h)=.leak ∨
        attrVerdict beyond peer h (valueAt block off h)=.doubled ∨
        attrVerdict beyond peer h (valueAt block off h)=.withdraw)
      (outcome : TurnOutcome beyond peer block ys start off seen g h (.stop ret p)
        (attrVerdict beyond peer h (valueAt block off h))) :
      Ending beyond peer block ys start (some ret,p)

theorem before_le (hbef : Before beyond peer block off seen g) : off≤block.length := by
  cases hbef with
  | start => exact Nat.zero_le _
  | next before header new within accepted => exact within

theorem total_pos (hhdr : headerAt block off=some h) : 0<h.total := by
  have hlen := headerLen_of_headerAt hhdr
  unfold AttrHeader.total
  omega

section

variable {fuel endp : ℕ} {p p' : ParseState} {ret : AttrParseRet}

theorem attrLoop_next (hgo : p.state.ibuf.getp<endp)
    (hturn : attrTurn beyond peer endp p=.next p') :
    attrLoop beyond peer endp (fuel+1) p=attrLoop beyond peer endp fuel p' := by
  rw [attrLoop,if_pos hgo,hturn]

theorem attrLoop_stop (hgo : p.state.ibuf.getp<endp)
    (hturn : attrTurn beyond peer endp p=.stop ret p') :
    attrLoop beyond peer endp (fuel+1) p=some (some ret,p') := by
  rw [attrLoop,if_pos hgo,hturn]

end

theorem getp_lt_of_boundary {p : ParseState}
    (hb : AtBoundary beyond peer block ys start off seen g p) (hlt : off<block.length) :
    p.state.ibuf.getp<start+block.length := by
  rw [hb.stands.getp]
  omega

theorem ends_of_stop {n : ℕ} {p p' : ParseState} {ret : AttrParseRet}
    (hgo : p.state.ibuf.getp<start+block.length)
    (hturn : attrTurn beyond peer (start+block.length) p=.stop ret p')
    (hending : Ending beyond peer block ys start (some ret,p')) :
    ∃ r, Ending beyond peer block ys start r ∧
      ∀ fuel, n<fuel → attrLoop beyond peer (start+block.length) fuel p=some r := by
  refine ⟨_,hending,fun fuel hfuel => ?_⟩
  obtain ⟨fuel,rfl⟩ := Nat.exists_eq_succ_of_ne_zero (by omega : fuel≠0)
  exact attrLoop_stop hgo hturn

/-- From a boundary the loop ends. The induction is on the bytes left. -/
theorem attrLoop_ending (n : ℕ) : ∀ {off : ℕ} {seen : Finset (BitVec 8)} {g : Gathered}
    {p : ParseState}, AtBoundary beyond peer block ys start off seen g p →
    block.length-off=n → ∃ r, Ending beyond peer block ys start r ∧
      ∀ fuel, n<fuel → attrLoop beyond peer (start+block.length) fuel p=some r := by
  induction n using Nat.strong_induction_on with
  | _ n ih =>
    intro off seen g p hb hn
    have hle := before_le hb.before
    rcases hle.lt_or_eq with hlt|heq
    · have hgo := getp_lt_of_boundary hb hlt
      by_cases hmeets : ∃ h, Meets beyond peer block off seen g h
      · obtain ⟨h,hmeets⟩ := hmeets
        have hout := attrTurn_meets hb hmeets
        have hbroken {ret : AttrParseRet} {p' : ParseState}
            (hturn : attrTurn beyond peer (start+block.length) p=.stop ret p')
            (hver : attrVerdict beyond peer h (valueAt block off h)=.leak ∨
              attrVerdict beyond peer h (valueAt block off h)=.doubled ∨
              attrVerdict beyond peer h (valueAt block off h)=.withdraw) :
            Ending beyond peer block ys start (some ret,p') := by
          refine .broken hmeets hver ?_
          rw [←hturn]
          exact hout
        cases hver : attrVerdict beyond peer h (valueAt block off h) with
        | accept =>
          rw [hver] at hout
          obtain ⟨p',hturn,hb'⟩ := hout
          have hpos := total_pos hmeets.header
          obtain ⟨r,hending,hr⟩ := ih (block.length-(off+h.total)) (by omega) hb' rfl
          refine ⟨r,hending,fun fuel hfuel => ?_⟩
          obtain ⟨fuel,rfl⟩ := Nat.exists_eq_succ_of_ne_zero (by omega : fuel≠0)
          exact (attrLoop_next hgo hturn).trans (hr fuel (by omega))
        | reject | plead =>
          rw [hver] at hout
          obtain ⟨p',hturn,hhistory,hsent⟩ := hout
          exact ends_of_stop hgo hturn (.refused hhistory hsent)
        | leak =>
          rw [hver] at hout
          obtain ⟨p',hturn,-⟩ := hout
          exact ends_of_stop hgo hturn (hbroken hturn (.inl hver))
        | doubled =>
          rw [hver] at hout
          obtain ⟨p',hturn,-⟩ := hout
          exact ends_of_stop hgo hturn (hbroken hturn (.inr (.inl hver)))
        | withdraw =>
          rw [hver] at hout
          obtain ⟨p',hturn,-⟩ := hout
          exact ends_of_stop hgo hturn (hbroken hturn (.inr (.inr hver)))
      · obtain ⟨p',hturn,hhistory,hsent⟩ := attrTurn_stops hb hle (not_exists.mp hmeets)
        exact ends_of_stop hgo hturn (.refused hhistory hsent)
    · subst heq
      refine ⟨(none,p),.finished hb,fun fuel hfuel => ?_⟩
      obtain ⟨fuel,rfl⟩ := Nat.exists_eq_succ_of_ne_zero (by omega : fuel≠0)
      have hstop : ¬p.state.ibuf.getp<start+block.length := by
        rw [hb.stands.getp]
        omega
      rw [attrLoop,if_neg hstop]

theorem attrLoop_arrives {p0 : ParseState}
    (hb0 : AtBoundary beyond peer block ys start 0 ∅ Gathered.zero p0)
    (hbef : Before beyond peer block off seen g) :
    ∃ p n, AtBoundary beyond peer block ys start off seen g p ∧ ∀ fuel,
      attrLoop beyond peer (start+block.length) (fuel+n) p0 =
        attrLoop beyond peer (start+block.length) fuel p := by
  induction hbef with
  | start => exact ⟨p0,0,hb0,fun fuel => rfl⟩
  | @next off seen g h before header new within accepted ih =>
    obtain ⟨p,n,hb,hloop⟩ := ih
    have hmeets : Meets beyond peer block off seen g h := ⟨before,header,new,within⟩
    have hout := attrTurn_meets hb hmeets
    rw [accepted] at hout
    obtain ⟨p',hturn,hb'⟩ := hout
    have hpos := total_pos header
    refine ⟨p',n+1,hb',fun fuel => ?_⟩
    have hcomm : fuel+(n+1)=fuel+1+n := by omega
    rw [hcomm,hloop,attrLoop_next (getp_lt_of_boundary hb (by omega)) hturn]

section

variable {p0 : ParseState} {r : Option AttrParseRet × ParseState}
  (hb0 : AtBoundary beyond peer block ys start 0 ∅ Gathered.zero p0)
  (hr : ∀ fuel, block.length<fuel → attrLoop beyond peer (start+block.length) fuel p0=some r)
include hb0 hr

theorem attrLoop_decided (hmeets : Meets beyond peer block off seen g h)
    (hver : attrVerdict beyond peer h (valueAt block off h) ≠ .accept) :
    ∃ ret, r.1=some ret ∧ TurnOutcome beyond peer block ys start off seen g h (.stop ret r.2)
      (attrVerdict beyond peer h (valueAt block off h)) := by
  obtain ⟨p,n,hb,hloop⟩ := attrLoop_arrives hb0 hmeets.before
  have hout := attrTurn_meets hb hmeets
  have hgo : p.state.ibuf.getp<start+block.length := by
    have hpos := total_pos hmeets.header
    have hin := hmeets.within
    exact getp_lt_of_boundary hb (by omega)
  have hend {ret : AttrParseRet} {p' : ParseState}
      (hturn : attrTurn beyond peer (start+block.length) p=.stop ret p') :
      r=(some ret,p') := by
    have hfuel := hr (block.length+1+n) (by omega)
    rw [hloop,attrLoop_stop hgo hturn] at hfuel
    exact (some.inj hfuel).symm
  have hdone {ret : AttrParseRet} {p' : ParseState}
      (hturn : attrTurn beyond peer (start+block.length) p=.stop ret p') :
      ∃ ret, r.1=some ret ∧ TurnOutcome beyond peer block ys start off seen g h (.stop ret r.2)
        (attrVerdict beyond peer h (valueAt block off h)) := by
    rw [hend hturn]
    refine ⟨ret,rfl,?_⟩
    rw [←hturn]
    exact hout
  cases hv : attrVerdict beyond peer h (valueAt block off h) with
  | accept => exact absurd hv hver
  | reject | plead | leak | doubled | withdraw =>
    rw [hv] at hout hdone
    obtain ⟨p',hturn,-⟩ := hout
    exact hdone hturn

theorem attrLoop_finishes (hbef : Before beyond peer block block.length seen g) :
    r.1=none ∧ AtBoundary beyond peer block ys start block.length seen g r.2 := by
  obtain ⟨p,n,hb,hloop⟩ := attrLoop_arrives hb0 hbef
  have hstop : ¬p.state.ibuf.getp<start+block.length := by
    rw [hb.stands.getp]
    omega
  have hfuel := hr (block.length+1+n) (by omega)
  rw [hloop,attrLoop,if_neg hstop] at hfuel
  cases hfuel
  exact ⟨rfl,hb⟩

end

end

/-- What `bgp_attr_parse` owes to its caller for `size` bytes at `start`. -/
structure VerdictProtocol (start size : ℕ) (r : AttrParseRet × ParseState) : Prop where
  /-- Headers are read at the start, and where the attribute before ends. -/
  framed : FramedFrom start r.2.headers
  once : r.2.interpreted.Nodup
  returns : r.1=.proceed ∨ r.1=.withdraw ∨ r.1=.error
  /-- What follows the block is read from its first byte. -/
  consumed : r.1=.proceed ∨ r.1=.withdraw → r.2.state.ibuf.getp=start+size
  notified : r.1=.error ↔ r.2.state.notified.length=1

/-- No attribute leaks or fails the check of its NLRI, and a withdrawing one is the last. -/
def Harmless (beyond : BitVec 8) (peer : Peer) (block : List (BitVec 8)) : Prop :=
  ∀ off seen g h, Meets beyond peer block off seen g h →
    ¬Leaks beyond peer h ∧ ¬FailsSanity beyond h (valueAt block off h) ∧
      (Withdraws beyond peer h (valueAt block off h) → off+h.total=block.length)

section

variable {beyond : BitVec 8} {peer : Peer} {ibuf : Stream} {size : ℕ}

theorem length_block (hsize : size ≤ ibuf.readable) : (ibuf.rest.take size).length=size := by
  rw [length_take,length_rest]
  omega

theorem parseStart_boundary (beyond : BitVec 8) (peer : Peer) (ibuf : Stream) (size : ℕ) :
    AtBoundary beyond peer (ibuf.rest.take size) (ibuf.rest.drop size) ibuf.getp 0 ∅
      Gathered.zero (parseStart ibuf) where
  before := .start
  stands := ⟨rfl,(take_append_drop size ibuf.rest).symm⟩
  bitmap := rfl
  gathers := rfl
  notified := rfl
  framed := rfl
  once := nodup_nil
  interpreted := nofun

/-- The result of the parser, from the way its loop ends. -/
def parseResult (peer : Peer) (endp : ℕ) (r : Option AttrParseRet × ParseState) :
    AttrParseRet × ParseState :=
  match r with
  | (some ret,p) => (ret,p)
  | (none,p) =>
    ((attrFinish peer p.state endp).1, {p with state := (attrFinish peer p.state endp).2})

theorem bgpAttrParse_ending (beyond : BitVec 8) (peer : Peer) (hsize : size ≤ ibuf.readable) :
    ∃ r, Ending beyond peer (ibuf.rest.take size) (ibuf.rest.drop size) ibuf.getp r ∧
      (∀ fuel, size<fuel → attrLoop beyond peer (ibuf.getp+size) fuel (parseStart ibuf)=some r) ∧
      ∀ fuel, size<fuel →
        bgpAttrParse beyond peer fuel ibuf size=some (parseResult peer (ibuf.getp+size) r) := by
  have hlen := length_block hsize
  obtain ⟨r,hending,hr⟩ := attrLoop_ending size (parseStart_boundary beyond peer ibuf size)
    (by rw [hlen,Nat.sub_zero])
  rw [hlen] at hr
  refine ⟨r,hending,hr,fun fuel hfuel => ?_⟩
  rw [bgpAttrParse,hr fuel hfuel]
  obtain ⟨ret,p⟩ := r
  cases ret <;> rfl

/-- `bgp_attr_parse` returns, and it keeps the protocol exactly on the blocks
that are harmless. -/
theorem bgpAttrParse_protocol_iff (beyond : BitVec 8) (peer : Peer) (ibuf : Stream) (size : ℕ)
    (hsize : size ≤ ibuf.readable) :
    ∃ r, (∀ fuel, size<fuel → bgpAttrParse beyond peer fuel ibuf size=some r) ∧
      (VerdictProtocol ibuf.getp size r ↔ Harmless beyond peer (ibuf.rest.take size)) := by
  obtain ⟨r,hending,hloop,hparse⟩ := bgpAttrParse_ending beyond peer hsize
  have hlen := length_block hsize
  refine ⟨_,hparse,fun hprotocol => ?_,fun hharmless => ?_⟩
  · -- a harmful attribute would have decided the result
    intro off seen g h hmeets
    have hdecided (hverdict : attrVerdict beyond peer h (valueAt (ibuf.rest.take size) off h) ≠
        .accept) : ∃ ret, r.1=some ret ∧ TurnOutcome beyond peer (ibuf.rest.take size)
          (ibuf.rest.drop size) ibuf.getp off seen g h (.stop ret r.2)
          (attrVerdict beyond peer h (valueAt (ibuf.rest.take size) off h)) := by
      refine attrLoop_decided (parseStart_boundary beyond peer ibuf size) ?_ hmeets hverdict
      rw [hlen]
      exact hloop
    have hresult {ret : AttrParseRet} (hret : r.1=some ret) :
        parseResult peer (ibuf.getp+size) r=(ret,r.2) := by
      obtain ⟨ret',p⟩ := r
      cases hret
      rfl
    refine ⟨fun hleaks => ?_,fun hfails => ?_,fun hwithdraws => ?_⟩
    · have hverdict : attrVerdict beyond peer h (valueAt (ibuf.rest.take size) off h)=.leak :=
        verdict_leak_iff.mpr hleaks
      obtain ⟨ret,hret,houtcome⟩ := hdecided (by rw [hverdict]; decide)
      rw [hverdict] at houtcome
      obtain ⟨p,hstop,-⟩ := houtcome
      cases hstop
      have hreturns := hprotocol.returns
      rw [hresult hret] at hreturns
      rcases hreturns with hreturns|hreturns|hreturns <;> exact nomatch hreturns
    · have hverdict : attrVerdict beyond peer h (valueAt (ibuf.rest.take size) off h)=.doubled :=
        verdict_doubled_iff.mpr hfails
      obtain ⟨ret,hret,houtcome⟩ := hdecided (by rw [hverdict]; decide)
      rw [hverdict] at houtcome
      obtain ⟨p,hstop,-,hsent⟩ := houtcome
      cases hstop
      have hnotified := hprotocol.notified
      rw [hresult hret] at hnotified
      have hone : r.2.state.notified.length=1 := hnotified.mp rfl
      omega
    have hverdict := verdict_withdraw_iff.mpr hwithdraws
    obtain ⟨ret,hret,houtcome⟩ := hdecided (by rw [hverdict]; decide)
    rw [hverdict] at houtcome
    obtain ⟨p,hstop,-,-,hstands⟩ := houtcome
    cases hstop
    have hconsumed := hprotocol.consumed
    rw [hresult hret] at hconsumed
    have hgetp := hstands.getp
    have hend := hconsumed (.inr rfl)
    dsimp only at hend
    omega
  · cases hending with
    | @finished seen g p boundary =>
      have hgetp : p.state.ibuf.getp=ibuf.getp+size := by rw [boundary.stands.getp,hlen]
      have hnone := boundary.notified
      rcases @attrFinish_spec peer p.state _ hgetp with ⟨hret,-,honly⟩|⟨hret,hsent⟩
      · refine ⟨boundary.history.framed,boundary.history.once,.inl hret,fun _ => ?_,?_⟩
        · exact (congrArg Stream.getp honly.ibuf).trans hgetp
        change (attrFinish peer p.state (ibuf.getp+size)).1=.error ↔
          (attrFinish peer p.state (ibuf.getp+size)).2.notified.length=1
        rw [hret,honly.notified,hnone]
        decide
      refine ⟨boundary.history.framed,boundary.history.once,.inr (.inr hret),fun h => ?_,?_⟩
      · change (attrFinish peer p.state (ibuf.getp+size)).1=_ ∨
          (attrFinish peer p.state (ibuf.getp+size)).1=_ at h
        rw [hret] at h
        rcases h with h|h <;> exact nomatch h
      change (attrFinish peer p.state (ibuf.getp+size)).1=.error ↔
        (attrFinish peer p.state (ibuf.getp+size)).2.notified.length=1
      rw [hret,hsent,hnone]
      decide
    | @refused p history notified =>
      refine ⟨history.framed,history.once,.inr (.inr rfl),fun h => ?_,fun _ => notified,
        fun _ => rfl⟩
      rcases h with h|h <;> cases h
    | @broken off seen g h ret p meets verdict outcome =>
      obtain ⟨hleak,hfail,hlast⟩ := hharmless off seen g h meets
      rcases verdict with hverdict|hverdict|hverdict
      · exact absurd (verdict_leak_iff.mp hverdict) hleak
      · exact absurd (verdict_doubled_iff.mp hverdict) hfail
      have hend := hlast (verdict_withdraw_iff.mp hverdict)
      rw [hverdict] at outcome
      obtain ⟨p',hstop,hhistory,hnone,hstands⟩ := outcome
      cases hstop
      refine ⟨hhistory.framed,hhistory.once,.inr (.inl rfl),fun _ => ?_,?_⟩
      · exact hstands.getp.trans (by rw [hend,hlen])
      change AttrParseRet.withdraw=.error ↔ p.state.notified.length=1
      rw [hnone]
      decide

end

def samplePeer : Peer where
  sort := .ebgp
  as4Rcv := false
  restartRcv := false
  as := 1
  changeLocalAs := 0
  localAsNoPrepend := false
  enforceFirstAs := false

/-- A block with an empty `AS4_PATH` that is not marked as optional. -/
def sampleBlock : Stream := streamOf [0x40,17,0]

theorem bgpAttrParse_protocol_iff_sampleBlock : 3 ≤ sampleBlock.readable ∧
      ∃ r, (∀ fuel, 3<fuel → bgpAttrParse 0 samplePeer fuel sampleBlock 3=some r) ∧
        (VerdictProtocol sampleBlock.getp 3 r ↔ Harmless 0 samplePeer (sampleBlock.rest.take 3)) :=
  ⟨by decide,bgpAttrParse_protocol_iff 0 samplePeer sampleBlock 3 (by decide)⟩

theorem bgpAttrParse_leaks_sampleBlock :
    (bgpAttrParse 0 samplePeer 4 sampleBlock 3).map (fun r => (r.1,r.2.state.notified)) =
      some (.errorNotifypls,[]) := by
  decide +kernel

theorem bgpAttrParse_breaksProtocol :
    ¬ ∀ (beyond : BitVec 8) (peer : Peer) (ibuf : Stream) (size : ℕ), size ≤ ibuf.readable →
      ∃ r, (∀ fuel, size<fuel → bgpAttrParse beyond peer fuel ibuf size=some r) ∧
        VerdictProtocol ibuf.getp size r := by
  intro hall
  obtain ⟨r,hr,hprotocol⟩ := hall 0 samplePeer sampleBlock 3 (by decide)
  have hleaks := bgpAttrParse_leaks_sampleBlock
  rw [hr 4 (by decide),map_some] at hleaks
  have hret : r.1=.errorNotifypls := congrArg Prod.fst (some.inj hleaks)
  have hreturns := hprotocol.returns
  rw [hret] at hreturns
  revert hreturns
  decide

end RoutePlatform.AttrProtocol
