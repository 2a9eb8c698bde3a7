import RoutePlatform.UpdateOperations

/-!
# Mandatory attributes of announced prefixes

A prefix must not reach the routing table without the attributes that every
route has. `bgp_attr_check` sees to that only as far as it is called and can
know what follows the attributes; here is what gets past it.
-/

namespace RoutePlatform.UpdateMandatory

open AttrOperations UpdateOperations List

variable {afc : BitVec 16→BitVec 8→Bool} {endp : ℕ} {ok : Prop} (attr : Attr) (s : AttrState)
  (plain : Bool) (n : BgpNlri)

/-- The attribute has all a route needs; `plain` is for plain NLRI. -/
structure CompleteAttr (peer : Peer) (attr : Attr) (plain : Bool) : Prop where
  origin : .origin∈attr.flag
  asPath : .asPath∈attr.flag
  aspath : attr.aspath.isSome
  nextHop : plain=true → .nextHop∈attr.flag
  localPref : peer.sort=.ibgp → .localPref∈attr.flag

/-- A call does not announce a prefix without its mandatory attributes. -/
def Complete (peer : Peer) : NlriCall→Prop
  | .update _ attr _ _ plain => CompleteAttr peer attr plain
  | .withdraw _ _ _ => True

/-- The loop of `bgp_nlri_parse` comes to a prefix that it hands on. -/
def announcesLoop (afi : BitVec 16) (safi : BitVec 8) : ℕ→List (BitVec 8)→Bool
  | 0, _ => false
  | _+1, [] => false
  | fuel+1, prefixlen::rest =>
    if prefixlenBad afi prefixlen then false
    else if rest.length<psize prefixlen then false
    else if nlriStops afi safi ⟨prefixlen,rest.take (psize prefixlen)⟩ then false
    else if nlriSkips afi safi ⟨prefixlen,rest.take (psize prefixlen)⟩ then
      announcesLoop afi safi fuel (rest.drop (psize prefixlen))
    else true

/-- An NLRI field hands on a prefix. -/
def announces (n : BgpNlri) : Bool := announcesLoop n.afi n.safi n.nlri.length n.nlri

section

variable {peer : Peer} {refuses : List NlriCall→Bool} {afi : BitVec 16} {safi : BitVec 8}
  {calls : List NlriCall}

theorem forall_mem_snoc {c : NlriCall} :
    (∀ x∈calls++[c], Complete peer x) ↔ (∀ x∈calls, Complete peer x) ∧ Complete peer c := by
  simp only [mem_append,mem_singleton,or_imp,forall_and,forall_eq]

/-- The calls of the loop are alike, and some exactly when there is a prefix. -/
theorem nlriParseLoop_complete_iff (call : NlriPrefix→NlriCall)
    (hcall : ∀ p, Complete peer (call p) ↔ ok) (fuel : ℕ) (bytes : List (BitVec 8))
    (calls : List NlriCall) :
    (∀ c∈nlriParseLoop refuses call afi safi fuel bytes calls, Complete peer c) ↔
      (∀ c∈calls, Complete peer c) ∧ (announcesLoop afi safi fuel bytes=true → ok) := by
  induction fuel generalizing bytes calls with
  | zero => exact ⟨fun h => ⟨h,nofun⟩,fun h => h.1⟩
  | succ fuel ih =>
    cases bytes with
    | nil => exact ⟨fun h => ⟨h,nofun⟩,fun h => h.1⟩
    | cons prefixlen rest =>
      have hstop : (∀ c∈calls, Complete peer c) ↔
          (∀ c∈calls, Complete peer c) ∧ (false=true → ok) :=
        ⟨fun h => ⟨h,nofun⟩,fun h => h.1⟩
      rw [nlriParseLoop,announcesLoop]
      by_cases hbad : prefixlenBad afi prefixlen=true
      · rw [if_pos hbad,if_pos hbad]
        exact hstop
      rw [if_neg hbad,if_neg hbad]
      by_cases hshort : rest.length<psize prefixlen
      · rw [if_pos hshort,if_pos hshort]
        exact hstop
      rw [if_neg hshort,if_neg hshort]
      by_cases hstops : nlriStops afi safi ⟨prefixlen,rest.take (psize prefixlen)⟩=true
      · rw [if_pos hstops,if_pos hstops]
        exact hstop
      rw [if_neg hstops,if_neg hstops]
      by_cases hskips : nlriSkips afi safi ⟨prefixlen,rest.take (psize prefixlen)⟩=true
      · rw [if_pos hskips,if_pos hskips]
        exact ih _ _
      rw [if_neg hskips,if_neg hskips]
      split
      · rw [forall_mem_snoc,hcall]
        exact ⟨fun h => ⟨h.1,fun _ => h.2⟩,fun h => ⟨h.1,h.2 rfl⟩⟩
      rw [ih,forall_mem_snoc,hcall]
      exact ⟨fun h => ⟨h.1.1,fun _ => h.1.2⟩,fun h => ⟨⟨h.1,h.2 rfl⟩,fun _ => h.2 rfl⟩⟩

theorem bgpNlriParse_complete_iff :
    (∀ c∈bgpNlriParse refuses (some attr) plain n calls, Complete peer c) ↔
      (∀ c∈calls, Complete peer c) ∧ (announces n=true → CompleteAttr peer attr plain) :=
  nlriParseLoop_complete_iff (fun p => .update p attr n.afi n.safi plain) (fun _ => Iff.rfl) _ _ _

theorem bgpNlriParse_withdraw_iff :
    (∀ c∈bgpNlriParse refuses none plain n calls, Complete peer c) ↔ ∀ c∈calls, Complete peer c :=
  (nlriParseLoop_complete_iff (fun p => .withdraw p n.afi n.safi) (fun _ => Iff.rfl) _ _ _).trans
    (and_iff_left fun _ => trivial)

/-- Withdrawn prefixes add no announcement. -/
theorem ite_withdraw_iff {c : Prop} [Decidable c] :
    (∀ x∈if c then bgpNlriParse refuses none plain n calls else calls, Complete peer x) ↔
      ∀ x∈calls, Complete peer x := by
  split
  · exact bgpNlriParse_withdraw_iff _ _
  · exact Iff.rfl

theorem announces_nil {n : BgpNlri} (hn : n.nlri=[]) : announces n=false := by
  rw [announces,hn]
  rfl

theorem mpCalls_complete_iff :
    (∀ c∈mpCalls afc refuses (some attr) s afi safi calls, Complete peer c) ↔
      (∀ c∈calls, Complete peer c) ∧
        (afc afi safi=true ∧ s.mpUpdate.afi=afi ∧ s.mpUpdate.safi=safi ∧
          announces s.mpUpdate=true → CompleteAttr peer attr false) := by
  unfold mpCalls
  by_cases hafc : afc afi safi=true
  · rw [if_pos hafc]
    rw [ite_withdraw_iff]
    split
    · rename_i hmp
      rw [bgpNlriParse_complete_iff]
      exact and_congr_right fun _ => ⟨fun h hh => h hh.2.2.2,fun h hh => h ⟨hafc,hmp.2.1,hmp.2.2,hh⟩⟩
    rename_i hmp
    refine ⟨fun h => ⟨h,fun hh => ?_⟩,fun h => h.1⟩
    refine absurd ⟨fun hz => ?_,hh.2.1,hh.2.2.1⟩ hmp
    rw [announces_nil (length_eq_zero_iff.mp hz)] at hh
    exact nomatch hh.2.2.2
  · rw [if_neg hafc]
    exact ⟨fun h => ⟨h,fun hh => absurd hh.1 hafc⟩,fun h => h.1⟩

theorem mpCalls_withdraw_iff :
    (∀ c∈mpCalls afc refuses none s afi safi calls, Complete peer c) ↔
      ∀ c∈calls, Complete peer c := by
  unfold mpCalls
  split
  · dsimp only
    split
    · rw [bgpNlriParse_withdraw_iff]
      exact ite_withdraw_iff _ _
    · exact ite_withdraw_iff _ _
  · exact Iff.rfl

end

section

variable {peer : Peer} {afc : BitVec 16→BitVec 8→Bool} {refuses : List NlriCall→Bool}
  {ret : AttrParseRet} {withdraw update : BgpNlri} {s : AttrState}

/-- A prefix of the plain NLRI field is handed on. -/
def Handed (afc : BitVec 16→BitVec 8→Bool) (nlri : List (BitVec 8)) : Prop :=
  afc afiIp safiUnicast=true ∧ announces ⟨afiIp,safiUnicast,nlri⟩=true

/-- The address families of `bgp_nlri_parse`. -/
def nlriFamilies : List (BitVec 16 × BitVec 8) :=
  [(afiIp,safiUnicast),(afiIp,safiMulticast),(afiIp6,safiUnicast),(afiIp6,safiMulticast)]

/-- A prefix of an `MP_REACH_NLRI` attribute is handed on. -/
def HandedMp (afc : BitVec 16→BitVec 8→Bool) (n : BgpNlri) : Prop :=
  (n.afi,n.safi)∈nlriFamilies ∧ afc n.afi n.safi=true ∧ announces n=true

theorem handedMp_iff {n : BgpNlri} : (HandedMp afc n → ok) ↔ ∀ family∈nlriFamilies,
      afc family.1 family.2=true ∧ n.afi=family.1 ∧ n.safi=family.2 ∧ announces n=true →
        ok := by
  constructor
  · rintro h ⟨afi,safi⟩ hmem ⟨hafc,rfl,rfl,hann⟩
    exact h ⟨hmem,hafc,hann⟩
  · rintro h ⟨hmem,hafc,hann⟩
    exact h (n.afi,n.safi) hmem ⟨hafc,rfl,rfl,hann⟩

/-- The calls are complete exactly when the attribute is or there are none. -/
theorem updateCalls_complete_iff (hret : ret ≠ .withdraw)
    (hupdate : update.nlri≠[] → update.afi=afiIp ∧ update.safi=safiUnicast) :
    (∀ c∈updateCalls afc refuses ret withdraw update s, Complete peer c) ↔
      (Handed afc update.nlri → CompleteAttr peer s.attr true) ∧
        (HandedMp afc s.mpUpdate → CompleteAttr peer s.attr false) := by
  have hattr : nlriAttrArg ret s.attr=some s.attr := if_pos hret
  have hplain : (∀ c∈(if afc afiIp safiUnicast=true then
        if update.nlri.length≠0 then
          bgpNlriParse refuses (some s.attr) true update
            (if withdraw.nlri.length≠0 then bgpNlriParse refuses none true withdraw [] else [])
        else if withdraw.nlri.length≠0 then bgpNlriParse refuses none true withdraw [] else []
      else []), Complete peer c) ↔ (Handed afc update.nlri → CompleteAttr peer s.attr true) := by
    have hwithdraw : ∀ c∈(if withdraw.nlri.length≠0 then
        bgpNlriParse refuses none true withdraw [] else []), Complete peer c := by
      exact (ite_withdraw_iff _ _).mpr fun c hmem => nomatch hmem
    by_cases hafc : afc afiIp safiUnicast=true
    · rw [if_pos hafc]
      by_cases hlen : update.nlri.length≠0
      · obtain ⟨hafi,hsafi⟩ := hupdate (ne_nil_of_length_pos (pos_of_ne_zero hlen))
        have heq : update=⟨afiIp,safiUnicast,update.nlri⟩ := by rw [←hafi,←hsafi]
        rw [if_pos hlen,bgpNlriParse_complete_iff,and_iff_right hwithdraw]
        refine imp_congr_left ?_
        rw [Handed,←heq]
        exact (and_iff_right hafc).symm
      rw [if_neg hlen]
      have hno : announces ⟨afiIp,safiUnicast,update.nlri⟩=false :=
        announces_nil (length_eq_zero_iff.mp (not_not.mp hlen))
      refine iff_of_true hwithdraw fun h => ?_
      rw [Handed,hno] at h
      exact nomatch h.2
    · rw [if_neg hafc]
      exact iff_of_true (fun c hmem => nomatch hmem) fun h => absurd h.1 hafc
  unfold updateCalls
  rw [hattr,mpCalls_complete_iff,mpCalls_complete_iff,mpCalls_complete_iff,
    mpCalls_complete_iff,hplain,handedMp_iff]
  unfold nlriFamilies
  simp only [forall_mem_cons,not_mem_nil,false_imp_iff,implies_true,and_true,and_assoc]

theorem updateCalls_withdraw :
    ∀ c∈updateCalls afc refuses .withdraw withdraw update s, Complete peer c := by
  have hattr : nlriAttrArg .withdraw s.attr=none := rfl
  unfold updateCalls
  dsimp only
  rw [hattr,mpCalls_withdraw_iff,mpCalls_withdraw_iff,mpCalls_withdraw_iff,mpCalls_withdraw_iff]
  split
  · split
    · rw [bgpNlriParse_withdraw_iff]
      exact (ite_withdraw_iff _ _).mpr fun c hmem => nomatch hmem
    · exact (ite_withdraw_iff _ _).mpr fun c hmem => nomatch hmem
  · exact fun c hmem => nomatch hmem

/-- The part of the message behind the attributes. -/
theorem updateNlri_complete_iff {nlri ys : List (BitVec 8)} (hrs : s.ibuf.rest=nlri++ys)
    (hendp : endp=s.ibuf.getp+nlri.length) (hret : ret ≠ .withdraw) :
    (∀ c∈(updateNlri afc refuses endp withdraw ret s).calls, Complete peer c) ↔
      (nlriSane afiIp nlri=true → (Handed afc nlri → CompleteAttr peer s.attr true) ∧
        (HandedMp afc s.mpUpdate → CompleteAttr peer s.attr false)) := by
  have hlen : endp-s.ibuf.getp=nlri.length := by omega
  have hbs : s.pnt nlri.length=nlri := by rw [AttrState.pnt,hrs,take_left]
  unfold updateNlri bgpNlriSanityCheck
  dsimp only
  rw [hlen,hbs]
  by_cases hz : nlri.length≠0
  · rw [if_pos hz]
    by_cases hsane : nlriSane afiIp nlri=true
    · rw [if_pos hsane]
      rw [updateCalls_complete_iff hret fun _ => ⟨rfl,rfl⟩]
      exact ⟨fun h _ => h,fun h => h hsane⟩
    rw [if_neg hsane]
    exact iff_of_true (fun c hmem => absurd hmem not_mem_nil) fun h => absurd h hsane
  rw [if_neg hz]
  have hnil := length_eq_zero_iff.mp (not_not.mp hz)
  rw [updateCalls_complete_iff hret fun hne => absurd rfl hne,hnil]
  exact ⟨fun h _ => h,fun h => h rfl⟩

theorem updateNlri_withdraw :
    ∀ c∈(updateNlri afc refuses endp withdraw .withdraw s).calls, Complete peer c := by
  unfold updateNlri bgpNlriSanityCheck
  dsimp only
  split
  · split
    · exact fun c hmem => nomatch hmem
    · exact updateCalls_withdraw
  · exact updateCalls_withdraw

end

end RoutePlatform.UpdateMandatory
