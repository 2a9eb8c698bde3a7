import RoutePlatform.BestPathOperations

/-!
# Comparing paths by a key

Whenever the MED step can be read as a comparison of one number per path,
`bgp_info_cmp` compares lists of numbers lexicographically. The last numbers
are the neighbour address, so paths from different neighbours never tie.
-/

namespace RoutePlatform.BestPathComparison

open AsPathSynthesis BestChoice BestPathOperations List Option

/-- The numbers of an address, in the order in which they are compared. -/
def addressKey : Sockunion→List ℤ
  | .inet addr => 2::(addr : ℤ)::List.replicate 15 0
  | .inet6 addr => 10::(List.ofFn addr).map fun b : ℕ => (b : ℤ)

theorem length_addressKey (su : Sockunion) : (addressKey su).length=17 := by
  cases su with
  | inet addr => rfl
  | inet6 addr => simp [addressKey]

theorem addressKey_injective : Function.Injective addressKey := by
  intro su su' h
  cases su with
  | inet addr =>
    cases su' with
    | inet addr' => simpa [addressKey] using h
    | inet6 addr' => simp [addressKey] at h
  | inet6 addr =>
    cases su' with
    | inet addr' => simp [addressKey] at h
    | inet6 addr' =>
      have hmap := (cons.inj h).2
      have hofn := map_injective_iff.mpr Nat.cast_injective hmap
      rw [ofFn_injective hofn]

/-- The answer of step 13 to a comparison result. -/
def addressAnswer (ret : ℤ) : Option Bool :=
  if ret=1 then some false else if ret = -1 then some true else none

theorem cast_strictMono : StrictMono fun n : ℕ => (n : ℤ) := fun _ _ h => Int.ofNat_lt.mpr h

theorem neg_cast_strictAnti : StrictAnti fun n : ℕ => -(n : ℤ) :=
  fun _ _ h => neg_lt_neg (Int.ofNat_lt.mpr h)

theorem prefer_cast (a b : ℕ) : prefer (a : ℤ) b=prefer a b := prefer_map cast_strictMono a b

theorem prefer_neg_cast (a b : ℕ) : prefer (-(a : ℤ)) (-b)=prefer b a :=
  prefer_map_reverse neg_cast_strictAnti a b

theorem addressAnswer_in6addrCmp (as bs : List ℕ) : addressAnswer (in6addrCmp as bs) =
      lexPrefer (as.map fun a : ℕ => (a : ℤ)) (bs.map fun b : ℕ => (b : ℤ)) := by
  induction as generalizing bs with
  | nil => rfl
  | cons a as ih =>
    cases bs with
    | nil => rfl
    | cons b bs =>
      rw [in6addrCmp,map_cons,map_cons,lexPrefer,prefer_cast,←ih]
      rcases lt_trichotomy a b with hab|hab|hab
      · rw [if_neg hab.not_gt,if_pos hab,prefer_of_lt hab]
        rfl
      · subst hab
        rw [if_neg (lt_irrefl _),if_neg (lt_irrefl _),prefer_self,none_or]
      rw [if_pos hab,prefer_of_gt hab]
      rfl

theorem lexPrefer_self (as : List ℤ) : lexPrefer as as=none := (lexPrefer_spec rfl).2.mpr rfl

theorem addressAnswer_sockunionCmp (su1 su2 : Sockunion) :
    addressAnswer (sockunionCmp su1 su2)=lexPrefer (addressKey su1) (addressKey su2) := by
  cases su1 with
  | inet a =>
    cases su2 with
    | inet b =>
      have hcmp : sockunionCmp (.inet a) (.inet b)=if a=b then 0 else if a > b then 1 else -1 :=
        rfl
      rw [addressKey,addressKey,lexPrefer,lexPrefer,prefer_self,none_or,prefer_cast,
        lexPrefer_self,or_none,hcmp]
      rcases lt_trichotomy a b with hab|hab|hab
      · rw [if_neg hab.ne,if_neg hab.not_gt,prefer_of_lt hab]
        rfl
      · subst hab
        rw [if_pos rfl,prefer_self]
        rfl
      rw [if_neg hab.ne',if_pos hab,prefer_of_gt hab]
      rfl
    | inet6 b => rfl
  | inet6 a =>
    cases su2 with
    | inet b => rfl
    | inet6 b =>
      have hcmp : sockunionCmp (.inet6 a) (.inet6 b)=in6addrCmp (ofFn a) (ofFn b) := rfl
      rw [addressKey,addressKey,lexPrefer,prefer_self,none_or,← addressAnswer_in6addrCmp,hcmp]

theorem addressCheck_eq (new exist : BgpInfo) : addressCheck new exist =
      lexPrefer (addressKey new.peer.suRemote) (addressKey exist.peer.suRemote) :=
  addressAnswer_sockunionCmp _ _

section

variable (bgp : Bgp)

/-- The length of the AS path as step 4 counts it. -/
def hopsKey (info : BgpInfo) : ℕ := if bgp.aspathIgnore then 0
  else if bgp.aspathConfed then
    aspathCountHops info.attr.aspath+aspathCountConfeds info.attr.aspath
  else aspathCountHops info.attr.aspath

/-- The rank of the peer type in step 7. -/
def sortRank (info : BgpInfo) : ℕ := if info.peer.sort=.ebgp then 0 else 1

def earlyKey (info : BgpInfo) : List ℤ :=
  [-(info.attr.weight.getD 0 : ℕ),-(localPrefValue bgp info.attr : ℕ),(hopsKey bgp info : ℕ),
    (info.attr.origin : ℕ)]

def lateKey (info : BgpInfo) : List ℤ :=
  (sortRank info : ℤ)::(info.igpmetric.getD 0 : ℕ)::(routerId info : ℤ) ::
    (info.attr.clusterLength.getD 0 : ℕ)::addressKey info.peer.suRemote

/-- The numbers of a path, with this one for the MED. -/
def pathKey (m : BgpInfo→ℕ) (info : BgpInfo) : List ℤ :=
  earlyKey bgp info++(m info : ℤ)::lateKey info

theorem length_pathKey (m m' : BgpInfo→ℕ) (info info' : BgpInfo) :
    (pathKey bgp m info).length=(pathKey bgp m' info').length := by
  simp [pathKey,earlyKey,lateKey,length_addressKey]

theorem suRemote_eq_of_pathKey_eq {m m' : BgpInfo→ℕ} {info info' : BgpInfo}
    (h : pathKey bgp m info=pathKey bgp m' info') :
    info.peer.suRemote=info'.peer.suRemote := by
  apply addressKey_injective
  simp only [pathKey,earlyKey,lateKey,cons_append,nil_append,cons.injEq] at h
  exact h.2.2.2.2.2.2.2.2.2

variable {bgp} {new exist : BgpInfo}

theorem aspathCheck_eq :
    aspathCheck bgp new exist=prefer (hopsKey bgp new) (hopsKey bgp exist) := by
  rw [aspathCheck,hopsKey,hopsKey]
  by_cases hi : bgp.aspathIgnore=true
  · rw [if_pos hi,if_pos hi,if_pos hi,prefer_self]
  rw [if_neg hi,if_neg hi,if_neg hi]
  by_cases hc : bgp.aspathConfed=true
  · rw [if_pos hc,if_pos hc,if_pos hc]
  · rw [if_neg hc,if_neg hc,if_neg hc]

theorem peerTypeCheck_eq (hnew : new.peer.sort ≠ .internal) (hexist : exist.peer.sort ≠ .internal) :
    peerTypeCheck new exist=prefer (sortRank new) (sortRank exist) := by
  rw [peerTypeCheck,sortRank,sortRank]
  cases hn : new.peer.sort <;> cases he : exist.peer.sort <;> first | rfl | contradiction

/-- What the comparison needs of two paths. -/
structure Comparable (bgp : Bgp) (m : BgpInfo→ℕ) (new exist : BgpInfo) : Prop where
  newNormal : new.subType=.normal
  existNormal : exist.subType=.normal
  /-- The new path comes from a peer that step 7 knows. -/
  newSort : new.peer.sort ≠ .internal
  existSort : exist.peer.sort ≠ .internal
  /-- For paths of one length the MED step compares the given numbers. -/
  med : hopsKey bgp new=hopsKey bgp exist → medCheck bgp new exist=prefer (m new) (m exist)

theorem infoCmp_fst (s t : Bool) : (infoCmp bgp new exist s t).1 =
      ((earlySteps bgp new exist).or (lateSteps bgp new exist s t)).getD true := by
  rw [infoCmp]
  cases earlySteps bgp new exist <;> rfl

theorem lexPrefer_earlyKey : lexPrefer (earlyKey bgp new) (earlyKey bgp exist) =
      (weightCheck new exist).or ((localPrefCheck bgp new exist).or
        ((aspathCheck bgp new exist).or (originCheck new exist))) := by
  simp only [earlyKey,lexPrefer,prefer_neg_cast,prefer_cast,or_none,aspathCheck_eq]
  rfl

theorem lexPrefer_lateKey (hnew : new.peer.sort ≠ .internal)
    (hexist : exist.peer.sort ≠ .internal) :
    lexPrefer (lateKey new) (lateKey exist) =
      (peerTypeCheck new exist).or ((igpCheck new exist).or ((routerIdCheck new exist).or
        ((clusterCheck new exist).or (addressCheck new exist)))) := by
  simp only [lateKey,lexPrefer,prefer_cast,peerTypeCheck_eq hnew hexist,addressCheck_eq]
  rfl

section

variable {m : BgpInfo → ℕ} (hrid : bgp.compareRouterId=true) (h : Comparable bgp m new exist)
include hrid h

/-- With `compare-routerid` the steps compare keys. -/
theorem infoCmp_eq_lexPrefer (s t : Bool) : (infoCmp bgp new exist s t).1 =
      (lexPrefer (pathKey bgp m new) (pathKey bgp m exist)).getD true := by
  have hlocal : localRouteCheck new exist=none := by
    rw [localRouteCheck,if_neg (not_not.mpr h.newNormal),if_neg (not_not.mpr h.existNormal)]
  have holdest : oldestCheck bgp new exist s t=none := by
    rw [oldestCheck,hrid]
    rfl
  have hlen : (earlyKey bgp new).length=(earlyKey bgp exist).length := rfl
  rw [infoCmp_fst,pathKey,pathKey,lexPrefer_append hlen,lexPrefer,lexPrefer_earlyKey,
    lexPrefer_lateKey h.newSort h.existSort,prefer_cast,earlySteps,lateSteps,hlocal,holdest]
  simp only [none_or,Option.or_assoc]
  -- the MED step is reached only by paths of one length
  by_cases hhops : hopsKey bgp new=hopsKey bgp exist
  · rw [h.med hhops]
  obtain ⟨answer,hanswer⟩ : ∃ answer, aspathCheck bgp new exist=some answer := by
    rw [aspathCheck_eq]
    rcases lt_or_gt_of_ne hhops with hlt|hgt
    · exact ⟨true,prefer_of_lt hlt⟩
    · exact ⟨false,prefer_of_gt hgt⟩
  rw [hanswer,some_or,some_or]

theorem infoCmp_iff (hsu : new.peer.suRemote≠exist.peer.suRemote) (s t : Bool) :
    (infoCmp bgp new exist s t).1=true ↔ pathKey bgp m new<pathKey bgp m exist := by
  obtain ⟨hlt,heq⟩ := lexPrefer_spec (length_pathKey bgp m m new exist)
  rw [infoCmp_eq_lexPrefer hrid h,←hlt]
  cases hanswer : lexPrefer (pathKey bgp m new) (pathKey bgp m exist) with
  | none => exact absurd (suRemote_eq_of_pathKey_eq bgp (heq.mp hanswer)) hsu
  | some answer => rw [getD_some,some.injEq]

end

end

end RoutePlatform.BestPathComparison
