import RoutePlatform.BestPathOrder

/-!
# Comparing two paths both ways

`bgp_info_cmp` may be asked with its two paths in either order. Each step gives the
opposite answer to the swapped question, save that a local route beats another local
route both ways, and that the multipath check looks at the sort of the first peer only.
-/

namespace RoutePlatform.BestPathSymmetry

open AttrOperations (PeerSort)
open BestChoice BestPathOperations BestPathComparison BestPathOrder Option

/-- The swapped question gets the opposite answer. -/
def Opposite (forth back : Option Bool) : Prop := back=forth.map not

theorem prefer_opposite {β : Type} [LinearOrder β] (a b : β) :
    Opposite (prefer a b) (prefer b a) := by
  rw [Opposite]
  rcases lt_trichotomy a b with h|h|h
  · rw [prefer_of_lt h,prefer_of_gt h]
    rfl
  · rw [h,prefer_self]
    rfl
  rw [prefer_of_gt h,prefer_of_lt h]
  rfl

theorem Opposite.or {a b c d : Option Bool} (h : Opposite a b) (h' : Opposite c d) :
    Opposite (a.or c) (b.or d) := by
  rw [Opposite] at h h' ⊢
  rw [h,h']
  cases a <;> rfl

theorem lexPrefer_opposite (as bs : List ℤ) : Opposite (lexPrefer as bs) (lexPrefer bs as) := by
  induction as generalizing bs with
  | nil => cases bs <;> rfl
  | cons a as ih =>
    cases bs with
    | nil => rfl
    | cons b bs => exact (prefer_opposite a b).or (ih bs)

theorem prefer_eq_none_iff (a b : ℕ) : prefer a b=none ↔ a=b := by
  constructor
  · intro h
    by_contra hne
    rcases lt_or_gt_of_ne hne with hlt|hgt
    · rw [prefer_of_lt hlt] at h
      cases h
    rw [prefer_of_gt hgt] at h
    cases h
  · rintro rfl
    exact prefer_self a

section

variable (bgp : Bgp) (a b : BgpInfo)

/-- Two local routes with one weight and one preference. -/
structure LocalTie : Prop where
  weight : a.attr.weight.getD 0=b.attr.weight.getD 0
  localPref : localPrefValue bgp a.attr=localPrefValue bgp b.attr
  left : a.subType ≠ .normal
  right : b.subType ≠ .normal

/-- Two paths that the steps before the maximum path check do not tell apart. -/
structure Tied : Prop where
  weight : a.attr.weight.getD 0=b.attr.weight.getD 0
  localPref : localPrefValue bgp a.attr=localPrefValue bgp b.attr
  normal : a.subType=.normal ∧ b.subType=.normal
  hops : hopsKey bgp a=hopsKey bgp b
  origin : a.attr.origin=b.attr.origin
  med : medComparable bgp a b=true → bgpMedValue bgp a.attr=bgpMedValue bgp b.attr
  sort : ∀ s : PeerSort, s=.ibgp ∨ s=.confed →
    ¬(a.peer.sort=.ebgp ∧ b.peer.sort=s) ∧ ¬(b.peer.sort=.ebgp ∧ a.peer.sort=s)
  igp : a.igpmetric.getD 0=b.igpmetric.getD 0

/-- The multipath check compares one way only. -/
structure OneSided : Prop where
  strict : bgp.aspathMultipathRelax=false
  internal : a.peer.sort=.ibgp
  other : b.peer.sort ≠ .ibgp
  tied : Tied bgp a b
  differ : ¬(a.attr.aspath=b.attr.aspath ↔ a.peer.as=b.peer.as)

theorem medComparable_comm : medComparable bgp a b=medComparable bgp b a := by
  have hleft : aspathCmpLeft a.attr.aspath b.attr.aspath =
      aspathCmpLeft b.attr.aspath a.attr.aspath := by
    rw [Bool.eq_iff_iff,aspathCmpLeft_iff,aspathCmpLeft_iff]
    exact exists_congr fun _ => And.comm
  have hconfed : aspathCmpLeftConfed a.attr.aspath b.attr.aspath =
      aspathCmpLeftConfed b.attr.aspath a.attr.aspath := by
    cases a.attr.aspath with
    | nil => cases b.attr.aspath <;> rfl
    | cons seg rest =>
      cases b.attr.aspath with
      | nil => rfl
      | cons seg' rest' =>
        rw [aspathCmpLeftConfed,aspathCmpLeftConfed,Bool.and_comm (decide (seg.type=_)),
          decide_eq_decide.mpr (eq_comm : firstAs seg=firstAs seg' ↔ _)]
  rw [medComparable,medComparable,hleft,hconfed,confedAsRoute,confedAsRoute,internalAsRoute,
    internalAsRoute]
  ac_rfl

theorem medCheck_opposite : Opposite (medCheck bgp a b) (medCheck bgp b a) := by
  rw [medCheck,medCheck,medComparable_comm bgp b a]
  split
  · exact prefer_opposite _ _
  · rfl

theorem aspathCheck_opposite : Opposite (aspathCheck bgp a b) (aspathCheck bgp b a) := by
  rw [aspathCheck_eq,aspathCheck_eq]
  exact prefer_opposite _ _

theorem peerTypeCheck_opposite : Opposite (peerTypeCheck a b) (peerTypeCheck b a) := by
  rw [peerTypeCheck,peerTypeCheck]
  cases a.peer.sort <;> cases b.peer.sort <;> rfl

theorem addressCheck_opposite : Opposite (addressCheck a b) (addressCheck b a) := by
  rw [addressCheck_eq,addressCheck_eq]
  exact lexPrefer_opposite _ _

theorem localRouteCheck_opposite (h : ¬(a.subType ≠ .normal ∧ b.subType ≠ .normal)) :
    Opposite (localRouteCheck a b) (localRouteCheck b a) := by
  rw [localRouteCheck,localRouteCheck]
  by_cases ha : a.subType=.normal
  · by_cases hb : b.subType=.normal
    · simp [ha,hb,Opposite]
    · simp [ha,hb,Opposite]
  have hb := not_not.mp fun hb => h ⟨ha,hb⟩
  simp [ha,hb,Opposite]

theorem earlySteps_opposite (h : ¬LocalTie bgp a b) :
    Opposite (earlySteps bgp a b) (earlySteps bgp b a) := by
  have hweight : Opposite (weightCheck a b) (weightCheck b a) := prefer_opposite _ _
  have hpref : Opposite (localPrefCheck bgp a b) (localPrefCheck bgp b a) := prefer_opposite _ _
  have hlate : Opposite ((aspathCheck bgp a b).or ((originCheck a b).or ((medCheck bgp a b).or
        ((peerTypeCheck a b).or (igpCheck a b)))))
      ((aspathCheck bgp b a).or ((originCheck b a).or ((medCheck bgp b a).or
        ((peerTypeCheck b a).or (igpCheck b a))))) :=
    (aspathCheck_opposite bgp a b).or ((prefer_opposite _ _).or ((medCheck_opposite bgp a b).or
      ((peerTypeCheck_opposite a b).or (prefer_opposite _ _))))
  by_cases hlocal : a.subType ≠ .normal ∧ b.subType ≠ .normal
  · -- one of the first two steps decides
    rw [earlySteps,earlySteps,←@or_assoc _ (weightCheck a b),← @or_assoc _ (weightCheck b a)]
    have hhead := hweight.or hpref
    cases hanswer : (weightCheck a b).or (localPrefCheck bgp a b) with
    | some answer =>
      rw [hanswer] at hhead
      rw [hhead]
      rfl
    | none =>
      rw [or_eq_none_iff] at hanswer
      exact absurd ⟨((prefer_eq_none_iff _ _).mp hanswer.1).symm,
        ((prefer_eq_none_iff _ _).mp hanswer.2).symm,hlocal.1,hlocal.2⟩ h
  · exact hweight.or (hpref.or ((localRouteCheck_opposite a b hlocal).or hlate))

theorem LocalTie.earlySteps (h : LocalTie bgp a b) :
    earlySteps bgp a b=some true ∧ earlySteps bgp b a=some true := by
  have hab : localRouteCheck a b=some true := if_pos h.left
  have hba : localRouteCheck b a=some true := if_pos h.right
  rw [BestPathOperations.earlySteps,BestPathOperations.earlySteps,weightCheck,weightCheck,
    localPrefCheck,localPrefCheck,h.weight,h.localPref,prefer_self,prefer_self,hab,hba]
  exact ⟨rfl,rfl⟩

theorem localRouteCheck_eq_none_iff :
    localRouteCheck a b=none ↔ a.subType=.normal ∧ b.subType=.normal := by
  rw [localRouteCheck]
  by_cases ha : a.subType=.normal
  · by_cases hb : b.subType=.normal
    · simp [ha,hb]
    · simp [ha,hb]
  · simp [ha]

theorem peerTypeCheck_eq_none_iff : peerTypeCheck a b=none ↔ ∀ s : PeerSort, s=.ibgp ∨ s=.confed →
      ¬(a.peer.sort=.ebgp ∧ b.peer.sort=s) ∧ ¬(b.peer.sort=.ebgp ∧ a.peer.sort=s) := by
  rw [peerTypeCheck]
  cases a.peer.sort <;> cases b.peer.sort <;> simp

/-- The early steps leave the decision open between tied paths. -/
theorem earlySteps_eq_none_iff : earlySteps bgp a b=none ↔ Tied bgp a b := by
  have hmed : medCheck bgp a b=none ↔
      (medComparable bgp a b=true → bgpMedValue bgp a.attr=bgpMedValue bgp b.attr) := by
    rw [medCheck]
    split
    · rename_i hcomparable
      rw [prefer_eq_none_iff]
      exact ⟨fun h _ => h,fun h => h hcomparable⟩
    rename_i hcomparable
    exact ⟨fun _ h => absurd h hcomparable,fun _ => rfl⟩
  rw [earlySteps]
  simp only [or_eq_none_iff]
  rw [weightCheck,localPrefCheck,originCheck,igpCheck,aspathCheck_eq,hmed,
    localRouteCheck_eq_none_iff,peerTypeCheck_eq_none_iff]
  simp only [prefer_eq_none_iff]
  constructor
  · rintro ⟨hweight,hpref,hlocal,hhops,horg,hmed,hsort,higp⟩
    exact ⟨hweight.symm,hpref.symm,hlocal,hhops,horg,hmed,hsort,higp⟩
  · rintro ⟨hweight,hpref,hlocal,hhops,horg,hmed,hsort,higp⟩
    exact ⟨hweight.symm,hpref.symm,hlocal,hhops,horg,hmed,hsort,higp⟩

theorem lateSteps_opposite {s t : Bool} (h : ¬(s=true ∧ t=true)) :
    Opposite (lateSteps bgp a b s t) (lateSteps bgp b a t s) := by
  have holdest : Opposite (oldestCheck bgp a b s t) (oldestCheck bgp b a t s) := by
    rw [oldestCheck,oldestCheck]
    cases bgp.compareRouterId <;> cases a.peer.sort <;> cases b.peer.sort <;> cases s <;>
      cases t <;> first | rfl | exact absurd ⟨rfl,rfl⟩ h
  exact holdest.or ((prefer_opposite _ _).or ((prefer_opposite _ _).or (addressCheck_opposite a b)))

theorem lateSteps_ne_none (h : a.peer.suRemote≠b.peer.suRemote) (s t : Bool) :
    lateSteps bgp a b s t≠none := by
  intro hnone
  rw [lateSteps,or_eq_none_iff,or_eq_none_iff,or_eq_none_iff,addressCheck_eq] at hnone
  have hlen : (addressKey a.peer.suRemote).length=(addressKey b.peer.suRemote).length := by
    rw [length_addressKey,length_addressKey]
  exact h (addressKey_injective ((lexPrefer_spec hlen).2.mp hnone.2.2.2))

theorem Tied.symm (h : Tied bgp a b) : Tied bgp b a := by
  have hlocal : ¬LocalTie bgp a b := fun hlocal => hlocal.left h.normal.1
  have hopposite := earlySteps_opposite bgp a b hlocal
  rw [Opposite,(earlySteps_eq_none_iff bgp a b).mpr h] at hopposite
  exact (earlySteps_eq_none_iff bgp b a).mp hopposite

theorem pathsEqual_internal (hstrict : bgp.aspathMultipathRelax=false)
    (ha : a.peer.sort=.ibgp) (hb : b.peer.sort ≠ .ibgp) (htied : Tied bgp a b) :
    pathsEqual bgp a b=pathsEqual bgp b a ↔ ¬OneSided bgp a b := by
  have hwhen : OneSided bgp a b ↔ ¬(a.attr.aspath=b.attr.aspath ↔ a.peer.as=b.peer.as) :=
    ⟨fun h => h.differ,fun h => ⟨hstrict,ha,hb,htied,h⟩⟩
  rw [hwhen,not_not,pathsEqual,pathsEqual,hstrict,if_neg Bool.false_ne_true,
    if_neg Bool.false_ne_true,if_pos ha,if_neg hb,Bool.eq_iff_iff,aspathCmp_iff,
    decide_eq_true_iff,eq_comm (a := b.peer.as)]

/-- The multipath check gives one answer both ways unless it is one-sided. -/
theorem pathsEqual_comm_iff (htied : Tied bgp a b) :
    pathsEqual bgp a b=pathsEqual bgp b a ↔ ¬OneSided bgp a b ∧ ¬OneSided bgp b a := by
  cases hstrict : bgp.aspathMultipathRelax with
  | true =>
    have hnot (x y : BgpInfo) : ¬OneSided bgp x y := fun h => by
      rw [h.strict] at hstrict
      cases hstrict
    rw [pathsEqual,pathsEqual,hstrict]
    exact iff_of_true rfl ⟨hnot a b,hnot b a⟩
  | false =>
    by_cases ha : a.peer.sort=.ibgp
    · have hback : ¬OneSided bgp b a := fun h => h.other ha
      by_cases hb : b.peer.sort=.ibgp
      · have hforth : ¬OneSided bgp a b := fun h => h.other hb
        refine iff_of_true ?_ ⟨hforth,hback⟩
        rw [pathsEqual,pathsEqual,hstrict,if_neg Bool.false_ne_true,if_neg Bool.false_ne_true,
          if_pos ha,if_pos hb,Bool.eq_iff_iff,aspathCmp_iff,aspathCmp_iff]
        exact eq_comm
      · rw [pathsEqual_internal bgp a b hstrict ha hb htied,and_iff_left hback]
    have hforth : ¬OneSided bgp a b := fun h => ha h.internal
    by_cases hb : b.peer.sort=.ibgp
    · rw [eq_comm,pathsEqual_internal bgp b a hstrict hb ha htied.symm,and_iff_right hforth]
    have hback : ¬OneSided bgp b a := fun h => hb h.internal
    refine iff_of_true ?_ ⟨hforth,hback⟩
    rw [pathsEqual,pathsEqual,hstrict,if_neg Bool.false_ne_true,if_neg Bool.false_ne_true,
      if_neg ha,if_neg hb,decide_eq_decide]
    exact eq_comm

end

/-- Of two different paths exactly one is preferred, and multipath is decided both ways alike, iff
they are no tied local routes and the multipath check is two-sided. -/
theorem bgpInfoCmp_antisymmetric_iff (bgp : Bgp) (rn : BgpNode) (a b : ℕ)
    (hdiffer : (rn.info a).peer.suRemote≠(rn.info b).peer.suRemote ∨
      (rn.info a).subType≠(rn.info b).subType)
    (hselected : ¬((rn.flags a).selected=true ∧ (rn.flags b).selected=true)) :
    ((bgpInfoCmp bgp rn (some a) (some b)).1≠(bgpInfoCmp bgp rn (some b) (some a)).1 ∧
      (bgpInfoCmp bgp rn (some a) (some b)).2=(bgpInfoCmp bgp rn (some b) (some a)).2) ↔
      ¬LocalTie bgp (rn.info a) (rn.info b) ∧ ¬OneSided bgp (rn.info a) (rn.info b) ∧
        ¬OneSided bgp (rn.info b) (rn.info a) := by
  rw [bgpInfoCmp,bgpInfoCmp]
  generalize rn.info a=x at hdiffer ⊢
  generalize rn.info b=y at hdiffer ⊢
  by_cases hlocal : LocalTie bgp x y
  · obtain ⟨hforth,hback⟩ := hlocal.earlySteps
    rw [infoCmp,infoCmp,hforth,hback]
    exact iff_of_false (fun h => h.1 rfl) fun h => h.1 hlocal
  have hopposite := earlySteps_opposite bgp x y hlocal
  rw [Opposite] at hopposite
  rw [infoCmp,infoCmp,hopposite,and_iff_right hlocal]
  cases hearly : earlySteps bgp x y with
  | some answer =>
    have hnot {u v : BgpInfo} {answer : Bool} (h : earlySteps bgp u v=some answer) :
        ¬OneSided bgp u v := fun hone => by
      rw [(earlySteps_eq_none_iff bgp u v).mpr hone.tied] at h
      cases h
    rw [hearly] at hopposite
    refine iff_of_true ⟨?_,rfl⟩ ⟨hnot hearly,hnot hopposite⟩
    cases answer <;> exact fun h => Bool.noConfusion h
  | none =>
    have htied := (earlySteps_eq_none_iff bgp x y).mp hearly
    have haddress := hdiffer.resolve_right fun h => h (htied.normal.1.trans htied.normal.2.symm)
    have hlate := lateSteps_opposite bgp x y hselected
    rw [Opposite] at hlate
    cases hanswer : lateSteps bgp x y (rn.flags a).selected (rn.flags b).selected with
    | none => exact absurd hanswer (lateSteps_ne_none bgp x y haddress _ _)
    | some answer =>
      rw [hanswer] at hlate
      dsimp only [map_none]
      rw [hlate,pathsEqual_comm_iff bgp x y htied]
      refine and_iff_right ?_
      cases answer <;> exact fun h => Bool.noConfusion h

/-- A node with a path of the `network` command and a redistributed path. -/
def localNode : BgpNode where
  infoList := [1,2]
  info ri := {samplePath 100 0 0 0 with subType := if ri=1 then .static else .redistribute}
  flags _ := validFlags false

theorem bgpInfoCmp_antisymmetric_iff_localNode :
    ((bgpInfoCmp sampleBgp localNode (some 1) (some 2)).1 ≠
        (bgpInfoCmp sampleBgp localNode (some 2) (some 1)).1 ∧
      (bgpInfoCmp sampleBgp localNode (some 1) (some 2)).2 =
        (bgpInfoCmp sampleBgp localNode (some 2) (some 1)).2) ↔
      ¬LocalTie sampleBgp (localNode.info 1) (localNode.info 2) ∧
        ¬OneSided sampleBgp (localNode.info 1) (localNode.info 2) ∧
        ¬OneSided sampleBgp (localNode.info 2) (localNode.info 1) :=
  bgpInfoCmp_antisymmetric_iff sampleBgp localNode 1 2 (.inr (by decide)) (by decide)

/-- Both local paths are usable, and each is preferred to the other. -/
theorem bgpInfoCmp_prefersBoth :
    usable localNode=[1,2] ∧ (localNode.info 1).subType≠(localNode.info 2).subType ∧
      (bgpInfoCmp sampleBgp localNode (some 1) (some 2)).1=true ∧
      (bgpInfoCmp sampleBgp localNode (some 2) (some 1)).1=true := by
  decide

end RoutePlatform.BestPathSymmetry
