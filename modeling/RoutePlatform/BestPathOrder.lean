import RoutePlatform.BestPathSelection

/-!
# The best path does not depend on the order of arrival

Nodes that hold the same usable paths select the same path. With `always-compare-med` one key
orders all paths. With `deterministic-med` the paths of one neighbour AS are ordered by a key with
the MED; the best paths of different neighbours compare their MED only without hops, so a second
key orders them.
-/

namespace RoutePlatform.BestPathOrder

open AsPathOperations AsPathSynthesis BestChoice BestPathOperations BestPathComparison
  BestPathSelection OperationRuns List Assegment

/-- The neighbour AS that `aspath_cmp_left` compares. -/
def leftAs (aspath : List Assegment) : Option AsT :=
  match aspath.dropWhile isConfed with
  | seg::_ => if seg.type=.asSequence then some (firstAs seg) else none
  | [] => none

theorem aspathCmpLeft_iff (aspath1 aspath2 : List Assegment) : aspathCmpLeft aspath1 aspath2=true ↔
      ∃ as, leftAs aspath1=some as ∧ leftAs aspath2=some as := by
  rw [aspathCmpLeft,leftAs,leftAs]
  cases aspath1.dropWhile isConfed with
  | nil => simp
  | cons seg1 rest1 =>
    cases aspath2.dropWhile isConfed with
    | nil => simp
    | cons seg2 rest2 =>
      by_cases h1 : seg1.type=.asSequence
      · by_cases h2 : seg2.type=.asSequence
        · simp [h1,h2,eq_comm]
        · simp [h2]
      · simp [h1]

/-- The path has no confederation segments. -/
def NoConfed (aspath : List Assegment) : Prop := ∀ seg∈aspath, isConfed seg=false

theorem aspathCountConfeds_eq_zero {aspath : List Assegment} (h : NoConfed aspath) :
    aspathCountConfeds aspath=0 := by
  induction aspath with
  | nil => rfl
  | cons seg rest ih =>
    have hseg := h seg mem_cons_self
    have hrs := ih fun s hs => h s (.tail _ hs)
    rw [aspathCountConfeds] at hrs
    rw [aspathCountConfeds,map_cons,sum_cons,hrs]
    cases ht : seg.type <;> simp [isConfed,ht] at hseg ⊢

theorem aspathCmpLeftConfed_eq_false {aspath1 : List Assegment} (h : NoConfed aspath1)
    (aspath2 : List Assegment) : aspathCmpLeftConfed aspath1 aspath2=false := by
  cases aspath1 with
  | nil => rfl
  | cons seg1 rest1 =>
    cases aspath2 with
    | nil => rfl
    | cons seg2 rest2 =>
      have hseg := h seg1 mem_cons_self
      rw [aspathCmpLeftConfed]
      cases ht : seg1.type <;> simp [isConfed,ht] at hseg ⊢

/-- What is known of the usable paths of a node. -/
structure UsablePaths (rn : BgpNode) : Prop where
  normal : ∀ ri∈usable rn, (rn.info ri).subType=.normal
  sort : ∀ ri∈usable rn, (rn.info ri).peer.sort=.ebgp ∨ (rn.info ri).peer.sort=.ibgp ∨
    (rn.info ri).peer.sort=.confed
  address : ∀ ri∈usable rn, ∀ rj∈usable rn, ri≠rj →
    (rn.info ri).peer.suRemote≠(rn.info rj).peer.suRemote

section

variable {bgp : Bgp} {rn : BgpNode} {new exist : BgpInfo}

theorem UsablePaths.sort_ne (h : UsablePaths rn) {ri : ℕ} (hri : ri∈usable rn) :
    (rn.info ri).peer.sort ≠ .internal := by
  intro he
  have hsort := h.sort ri hri
  rw [he] at hsort
  rcases hsort with hsort|hsort|hsort <;> cases hsort

theorem ordered_pathKey (h : UsablePaths rn) (hrid : bgp.compareRouterId=true)
    {m : BgpInfo → ℕ} {S : ℕ → Prop} (hS : ∀ ri, S ri → ri∈usable rn)
    (hmed : ∀ {a b}, S a → S b → a≠b → hopsKey bgp (rn.info a)=hopsKey bgp (rn.info b) →
      medCheck bgp (rn.info a) (rn.info b)=prefer (m (rn.info a)) (m (rn.info b))) :
    Ordered (better bgp rn) (fun ri => pathKey bgp m (rn.info ri)) S where
  iff := by
    intro a b ha hb hne
    have hcmp : Comparable bgp m (rn.info a) (rn.info b) :=
      { newNormal := h.normal a (hS a ha)
        existNormal := h.normal b (hS b hb)
        newSort := h.sort_ne (hS a ha)
        existSort := h.sort_ne (hS b hb)
        med := hmed ha hb hne }
    exact infoCmp_iff hrid hcmp (h.address a (hS a ha) b (hS b hb) hne) _ _
  inj := by
    intro a b ha hb he
    by_contra hne
    exact h.address a (hS a ha) b (hS b hb) hne (suRemote_eq_of_pathKey_eq bgp he)

def medKey (bgp : Bgp) (info : BgpInfo) : ℕ := bgpMedValue bgp info.attr

/-- The MED of a path without hops. -/
def internalMedKey (bgp : Bgp) (info : BgpInfo) : ℕ :=
  if aspathCountHops info.attr.aspath=0 then bgpMedValue bgp info.attr else 0

theorem medCheck_of_medComparable (h : medComparable bgp new exist=true) :
    medCheck bgp new exist=prefer (medKey bgp new) (medKey bgp exist) := if_pos h

theorem medComparable_of_always (h : bgp.alwaysCompareMed=true) (new exist : BgpInfo) :
    medComparable bgp new exist=true := by
  rw [medComparable,h]
  rfl

theorem medComparable_of_cmpLeft (h : aspathCmpLeft new.attr.aspath exist.attr.aspath=true) :
    medComparable bgp new exist=true := by
  rw [medComparable,h,Bool.or_true,Bool.true_or,Bool.true_or]

theorem hopsKey_of_noConfed (hignore : bgp.aspathIgnore=false) {info : BgpInfo}
    (h : NoConfed info.attr.aspath) : hopsKey bgp info=aspathCountHops info.attr.aspath := by
  rw [hopsKey,hignore,if_neg Bool.false_ne_true,aspathCountConfeds_eq_zero h,add_zero,ite_self]

theorem medCheck_of_not_cmpLeft (halways : bgp.alwaysCompareMed=false)
    (hignore : bgp.aspathIgnore=false) {new exist : BgpInfo} (hnew : NoConfed new.attr.aspath)
    (hexist : NoConfed exist.attr.aspath)
    (hleft : aspathCmpLeft new.attr.aspath exist.attr.aspath=false)
    (hhops : hopsKey bgp new=hopsKey bgp exist) :
    medCheck bgp new exist=prefer (internalMedKey bgp new) (internalMedKey bgp exist) := by
  rw [hopsKey_of_noConfed hignore hnew,hopsKey_of_noConfed hignore hexist] at hhops
  have hmed : medComparable bgp new exist=internalAsRoute new exist := by
    rw [medComparable,halways,confedAsRoute,aspathCountConfeds_eq_zero hnew,hleft,
      aspathCmpLeftConfed_eq_false hnew]
    simp
  rw [medCheck,hmed,internalAsRoute,internalMedKey,internalMedKey,hhops]
  by_cases hz : aspathCountHops exist.attr.aspath=0
  · simp [hz]
  · simp [hz]

end

section

variable {bgp : Bgp} {rn rn' : BgpNode}

theorem mem_usable_of_mem_candidates {ri : ℕ} (h : ri∈candidates bgp rn) : ri∈usable rn := by
  rw [candidates] at h
  split at h
  · exact mem_of_mem_filter h
  · exact h

theorem bgpBestSelection_congr {key key' : ℕ→List ℤ} (hinv : NodeInv rn) (hinv' : NodeInv rn')
    (hord : Ordered (better bgp rn) key fun ri => ri∈candidates bgp rn)
    (hord' : Ordered (better bgp rn') key' fun ri => ri∈candidates bgp rn')
    (hbest : ∀ b, IsBest key (fun ri => ri∈candidates bgp rn) b →
      IsBest key' (fun ri => ri∈candidates bgp rn') b)
    (hnil : candidates bgp rn=[] → candidates bgp rn'=[]) :
    (bgpBestSelection bgp rn).new=(bgpBestSelection bgp rn').new := by
  rw [bgpBestSelection_new bgp hinv,bgpBestSelection_new bgp hinv']
  by_cases hne : candidates bgp rn=[]
  · rw [hnil hne,hne]
    rfl
  obtain ⟨b,hb⟩ := exists_isBest hord (fun _ h => h) hne
  rw [foldl_chooseOption_of_isBest hord (fun _ h => h) hb,
    foldl_chooseOption_of_isBest hord' (fun _ h => h) (hbest b hb)]

/-- The other node holds the same usable paths. -/
structure SamePaths (rn rn' : BgpNode) : Prop where
  perm : (usable rn).Perm (usable rn')
  info : ∀ ri∈usable rn, rn.info ri=rn'.info ri

theorem SamePaths.usablePaths (h : SamePaths rn rn') (hpaths : UsablePaths rn) :
    UsablePaths rn' where
  normal ri hri := by
    have hri' := h.perm.mem_iff.mpr hri
    rw [←h.info ri hri']
    exact hpaths.normal ri hri'
  sort ri hri := by
    have hri' := h.perm.mem_iff.mpr hri
    rw [←h.info ri hri']
    exact hpaths.sort ri hri'
  address ri hri rj hrj hne := by
    have hri' := h.perm.mem_iff.mpr hri
    have hrj' := h.perm.mem_iff.mpr hrj
    rw [←h.info ri hri',←h.info rj hrj']
    exact hpaths.address ri hri' rj hrj' hne

theorem SamePaths.isBest (h : SamePaths rn rn') (f : BgpInfo→List ℤ) {S S' : ℕ→Prop}
    (hS : ∀ ri, S' ri ↔ S ri) (hmem : ∀ ri, S ri → ri∈usable rn) {b : ℕ}
    (hb : IsBest (fun ri => f (rn.info ri)) S b) : IsBest (fun ri => f (rn'.info ri)) S' b := by
  refine ⟨(hS b).mpr hb.1,fun y hy => ?_⟩
  have hy' := (hS y).mp hy
  dsimp only
  rw [←h.info b (hmem b hb.1),←h.info y (hmem y hy')]
  exact hb.2 y hy'

/-! #### `always-compare-med` -/

theorem ordered_of_always (hpaths : UsablePaths rn) (hrid : bgp.compareRouterId=true)
    (halways : bgp.alwaysCompareMed=true) :
    Ordered (better bgp rn) (fun ri => pathKey bgp (medKey bgp) (rn.info ri))
      fun ri => ri∈usable rn :=
  ordered_pathKey hpaths hrid (fun _ h => h)
    fun _ _ _ _ => medCheck_of_medComparable (medComparable_of_always halways _ _)

section

variable {key : ℕ → List ℤ} (hord : Ordered (better bgp rn) key fun ri => ri∈usable rn)
include hord

theorem mem_candidates_of_isBest {b : ℕ}
    (hb : IsBest key (fun ri => ri∈usable rn) b) : b∈candidates bgp rn := by
  rw [candidates]
  split
  · exact mem_filter.mpr ⟨hb.1,decide_eq_true (best_mem_winners _ _ hord hb rfl)⟩
  · exact hb.1

theorem isBest_candidates_iff (b : ℕ) : IsBest key (fun ri => ri∈candidates bgp rn) b ↔
      IsBest key (fun ri => ri∈usable rn) b := by
  have hord' := hord.mono fun ri (h : ri∈candidates bgp rn) => mem_usable_of_mem_candidates h
  have hforward : ∀ b, IsBest key (fun ri => ri∈usable rn) b →
      IsBest key (fun ri => ri∈candidates bgp rn) b := fun b hb =>
    ⟨mem_candidates_of_isBest hord hb,fun y hy => hb.2 y (mem_usable_of_mem_candidates hy)⟩
  refine ⟨fun hb => ?_,hforward b⟩
  have hne := ne_nil_of_mem (mem_usable_of_mem_candidates hb.1)
  obtain ⟨b',hb'⟩ := exists_isBest hord (fun _ h => h) hne
  rw [hord'.unique hb (hforward b' hb')]
  exact hb'

end

theorem bgpBestSelection_always (hinv : NodeInv rn) (hinv' : NodeInv rn')
    (hsame : SamePaths rn rn') (hpaths : UsablePaths rn) (hrid : bgp.compareRouterId=true)
    (halways : bgp.alwaysCompareMed=true) :
    (bgpBestSelection bgp rn).new=(bgpBestSelection bgp rn').new := by
  have hord := ordered_of_always hpaths hrid halways
  have hord' := ordered_of_always (hsame.usablePaths hpaths) hrid halways
  refine bgpBestSelection_congr hinv hinv' (hord.mono fun _ h => mem_usable_of_mem_candidates h)
    (hord'.mono fun _ h => mem_usable_of_mem_candidates h) (fun b hb => ?_) fun hnil => ?_
  · rw [isBest_candidates_iff hord] at hb
    rw [isBest_candidates_iff hord']
    exact hsame.isBest _ (fun ri => hsame.perm.mem_iff.symm) (fun _ h => h) hb
  have huse : usable rn=[] := by
    by_contra hne
    obtain ⟨b,hb⟩ := exists_isBest hord (fun _ h => h) hne
    have hin := mem_candidates_of_isBest hord hb
    rw [hnil] at hin
    exact not_mem_nil hin
  have huse' := nil_perm.mp (huse ▸ hsame.perm)
  refine eq_nil_iff_forall_not_mem.mpr fun ri hri => ?_
  have hin := mem_usable_of_mem_candidates hri
  rw [huse'] at hin
  exact not_mem_nil hin

/-! #### `deterministic-med` -/

/-- No usable path has confederation segments. -/
def PlainPaths (rn : BgpNode) : Prop := ∀ ri∈usable rn, NoConfed (rn.info ri).attr.aspath

theorem SamePaths.plainPaths (h : SamePaths rn rn') (hplain : PlainPaths rn) : PlainPaths rn' := by
  intro ri hri
  have hri' := h.perm.mem_iff.mpr hri
  rw [←h.info ri hri']
  exact hplain ri hri'

theorem sameNeighbour_iff (hplain : PlainPaths rn) {a : ℕ} (ha : a∈usable rn) (b : ℕ) :
    sameNeighbour rn a b=true ↔ ∃ as, leftAs (rn.info a).attr.aspath=some as ∧
      leftAs (rn.info b).attr.aspath=some as := by
  rw [sameNeighbour,aspathCmpLeftConfed_eq_false (hplain a ha),Bool.or_false,aspathCmpLeft_iff]

theorem sameNeighbour_classes (hplain : PlainPaths rn) :
    Classes (sameNeighbour rn) fun ri => ri∈usable rn where
  symm := by
    intro a b ha hb h
    rw [sameNeighbour_iff hplain ha] at h
    rw [sameNeighbour_iff hplain hb]
    obtain ⟨as,hleft,hright⟩ := h
    exact ⟨as,hright,hleft⟩
  trans := by
    intro a b c ha hb hc hab hbc
    rw [sameNeighbour_iff hplain ha] at hab ⊢
    rw [sameNeighbour_iff hplain hb] at hbc
    obtain ⟨as,hleft,hmid⟩ := hab
    obtain ⟨as',hmid',hright⟩ := hbc
    rw [hmid] at hmid'
    cases hmid'
    exact ⟨as,hleft,hright⟩

theorem aspathCmpLeft_eq_sameNeighbour (hplain : PlainPaths rn) {a : ℕ} (ha : a∈usable rn) (b : ℕ) :
    aspathCmpLeft (rn.info a).attr.aspath (rn.info b).attr.aspath=sameNeighbour rn a b := by
  rw [sameNeighbour,aspathCmpLeftConfed_eq_false (hplain a ha),Bool.or_false]

theorem ordered_of_neighbour (hpaths : UsablePaths rn) (hrid : bgp.compareRouterId=true)
    (hplain : PlainPaths rn) {z : ℕ} (hz : z∈usable rn) :
    Ordered (better bgp rn) (fun ri => pathKey bgp (medKey bgp) (rn.info ri))
      fun ri => ri∈usable rn ∧ (ri=z ∨ sameNeighbour rn z ri=true) := by
  have hcls := sameNeighbour_classes hplain
  refine ordered_pathKey hpaths hrid (fun _ h => h.1) fun {a b} ha hb hne _ => ?_
  have hsame : sameNeighbour rn a b=true := by
    rcases ha.2 with rfl|haz
    · exact hb.2.resolve_left (Ne.symm hne)
    have hback := hcls.symm hz ha.1 haz
    rcases hb.2 with rfl|hbz
    · exact hback
    · exact hcls.trans ha.1 hz hb.1 hback hbz
  rw [←aspathCmpLeft_eq_sameNeighbour hplain ha.1] at hsame
  exact medCheck_of_medComparable (medComparable_of_cmpLeft hsame)

section

variable (hinv : NodeInv rn) (hpaths : UsablePaths rn) (hrid : bgp.compareRouterId=true)
include hinv hpaths hrid

theorem mem_candidates_iff (hdet : bgp.deterministicMed=true) (hplain : PlainPaths rn) (ri : ℕ) :
    ri∈candidates bgp rn ↔ ri∈usable rn ∧ ∀ y∈usable rn, sameNeighbour rn ri y=true →
      pathKey bgp (medKey bgp) (rn.info ri)≤pathKey bgp (medKey bgp) (rn.info y) := by
  have hwin := mem_winners_iff (usable rn) (fun _ => false) ri (hinv.nodup.filter _)
    (sameNeighbour_classes hplain)
    (fun z hz => ordered_of_neighbour hpaths hrid hplain hz) fun _ _ _ _ _ => rfl
  rw [candidates,if_pos hdet,mem_filter,decide_eq_true_iff,hwin]
  constructor
  · rintro ⟨hmem,-,-,hmin⟩
    exact ⟨hmem,hmin⟩
  · rintro ⟨hmem,hmin⟩
    exact ⟨hmem,hmem,rfl,hmin⟩

theorem not_sameNeighbour_of_candidates (hdet : bgp.deterministicMed=true)
    (hplain : PlainPaths rn) {a b : ℕ} (ha : a∈candidates bgp rn) (hb : b∈candidates bgp rn)
    (hne : a≠b) : sameNeighbour rn a b=false := by
  rw [mem_candidates_iff hinv hpaths hrid hdet hplain] at ha hb
  by_contra hsame
  have hab := Bool.eq_true_of_not_eq_false hsame
  have hba := (sameNeighbour_classes hplain).symm ha.1 hb.1 hab
  have hkey := le_antisymm (ha.2 b hb.1 hab) (hb.2 a ha.1 hba)
  exact hpaths.address a ha.1 b hb.1 hne (suRemote_eq_of_pathKey_eq bgp hkey)

theorem ordered_candidates (halways : bgp.alwaysCompareMed=false)
    (hdet : bgp.deterministicMed=true) (hignore : bgp.aspathIgnore=false)
    (hplain : PlainPaths rn) :
    Ordered (better bgp rn) (fun ri => pathKey bgp (internalMedKey bgp) (rn.info ri))
      fun ri => ri∈candidates bgp rn := by
  refine ordered_pathKey hpaths hrid (fun _ h => mem_usable_of_mem_candidates h)
    fun {a b} ha hb hne hhops => ?_
  have hleft := not_sameNeighbour_of_candidates hinv hpaths hrid hdet hplain ha hb hne
  have ha' := mem_usable_of_mem_candidates ha
  have hb' := mem_usable_of_mem_candidates hb
  rw [←aspathCmpLeft_eq_sameNeighbour hplain ha'] at hleft
  exact medCheck_of_not_cmpLeft halways hignore (hplain a ha') (hplain b hb') hleft hhops

end

section

variable (hinv : NodeInv rn) (hinv' : NodeInv rn') (hsame : SamePaths rn rn')
  (hpaths : UsablePaths rn) (hrid : bgp.compareRouterId=true)
include hinv hinv' hsame hpaths hrid

theorem SamePaths.mem_candidates
    (hdet : bgp.deterministicMed=true) (hplain : PlainPaths rn) (ri : ℕ) :
    ri∈candidates bgp rn' ↔ ri∈candidates bgp rn := by
  rw [mem_candidates_iff hinv' (hsame.usablePaths hpaths) hrid hdet (hsame.plainPaths hplain),
    mem_candidates_iff hinv hpaths hrid hdet hplain,←hsame.perm.mem_iff]
  refine and_congr_right fun hri => forall_congr' fun y => ?_
  rw [←hsame.perm.mem_iff]
  refine forall_congr' fun hy => ?_
  rw [sameNeighbour,sameNeighbour,hsame.info ri hri,hsame.info y hy]

theorem bgpBestSelection_deterministic
    (halways : bgp.alwaysCompareMed=false) (hdet : bgp.deterministicMed=true)
    (hignore : bgp.aspathIgnore=false) (hplain : PlainPaths rn) :
    (bgpBestSelection bgp rn).new=(bgpBestSelection bgp rn').new := by
  have hmem := hsame.mem_candidates hinv hinv' hpaths hrid hdet hplain
  refine bgpBestSelection_congr hinv hinv'
    (ordered_candidates hinv hpaths hrid halways hdet hignore hplain)
    (ordered_candidates hinv' (hsame.usablePaths hpaths) hrid halways hdet hignore
      (hsame.plainPaths hplain)) (fun b hb => ?_) fun hnil => ?_
  · exact hsame.isBest _ hmem (fun _ h => mem_usable_of_mem_candidates h) hb
  refine eq_nil_iff_forall_not_mem.mpr fun ri hri => ?_
  have hin := (hmem ri).mp hri
  rw [hnil] at hin
  exact not_mem_nil hin

end

end

/-- The settings under which the comparison of MEDs does not depend on the
order. -/
def MedOrdered (bgp : Bgp) (rn : BgpNode) : Prop :=
  bgp.alwaysCompareMed=true ∨ (bgp.deterministicMed=true ∧ bgp.aspathIgnore=false ∧ PlainPaths rn)

/-- Two nodes with the same usable paths, reached in any way, select the same
path. -/
theorem bgpBestSelection_orderIndependent {bgp : Bgp} {info info' : ℕ→BgpInfo}
    {ops ops' : List NodeOp} {rn rn' : BgpNode}
    (hlegal : LegalRun nodeStep NodeLegal (emptyNode info) ops)
    (hrun : run nodeStep (emptyNode info) ops=some rn)
    (hlegal' : LegalRun nodeStep NodeLegal (emptyNode info') ops')
    (hrun' : run nodeStep (emptyNode info') ops'=some rn')
    (hsame : SamePaths rn rn') (hpaths : UsablePaths rn) (hrid : bgp.compareRouterId=true)
    (hmed : MedOrdered bgp rn) :
    (bgpBestSelection bgp rn).new=(bgpBestSelection bgp rn').new := by
  have hinv := nodeRun_nodeInv hlegal hrun
  have hinv' := nodeRun_nodeInv hlegal' hrun'
  by_cases halways : bgp.alwaysCompareMed=true
  · exact bgpBestSelection_always hinv hinv' hsame hpaths hrid halways
  obtain ⟨hdet,hignore,hplain⟩ := hmed.resolve_left halways
  exact bgpBestSelection_deterministic hinv hinv' hsame hpaths hrid
    (Bool.eq_false_of_not_eq_true halways) hdet hignore hplain

def samplePath (neighbour : AsT) (med metric addr : ℕ) : BgpInfo where
  attr :=
    { aspath := [assegmentNew .asSequence [neighbour,65000]]
      origin := 0
      localPref := none
      med := some med
      weight := none
      originatorId := none
      clusterLength := none }
  peer := { sort := .ebgp,as := neighbour,remoteId := addr,suRemote := .inet addr }
  subType := .normal
  igpmetric := some metric

/-- A configuration with `deterministic-med` and `compare-routerid`. -/
def sampleBgp : Bgp where
  defaultLocalPref := 100
  alwaysCompareMed := false
  deterministicMed := true
  medMissingAsWorst := false
  medConfed := false
  compareRouterId := true
  aspathIgnore := false
  aspathConfed := false
  aspathMultipathRelax := false

def validFlags (selected : Bool) : InfoFlags := {InfoFlags.zero with valid := true,selected}

/-- Three paths, each better than another one when only two are compared. -/
def sampleArrival (order : List ℕ) (selected : ℕ) : List NodeOp :=
  let path : ℕ→BgpInfo := fun ri =>
    if ri=1 then samplePath 100 10 5 1
    else if ri=2 then samplePath 100 20 1 2
    else samplePath 200 0 3 3
  order.flatMap (fun ri =>
    [.add ri (path ri),.update ri (path ri) (validFlags (ri=selected))]) ++
    [.select sampleBgp]

def sampleStart : BgpNode := emptyNode fun _ => samplePath 0 0 0 0

/-- The node after the paths have arrived. -/
def sampleNode (order : List ℕ) (selected : ℕ) : BgpNode :=
  (run nodeStep sampleStart (sampleArrival order selected)).getD sampleStart

theorem bgpBestSelection_orderIndependent_sampleNode :
    (bgpBestSelection sampleBgp (sampleNode [1,2,3] 1)).new =
      (bgpBestSelection sampleBgp (sampleNode [3,1,2] 2)).new := by
  have hlegal : LegalRun nodeStep NodeLegal sampleStart (sampleArrival [1,2,3] 1) := by decide
  have hlegal' : LegalRun nodeStep NodeLegal sampleStart (sampleArrival [3,1,2] 2) := by decide
  have hplain : PlainPaths (sampleNode [1,2,3] 1) := by
    unfold PlainPaths NoConfed
    decide
  exact bgpBestSelection_orderIndependent hlegal rfl hlegal' rfl ⟨by decide,by decide⟩
    ⟨by decide,by decide,by decide⟩ rfl (.inr ⟨rfl,rfl,hplain⟩)

/-- With `always-compare-med` a path stays selected when other paths go. -/
theorem bgpBestSelection_withdraw {bgp : Bgp} {info : ℕ→BgpInfo} {ops : List NodeOp} {rn : BgpNode}
    {best : ℕ} {l : List ℕ} (hlegal : LegalRun nodeStep NodeLegal (emptyNode info) ops)
    (hrun : run nodeStep (emptyNode info) ops=some rn) (hpaths : UsablePaths rn)
    (hrid : bgp.compareRouterId=true) (halways : bgp.alwaysCompareMed=true)
    (hbest : (bgpBestSelection bgp rn).new=some best) (hl : l <+ rn.infoList) (hmem : best∈l) :
    (bgpBestSelection bgp {rn with infoList := l}).new=some best := by
  have hinv := nodeRun_nodeInv hlegal hrun
  have hinv' : NodeInv {rn with infoList := l} := ⟨hl.nodup hinv.nodup,hinv.clear⟩
  have hsub : ∀ ri∈usable {rn with infoList := l}, ri∈usable rn := fun _ h => (hl.filter _).subset h
  have hpaths' : UsablePaths {rn with infoList := l} :=
    { normal ri hri := hpaths.normal ri (hsub ri hri)
      sort ri hri := hpaths.sort ri (hsub ri hri)
      address ri hri rj hrj := hpaths.address ri (hsub ri hri) rj (hsub rj hrj) }
  have hord := ordered_of_always hpaths hrid halways
  have hord' := ordered_of_always hpaths' hrid halways
  have hcand := hord.mono fun ri (h : ri∈candidates bgp rn) => mem_usable_of_mem_candidates h
  rw [←hbest]
  rw [bgpBestSelection_new bgp hinv] at hbest
  refine (bgpBestSelection_congr hinv hinv' hcand
    (hord'.mono fun _ h => mem_usable_of_mem_candidates h) (fun b hb => ?_) fun hnil => ?_).symm
  · rw [foldl_chooseOption_of_isBest hcand (fun _ h => h) hb] at hbest
    obtain rfl := Option.some.inj hbest
    rw [isBest_candidates_iff hord] at hb
    rw [isBest_candidates_iff hord']
    exact ⟨mem_filter.mpr ⟨hmem,(mem_filter.mp hb.1).2⟩,fun y hy => hb.2 y (hsub y hy)⟩
  · rw [hnil] at hbest
    cases hbest

theorem bgpBestSelection_withdraw_sampleNode :
    (bgpBestSelection {sampleBgp with alwaysCompareMed := true}
      {sampleNode [1,2,3] 1 with infoList := [3,1]}).new=some 3 := by
  have hlegal : LegalRun nodeStep NodeLegal sampleStart (sampleArrival [1,2,3] 1) := by decide
  exact bgpBestSelection_withdraw hlegal rfl ⟨by decide,by decide,by decide⟩ rfl rfl (by decide)
    (by decide) (by decide)

end RoutePlatform.BestPathOrder
