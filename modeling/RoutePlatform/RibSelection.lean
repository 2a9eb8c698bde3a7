import RoutePlatform.RibLocks

/-!
# Route selection of zebra

Behind `rib_process` the selected entry is the preferred usable one, and no other entry has next
hops in the FIB. What breaks this is `rib_uninstall_kernel` on other tables than the unicast one,
`SELECTED` in flags of callers, a delete that leaves next hops in the FIB, and answers that change
during one `rib_process`.
-/

namespace RoutePlatform.RibSelection

open RibEntries RibOperations RibProcessing RibFrames RibQueue RibLocks RibChanges OperationRuns
  List Option

variable {rib : Rib} {rn : RouteNode} {f : Rib→Rib} {rib' : Rib} {select : Option Rib} {a b c : Rib}

/-- The first entry is preferred: connected, then distance, metric and age. -/
def Preferred (a b : Rib) : Prop :=
  if a.type=.connect then
    b.type ≠ .connect ∨ a.metric.toNat<b.metric.toNat ∨
      a.metric.toNat=b.metric.toNat ∧ a.addr<b.addr
  else b.type ≠ .connect ∧ (a.distance.toNat<b.distance.toNat ∨
      a.distance.toNat=b.distance.toNat ∧ (a.metric.toNat<b.metric.toNat ∨
        a.metric.toNat=b.metric.toNat ∧ a.addr<b.addr))

/-- The entry that is to be selected. -/
def Chosen (env : Environment) (routes : List Rib) (rib : Rib) : Prop :=
  usable env rib=true ∧ ∀ other∈routes, usable env other=true → other=rib ∨ Preferred rib other

section

variable {env : Environment} {routes : List Rib}

theorem Preferred.trans (hab : Preferred a b) (hbc : Preferred b c) : Preferred a c := by
  unfold Preferred at *
  by_cases ha : a.type=.connect
  · rw [if_pos ha] at hab ⊢
    by_cases hb : b.type=.connect
    · rw [if_pos hb] at hbc
      by_cases hc : c.type=.connect
      · have hab' := hab.resolve_left (not_not_intro hb)
        have hbc' := hbc.resolve_left (not_not_intro hc)
        right
        omega
      · exact .inl hc
    rw [if_neg hb] at hbc
    exact .inl hbc.1
  · rw [if_neg ha] at hab ⊢
    rw [if_neg hab.1] at hbc
    refine ⟨hbc.1,?_⟩
    omega

theorem preferred_congr {a a' b b' : Rib} (ha : ribData a=ribData a')
    (hb : ribData b=ribData b') : Preferred a b ↔ Preferred a' b' := by
  have hdata : ∀ {x y : Rib}, ribData x=ribData y →
      x.type=y.type ∧ x.metric=y.metric ∧ x.distance=y.distance ∧ x.addr=y.addr := by
    intro x y h
    have hty := congrArg Rib.type h
    have hmet := congrArg Rib.metric h
    have hdist := congrArg Rib.distance h
    exact ⟨hty,hmet,hdist,addr_of_ribData h⟩
  obtain ⟨ha1,ha2,ha3,ha4⟩ := hdata ha
  obtain ⟨hb1,hb2,hb3,hb4⟩ := hdata hb
  unfold Preferred
  rw [ha1,ha2,ha3,ha4,hb1,hb2,hb3,hb4]

/-- The newer entry stays only if it is preferred. -/
theorem better_spec {select : Rib} (hold : rib.addr<select.addr) :
    better (some select) rib=rib ∧ Preferred rib select ∨
      better (some select) rib=select ∧ Preferred select rib := by
  have hle : ∀ {n : ℕ} {a b : BitVec n}, a≤b ↔ a.toNat≤b.toNat := BitVec.le_def
  have hlt : ∀ {n : ℕ} {a b : BitVec n}, a<b ↔ a.toNat<b.toNat := BitVec.lt_def
  unfold better Preferred
  dsimp only
  by_cases hr : rib.type=.connect
  · rw [if_pos hr,if_pos hr]
    by_cases hs : select.type=.connect
    · rw [if_pos hs]
      by_cases hm : rib.metric ≤ select.metric
      · rw [if_pos (by rw [decide_eq_true hm,Bool.or_true])]
        rw [hle] at hm
        refine .inl ⟨rfl,.inr ?_⟩
        omega
      rw [if_neg (by
        rw [decide_eq_false hm,decide_eq_false (not_not_intro hs)]
        exact Bool.false_ne_true)]
      rw [hle] at hm
      refine .inr ⟨rfl,.inr ?_⟩
      omega
    · rw [if_pos (by rw [decide_eq_true hs,Bool.true_or])]
      exact .inl ⟨rfl,.inl hs⟩
  · rw [if_neg hr,if_neg hr]
    by_cases hs : select.type=.connect
    · rw [if_pos hs,if_pos hs]
      exact .inr ⟨rfl,.inl hr⟩
    rw [if_neg hs,if_neg hs]
    by_cases hgt : rib.distance > select.distance
    · rw [if_pos hgt]
      have hgt' := hlt.mp hgt
      refine .inr ⟨rfl,hr,?_⟩
      omega
    rw [if_neg hgt]
    by_cases hless : rib.distance<select.distance
    · rw [if_pos hless]
      rw [hlt] at hless
      exact .inl ⟨rfl,hs,.inl hless⟩
    rw [if_neg hless]
    have hgt' : ¬select.distance.toNat<rib.distance.toNat := fun h => hgt (hlt.mpr h)
    rw [hlt] at hless
    by_cases hm : rib.metric ≤ select.metric
    · rw [if_pos hm]
      rw [hle] at hm
      refine .inl ⟨rfl,hs,?_⟩
      omega
    rw [if_neg hm]
    rw [hle] at hm
    refine .inr ⟨rfl,hr,?_⟩
    omega

theorem ribData_update (env : Environment) (rib : Rib) :
    ribData (nexthopActiveUpdate env false rib)=ribData rib :=
  ribData_nexthopActiveUpdate env rib false

/-- The loop keeps the preferred usable entry. The induction is on the younger entries left. -/
theorem winner_preferred (routes : List Rib) : ∀ old : Rib,
    (∀ rib∈routes, rib.addr<old.addr) → Numbered routes →
      ∃ rib, (rib=old ∨ rib∈routes ∧ usable env rib=true) ∧
        winner env (some (nexthopActiveUpdate env false old)) routes =
          some (nexthopActiveUpdate env false rib) ∧
        (old=rib ∨ Preferred rib old) ∧
        ∀ other∈routes, usable env other=true → other=rib ∨ Preferred rib other := by
  induction routes with
  | nil => exact fun old _ _ => ⟨old,.inl rfl,rfl,.inl rfl,fun _ hmem => absurd hmem not_mem_nil⟩
  | cons next rest ih =>
    intro old holder hnum
    obtain ⟨hnext,hrs⟩ := pairwise_cons.mp hnum
    have hold : ∀ rib∈rest, rib.addr<old.addr := fun rib hmem => holder rib (.tail _ hmem)
    rw [winner_cons]
    cases huse : usable env next with
    | false =>
      rw [if_neg Bool.false_ne_true]
      obtain ⟨rib,hfrom,hw,hpref,hall⟩ := ih old hold hrs
      refine ⟨rib,hfrom.imp_right fun h => ⟨.tail _ h.1,h.2⟩,hw,hpref,fun other hmem hoth => ?_⟩
      rcases mem_cons.mp hmem with heq|hmem'
      · rw [heq,huse] at hoth
        exact nomatch hoth
      · exact hall other hmem' hoth
    | true =>
      rw [if_pos rfl]
      have holder' : (nexthopActiveUpdate env false next).addr <
          (nexthopActiveUpdate env false old).addr := holder next mem_cons_self
      rcases better_spec holder' with ⟨hbetter,hnew⟩|⟨hbetter,hstays⟩
      · rw [hbetter]
        rw [preferred_congr (ribData_update env next) (ribData_update env old)] at hnew
        obtain ⟨rib,hfrom,hw,hpref,hall⟩ := ih next hnext hrs
        refine ⟨rib,.inr ?_,hw,.inr ?_,fun other hmem hoth => ?_⟩
        · rcases hfrom with heq|⟨hmem,hrib⟩
          · rw [heq]
            exact ⟨.head _,huse⟩
          · exact ⟨.tail _ hmem,hrib⟩
        · rcases hpref with heq|hpref
          · rw [←heq]
            exact hnew
          · exact hpref.trans hnew
        rcases mem_cons.mp hmem with heq|hmem'
        · rw [heq]
          exact hpref
        · exact hall other hmem' hoth
      · rw [hbetter]
        rw [preferred_congr (ribData_update env old) (ribData_update env next)] at hstays
        obtain ⟨rib,hfrom,hw,hpref,hall⟩ := ih old hold hrs
        refine ⟨rib,hfrom.imp_right fun h => ⟨.tail _ h.1,h.2⟩,hw,hpref,
          fun other hmem hoth => ?_⟩
        rcases mem_cons.mp hmem with heq|hmem'
        · rw [heq]
          rcases hpref with hsame|hpref
          · rw [←hsame]
            exact .inr hstays
          · exact .inr (hpref.trans hstays)
        · exact hall other hmem' hoth

/-- The winner of the loop is the entry to be selected. -/
theorem winner_eq_some (hnum : Numbered routes) {w : Rib} (h : winner env none routes=some w) :
    ∃ rib∈routes, Chosen env routes rib ∧ w=nexthopActiveUpdate env false rib := by
  induction routes with
  | nil => exact nomatch h
  | cons next rest ih =>
    obtain ⟨hnext,hrs⟩ := pairwise_cons.mp hnum
    rw [winner_cons] at h
    cases huse : usable env next with
    | false =>
      rw [huse,if_neg Bool.false_ne_true] at h
      obtain ⟨rib,hmem,⟨hrib,hall⟩,hw⟩ := ih hrs h
      refine ⟨rib,.tail _ hmem,⟨hrib,fun other hmem' hoth => ?_⟩,hw⟩
      rcases mem_cons.mp hmem' with heq|hmem'
      · rw [heq,huse] at hoth
        exact nomatch hoth
      · exact hall other hmem' hoth
    | true =>
      rw [huse,if_pos rfl] at h
      obtain ⟨rib,hfrom,hw,hpref,hall⟩ := winner_preferred rest next hnext hrs
      have hfst : better none (nexthopActiveUpdate env false next) =
          nexthopActiveUpdate env false next := rfl
      rw [hfst,hw,some.injEq] at h
      refine ⟨rib,?_,⟨?_,fun other hmem' hoth => ?_⟩,h.symm⟩
      · rcases hfrom with heq|⟨hmem,-⟩
        · rw [heq]
          exact .head _
        · exact .tail _ hmem
      · rcases hfrom with heq|⟨-,hrib⟩
        · rw [heq]
          exact huse
        · exact hrib
      rcases mem_cons.mp hmem' with heq|hmem'
      · rw [heq]
        exact hpref
      · exact hall other hmem' hoth

theorem winner_eq_none (h : winner env none routes=none) : ∀ rib∈routes, usable env rib=false := by
  induction routes with
  | nil => exact fun rib hmem => absurd hmem not_mem_nil
  | cons next rest ih =>
    rw [winner_cons] at h
    cases huse : usable env next with
    | false =>
      rw [huse,if_neg Bool.false_ne_true] at h
      intro rib hmem
      rcases mem_cons.mp hmem with heq|hmem
      · rw [heq]
        exact huse
      · exact ih h rib hmem
    | true =>
      rw [huse,if_pos rfl] at h
      have hsome : ∀ (l : List Rib) (select : Rib), (winner env (some select) l).isSome=true := by
        intro l
        induction l with
        | nil => exact fun _ => rfl
        | cons a l ihl =>
          intro select
          rw [winner_cons]
          split <;> exact ihl _
      have hno := hsome rest (better none (nexthopActiveUpdate env false next))
      rw [h] at hno
      exact nomatch hno

theorem Chosen.unique {a b : Rib} (ha : Chosen env routes a) (hb : Chosen env routes b)
    (hamem : a∈routes) (hbmem : b∈routes) : a=b := by
  rcases ha.2 b hbmem hb.1 with heq|hab
  · exact heq.symm
  rcases hb.2 a hamem ha.1 with heq|hba
  · exact heq
  have hself := hab.trans hba
  unfold Preferred at hself
  split at hself
  · rename_i hty
    have hlt := hself.resolve_left (not_not_intro hty)
    omega
  · omega

theorem pointsTo_winner (hnum : Numbered routes) (hmem : rib∈routes) :
    pointsTo (winner env none routes) rib=true ↔ Chosen env routes rib := by
  cases hw : winner env none routes with
  | none =>
    refine iff_of_false Bool.false_ne_true fun hchosen => ?_
    have hno := winner_eq_none hw rib hmem
    rw [hchosen.1] at hno
    exact nomatch hno
  | some w =>
    obtain ⟨best,hbest,hchosen,hsame⟩ := winner_eq_some hnum hw
    have haddr : w.addr=best.addr := by
      rw [hsame]
      rfl
    rw [pointsTo_some,decide_eq_true_eq,haddr]
    constructor
    · intro h
      rw [←hnum.eq_of_addr hbest hmem h]
      exact hchosen
    · intro h
      rw [hchosen.unique h hbest hmem]

end

/-- What the checks answer for an entry. -/
def answers (env : Environment) (set : Bool) (rib : Rib) : List Bool :=
  (List.range rib.nexthops.length).map fun i => (env.activeCheck set rib.addr i).active

/-- An entry that may be selected: live, active, and at no infinite distance. -/
def Usable (env : Environment) (rib : Rib) : Prop :=
  rib.removed=false ∧ true∈answers env false rib ∧ rib.distance≠distanceInfinity

/-- The number of active next hops fits its byte, or at least does not wrap to
zero. -/
def CountFits (env : Environment) (rib : Rib) : Prop :=
  (answers env false rib).count true%256=0 → (answers env false rib).count true=0

/-- The checks agree on which next hops are active when they set the real next
hops. -/
def Agrees (env : Environment) : Prop :=
  ∀ addr i, (env.activeCheck true addr i).active=(env.activeCheck false addr i).active

section

variable {env : Environment} {rib : Rib}

theorem answers_congr (h : ribData rib=ribData rib') (set : Bool) :
    answers env set rib=answers env set rib' := by
  have hlen : (ribData rib).nexthops.length=(ribData rib').nexthops.length := by rw [h]
  unfold ribData at hlen
  rw [length_map,length_map] at hlen
  unfold answers
  rw [hlen,addr_of_ribData h]

theorem active_nexthopActiveUpdate (env : Environment) (set : Bool) (rib : Rib) :
    (nexthopActiveUpdate env set rib).nexthops.map Nexthop.active=answers env set rib := by
  unfold nexthopActiveUpdate answers
  refine ext_getElem ?_ fun i h1 h2 => ?_
  · rw [length_map,length_map,length_mapIdx,length_range]
  rw [getElem_map,getElem_map,getElem_mapIdx,getElem_range]
  rfl

theorem usable_iff (hfits : CountFits env rib) : usable env rib=true ↔ Usable env rib := by
  have hcnt : (nexthopActiveUpdate env false rib).nexthopActiveNum =
      BitVec.ofNat 8 ((answers env false rib).count true) := by
    have hbyte : (nexthopActiveUpdate env false rib).nexthopActiveNum=BitVec.ofNat 8
        ((nexthopActiveUpdate env false rib).nexthops.countP Nexthop.active) := rfl
    rw [hbyte,←active_nexthopActiveUpdate,count_eq_countP,countP_map]
    refine congrArg _ (countP_congr fun hop _ => ?_)
    rw [Function.comp_apply,beq_true]
  have hz : (nexthopActiveUpdate env false rib).nexthopActiveNum≠0 ↔
      true∈answers env false rib := by
    rw [hcnt,←count_pos_iff,pos_iff_ne_zero]
    refine not_congr ?_
    rw [←BitVec.toNat_inj,BitVec.toNat_ofNat]
    exact ⟨hfits,fun h => by rw [h]; rfl⟩
  unfold usable Usable
  rw [Bool.and_eq_true,Bool.and_eq_true,Bool.not_eq_true',decide_eq_true_eq,decide_eq_true_eq,
    hz,and_assoc]

theorem distance_of_usable (h : usable env rib=true) : rib.distance≠distanceInfinity := by
  unfold usable at h
  rw [Bool.and_eq_true,decide_eq_true_eq] at h
  exact h.2

end

section

variable {safi : Safi} {env : Environment} {rib : Rib}

/-- A change that keeps which next hops are active, and the selection. -/
def SameActive (rib' rib : Rib) : Prop :=
  rib'.nexthops.map Nexthop.active=rib.nexthops.map Nexthop.active ∧
    rib'.flags.selected=rib.flags.selected

theorem SameActive.refl (rib : Rib) : SameActive rib rib := ⟨rfl,rfl⟩

theorem SameActive.trans (hab : SameActive a b) (hbc : SameActive b c) : SameActive a c :=
  ⟨hab.1.trans hbc.1,hab.2.trans hbc.2⟩

theorem sameActive_setFib (b : Bool) (rib : Rib) : SameActive (rib.setFib b) rib := by
  refine ⟨?_,rfl⟩
  unfold Rib.setFib
  rw [List.map_map]
  rfl

theorem sameActive_kernelMark (result : KernelResult) (rib : Rib) :
    SameActive (kernelMark result rib) rib := by
  refine ⟨?_,rfl⟩
  refine map_mapIdx_of ?_ _
  exact fun _ _ => rfl

theorem sameActive_ribInstallKernel (safi : Safi) (env : Environment) (rib : Rib) :
    SameActive (ribInstallKernel safi env rib) rib := by
  unfold ribInstallKernel
  dsimp only
  split
  · exact sameActive_setFib true rib
  split
  · exact (sameActive_setFib false _).trans (sameActive_kernelMark _ rib)
  · exact sameActive_kernelMark _ rib

theorem sameActive_uninstallRib (safi : Safi) (rib : Rib) :
    SameActive (uninstallRib safi rib) rib := by
  unfold uninstallRib ribUninstallKernel
  split_ifs
  · exact .refl rib
  · exact sameActive_setFib true rib
  · exact sameActive_setFib false rib

theorem sameActive_installRib (safi : Safi) (env : Environment) (rib : Rib) :
    SameActive (installRib safi env rib) (nexthopActiveUpdate env true rib) := by
  unfold installRib
  dsimp only
  split
  · exact .refl _
  · exact sameActive_ribInstallKernel safi env _

theorem selected_processedRib (safi : Safi) (env : Environment) (select : Option Rib) (rib : Rib) :
    (processedRib safi env select rib).flags.selected=pointsTo select rib := by
  have hins : ∀ rib : Rib, (installRib safi env rib).flags.selected=rib.flags.selected :=
    fun rib => (sameActive_installRib safi env rib).2
  unfold processedRib
  cases hp : pointsTo select rib with
  | true =>
    rw [if_pos rfl]
    split
    · rename_i hs
      unfold updatedRib
      split_ifs
      · rw [hins,(sameActive_uninstallRib safi _).2]
        exact hs
      · rw [(sameActive_ribInstallKernel safi env _).2]
        exact hs
      · exact hs
    · rfl
  | false =>
    rw [if_neg Bool.false_ne_true]
    split
    · rfl
    rename_i hs
    exact (Bool.not_eq_true _).mp hs

theorem active_processedRib (safi : Safi) (env : Environment) (select : Option Rib) (rib : Rib) :
    ∃ set, (processedRib safi env select rib).nexthops.map Nexthop.active =
      answers env set rib := by
  have hins : ∀ rib' : Rib, ribData rib'=ribData rib →
      (installRib safi env rib').nexthops.map Nexthop.active=answers env true rib := by
    intro rib' hdata
    rw [(sameActive_installRib safi env rib').1,active_nexthopActiveUpdate,answers_congr hdata]
  have hupdate := ribData_nexthopActiveUpdate env rib false
  unfold processedRib
  dsimp only
  split_ifs
  · unfold updatedRib
    split_ifs
    · exact ⟨true,hins _ ((ribData_uninstallRib safi _).trans hupdate)⟩
    · refine ⟨false,?_⟩
      rw [(sameActive_ribInstallKernel safi env _).1,active_nexthopActiveUpdate]
    · exact ⟨false,active_nexthopActiveUpdate env false rib⟩
  · exact ⟨true,hins _ hupdate⟩
  · refine ⟨true,?_⟩
    unfold withdrawnRib
    have hdata : ribData ((uninstallRib safi (nexthopActiveUpdate env false rib)).setSelected
        false)=ribData rib := by
      rw [ribData_setSelected,ribData_uninstallRib,hupdate]
    rw [active_nexthopActiveUpdate,answers_congr hdata]
  · exact ⟨false,active_nexthopActiveUpdate env false rib⟩

theorem anyFib_eq_false : rib.anyFib=false ↔ ∀ hop∈rib.nexthops, hop.anyFib=false := by
  unfold Rib.anyFib
  rw [List.any_eq_false]
  exact forall₂_congr fun hop _ => (Bool.not_eq_true hop.anyFib).to_iff

theorem anyFib_nexthopActiveUpdate (env : Environment) (set : Bool) (h : rib.anyFib=false) :
    (nexthopActiveUpdate env set rib).anyFib=false := by
  rw [anyFib_eq_false] at h ⊢
  intro hop hmem
  obtain ⟨i,hi,hold⟩ := mem_mapIdx.mp hmem
  have hbef := h _ (getElem_mem hi)
  rw [←hold]
  unfold Nexthop.anyFib at hbef ⊢
  rw [Bool.or_eq_false_iff] at hbef ⊢
  refine ⟨hbef.1,?_⟩
  unfold nexthopActiveCheck
  dsimp only
  split
  · rw [List.any_map,List.any_eq_false]
    exact fun h _ => Bool.false_ne_true
  · exact hbef.2

theorem anyFib_setFib (rib : Rib) : (rib.setFib false).anyFib=false := by
  rw [anyFib_eq_false]
  intro hop hmem
  obtain ⟨old,-,hold⟩ := mem_map.mp hmem
  rw [←hold]
  unfold Nexthop.anyFib Nexthop.setFib
  rw [Bool.false_or,List.any_map,List.any_eq_false]
  exact fun h _ => Bool.false_ne_true

/-- An entry that is not the winner is not in the FIB behind `rib_process` of
the unicast table. -/
theorem anyFib_processedRib (hpoints : pointsTo select rib=false) (hsystem : rib.system=false)
    (hclear : rib.flags.selected=false → rib.anyFib=false)
    (hsafi : rib.flags.selected=true → safi=.unicast ∨ rib.nexthops=[]) :
    (processedRib safi env select rib).anyFib=false := by
  unfold processedRib
  rw [hpoints,if_neg Bool.false_ne_true]
  cases hs : rib.flags.selected with
  | false =>
    rw [if_neg Bool.false_ne_true]
    exact anyFib_nexthopActiveUpdate env false (hclear hs)
  | true =>
    rw [if_pos rfl]
    refine anyFib_nexthopActiveUpdate env true ?_
    have huninstall : uninstallRib safi (nexthopActiveUpdate env false rib) =
        ribUninstallKernel safi (nexthopActiveUpdate env false rib) := by
      refine if_neg ?_
      rw [Bool.not_eq_true]
      exact hsystem
    have hout : (uninstallRib safi (nexthopActiveUpdate env false rib)).anyFib=false := by
      rw [huninstall]
      unfold ribUninstallKernel
      rcases hsafi hs with hunicast|hnil
      · rw [if_neg (not_not_intro hunicast)]
        exact anyFib_setFib _
      have hnone : (nexthopActiveUpdate env false rib).nexthops=[] := by
        unfold nexthopActiveUpdate
        rw [hnil,mapIdx_nil]
      split
      · unfold Rib.anyFib Rib.setFib
        rw [hnone]
        rfl
      · exact anyFib_setFib _
    exact hout

end

/-- One entry is selected at most, and the next hops of others are not in the FIB. -/
structure RoutesOk (routes : List Rib) : Prop where
  once : SelectedOnce none routes
  /-- Others are not in the FIB, as far as zebra decides that. -/
  clear : ∀ rib∈routes, rib.system=false → rib.flags.selected=false → rib.anyFib=false

/-- What holds of the entries of a node right behind `rib_process`. -/
structure BestSelected (env : Environment) (routes : List Rib) : Prop where
  /-- The selected entry is the best one that is usable. -/
  best : ∀ rib∈routes, rib.flags.selected=true → Usable env rib ∧
    ∀ other∈routes, Usable env other → other=rib ∨ Preferred rib other
  exists_iff : (∃ rib∈routes, rib.flags.selected=true) ↔ ∃ rib∈routes, Usable env rib
  /-- The marks of activity say what the checks have answered. -/
  active : Agrees env → ∀ rib∈routes,
    ((∃ hop∈rib.nexthops, hop.active=true) ↔ true∈answers env false rib)

/-- The counts fit, and a multicast table does not replace its selected entry. -/
structure ProcessOk (env : Environment) (safi : Safi) (routes : List Rib) : Prop where
  counts : ∀ rib∈routes, rib.removed=false → rib.distance≠distanceInfinity → CountFits env rib
  stays : safi=.multicast → ∀ rib∈routes, rib.flags.selected=true → rib.removed=false →
    rib.system=false → rib.nexthops≠[] → Chosen env routes rib

section

variable {safi : Safi} {env : Environment} {routes : List Rib}

theorem selectedOnce_iff (hnum : Numbered routes) : SelectedOnce none routes ↔
    ∀ a∈routes, ∀ b∈routes, a.flags.selected=true → b.flags.selected=true → a=b := by
  constructor
  · exact fun h a ha b hb hsa hsb => eq_of_selectedOnce h ha hb hsa hsb
  · intro h
    unfold SelectedOnce
    rw [toList_none,length_nil,zero_add,countP_eq_length_filter]
    have hpair : (routes.filter fun rib => rib.flags.selected).Pairwise fun a b =>
        b.addr<a.addr := hnum.sublist filter_sublist
    cases hl : routes.filter fun rib => rib.flags.selected with
    | nil => exact Nat.zero_le _
    | cons a rest =>
      cases rest with
      | nil => exact le_refl _
      | cons b rest =>
        rw [hl] at hpair
        have ha : a∈routes.filter fun rib => rib.flags.selected := by
          rw [hl]
          exact .head _
        have hb : b∈routes.filter fun rib => rib.flags.selected := by
          rw [hl]
          exact .tail _ mem_cons_self
        obtain ⟨ha,hsa⟩ := mem_filter.mp ha
        obtain ⟨hb,hsb⟩ := mem_filter.mp hb
        have hlt := (pairwise_cons.mp hpair).1 b mem_cons_self
        rw [h a ha b hb hsa hsb] at hlt
        exact absurd hlt (lt_irrefl _)

theorem mem_processed :
    rib'∈(routes.filter fun rib => !rib.removed).map (processedRib safi env select) ↔
      ∃ rib∈routes, rib.removed=false ∧ processedRib safi env select rib=rib' := by
  rw [List.mem_map]
  refine exists_congr fun rib => ?_
  rw [mem_filter,Bool.not_eq_true',and_assoc]

theorem usable_of_ribData {a b : Rib} (h : ribData a=ribData b) : Usable env a ↔ Usable env b := by
  have hdist : a.distance=b.distance := (congrArg Rib.distance h :)
  unfold Usable
  rw [removed_of_ribData h,answers_congr h,hdist]

theorem removed_of_chosen (h : Chosen env routes rib) : rib.removed=false :=
  removed_of_usable h.1

/-- `rib_process` keeps the order of a node. -/
theorem routesOk_processed (hnum : Numbered routes) (hok : RoutesOk routes)
    (hprocess : ProcessOk env safi routes) :
    RoutesOk ((routes.filter fun rib => !rib.removed).map
      (processedRib safi env (winner env none routes))) := by
  have haddr : Numbered ((routes.filter fun rib => !rib.removed).map
      (processedRib safi env (winner env none routes))) := by
    refine numbered_of_map_addr hnum ?_
    rw [List.map_map]
    have hcomp : Rib.addr ∘ processedRib safi env (winner env none routes)=Rib.addr :=
      funext fun rib => addr_of_ribData (ribData_processedRib safi env _ rib)
    rw [hcomp]
    exact filter_sublist.map _
  refine ⟨(selectedOnce_iff haddr).mpr ?_,?_⟩
  · intro a' ha' b' hb' hsa hsb
    obtain ⟨a,ha,-,heqa⟩ := mem_processed.mp ha'
    obtain ⟨b,hb,-,heqb⟩ := mem_processed.mp hb'
    rw [←heqa,selected_processedRib,pointsTo_winner hnum ha] at hsa
    rw [←heqb,selected_processedRib,pointsTo_winner hnum hb] at hsb
    rw [←heqa,←heqb,hsa.unique hsb ha hb]
  intro rib' hmem hsystem hsel
  obtain ⟨rib,hrts,hlive,heq⟩ := mem_processed.mp hmem
  have hdata := ribData_processedRib safi env (winner env none routes) rib
  rw [heq] at hdata
  have hsystemRib : rib.system=false := (congrArg Rib.system hdata).symm.trans hsystem
  rw [←heq,selected_processedRib] at hsel
  rw [←heq]
  refine anyFib_processedRib hsel hsystemRib (hok.clear rib hrts hsystemRib) ?_
  intro hs
  by_contra hno
  rw [not_or] at hno
  have hmulticast : safi=.multicast := by
    cases safi with
    | unicast => exact absurd rfl hno.1
    | multicast => rfl
  have hchosen := hprocess.stays hmulticast rib hrts hs hlive hsystemRib hno.2
  rw [(pointsTo_winner hnum hrts).mpr hchosen] at hsel
  exact nomatch hsel

/-- Behind `rib_process` the best entry is selected. -/
theorem bestSelected_processed (hnum : Numbered routes) (hprocess : ProcessOk env safi routes) :
    BestSelected env ((routes.filter fun rib => !rib.removed).map
      (processedRib safi env (winner env none routes))) := by
  have husable : ∀ rib∈routes, usable env rib=true ↔ Usable env rib := by
    intro rib hmem
    by_cases hmay : rib.removed=false ∧ rib.distance≠distanceInfinity
    · exact usable_iff (hprocess.counts rib hmem hmay.1 hmay.2)
    exact iff_of_false (fun h => hmay ⟨removed_of_usable h,distance_of_usable h⟩)
      fun h => hmay ⟨h.1,h.2.2⟩
  have hdata := ribData_processedRib safi env (winner env none routes)
  have hsel : ∀ rib∈routes, (processedRib safi env (winner env none routes)
      rib).flags.selected=true ↔ Chosen env routes rib := by
    intro rib hmem
    rw [selected_processedRib,pointsTo_winner hnum hmem]
  refine ⟨?_,⟨?_,?_⟩,?_⟩
  · intro rib' hmem hs
    obtain ⟨rib,hrts,-,heq⟩ := mem_processed.mp hmem
    rw [←heq] at hs ⊢
    have hchosen := (hsel rib hrts).mp hs
    refine ⟨(usable_of_ribData (hdata rib)).mpr ((husable rib hrts).mp hchosen.1),?_⟩
    intro other' hoth' huse
    obtain ⟨other,hoth,-,heqOther⟩ := mem_processed.mp hoth'
    rw [←heqOther] at huse ⊢
    rw [usable_of_ribData (hdata other),←husable other hoth] at huse
    rcases hchosen.2 other hoth huse with hsame|hpref
    · rw [hsame]
      exact .inl rfl
    · exact .inr ((preferred_congr (hdata rib) (hdata other)).mpr hpref)
  · rintro ⟨rib',hmem,hs⟩
    obtain ⟨rib,hrts,-,heq⟩ := mem_processed.mp hmem
    rw [←heq] at hs
    have hchosen := (hsel rib hrts).mp hs
    refine ⟨rib',hmem,?_⟩
    rw [←heq]
    exact (usable_of_ribData (hdata rib)).mpr ((husable rib hrts).mp hchosen.1)
  · rintro ⟨rib',hmem,huse⟩
    obtain ⟨rib,hrts,-,heq⟩ := mem_processed.mp hmem
    rw [←heq,usable_of_ribData (hdata rib),←husable rib hrts] at huse
    cases hw : winner env none routes with
    | none =>
      rw [winner_eq_none hw rib hrts] at huse
      exact nomatch huse
    | some w =>
      obtain ⟨best,hbest,hchosen,-⟩ := winner_eq_some hnum hw
      rw [←hw]
      exact ⟨_,mem_processed.mpr ⟨best,hbest,removed_of_chosen hchosen,rfl⟩,
        (hsel best hbest).mpr hchosen⟩
  · intro hagrees rib' hmem
    obtain ⟨rib,-,-,heq⟩ := mem_processed.mp hmem
    obtain ⟨set,hact⟩ := active_processedRib safi env (winner env none routes) rib
    have hset : answers env set rib=answers env false rib := by
      cases set with
      | false => rfl
      | true => exact map_congr_left fun i _ => hagrees rib.addr i
    rw [←heq,answers_congr (hdata rib),←hset,←hact,List.mem_map]

/-- Entries change, and none is selected or put in the FIB by that. -/
theorem RoutesOk.modifyRib (hok : RoutesOk routes) {addr : ℕ}
    (hsel : ∀ rib∈routes, rib.addr=addr → (f rib).flags.selected=true → rib.flags.selected=true)
    (hclear : ∀ rib∈routes, rib.addr=addr → (f rib).system=false →
      (f rib).flags.selected=false → (f rib).anyFib=false) :
    RoutesOk (modifyRib addr f routes) := by
  refine ⟨?_,?_⟩
  · refine le_trans (Nat.add_le_add_left ?_ _) hok.once
    unfold RibEntries.modifyRib
    rw [countP_map]
    refine countP_mono_left fun rib hmem hs => ?_
    rw [Function.comp_apply] at hs
    split at hs
    · exact hsel rib hmem ‹_› hs
    · exact hs
  intro rib' hmem hsystem hs
  obtain ⟨rib,hrts,heq⟩ := mem_map.mp hmem
  rw [←heq] at hsystem hs ⊢
  split at hsystem <;> rename_i haddr
  · rw [if_pos haddr] at hs ⊢
    exact hclear rib hrts haddr hsystem hs
  rw [if_neg haddr] at hs ⊢
  exact hok.clear rib hrts hsystem hs

theorem RoutesOk.modifyRib_of_eq (hok : RoutesOk routes)
    (hf : ∀ rib, (f rib).flags=rib.flags ∧ (f rib).type=rib.type ∧ (f rib).nexthops=rib.nexthops)
    (addr : ℕ) : RoutesOk (RibEntries.modifyRib addr f routes) := by
  refine hok.modifyRib (fun rib _ _ hs => ?_) fun rib hmem _ hsystem hs => ?_
  · rw [(hf rib).1] at hs
    exact hs
  rw [(hf rib).1] at hs
  have hsystemRib : rib.system=false := by
    unfold Rib.system at hsystem ⊢
    rw [(hf rib).2.1] at hsystem
    exact hsystem
  have hclear := hok.clear rib hmem hsystemRib hs
  unfold Rib.anyFib at hclear ⊢
  rw [(hf rib).2.2]
  exact hclear

/-- A new entry comes with `SELECTED` only if no other one is selected. -/
def SelectsOnce (flags : ZebraFlags) (routes : List Rib) : Prop :=
  flags.selected=true → ∀ rib∈routes, rib.flags.selected=false

theorem RoutesOk.cons (hok : RoutesOk routes) (hselects : SelectsOnce rib.flags routes)
    (hclear : rib.system=false → rib.anyFib=false) : RoutesOk (rib::routes) := by
  refine ⟨(selectedOnce_cons none rib routes).mpr ⟨?_,?_⟩,?_⟩
  · rw [isSome_none,Bool.and_false]
    exact Bool.false_ne_true
  · cases hs : rib.flags.selected with
    | false => exact hok.once
    | true =>
      have hz : routes.countP (fun rib => rib.flags.selected)=0 := by
        refine countP_eq_zero.mpr fun other hmem => ?_
        rw [hselects hs other hmem]
        exact Bool.false_ne_true
      rw [if_pos rfl]
      unfold SelectedOnce
      rw [hz]
      rfl
  · intro rib' hmem hsystem hs
    rcases mem_cons.mp hmem with heq|hold
    · rw [heq] at hsystem ⊢
      exact hclear hsystem
    · exact hok.clear rib' hold hsystem hs

theorem newRib_clear (request : RibRequest) (hsystem : (newRib request).system=false) :
    (newRib request).anyFib=false := by
  have hfold : ∀ (hops : List HopRequest) (rib : Rib), rib.anyFib=false →
      (hops.foldl (fun rib hop => nexthopAdd rib
        (Nexthop.new hop.type hop.ifname hop.ifindex hop.gate hop.src)) rib).anyFib=false := by
    intro hops
    induction hops with
    | nil => exact fun _ h => h
    | cons hop rest ih =>
      intro rib h
      refine ih _ ?_
      unfold Rib.anyFib nexthopAdd at *
      rw [any_append,h]
      rfl
  unfold newRib at hsystem ⊢
  dsimp only at hsystem ⊢
  split
  · rename_i hsys
    rw [if_pos hsys] at hsystem
    exact absurd (hsystem.symm.trans hsys) Bool.false_ne_true
  · exact hfold request.nexthops _ rfl

theorem RoutesOk.replaced (hok : RoutesOk routes) (next : ℕ) {request : RibRequest}
    (hselects : SelectsOnce request.flags routes) (same : Option Rib) :
    RoutesOk (replacedRoutes next (newRib request) same routes) := by
  have hnew : RoutesOk ({newRib request with addr := next}::routes) := by
    refine hok.cons ?_ (newRib_clear request)
    rw [←(newRib_keeps request).2.2.2] at hselects
    exact hselects
  unfold replacedRoutes
  cases same with
  | none => exact hnew
  | some same =>
    refine hnew.modifyRib_of_eq ?_ same.addr
    exact fun _ => ⟨rfl,rfl,rfl⟩

end

/-- The functions that change the RIB and process it. -/
inductive SelectionStep where
  | ribAdd (request : AddRequest)
  | ribAddMultipath (p : PrefixIpv4) (request : RibRequest) (safi : Safi)
  | ribDelete (request : DeleteRequest)
  | ribProcess (rn : RouteNode) (env : Environment)

/-- One step. It fails when the assertion in `rib_process` does. -/
def selectionStep (s : Zebra) : SelectionStep→Option Zebra
  | .ribAdd request => some (ribAddIpv4 s request)
  | .ribAddMultipath p request safi => some (ribAddIpv4Multipath s p request safi)
  | .ribDelete request => some (ribDeleteIpv4 s request)
  | .ribProcess rn env => RibOperations.ribProcess env s rn

/-- The FIB entry that a message from the kernel is about has no resolved next
hops in the FIB. -/
def ForgetOk (request : DeleteRequest) (routes : List Rib) : Prop :=
  match deleteLookup request.type request.gate request.ifindex none routes with
  | .missing (some fib) => request.type=.kernel → fib.system=false →
      ∀ hop∈fib.nexthops, hop.resolved.any ResolvedHop.fib=false
  | _ => True

/-- The request is for a connected route that is there. -/
def Duplicate (request : AddRequest) (routes : List Rib) : Prop :=
  request.type=.connect ∧ (routes.find? (addStops request.type request.ifindex)).isSome=true

/-- No second entry is linked as selected, and the other steps avoid what goes
wrong. -/
def Orderly (s : Zebra) : SelectionStep→Prop
  | .ribAdd request =>
    Duplicate request (rnodeToRibs s (routeNode request.safi request.p)) ∨
      SelectsOnce request.flags (rnodeToRibs s (routeNode request.safi request.p))
  | .ribAddMultipath p request safi => SelectsOnce request.flags (rnodeToRibs s (routeNode safi p))
  | .ribDelete request => ForgetOk request (rnodeToRibs s (routeNode request.safi request.p))
  | .ribProcess rn env => ProcessOk env rn.1 (rnodeToRibs s rn)

structure SelectionOk (s : Zebra) : Prop where
  entries : EntriesOk s
  routes : ∀ rn, RoutesOk (rnodeToRibs s rn)

section

variable {s s' : Zebra} {routes : List Rib}

theorem SelectionOk.change (h : SelectionOk s) {f : List Rib→List Rib} (hchange : Changes s s' rn f)
    (hok : RoutesOk (f (rnodeToRibs s rn))) : SelectionOk s' := by
  refine ⟨hchange.entries h.entries,fun rn' => ?_⟩
  by_cases hrn : rn'=rn
  · rw [hrn,hchange.routes]
    exact hok
  rw [hchange.others rn' hrn]
  exact h.routes rn'

theorem RoutesOk.added (hok : RoutesOk routes) (next : ℕ) {request : AddRequest}
    (hleg : Duplicate request routes ∨ SelectsOnce request.flags routes) :
    RoutesOk (addedRoutes next request routes) := by
  unfold addedRoutes
  split
  · refine hok.modifyRib_of_eq ?_ _
    exact fun _ => ⟨rfl,rfl,rfl⟩
  rename_i hno
  rcases hleg with ⟨hty,hsome⟩|hselects
  · obtain ⟨same,hsame⟩ := isSome_iff_exists.mp hsome
    exact absurd hty (hno same hsame)
  · exact hok.replaced next hselects _

theorem RoutesOk.deleted (hnum : Numbered routes) (hok : RoutesOk routes) {request : DeleteRequest}
    (hforget : ForgetOk request routes) : RoutesOk (deletedRoutes request routes) := by
  have hfnd := deleteLookup_ok request.type request.gate request.ifindex routes none []
    fun rib h => nomatch h
  rw [nil_append] at hfnd
  unfold ForgetOk at hforget
  unfold deletedRoutes
  cases hlk : deleteLookup request.type request.gate request.ifindex none routes with
  | counted rib | same rib =>
    refine hok.modifyRib_of_eq ?_ _
    exact fun _ => ⟨rfl,rfl,rfl⟩
  | missing fib =>
    cases fib with
    | none => exact hok
    | some fib =>
      rw [hlk] at hfnd hforget
      dsimp only at hforget ⊢
      by_cases hkernel : request.type=.kernel
      · rw [if_pos hkernel]
        refine hok.modifyRib (fun _ _ _ hs => nomatch hs) fun rib hmem haddr hsystem _ => ?_
        have hsame := hnum.eq_of_addr hmem (hfnd fib rfl).1 haddr
        rw [hsame] at hsystem ⊢
        rw [anyFib_eq_false]
        intro hop hhop
        obtain ⟨old,hold,heq⟩ := mem_map.mp hhop
        have hout := hforget hkernel hsystem old hold
        rw [←heq]
        exact hout
      rw [if_neg hkernel]
      exact hok

theorem SelectionOk.ribProcess (h : SelectionOk s) {env : Environment}
    (hprocess : ProcessOk env rn.1 (rnodeToRibs s rn)) :
    ∃ s', RibOperations.ribProcess env s rn=some s' ∧ SelectionOk s' ∧
      BestSelected env (rnodeToRibs s' rn) := by
  have hnum := (h.entries rn).1
  have hrts : ribProcessRoutes rn.1 env (rnodeToRibs s rn)=_ :=
    ribProcessRoutes_eq hnum (h.routes rn).once
  have hsome : ∃ s', RibOperations.ribProcess env s rn=some s' := by
    unfold RibOperations.ribProcess
    rw [hrts]
    exact ⟨_,rfl⟩
  obtain ⟨s',hs'⟩ := hsome
  obtain ⟨out,hout,hself,hoth,-⟩ := rnodeToRibs_ribProcess h.entries hs'
  rw [hrts,some.injEq] at hout
  rw [←hout] at hself
  refine ⟨s',hs',⟨h.entries.ribProcess hs',fun rn' => ?_⟩,?_⟩
  · by_cases hrn : rn'=rn
    · rw [hrn,hself]
      exact routesOk_processed hnum (h.routes rn) hprocess
    rw [hoth rn' hrn]
    exact h.routes rn'
  rw [hself]
  exact bestSelected_processed hnum hprocess

theorem selectionStep_ok {step : SelectionStep} (h : SelectionOk s) (hleg : Orderly s step) :
    ∃ s', selectionStep s step=some s' ∧ SelectionOk s' := by
  cases step with
  | ribAdd request =>
    have hrts := (h.routes (routeNode request.safi request.p)).added s.nextRib hleg
    exact ⟨_,rfl,h.change (changes_ribAddIpv4 s request) hrts⟩
  | ribAddMultipath p request safi =>
    have hrts := (h.routes (routeNode safi p)).replaced s.nextRib hleg
      ((rnodeToRibs s (routeNode safi p)).find? (multipathStops (newRib request)))
    exact ⟨_,rfl,h.change (changes_ribAddIpv4Multipath s p request safi) hrts⟩
  | ribDelete request =>
    have hrts := (h.routes (routeNode request.safi request.p)).deleted (h.entries _).1 hleg
    exact ⟨_,rfl,h.change (changes_ribDeleteIpv4 s request) hrts⟩
  | ribProcess rn env =>
    obtain ⟨s',hs',hok,-⟩ := h.ribProcess hleg
    exact ⟨s',hs',hok⟩

theorem selectionOk_emptyZebra : SelectionOk emptyZebra := by
  refine ⟨fun rn => ⟨List.Pairwise.nil,fun rib hmem => absurd hmem not_mem_nil⟩,fun rn => ?_⟩
  exact ⟨Nat.zero_le _,fun rib hmem => absurd hmem not_mem_nil⟩

/-- In every orderly run the assertion holds, at most one entry is selected, no other in the FIB,
and after `rib_process` it is the best usable. -/
theorem selectionRun_ok {steps : List SelectionStep}
    (hlegal : LegalRun selectionStep Orderly emptyZebra steps) :
    ∃ s, run selectionStep emptyZebra steps=some s ∧ (∀ rn, RoutesOk (rnodeToRibs s rn)) ∧
      ∀ rn env, Orderly s (.ribProcess rn env) →
        ∃ s', selectionStep s (.ribProcess rn env)=some s' ∧
          BestSelected env (rnodeToRibs s' rn) := by
  obtain ⟨s,hs,hok⟩ := run_invariant (fun _ _ h hl => selectionStep_ok h hl) steps emptyZebra
    selectionOk_emptyZebra hlegal
  refine ⟨s,hs,hok.routes,fun rn env hprocess => ?_⟩
  obtain ⟨s',hs',-,hbest⟩ := hok.ribProcess hprocess
  exact ⟨s',hs',hbest⟩

/-- Every next hop is active, and the kernel takes every entry. -/
def reachableEnvironment : Environment where
  activeCheck := fun _ _ _ => ⟨true,3,[]⟩
  kernelAdd := fun _ => ⟨false,fun _ => true,fun _ _ => true⟩

/-- A route of 10.0.0.0/8 in a table. -/
def sampleRoute (type : RouteType) (safi : Safi) : AddRequest :=
  ⟨type,routeInfoDistance type,ZebraFlags.none,⟨0x0a000000,slash8⟩,some 0x01020304,none,0,0,0,0,safi⟩

/-- A RIP route is replaced by an OSPF route. -/
def sampleSelection (safi : Safi) : List SelectionStep :=
  [.ribAdd (sampleRoute .rip safi),.ribProcess (safi,⟨0x0a000000,slash8⟩) reachableEnvironment,
    .ribAdd (sampleRoute .ospf safi),.ribProcess (safi,⟨0x0a000000,slash8⟩) reachableEnvironment]

instance decidableCountFits (env : Environment) (rib : Rib) : Decidable (CountFits env rib) :=
  inferInstanceAs (Decidable (_ → _))

theorem selectionRun_ok_sampleSelection :
    ∃ s, run selectionStep emptyZebra (sampleSelection .unicast)=some s ∧
      (∀ rn, RoutesOk (rnodeToRibs s rn)) ∧ ∀ rn env, Orderly s (.ribProcess rn env) →
        ∃ s', selectionStep s (.ribProcess rn env)=some s' ∧
          BestSelected env (rnodeToRibs s' rn) := by
  refine selectionRun_ok ?_
  have hadd : ∀ s type, Orderly s (.ribAdd (sampleRoute type .unicast)) :=
    fun s type => .inr nofun
  have hprocess : ∀ s, (∀ rib∈rnodeToRibs s sampleNode, CountFits reachableEnvironment rib) →
      Orderly s (.ribProcess sampleNode reachableEnvironment) :=
    fun s h => ⟨fun rib hmem _ _ => h rib hmem,nofun⟩
  exact legalRun_cons (hadd _ _) rfl (legalRun_cons (hprocess _ (by decide)) rfl
    (legalRun_cons (hadd _ _) rfl (legalRun_cons (hprocess _ (by decide)) rfl trivial)))

/-- In the multicast table the RIP route stays in the FIB. -/
theorem ribProcess_leavesFib : ∃ s, run selectionStep emptyZebra (sampleSelection .multicast) =
    some s ∧ ¬ ∀ rn, RoutesOk (rnodeToRibs s rn) := by
  have hstate : (run selectionStep emptyZebra (sampleSelection .multicast)).map (fun s =>
      (rnodeToRibs s (.multicast,⟨0x0a000000,8⟩)).map fun rib =>
        (rib.system,rib.flags.selected,rib.anyFib)) =
      some [(false,true,true),(false,false,true)] := by decide
  obtain ⟨s,hs,hmarks⟩ := map_eq_some_iff.mp hstate
  refine ⟨s,hs,fun hok => ?_⟩
  have hmem : (false,false,true)∈(rnodeToRibs s (.multicast,⟨0x0a000000,8⟩)).map fun rib =>
      (rib.system,rib.flags.selected,rib.anyFib) := by
    rw [hmarks]
    exact .tail _ mem_cons_self
  obtain ⟨rib,hrib,hmark⟩ := mem_map.mp hmem
  rw [Prod.mk.injEq,Prod.mk.injEq] at hmark
  have hclear := (hok _).clear rib hrib hmark.1 hmark.2.1
  rw [hmark.2.2] at hclear
  exact nomatch hclear

end

end RoutePlatform.RibSelection
