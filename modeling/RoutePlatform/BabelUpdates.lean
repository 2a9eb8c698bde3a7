import RoutePlatform.BabelFlushing

/-!
# Babel: received updates

An update finds its source or makes one, and then its route or makes one. A known
route changes its source while the old source still counts it; an installed route
whose update is not feasible for a new source stops being installed.
-/

namespace RoutePlatform.BabelRoutes

open Function List Option World

variable {w w' w'' : World} {held : ℕ→ℕ} {p q i j s src : ℕ} {E : Env} {u : Update} {held' : ℕ→ℕ}
  {n : ℕ}

theorem addSource_kept (ht : Table held w) (hs : s ∉ w.srcs) (r : Source) (hcnt : r.routeCount=0)
    (htime : r.time=w.now) :
    Kept held w { w.modifySource s fun _ => r with srcs := s::w.srcs } := by
  have hold : ∀ s'∈w.srcs, update w.source s r s'=w.source s' := fun s' hs' =>
    update_of_ne (fun h : s'=s => hs (h ▸ hs')) ..
  have hnew : update w.source s r s=r := update_self ..
  have hkey : ∀ j, ∀ q∈w.slot j,
      key { w.modifySource s fun _ => r with srcs := s::w.srcs } q=w.key q := by
    intro j q hq
    change toLex ((update w.source s r (w.route q).src).pfx.toNat,
      (update w.source s r (w.route q).src).plen)=_
    rw [hold _ (ht.live j q hq)]
    rfl
  refine ⟨ht.sub (σ := id) strictMono_id (fun j => List.Sublist.refl _) ht.nonempty
    (fun j q hq => ⟨hkey j q hq,rfl,rfl,rfl⟩)
    (fun j q hq => .tail _ (ht.live j q hq)) (fun s' hs' => ?_) ht.room
    (fun s' hs' => ht.idle s' fun h => hs' (.tail _ h)),fun hf => ⟨fun s' hs' => ?_,
      [],(append_nil _).symm,nofun⟩,rfl⟩
  · change (update w.source s r s').routeCount=_
    by_cases h : s'=s
    · have hz : w.slots.flatten.countP (fun q => (w.route q).src=s)=0 := by
        rw [countP_eq_zero]
        intro q hq
        obtain ⟨j,hj⟩ := mem_flatten_iff.mp hq
        have hne : (w.route q).src≠s := fun h' => hs (h' ▸ ht.live j q hj)
        simpa using hne
      rw [h,hnew,hcnt,ht.idle s hs]
      exact hz.symm
    have hmem := (mem_cons.mp hs').resolve_left h
    rw [hold s' hmem]
    exact ht.count s' hmem
  · change w.now-sourceGcTime≤(update w.source s r s').time
    by_cases h : s'=s
    · rw [h,hnew,htime,sourceGcTime]
      omega
    have hmem := (mem_cons.mp hs').resolve_left h
    rw [hold s' hmem]
    exact hf s' hmem

/-- What `find_source` answers: the table stays, and the source is the one asked
for. -/
theorem findSource_spec (ht : Table held w) {malloc : Option ℕ} (hfresh : ∀ s∈malloc, s ∉ w.srcs)
    {id : BitVec 64} {pfx : BitVec 128} {plen : ℕ} {seqno : BitVec 16} {o : Option ℕ}
    (h : findSource malloc id pfx plen seqno w=(w',o)) :
    Kept held w w' ∧ w'.route=w.route ∧ w'.slots=w.slots ∧ w'.now=w.now ∧
      w'.maxRouteSlots=w.maxRouteSlots ∧ w'.log=w.log ∧
      (∀ s∈w.srcs, s∈w'.srcs ∧ w'.source s=w.source s) ∧
      (∀ s∈w'.srcs, s∈w.srcs ∨ (w'.source s).routeCount=0) ∧
      ∀ s∈o, s∈w'.srcs ∧ (w'.source s).pfx=pfx ∧ (w'.source s).plen=plen ∧ (w'.source s).id=id := by
  rw [findSource.eq_def] at h
  cases hl : lookupSource w id pfx plen with
  | some s =>
    rw [hl] at h
    obtain ⟨rfl,rfl⟩ := Prod.mk.inj h
    refine ⟨Kept.refl ht,rfl,rfl,rfl,rfl,rfl,fun s hs => ⟨hs,rfl⟩,fun s hs => .inl hs,
      fun s' hs' => ?_⟩
    obtain rfl := some.inj hs'
    have hfnd := find?_some hl
    rw [Bool.and_eq_true,Bool.and_eq_true,decide_eq_true_iff,decide_eq_true_iff,
      decide_eq_true_iff] at hfnd
    exact ⟨mem_of_find?_eq_some hl,hfnd.2,hfnd.1.2,hfnd.1.1⟩
  | none =>
    rw [hl] at h
    cases malloc with
    | none =>
      obtain ⟨rfl,rfl⟩ := Prod.mk.inj h
      exact ⟨Kept.refl ht,rfl,rfl,rfl,rfl,rfl,fun s hs => ⟨hs,rfl⟩,fun s hs => .inl hs,
        fun s hs => absurd hs (by simp)⟩
    | some s =>
      obtain ⟨rfl,rfl⟩ := Prod.mk.inj h
      have hs := hfresh s rfl
      have hnew : update w.source s
          ⟨id,pfx,plen,seqno,BitVec.ofNat 16 infinity,0,w.now⟩ s=_ := update_self ..
      refine ⟨addSource_kept ht hs _ rfl rfl,rfl,rfl,rfl,rfl,rfl,
        fun s' hs' => ⟨.tail _ hs', update_of_ne (fun h : s'=s => hs (h ▸ hs')) ..⟩,
        fun s' hs' => ?_,fun s' hs' => ?_⟩
      · rcases mem_cons.mp hs' with rfl|hs'
        · exact .inr (congrArg Source.routeCount hnew)
        · exact .inl hs'
      obtain rfl := some.inj hs'
      exact ⟨.head _,congrArg Source.pfx hnew,congrArg Source.plen hnew,
        congrArg Source.id hnew⟩

section

variable (hs : Shape held w) {pfx : BitVec 128} {plen neigh : ℕ} {nexthop : BitVec 128}
include hs

theorem findRoute_some (h : findRoute w pfx plen neigh nexthop=some p) :
    ∃ i, p∈w.slot i ∧ (w.sourceOf p).pfx=pfx ∧ (w.sourceOf p).plen=plen := by
  rw [findRoute] at h
  cases hf : findRouteSlot w pfx plen with
  | absent n =>
    rw [hf] at h
    cases h
  | found i =>
    rw [hf] at h
    have hmem := mem_of_find?_eq_some h
    have hkey := (findRouteSlot_found hs hf).2 p hmem
    rw [key,target] at hkey
    obtain ⟨hpfx,hplen⟩ := Prod.mk.inj (toLex.injective hkey)
    exact ⟨i,hmem,BitVec.eq_of_toNat_eq hpfx,hplen⟩

theorem findRoute_none (h : findRoute w pfx plen neigh nexthop=none) (hq : q∈w.slot i)
    (hkey : w.key q=target pfx plen) :
    ¬((w.route q).neigh=neigh ∧ (w.route q).nexthop=nexthop) := by
  rw [findRoute,findRouteSlot_of_mem hs hq hkey] at h
  have hne := find?_eq_none.mp h q hq
  rw [Bool.and_eq_true,decide_eq_true_iff,decide_eq_true_iff] at hne
  exact hne

end

/-- A route gets another source: one reference is used up, one is held. -/
theorem changeSource_table (ht : Table (hold held src) w) (hp : p∈w.slot i)
    (hsrc : src∈w.srcs) (hpfx : (w.source src).pfx=(w.sourceOf p).pfx)
    (hplen : (w.source src).plen=(w.sourceOf p).plen) (f : Route → Route)
    (hf : (f (w.route p)).src=src ∧ (f (w.route p)).neigh=(w.route p).neigh ∧
      (f (w.route p)).nexthop=(w.route p).nexthop ∧
      (f (w.route p)).installed=(w.route p).installed) :
    Table (hold held (w.route p).src) (w.modifyRoute p f) := by
  have hself : (w.modifyRoute p f).route p=f (w.route p) := update_self ..
  have hoth : ∀ q, q≠p → (w.modifyRoute p f).route q=w.route q := fun q hq => update_of_ne hq ..
  have hkey : ∀ q, (w.modifyRoute p f).key q=w.key q := by
    intro q
    change toLex ((w.source ((w.modifyRoute p f).route q).src).pfx.toNat,
      (w.source ((w.modifyRoute p f).route q).src).plen)=_
    by_cases hq : q=p
    · rw [hq,hself,hf.1,hpfx,hplen]
      rfl
    rw [hoth q hq]
    rfl
  refine ht.sub (σ := id) strictMono_id (fun j => List.Sublist.refl _) ht.nonempty
    (fun j q _ => ⟨hkey q,?_⟩) (fun j q hq => ?_) (fun s hs => ?_) ht.room (fun s hs => ?_)
  · by_cases hq : q=p
    · rw [hq,hself]
      exact hf.2
    rw [hoth q hq]
    exact ⟨rfl,rfl,rfl⟩
  · by_cases hqp : q=p
    · rw [hqp,hself,hf.1]
      exact hsrc
    rw [hoth q hqp]
    exact ht.live j q hq
  · have hmem := mem_flatten_iff.mpr ⟨i,hp⟩
    have hperm := perm_cons_erase hmem
    have hnd := nodup_flatten ht.toShape
    have hrs : (w.slots.flatten.erase p).countP (fun q => ((w.modifyRoute p f).route q).src=s) =
        (w.slots.flatten.erase p).countP (fun q => (w.route q).src=s) := by
      refine countP_congr fun q hq => ?_
      have hne : q≠p := fun h => (hnd.mem_erase_iff.mp (h ▸ hq)).1 rfl
      rw [hoth q hne]
    have hcnt := ht.count s hs
    rw [hperm.countP_eq,countP_cons,hold_apply] at hcnt
    change (w.source s).routeCount=w.slots.flatten.countP
      (fun q => ((w.modifyRoute p f).route q).src=s)+_
    rw [hperm.countP_eq,countP_cons,hrs,hself,hf.1,hold_apply,hcnt]
    by_cases h1 : (w.route p).src=s <;> by_cases h2 : src=s <;>
      simp [h1,h2,Ne.symm,eq_comm] <;> omega
  · have hidle := ht.idle s hs
    rw [hold_apply] at hidle
    have hne : s≠(w.route p).src := fun h => hs (h ▸ ht.live i p hp)
    rw [hold_apply,if_neg hne]
    omega

theorem updateFeasible_congr {seqno refmetric : BitVec 16} (hnow : w'.now=w.now)
    (htime : (w'.source src).time=(w.source src).time)
    (hseqno : (w'.source src).seqno=(w.source src).seqno)
    (hmet : (w'.source src).metric=(w.source src).metric) :
    updateFeasible w' src seqno refmetric=updateFeasible w src seqno refmetric := by
  rw [updateFeasible,updateFeasible]
  rw [hnow,htime,hseqno,hmet]

theorem changeRouteMetric_uninstalled (h : (w.route p).installed=false) (refmetric cost add : ℕ) :
    changeRouteMetric E p refmetric cost add w=w.modifyRoute p fun r =>
      {r with refmetric := BitVec.ofNat 16 refmetric,cost := BitVec.ofNat 16 cost
              addMetric := BitVec.ofNat 16 add} := by
  rw [changeRouteMetric]
  rw [h,if_neg (by simp)]

/-- The end of `update_route`: the route is reconsidered, the old source released. -/
theorem reconsider_kept {s o m n : ℕ} {l b : Bool}
    (ht : Table (hold held o) w) (hp : p∈w.slot i) (hsrc : o∈w.srcs) :
    let w1 := routeChanged E p o n w
    let w2 := if l then routeLost E o n w1 else w1
    let w3 :=
      if !b then
        sendUnfeasibleRequest E u.neigh ((w2.route p).installed && routeOld w2 p) u.seqno m s w2
      else w2
    Kept held w (releaseSource o w3) ∧
      (l=true → (w.route p).installed=false → routeFeasible w p=false →
        ((releaseSource o w3).route p).installed=false) := by
  intro w1 w2 w3
  have h1 : Turned (hold held o) w w1 := routeChanged_turned ht hp _ _
  have h2 : Turned (hold held o) w1 w2 := by
    dsimp only [w2]
    split
    · exact (routeLost_turned h1.2 _ _).1
    · exact Turned.refl h1.2
  have h3 : Quiet w2 w3 := by
    dsimp only [w3]
    split
    · exact sendUnfeasibleRequest_quiet h2.2 _ _ _ _ _
    · exact Quiet.refl _
  have h := (h1.trans h2).trans (h3.turned h2.2)
  obtain ⟨ht4,hlog4,hab4⟩ := releaseSource_table h.2 (by rw [h.1.srcs]; exact hsrc)
  refine ⟨h.kept.trans ⟨ht4,hlog4,hab4⟩,fun hlost hin hfeas => ?_⟩
  have hsame : w1=w := by
    dsimp only [w1]
    rw [routeChanged,hin]
    exact considerRoute_unfeasible hfeas
  have hin2 : (w2.route p).installed=false := by
    dsimp only [w2]
    rw [hlost,if_pos rfl,hsame]
    exact (routeLost_turned ht _ _).2 p hfeas hin
  have hrelease : (releaseSource o w3).route=w3.route := by
    rw [releaseSource,expect]
    split <;> rfl
  rw [hrelease,h3.route]
  exact hin2

theorem retainSource_fields (src : ℕ) (w : World) : (retainSource src w).aborted =
      (if (w.source src).routeCount<0xFFFF then w.aborted else true) := by
  rw [retainSource,expect]
  split <;> rfl

/-- An update leaves a table and sound events; an assertion fails only where a count is full. -/
structure Survives (held' : ℕ→ℕ) (w w' : World) : Prop where
  table : Table held' w'
  logged : Logged w w'
  aborted : w'.aborted=true → w.aborted=true ∨ ∃ s∈w.srcs, 0xFFFF≤(w.source s).routeCount

theorem Kept.survives (h : Kept held' w w') : Survives held' w w' :=
  ⟨h.table,h.logged,fun hab => .inl (h.aborted ▸ hab)⟩

theorem survives_of_retain {held' : ℕ → ℕ} (hsrc : src∈w.srcs)
    (h : Kept held' (retainSource src w) w') : Survives held' w w' := by
  refine ⟨h.table,(retainSource_recount src w).logged.trans h.logged,fun hab => ?_⟩
  rw [h.aborted,retainSource_fields] at hab
  split at hab
  · exact .inl hab
  · exact .inr ⟨src,hsrc,not_lt.mp ‹_›⟩

theorem updateKnownRoute_spec (ht : Table held w) (hp : p∈w.slot i) (hsrc : src∈w.srcs)
    (hpfx : (w.source src).pfx=(w.sourceOf p).pfx)
    (hplen : (w.source src).plen=(w.sourceOf p).plen) (addMetric : ℕ) :
    Survives held w (updateKnownRoute E u p src addMetric w) ∧
      (updateFeasible w src u.seqno u.refmetric=false → (w.route p).installed=true →
        src≠(w.route p).src →
        ((updateKnownRoute E u p src addMetric w).route p).installed=false) := by
  rw [updateKnownRoute]
  generalize hfeas : updateFeasible w src u.seqno u.refmetric=feasible
  generalize hlost : (!feasible && (w.route p).installed && decide (src≠(w.route p).src))=lost
  -- an installed route may first lose its flag
  have hun : Turned held w (if lost=true then uninstallRoute E p w else w) := by
    split
    · exact (uninstallRoute_turned ht p).1
    · exact Turned.refl ht
  have hun' : (if lost=true then uninstallRoute E p w else w).source=w.source ∧
      (lost=true → ((if lost=true then uninstallRoute E p w else w).route p).installed =
        false) := by
    refine ⟨?_,fun h => ?_⟩
    · split
      · rw [uninstallRoute]
        split <;> rfl
      · rfl
    · rw [if_pos h,(uninstallRoute_turned ht p).2 p,if_pos rfl]
  generalize (if lost=true then uninstallRoute E p w else w)=w1 at hun hun' ⊢
  obtain ⟨hsource1,hin1⟩ := hun'
  have hsrc1 : src∈w1.srcs := by
    rw [hun.1.srcs]
    exact hsrc
  have hp1 := hun.mem.mpr hp
  have hold1 := hun.1.src p
  have hrec := retainSource_recount src w1
  have ht2 := retainSource_table hun.2 hsrc1
  have hab2 := retainSource_fields src w1
  generalize retainSource src w1=w2 at hrec ht2 hab2 ⊢
  have hp2 : p∈w2.slot i := by
    rw [hrec.slot]
    exact hp1
  have hident : ∀ s, (w2.source s).pfx=(w.source s).pfx ∧ (w2.source s).plen=(w.source s).plen ∧
      (w2.source s).time=(w.source s).time ∧ (w2.source s).seqno=(w.source s).seqno ∧
      (w2.source s).metric=(w.source s).metric := by
    intro s
    rw [hrec.source,hsource1]
    split <;> exact ⟨rfl,rfl,rfl,rfl,rfl⟩
  have hsourceOf2 : w2.sourceOf p=w2.source (w.route p).src := by
    rw [sourceOf,hrec.route,hold1]
  generalize hf : (fun r : Route => Route.mk src r.refmetric r.cost r.addMetric u.seqno r.neigh
    r.nexthop (if ((feasible || E.keepUnfeasible) && decide (u.refmetric.toNat < infinity))=true
      then w1.now else r.time) r.holdTime r.installed r.channels)=f
  have hf3 : (f (w2.route p)).src=src ∧ (f (w2.route p)).neigh=(w2.route p).neigh ∧
      (f (w2.route p)).nexthop=(w2.route p).nexthop ∧
      (f (w2.route p)).installed=(w2.route p).installed := by
    rw [←hf]
    exact ⟨rfl,rfl,rfl,rfl⟩
  have hseqno3 : (f (w2.route p)).seqno=u.seqno := by rw [←hf]
  have ht3 := changeSource_table ht2 hp2 (by rw [hrec.srcs]; exact hsrc1)
    (by rw [hsourceOf2,(hident _).1,(hident _).1,hpfx]; rfl)
    (by rw [hsourceOf2,(hident _).2.1,(hident _).2.1,hplen]; rfl) f hf3
  have hself3 : (w2.modifyRoute p f).route p=f (w2.route p) := update_self ..
  have hlog3 : Kept (hold held (w2.route p).src) w2 (w2.modifyRoute p f) :=
    ⟨ht3,fun h => ⟨h,[],(append_nil _).symm,by simp⟩,rfl⟩
  have hsrcs3 : (w2.modifyRoute p f).srcs=w1.srcs := hrec.srcs
  have hsource3 : (w2.modifyRoute p f).source=w2.source := rfl
  have hnow3 : (w2.modifyRoute p f).now=w1.now := hrec.now
  rw [hrec.route,hold1] at ht3 hlog3
  have hslot3 : ∀ j, (w2.modifyRoute p f).slot j=w2.slot j := fun _ => rfl
  generalize w2.modifyRoute p f=w3 at hslot3 ht3 hself3 hlog3 hsrcs3 hsource3 hnow3 ⊢
  -- the metric and the hold time
  have h4 : Steady w3 (changeRouteMetric E p u.refmetric.toNat (E.neighbourCost u.neigh) addMetric
      w3) := changeRouteMetric_steady ..
  have hin4 : lost=true → changeRouteMetric E p u.refmetric.toNat (E.neighbourCost u.neigh)
      addMetric w3=w3.modifyRoute p fun r => {r with
        refmetric := BitVec.ofNat 16 u.refmetric.toNat
        cost := BitVec.ofNat 16 (E.neighbourCost u.neigh)
        addMetric := BitVec.ofNat 16 addMetric} := by
    intro h
    refine changeRouteMetric_uninstalled ?_ ..
    rw [hself3,hf3.2.2.2,hrec.route]
    exact hin1 h
  generalize changeRouteMetric E p u.refmetric.toNat (E.neighbourCost u.neigh) addMetric w3=w4
    at h4 hin4 ⊢
  have h5 := h4.trans (modifyRoute_steady w4 p (fun r => {r with holdTime := u.holdTime})
    ⟨rfl,rfl,rfl,rfl⟩)
  have hself5 : (w4.modifyRoute p fun r => {r with holdTime := u.holdTime}).route p =
      {w4.route p with holdTime := u.holdTime} := update_self ..
  have hsource5 : (w4.modifyRoute p fun r => {r with holdTime := u.holdTime}).source=w4.source :=
    rfl
  have hp3 : p∈w3.slot i := by
    rw [hslot3]
    exact hp2
  generalize hw5 : w4.modifyRoute p (fun r => {r with holdTime := u.holdTime})=w5
    at h5 hself5 hsource5 ⊢
  have hend := reconsider_kept (E := E) (u := u) (s := src) (l := lost) (b := feasible)
    (m := min (u.refmetric.toNat+E.neighbourCost u.neigh+addMetric) infinity)
    (n := routeMetric (w.route p)) (h5.table ht3) (h5.rearranged.mem.mpr hp3) (by
      rw [h5.srcs,hsrcs3,hun.1.srcs]
      exact ht.live i p hp)
  have hk := (hlog3.trans (h5.turned ht3).kept).trans hend.1
  refine ⟨⟨hk.table,hun.1.events.trans (hrec.logged.trans hk.logged),fun hab => ?_⟩,
    fun hfeas' hin hne => ?_⟩
  · rw [hk.aborted,hab2,hsource1,hun.1.aborted] at hab
    split at hab
    · exact .inl hab
    · exact .inr ⟨src,hsrc,not_lt.mp ‹_›⟩
  have hl : lost=true := by
    rw [←hlost,hin,hfeas']
    simpa using hne
  refine hend.2 hl ?_ ?_
  · rw [h5.installed,hself3,hf3.2.2.2,hrec.route]
    exact hin1 hl
  have hself4 : w4.route p = {f (w2.route p) with
      refmetric := BitVec.ofNat 16 u.refmetric.toNat
      cost := BitVec.ofNat 16 (E.neighbourCost u.neigh)
      addMetric := BitVec.ofNat 16 addMetric} := by
    rw [hin4 hl,←hself3]
    exact update_self ..
  have hsource : w5.source=w2.source := by
    rw [hsource5,hin4 hl,←hsource3]
    rfl
  rw [routeFeasible,hself5,hself4]
  rw [hf3.1,hseqno3,BitVec.ofNat_toNat,BitVec.setWidth_eq]
  have hcongr : updateFeasible w5 src u.seqno u.refmetric =
      updateFeasible w src u.seqno u.refmetric := by
    refine updateFeasible_congr ?_ ?_ ?_ ?_
    · rw [h5.now,hnow3,hun.1.now]
    · rw [hsource]
      exact (hident src).2.2.1
    · rw [hsource]
      exact (hident src).2.2.2.1
    rw [hsource]
    exact (hident src).2.2.2.2
  rw [hcongr,hfeas,hfeas']

/-- The number of slots that `insert_route` asks for when the table is full. -/
def grownSlots (w : World) : ℕ := if w.maxRouteSlots<1 then 8 else 2*w.maxRouteSlots

theorem growRouteTable_resized (hroom : w.slots.length≤w.maxRouteSlots) :
    Resized w (growRouteTable E w) ∧ (w.slots.length<(growRouteTable E w).maxRouteSlots ↔
        w.slots.length<w.maxRouteSlots ∨ E.realloc w.log (grownSlots w)=true) := by
  rw [growRouteTable]
  split
  · rename_i hfull
    have hn : w.slots.length≤grownSlots w := by
      rw [grownSlots]
      split <;> omega
    have hpos : grownSlots w≠0 ∧ w.slots.length<grownSlots w := by
      rw [grownSlots]
      split <;> omega
    obtain ⟨hr,hmax⟩ := resizeRouteTable_resized (E := E) hn
    refine ⟨hr,?_⟩
    change w.slots.length<(resizeRouteTable E (grownSlots w) w).maxRouteSlots ↔ _
    rw [hmax,decide_eq_false hpos.1,Bool.false_or]
    split
    · rename_i hok
      exact ⟨fun _ => .inr hok,fun _ => hpos.2⟩
    rename_i hno
    exact ⟨fun h => absurd h (not_lt.mpr hfull),fun h => absurd h fun h =>
      h.elim (fun h => absurd h (not_lt.mpr hfull)) hno⟩
  · rename_i hfull
    exact ⟨Resized.refl w,⟨fun h => .inl h,fun _ => not_le.mp hfull⟩⟩

/-- A route enters slot `n`, and the slots of the others are numbered by `σ`. -/
theorem enterSlot_kept {slots : List (List ℕ)} {σ : ℕ→ℕ} (ht : Table (hold held (w.route p).src) w)
    (hin : (w.route p).installed=false) (hsrc : (w.route p).src∈w.srcs) (hσ : StrictMono σ)
    (hmem : ∀ j, ∀ q∈slot {w with slots} j, (∃ i, σ i=j ∧ q∈w.slot i) ∨ j=n ∧ q=p)
    (hkey : ∀ i, ∀ q∈w.slot i, (σ i=n → w.key q=w.key p) ∧ (σ i<n → w.key q<w.key p) ∧
      (n<σ i → w.key p<w.key q)) (hperm : slots.flatten.Perm (p::w.slots.flatten))
    (hroom : slots.length≤w.maxRouteSlots) (hslot : ∀ j<slots.length, slot {w with slots} j≠[])
    (hdistinct : ∀ j, (slot {w with slots} j).Pairwise fun x y =>
      ¬((w.route x).neigh=(w.route y).neigh ∧ (w.route x).nexthop=(w.route y).nexthop))
    (htail : ∀ j, ∀ q∈(slot {w with slots} j).tail, q=p ∨ ∃ i, q∈(w.slot i).tail) :
    Table held {w with slots} := by
  have hsame : ∀ q, key {w with slots} q=w.key q := fun _ => rfl
  refine { nonempty := hslot,same := fun j x hx y hy => ?_,sorted := fun j k hjk x hx y hy => ?_,
           distinct := hdistinct,live := fun j q hq => ?_,count := fun s hs => ?_,room := hroom,
           idle := fun s hs => ?_,head := fun j q hq => ?_ }
  · rw [hsame,hsame]
    rcases hmem j x hx with ⟨i,hi,hx'⟩|⟨hj,rfl⟩ <;> rcases hmem j y hy with ⟨k,hk,hy'⟩|⟨hj',rfl⟩
    · rw [←hσ.injective (hk.trans hi.symm)] at hx'
      exact ht.same k x hx' y hy'
    · exact (hkey i x hx').1 (hi.trans hj')
    · exact ((hkey k y hy').1 (hk.trans hj)).symm
    · rfl
  · rw [hsame,hsame]
    rcases hmem j x hx with ⟨i,hi,hx'⟩|⟨hj,rfl⟩ <;> rcases hmem k y hy with ⟨l,hl,hy'⟩|⟨hk,rfl⟩
    · exact ht.sorted i l (hσ.lt_iff_lt.mp (by omega)) x hx' y hy'
    · exact (hkey i x hx').2.1 (by omega)
    · exact (hkey l y hy').2.2 (by omega)
    · omega
  · rcases hmem j q hq with ⟨i,-,hq'⟩|⟨-,rfl⟩
    · exact ht.live i q hq'
    · exact hsrc
  · rw [hperm.countP_eq,countP_cons,ht.count s hs,hold_apply]
    by_cases h : (w.route p).src=s
    · simp [h]
      omega
    · simp [h,Ne.symm h]
  · have hidle := ht.idle s hs
    rw [hold_apply] at hidle
    omega
  · rcases htail j q hq with rfl|⟨i,hq'⟩
    · exact hin
    · exact ht.head i q hq'

/-- The slots with a route appended to one of them. -/
theorem appendRoute_kept (ht : Table (hold held (w.route p).src) w) (hi : i<w.slots.length)
    (hin : (w.route p).installed=false) (hsrc : (w.route p).src∈w.srcs)
    (hnew : ∀ q∈w.slot i, w.key q=w.key p ∧
      ¬((w.route q).neigh=(w.route p).neigh ∧ (w.route q).nexthop=(w.route p).nexthop)) :
    Table held {w with slots := w.slots.modify i fun l => l++[p]} := by
  obtain ⟨a,b,hab,ha⟩ := slots_split hi
  have hslots : w.slots.modify i (fun l => l++[p])=a++(w.slot i++[p])::b := by
    conv_lhs => rw [hab,←ha]
    rw [modify_eq_take_drop,take_left,drop_left,ha]
    rfl
  have hslot : ∀ j, slot {w with slots := w.slots.modify i fun l => l++[p]} j =
      if j=i then w.slot i++[p] else w.slot j := fun j =>
    (slot_of_slots hslots j).trans (slot_replace hab ha _ j)
  refine enterSlot_kept (n := i) (σ := id) ht hin hsrc strictMono_id (fun j q hq => ?_)
    (fun j q hq => ?_) ?_ (by rw [length_modify]; exact ht.room) (fun j hj => ?_) (fun j => ?_)
    fun j q hq => ?_
  · rw [hslot] at hq
    split at hq
    · rename_i hj
      rcases mem_append.mp hq with hq|hq
      · exact .inl ⟨j,rfl,hj ▸ hq⟩
      · exact .inr ⟨hj,mem_singleton.mp hq⟩
    · exact .inl ⟨j,rfl,hq⟩
  · have hhead := headD_mem ht.toShape hi
    rw [←(hnew _ hhead).1]
    exact ⟨fun hj => ht.same i q (hj ▸ hq) _ hhead,fun h => ht.sorted j i h q hq _ hhead,
      fun h => ht.sorted i j h _ hhead q hq⟩
  · rw [hslots,hab,flatten_append,flatten_cons,flatten_append,flatten_cons,append_assoc,
      singleton_append,←append_assoc,←append_assoc]
    exact perm_middle
  · rw [hslot]
    split
    · simp
    · exact ht.nonempty j (by simpa using hj)
  · rw [hslot]
    split
    · rw [pairwise_append]
      refine ⟨ht.distinct i,pairwise_singleton ..,fun x hx y hy => ?_⟩
      rw [mem_singleton.mp hy]
      exact (hnew x hx).2
    · exact ht.distinct j
  · rw [hslot] at hq
    split at hq
    · rw [tail_append_of_ne_nil (ht.nonempty i hi)] at hq
      rcases mem_append.mp hq with hq|hq
      · exact .inr ⟨i,hq⟩
      · exact .inl (mem_singleton.mp hq)
    · exact .inr ⟨j,hq⟩

/-- The slots with a new one for a route whose prefix was absent. -/
theorem insertSlot_kept (ht : Table (hold held (w.route p).src) w) (hn : n≤w.slots.length)
    (hin : (w.route p).installed=false) (hsrc : (w.route p).src∈w.srcs)
    (hbelow : ∀ i<n, ∀ q∈w.slot i, w.key q<w.key p)
    (habove : ∀ i, n ≤ i → ∀ q∈w.slot i, w.key p<w.key q) (hroom : w.slots.length<w.maxRouteSlots) :
    Table held {w with slots := w.slots.insertIdx n [p]} := by
  have hslot : ∀ j, slot {w with slots := w.slots.insertIdx n [p]} j =
      if j<n then w.slot j else if j=n then [p] else w.slot (j-1) := by
    intro j
    rw [slot_of_slots rfl,getElem?_insertIdx]
    split
    · exact slot_getElem? w j
    split
    · rw [if_pos (by omega)]
      rfl
    · exact slot_getElem? w (j-1)
  refine enterSlot_kept (n := n) (σ := fun i => if i<n then i else i+1) ht hin hsrc
    (fun i j hij => ?_) (fun j q hq => ?_) (fun i q hq => ?_) (perm_insertIdx [p] w.slots hn).flatten
    (by rw [length_insertIdx_of_le_length hn]; exact hroom) (fun j hj => ?_) (fun j => ?_)
    fun j q hq => ?_
  · dsimp only
    split <;> split <;> omega
  · rw [hslot] at hq
    split at hq
    · exact .inl ⟨j,if_pos ‹_›,hq⟩
    split at hq
    · exact .inr ⟨‹_›,mem_singleton.mp hq⟩
    · exact .inl ⟨j-1,by rw [if_neg (by omega)]; omega,hq⟩
  · split
    · exact ⟨fun h => by omega,fun _ => hbelow i ‹_› q hq,fun h => by omega⟩
    · exact ⟨fun h => by omega,fun h => by omega,fun _ => habove i (by omega) q hq⟩
  · have hj' : j<w.slots.length+1 := by
      rw [←length_insertIdx_of_le_length hn]
      exact hj
    rw [hslot]
    split
    · exact ht.nonempty j (by omega)
    split
    · simp
    · exact ht.nonempty (j-1) (by omega)
  · rw [hslot]
    split
    · exact ht.distinct j
    split
    · exact pairwise_singleton ..
    · exact ht.distinct (j-1)
  · rw [hslot] at hq
    split at hq
    · exact .inr ⟨j,hq⟩
    split at hq
    · cases hq
    · exact .inr ⟨j-1,hq⟩

/-- `insert_route` finds no room: the prefix is absent and the full table cannot grow. -/
def Refused (E : Env) (pfx : BitVec 128) (plen : ℕ) (w : World) : Prop :=
  (∃ n, findRouteSlot w pfx plen=.absent n) ∧ w.maxRouteSlots≤w.slots.length ∧
    E.realloc w.log (grownSlots w)=false

theorem Resized.table (h : Resized w w') (ht : Table held' w)
    (hroom : w.slots.length≤w'.maxRouteSlots) : Kept held' w w' := by
  have hslot : ∀ j, w'.slot j=w.slot j := fun j => by rw [slot,slot,h.slots]
  refine ⟨ht.sub (σ := id) strictMono_id (fun j => by rw [hslot]; exact List.Sublist.refl _)
    (fun j hj => by rw [hslot]; exact ht.nonempty j (h.slots ▸ hj))
    (fun j q hq => ⟨by rw [key,key,sourceOf,sourceOf,h.route,h.source],
      by rw [h.route],by rw [h.route],by rw [h.route]⟩) (fun j q hq => ?_) (fun s hs => ?_)
    (by rw [h.slots]; exact hroom) (fun s hs => ht.idle s (h.srcs ▸ hs)),
    fun hf => ⟨fun s hs => ?_,h.events⟩,h.aborted⟩
  · rw [h.route,h.srcs]
    rw [hslot] at hq
    exact ht.live j q hq
  · rw [h.source,h.slots,h.route]
    exact ht.count s (h.srcs ▸ hs)
  rw [h.now,h.source]
  exact hf s (h.srcs ▸ hs)

/-- `insert_route` puts a new route into the table unless it finds no room. -/
theorem insertRoute_spec (ht : Table (hold held (w.route p).src) w) (hnot : ∀ j, p ∉ w.slot j)
    (hin : (w.route p).installed=false) (hsrc : (w.route p).src∈w.srcs)
    (hnew : ∀ i, ∀ q∈w.slot i, w.key q=w.key p →
      ¬((w.route q).neigh=(w.route p).neigh ∧ (w.route q).nexthop=(w.route p).nexthop)) :
    ((insertRoute E p w).2=true → Kept held w (insertRoute E p w).1 ∧
      ∃ i, p∈(insertRoute E p w).1.slot i) ∧
    ((insertRoute E p w).2=false → Kept (hold held (w.route p).src) w (insertRoute E p w).1) ∧
    ((insertRoute E p w).2=false ↔ Refused E (w.sourceOf p).pfx (w.sourceOf p).plen w) := by
  have hexpect : w.expect (!(w.route p).installed)=w := by
    rw [expect,hin]
    rfl
  rw [insertRoute,hexpect]
  cases hf : findRouteSlot w (w.sourceOf p).pfx (w.sourceOf p).plen with
  | found i =>
    obtain ⟨hi,hkey⟩ := findRouteSlot_found ht.toShape hf
    refine ⟨fun _ => ⟨⟨appendRoute_kept ht hi hin hsrc fun q hq =>
      ⟨hkey q hq,hnew i q hq (hkey q hq)⟩,fun h => ⟨h,[],(append_nil _).symm,
        by simp⟩,rfl⟩,i,?_⟩,by simp,
      ⟨by simp,fun h => ?_⟩⟩
    · rw [slot_of_slots rfl,getElem?_modify]
      simp [getElem?_eq_getElem hi]
    obtain ⟨n,hn⟩ := h.1
    rw [hf] at hn
    cases hn
  | absent n =>
    obtain ⟨hn,hbelow,habove⟩ := findRouteSlot_absent ht.toShape hf
    obtain ⟨hr,hgrown⟩ := growRouteTable_resized (E := E) ht.room
    dsimp only
    by_cases hroom : w.slots.length<(growRouteTable E w).maxRouteSlots
    · have hk := hr.table ht hroom.le
      have hroom' : ¬(growRouteTable E w).slots.length ≥ (growRouteTable E w).maxRouteSlots := by
        rw [hr.slots]
        exact not_le.mpr hroom
      rw [if_neg hroom']
      have hslot : ∀ j, (growRouteTable E w).slot j=w.slot j := fun j => by
        rw [slot,slot,hr.slots]
      have hkey : ∀ q, (growRouteTable E w).key q=w.key q := fun q => by
        rw [key,key,sourceOf,sourceOf,hr.route,hr.source]
      have htable := @insertSlot_kept _ held p n (by rw [hr.route]; exact hk.table)
        (by rw [hr.slots]; exact hn) (by rw [hr.route]; exact hin)
        (by rw [hr.route,hr.srcs]; exact hsrc)
        (fun i hi q hq => by rw [hkey,hkey]; exact hbelow i hi q (hslot i ▸ hq))
        (fun i hi q hq => by rw [hkey,hkey]; exact habove i hi q (hslot i ▸ hq))
        (by rw [hr.slots]; exact hroom)
      refine ⟨fun _ => ⟨hk.trans ⟨htable,fun h => ⟨h,[],(append_nil _).symm,
        by simp⟩,rfl⟩,n,?_⟩,by simp,
        ⟨by simp,fun h => ?_⟩⟩
      · rw [slot_of_slots rfl,getElem?_insertIdx_self,if_pos (by rw [hr.slots]; exact hn)]
        exact mem_singleton_self p
      rcases hgrown.mp hroom with hlt|hok
      · exact absurd h.2.1 (not_le.mpr hlt)
      rw [h.2.2] at hok
      cases hok
    · have hnever := mt hgrown.mpr hroom
      rw [not_or,not_lt,Bool.not_eq_true] at hnever
      have hroom' : (growRouteTable E w).slots.length ≥ (growRouteTable E w).maxRouteSlots := by
        rw [hr.slots]
        exact not_lt.mp hroom
      have hmax : (growRouteTable E w).maxRouteSlots=w.maxRouteSlots := by
        have hn' : w.slots.length≤grownSlots w := by
          have hle := ht.room
          rw [grownSlots]
          split <;> omega
        rw [growRouteTable,if_pos hnever.1]
        change (resizeRouteTable E (grownSlots w) w).maxRouteSlots=_
        rw [(resizeRouteTable_resized hn').2,hnever.2,Bool.or_false,if_neg]
        have hpos : grownSlots w≠0 := by
          rw [grownSlots]
          split <;> omega
        simpa using hpos
      rw [if_pos hroom']
      exact ⟨by simp,fun _ => hr.table ht (by rw [hmax]; exact ht.room),
        fun _ => ⟨⟨n,hf⟩,hnever⟩,fun _ => rfl⟩

theorem modifyFresh_kept (ht : Table held w) (hp : ∀ j, p ∉ w.slot j) (f : Route → Route) :
    Kept held w (w.modifyRoute p f) := by
  have hoth : ∀ j, ∀ q∈w.slot j, (w.modifyRoute p f).route q=w.route q := fun j q hq =>
    update_of_ne (fun h : q=p => hp j (h ▸ hq)) ..
  have hkey : ∀ j, ∀ q∈w.slot j, (w.modifyRoute p f).key q=w.key q := by
    intro j q hq
    change toLex ((w.source ((w.modifyRoute p f).route q).src).pfx.toNat,
      (w.source ((w.modifyRoute p f).route q).src).plen)=_
    rw [hoth j q hq]
    rfl
  refine ⟨ht.sub (σ := id) strictMono_id (fun j => List.Sublist.refl _) ht.nonempty
    (fun j q hq => ⟨hkey j q hq,by rw [hoth j q hq],by rw [hoth j q hq],
      by rw [hoth j q hq]⟩) (fun j q hq => ?_) (fun s hs => ?_) ht.room ht.idle,
    fun h => ⟨h,[],(append_nil _).symm,nofun⟩,rfl⟩
  · rw [hoth j q hq]
    exact ht.live j q hq
  change (w.source s).routeCount=w.slots.flatten.countP
    (fun q => ((w.modifyRoute p f).route q).src=s)+held s
  rw [ht.count s hs]
  congr 1
  refine countP_congr fun q hq => ?_
  obtain ⟨j,hj⟩ := mem_flatten_iff.mp hq
  rw [hoth j q hj]

/-- A new route is taken in, or given up and counted by its source all the same. -/
theorem updateNewRoute_spec (ht : Table held w) (hsrc : src∈w.srcs)
    (hpfx : (w.source src).pfx=u.pfx) (hplen : (w.source src).plen=u.plen)
    (hunknown : ∀ i, ∀ q∈w.slot i, w.key q=target u.pfx u.plen →
      ¬((w.route q).neigh=u.neigh ∧ (w.route q).nexthop=u.nexthop))
    {m : Option ℕ} (hfresh : ∀ p∈m, ∀ i, p ∉ w.slot i) (addMetric : ℕ) :
    ∃ held', Survives held' w (updateNewRoute E u m src addMetric w) ∧
      (held'=held ∨ u.refmetric.toNat < infinity ∧ m.isSome ∧
        (updateFeasible w src u.seqno u.refmetric=true ∨ E.keepUnfeasible=true) ∧
        (∃ n, findRouteSlot w u.pfx u.plen=.absent n) ∧ w.maxRouteSlots≤w.slots.length ∧
        ∃ log, E.realloc log (grownSlots w)=false) := by
  rw [updateNewRoute]
  by_cases hmet : u.refmetric.toNat ≥ infinity
  · rw [if_pos hmet]
    exact ⟨held,(Kept.refl ht).survives,.inl rfl⟩
  rw [if_neg hmet]
  generalize updateFeasible w src u.seqno u.refmetric=feasible
  have h1 : Quiet w (if (!feasible)=true then sendUnfeasibleRequest E u.neigh false u.seqno
      (min (u.refmetric.toNat+E.neighbourCost u.neigh+addMetric) infinity) src w else w) := by
    split
    · exact sendUnfeasibleRequest_quiet ht ..
    · exact Quiet.refl w
  generalize (if (!feasible)=true then _ else w)=w1 at h1 ⊢
  have ht1 := h1.steady.table ht
  by_cases hkeep : (!feasible && !E.keepUnfeasible)=true
  · rw [if_pos hkeep]
    exact ⟨held,(h1.turned ht).kept.survives,.inl rfl⟩
  rw [if_neg hkeep]
  cases m with
  | none => exact ⟨held,(h1.turned ht).kept.survives,.inl rfl⟩
  | some p =>
    have hp1 : ∀ j, p ∉ w1.slot j := fun j => by
      rw [h1.steady.slot]
      exact hfresh p rfl j
    have hsrc1 : src∈w1.srcs := by
      rw [h1.srcs]
      exact hsrc
    have hrec := retainSource_recount src w1
    have ht2 := retainSource_table ht1 hsrc1
    have hsurvive := fun h' w' (h : Kept h' (retainSource src w1) w') => survives_of_retain hsrc1 h
    dsimp only
    generalize retainSource src w1=w2 at hrec ht2 hsurvive ⊢
    have hp2 : ∀ j, p ∉ w2.slot j := fun j => by
      rw [hrec.slot]
      exact hp1 j
    generalize hmade : (Route.mk src u.refmetric (BitVec.ofNat 16 (E.neighbourCost u.neigh))
      (BitVec.ofNat 16 addMetric) u.seqno u.neigh u.nexthop _ u.holdTime false
      (u.channels.take diversityHops))=made
    have hk3 := modifyFresh_kept ht2 hp2 fun _ => made
    have hself3 : (w2.modifyRoute p fun _ => made).route p=made := update_self ..
    have hoth3 : ∀ q, q≠p → (w2.modifyRoute p fun _ => made).route q=w2.route q := fun q hq =>
      update_of_ne hq ..
    have hslot3 : ∀ j, (w2.modifyRoute p fun _ => made).slot j=w2.slot j := fun _ => rfl
    have hsource3 : (w2.modifyRoute p fun _ => made).source=w2.source := rfl
    have hsrcs3 : (w2.modifyRoute p fun _ => made).srcs=w2.srcs := rfl
    have hsame3 : (w2.modifyRoute p fun _ => made).slots=w2.slots ∧
        (w2.modifyRoute p fun _ => made).maxRouteSlots=w2.maxRouteSlots := ⟨rfl,rfl⟩
    generalize w2.modifyRoute p (fun _ => made)=w3
      at hk3 hself3 hoth3 hslot3 hsource3 hsrcs3 hsame3 ⊢
    have hmsrc : (w3.route p).src=src := by rw [hself3,←hmade]
    have hident : ∀ s, (w3.source s).pfx=(w.source s).pfx ∧
        (w3.source s).plen=(w.source s).plen := by
      intro s
      rw [hsource3,hrec.source]
      split <;> exact ⟨h1.pfx s,h1.plen s⟩
    have hroute3 : ∀ q, q≠p → w3.route q=w.route q := fun q hq => by
      rw [hoth3 q hq,hrec.route,h1.route]
    have hslots3 : w3.slots=w.slots := by rw [hsame3.1,hrec.slots,h1.slots]
    have hslot : ∀ j, w3.slot j=w.slot j := fun j => by rw [slot,slot,hslots3]
    have hne : ∀ j, ∀ q∈w.slot j, q≠p := fun j q hq h => hfresh p rfl j (h ▸ hq)
    have hpkey : w3.sourceOf p=w3.source src := by rw [sourceOf,hmsrc]
    have hspec := @insertRoute_spec w3 held p E (by
        rw [hmsrc]
        exact hk3.table)
      (fun j => by rw [hslot]; exact hfresh p rfl j) (by rw [hself3,←hmade])
      (by rw [hmsrc,hsrcs3,hrec.srcs]; exact hsrc1) (fun j q hq hkey => by
        rw [hslot] at hq
        have hkey' : w.key q=target u.pfx u.plen := by
          rw [key,key,hpkey,(hident src).1,(hident src).2,hpfx,hplen,
            sourceOf,hroute3 q (hne j q hq),(hident _).1,(hident _).2] at hkey
          exact hkey
        rw [hroute3 q (hne j q hq),hself3,←hmade]
        exact hunknown j q hq hkey')
    obtain ⟨hin,hout,hrefused⟩ := hspec
    have hbef : ∀ {h' w'}, Kept h' w3 w' → Survives h' w w' := by
      intro h' w' hk
      have hs := hsurvive h' w' (hk3.trans hk)
      refine ⟨hs.table,h1.events.trans hs.logged,fun hab => (hs.aborted hab).imp ?_ ?_⟩
      · intro h
        rw [←h1.aborted]
        exact h
      rintro ⟨s,hs,hcnt⟩
      exact ⟨s,h1.srcs ▸ hs,by rw [←h1.routeCount]; exact hcnt⟩
    cases hflag : (insertRoute E p w3).2 with
    | true =>
      obtain ⟨hk4,i,hi⟩ := hin hflag
      rw [if_pos rfl]
      exact ⟨held,hbef (hk4.trans (considerRoute_turned hk4.table hi).1.kept),.inl rfl⟩
    | false =>
      have hk4 := hout hflag
      rw [hmsrc] at hk4
      rw [if_neg (by simp)]
      refine ⟨hold held src,hbef hk4,.inr ⟨not_le.mp hmet,rfl,?_,?_,?_,?_⟩⟩
      · cases feasible with
        | true => exact .inl rfl
        | false => exact .inr (by simpa using hkeep)
      · obtain ⟨n,hn⟩ := (hrefused.mp hflag).1
        rw [hpkey,(hident src).1,(hident src).2,hpfx,hplen] at hn
        refine findRouteSlot_eq_absent ht.toShape fun i q hq hkey => ?_
        have hkey' : w3.key q=target u.pfx u.plen := by
          rw [key,sourceOf,hroute3 q (hne i q hq),(hident _).1,(hident _).2]
          exact hkey
        have hfnd := findRouteSlot_of_mem hk3.table.toShape (by rw [hslot]; exact hq) hkey'
        rw [hn] at hfnd
        cases hfnd
      · have hfull := (hrefused.mp hflag).2.1
        rw [hslots3,hsame3.2,hrec.maxRouteSlots,h1.maxRouteSlots] at hfull
        exact hfull
      have hno := (hrefused.mp hflag).2.2
      rw [grownSlots,hsame3.2,hrec.maxRouteSlots,h1.maxRouteSlots] at hno
      exact ⟨_,hno⟩

/-- The update makes a new route and hands it to `insert_route`. -/
structure EntersRoute (E : Env) (m : Malloc) (u : Update) (w : World) : Prop where
  router : u.routerId≠E.myid
  proper : martianPrefix u.pfx u.plen=false
  admitted : E.inputFilter u.routerId u.pfx u.plen u.neigh < infinity
  unknown : findRoute w u.pfx u.plen u.neigh u.nexthop=none
  /-- The source is there, or there is memory for it. -/
  source : (lookupSource w u.routerId u.pfx u.plen).isSome ∨ m.source.isSome
  finite : u.refmetric.toNat < infinity
  feasible : E.keepUnfeasible=true ∨ ∀ s∈lookupSource w u.routerId u.pfx u.plen,
    updateFeasible w s u.seqno u.refmetric=true
  memory : m.route.isSome

/-- The update makes a new route for an absent prefix, and `realloc` refuses to let the full table
grow. Every step has its own environment, so that the log may be any. -/
def MayLeak (E : Env) (m : Malloc) (u : Update) (w : World) : Prop :=
  EntersRoute E m u w ∧ (∃ n, findRouteSlot w u.pfx u.plen=.absent n) ∧
    w.maxRouteSlots≤w.slots.length ∧ ∃ log, E.realloc log (grownSlots w)=false

/-- The addresses that `malloc` answers are in no list. -/
def Malloc.Fresh (m : Malloc) (w : World) : Prop :=
  (∀ s∈m.source, s ∉ w.srcs) ∧ ∀ p∈m.route, ∀ i, p ∉ w.slot i

theorem Kept.survives_trans {held1 held2 : ℕ→ℕ} (h : Kept held1 w w')
    (hold : ∀ s∈w.srcs, s∈w'.srcs ∧ w'.source s=w.source s)
    (hnew : ∀ s∈w'.srcs, s∈w.srcs ∨ (w'.source s).routeCount=0)
    (h' : Survives held2 w' w'') : Survives held2 w w'' := by
  refine ⟨h'.table,h.logged.trans h'.logged,fun hab => (h'.aborted hab).imp
    (fun h'' => h.aborted ▸ h'') ?_⟩
  rintro ⟨s,hs,hfull⟩
  rcases hnew s hs with hmem|hz
  · exact ⟨s,hmem,(hold s hmem).2 ▸ hfull⟩
  rw [hz] at hfull
  omega

/-- `update_route` keeps the table, but may leak a reference where it cannot grow. -/
theorem updateRoute_spec (ht : Table held w) {m : Malloc} (hm : m.Fresh w) :
    (∃ held', Survives held' w (updateRoute E m u w) ∧ (held'=held ∨ MayLeak E m u w)) ∧
    ∀ p src w1, u.routerId≠E.myid → martianPrefix u.pfx u.plen=false →
      E.inputFilter u.routerId u.pfx u.plen u.neigh < infinity →
      findRoute w u.pfx u.plen u.neigh u.nexthop=some p → (w.route p).installed=true →
      (w.sourceOf p).id≠u.routerId →
      findSource m.source u.routerId u.pfx u.plen u.seqno w=(w1,some src) →
      updateFeasible w1 src u.seqno u.refmetric=false →
      ((updateRoute E m u w).route p).installed=false := by
  rw [updateRoute]
  by_cases hid : u.routerId=E.myid
  · rw [if_pos hid]
    exact ⟨⟨held,(Kept.refl ht).survives,.inl rfl⟩,fun p src w1 h => absurd hid h⟩
  rw [if_neg hid]
  by_cases hmartian : martianPrefix u.pfx u.plen=true
  · rw [if_pos hmartian]
    exact ⟨⟨held,(Kept.refl ht).survives,.inl rfl⟩,fun p src w1 _ h => by
      rw [hmartian] at h
      exact absurd h (by decide)⟩
  rw [if_neg hmartian]
  by_cases hfilter : E.inputFilter u.routerId u.pfx u.plen u.neigh ≥ infinity
  · rw [if_pos hfilter]
    exact ⟨⟨held,(Kept.refl ht).survives,.inl rfl⟩,
      fun p src w1 _ _ h => absurd hfilter (not_le.mpr h)⟩
  dsimp only
  rw [if_neg hfilter]
  cases hroute : findRoute w u.pfx u.plen u.neigh u.nexthop with
  | some p =>
    obtain ⟨i,hp,hpfx,hplen⟩ := findRoute_some ht.toShape hroute
    by_cases hsame : (w.sourceOf p).id=u.routerId
    · have hfilter' : (some p).filter (fun p => decide ((w.sourceOf p).id=u.routerId))=some p := by
        simp [hsame]
      rw [hfilter']
      have hspec := updateKnownRoute_spec (E := E) (u := u) ht hp (ht.live i p hp) rfl rfl
        (E.inputFilter u.routerId u.pfx u.plen u.neigh)
      refine ⟨⟨held,hspec.1,.inl rfl⟩,fun q src w1 _ _ _ hq _ hne => ?_⟩
      obtain rfl := some.inj hq
      exact absurd hsame hne
    have hfilter' : (some p).filter (fun p => decide ((w.sourceOf p).id=u.routerId))=none := by
      simp [hsame]
    rw [hfilter']
    cases hfind : findSource m.source u.routerId u.pfx u.plen u.seqno w with
    | mk w1 o =>
      obtain ⟨hk,hrts,hslots,-,-,-,hold,hnew,hsome⟩ := findSource_spec ht hm.1 hfind
      cases o with
      | none =>
        exact ⟨⟨held,hk.survives,.inl rfl⟩,fun q src w2 _ _ _ _ _ _ h => by
          exact absurd (Prod.mk.inj h).2 (by simp)⟩
      | some src =>
        obtain ⟨hsrc,hspfx,hsplen,hsid⟩ := hsome src rfl
        have hp1 : p∈w1.slot i := by
          rw [slot,hslots]
          exact hp
        have hsourceOf : w1.sourceOf p=w.sourceOf p := by
          rw [sourceOf,hrts]
          exact (hold _ (ht.live i p hp)).2
        have hspec := updateKnownRoute_spec (E := E) (u := u) hk.table hp1 hsrc
          (by rw [hspfx,hsourceOf,hpfx]) (by rw [hsplen,hsourceOf,hplen])
          (E.inputFilter u.routerId u.pfx u.plen u.neigh)
        refine ⟨⟨held,hk.survives_trans hold hnew hspec.1,.inl rfl⟩,
          fun q src' w2 _ _ _ hq hin hne h hfeas => ?_⟩
        obtain rfl := some.inj hq
        obtain ⟨rfl,hsome'⟩ := Prod.mk.inj h
        obtain rfl := some.inj hsome'
        refine hspec.2 hfeas (by rw [hrts]; exact hin) fun heq => hne ?_
        rw [←hsourceOf,sourceOf,←heq,hsid]
  | none =>
    have hfilter' : (none : Option ℕ).filter (fun p => decide ((w.sourceOf p).id=u.routerId)) =
        none := rfl
    rw [hfilter']
    refine ⟨?_,fun q src w1 _ _ _ hq => absurd hq (by simp)⟩
    cases hfind : findSource m.source u.routerId u.pfx u.plen u.seqno w with
    | mk w1 o =>
      obtain ⟨hk,hrts,hslots,hnow,hmax,-,hold,hnew,hsome⟩ := findSource_spec ht hm.1 hfind
      cases o with
      | none => exact ⟨held,hk.survives,.inl rfl⟩
      | some src =>
        obtain ⟨hsrc,hspfx,hsplen,hsid⟩ := hsome src rfl
        have hslot : ∀ j, w1.slot j=w.slot j := fun j => by rw [slot,slot,hslots]
        have hkey : ∀ j, ∀ q∈w.slot j, w1.key q=w.key q := by
          intro j q hq
          rw [key,key,sourceOf,sourceOf,hrts,(hold _ (ht.live j q hq)).2]
        obtain ⟨held',hs,hcase⟩ := updateNewRoute_spec (E := E) (u := u) hk.table hsrc hspfx hsplen
          (fun j q hq hq' => by
            rw [hslot] at hq
            rw [hkey j q hq] at hq'
            rw [hrts]
            exact findRoute_none ht.toShape hroute hq hq')
          (fun p hp j => by rw [hslot]; exact hm.2 p hp j)
          (E.inputFilter u.routerId u.pfx u.plen u.neigh)
        refine ⟨held',hk.survives_trans hold hnew hs,hcase.imp id ?_⟩
        rintro ⟨hfinite,hmemory,hfeas,hfnd,hfull,hno⟩
        refine ⟨⟨hid,Bool.eq_false_of_not_eq_true hmartian,not_le.mp hfilter,hroute,?_,hfinite,
          hfeas.symm.imp id fun hfeas s hs => ?_,hmemory⟩,?_,?_,?_⟩
        · cases hl : lookupSource w u.routerId u.pfx u.plen with
          | some s => exact .inl rfl
          | none =>
            refine .inr ?_
            rw [findSource.eq_def,hl] at hfind
            cases hmal : m.source with
            | some s => rfl
            | none =>
              rw [hmal] at hfind
              exact absurd (Prod.mk.inj hfind).2 (by simp)
        · rw [findSource.eq_def,hs] at hfind
          obtain ⟨rfl,hsome'⟩ := Prod.mk.inj hfind
          obtain rfl := some.inj hsome'
          exact hfeas
        · obtain ⟨n,hn⟩ := hfnd
          refine findRouteSlot_eq_absent ht.toShape fun j q hq hq' => ?_
          have hfnd' := findRouteSlot_of_mem hk.table.toShape (by rw [hslot]; exact hq)
            ((hkey j q hq).trans hq')
          rw [hn] at hfnd'
          cases hfnd'
        · rw [hmax,hslots] at hfull
          exact hfull
        rw [grownSlots,hmax] at hno
        exact hno

end RoutePlatform.BabelRoutes
