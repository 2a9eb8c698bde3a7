import RoutePlatform.BabelTable

/-!
# Babel: selecting routes keeps the table

Sending messages only touches the recorded distances. Considering a route, a route
that changed and a route that was lost rearrange slots, keep the installed route at
the head of its slot, and log only installations of feasible routes.
-/

namespace RoutePlatform.BabelRoutes

open Function List Option

variable {w w' w'' : World} {held : ℕ→ℕ} {p q i j s : ℕ} {E : Env} {visit : ℕ→World→World}

theorem seqnoCompare_eq_zero_iff {a b : BitVec 16} : seqnoCompare a b=0 ↔ a=b := by
  rw [seqnoCompare]
  by_cases h : a=b
  · simp [h]
  rw [if_neg h]
  split <;> simp [h]

/-- What `update_source` makes of a source that is not stale. -/
theorem updateSource_spec (src : ℕ) (seqno metric : BitVec 16) (w : World) :
    ∃ r, updateSource src seqno metric w = {w with source := update w.source src r} ∧
      r.id=(w.source src).id ∧ r.pfx=(w.source src).pfx ∧ r.plen=(w.source src).plen ∧
      r.routeCount=(w.source src).routeCount ∧
      (w.now-sourceGcTime≤(w.source src).time → w.now-sourceGcTime≤r.time ∧
        (Event.recorded src seqno metric (w.source src).seqno (w.source src).metric r.seqno
          r.metric).Sound) := by
  rw [updateSource]
  by_cases hinf : metric.toNat ≥ infinity
  · rw [if_pos hinf]
    refine ⟨w.source src,by rw [update_eq_self],rfl,rfl,rfl,rfl,fun ht => ⟨ht,?_⟩⟩
    refine ⟨.inr ⟨rfl,BitVec.le_refl _⟩,?_⟩
    have hle : (w.source src).metric ≤ metric := by
      rw [BitVec.le_def]
      rw [infinity] at hinf
      omega
    constructor
    · rintro (hgt|⟨heq,-⟩)
      · exact .inr hgt.le
      · exact .inr (seqnoCompare_eq_zero_iff.mpr heq).ge
    · rintro (hlt|hge)
      · exact absurd hinf (not_le.mpr hlt)
      rcases hge.lt_or_eq with hgt|hz
      · exact .inl hgt
      · exact .inr ⟨seqnoCompare_eq_zero_iff.mp hz.symm,hle⟩
  · rw [if_neg hinf]
    dsimp only
    have hfinite : metric.toNat < infinity := not_le.mp hinf
    split
    · rename_i hc
      refine ⟨{w.source src with seqno := seqno,metric := metric,time := w.now},?_,rfl,rfl,
        rfl,rfl,fun ht => ⟨?_,?_,?_⟩⟩
      · simp [World.modifySource]
      · rw [sourceGcTime]
        dsimp only
        omega
      · rcases hc with hstale|holder|⟨heq,hlt⟩
        · exact absurd hstale (not_lt.mpr ht)
        · exact .inl holder
        · exact .inr ⟨heq.symm,BitVec.le_of_lt hlt⟩
      · exact ⟨fun _ => .inl hfinite,fun _ => .inr ⟨rfl,BitVec.le_refl _⟩⟩
    · rename_i hc
      refine ⟨{w.source src with time := w.now},?_,rfl,rfl,rfl,rfl,
        fun ht => ⟨?_,.inr ⟨rfl,BitVec.le_refl _⟩,fun _ => .inl hfinite,fun _ => ?_⟩⟩
      · simp [World.modifySource]
      · rw [sourceGcTime]
        dsimp only
        omega
      rw [not_or,not_or] at hc
      obtain ⟨-,hold,hsame⟩ := hc
      rcases (not_lt.mp hold).lt_or_eq with hgt|hz
      · exact .inl hgt
      have heq := seqnoCompare_eq_zero_iff.mp hz.symm
      exact .inr ⟨heq,BitVec.not_lt.mp fun h => hsame ⟨heq,h⟩⟩

theorem record_quiet (w : World) {e : Event} (he : e.Sound) : Quiet w (w.record e) :=
  ⟨⟨fun _ => rfl,fun _ => rfl,fun _ => rfl,fun _ => rfl,rfl,rfl,rfl,rfl,
    fun h => ⟨h,[e],rfl,fun x hx => by rw [mem_singleton.mp hx]; exact he⟩⟩,rfl,rfl⟩

theorem sendRouteUpdate_quiet (ifp p : ℕ) (metric : BitVec 16)
    (hsrc : (w.route p).src∈w.srcs) : Quiet w (sendRouteUpdate ifp p metric w) := by
  rw [sendRouteUpdate]
  obtain ⟨r,hr,hid,hpfx,hplen,hcnt,hsound⟩ := updateSource_spec (w.route p).src
    (w.route p).seqno metric (w.record (.sent ifp (w.source (w.route p).src).id
      (w.source (w.route p).src).pfx (w.source (w.route p).src).plen (w.route p).seqno
      metric.toNat))
  rw [hr]
  have hsame : ∀ f : Source → ℕ, f r=f (w.source (w.route p).src) → ∀ s,
      f (update w.source (w.route p).src r s)=f (w.source s) := by
    intro f hf s
    by_cases hs : s=(w.route p).src
    · rw [hs,update_self,hf]
    · rw [update_of_ne hs]
  refine ⟨⟨fun s => ?_,fun s => ?_,fun s => hsame _ hplen s,fun s => hsame _ hcnt s,rfl,rfl,
    rfl,rfl,fun hf => ?_⟩,rfl,rfl⟩
  · by_cases hs : s=(w.route p).src
    · rw [hs]
      exact (congrArg Source.id (update_self ..)).trans hid
    · exact congrArg Source.id (update_of_ne hs ..)
  · by_cases hs : s=(w.route p).src
    · rw [hs]
      exact (congrArg Source.pfx (update_self ..)).trans hpfx
    · exact congrArg Source.pfx (update_of_ne hs ..)
  obtain ⟨htime,hevent⟩ := hsound (hf _ hsrc)
  refine ⟨fun s hs => ?_,[_,_],append_assoc _ _ _,fun e he => ?_⟩
  · by_cases hs' : s=(w.route p).src
    · rw [hs']
      exact htime.trans_eq (congrArg Source.time (update_self ..)).symm
    · exact (hf s hs).trans_eq (congrArg Source.time (update_of_ne hs' ..)).symm
  rcases mem_cons.mp he with rfl|he
  · exact trivial
  rw [mem_singleton.mp he]
  have hself : update w.source (w.route p).src r (w.route p).src=r := update_self ..
  change (Event.recorded _ _ _ _ _ (update w.source (w.route p).src r (w.route p).src).seqno
    (update w.source (w.route p).src r (w.route p).src).metric).Sound
  rw [hself]
  exact hevent

theorem flushLoop_quiet (ifp : ℕ) (buffer : List (BitVec 128 × ℕ)) :
    ∀ (w : World) (last : Option (BitVec 128 × ℕ)), Table held w →
      Quiet w (flushLoop E ifp last buffer w) := by
  induction buffer with
  | nil => exact fun w last _ => Quiet.refl w
  | cons b rest ih =>
    intro w last ht
    rw [flushLoop]
    split
    · exact ih w last ht
    dsimp only
    have hown : ∀ m last, Quiet w (flushLoop E ifp last rest
        (w.record (.sent ifp E.myid b.1 b.2 E.myseqno m))) := fun m last =>
      have hq := record_quiet w (e := .sent ifp E.myid b.1 b.2 E.myseqno m) trivial
      hq.trans (ih _ last (hq.steady.table ht))
    split
    · exact hown _ _
    · rename_i p _ hp
      split
      · exact ih w last ht
      obtain ⟨i,hi⟩ := findInstalledRoute_some ht hp
      have hq := sendRouteUpdate_quiet ifp p (announcedMetric E ifp (w.route p)) (ht.live i p hi)
      exact hq.trans (ih _ _ (hq.steady.table ht))
    · exact hown _ _

theorem flushUpdates_quiet (ht : Table held w) (ifp : ℕ) (buffer : List (BitVec 128 × ℕ)) :
    Quiet w (flushUpdates E ifp buffer w) := by
  rw [flushUpdates]
  split
  · exact flushLoop_quiet ifp buffer w none ht
  · exact Quiet.refl w

theorem flushAll_quiet (l : List (ℕ × List (BitVec 128 × ℕ))) :
    ∀ w : World, Table held w → Quiet w (flushAll E l w) := by
  induction l with
  | nil => exact fun w _ => Quiet.refl w
  | cons b rest ih =>
    intro w ht
    have hq := flushUpdates_quiet (E := E) ht b.1 b.2
    exact hq.trans (ih _ (hq.steady.table ht))

section

variable (ht : Table held w)
include ht

theorem send_quiet (call : SendCall) : Quiet w (send E call w) :=
  have hq := record_quiet w (e := .send call) trivial
  hq.trans (flushAll_quiet _ _ (hq.steady.table ht))

theorem sendUnfeasibleRequest_quiet (neigh : ℕ) (force : Bool) (seqno : BitVec 16) (metric src : ℕ) :
    Quiet w (sendUnfeasibleRequest E neigh force seqno metric src w) := by
  have hif : ∀ (c : Bool) call, Quiet w (if c=true then send E call w else w) := by
    intro c call
    split
    · exact send_quiet ht call
    · exact Quiet.refl w
  rw [sendUnfeasibleRequest]
  split
  · exact Quiet.refl w
  · exact hif _ _

theorem triggeredRequest_quiet (p oldmetric newmetric : ℕ) :
    Quiet w (triggeredRequest E p oldmetric newmetric w) := by
  rw [triggeredRequest]
  split
  · split
    · exact send_quiet ht _
    split
    · exact send_quiet ht _
    · exact Quiet.refl w
  · exact Quiet.refl w

theorem sendTriggeredUpdate_quiet (p oldsrc oldmetric : ℕ) :
    Quiet w (sendTriggeredUpdate E p oldsrc oldmetric w) := by
  rw [sendTriggeredUpdate]
  split
  · exact Quiet.refl w
  split
  · exact Quiet.refl w
  have hq := fun call => send_quiet (E := E) ht call
  exact (hq _).trans (triggeredRequest_quiet ((hq _).steady.table ht) _ _ _)

end

theorem updateFeasible_sound {src : ℕ} {seqno refmetric : BitVec 16} (hf : Fresh w)
    (hsrc : src∈w.srcs) (h : updateFeasible w src seqno refmetric=true) :
    FeasibleFor seqno refmetric (w.source src).seqno (w.source src).metric := by
  rw [updateFeasible] at h
  have hfresh : ¬(w.source src).time<w.now-sourceGcTime := not_lt.mpr (hf src hsrc)
  simp only [if_neg hfresh] at h
  split at h
  · rename_i hinf
    exact .inl hinf
  rw [Bool.or_eq_true,Bool.and_eq_true,decide_eq_true_iff,decide_eq_true_iff,
    decide_eq_true_iff] at h
  exact .inr h

theorem nodup_slot (hs : Shape held w) (i : ℕ) : (w.slot i).Nodup :=
  (hs.distinct i).imp fun hne heq => hne (by rw [heq]; exact ⟨rfl,rfl⟩)

theorem modifyRoute_steady (w : World) (p : ℕ) (f : Route→Route)
    (hf : (f (w.route p)).src=(w.route p).src ∧ (f (w.route p)).neigh=(w.route p).neigh ∧
      (f (w.route p)).nexthop=(w.route p).nexthop ∧
      (f (w.route p)).installed=(w.route p).installed) : Steady w (w.modifyRoute p f) := by
  have hsame : ∀ {α : Type} (g : Route → α), g (f (w.route p))=g (w.route p) → ∀ q,
      g ((w.modifyRoute p f).route q)=g (w.route q) := by
    intro α g hg q
    by_cases hq : q=p
    · rw [hq]
      exact (congrArg g (update_self ..)).trans hg
    · exact congrArg g (update_of_ne hq ..)
  exact ⟨⟨fun _ => rfl,fun _ => rfl,fun _ => rfl,fun _ => rfl,rfl,rfl,rfl,rfl,
    fun h => ⟨h,[],(append_nil _).symm,nofun⟩⟩,
    hsame _ hf.1,hsame _ hf.2.1,hsame _ hf.2.2.1,hsame _ hf.2.2.2,rfl⟩

/-- The flag of one route is set or cleared. -/
theorem modifyRoute_installed (w : World) (p : ℕ) (b : Bool) :
    Rearranged w (w.modifyRoute p fun r => {r with installed := b}) ∧
      ∀ q, ((w.modifyRoute p fun r => {r with installed := b}).route q).installed =
        if q=p then b else (w.route q).installed := by
  have hsame : ∀ {α : Type} (g : Route → α), (∀ r : Route, g {r with installed := b}=g r) →
      ∀ q, g ((w.modifyRoute p fun r => {r with installed := b}).route q)=g (w.route q) := by
    intro α g hg q
    by_cases hq : q=p
    · rw [hq]
      exact (congrArg g (update_self ..)).trans (hg _)
    · exact congrArg g (update_of_ne hq ..)
  refine ⟨⟨⟨fun _ => rfl,fun _ => rfl,fun _ => rfl,fun _ => rfl,rfl,rfl,rfl,rfl,
    fun h => ⟨h,[],(append_nil _).symm,nofun⟩⟩,
    hsame _ fun _ => rfl,hsame _ fun _ => rfl,hsame _ fun _ => rfl,rfl,fun i => List.Perm.refl _⟩,
    fun q => ?_⟩
  by_cases hq : q=p
  · rw [if_pos hq,hq]
    exact congrArg Route.installed (update_self p ({w.route p with installed := b} : Route) w.route)
  rw [if_neg hq]
  exact congrArg Route.installed (update_of_ne hq ..)

/-- The route may be installed without a loop, while no announcement is stale. -/
def LoopFree (w : World) (p : ℕ) : Prop :=
  Fresh w → FeasibleFor (w.route p).seqno (w.route p).refmetric
    (w.source (w.route p).src).seqno (w.source (w.route p).src).metric

theorem makeInstalled_rearranged (hfeas : LoopFree w p) :
    Rearranged w (makeInstalled p w) ∧ ∀ q, ((makeInstalled p w).route q).installed =
      if q=p then true else (w.route q).installed := by
  obtain ⟨hr,hin⟩ := modifyRoute_installed w p true
  refine ⟨⟨{hr.toFrame with events := fun hf => ⟨hf,[_],rfl,fun e he => ?_⟩},hr.src,hr.neigh,
    hr.nexthop,hr.length,hr.perm⟩,hin⟩
  rw [mem_singleton.mp he]
  exact hfeas hf

theorem moveInstalledRoute_slot (p i j : ℕ) (w : World) : (moveInstalledRoute p i w).slot j =
      if j=i ∧ (w.slot i).head? ≠ some p ∧ i<w.slots.length then p::(w.slot i).erase p
      else w.slot j := by
  rw [moveInstalledRoute]
  by_cases hhead : (w.slot i).head? = some p
  · rw [if_pos hhead,if_neg fun h => h.2.1 hhead]
  rw [if_neg hhead,World.slot,getD_eq_getElem?_getD,getElem?_modify]
  by_cases hj : j=i
  · subst hj
    by_cases hlt : j<w.slots.length
    · rw [if_pos ⟨rfl,hhead,hlt⟩,World.slot,getD_eq_getElem?_getD,getElem?_eq_getElem hlt]
      simp
    rw [if_neg fun h => hlt h.2.2,World.slot,getD_eq_getElem?_getD,getElem?_eq_none (by omega)]
    rfl
  rw [if_neg fun h => hj h.1,World.slot,getD_eq_getElem?_getD]
  simp only [if_neg (Ne.symm hj),id_map']

theorem moveInstalledRoute_rearranged (hp : p∈w.slot i) :
    Rearranged w (moveInstalledRoute p i w) := by
  have hoth : (moveInstalledRoute p i w).route=w.route ∧
      (moveInstalledRoute p i w).source=w.source ∧ (moveInstalledRoute p i w).srcs=w.srcs ∧
      (moveInstalledRoute p i w).now=w.now ∧ (moveInstalledRoute p i w).log=w.log ∧
      (moveInstalledRoute p i w).maxRouteSlots=w.maxRouteSlots ∧
      (moveInstalledRoute p i w).aborted=w.aborted ∧
      (moveInstalledRoute p i w).slots.length=w.slots.length := by
    rw [moveInstalledRoute]
    split <;> simp
  obtain ⟨hroute,hsource,hsrcs,hnow,hlog,hmax,haborted,hlen⟩ := hoth
  refine ⟨⟨fun s => by rw [hsource],fun s => by rw [hsource],fun s => by rw [hsource],
    fun s => by rw [hsource],hsrcs,hnow,hmax,haborted,fun hf => ⟨fun s hs => ?_,[],?_,?_⟩⟩,
    fun q => by rw [hroute],fun q => by rw [hroute],fun q => by rw [hroute],hlen,fun j => ?_⟩
  · rw [hsource,hnow]
    exact hf s (hsrcs ▸ hs)
  · rw [hlog,append_nil]
  · exact nofun
  rw [moveInstalledRoute_slot]
  split
  · rename_i h
    rw [h.1]
    exact perm_cons_erase hp
  · exact List.Perm.refl _

/-- A route becomes the installed one of its slot, where no other one is. -/
theorem becomeInstalled_table (ht : Table held w) (hp : p∈w.slot i)
    (hnone : ∀ q∈w.slot i, (w.route q).installed=false) (hfeas : LoopFree w p) :
    Rearranged w (moveInstalledRoute p i (makeInstalled p w)) ∧
      Table held (moveInstalledRoute p i (makeInstalled p w)) ∧
      ∀ q, ((moveInstalledRoute p i (makeInstalled p w)).route q).installed =
        if q=p then true else (w.route q).installed := by
  obtain ⟨hr,hin⟩ := makeInstalled_rearranged hfeas
  have hmove := moveInstalledRoute_rearranged (w := makeInstalled p w) (i := i) (hr.mem.mpr hp)
  have hroute : (moveInstalledRoute p i (makeInstalled p w)).route=(makeInstalled p w).route := by
    rw [moveInstalledRoute]
    split <;> rfl
  have hslot : ∀ j, (makeInstalled p w).slot j=w.slot j := fun _ => rfl
  refine ⟨hr.trans hmove,⟨(hr.trans hmove).shape ht.toShape,fun j q hq => ?_⟩,
    fun q => by rw [hroute,hin]⟩
  rw [hroute,hin]
  have hnd := nodup_slot ht.toShape i
  rw [moveInstalledRoute_slot,hslot,hslot] at hq
  split at hq
  · rw [tail_cons] at hq
    have hne : q≠p := fun heq => (hnd.mem_erase_iff.mp (heq ▸ hq)).1 rfl
    rw [if_neg hne]
    exact hnone q (mem_of_mem_erase hq)
  rename_i h
  by_cases hji : j=i
  · subst hji
    have hhead : (w.slot j).head? = some p := by
      by_contra hne
      exact h ⟨rfl,hne,lt_length_of_mem hp⟩
    have hne : q≠p := by
      rintro rfl
      cases hl : w.slot j with
      | nil => rw [hl] at hq; exact absurd hq not_mem_nil
      | cons a rest =>
        rw [hl] at hq hhead hnd
        obtain rfl := some.inj hhead
        exact (nodup_cons.mp hnd).1 hq
    rw [if_neg hne]
    exact hnone q (mem_of_mem_tail hq)
  · have hne : q≠p := by
      rintro rfl
      have hqj := mem_of_mem_tail hq
      rcases lt_or_gt_of_ne hji with hlt|hlt
      · exact lt_irrefl _ (ht.sorted j i hlt q hqj q hp)
      · exact lt_irrefl _ (ht.sorted i j hlt q hp q hqj)
    rw [if_neg hne]
    exact ht.head j q hq

theorem none_installed (ht : Table held w) (hp : p∈w.slot i)
    (h : findInstalledRoute w (w.sourceOf p).pfx (w.sourceOf p).plen=none) :
    ∀ q∈w.slot i, (w.route q).installed=false := by
  intro q hq
  by_contra hne
  have hin : (w.route q).installed=true := by
    cases hb : (w.route q).installed with
    | true => rfl
    | false => exact absurd hb hne
  have hkey : w.key q=target (w.sourceOf p).pfx (w.sourceOf p).plen := ht.same i q hq p hp
  have hsome := (findInstalledRoute_eq_some_iff ht).mpr ⟨⟨i,hq⟩,hkey,hin⟩
  rw [h] at hsome
  cases hsome

/-- What a function that may install a route of a slot leaves behind. -/
def Turned (held : ℕ → ℕ) (w w' : World) : Prop := Rearranged w w' ∧ Table held w'

theorem Turned.refl (ht : Table held w) : Turned held w w := ⟨Rearranged.refl w,ht⟩

theorem Turned.trans (h : Turned held w w') (h' : Turned held w' w'') : Turned held w w'' :=
  ⟨h.1.trans h'.1,h'.2⟩

theorem Steady.turned (h : Steady w w') (ht : Table held w) : Turned held w w' :=
  ⟨h.rearranged,h.table ht⟩

theorem Quiet.turned (h : Quiet w w') (ht : Table held w) : Turned held w w' := h.steady.turned ht

theorem Turned.mem (h : Turned held w w') : p∈w'.slot i ↔ p∈w.slot i := h.1.mem

theorem installRoute_turned (ht : Table held w) (hp : p∈w.slot i)
    (hnone : ∀ q∈w.slot i, (w.route q).installed=false) (hfeas : LoopFree w p) :
    Turned held w (installRoute E p w) ∧
      ∀ q, q≠p → ((installRoute E p w).route q).installed=(w.route q).installed := by
  rw [installRoute]
  split
  · exact ⟨Turned.refl ht,fun _ _ => rfl⟩
  rw [findRouteSlot_self ht.toShape hp]
  dsimp only
  split
  · exact ⟨Turned.refl ht,fun _ _ => rfl⟩
  have hq := record_quiet w (e := .kernel (.add (kernelEntry E w p
    (metricToKernel E (routeMetric (w.route p)))))) trivial
  split
  · exact ⟨hq.turned ht,fun _ _ => rfl⟩
  obtain ⟨hr,ht',hin⟩ := becomeInstalled_table (i := i) (hq.steady.table ht) hp hnone hfeas
  exact ⟨⟨hq.steady.rearranged.trans hr,ht'⟩,fun q hne => (hin q).trans (if_neg hne)⟩

theorem switchRoutes_turned (ht : Table held w) (hp : p∈w.slot i)
    (hold : findInstalledRoute w (w.sourceOf p).pfx (w.sourceOf p).plen=some q) (hne : q≠p)
    (hfeas : LoopFree w p) :
    Turned held w (switchRoutes E (some q) p w) ∧ ∀ r, r≠p → (w.route r).installed=false →
        ((switchRoutes E (some q) p w).route r).installed=false := by
  obtain ⟨⟨j,hqj⟩,hkey,hin⟩ := (findInstalledRoute_eq_some_iff ht).mp hold
  have hqi : q∈w.slot i := by
    have hfnd := findRouteSlot_of_mem ht.toShape hqj hkey
    rw [findRouteSlot_self ht.toShape hp] at hfnd
    cases hfnd
    exact hqj
  rw [switchRoutes,hin]
  simp only [Bool.not_true,Bool.false_eq_true,if_false]
  have hq := record_quiet w (e := .kernel (.modify
    (kernelEntry E w q (metricToKernel E (routeMetric (w.route q))))
    {kernelEntry E w p (metricToKernel E (routeMetric (w.route p))) with
      pfx := (w.sourceOf q).pfx,plen := (w.sourceOf q).plen})) trivial
  split
  · exact ⟨hq.turned ht,fun _ _ h => h⟩
  · -- the old route first loses its flag
    generalize hw1 : w.record _=w1 at hq ⊢
    have hroute1 := hq.route
    have hslot1 := hq.steady.slot
    obtain ⟨hr2,hin2⟩ := modifyRoute_installed w1 q false
    generalize hw2 : w1.modifyRoute q _=w2 at hr2 hin2 ⊢
    have hr := hq.steady.rearranged.trans hr2
    have hslot2 : ∀ k, w2.slot k=w.slot k := by
      intro k
      rw [←hw2]
      exact hslot1 k
    have ht2 : Table held w2 := by
      refine ⟨hr.shape ht.toShape,fun k r hrk => ?_⟩
      rw [hin2,hroute1]
      split
      · rfl
      rw [hslot2] at hrk
      exact ht.head k r hrk
    have hroute2 : w2.route p=w.route p := by
      rw [←hw2,←hroute1]
      exact update_of_ne (Ne.symm hne) ..
    have hsource2 : w2.source=w.source := by rw [←hw2,←hw1]; rfl
    have hfresh2 : Fresh w2 → Fresh w := by
      rw [←hw2,←hw1]
      exact fun h => h
    have hnone : ∀ r∈w2.slot i, (w2.route r).installed=false := by
      intro r hri
      rw [hin2,hroute1]
      split
      · rfl
      rename_i hrq
      by_contra hne'
      rw [hslot2] at hri
      have hin' : (w.route r).installed=true := by
        cases hb : (w.route r).installed with
        | true => rfl
        | false => exact absurd hb hne'
      exact hrq ((ht.eq_head hri hin').trans (ht.eq_head hqi hin).symm)
    have hfeas2 : LoopFree w2 p := fun hf => by
      rw [hroute2,hsource2]
      exact hfeas (hfresh2 hf)
    obtain ⟨hr3,ht3,hin3⟩ := becomeInstalled_table (i := i) ht2 (by rw [hslot2]; exact hp) hnone
      hfeas2
    obtain ⟨hmade,-⟩ := makeInstalled_rearranged hfeas2
    have hfnd := findRouteSlot_self (hmade.shape ht2.toShape)
        (hmade.mem.mpr (by rw [hslot2]; exact hp))
    rw [hfnd]
    refine ⟨⟨hr.trans hr3,ht3⟩,fun r hrp hrin => ?_⟩
    rw [hin3,if_neg hrp,hin2,hroute1,hrin]
    exact ite_self _

/-- A function turned the table and installed no route but one. -/
def TurnedFor (held : ℕ→ℕ) (p : ℕ) (w w' : World) : Prop :=
  Turned held w w' ∧ ∀ r, r≠p → (w.route r).installed=false → (w'.route r).installed=false

theorem TurnedFor.refl (ht : Table held w) : TurnedFor held p w w := ⟨Turned.refl ht,fun _ _ h => h⟩

theorem TurnedFor.quiet (h : TurnedFor held p w w') (hq : Quiet w' w'') : TurnedFor held p w w'' :=
  ⟨h.1.trans (hq.turned h.1.2),fun r hne hin => by rw [hq.route]; exact h.2 r hne hin⟩

theorem considerInstall_turned (ht : Table held w) (hp : p∈w.slot i)
    (hpin : (w.route p).installed=false) (hfeas : LoopFree w p) {o : Option ℕ}
    (hold : findInstalledRoute w (w.sourceOf p).pfx (w.sourceOf p).plen=o) :
    TurnedFor held p w (considerInstall E o p w) := by
  have hsw : TurnedFor held p w (switchRoutes E o p w) := by
    cases o with
    | none =>
      have h := installRoute_turned (E := E) ht hp (none_installed ht hp hold) hfeas
      exact ⟨h.1,fun r hne hin => (h.2 r hne).trans hin⟩
    | some q =>
      have hne : q≠p := by
        rintro rfl
        have hin := ((findInstalledRoute_eq_some_iff ht).mp hold).2.2
        rw [hpin] at hin
        cases hin
      exact switchRoutes_turned ht hp hold hne hfeas
  rw [considerInstall.eq_def]
  dsimp only
  split
  · split
    · exact hsw.quiet (sendTriggeredUpdate_quiet hsw.1.2 _ _ _)
    · exact hsw.quiet (send_quiet hsw.1.2 _)
  · exact hsw.quiet (send_quiet hsw.1.2 _)

theorem considerRoute_turned (ht : Table held w) (hp : p∈w.slot i) :
    TurnedFor held p w (considerRoute E p w) := by
  rw [considerRoute]
  split
  · exact TurnedFor.refl ht
  rename_i hpin
  split
  · exact TurnedFor.refl ht
  rename_i hfeas
  have hpin' := Bool.eq_false_of_not_eq_true hpin
  have hfeasible : updateFeasible w (w.route p).src (w.route p).seqno (w.route p).refmetric =
      true := by
    rw [Bool.not_eq_true,Bool.not_eq_false'] at hfeas
    exact hfeas
  have hfeas' := fun hf : Fresh w => updateFeasible_sound hf (ht.live i p hp) hfeasible
  have hins := fun o h => considerInstall_turned (E := E) (o := o) ht hp hpin' hfeas' h
  split
  · exact TurnedFor.refl ht
  split
  · exact hins _ ‹_›
  split
  · exact TurnedFor.refl ht
  split
  · exact hins _ ‹_›
  split
  · exact hins _ ‹_›
  · exact TurnedFor.refl ht

theorem considerRoute_unfeasible (h : routeFeasible w p=false) : considerRoute E p w=w := by
  rw [considerRoute,h]
  split <;> rfl

theorem bestLoop_mem (w : World) (feasible : Bool) (exclude : Option ℕ) (l : List ℕ) :
    ∀ best, bestLoop w feasible exclude best l∈best::l := by
  induction l with
  | nil => exact fun best => .head _
  | cons a rest ih =>
    intro best
    rw [bestLoop]
    split
    · exact .tail _ (ih a)
    rcases mem_cons.mp (ih best) with h|h
    · rw [h]
      exact .head _
    · exact .tail _ (.tail _ h)

theorem cons_headD_tail (h : w.slot i≠[]) : (w.slot i).headD 0::(w.slot i).tail=w.slot i := by
  cases hl : w.slot i with
  | nil => exact absurd hl h
  | cons a rest => rfl

theorem findBestRoute_mem (hs : Shape held w) {pfx : BitVec 128} {plen : ℕ} {feasible : Bool}
    {exclude : Option ℕ} (h : findBestRoute w pfx plen feasible exclude=some p) :
    ∃ i, p∈w.slot i ∧ w.key p=target pfx plen := by
  rw [findBestRoute] at h
  cases hf : findRouteSlot w pfx plen with
  | absent n =>
    rw [hf] at h
    cases h
  | found i =>
    rw [hf] at h
    obtain ⟨hi,hkey⟩ := findRouteSlot_found hs hf
    have hmem : p∈w.slot i := by
      rw [←cons_headD_tail (hs.nonempty i hi),←some.inj h]
      exact bestLoop_mem w feasible exclude _ _
    exact ⟨i,hmem,hkey p hmem⟩

theorem considerBetter_turned (ht : Table held w) (p : ℕ) :
    Turned held w (considerBetter E p w) := by
  rw [considerBetter]
  split
  · exact Turned.refl ht
  rename_i q hq
  obtain ⟨i,hmem,-⟩ := findBestRoute_mem ht.toShape hq
  split
  · exact (considerRoute_turned ht hmem).1
  · exact Turned.refl ht

theorem routeChanged_turned (ht : Table held w) (hp : p∈w.slot i) (oldsrc oldmetric : ℕ) :
    Turned held w (routeChanged E p oldsrc oldmetric w) := by
  rw [routeChanged]
  split
  · have hbetter : Turned held w
        (if routeMetric (w.route p) > oldmetric then considerBetter E p w else w) := by
      split
      · exact considerBetter_turned ht p
      · exact Turned.refl ht
    dsimp only
    generalize (if routeMetric (w.route p) > oldmetric then considerBetter E p w else w)=w'
      at hbetter ⊢
    split
    · exact hbetter.trans ((sendTriggeredUpdate_quiet hbetter.2 _ _ _).turned hbetter.2)
    · exact hbetter
  · exact (considerRoute_turned ht hp).1

theorem routeLost_turned (ht : Table held w) (src oldmetric : ℕ) :
    Turned held w (routeLost E src oldmetric w) ∧
      ∀ r, routeFeasible w r=false → (w.route r).installed=false →
        ((routeLost E src oldmetric w).route r).installed=false := by
  rw [routeLost]
  split
  · rename_i p hp
    obtain ⟨i,hmem,-⟩ := findBestRoute_mem ht.toShape hp
    have h := considerRoute_turned (E := E) ht hmem
    refine ⟨h.1,fun r hfeas hin => ?_⟩
    by_cases hrp : r=p
    · rw [←hrp,considerRoute_unfeasible hfeas]
      exact hin
    · exact h.2 r hrp hin
  split
  · have hq := send_quiet (E := E) ht (.updateResend (w.source src).pfx (w.source src).plen)
    have hq' := fun call => send_quiet (E := E) (hq.steady.table ht) call
    exact ⟨(hq.trans (hq' _)).turned ht,fun r _ hin => by
      rw [(hq.trans (hq' _)).route]
      exact hin⟩
  · exact ⟨Turned.refl ht,fun _ _ h => h⟩

theorem changeRouteMetric_steady (w : World) (p refmetric cost add : ℕ) :
    Steady w (changeRouteMetric E p refmetric cost add w) := by
  have hassign : ∀ w : World, Steady w (w.modifyRoute p fun r =>
      {r with refmetric := BitVec.ofNat 16 refmetric,cost := BitVec.ofNat 16 cost
              addMetric := BitVec.ofNat 16 add}) := fun w =>
    modifyRoute_steady w p _ ⟨rfl,rfl,rfl,rfl⟩
  rw [changeRouteMetric]
  dsimp only
  split
  · have hq := fun call => record_quiet w (e := .kernel call) trivial
    split
    · exact (hq _).steady
    · exact (hq _).steady.trans (hassign _)
  · exact hassign w

theorem retractRoute_steady (w : World) (p : ℕ) : Steady w (retractRoute E p w) :=
  changeRouteMetric_steady w p _ _ _

section

variable (ht : Table held w) (hp : p∈w.slot i)
include ht hp

theorem updateRouteMetric_turned : Turned held w (updateRouteMetric E p w) := by
  rw [updateRouteMetric]
  dsimp only
  split
  · split
    · have hs1 := modifyRoute_steady w p
        (fun r => {r with seqno := seqnoPlus (w.sourceOf p).seqno 1}) ⟨rfl,rfl,rfl,rfl⟩
      have hs2 := hs1.trans (retractRoute_steady (E := E) _ p)
      split
      · exact (hs2.turned ht).trans
          (routeChanged_turned (hs2.table ht) (hs2.rearranged.mem.mpr hp) _ _)
      · exact hs2.turned ht
    · exact Turned.refl ht
  have hs := changeRouteMetric_steady (E := E) w p (w.route p).refmetric.toNat
    (E.neighbourCost (w.route p).neigh)
    (E.inputFilter (w.sourceOf p).id (w.sourceOf p).pfx (w.sourceOf p).plen (w.route p).neigh)
  split
  · exact (hs.turned ht).trans (routeChanged_turned (hs.table ht) (hs.rearranged.mem.mpr hp) _ _)
  · exact hs.turned ht

theorem retractNeighbourRoute_turned : Turned held w (retractNeighbourRoute E p w) := by
  rw [retractNeighbourRoute]
  split
  · have hs := retractRoute_steady (E := E) w p
    dsimp only
    split
    · exact (hs.turned ht).trans (routeChanged_turned (hs.table ht) (hs.rearranged.mem.mpr hp) _ _)
    · exact hs.turned ht
  · exact Turned.refl ht

theorem expireVisit_turned : Turned held w (expireVisit E p w) := by
  have h := updateRouteMetric_turned (E := E) ht hp
  rw [expireVisit]
  split
  · exact h.trans ((send_quiet h.2 _).turned h.2)
  · exact h

end

theorem nextIn_mem {l : List ℕ} (h : nextIn l p=some q) : q∈l := by
  induction l with
  | nil => exact absurd h (by simp [nextIn])
  | cons a rest ih =>
    cases rest with
    | nil => exact absurd h (by simp [nextIn])
    | cons b rest =>
      rw [nextIn] at h
      split at h
      · rw [←some.inj h]
        exact .tail _ mem_cons_self
      · exact .tail _ (ih h)

/-- What a walk does at a route only turns the table. -/
def Turns (held : ℕ→ℕ) (visit : ℕ→World→World) : Prop :=
  ∀ w p i, Table held w → p∈w.slot i → Turned held w (visit p w)

section

variable (hv : Turns held visit)
include hv

theorem walkSlot_turned (i turns : ℕ) :
    ∀ (r : Option ℕ) (w : World), Table held w → (∀ p∈r, p∈w.slot i) →
      Turned held w (walkSlot visit i turns r w).1 := by
  induction turns with
  | zero => exact fun r w ht _ => Turned.refl ht
  | succ turns ih =>
    intro r w ht hr
    cases r with
    | none => exact Turned.refl ht
    | some p =>
      rw [walkSlot]
      have h := hv w p i ht (hr p rfl)
      exact h.trans (ih _ _ h.2 fun q hq => nextIn_mem hq)

theorem walkTable_turned (stride turns : ℕ) :
    ∀ (i : ℕ) (w : World), Table held w → Turned held w (walkTable visit stride turns i w) := by
  induction turns with
  | zero => exact fun i w ht => Turned.refl ht
  | succ turns ih =>
    intro i w ht
    rw [walkTable]
    split
    · have h := walkSlot_turned hv i (slotTurns w i) (w.slot i).head? w ht
        fun p hp => mem_of_head? hp
      exact h.trans (ih _ _ h.2)
    · exact Turned.refl ht

theorem turns_ite (c : World→ℕ→Prop) [∀ w p, Decidable (c w p)] :
    Turns held fun p w => if c w p then visit p w else w := by
  intro w p i ht hp
  dsimp only
  split
  · exact hv w p i ht hp
  · exact Turned.refl ht

end

theorem updateNeighbourMetric_turned (ht : Table held w) (neigh : ℕ) (changed : Bool) :
    Turned held w (updateNeighbourMetric E neigh changed w) := by
  rw [updateNeighbourMetric]
  split
  · exact walkTable_turned (turns_ite (fun _ _ _ => updateRouteMetric_turned)
      fun w p => (w.route p).neigh=neigh) _ _ _ _ ht
  · exact Turned.refl ht

theorem updateInterfaceMetric_turned (ht : Table held w) (ifp : ℕ) :
    Turned held w (updateInterfaceMetric E ifp w) :=
  walkTable_turned (turns_ite (fun _ _ _ => updateRouteMetric_turned)
    fun w p => E.neighIfp (w.route p).neigh=ifp) _ _ _ _ ht

theorem retractNeighbourRoutes_turned (ht : Table held w) (neigh : ℕ) :
    Turned held w (retractNeighbourRoutes E neigh w) :=
  walkTable_turned (turns_ite (fun _ _ _ => retractNeighbourRoute_turned)
    fun w p => (w.route p).neigh=neigh) _ _ _ _ ht

end RoutePlatform.BabelRoutes
